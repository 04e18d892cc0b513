import StreamLang.Fault

/-!
Reading the arguments of builtins. A value of the wrong kind is a fault that names the builtin.
-/

namespace StreamLang.Argument

def bad {α : Type} (b : Builtin) (wanted : Wanted) (v : Value) : Except Fault α :=
  .error (.badArgument b wanted v.kind)

def int (b : Builtin) : Value → Except Fault Int64
  | .int n => .ok n
  | v => bad b .int v

/-- How many elements to take, skip or put together. -/
def count (b : Builtin) (v : Value) : Except Fault Nat := do
  let n ← int b v
  if n < 0 then .error (.negativeCount b n) else .ok n.toInt.toNat

def text (b : Builtin) : Value → Except Fault String
  | .text s => .ok s
  | v => bad b .text v

/-- The items of a list; a set will do. -/
def list (b : Builtin) : Value → Except Fault (List Value)
  | .list items => .ok items
  | .set items => .ok items
  | v => bad b .list v

def map (b : Builtin) : Value → Except Fault (List (String × Value))
  | .map entries => .ok entries
  | v => bad b .map v

def future (b : Builtin) : Value → Except Fault Nat
  | .future id => .ok id
  | v => bad b .future v

def futures (b : Builtin) : List Value → Except Fault (List Nat)
  | [] => .ok []
  | v :: rest => do
    let id ← future b v
    let ids ← futures b rest
    return id :: ids

def number (b : Builtin) (v : Value) : Except Fault Binary64 :=
  match v.toBinary64? with
  | some x => .ok x
  | none => bad b .number v

end StreamLang.Argument
