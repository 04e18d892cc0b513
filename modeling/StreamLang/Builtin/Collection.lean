import StreamLang.Builtin.Argument
import StreamLang.Text.Search
import StreamLang.Value.Equality

/-!
The builtins on lists, sets and maps. A set stands for the list of its members wherever a list is
wanted.
-/

namespace StreamLang

namespace Value

def len : Value → Except Fault Value
  | list items => .ok (int (Int64.ofNat items.length))
  | set items => .ok (int (Int64.ofNat items.length))
  | tuple items => .ok (int (Int64.ofNat items.length))
  | map entries => .ok (int (Int64.ofNat entries.length))
  | text s => .ok (int (Int64.ofNat s.length))
  | v => Argument.bad (.collection .len) .collection v

def concat (a b : Value) : Except Fault Value :=
  match a, b with
  | text x, text y => .ok (text (x ++ y))
  | a, b => do
    let items ← Argument.list (.collection .concat) a
    let more ← Argument.list (.collection .concat) b
    return list (items ++ more)

/-- The item in a place, which a negative number is not. -/
def itemAt? (items : List Value) (i : Int64) : Option Value :=
  if i < 0 then none else items[i.toInt.toNat]?

def reverse : Value → Except Fault Value
  | text s => .ok (text (String.ofList s.toList.reverse))
  | v => do return list (← Argument.list (.collection .reverse) v).reverse

/-- The integers from `start` up to but without `stop`. -/
def range (start stop : Int64) : List Value :=
  (List.range (stop.toInt - start.toInt).toNat).map fun (k : Nat) =>
    int (Int64.ofInt (start.toInt + k))

def contains (a b : Value) : Except Fault Value :=
  match a, b with
  | text s, text needle => .ok (bool (Text.contains s needle))
  | map entries, text key => .ok (bool (Keyed.contains key entries))
  | list items, v => .ok (bool (items.any (·.equals v)))
  | set items, v => .ok (bool (items.any (·.sameMember v)))
  | a, _ => Argument.bad (.collection .contains) .collection a

/-- The entries of both maps; those of the second win. -/
def mergeEntries (left right : List (String × Value)) : List (String × Value) :=
  right.foldl (fun m e => Keyed.insert e.1 e.2 m) left

end Value

/-- The builtin, applied to as many arguments as it takes. -/
def CollectionOp.apply (op : CollectionOp) (args : List Value) : Except Fault Value :=
  let self : Builtin := .collection op
  match op, args with
  | .len, [v] => v.len
  | .append, [l, v] => do return .list ((← Argument.list self l) ++ [v])
  | .concat, [a, b] => a.concat b
  | .head, [l] => do return .option (← Argument.list self l).head?
  | .tail, [l] => do return .list ((← Argument.list self l).drop 1)
  | .nth, [l, i] => do
    let items ← Argument.list self l
    return .option (Value.itemAt? items (← Argument.int self i))
  | .reverse, [v] => v.reverse
  | .range, [a, b] => do
    let start ← Argument.int self a
    let stop ← Argument.int self b
    return .list (Value.range start stop)
  | .contains, [a, b] => a.contains b
  | .merge, [a, b] => do
    let left ← Argument.map self a
    let right ← Argument.map self b
    return .map (Value.mergeEntries left right)
  | .get, [m, k] => do
    let entries ← Argument.map self m
    return .option (Keyed.get? (← Argument.text self k) entries)
  | .put, [m, k, v] => do
    let entries ← Argument.map self m
    return .map (Keyed.insert (← Argument.text self k) v entries)
  | .remove, [m, k] => do
    let entries ← Argument.map self m
    return .map (Keyed.erase (← Argument.text self k) entries)
  | .keys, [m] => do return .list ((← Argument.map self m).map fun e => .text e.1)
  | .values, [m] => do return .list ((← Argument.map self m).map (·.2))
  | .hasKey, [m, k] => do
    let entries ← Argument.map self m
    return .bool (Keyed.contains (← Argument.text self k) entries)
  | .set, [l] => do return Value.setOf (← Argument.list self l)
  | .insert, [s, v] => do return Value.setOf ((← Argument.list self s) ++ [v])
  | .union, [a, b] => do
    let left ← Argument.list self a
    let right ← Argument.list self b
    return Value.setOf (left ++ right)
  | _, _ => .error (.unavailable self)

end StreamLang
