import Std.Data.HashMap
import StreamLang.Modules
import StreamLang.Value

/-!
Remembered results. A call is known by its function and by the code of its arguments, a sequence of
marks in which every compound value announces how many parts follow, so that different values have
different codes.
-/

namespace StreamLang

/-- A mark in the code of a value. -/
inductive CodeMark
  | int (n : Int64)
  /-- A floating-point number by its bits. -/
  | float (bits : UInt64)
  | text (s : String)
  | bool (b : Bool)
  | void
  | list (size : Nat)
  | set (size : Nat)
  | tuple (size : Nat)
  | map (size : Nat)
  | record (name : String) (size : Nat)
  | key (name : String)
  | enum (enum variant : String) (hasPayload : Bool)
  | some
  | none
  | ok
  | err
deriving DecidableEq, Hashable, Repr

namespace Value

mutual

/-- The code of a value; only data has one. -/
def code? : Value → Option (List CodeMark)
  | int n => Option.some [.int n]
  | float x => Option.some [.float x.bits]
  | text s => Option.some [.text s]
  | bool b => Option.some [.bool b]
  | void => Option.some [.void]
  | list items => do return .list items.length :: (← codes? items)
  | set items => do return .set items.length :: (← codes? items)
  | tuple items => do return .tuple items.length :: (← codes? items)
  | map entries => do return .map entries.length :: (← entryCodes? entries)
  | record name fields => do return .record name fields.length :: (← entryCodes? fields)
  | enum e variant .none => Option.some [.enum e variant false]
  | enum e variant (.some payload) => do return .enum e variant true :: (← code? payload)
  | option .none => Option.some [.none]
  | option (.some inner) => do return .some :: (← code? inner)
  | ok inner => do return .ok :: (← code? inner)
  | err error => do return .err :: (← code? error)
  | future _ => Option.none
  | stream _ _ => Option.none
  | function _ _ => Option.none
  | model _ => Option.none
  | prediction _ => Option.none

def codes? : List Value → Option (List CodeMark)
  | [] => Option.some []
  | v :: rest => do
    let first ← code? v
    let more ← codes? rest
    return first ++ more

def entryCodes? : List (String × Value) → Option (List CodeMark)
  | [] => Option.some []
  | (key, v) :: rest => do
    let first ← code? v
    let more ← entryCodes? rest
    return .key key :: (first ++ more)

end

end Value

/-- What a remembered call is known by. -/
structure MemoKey (κ : Type) where
  function : κ
  count : Nat
  args : List CodeMark
deriving DecidableEq, Hashable

namespace MemoKey

/-- The key of a call; calls with anything but data have none. -/
def ofCall? {κ : Type} (function : κ) (args : List Value) : Option (MemoKey κ) :=
  (Value.codes? args).map fun code => ⟨function, args.length, code⟩

end MemoKey

/-- Remembered results, and how often one was found or missed. -/
structure MemoCache (κ : Type) [DecidableEq κ] [Hashable κ] where
  entries : Std.HashMap (MemoKey κ) Value
  hits : Nat
  misses : Nat

namespace MemoCache

variable {κ : Type} [DecidableEq κ] [Hashable κ]

def empty : MemoCache κ := ⟨∅, 0, 0⟩

def size (m : MemoCache κ) : Nat := m.entries.size

/-- Looks a call up, and counts. -/
def find (m : MemoCache κ) (key : MemoKey κ) : Option Value × MemoCache κ :=
  match m.entries[key]? with
  | some v => (some v, { m with hits := m.hits + 1 })
  | none => (none, { m with misses := m.misses + 1 })

def insert (m : MemoCache κ) (key : MemoKey κ) (v : Value) : MemoCache κ :=
  { m with entries := m.entries.insert key v }

theorem find_insert_self (m : MemoCache κ) (key : MemoKey κ) (v : Value) :
    ((m.insert key v).find key).1 = some v := by
  simp [find, insert]

end MemoCache

end StreamLang
