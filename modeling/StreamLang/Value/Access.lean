import StreamLang.Builtin.Collection
import StreamLang.Whole

/-!
Parts of values: fields, entries, items and characters.
-/

namespace StreamLang.Value

/-- A field of a record, an entry of a map, or an item of a tuple by its number. -/
def select (field : String) : Value → Except Fault Value
  | record name fields =>
    match fieldOf? field fields with
    | some v => .ok v
    | none => .error (.noField name field)
  | map entries =>
    match Keyed.get? field entries with
    | some v => .ok v
    | none => .error (.keyNotFound field)
  | tuple items =>
    match (Whole.readNat? field.toList).bind (items[·]?) with
    | some v => .ok v
    | none => .error (.noElement items.length field)
  | v => .error (.notSelectable v.kind field)

/-- An item of a list or a tuple. -/
def item (target : Indexed) (items : List Value) (i : Int64) : Except Fault Value :=
  match itemAt? items i with
  | some v => .ok v
  | none => .error (.outOfBounds i target items.length)

def character (s : String) (i : Int64) : Except Fault Value :=
  match if i < 0 then none else s.toList[i.toInt.toNat]? with
  | some c => .ok (text (String.ofList [c]))
  | none => .error (.outOfBounds i .text s.length)

def index (target i : Value) : Except Fault Value :=
  match target, i with
  | list items, int n => item .list items n
  | tuple items, int n => item .tuple items n
  | text s, int n => character s n
  | map entries, text key =>
    match Keyed.get? key entries with
    | some v => .ok v
    | none => .error (.keyNotFound key)
  | target, i => .error (.notIndexable target.kind i.kind)

end StreamLang.Value
