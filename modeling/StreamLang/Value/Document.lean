import StreamLang.Value.Text
import StreamLang.Whole

/-!
Values as JSON documents, the form in which they pass the gateway. What numbers are and how objects
keep their members is left to a library of documents.
-/

namespace StreamLang

/-- What a library of documents does with numbers and with the members of objects. -/
structure Json.Library where
  Number : Type
  ofInt : Int64 → Number
  ofFloat? : Binary64 → Option Number
  /-- The number as an integer of 64 bits, if it is one. -/
  asInt? : Number → Option Int64
  /-- The number in floating point. -/
  asFloat? : Number → Option Binary64
  /-- Whether the number was written without point and exponent. -/
  isInteger : Number → Bool
  /-- The members of the object that is made of these, in the order in which it gives them back. -/
  collect : List (String × Json Number) → List (String × Json Number)
  /-- A document of which a value is made, such as a model. -/
  keep : Json → Json Number

namespace Json

def Number.asInt? : Number → Option Int64
  | int n => Whole.ofInt? n
  | float _ _ => none

def Number.asFloat : Number → Binary64
  | int n => Decimal.ofInt n
  | float x _ => x

def Number.isInteger : Number → Bool
  | int _ => true
  | float _ _ => false

/-- Objects keep their members in ascending order of the key. -/
@[reducible] def library : Library where
  Number := Number
  ofInt n := .int n.toInt
  ofFloat? := Number.ofFloat?
  asInt? := Number.asInt?
  asFloat? n := some n.asFloat
  isInteger := Number.isInteger
  collect := Keyed.ofList
  keep document := document

end Json

namespace Value

/-- What has no number is nothing in a document. -/
def writeFloat (L : Json.Library) (x : Binary64) : Json L.Number :=
  match L.ofFloat? x with
  | some n => .number n
  | none => .null

section

variable (L : Json.Library)

mutual

/-- The document of a value. -/
def write : Value → Json L.Number
  | int n => .number (L.ofInt n)
  | float x => writeFloat L x
  | text s => .text s
  | bool b => .bool b
  | void => .null
  | list items => .array (writeAll items)
  | map entries => .object (L.collect (writeEntries entries))
  | set items => .array (writeAll items)
  | record _ fields => .object (L.collect (writeEntries fields))
  | enum e variant payload =>
    .object (L.collect
      [("enum", .text e), ("variant", .text variant), ("payload", writeOption payload)])
  | tuple items => .array (writeAll items)
  | option inner => writeOption inner
  | ok inner => .object (L.collect [("ok", write inner)])
  | err error => .object (L.collect [("err", write error)])
  | future id => .text (repr (future id))
  | stream id p => .text (repr (stream id p))
  | function id c => .text (repr (function id c))
  | model document => L.keep document
  | prediction document => L.keep document

def writeOption : Option Value → Json L.Number
  | none => .null
  | some v => write v

def writeAll : List Value → List (Json L.Number)
  | [] => []
  | v :: rest => write v :: writeAll rest

def writeEntries : List (String × Value) → List (String × Json L.Number)
  | [] => []
  | (key, v) :: rest => (key, write v) :: writeEntries rest

end

mutual

/-- The value of a document. A number that is no integer of 64 bits becomes a floating-point number. -/
def read : Json L.Number → Value
  | .null => void
  | .bool b => bool b
  | .number n =>
    match L.asInt? n with
    | some k => int k
    | none => float ((L.asFloat? n).getD .nan)
  | .text s => text s
  | .array items => list (readAll items)
  | .object members => map (Keyed.ofList (readMembers members))

def readAll : List (Json L.Number) → List Value
  | [] => []
  | j :: rest => read j :: readAll rest

def readMembers : List (String × Json L.Number) → List (String × Value)
  | [] => []
  | (key, j) :: rest => (key, read j) :: readMembers rest

end

end

def toJson (v : Value) : Json := v.write Json.library

def ofJson (document : Json) : Value := read Json.library document

end Value

end StreamLang
