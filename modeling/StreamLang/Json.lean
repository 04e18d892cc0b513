import StreamLang.Keyed
import StreamLang.Decimal.Layout

/-!
JSON documents and their compact text. An object keeps its members in ascending order of the key.
-/

namespace StreamLang

/-- Whole numbers and others are kept apart: `1` is not `1.0`. What is not finite is no number. -/
inductive Json.Number
  | int (n : Int)
  | float (x : Binary64) (hfinite : x.isFinite = true)

/-- Documents with numbers of any type. -/
inductive Json (ν : Type := Json.Number)
  | null
  | bool (b : Bool)
  | number (n : ν)
  | text (s : String)
  | array (items : List (Json ν))
  | object (members : List (String × Json ν))
deriving Inhabited

namespace Json

@[match_pattern] def int (n : Int) : Json := number (.int n)

/-- The number of a document, if it is finite. -/
def Number.ofFloat? (x : Binary64) : Option Number :=
  if h : x.isFinite = true then some (.float x h) else none

def Number.render : Number → String
  | int n => toString n
  | float x _ => Decimal.Layout.json.write x

/-- An object from members in any order; of two with one key the later stays. -/
def ofMembers (members : List (String × Json)) : Json := object (Keyed.ofList members)

/-- `\u` and four digits. -/
def hexEscape (c : Char) : List Char :=
  let digits := Nat.toDigits 16 c.toNat
  ['\\', 'u'] ++ List.replicate (4 - digits.length) '0' ++ digits

def escapeChar (c : Char) : List Char :=
  match c with
  | '"' => ['\\', '"']
  | '\\' => ['\\', '\\']
  | '\x08' => ['\\', 'b']
  | '\x0c' => ['\\', 'f']
  | '\n' => ['\\', 'n']
  | '\r' => ['\\', 'r']
  | '\t' => ['\\', 't']
  | c => if c.toNat < 0x20 then hexEscape c else [c]

def quote (s : String) : String :=
  String.ofList ('"' :: s.toList.flatMap escapeChar ++ ['"'])

mutual

/-- The text of a document, without blanks. -/
def render : Json → String
  | null => "null"
  | bool b => if b then "true" else "false"
  | number n => n.render
  | text s => quote s
  | array items => "[" ++ ",".intercalate (renderItems items) ++ "]"
  | object members => "\x7b" ++ ",".intercalate (renderMembers members) ++ "\x7d"

def renderItems : List Json → List String
  | [] => []
  | item :: rest => render item :: renderItems rest

def renderMembers : List (String × Json) → List String
  | [] => []
  | (key, value) :: rest => (quote key ++ ":" ++ render value) :: renderMembers rest

end

/-- The member of an object; nothing else has members. -/
def member? (key : String) : Json → Option Json
  | object members => Keyed.get? key members
  | _ => none

end Json

end StreamLang
