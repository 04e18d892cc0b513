import StreamLang.Value

/-!
The text of a value. A string that is the whole value is shown as it is, and inside another value
between quotes.
-/

namespace StreamLang.Value

mutual

/-- The text of a value inside another one. -/
def repr : Value → String
  | int n => toString n.toInt
  | float x => Decimal.Layout.shown.write x
  | text s => Text.quote s
  | bool b => if b then "true" else "false"
  | void => "()"
  | list items => "[" ++ ", ".intercalate (reprAll items) ++ "]"
  | map entries => "\x7b" ++ ", ".intercalate (reprEntries entries) ++ "\x7d"
  | set items => "set([" ++ ", ".intercalate (reprAll items) ++ "])"
  | record name fields => name ++ " \x7b " ++ ", ".intercalate (reprEntries fields) ++ " \x7d"
  | enum e variant payload => e ++ "::" ++ variant ++ reprPayload payload
  | tuple items => "(" ++ ", ".intercalate (reprAll items) ++ ")"
  | option inner => reprOption inner
  | ok inner => "Ok(" ++ repr inner ++ ")"
  | err error => "Err(" ++ repr error ++ ")"
  | future id => "<future " ++ toString id ++ ">"
  | stream _ _ => "<stream>"
  | function _ callable => "<fn " ++ callable.name ++ ">"
  | model document => "<model " ++ document.render ++ ">"
  | prediction document => "<prediction " ++ document.render ++ ">"

def reprOption : Option Value → String
  | none => "None"
  | some v => "Some(" ++ repr v ++ ")"

/-- A payload that is a tuple is shown by its items. -/
def reprPayload : Option Value → String
  | none => ""
  | some (tuple items) => "(" ++ ", ".intercalate (reprAll items) ++ ")"
  | some v => "(" ++ repr v ++ ")"

def reprAll : List Value → List String
  | [] => []
  | v :: rest => repr v :: reprAll rest

def reprEntries : List (String × Value) → List String
  | [] => []
  | (key, v) :: rest => (key ++ ": " ++ repr v) :: reprEntries rest

end

/-- The text of a value that stands by itself. -/
def render (v : Value) : String :=
  match v with
  | text s => s
  | _ => repr v

end StreamLang.Value
