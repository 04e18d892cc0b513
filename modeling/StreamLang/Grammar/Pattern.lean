import StreamLang.Grammar.Basic
import StreamLang.Pattern

/-!
The grammar of patterns.
-/

namespace StreamLang.Grammar

/-- A number behind a minus sign. -/
def negatedNumber : Reader Literal := do
  match ← peek with
  | some (.int digits) => return .int (-(← intLiteral digits))
  | some (.float digits) => return .float (← floatLiteral digits).neg
  | _ => wanted "numeric literal"

/-- The rest of `[a, b]` or `[a, ...rest]` behind the bracket. -/
def listPattern (span : Span) (pattern : Reader Pattern) : Reader Pattern :=
  loop (fun acc => do
    if ← accept .rbracket then return .done (.list span acc.reverse none)
    if ← accept .ellipsis then
      let rest ← pattern
      let _ ← accept .comma
      expect .rbracket
      return .done (.list span acc.reverse (some rest))
    let item ← pattern
    if ← accept .comma then return .again (item :: acc)
    expect .rbracket
    return .done (.list span (item :: acc).reverse none)) []

/-- The rest of `Name { x, y: p, .. }` behind the brace. -/
def recordPattern (span : Span) (name : String) (pattern : Reader Pattern) : Reader Pattern :=
  loop (fun acc => do
    if ← accept .rbrace then return .done (.record span name acc.reverse false)
    if ← accept .dotDot then
      let _ ← accept .comma
      expect .rbrace
      return .done (.record span name acc.reverse true)
    let field ← ident "field name"
    let inner ← if ← accept .colon then some <$> pattern else pure none
    let entry : FieldPattern := ⟨field.1, field.2, inner⟩
    if ← accept .comma then return .again (entry :: acc)
    expect .rbrace
    return .done (.record span name (entry :: acc).reverse false)) []

def markedPattern (span : Span) (marker : Marker) (pattern : Reader Pattern) : Reader Pattern := do
  expect .lparen
  let inner ← pattern
  expect .rparen
  return .marked span marker inner

/-- The payload of a variant; any number of patterns but one makes a tuple. -/
def payloadPattern (pattern : Reader Pattern) : Reader (Option Pattern) := do
  let span ← nextSpan
  if ← accept .lparen then
    match ← listUntil .rparen pattern with
    | [only] => return some only
    | items => return some (.tuple span items)
  else return none

/-- What follows a name. -/
def namedPattern (span : Span) (name : String) (pattern : Reader Pattern) : Reader Pattern := do
  match name with
  | "_" => return .wildcard span
  | "None" => return .none span
  | "Pending" => return .pending span
  | "Some" => markedPattern span .some pattern
  | "Ok" => markedPattern span .ok pattern
  | "Err" => markedPattern span .err pattern
  | "Resolved" => markedPattern span .resolved pattern
  | "Failed" => markedPattern span .failed pattern
  | _ =>
    if isTypeName name then
      if ← accept .path then
        let variant ← ident "variant name"
        let payload ← payloadPattern pattern
        return .variant span name variant.1 payload
      if ← accept .lbrace then return ← recordPattern span name pattern
    return .bind span name

def mapEntryPattern (pattern : Reader Pattern) : Reader (String × Pattern) := do
  let key ← mapKey
  expect .colon
  let value ← pattern
  return (key, value)

/-- The rest of a pattern in parentheses. -/
def parenPattern (span : Span) (pattern : Reader Pattern) : Reader Pattern := do
  if ← accept .rparen then return .literal span .void
  let first ← pattern
  if ← accept .rparen then return first
  expect .comma
  let more ← listUntil .rparen pattern
  return .tuple span (first :: more)

/-- A pattern that nests no deeper than the first argument. -/
def patternWithin : Nat → Reader Pattern
  | 0 => throw .budget
  | depth + 1 => do
    let span ← nextSpan
    match ← peek with
    | some (.int digits) => return .literal span (.int (← intLiteral digits))
    | some (.float digits) => return .literal span (.float (← floatLiteral digits))
    | some (.text contents) =>
      skip
      return .literal span (.text contents)
    | some (.keyword .trueKw) =>
      skip
      return .literal span (.bool true)
    | some (.keyword .falseKw) =>
      skip
      return .literal span (.bool false)
    | some (.symbol .minus) =>
      skip
      return .literal span (← negatedNumber)
    | some (.symbol .lparen) =>
      skip
      parenPattern span (patternWithin depth)
    | some (.symbol .lbracket) =>
      skip
      listPattern span (patternWithin depth)
    | some (.symbol .lbrace) =>
      skip
      return .map span (← listUntil .rbrace (mapEntryPattern (patternWithin depth)))
    | some (.ident name) =>
      skip
      namedPattern span name (patternWithin depth)
    | _ => wanted "pattern"

def pattern : Reader Pattern := do patternWithin ((← get).length + 1)

end StreamLang.Grammar
