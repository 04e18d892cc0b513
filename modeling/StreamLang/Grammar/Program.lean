import StreamLang.Grammar.Expr

/-!
The grammar of a module: its declarations, one after the other.
-/

namespace StreamLang.Grammar

def importName : Reader ImportName := do
  let head ← ident "imported name"
  if ← acceptWord .asKw then
    let localName ← ident "alias"
    return ⟨head.1, some localName.1, head.2⟩
  else return ⟨head.1, none, head.2⟩

def importRest : Reader ImportDecl := do
  expect .lbrace
  let names ← listUntil .rbrace importName
  expectWord .fromKw "`from`"
  match ← peek with
  | some (.text module) =>
    skip
    let _ ← accept .semicolon
    return ⟨names, module⟩
  | _ => wanted "module name string"

/-- What follows `fn`. -/
def functionRest (isAsync : Bool) (span : Span) : Reader FunctionDecl := do
  let head ← ident "function name"
  expect .lparen
  let params ← listUntil .rparen param
  let ret ← if ← accept .arrow then some <$> typeExpr else pure none
  if ← accept .assign then
    let body ← expression
    let _ ← accept .semicolon
    return ⟨some head.1, params, ret, body, isAsync, span⟩
  else
    let body ← block (expressionWithin ((← get).length + 1))
    return ⟨some head.1, params, ret, body, isAsync, span⟩

def fieldDecl : Reader FieldDecl := do
  let head ← ident "field name"
  expect .colon
  let ty ← typeExpr
  return ⟨head.1, ty, head.2⟩

def recordRest : Reader RecordDecl := do
  let head ← ident "record name"
  expect .lbrace
  let fields ← listUntil .rbrace fieldDecl
  return ⟨head.1, fields⟩

def variantDecl : Reader VariantDecl := do
  let head ← ident "variant name"
  if ← accept .lparen then
    let payload ← listUntil .rparen typeExpr
    return ⟨head.1, payload, head.2⟩
  else return ⟨head.1, [], head.2⟩

def enumRest : Reader EnumDecl := do
  let head ← ident "enum name"
  expect .lbrace
  let variants ← listUntil .rbrace variantDecl
  return ⟨head.1, variants⟩

def aliasRest : Reader AliasDecl := do
  let head ← ident "type name"
  expect .assign
  let ty ← typeExpr
  let predicate ← if ← acceptWord .whereKw then some <$> expression else pure none
  let _ ← accept .semicolon
  return ⟨head.1, ty, predicate⟩

/-- The second of the next tokens is `fn`. -/
def asyncOpensFunction : Reader Bool := do
  return ((← get).drop 1).head?.map Token.kind == some (.keyword .fnKw)

def itemKind (exported : Bool) (span : Span) : Reader ItemKind := do
  let otherwise : Reader ItemKind :=
    if exported then wanted "declaration after `export`"
    else do
      let e ← expression
      let _ ← accept .semicolon
      return .expr e
  match ← peek with
  | none => wanted "declaration"
  | some (.keyword .importKw) =>
    if exported then otherwise
    else
      skip
      return .imports (← importRest)
  | some (.keyword .fnKw) =>
    skip
    return .function (← functionRest false span)
  | some (.keyword .asyncKw) =>
    if ← asyncOpensFunction then
      skip
      skip
      return .function (← functionRest true span)
    else otherwise
  | some (.keyword .recordKw) =>
    skip
    return .record (← recordRest)
  | some (.keyword .enumKw) =>
    skip
    return .enum (← enumRest)
  | some (.keyword .typeKw) =>
    skip
    return .typeAlias (← aliasRest)
  | some (.keyword .letKw) =>
    skip
    let d ← letDecl (expressionWithin ((← get).length + 1))
    expect .semicolon
    return .binding d
  | some _ => otherwise

def item : Reader Item := do
  let span ← nextSpan
  let exported ← acceptWord .exportKw
  let kind ← itemKind exported span
  return ⟨kind, exported, span⟩

def items : Reader (List Item) :=
  loop (fun acc => do
    if (← get).isEmpty then return .done acc.reverse
    if ← accept .semicolon then return .again acc
    return .again ((← item) :: acc)) []

end StreamLang.Grammar

namespace StreamLang

def Program.ofSource (source : String) : Except GrammarError Program :=
  (Grammar.readSource Grammar.items source).map fun r => ⟨r.1⟩

end StreamLang
