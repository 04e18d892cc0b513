import StreamLang.Grammar.TypeExpr
import StreamLang.Grammar.Pattern

/-!
The grammar of expressions. The readers here take the reader of a whole expression as an argument,
and `expressionWithin` closes the circle; a nested expression stands behind at least one token, so
the number of tokens bounds the nesting.
-/

namespace StreamLang.Grammar

/-- A reader of expressions whose operators bind at least as tightly as the given number. -/
abbrev ExprReader : Type := Nat → Reader Expr

/-- What joins two operands. -/
inductive Joiner
  | pipe
  | op (op : BinaryOp)
deriving DecidableEq, Repr

/-- The pipe binds least. -/
def Joiner.precedence : Joiner → Nat
  | pipe => 1
  | op o => o.precedence

def Joiner.ofPunct? : Punct → Option Joiner
  | .pipe => some .pipe
  | .plus => some (.op .add)
  | .minus => some (.op .sub)
  | .star => some (.op .mul)
  | .slash => some (.op .div)
  | .percent => some (.op .mod)
  | .eqEq => some (.op .eq)
  | .notEq => some (.op .ne)
  | .lt => some (.op .lt)
  | .le => some (.op .le)
  | .gt => some (.op .gt)
  | .ge => some (.op .ge)
  | .andAnd => some (.op .and)
  | .orOr => some (.op .or)
  | _ => none

/-- `x |> f(a)` is `f(x, a)`, and `x |> f` is `f(x)`. -/
def pipeInto (value target : Expr) : Expr :=
  match target with
  | .call span callee args => .call span callee (value :: args)
  | _ => .call target.span target [value]

def Joiner.join (j : Joiner) (span : Span) (lhs rhs : Expr) : Expr :=
  match j with
  | pipe => pipeInto lhs rhs
  | op o => .binary span o lhs rhs

/-- A minus sign in front of a number belongs to the number. -/
def negate (operand : Expr) (span : Span) : Expr :=
  match operand with
  | .literal _ (.int n) => .literal span (.int (-n))
  | .literal _ (.float x) => .literal span (.float x.neg)
  | _ => .unary span .neg operand

/-- A field of a record literal or an update; without a value it takes the variable of its name. -/
def fieldInit (expr : ExprReader) : Reader FieldInit := do
  let head ← ident "field name"
  if ← accept .colon then
    let value ← expr 0
    return ⟨head.1, head.2, value⟩
  else return ⟨head.1, head.2, .name head.2 head.1⟩

def mapEntry (expr : ExprReader) : Reader (String × Expr) := do
  let key ← mapKey
  expect .colon
  let value ← expr 0
  return (key, value)

/-- What follows `let`, up to the semicolon. -/
def letDecl (expr : ExprReader) : Reader LetDecl := do
  let span ← nextSpan
  let pat ← pattern
  let ty ← typeMark
  expect .assign
  let value ← expr 0
  return ⟨span, pat, ty, value⟩

/-- Statements behind an opening brace. Only what ends in a block may do without a semicolon. -/
def blockRest (expr : ExprReader) (span : Span) : Reader Expr :=
  loop (fun acc => do
    if ← accept .rbrace then return .done (.block span acc.reverse none)
    if (← get).isEmpty then return ← wanted "`\x7d`"
    if ← accept .semicolon then return .again acc
    if ← acceptWord .letKw then
      let d ← letDecl expr
      expect .semicolon
      return .again (.bind d.span d.pattern d.ty d.value :: acc)
    let e ← expr 0
    if ← accept .semicolon then return .again (.expr e :: acc)
    if ← accept .rbrace then return .done (.block span acc.reverse (some e))
    match e with
    | .branch .. => return .again (.expr e :: acc)
    | .cases .. => return .again (.expr e :: acc)
    | .block .. => return .again (.expr e :: acc)
    | _ => wanted "`;` or `\x7d`") []

def block (expr : ExprReader) : Reader Expr := do
  let span ← nextSpan
  expect .lbrace
  blockRest expr span

/-- What follows `if`. The number bounds the chain of `else if`. -/
def branchRest (expr : ExprReader) : Nat → Span → Reader Expr
  | 0, _ => throw .budget
  | n + 1, span => do
    let test ← expr 0
    let whenTrue ← block expr
    if ← acceptWord .elseKw then
      if ← nextIsWord .ifKw then
        let nested ← nextSpan
        skip
        let other ← branchRest expr n nested
        return .branch span test whenTrue (some other)
      else
        let other ← block expr
        return .branch span test whenTrue (some other)
    else return .branch span test whenTrue none

/-- What follows `match`. Behind an arm that ends in a block the comma may be left out. -/
def casesRest (expr : ExprReader) (span : Span) : Reader Expr := do
  let scrutinee ← expr 0
  expect .lbrace
  loop (fun acc => do
    if ← accept .rbrace then return .done (.cases span scrutinee acc.reverse)
    let armSpan ← nextSpan
    let pat ← pattern
    let guard ← if ← acceptWord .ifKw then some <$> expr 0 else pure none
    expect .fatArrow
    let body ← expr 0
    let arm : MatchArm := ⟨armSpan, pat, guard, body⟩
    if ← accept .comma then return .again (arm :: acc)
    if ← nextIs .rbrace then return .again (arm :: acc)
    if body.isBlock then return .again (arm :: acc)
    wanted "`,` or `\x7d` after match arm") []

/-- Parameters between bars, and the body. -/
def closure (expr : ExprReader) (isAsync : Bool) (span : Span) : Reader Expr := do
  let params ← if ← accept .orOr then pure [] else do
    expect .bar
    listUntil .bar param
  let body ← expr 0
  return .closure span ⟨none, params, none, body, isAsync, span⟩

def parenRest (expr : ExprReader) (span : Span) : Reader Expr := do
  if ← accept .rparen then return .literal span .void
  let first ← expr 0
  if ← accept .rparen then return first
  expect .comma
  let more ← listUntil .rparen (expr 0)
  return .tuple span (first :: more)

/-- A brace behind the name of a type opens a record only if a field or the closing brace
follows. -/
def opensRecord : List TokenKind → Bool
  | .symbol .lbrace :: .symbol .rbrace :: _ => true
  | .symbol .lbrace :: .ident _ :: .symbol .colon :: _ => true
  | .symbol .lbrace :: .ident _ :: .symbol .comma :: _ => true
  | .symbol .lbrace :: .ident _ :: .symbol .rbrace :: _ => true
  | _ => false

/-- A brace opens a map if a key or the closing brace follows, and else a block. -/
def opensMap : List TokenKind → Bool
  | .symbol .lbrace :: .symbol .rbrace :: _ => true
  | .symbol .lbrace :: .ident _ :: .symbol .colon :: _ => true
  | .symbol .lbrace :: .text _ :: .symbol .colon :: _ => true
  | _ => false

/-- The kinds of the next few tokens. -/
def ahead : Reader (List TokenKind) := do return ((← get).take 3).map Token.kind

/-- What follows a name at the front of an expression. -/
def nameRest (expr : ExprReader) (span : Span) (name : String) : Reader Expr := do
  if ← accept .path then
    let variant ← ident "variant name"
    if ← accept .lparen then
      let args ← listUntil .rparen (expr 0)
      return .variant span name variant.1 args
    else return .variant span name variant.1 []
  if isTypeName name && opensRecord (← ahead) then
    skip
    let fields ← listUntil .rbrace (fieldInit expr)
    return .record span name fields
  return .name span name

def asyncRest (expr : ExprReader) (span : Span) : Reader Expr := do
  if ← nextIs .lbrace then return .async span (← block expr)
  if (← nextIs .bar) || (← nextIs .orOr) then return ← closure expr true span
  wanted "block or closure after `async`"

def atom (expr : ExprReader) : Reader Expr := do
  let span ← nextSpan
  match ← peek with
  | some (.int digits) => return .literal span (.int (← intLiteral digits))
  | some (.float digits) => return .literal span (.float (← floatLiteral digits))
  | some (.text contents) =>
    skip
    return .literal span (.text contents)
  | some (.keyword .trueKw) =>
    skip
    return .literal span (.bool true)
  | some (.keyword .falseKw) =>
    skip
    return .literal span (.bool false)
  | some (.keyword .ifKw) =>
    skip
    branchRest expr ((← get).length + 1) span
  | some (.keyword .matchKw) =>
    skip
    casesRest expr span
  | some (.keyword .asyncKw) =>
    skip
    asyncRest expr span
  | some (.ident name) =>
    skip
    nameRest expr span name
  | some (.symbol .lparen) =>
    skip
    parenRest expr span
  | some (.symbol .lbracket) =>
    skip
    return .list span (← listUntil .rbracket (expr 0))
  | some (.symbol .lbrace) =>
    if opensMap (← ahead) then
      skip
      return .map span (← listUntil .rbrace (mapEntry expr))
    else block expr
  | some (.symbol .bar) => closure expr false span
  | some (.symbol .orOr) => closure expr false span
  | _ => wanted "expression"

/-- What follows a point: a field, a place in a tuple, or a method with its arguments. -/
def selection (expr : ExprReader) (target : Expr) : Reader Expr := do
  let span ← nextSpan
  match ← peek with
  | some (.ident name) =>
    skip
    if ← accept .lparen then
      let args ← listUntil .rparen (expr 0)
      return .method span target name args
    else return .select span target name
  | some (.int digits) =>
    skip
    return .select span target digits
  | _ => wanted "field name"

/-- Calls, selections, indexes, updates and, where allowed, `?` behind an operand. -/
def chain (expr : ExprReader) (allowAttempt : Bool) (first : Expr) : Reader Expr :=
  loop (fun e => do
    let span ← nextSpan
    if ← accept .lparen then
      let args ← listUntil .rparen (expr 0)
      return .again (.call e.span e args)
    if ← accept .dot then return .again (← selection expr e)
    if ← accept .lbracket then
      let i ← expr 0
      expect .rbracket
      return .again (.index span e i)
    if allowAttempt then
      if ← accept .question then return .again (.attempt span e)
    if ← acceptWord .withKw then
      expect .lbrace
      let fields ← listUntil .rbrace (fieldInit expr)
      return .again (.update span e fields)
    return .done e) first

/-- An operand with the signs in front of it; the number bounds them. `await f(x)?` applies the
`?` to what was awaited. -/
def operandWithin (expr : ExprReader) : Nat → Reader Expr
  | 0 => throw .budget
  | n + 1 => do
    let span ← nextSpan
    if ← accept .minus then return negate (← operandWithin expr n) span
    if ← accept .bang then return .unary span .not (← operandWithin expr n)
    if ← acceptWord .awaitKw then
      let future ← if ← nextIsWord .awaitKw then operandWithin expr n else do
        chain expr false (← atom expr)
      chain expr true (.await span future)
    else chain expr true (← atom expr)

def operand (expr : ExprReader) : Reader Expr := do operandWithin expr ((← get).length + 1)

def nextJoiner : Reader (Option Joiner) := do
  match ← peek with
  | some (.symbol mark) => return Joiner.ofPunct? mark
  | _ => return none

/-- An expression that nests no deeper than the first argument. The operand behind an operator
takes only what binds more tightly. -/
def expressionWithin : Nat → ExprReader
  | 0, _ => throw .budget
  | depth + 1, least => do
    let first ← operand (expressionWithin depth)
    loop (fun left => do
      let span ← nextSpan
      match ← nextJoiner with
      | none => return .done left
      | some j =>
        if j.precedence < least then return .done left
        skip
        let right ← expressionWithin depth (j.precedence + 1)
        return .again (j.join span left right)) first

def expression : Reader Expr := do expressionWithin ((← get).length + 1) 0

end StreamLang.Grammar

namespace StreamLang

/-- The expression that is the whole text. -/
def Expr.ofSource (source : String) : Except GrammarError Expr :=
  match Grammar.readSource Grammar.expression source with
  | .error e => .error e
  | .ok (e, []) => .ok e
  | .ok (_, t :: _) => .error (.trailing t)

end StreamLang
