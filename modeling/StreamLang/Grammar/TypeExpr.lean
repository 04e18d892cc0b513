import StreamLang.Grammar.Basic
import StreamLang.Program

/-!
The grammar of written types.
-/

namespace StreamLang.Grammar

/-- A type that nests no deeper than the first argument. A type in parentheses is that type, and
empty parentheses mean `Void`. -/
def typeExprWithin : Nat → Reader TypeExpr
  | 0 => throw .budget
  | depth + 1 => do
    let span ← nextSpan
    if ← accept .lparen then
      if ← accept .rparen then return .named span "Void" []
      let first ← typeExprWithin depth
      if ← accept .rparen then return first
      expect .comma
      let more ← listUntil .rparen (typeExprWithin depth)
      return .tuple span (first :: more)
    if ← acceptWord .fnKw then
      expect .lparen
      let params ← listUntil .rparen (typeExprWithin depth)
      expect .arrow
      let ret ← typeExprWithin depth
      return .function span params ret
    let head ← ident "type"
    if ← accept .lt then
      let args ← listUntil .gt (typeExprWithin depth)
      return .named head.2 head.1 args
    return .named head.2 head.1 []

def typeExpr : Reader TypeExpr := do typeExprWithin ((← get).length + 1)

/-- A type behind a colon, if there is a colon. -/
def typeMark : Reader (Option TypeExpr) := do
  if ← accept .colon then return some (← typeExpr) else return none

def param : Reader Param := do
  let head ← ident "parameter name"
  let ty ← typeMark
  return ⟨head.1, ty, head.2⟩

end StreamLang.Grammar
