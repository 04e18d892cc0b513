import StreamLang.Operator
import StreamLang.Pattern
import StreamLang.TypeExpr

/-!
Expressions, statements and functions, and the question whether an expression may have to wait.
-/

namespace StreamLang

structure Param where
  name : String
  ty : Option TypeExpr
  span : Span

mutual

inductive Expr
  | literal (span : Span) (value : Literal)
  | name (span : Span) (name : String)
  | list (span : Span) (items : List Expr)
  | tuple (span : Span) (items : List Expr)
  | map (span : Span) (entries : List (String × Expr))
  | record (span : Span) (name : String) (fields : List FieldInit)
  /-- A variant of an enum; several arguments make up one tuple. -/
  | variant (span : Span) (enum variant : String) (args : List Expr)
  /-- A copy of a record with some fields replaced. -/
  | update (span : Span) (target : Expr) (fields : List FieldInit)
  | select (span : Span) (target : Expr) (field : String)
  | index (span : Span) (target index : Expr)
  | call (span : Span) (callee : Expr) (args : List Expr)
  /-- A call of the receiver's field, or of a function with the receiver in front. -/
  | method (span : Span) (receiver : Expr) (method : String) (args : List Expr)
  | binary (span : Span) (op : BinaryOp) (lhs rhs : Expr)
  | unary (span : Span) (op : UnaryOp) (operand : Expr)
  | branch (span : Span) (test whenTrue : Expr) (whenFalse : Option Expr)
  | cases (span : Span) (scrutinee : Expr) (arms : List MatchArm)
  | block (span : Span) (stmts : List Stmt) (tail : Option Expr)
  | closure (span : Span) (decl : FunctionDecl)
  | async (span : Span) (body : Expr)
  | await (span : Span) (future : Expr)
  /-- The value inside a success; a failure ends the function around it. -/
  | attempt (span : Span) (inner : Expr)

structure FieldInit where
  name : String
  span : Span
  value : Expr

structure MatchArm where
  span : Span
  pattern : Pattern
  guard : Option Expr
  body : Expr

inductive Stmt
  | bind (span : Span) (pattern : Pattern) (ty : Option TypeExpr) (value : Expr)
  | expr (e : Expr)

/-- A function without a name is a lambda. -/
structure FunctionDecl where
  name : Option String
  params : List Param
  ret : Option TypeExpr
  body : Expr
  isAsync : Bool
  span : Span

end

instance : Inhabited Expr := ⟨.literal .none .void⟩

namespace FunctionDecl

def arity (d : FunctionDecl) : Nat := d.params.length

def displayName (d : FunctionDecl) : String := d.name.getD "<lambda>"

end FunctionDecl

namespace Expr

def span : Expr → Span
  | literal s _ => s
  | name s _ => s
  | list s _ => s
  | tuple s _ => s
  | map s _ => s
  | record s _ _ => s
  | variant s _ _ _ => s
  | update s _ _ => s
  | select s _ _ => s
  | index s _ _ => s
  | call s _ _ => s
  | method s _ _ _ => s
  | binary s _ _ _ => s
  | unary s _ _ => s
  | branch s _ _ _ => s
  | cases s _ _ => s
  | block s _ _ => s
  | closure s _ => s
  | async s _ => s
  | await s _ => s
  | attempt s _ => s

def line (e : Expr) : Nat := e.span.line

def isBlock : Expr → Bool
  | block .. => true
  | _ => false

mutual

/-- Evaluating the expression may reach an `await` without entering a closure or an `async`
block. -/
def suspends : Expr → Bool
  | literal _ _ => false
  | name _ _ => false
  | list _ items => anySuspends items
  | tuple _ items => anySuspends items
  | map _ entries => anyEntrySuspends entries
  | record _ _ fields => anyFieldSuspends fields
  | variant _ _ _ args => anySuspends args
  | update _ target fields => suspends target || anyFieldSuspends fields
  | select _ target _ => suspends target
  | index _ target i => suspends target || suspends i
  | call _ callee args => suspends callee || anySuspends args
  | method _ receiver _ args => suspends receiver || anySuspends args
  | binary _ _ lhs rhs => suspends lhs || suspends rhs
  | unary _ _ operand => suspends operand
  | branch _ test whenTrue whenFalse =>
    suspends test || suspends whenTrue || optionSuspends whenFalse
  | cases _ scrutinee arms => suspends scrutinee || anyArmSuspends arms
  | block _ stmts tail => anyStmtSuspends stmts || optionSuspends tail
  | closure _ _ => false
  | async _ _ => false
  | await _ _ => true
  | attempt _ inner => suspends inner

def optionSuspends : Option Expr → Bool
  | none => false
  | some e => suspends e

def anySuspends : List Expr → Bool
  | [] => false
  | e :: rest => suspends e || anySuspends rest

def anyEntrySuspends : List (String × Expr) → Bool
  | [] => false
  | (_, e) :: rest => suspends e || anyEntrySuspends rest

def anyFieldSuspends : List FieldInit → Bool
  | [] => false
  | ⟨_, _, e⟩ :: rest => suspends e || anyFieldSuspends rest

def anyArmSuspends : List MatchArm → Bool
  | [] => false
  | ⟨_, _, guard, body⟩ :: rest => optionSuspends guard || suspends body || anyArmSuspends rest

def anyStmtSuspends : List Stmt → Bool
  | [] => false
  | .bind _ _ _ e :: rest => suspends e || anyStmtSuspends rest
  | .expr e :: rest => suspends e || anyStmtSuspends rest

end

end Expr

end StreamLang
