import StreamLang.Future

/-!
The bodies of tasks. A task that evaluates an expression keeps what is still to be done as a stack
of frames, so that it can stop at a pending future and go on later from there.
-/

namespace StreamLang

/-- What a block does with the value of a statement. -/
inductive PendingStmt
  /-- It is bound by the statement at this index. -/
  | bind (index : Nat)
  | discard

/-- What is to be done with the value that comes next. A frame keeps the whole expression that it is
a part of. -/
inductive TaskFrame
  /-- Evaluates an expression; the value that comes does not matter. -/
  | eval (e : Expr) (env : Env)
  /-- The value is an operand of `e`; `done` holds the operands before it, the last one first. -/
  | operand (e : Expr) (env : Env) (done : List Value)
  /-- The value decides which branch is taken. -/
  | branch (e : Expr) (env : Env)
  /-- The value is matched against the arms. -/
  | arms (e : Expr) (env : Env)
  /-- The value is the left operand of a logical operation, or else the right one. -/
  | logic (e : Expr) (env : Env) (right : Bool)
  /-- The value is that of a statement, and the block goes on with the statement at index `next`. -/
  | block (e : Expr) (env : Env) (next : Nat) (pending : PendingStmt)
  | await (line : Nat)
  /-- Waits for a future; the value that comes does not matter. -/
  | resume (future : FutureId) (line : Nat)
  | attempt (line : Nat)

/-- The evaluation of an expression, in the module whose names it uses. -/
structure TaskMachine where
  /-- The top of the stack stands first. -/
  stack : List TaskFrame
  module : Nat
  /-- An expression at the top of a module, which a `?` must not leave. -/
  root : Bool

def TaskMachine.start (e : Expr) (env : Env) (module : Nat) (root : Bool) : TaskMachine :=
  ⟨[.eval e env], module, root⟩

/-- A task that follows other futures. -/
inductive Combinator
  | onError (source : FutureId) (handler : Value)
  | onComplete (source : FutureId) (handler : Value)
  | andThen (source : FutureId) (handler : Value)
  /-- `values` holds what the futures before `sources` gave, the last one first. -/
  | all (sources : List FutureId) (values : List Value)
  /-- Settles as the source does. -/
  | forward (source : FutureId)

inductive TaskBody
  | machine (m : TaskMachine)
  | combinator (c : Combinator)

/-- How a slice of a task ends. -/
inductive TaskStep
  | complete (v : Value)
  /-- The task waits for a future, and goes on with the body then. -/
  | suspend (on : FutureId) (body : TaskBody)
  | fail (f : Failed)

end StreamLang
