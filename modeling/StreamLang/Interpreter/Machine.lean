import StreamLang.Interpreter.Expr

/-!
Running tasks for one slice: until they have a value, fail, or wait for a future that is still
pending. A machine hands every expression that need not wait to the evaluator.
-/

namespace StreamLang

/-- What a frame makes of the value it gets. -/
inductive FrameStep
  | value (v : Value)
  /-- These frames come first, the first of them at once. -/
  | push (frames : List TaskFrame)
  | suspend (on : FutureId) (frame : TaskFrame)
  | fail (f : Failed)

/-! What a frame needs of its expression. The expression of another form is a fault. -/

namespace Expr

def branches : Expr → Except Fault (Expr × Option Expr)
  | .branch _ _ whenTrue whenFalse => .ok (whenTrue, whenFalse)
  | _ => .error .malformedFrame

def clauses : Expr → Except Fault (List MatchArm)
  | .cases _ _ arms => .ok arms
  | _ => .error .malformedFrame

/-- The operator and the right operand. -/
def operation : Expr → Except Fault (BinaryOp × Expr)
  | .binary _ op _ rhs => .ok (op, rhs)
  | _ => .error .malformedFrame

/-- The statements from an index on, and the expression behind them. -/
def statements (e : Expr) (next : Nat) : Except Fault (List Stmt × Option Expr) :=
  match e with
  | .block _ stmts tail => .ok (stmts.drop next, tail)
  | _ => .error .malformedFrame

/-- The `let` at an index, without its expression. -/
def letAt (e : Expr) (index : Nat) : Except Fault (Span × Pattern × Option TypeExpr) :=
  (e.statements index).bind fun left =>
    match left.1 with
    | .bind span pattern ty _ :: _ => .ok (span, pattern, ty)
    | _ => .error .malformedFrame

section

variable {e : Expr}

theorem branches_eq_ok {b : Expr × Option Expr} (h : e.branches = .ok b) :
    ∃ span test, e = .branch span test b.1 b.2 := by
  cases e with
  | branch span test => cases h; exact ⟨span, test, rfl⟩
  | _ => cases h

theorem clauses_eq_ok {arms : List MatchArm} (h : e.clauses = .ok arms) :
    ∃ span scrutinee, e = .cases span scrutinee arms := by
  cases e with
  | cases span scrutinee => cases h; exact ⟨span, scrutinee, rfl⟩
  | _ => cases h

theorem operation_eq_ok {o : BinaryOp × Expr} (h : e.operation = .ok o) :
    ∃ span lhs, e = .binary span o.1 lhs o.2 := by
  cases e with
  | binary span op lhs => cases h; exact ⟨span, lhs, rfl⟩
  | _ => cases h

theorem statements_eq_ok {next : Nat} {left : List Stmt × Option Expr}
    (h : e.statements next = .ok left) :
    ∃ span stmts, e = .block span stmts left.2 ∧ stmts.drop next = left.1 := by
  cases e with
  | block span stmts => cases h; exact ⟨span, stmts, rfl, rfl⟩
  | _ => cases h

theorem mem_operands_of_drop {n : Nat} {next : Expr} {rest : List Expr}
    (h : e.operands.drop n = next :: rest) : next ∈ e.operands := by
  have hmem : next ∈ e.operands.drop n := h ▸ List.mem_cons_self
  exact List.mem_of_mem_drop hmem

theorem operands_drop_succ {n : Nat} {next : Expr} {rest : List Expr}
    (h : e.operands.drop n = next :: rest) : e.operands.drop (n + 1) = rest := by
  rw [← List.tail_drop, h, List.tail_cons]

theorem statements_succ {next : Nat} {stmt : Stmt} {rest : List Stmt} {tail : Option Expr}
    (h : e.statements next = .ok (stmt :: rest, tail)) :
    e.statements (next + 1) = .ok (rest, tail) := by
  obtain ⟨span, stmts, rfl, hdrop⟩ := statements_eq_ok h
  rw [statements, ← List.tail_drop, hdrop, List.tail_cons]

theorem letAt_of_statements {index : Nat} {span : Span} {pattern : Pattern}
    {ty : Option TypeExpr} {value : Expr} {rest : List Stmt} {tail : Option Expr}
    (h : e.statements index = .ok (.bind span pattern ty value :: rest, tail)) :
    e.letAt index = .ok (span, pattern, ty) := by
  rw [letAt, h]
  rfl

end

end Expr

namespace FrameStep

/-- The next step of a block, of which these statements are left. -/
def ofStatements (e : Expr) (env : Env) (next : Nat) (stmts : List Stmt) (tail : Option Expr) :
    FrameStep :=
  match stmts with
  | .bind _ _ _ first :: _ => .push [.eval first env, .block e env (next + 1) (.bind next)]
  | .expr first :: _ => .push [.eval first env, .block e env (next + 1) .discard]
  | [] =>
    match tail with
    | some last => .push [.eval last env]
    | none => .value .void

/-- The step of a block from the statement at an index on. -/
def ofBlock (e : Expr) (env : Env) (next : Nat) : Except Fault FrameStep :=
  (e.statements next).map fun left => ofStatements e env next left.1 left.2

theorem ofBlock_of_statements {e : Expr} {env : Env} {next : Nat} {left : List Stmt × Option Expr}
    (h : e.statements next = .ok left) :
    ofBlock e env next = .ok (ofStatements e env next left.1 left.2) := by
  rw [ofBlock, h]
  rfl

/-- The parts of an expression come first, and then its value. -/
def ofParts (e : Expr) (env : Env) : Except Fault FrameStep :=
  match e.operands with
  | first :: _ => .ok (.push [.eval first env, .operand e env []])
  | [] => .error .cannotSuspend

/-- The first step of an expression that may have to wait. -/
def ofExpr (e : Expr) (env : Env) : Except Fault FrameStep :=
  match e with
  | .await span future => .ok (.push [.eval future env, .await span.line])
  | .attempt span inner => .ok (.push [.eval inner env, .attempt span.line])
  | .branch _ test _ _ => .ok (.push [.eval test env, .branch e env])
  | .cases _ scrutinee _ => .ok (.push [.eval scrutinee env, .arms e env])
  | .block _ _ _ => ofBlock e env 0
  | .binary _ op lhs _ =>
    if op.isLogical then .ok (.push [.eval lhs env, .logic e env false]) else ofParts e env
  | _ => ofParts e env

end FrameStep

namespace Recur

variable {γ : Type}

def stepFrame (r : Recur γ) (frame : TaskFrame) (v : Value) : Run γ FrameStep :=
  match frame with
  | .eval e env => do
    if e.suspends then Eval.ofExcept (FrameStep.ofExpr e env) else return .value (← r.eval e env)
  | .operand e env done => do
    match e.operands.drop (done.length + 1) with
    | next :: _ => return .push [.eval next env, .operand e env (v :: done)]
    | [] => return .value (← (r.combine e env (v :: done).reverse).located e.line)
  | .branch e env => do
    let branches ← Eval.ofExcept e.branches
    if ← (Run.truth .branch v).located e.line then return .push [.eval branches.1 env]
    else match branches.2 with
      | some other => return .push [.eval other env]
      | none => return .value .void
  | .arms e env => do
    let arms ← Eval.ofExcept e.clauses
    let arm ← (r.selectArm v env arms).located e.line
    return .push [.eval arm.1 arm.2]
  | .logic e env right => do
    let operation ← Eval.ofExcept e.operation
    let a ← (Run.truth .operand v).located e.line
    if right || Run.decides operation.1 a then return .value (.bool a)
    else return .push [.eval operation.2 env, .logic e env true]
  | .block e env next (.bind index) => do
    let binding ← Eval.ofExcept (e.letAt index)
    let env' ← r.bindLet binding.1 binding.2.1 binding.2.2 v env
    Eval.ofExcept (FrameStep.ofBlock e env' next)
  | .block e env next .discard => Eval.ofExcept (FrameStep.ofBlock e env next)
  | .await line =>
    match v with
    | .future id => return .push [.resume id line]
    | v => Eval.failAt (.notAwaitable v.kind) line
  | .resume id line => do
    match ← Run.observe id with
    | some (.resolved v) => return .value v
    | some (.failed f) => return .fail (if f.line = 0 then { f with line } else f)
    | some .pending => return .suspend id (.resume id line)
    | none => Eval.failAt .unknownFuture line
  | .attempt line => return .value (← Run.attempt v line)

section

variable {r : Recur γ} {e : Expr} {env : Env} {done : List Value} {v : Value}

theorem stepFrame_operand_of_next {next : Expr} {rest : List Expr}
    (h : e.operands.drop (done.length + 1) = next :: rest) :
    r.stepFrame (.operand e env done) v =
      return .push [.eval next env, .operand e env (v :: done)] := by
  rw [stepFrame, h]

theorem stepFrame_operand_of_last (h : e.operands.drop (done.length + 1) = []) :
    r.stepFrame (.operand e env done) v =
      return .value (← (r.combine e env (v :: done).reverse).located e.line) := by
  rw [stepFrame, h]

theorem stepFrame_branch (span : Span) (test whenTrue : Expr) (whenFalse : Option Expr) :
    r.stepFrame (.branch (.branch span test whenTrue whenFalse) env) v = do
      if ← (Run.truth .branch v).located span.line then return .push [.eval whenTrue env]
      else match whenFalse with
        | some other => return .push [.eval other env]
        | none => return .value .void :=
  rfl

theorem stepFrame_arms (span : Span) (scrutinee : Expr) (arms : List MatchArm) :
    r.stepFrame (.arms (.cases span scrutinee arms) env) v = do
      let arm ← (r.selectArm v env arms).located span.line
      return .push [.eval arm.1 arm.2] :=
  rfl

theorem stepFrame_logic (span : Span) (op : BinaryOp) (lhs rhs : Expr) (right : Bool) :
    r.stepFrame (.logic (.binary span op lhs rhs) env right) v = do
      let a ← (Run.truth .operand v).located span.line
      if right || Run.decides op a then return .value (.bool a)
      else return .push [.eval rhs env, .logic (.binary span op lhs rhs) env true] :=
  rfl

theorem stepFrame_bind {next index : Nat} {binding : Span × Pattern × Option TypeExpr}
    {left : List Stmt × Option Expr} (hlet : e.letAt index = .ok binding)
    (hleft : e.statements next = .ok left) :
    r.stepFrame (.block e env next (.bind index)) v = do
      let env' ← r.bindLet binding.1 binding.2.1 binding.2.2 v env
      return .ofStatements e env' next left.1 left.2 := by
  have hnext : ∀ env' : Env,
      FrameStep.ofBlock e env' next = .ok (.ofStatements e env' next left.1 left.2) :=
    fun _ => FrameStep.ofBlock_of_statements hleft
  rw [stepFrame, hlet]
  simp only [hnext]
  rfl

theorem stepFrame_discard {next : Nat} {left : List Stmt × Option Expr}
    (h : e.statements next = .ok left) :
    r.stepFrame (.block e env next .discard) v =
      return .ofStatements e env next left.1 left.2 := by
  rw [stepFrame, FrameStep.ofBlock_of_statements h]
  rfl

end

/-- Works a stack of frames off. -/
def runStack (r : Recur γ) (module : Nat) (root : Bool) :
    Nat → List TaskFrame → Value → Run γ TaskStep
  | 0, _, _ => throw .exhausted
  | _ + 1, [], v => return .complete v
  | fuel + 1, frame :: stack, v => do
    match ← r.stepFrame frame v with
    | .value v => runStack r module root fuel stack v
    | .push frames => runStack r module root fuel (frames ++ stack) .void
    | .suspend on frame => return .suspend on (.machine ⟨frame :: stack, module, root⟩)
    | .fail f => return .fail f

def runMachine (r : Recur γ) (m : TaskMachine) : Run γ TaskStep :=
  Run.inModule m.module (r.runStack m.module m.root r.fuel m.stack .void)

/-- Settles as the source does. -/
def follow (source : FutureId) : Run γ TaskStep := do
  match ← Run.observe source with
  | some (.resolved v) => return .complete v
  | some (.failed f) => return .fail f
  | some .pending => return .suspend source (.combinator (.forward source))
  | none => Eval.fail .unknownFuture

/-- Ends with what a handler gives, and if that is a future, as that future does. -/
def handle (r : Recur γ) (handler argument : Value) : Run γ TaskStep := do
  match ← r.call handler [argument] with
  | .future next => follow next
  | v => return .complete v

/-- Collects the values of futures, first to last; the first failure ends it. -/
def collect : List FutureId → List Value → Run γ TaskStep
  | [], values => return .complete (.list values.reverse)
  | source :: rest, values => do
    match ← Run.observe source with
    | some (.resolved v) => collect rest (v :: values)
    | some (.failed f) => return .fail f
    | some .pending => return .suspend source (.combinator (.all (source :: rest) values))
    | none => Eval.fail .unknownFuture

def runCombinator (r : Recur γ) (c : Combinator) : Run γ TaskStep :=
  match c with
  | .forward source => follow source
  | .all sources values => collect sources values
  | .onError source handler => do
    match ← Run.observe source with
    | some (.resolved (.err error)) => r.handle handler error
    | some (.resolved v) => return .complete v
    | some (.failed f) => r.handle handler f.error
    | some .pending => return .suspend source (.combinator c)
    | none => Eval.fail .unknownFuture
  | .onComplete source handler => do
    match ← Run.observe source with
    | some (.resolved (.ok v)) => r.handle handler (.ok v)
    | some (.resolved (.err error)) => r.handle handler (.err error)
    | some (.resolved v) => r.handle handler (.ok v)
    | some (.failed f) => r.handle handler (.err f.error)
    | some .pending => return .suspend source (.combinator c)
    | none => Eval.fail .unknownFuture
  | .andThen source handler => do
    match ← Run.observe source with
    | some (.resolved v) => r.handle handler v
    | some (.failed f) => return .fail f
    | some .pending => return .suspend source (.combinator c)
    | none => Eval.fail .unknownFuture

def runBodyOf (r : Recur γ) (body : TaskBody) : Run γ TaskStep :=
  match body with
  | .machine m => r.runMachine m
  | .combinator c => r.runCombinator c

end Recur

/-- The task belongs to the top of a module. -/
def TaskBody.isRoot : TaskBody → Bool
  | machine m => m.root
  | combinator _ => false

/-- How a slice that unwound ends its task. A `?` ends a task with a value, except at the top of a
module. -/
def Unwind.taskStep? (root : Bool) : Unwind → Option TaskStep
  | fail fault line => some (.fail ⟨.text fault.message, line⟩)
  | early v line =>
    some (if root then .fail ⟨.text (Fault.unhandled v).message, line⟩ else .complete v)
  | exhausted => none

namespace Recur

variable {γ : Type}

/-- A slice of a task; all that can go wrong in it ends the task. -/
def runSlice (r : Recur γ) (body : TaskBody) : Run γ TaskStep := fun s =>
  match r.runBodyOf body s with
  | .ok step s => .ok step s
  | .error u s =>
    match u.taskStep? body.isRoot with
    | some step => .ok step s
    | none => .error u s

/-- Runs a task for a slice and puts it back, or settles its future. -/
def runTask (r : Recur γ) (task : Task TaskBody) : Run γ Unit := do
  let step ← r.runSlice task.body
  Run.withScheduler fun s =>
    match step with
    | .complete v => ((), s.complete task v)
    | .suspend on body => ((), s.suspend { task with body } on)
    | .fail f => ((), s.fail task f)

end Recur

end StreamLang
