import StreamLang.Proofs.Bound.Meaning
import StreamLang.Proofs.Lockstep.Diagonal

/-! What an expression comes to, said by one equation for each construct: in terms of what its parts
come to, without a bound. -/

namespace StreamLang

variable {γ : Type} [Gateway γ]

open Eval

namespace Recur

theorem eval_grows (e : Expr) (env : Env) : Grows fun n => (ofFuel (γ := γ) n).eval e env :=
  fun _ _ h => (ofFuel_below h).eval e env

end Recur

namespace Expr

/-- What the expression comes to. -/
noncomputable def meaning (e : Expr) (env : Env) : Meaning (Interpreter γ) Value :=
  limit fun n => (Recur.ofFuel n).eval e env

/-- An absent expression comes to nothing of interest. -/
noncomputable def meaningOr (e : Option Expr) (env : Env) : Meaning (Interpreter γ) Value :=
  limit fun n => (Recur.ofFuel n).evalOr e env

/-- What a block comes to from a statement on. -/
noncomputable def blockMeaning (tail : Option Expr) (stmts : List Stmt) (env : Env) :
    Meaning (Interpreter γ) Value :=
  limit fun n => (Recur.ofFuel n).evalBlock tail stmts env

/-- The scope behind a `let`. -/
noncomputable def letMeaning (span : Span) (pattern : Pattern) (ty : Option TypeExpr) (v : Value)
    (env : Env) : Meaning (Interpreter γ) Env :=
  limit fun n => (Recur.ofFuel n).bindLet span pattern ty v env

/-- The arm that is taken, and its scope. -/
noncomputable def armMeaning (v : Value) (env : Env) (arms : List MatchArm) :
    Meaning (Interpreter γ) (Expr × Env) :=
  limit fun n => (Recur.ofFuel n).selectArm v env arms

/-- What the parts come to, first to last. -/
noncomputable def partsMeaning (es : List Expr) (env : Env) : Meaning (Interpreter γ) (List Value) :=
  limit fun n => es.mapM fun part => (Recur.ofFuel n).eval part env

noncomputable def combineMeaning (e : Expr) (env : Env) (vs : List Value) :
    Meaning (Interpreter γ) Value :=
  limit fun n => (Recur.ofFuel n).combine e env vs

section

open Recur (eval_grows ofFuel_below)

theorem meaning_eq_evalNode (e : Expr) (env : Env) :
    e.meaning (γ := γ) env = limit fun n => (Recur.ofFuel n).evalNode e env := by
  have hnode : Grows fun n => (Recur.ofFuel (γ := γ) n).evalNode e env :=
    fun _ _ h => (ofFuel_below h).evalNode e env
  rw [← hnode.limit_located e.line]
  exact (eval_grows e env).limit_succ.symm

theorem meaningOr_none (env : Env) : meaningOr (γ := γ) none env = pure .void :=
  Grows.limit_const _

theorem meaning_branch (span : Span) (test whenTrue : Expr) (whenFalse : Option Expr) (env : Env) :
    (branch span test whenTrue whenFalse).meaning (γ := γ) env = (do
      let v ← test.meaning env
      let b ← (Run.truth .branch v).meaning
      if b then whenTrue.meaning env else meaningOr whenFalse env) := by
  have harms : ∀ b : Bool, Grows fun n => if b then (Recur.ofFuel (γ := γ) n).eval whenTrue env
      else (Recur.ofFuel n).evalOr whenFalse env := by
    intro b
    cases b with
    | true => exact eval_grows whenTrue env
    | false => exact fun _ _ h => (ofFuel_below h).evalOr whenFalse env
  rw [meaning_eq_evalNode]
  refine ((eval_grows (γ := γ) test env).limit_bind fun v => .bind (.const _) harms).trans ?_
  refine bind_congr fun v => (Grows.limit_bind_right _ harms).trans (bind_congr fun b => ?_)
  cases b <;> rfl

theorem meaning_cases (span : Span) (scrutinee : Expr) (arms : List MatchArm) (env : Env) :
    (cases span scrutinee arms).meaning (γ := γ) env = (do
      let v ← scrutinee.meaning env
      let arm ← armMeaning v env arms
      arm.1.meaning arm.2) := by
  have hselect : ∀ v, Grows fun n => (Recur.ofFuel (γ := γ) n).selectArm v env arms :=
    fun v _ _ h => (ofFuel_below h).selectArm v env arms
  have hbody : ∀ arm : Expr × Env, Grows fun n => (Recur.ofFuel (γ := γ) n).eval arm.1 arm.2 :=
    fun arm => eval_grows arm.1 arm.2
  rw [meaning_eq_evalNode]
  refine ((eval_grows (γ := γ) scrutinee env).limit_bind fun v => (hselect v).bind hbody).trans ?_
  exact bind_congr fun v => (hselect v).limit_bind hbody

theorem meaning_block (span : Span) (stmts : List Stmt) (tail : Option Expr) (env : Env) :
    (block span stmts tail).meaning (γ := γ) env = blockMeaning tail stmts env :=
  meaning_eq_evalNode _ env

theorem blockMeaning_nil (tail : Option Expr) (env : Env) :
    blockMeaning (γ := γ) tail [] env = meaningOr tail env :=
  rfl

theorem block_grows (tail : Option Expr) (stmts : List Stmt) (env : Env) :
    Grows fun n => (Recur.ofFuel (γ := γ) n).evalBlock tail stmts env :=
  fun _ _ h => (ofFuel_below h).evalBlock tail stmts env

theorem blockMeaning_bind (tail : Option Expr) (span : Span) (pattern : Pattern)
    (ty : Option TypeExpr) (value : Expr) (rest : List Stmt) (env : Env) :
    blockMeaning (γ := γ) tail (.bind span pattern ty value :: rest) env = (do
      let v ← value.meaning env
      let env' ← letMeaning span pattern ty v env
      blockMeaning tail rest env') := by
  have hlet : ∀ v, Grows fun n => (Recur.ofFuel (γ := γ) n).bindLet span pattern ty v env :=
    fun v _ _ h => (ofFuel_below h).bindLet span pattern ty v env
  refine ((eval_grows (γ := γ) value env).limit_bind fun v => (hlet v).bind (block_grows tail rest)).trans ?_
  exact bind_congr fun v => (hlet v).limit_bind (block_grows tail rest)

theorem blockMeaning_expr (tail : Option Expr) (e : Expr) (rest : List Stmt) (env : Env) :
    blockMeaning (γ := γ) tail (.expr e :: rest) env = (do
      let _ ← e.meaning env
      blockMeaning tail rest env) :=
  (eval_grows e env).limit_bind fun _ => block_grows tail rest env

theorem meaning_await (span : Span) (future : Expr) (env : Env) :
    (await span future).meaning (γ := γ) env = (do
      let v ← future.meaning env
      (Run.awaitSettled v span.line).meaning) := by
  rw [meaning_eq_evalNode]
  exact (eval_grows future env).limit_bind_left _

theorem meaning_attempt (span : Span) (inner : Expr) (env : Env) :
    (attempt span inner).meaning (γ := γ) env = (do
      let v ← inner.meaning env
      (Run.attempt v span.line).meaning) := by
  rw [meaning_eq_evalNode]
  exact (eval_grows inner env).limit_bind_left _

theorem meaning_logical {op : BinaryOp} (h : op.isLogical = true) (span : Span) (lhs rhs : Expr)
    (env : Env) :
    (binary span op lhs rhs).meaning (γ := γ) env = (do
      let v ← lhs.meaning env
      let a ← (Run.truth .operand v).meaning
      if Run.decides op a then return .bool a
      else do
        let w ← rhs.meaning env
        let b ← (Run.truth .operand w).meaning
        return .bool b) := by
  have hright : ∀ a : Bool, Grows fun n => if Run.decides op a then pure (Value.bool a) else
      (Recur.ofFuel (γ := γ) n).eval rhs env >>= fun w =>
        Run.truth .operand w >>= fun b => pure (Value.bool b) := by
    intro a
    split
    · exact .const _
    · exact (eval_grows rhs env).bind fun _ => .const _
  have hnode : (fun n => (Recur.ofFuel (γ := γ) n).evalNode (binary span op lhs rhs) env) =
      fun n => (Recur.ofFuel n).evalLogical op lhs rhs env := by
    funext n
    rw [Recur.evalNode, if_pos h]
  rw [meaning_eq_evalNode, hnode]
  refine ((eval_grows (γ := γ) lhs env).limit_bind fun v => .bind (.const _) hright).trans ?_
  refine bind_congr fun v => (Grows.limit_bind_right _ hright).trans (bind_congr fun a => ?_)
  split
  · exact Grows.limit_const _
  · refine ((eval_grows rhs env).limit_bind_left _).trans (bind_congr fun w => ?_)
    rw [meaning_bind]
    rfl

theorem parts_grows (es : List Expr) (env : Env) :
    Grows fun n => es.mapM fun part => (Recur.ofFuel (γ := γ) n).eval part env :=
  fun _ _ h => .mapM (fun part => (ofFuel_below h).eval part env) es

theorem partsMeaning_nil (env : Env) : partsMeaning (γ := γ) [] env = pure [] :=
  Grows.limit_const _

theorem partsMeaning_cons (e : Expr) (es : List Expr) (env : Env) :
    partsMeaning (γ := γ) (e :: es) env = (do
      let v ← e.meaning env
      let vs ← partsMeaning es env
      return v :: vs) := by
  simp only [partsMeaning, List.mapM_cons]
  refine ((eval_grows e env).limit_bind fun v => (parts_grows es env).bind fun vs => ?_).trans ?_
  · exact .const (pure (v :: vs))
  · exact bind_congr fun v => (parts_grows es env).limit_bind_left _

theorem meaning_parts {e : Expr}
    (h : ∀ (r : Recur γ) env, r.evalNode e env = r.evalParts e env) (env : Env) :
    e.meaning (γ := γ) env = (do
      let vs ← partsMeaning e.operands env
      combineMeaning e env vs) := by
  simp only [meaning_eq_evalNode, h]
  exact (parts_grows e.operands env).limit_bind fun vs _ _ hle => (ofFuel_below hle).combine e env vs

end

end Expr

end StreamLang

/-! What a stack of frames comes to, whatever the bound on the number of steps: one equation for a
step, and one for each frame that does not call the evaluator. -/

namespace StreamLang

open Eval Recur

/-- How a slice ends, without the line of a failure. -/
def TaskStep.finish : TaskStep → Except Stop Value
  | complete v => .ok v
  | suspend _ _ => .error .waiting
  | fail f => .error (.failed f.message)

variable {γ : Type} [Gateway γ] (module : Nat) (root : Bool)

/-- What working off a stack comes to. -/
noncomputable def stackMeaning (frames : List TaskFrame) (v : Value) :
    Meaning (Interpreter γ) Value := do
  let step ← limit fun n => (ofFuel n).runStack module root n frames v
  MonadExcept.ofExcept step.finish

/-- What a stack comes to after a step of the frame above it. -/
noncomputable def FrameStep.meaning (stack : List TaskFrame) :
    FrameStep → Meaning (Interpreter γ) Value
  | value v => stackMeaning module root stack v
  | push frames => stackMeaning module root (frames ++ stack) .void
  | suspend _ _ => throw .waiting
  | fail f => throw (.failed f.message)

theorem stack_grows (frames : List TaskFrame) (v : Value) :
    Grows fun n => (ofFuel (γ := γ) n).runStack module root n frames v :=
  fun _ _ h => (ofFuel_below h).runStack module root h frames v

/-- The bound on the steps may lag behind. -/
theorem limit_runStack_succ (frames : List TaskFrame) (v : Value) :
    limit (fun n => (ofFuel (γ := γ) (n + 1)).runStack module root n frames v) =
      limit fun n => (ofFuel n).runStack module root n frames v := by
  refine Grows.limit_eq_of_below (fun m n h => ?_) (stack_grows module root frames v)
    (fun n => ⟨n + 1, ?_⟩) fun n => ⟨n, ?_⟩
  · exact (ofFuel_below (Nat.succ_le_succ h)).runStack module root h frames v
  · exact (ofFuel_below (Nat.le_refl _)).runStack module root (Nat.le_succ n) frames v
  · exact (ofFuel_below (Nat.le_succ n)).runStack module root (Nat.le_refl n) frames v

theorem stackMeaning_nil (v : Value) : stackMeaning (γ := γ) module root [] v = pure v := by
  have h : limit (fun n => (ofFuel (γ := γ) n).runStack module root n [] v) =
      pure (.complete v) := by
    rw [← (stack_grows module root [] v).limit_succ]
    exact Grows.limit_const _
  rw [stackMeaning, h, pure_bind]
  rfl

/-- The rest of a slice, after a step of the frame above the stack. -/
def Recur.goOn (r : Recur γ) (fuel : Nat) (stack : List TaskFrame) : FrameStep → Run γ TaskStep
  | .value v => r.runStack module root fuel stack v
  | .push frames => r.runStack module root fuel (frames ++ stack) .void
  | .suspend on frame => return .suspend on (.machine ⟨frame :: stack, module, root⟩)
  | .fail f => return .fail f

theorem goOn_grows (stack : List TaskFrame) (step : FrameStep) :
    Grows fun n => (ofFuel (γ := γ) (n + 1)).goOn module root n stack step := by
  intro m n h
  have hr := ofFuel_below (γ := γ) (Nat.succ_le_succ h)
  cases step with
  | value v => exact hr.runStack module root h stack v
  | push frames => exact hr.runStack module root h (frames ++ stack) .void
  | suspend on frame => exact .refl _
  | fail f => exact .refl _

theorem limit_goOn (stack : List TaskFrame) (step : FrameStep) :
    (do
      let last ← limit fun n => (ofFuel (γ := γ) (n + 1)).goOn module root n stack step
      MonadExcept.ofExcept last.finish) = step.meaning module root stack := by
  cases step with
  | value v => exact congrArg (· >>= _) (limit_runStack_succ module root stack v)
  | push frames => exact congrArg (· >>= _) (limit_runStack_succ module root (frames ++ stack) .void)
  | suspend on frame =>
    exact congrArg (· >>= _) (Grows.limit_const (pure _))
  | fail f =>
    exact congrArg (· >>= _) (Grows.limit_const (pure _))

/-- One step of the machine. -/
theorem stackMeaning_cons (frame : TaskFrame) (stack : List TaskFrame) (v : Value) :
    stackMeaning (γ := γ) module root (frame :: stack) v = (do
      let step ← limit fun n => (ofFuel n).stepFrame frame v
      step.meaning module root stack) := by
  have hstep : Grows fun n => (ofFuel (γ := γ) n).stepFrame frame v :=
    fun _ _ h => (ofFuel_below h).stepFrame frame v
  have hrun : limit (fun n => (ofFuel (γ := γ) n).runStack module root n (frame :: stack) v) =
      limit (fun n => (ofFuel n).stepFrame frame v) >>= fun step =>
        limit fun n => (ofFuel (n + 1)).goOn module root n stack step := by
    rw [← (stack_grows module root (frame :: stack) v).limit_succ, ← hstep.limit_succ]
    exact Grows.limit_bind (fun m n h => hstep (Nat.succ_le_succ h)) (goOn_grows module root stack)
  rw [stackMeaning, hrun, bind_assoc]
  exact bind_congr fun step => limit_goOn module root stack step

/-- The frame does not call the evaluator. -/
theorem stackMeaning_cons_of_const {frame : TaskFrame} {v : Value} (x : Run γ FrameStep)
    (h : ∀ r : Recur γ, r.stepFrame frame v = x) (stack : List TaskFrame) :
    stackMeaning (γ := γ) module root (frame :: stack) v = (do
      let step ← x.meaning
      step.meaning module root stack) := by
  simp only [stackMeaning_cons, h]
  exact congrArg (· >>= _) (Grows.limit_const x)

/-- The frame looks at its value first, and calls the evaluator for nothing. -/
theorem stackMeaning_cons_of_bind {α : Type} {frame : TaskFrame} {v : Value} (x : Run γ α)
    (f : α → Run γ FrameStep) (h : ∀ r : Recur γ, r.stepFrame frame v = x >>= f)
    (stack : List TaskFrame) :
    stackMeaning (γ := γ) module root (frame :: stack) v = (do
      let a ← x.meaning
      let step ← (f a).meaning
      step.meaning module root stack) := by
  rw [stackMeaning_cons_of_const module root _ h, meaning_bind, bind_assoc]

variable {module root}

theorem stackMeaning_resume (id : FutureId) (line : Nat) (stack : List TaskFrame) (v : Value) :
    stackMeaning (γ := γ) module root (.resume id line :: stack) v =
      (Run.awaitSettled (.future id) line).meaning >>= stackMeaning module root stack := by
  rw [stackMeaning_cons_of_bind module root (Run.observe id) _ fun _ => rfl, Run.awaitSettled,
    meaning_bind, bind_assoc]
  refine bind_congr fun state => ?_
  rcases state with _ | _ | w | f
  · rfl
  · rfl
  · exact (pure_bind _ _).trans (pure_bind _ _).symm
  · dsimp only
    split <;> rfl

theorem stackMeaning_await (line : Nat) (stack : List TaskFrame) (v : Value) :
    stackMeaning (γ := γ) module root (.await line :: stack) v =
      (Run.awaitSettled v line).meaning >>= stackMeaning module root stack := by
  cases v with
  | future id =>
    rw [stackMeaning_cons_of_const module root (pure (.push [.resume id line])) fun _ => rfl,
      meaning_pure, pure_bind]
    exact stackMeaning_resume id line stack .void
  | _ =>
    rw [stackMeaning_cons_of_const module root _ fun _ => rfl]
    rfl

end StreamLang
