import StreamLang.Gateway.Stock
import StreamLang.Proofs.Machine.Located

/-! The lines of failures in tasks. A machine gives a failure the line that the evaluator gives it,
with one exception: a `?` that may have to wait and is applied to something that is no success and
no failure gives no line. -/

namespace StreamLang

open Eval Recur

variable {γ : Type} [Gateway γ] (module : Nat) (root : Bool) (lost : Fault → Nat → Prop)

/-- Working a stack off within a bound. -/
abbrev working (frames : List TaskFrame) (v : Value) (n : Nat) : Run γ TaskStep :=
  (ofFuel n).runStack module root n frames v

/-- What is left to do after a step of the frame above the stack. -/
abbrev remaining (stack : List TaskFrame) (step : FrameStep) (n : Nat) : Run γ TaskStep :=
  (ofFuel (n + 1)).goOn module root n stack step

/-- A slice ends with the failure: it is raised here, or it is the one of an awaited future. -/
inductive Reports (fault : Fault) (line : Nat) (t : Interpreter γ) :
    EStateM.Result Unwind (Interpreter γ) TaskStep → Prop
  | raised : Reports fault line t (.error (.fail fault line) t)
  | awaited {f : Failed} (hmessage : f.message = fault.message) (hline : f.line = line) :
    Reports fault line t (.ok (.fail f) t)

/-- What a machine does with a stack works the expression `x` out on top of it. With a value of `x`
it goes on below, and a failure of `x` it reports, with its line or, if that may be lost,
without. -/
structure Works (work : List TaskFrame → Nat → Run γ TaskStep) (x : Nat → Run γ Value) : Prop where
  value : ∀ {stack : List TaskFrame} {s t : Interpreter γ} {w : Value}
    {r : EStateM.Result Unwind (Interpreter γ) TaskStep}, Complete r → Arrives x s (.ok w t) →
    Arrives (working module root stack w) t r → Arrives (work stack) s r
  failure : ∀ {stack : List TaskFrame} {s t : Interpreter γ} {fault : Fault} {line : Nat},
    Arrives x s (.error (.fail fault line) t) → fault ≠ .pendingAwait →
    ∃ r, Arrives (work stack) s r ∧ (Reports fault line t r ∨ lost fault line ∧ Reports fault 0 t r)

omit [Gateway γ] in
theorem Reports.complete {fault : Fault} {line : Nat} {t : Interpreter γ}
    {r : EStateM.Result Unwind (Interpreter γ) TaskStep} (h : Reports fault line t r) :
    Complete r := by
  cases h with
  | raised => rintro _ ⟨⟩
  | awaited hmessage hline => rintro _ ⟨⟩

variable {module root lost}

theorem arrives_remaining {frames : List TaskFrame} {v : Value} {s : Interpreter γ}
    {r : EStateM.Result Unwind (Interpreter γ) TaskStep} (hr : Complete r)
    (h : Arrives (working module root frames v) s r) :
    Arrives (fun n => (ofFuel (n + 1)).runStack module root n frames v) s r := by
  obtain ⟨n, hn⟩ := h
  refine ⟨n, fun fuel hle => ?_⟩
  have hbelow := (ofFuel_below (γ := γ) (Nat.le_succ fuel)).runStack module root (Nat.le_refl fuel)
    frames v
  exact hbelow.eq_of_complete (hn fuel hle) hr

namespace Works

variable {work : List TaskFrame → Nat → Run γ TaskStep} {x : Nat → Run γ Value}

/-- What follows the expression is the work of the frame below. -/
theorem push {below : TaskFrame} {f : Nat → Value → Run γ Value} (hx : Grows x)
    (h : Works module root lost work x)
    (hbelow : ∀ w, Works module root lost (fun stack => working module root (below :: stack) w)
      fun n => f n w) :
    Works module root lost (fun stack => work (below :: stack)) fun n => x n >>= f n where
  value hr hvalue hstack := by
    rcases hvalue.bind_cases hx (complete_ok _ _) with ⟨w, s₁, hw, hf⟩ | ⟨u, s₁, -, hu⟩
    · exact h.value hr hw ((hbelow w).value hr hf hstack)
    · cases hu
  failure hfails hfault := by
    rcases hfails.bind_cases hx (by rintro _ ⟨⟩) with ⟨w, s₁, hw, hf⟩ | ⟨u, s₁, hu, hends⟩
    · obtain ⟨r, hr, hreports⟩ := (hbelow w).failure hf hfault
      have hcomplete : Complete r := hreports.elim (·.complete) (·.2.complete)
      exact ⟨r, h.value hcomplete hw hr, hreports⟩
    · cases hends
      exact h.failure hu hfault

/-- A frame looks at its value, or calls the evaluator for something, and then makes its step. -/
theorem frame {α : Type} {top : TaskFrame} {v : Value} {y : Nat → Run γ α}
    {g : α → Run γ FrameStep} {f : Nat → α → Run γ Value} (hy : Grows y)
    (htop : ∀ n, (ofFuel (γ := γ) n).stepFrame top v = y n >>= g)
    (h : ∀ a s s', Arrives y s (.ok a s') → Works module root lost
      (fun stack n => g a >>= fun step => remaining module root stack step n) fun n => f n a) :
    Works module root lost (fun stack => working module root (top :: stack) v)
      fun n => y n >>= f n := by
  have hwork : ∀ stack n, working (γ := γ) module root (top :: stack) v (n + 1) =
      y (n + 1) >>= fun a => g a >>= fun step => remaining module root stack step n := by
    intro stack n
    rw [← bind_assoc, ← htop]
    rfl
  constructor
  case value =>
    intro stack s t w r hr hvalue hstack
    rcases hvalue.bind_cases hy (complete_ok _ _) with ⟨a, s₁, ha, hf⟩ | ⟨u, s₁, -, hu⟩
    · refine .step ?_
      simp only [hwork]
      exact ha.later.bind ((h a s s₁ ha).value hr hf hstack)
    · cases hu
  case failure =>
    intro stack s t fault line hfails hfault
    rcases hfails.bind_cases hy (by rintro _ ⟨⟩) with ⟨a, s₁, ha, hf⟩ | ⟨u, s₁, hu, hends⟩
    · obtain ⟨r, hr, hreports⟩ : ∃ r,
          Arrives (fun n => g a >>= fun step => remaining module root stack step n) s₁ r ∧
            (Reports fault line t r ∨ lost fault line ∧ Reports fault 0 t r) :=
        (h a s s₁ ha).failure hf hfault
      refine ⟨r, .step ?_, hreports⟩
      simp only [hwork]
      exact ha.later.bind hr
    · cases hends
      refine ⟨_, .step ?_, .inl .raised⟩
      simp only [hwork]
      exact hu.later.bind_error

/-- The frame makes its step at once. -/
theorem frame_pure {top : TaskFrame} {v : Value} {step : FrameStep}
    (htop : ∀ n, (ofFuel (γ := γ) n).stepFrame top v = pure step)
    (h : Works module root lost (fun stack => remaining module root stack step) x) :
    Works module root lost (fun stack => working module root (top :: stack) v) x :=
  frame (y := fun _ => pure ()) (g := fun _ => pure step) (f := fun n _ => x n)
    (.const _) htop fun _ _ _ _ => h

theorem value_step (w : Value) :
    Works (γ := γ) module root lost (fun stack => remaining module root stack (.value w))
      fun _ => pure w where
  value hr hvalue hstack := by
    obtain ⟨n, hn⟩ := hvalue
    cases hn n (Nat.le_refl n)
    exact arrives_remaining hr hstack
  failure hfails := by
    obtain ⟨n, hn⟩ := hfails
    cases hn n (Nat.le_refl n)

theorem push_step {frames : List TaskFrame}
    (h : Works module root lost (fun stack => working module root (frames ++ stack) .void) x) :
    Works module root lost (fun stack => remaining module root stack (.push frames)) x where
  value hr hvalue hstack := arrives_remaining hr (h.value hr hvalue hstack)
  failure hfails hfault := by
    obtain ⟨r, hr, hreports⟩ := h.failure hfails hfault
    exact ⟨r, arrives_remaining (hreports.elim (·.complete) (·.2.complete)) hr, hreports⟩

/-- The frame gives its value at once. -/
theorem frame_value {top : TaskFrame} {v : Value} (hx : Grows x)
    (htop : ∀ n, (ofFuel (γ := γ) n).stepFrame top v = x n >>= fun w => pure (.value w)) :
    Works module root lost (fun stack => working module root (top :: stack) v) x := by
  have h : Works module root lost (fun stack => working module root (top :: stack) v)
      fun n => x n >>= pure :=
    frame hx htop fun w _ _ _ => value_step w
  simpa only [bind_pure] using h

/-- What is to be worked out just fails. -/
theorem of_fails {y : Run γ Value} {fault : Fault} {line : Nat}
    (hy : ∀ s, y s = .error (.fail fault line) s)
    (h : fault ≠ .pendingAwait → ∀ stack s, ∃ r,
      Arrives (work stack) s r ∧ Reports fault line s r) :
    Works module root lost work fun _ => y where
  value hr hvalue hstack := by
    obtain ⟨n, hn⟩ := hvalue
    cases (hy _).symm.trans (hn n (Nat.le_refl n))
  failure hfails hfault := by
    obtain ⟨n, hn⟩ := hfails
    cases (hy _).symm.trans (hn n (Nat.le_refl n))
    obtain ⟨r, hr, hreports⟩ := h hfault _ _
    exact ⟨r, hr, .inl hreports⟩

/-- Lines may be lost here. -/
theorem unlocated {y : Run γ Value} {line : Nat} (h : Works module root lost work fun _ => y)
    (hlost : ∀ s fault inner t, y s = .error (.fail fault inner) t → inner = 0 ∧ lost fault line) :
    Works module root lost work fun _ => y.located line where
  value hr hvalue hstack := by
    obtain ⟨n, hn⟩ := hvalue
    exact h.value hr (.of_eq (located_eq_ok (hn n (Nat.le_refl n)))) hstack
  failure hfails hfault := by
    obtain ⟨n, hn⟩ := hfails
    obtain ⟨inner, hinner, hline⟩ := located_eq_fail (hn n (Nat.le_refl n))
    obtain ⟨rfl, hlost⟩ := hlost _ _ _ _ hinner
    obtain ⟨r, hr, hreports⟩ := h.failure (.of_eq hinner) hfault
    rw [if_pos rfl] at hline
    exact ⟨r, hr, .inr ⟨hline ▸ hlost, hreports.elim id (·.2)⟩⟩

/-- The same computations for the expression. -/
theorem congr {y : Nat → Run γ Value} (hxy : ∀ n, y n = x n) (h : Works module root lost work x) :
    Works module root lost work y := by
  rwa [funext hxy]

/-- The bound of the expression may lag behind. -/
theorem later (h : Works module root lost work fun n => x (n + 1)) :
    Works module root lost work x :=
  ⟨fun hr hvalue => h.value hr hvalue.later, fun hfails => h.failure hfails.later⟩

end Works

namespace Expr

variable (module root lost)

/-- On top of every stack the machine works the expression out. -/
def Worked (e : Expr) : Prop :=
  ∀ env v, Works (γ := γ) module root lost
    (fun stack => working module root (.eval e env :: stack) v) fun n => (ofFuel n).eval e env

variable {module root lost}

theorem worked_of_not_suspends {e : Expr} (h : ¬ e.suspends) :
    e.Worked (γ := γ) module root lost := by
  intro env v
  exact .frame_value (eval_grows e env) fun n => by rw [stepFrame, if_neg h]

/-- The first step of an expression that may have to wait. -/
theorem works_eval {e : Expr} {env : Env} {step : FrameStep} (h : e.suspends)
    (hstep : FrameStep.ofExpr e env = .ok step)
    (hworks : Works (γ := γ) module root lost (fun stack => remaining module root stack step)
      fun n => ((ofFuel n).evalNode e env).located e.line) (v : Value) :
    Works (γ := γ) module root lost (fun stack => working module root (.eval e env :: stack) v)
      fun n => (ofFuel n).eval e env := by
  have htop : ∀ n, (ofFuel (γ := γ) n).stepFrame (.eval e env) v = pure step := by
    intro n
    rw [stepFrame, if_pos h, hstep]
    rfl
  exact .frame_pure htop (.later hworks)

/-- A part comes first, and the frame below it does the rest. -/
theorem works_pair {part : Expr} (hpart : part.Worked (γ := γ) module root lost) (env : Env)
    {below : TaskFrame} {f : Nat → Value → Run γ Value}
    (hbelow : ∀ w, Works module root lost (fun stack => working module root (below :: stack) w)
      fun n => f n w) :
    Works module root lost
      (fun stack => remaining module root stack (.push [.eval part env, below]))
      fun n => (ofFuel n).eval part env >>= f n :=
  .push_step (.push (eval_grows part env) (hpart env .void) hbelow)

/-- As `works_pair`, for an expression that begins with the part. What follows in the expression has
its line, which the failures of the part do not take. -/
theorem works_first {e part : Expr} (h : e.suspends)
    (hpart : part.Worked (γ := γ) module root lost) (hline : part.line ≠ 0) {env : Env}
    {below : TaskFrame} {f : Nat → Value → Run γ Value}
    (hstep : FrameStep.ofExpr e env = .ok (.push [.eval part env, below]))
    (hnode : ∀ n, (ofFuel (γ := γ) n).evalNode e env = (ofFuel n).eval part env >>= f n)
    (hbelow : ∀ w, Works module root lost (fun stack => working module root (below :: stack) w)
      fun n => (f n w).located e.line) (v : Value) :
    Works (γ := γ) module root lost (fun stack => working module root (.eval e env :: stack) v)
      fun n => (ofFuel n).eval e env := by
  have hlocated : ∀ n, ((ofFuel (γ := γ) n).evalNode e env).located e.line =
      (ofFuel n).eval part env >>= fun w => (f n w).located e.line := by
    intro n
    rw [hnode, located_bind, eval_pinned hline n env]
  refine works_eval h hstep ?_ v
  simp only [hlocated]
  exact works_pair hpart env hbelow

omit [Gateway γ] in
theorem Lined.line_of_mem {e part : Expr} (h : e.Lined) (hpart : part ∈ e.within) : part.line ≠ 0 :=
  h.line part (.part hpart .self)

theorem worked_branch {span : Span} {test whenTrue : Expr} {whenFalse : Option Expr}
    (hlined : (branch span test whenTrue whenFalse).Lined)
    (hparts : ∀ part ∈ (branch span test whenTrue whenFalse).within,
      part.Worked (γ := γ) module root lost)
    (h : (branch span test whenTrue whenFalse).suspends) :
    (branch span test whenTrue whenFalse).Worked (γ := γ) module root lost := by
  intro env v
  have htest : test ∈ (branch span test whenTrue whenFalse).within := .head _
  have htrue : whenTrue ∈ (branch span test whenTrue whenFalse).within := .tail _ (.head _)
  refine works_first h (hparts test htest) (hlined.line_of_mem htest) rfl (fun _ => rfl)
    (fun w => ?_) v
  simp only [located_bind]
  refine .frame (.const _) (fun _ => rfl) fun b _ _ _ => ?_
  cases b with
  | true =>
    have hpinned := fun n => eval_pinned (γ := γ) (hlined.line_of_mem htrue) n env span.line
    exact .congr hpinned (.push_step (hparts whenTrue htrue env .void))
  | false =>
    cases whenFalse with
    | none => exact .value_step .void
    | some e =>
      have he : e ∈ (branch span test whenTrue (some e)).within := .tail _ (.tail _ (.head _))
      have hpinned := fun n => eval_pinned (γ := γ) (hlined.line_of_mem he) n env span.line
      exact .congr hpinned (.push_step (hparts e he env .void))

theorem worked_attempt {span : Span} {inner : Expr} (hlined : (attempt span inner).Lined)
    (hinner : inner.Worked (γ := γ) module root lost) (h : (attempt span inner).suspends)
    (hlost : ∀ kind, lost (.notAttemptable kind) span.line) :
    (attempt span inner).Worked (γ := γ) module root lost := by
  intro env v
  refine works_first h hinner (hlined.line_of_mem (.head _)) rfl (fun _ => rfl) (fun w => ?_) v
  refine .unlocated (.frame_value (.const _) fun _ => rfl) fun s fault line t hfails => ?_
  cases w with
  | ok inner => cases hfails
  | err error => cases hfails
  | option inner => cases inner <;> cases hfails
  | _ =>
    cases hfails
    exact ⟨rfl, hlost _⟩

/-- The frame looks at the future as the evaluator does. A failure of the future is reported as it
was stored. -/
theorem works_resume {line : Nat} (hline : line ≠ 0) (id : FutureId) (v : Value) :
    Works (γ := γ) module root lost
      (fun stack => working module root (.resume id line :: stack) v)
      fun _ => (Run.awaitSettled (.future id) line).located line := by
  have hobserve : ∀ f : Option FutureState → Run γ Value,
      (Run.observe id >>= f).located line =
        Run.observe id >>= fun state => (f state).located line :=
    fun f => located_bind _ _ _
  simp only [Run.awaitSettled, hobserve]
  refine .frame (.const _) (fun _ => rfl) fun state _ _ _ => ?_
  rcases state with _ | _ | w | f
  · refine .of_fails (congrFun (Pinned.failAt hline .unknownFuture line)) fun _ stack s => ?_
    exact ⟨_, .of_eq rfl, .raised⟩
  · exact .of_fails (fun _ => rfl) fun hfault => absurd rfl hfault
  · exact .value_step w
  · have hstored : (if f.line = 0 then line else f.line) ≠ 0 := by split <;> assumption
    refine .of_fails (congrFun (Pinned.failAt hstored (.failedFuture f.message) line))
      fun _ stack s => ⟨_, .of_eq rfl, .awaited ?_ ?_⟩
    · split <;> rfl
    · split <;> rfl

theorem worked_await {span : Span} {future : Expr} (hlined : (await span future).Lined)
    (hfuture : future.Worked (γ := γ) module root lost) :
    (await span future).Worked (γ := γ) module root lost := by
  intro env v
  refine works_first rfl hfuture (hlined.line_of_mem (.head _)) rfl (fun _ => rfl) (fun w => ?_) v
  cases w with
  | future id =>
    exact .frame_pure (fun _ => rfl) (.push_step (works_resume (hlined.line _ .self) id .void))
  | _ => exact .of_fails (fun _ => rfl) fun _ stack s => ⟨_, .step (.of_eq rfl), .raised⟩

theorem worked_logical {span : Span} {op : BinaryOp} {lhs rhs : Expr} (hop : op.isLogical = true)
    (hlined : (binary span op lhs rhs).Lined) (hlhs : lhs.Worked (γ := γ) module root lost)
    (hrhs : rhs.Worked (γ := γ) module root lost) (h : (binary span op lhs rhs).suspends) :
    (binary span op lhs rhs).Worked (γ := γ) module root lost := by
  intro env v
  have hright : rhs.line ≠ 0 := hlined.line_of_mem (.tail _ (.head _))
  refine works_first h hlhs (hlined.line_of_mem (.head _)) (if_pos hop) (fun _ => if_pos hop)
    (fun w => ?_) v
  simp only [located_bind]
  refine .frame (.const _) (fun _ => rfl) fun a _ _ _ => ?_
  simp only [Bool.false_or]
  split
  · exact .value_step _
  · simp only [located_bind, eval_pinned hright _ env (line (binary span op lhs rhs))]
    refine works_pair hrhs env fun u => .frame_value (.const _) fun _ => ?_
    rw [bind_assoc]
    rfl

theorem worked_cases {span : Span} {scrutinee : Expr} {arms : List MatchArm}
    (hlined : (cases span scrutinee arms).Lined)
    (hparts : ∀ part ∈ (cases span scrutinee arms).within, part.Worked (γ := γ) module root lost)
    (h : (cases span scrutinee arms).suspends) :
    (cases span scrutinee arms).Worked (γ := γ) module root lost := by
  intro env v
  refine works_first h (hparts scrutinee (.head _)) (hlined.line_of_mem (.head _)) rfl
    (fun _ => rfl) (fun w => ?_) v
  have hselect : Grows fun n => ((ofFuel (γ := γ) n).selectArm w env arms).located span.line :=
    fun _ _ h => ((ofFuel_below h).selectArm w env arms).located span.line
  simp only [located_bind]
  refine .frame hselect (fun _ => rfl) fun taken s t htaken => ?_
  obtain ⟨n, hn⟩ := htaken
  obtain ⟨arm, harm, hbody⟩ := selectArm_mem (located_eq_ok (hn n (Nat.le_refl n)))
  have hpart : taken.1 ∈ (cases span scrutinee arms).within := by
    rw [hbody]
    exact .tail _ (List.mem_flatMap.2 ⟨arm, harm, by simp⟩)
  have hpinned := fun n =>
    eval_pinned (γ := γ) (hlined.line_of_mem hpart) n taken.2 span.line
  exact .congr hpinned (.push_step (hparts _ hpart taken.2 .void))

theorem works_let {outer index : Nat} {e : Expr} {span : Span} {pattern : Pattern}
    {ty : Option TypeExpr} {value : Expr} {rest : List Stmt} {tail : Option Expr}
    (hleft : e.statements index = .ok (.bind span pattern ty value :: rest, tail))
    (hspan : span.line ≠ 0) (hline : value.line ≠ 0)
    (hvalue : value.Worked (γ := γ) module root lost) (env : Env)
    (hrest : ∀ env', Works (γ := γ) module root lost
      (fun stack => remaining module root stack (.ofStatements e env' (index + 1) rest tail))
      fun n => ((ofFuel n).evalBlock tail rest env').located outer) :
    Works (γ := γ) module root lost
      (fun stack => remaining module root stack
        (.ofStatements e env index (.bind span pattern ty value :: rest) tail))
      fun n => ((ofFuel n).evalBlock tail (.bind span pattern ty value :: rest) env).located
        outer := by
  have hlet : ∀ n w, ((ofFuel (γ := γ) n).bindLet span pattern ty w env).located outer =
      (ofFuel n).bindLet span pattern ty w env :=
    fun n w => (ofFuel n).bindLet_pinned hspan pattern ty w env outer
  have hgrows : ∀ w, Grows fun n => (ofFuel (γ := γ) n).bindLet span pattern ty w env :=
    fun w _ _ h => (ofFuel_below h).bindLet span pattern ty w env
  have hnode : ∀ n, ((ofFuel (γ := γ) n).evalBlock tail (.bind span pattern ty value :: rest)
      env).located outer = (do
        let w ← (ofFuel n).eval value env
        let env' ← (ofFuel n).bindLet span pattern ty w env
        ((ofFuel n).evalBlock tail rest env').located outer) := by
    intro n
    rw [evalBlock, located_bind, eval_pinned hline n env]
    refine bind_congr fun w => ?_
    rw [located_bind, hlet]
  have hframe : ∀ n w, (ofFuel (γ := γ) n).stepFrame (.block e env (index + 1) (.bind index)) w = (do
      let env' ← (ofFuel n).bindLet span pattern ty w env
      return .ofStatements e env' (index + 1) rest tail) :=
    fun _ _ => stepFrame_bind (letAt_of_statements hleft) (statements_succ hleft)
  simp only [hnode]
  exact works_pair hvalue env fun w =>
    .frame (hgrows w) (fun n => hframe n w) fun env' _ _ _ => hrest env'

theorem works_statement {outer index : Nat} {e first : Expr} {rest : List Stmt}
    {tail : Option Expr} (hleft : e.statements index = .ok (.expr first :: rest, tail))
    (hline : first.line ≠ 0) (hfirst : first.Worked (γ := γ) module root lost) (env : Env)
    (hrest : Works (γ := γ) module root lost
      (fun stack => remaining module root stack (.ofStatements e env (index + 1) rest tail))
      fun n => ((ofFuel n).evalBlock tail rest env).located outer) :
    Works (γ := γ) module root lost
      (fun stack => remaining module root stack
        (.ofStatements e env index (.expr first :: rest) tail))
      fun n => ((ofFuel n).evalBlock tail (.expr first :: rest) env).located outer := by
  have hnode : ∀ n, ((ofFuel (γ := γ) n).evalBlock tail (.expr first :: rest) env).located outer =
      (ofFuel n).eval first env >>= fun _ => ((ofFuel n).evalBlock tail rest env).located outer := by
    intro n
    rw [evalBlock, located_bind, eval_pinned hline n env]
  simp only [hnode]
  exact works_pair hfirst env fun _ =>
    .frame_pure (fun _ => stepFrame_discard (statements_succ hleft)) hrest

/-- The induction is on the statements: the frame of each hands the rest of the block on. -/
theorem works_block {outer index : Nat} {e : Expr} {tail : Option Expr} {stmts : List Stmt}
    (hleft : e.statements index = .ok (stmts, tail))
    (hstmts : ∀ stmt ∈ stmts, stmt.inner.line ≠ 0 ∧ stmt.inner.Worked (γ := γ) module root lost)
    (hlets : ∀ (span : Span) (pattern : Pattern) (ty : Option TypeExpr) (value : Expr),
      .bind span pattern ty value ∈ stmts → span.line ≠ 0)
    (htail : ∀ e ∈ tail.toList, e.line ≠ 0 ∧ e.Worked (γ := γ) module root lost) (env : Env) :
    Works (γ := γ) module root lost
      (fun stack => remaining module root stack (.ofStatements e env index stmts tail))
      fun n => ((ofFuel n).evalBlock tail stmts env).located outer := by
  induction stmts generalizing env index with
  | nil =>
    cases tail with
    | none => exact .value_step .void
    | some last =>
      obtain ⟨hline, hlast⟩ := htail last (.head _)
      have hpinned := fun n => eval_pinned (γ := γ) hline n env outer
      exact .congr hpinned (.push_step (hlast env .void))
  | cons stmt rest ih =>
    replace ih := ih (statements_succ hleft) (fun other ho => hstmts other (.tail _ ho))
      fun span pattern ty value hmem => hlets span pattern ty value (.tail _ hmem)
    obtain ⟨hline, hvalue⟩ := hstmts stmt (.head _)
    cases stmt with
    | bind span pattern ty value =>
      exact works_let hleft (hlets span pattern ty value (.head _)) hline hvalue env ih
    | expr first => exact works_statement hleft hline hvalue env (ih env)

theorem worked_block {span : Span} {stmts : List Stmt} {tail : Option Expr}
    (hlined : (block span stmts tail).Lined)
    (hparts : ∀ part ∈ (block span stmts tail).within, part.Worked (γ := γ) module root lost)
    (h : (block span stmts tail).suspends) :
    (block span stmts tail).Worked (γ := γ) module root lost := by
  intro env v
  have hpart : ∀ part ∈ (block span stmts tail).within,
      part.line ≠ 0 ∧ part.Worked (γ := γ) module root lost :=
    fun part hp => ⟨hlined.line_of_mem hp, hparts part hp⟩
  refine works_eval h rfl (works_block rfl (fun stmt hstmt => hpart _ ?_)
    (hlined.binding span stmts tail .self) (fun e he => hpart e ?_) env) v
  · exact List.mem_append_left _ (List.mem_map_of_mem hstmt)
  · exact List.mem_append_right _ he

/-- The induction is on the operands that are still to come. -/
theorem works_operand {e : Expr} {env : Env} {rest : List Expr} {done : List Value}
    (hrest : e.operands.drop (done.length + 1) = rest)
    (hparts : ∀ part ∈ rest, part.Worked (γ := γ) module root lost) (v : Value) :
    Works (γ := γ) module root lost
      (fun stack => working module root (.operand e env done :: stack) v)
      fun n => (do
        let vs ← rest.mapM fun part => (ofFuel n).eval part env
        ((ofFuel n).combine e env (done.reverse ++ v :: vs)).located e.line) := by
  induction rest generalizing done v with
  | nil =>
    have hcombine : Grows fun n => ((ofFuel (γ := γ) n).combine e env (v :: done).reverse).located
        e.line :=
      fun _ _ h => ((ofFuel_below h).combine e env _).located e.line
    have hworks : Works module root lost
        (fun stack => working module root (.operand e env done :: stack) v)
        fun n => ((ofFuel n).combine e env (v :: done).reverse).located e.line :=
      .frame_value hcombine fun _ => stepFrame_operand_of_last hrest
    simpa using hworks
  | cons next rest ih =>
    have hnode : ∀ n, (do
        let vs ← (next :: rest).mapM fun part => (ofFuel (γ := γ) n).eval part env
        ((ofFuel n).combine e env (done.reverse ++ v :: vs)).located e.line) = (do
          let w ← (ofFuel n).eval next env
          let vs ← rest.mapM fun part => (ofFuel n).eval part env
          ((ofFuel n).combine e env ((v :: done).reverse ++ w :: vs)).located e.line) := by
      intro n
      simp only [List.mapM_cons, bind_assoc, pure_bind, List.reverse_cons, List.append_assoc,
        List.singleton_append]
    simp only [hnode]
    refine .frame_pure (fun _ => stepFrame_operand_of_next hrest)
      (works_pair (hparts next (.head _)) env fun w => ?_)
    have hmore : e.operands.drop ((v :: done).length + 1) = rest := operands_drop_succ hrest
    exact ih hmore (fun part hp => hparts part (.tail _ hp)) w

theorem worked_parts {e : Expr} (hfrom : e.isFromParts = true) (hlined : e.Lined)
    (hparts : ∀ part ∈ e.operands, part.Worked (γ := γ) module root lost) (h : e.suspends) :
    e.Worked (γ := γ) module root lost := by
  intro env v
  cases hops : e.operands with
  | nil =>
    rw [suspends_of_isFromParts hfrom, hops] at h
    cases h
  | cons first rest =>
    have hpinned : ∀ n, (e.operands.mapM fun part => (ofFuel (γ := γ) n).eval part env).Pinned :=
      fun n => .mapM fun part hp =>
        eval_pinned (hlined.line_of_mem (mem_within_of_operands hp)) n env
    have hpush : FrameStep.ofExpr e env = .ok (.push [.eval first env, .operand e env []]) := by
      rw [ofExpr_of_isFromParts hfrom, FrameStep.ofParts, hops]
    have hrest : e.operands.drop (([] : List Value).length + 1) = rest := by
      rw [hops]
      rfl
    have hvalue : ∀ n, ((ofFuel (γ := γ) n).evalNode e env).located e.line = (do
        let w ← (ofFuel n).eval first env
        let vs ← rest.mapM fun part => (ofFuel n).eval part env
        ((ofFuel n).combine e env (w :: vs)).located e.line) := by
      intro n
      rw [evalNode_of_isFromParts hfrom, evalParts, located_bind, hpinned n, hops]
      simp only [List.mapM_cons, bind_assoc, pure_bind]
    refine works_eval h hpush ?_ v
    simp only [hvalue]
    rw [hops] at hparts
    exact works_pair (hparts first (.head _)) env
      (works_operand hrest fun part hp => hparts part (.tail _ hp))

omit [Gateway γ] in
theorem sizeOf_lt_of_mem_arm {arms : List MatchArm} {arm : MatchArm} {part : Expr}
    (harm : arm ∈ arms) (h : part ∈ arm.guard.toList ++ [arm.body]) :
    sizeOf part < sizeOf arms := by
  rcases List.mem_append.1 h with hguard | hbody
  · have hlt := List.sizeOf_lt_of_mem harm
    obtain ⟨span, pattern, guard, body⟩ := arm
    obtain rfl : guard = some part := Option.mem_toList.1 hguard
    rw [MatchArm.mk.sizeOf_spec, Option.some.sizeOf_spec] at hlt
    omega
  · obtain rfl := List.mem_singleton.1 hbody
    exact sizeOf_body_lt_of_mem harm

omit [Gateway γ] in
theorem sizeOf_lt_of_mem_within {e part : Expr} (h : part ∈ e.within) :
    sizeOf part < sizeOf e := by
  have hoption : ∀ {o : Option Expr}, part ∈ o.toList → sizeOf part < sizeOf o := by
    intro o ho
    obtain rfl := Option.mem_toList.1 ho
    rw [Option.some.sizeOf_spec]
    omega
  cases e with
  | branch span test whenTrue whenFalse =>
    rw [branch.sizeOf_spec]
    rcases List.mem_cons.1 h with rfl | h
    · omega
    · rcases List.mem_cons.1 h with rfl | h
      · omega
      · have := hoption h
        omega
  | cases span scrutinee arms =>
    rw [cases.sizeOf_spec]
    rcases List.mem_cons.1 h with rfl | h
    · omega
    · obtain ⟨arm, harm, hpart⟩ := List.mem_flatMap.1 h
      have := sizeOf_lt_of_mem_arm harm hpart
      omega
  | block span stmts tail =>
    rw [block.sizeOf_spec]
    rcases List.mem_append.1 h with h | h
    · obtain ⟨stmt, hstmt, rfl⟩ := List.mem_map.1 h
      have := sizeOf_inner_lt_of_mem hstmt
      omega
    · have := hoption h
      omega
  | await span future =>
    obtain rfl := List.mem_singleton.1 h
    simp only [await.sizeOf_spec]
    omega
  | attempt span inner =>
    obtain rfl := List.mem_singleton.1 h
    simp only [attempt.sizeOf_spec]
    omega
  | _ => exact sizeOf_lt_of_mem_operands h

/-- The induction is on the size of the expression: each frame hands on to a smaller one. -/
theorem worked (e : Expr) (hlined : e.Lined)
    (hlost : ∀ (span : Span) (inner : Expr), (attempt span inner).Inside e → inner.suspends →
      ∀ kind, lost (.notAttemptable kind) span.line) :
    e.Worked (γ := γ) module root lost := by
  induction hn : sizeOf e using Nat.strongRecOn generalizing e with
  | ind n ih =>
    subst hn
    have hparts : ∀ part ∈ e.within, part.Worked (γ := γ) module root lost := fun part hp =>
      ih _ (sizeOf_lt_of_mem_within hp) part (hlined.part hp)
        (fun span inner hinside => hlost span inner (.part hp hinside)) rfl
    by_cases h : e.suspends
    case neg => exact worked_of_not_suspends h
    cases e with
    | literal | name | closure | async => cases h
    | binary span op lhs rhs =>
      by_cases hop : op.isLogical = true
      · exact worked_logical hop hlined (hparts lhs (.head _)) (hparts rhs (.tail _ (.head _))) h
      · exact worked_parts (by simpa [isFromParts] using hop) hlined hparts h
    | branch span test whenTrue whenFalse => exact worked_branch hlined hparts h
    | cases span scrutinee arms => exact worked_cases hlined hparts h
    | block span stmts tail => exact worked_block hlined hparts h
    | await span future => exact worked_await hlined (hparts future (.head _))
    | attempt span inner =>
      exact worked_attempt hlined (hparts inner (.head _)) h (hlost span inner .self h)
    | _ => exact worked_parts rfl hlined hparts h

end Expr

/-- A slice that ends with a failure fails its task with it. -/
theorem Reports.fails {frames : List TaskFrame} {s t : Interpreter γ} {fault : Fault} {line : Nat}
    {r : EStateM.Result Unwind (Interpreter γ) TaskStep} (h : Reports fault line t r)
    (hr : Arrives (working s.current root frames .void) s r) :
    ∃ f, Arrives (fun n => (ofFuel n).runSlice (.machine ⟨frames, s.current, root⟩)) s
        (.ok (.fail f) { t with current := s.current }) ∧
      f.message = fault.message ∧ f.line = line := by
  obtain ⟨n, hn⟩ := hr
  have hrun : ∀ fuel ≥ n, (ofFuel (γ := γ) fuel).runMachine ⟨frames, s.current, root⟩ s =
      Eval.restoring (fun s' => { s' with current := s.current }) (fun _ => r) s := by
    intro fuel hle
    have hmachine : (ofFuel (γ := γ) fuel).runMachine ⟨frames, s.current, root⟩ s =
        (working s.current root frames .void fuel).restoring
          (fun s' => { s' with current := s.current }) s := rfl
    rw [hmachine]
    simp only [restoring, hn fuel hle]
  cases h with
  | raised =>
    refine ⟨⟨.text fault.message, line⟩, ⟨n, fun fuel hle => ?_⟩, rfl, rfl⟩
    simp only [runSlice, runBodyOf, hrun fuel hle]
    rfl
  | @awaited f hmessage hline =>
    refine ⟨f, ⟨n, fun fuel hle => ?_⟩, hmessage, hline⟩
    simp only [runSlice, runBodyOf, hrun fuel hle]
    rfl

omit [Gateway γ] in
/-- Whoever awaits a failed future reports the line that it failed with, and the line of the `await`
only if there is none. -/
theorem await_failed {f : Failed} {id : FutureId} {u : Interpreter γ}
    (hfuture : u.scheduler.futures.state? id = some (.failed f)) (awaiter : Nat) :
    ∃ u', Run.awaitSettled (.future id) awaiter u =
        .error (.fail (.failedFuture f.message) (if f.line = 0 then awaiter else f.line)) u' ∧
      ∀ r : Recur γ, r.stepFrame (.resume id awaiter) .void u =
        .ok (.fail (if f.line = 0 then { f with line := awaiter } else f)) u' := by
  have hobserve : Run.observe id u =
      .ok (some (.failed f)) { u with scheduler := u.scheduler.markObserved id } := by
    rw [← hfuture]
    exact congrArg (EStateM.Result.ok · _) (FutureTable.state?_markObserved _ id id)
  refine ⟨{ u with scheduler := u.scheduler.markObserved id }, ?_, fun r => ?_⟩
  · rw [Run.awaitSettled, bind_of_ok hobserve]
    rfl
  · rw [stepFrame, bind_of_ok hobserve]
    rfl

/-- A failure has one line. When the evaluation of an expression whose parts have lines fails, and
not because it awaits a pending future, then the failure has the line of the innermost expression
that is to blame. The task that evaluates the expression fails in the same state with the same
message, and with the same line; only the line of a `?` inside that may have to wait can be missing
there, when it is applied to something that is no success and no failure. Whoever awaits the task
reports the line that the task failed with. -/
theorem failures_have_one_line {n : Nat} {e : Expr} {env : Env} {s t : Interpreter γ}
    {fault : Fault} {line : Nat} (hlined : e.Lined) (hfault : fault ≠ .pendingAwait)
    (h : evalWithin n e env s = .error (.fail fault line) t) (root : Bool) :
    line ≠ 0 ∧ (∃ x : Expr, x.Inside e ∧ x.Blamed fault line t) ∧
    ∃ f : Failed,
      Arrives (fun n => (ofFuel n).runSlice (.machine (.start e env s.current root))) s
        (.ok (.fail f) { t with current := s.current }) ∧
      f.message = fault.message ∧
      (f.line = line ∨ f.line = 0 ∧ (∃ kind, fault = .notAttemptable kind) ∧
        ∃ span inner, (Expr.attempt span inner).Inside e ∧ inner.suspends ∧ span.line = line) ∧
      (f.line ≠ 0 → ∀ (id : FutureId) (u : Interpreter γ),
        u.scheduler.futures.state? id = some (.failed f) → ∀ awaiter,
        ∃ u', Run.awaitSettled (.future id) awaiter u =
            .error (.fail (.failedFuture f.message) f.line) u' ∧
          ∀ r : Recur γ, r.stepFrame (.resume id awaiter) .void u = .ok (.fail f) u') := by
  refine ⟨(eval_pinned (hlined.line e .self) n env).line_ne_zero h, exists_blamed hlined h, ?_⟩
  let lost : Fault → Nat → Prop := fun fault line => (∃ kind, fault = .notAttemptable kind) ∧
    ∃ span inner, (Expr.attempt span inner).Inside e ∧ inner.suspends ∧ span.line = line
  have hworked : e.Worked (γ := γ) s.current root lost :=
    e.worked hlined fun span inner hinside hsuspends kind =>
      ⟨⟨kind, rfl⟩, span, inner, hinside, hsuspends, rfl⟩
  have hfails : Arrives (fun n => (ofFuel n).eval e env) s (.error (.fail fault line) t) :=
    (eval_grows e env).arrives h (by rintro _ ⟨⟩)
  obtain ⟨r, hr, hreports⟩ : ∃ r,
      Arrives (working s.current root [.eval e env] .void) s r ∧
        (Reports fault line t r ∨ lost fault line ∧ Reports fault 0 t r) :=
    (hworked env .void).failure hfails hfault
  have hawait : ∀ {f : Failed}, f.line ≠ 0 → ∀ (id : FutureId) (u : Interpreter γ),
      u.scheduler.futures.state? id = some (.failed f) → ∀ awaiter,
      ∃ u', Run.awaitSettled (.future id) awaiter u =
          .error (.fail (.failedFuture f.message) f.line) u' ∧
        ∀ r : Recur γ, r.stepFrame (.resume id awaiter) .void u = .ok (.fail f) u' := by
    intro f hne id u hu awaiter
    simpa only [if_neg hne] using await_failed hu awaiter
  rcases hreports with hreports | ⟨hlost, hreports⟩
  · obtain ⟨f, hf, hmessage, hline⟩ := hreports.fails hr
    exact ⟨f, hf, hmessage, .inl hline, hawait⟩
  · obtain ⟨f, hf, hmessage, hline⟩ := hreports.fails hr
    exact ⟨f, hf, hmessage, .inr ⟨hline, hlost⟩, hawait⟩

/-- A place in this line of a text. -/
def atLine (line : Nat) : Span := { Span.none with line }

/-- `await x`, in the third line. -/
def awaited : Expr := .await (atLine 3) (.name (atLine 3) "x")

/-- A text is added to it, in the second line. -/
def sumWithText : Expr := .binary (atLine 2) .add awaited (.literal (atLine 4) (.text "a"))

/-- `x` is the first future. -/
def futureEnv : Env := Env.empty.bind "x" (.future 0)

/-- The first future has the value 5. -/
def settledState : Interpreter StockGateway :=
  { Interpreter.start ⟨.empty, [], []⟩ .default (.null []) with
    scheduler := { Scheduler.empty with futures := ⟨#[⟨.resolved (.int 5), [], false⟩]⟩ } }

theorem awaited_lined : awaited.Lined := by
  have hname : (Expr.name (atLine 3) "x").Lined := .of_parts (by decide) nofun nofun
  exact .of_parts (by decide) nofun (List.forall_mem_singleton.2 hname)

theorem sumWithText_lined : sumWithText.Lined := by
  have htext : (Expr.literal (atLine 4) (.text "a")).Lined := .of_parts (by decide) nofun nofun
  exact .of_parts (by decide) nofun
    (List.forall_mem_cons.2 ⟨awaited_lined, List.forall_mem_singleton.2 htext⟩)

/-- The sum fails in the line of the `+`, also in a task. -/
theorem sum_fails_in_its_line :
    sumWithText.Lined ∧ ∃ t f, evalWithin 4 sumWithText futureEnv settledState =
        .error (.fail (.badOperands .add .int .text) 2) t ∧
      Arrives (fun n => (ofFuel n).runSlice (.machine (.start sumWithText futureEnv 0 false)))
        settledState (.ok (.fail f) { t with current := 0 }) ∧ f.line = 2 := by
  obtain ⟨t, ht⟩ : ∃ t, evalWithin 4 sumWithText futureEnv settledState =
      .error (.fail (.badOperands .add .int .text) 2) t := ⟨_, by rfl⟩
  have hfault : Fault.badOperands .add .int .text ≠ .pendingAwait := nofun
  obtain ⟨-, -, f, hf, -, hline, -⟩ := failures_have_one_line sumWithText_lined hfault ht false
  refine ⟨sumWithText_lined, t, f, ht, hf, hline.resolve_right ?_⟩
  rintro ⟨-, ⟨kind, hkind⟩, -⟩
  cases hkind

/-- A `?` that may have to wait gives no line to its failure in a task, so that the line of whoever
awaits the task is reported. The evaluator gives it its own. -/
theorem attempt_loses_its_line :
    (Expr.attempt (atLine 2) awaited).Lined ∧
    ∃ t f u, evalWithin 4 (.attempt (atLine 2) awaited) futureEnv settledState =
        .error (.fail (.notAttemptable .int) 2) t ∧
      (ofFuel 7).runSlice (.machine (.start (.attempt (atLine 2) awaited) futureEnv 0 false))
        settledState = .ok (.fail f) u ∧
      f.message = (Fault.notAttemptable .int).message ∧ f.line = 0 ∧
      ∀ (id : FutureId) (s : Interpreter StockGateway),
        s.scheduler.futures.state? id = some (.failed f) →
        ∃ s', Run.awaitSettled (.future id) 6 s =
          .error (.fail (.failedFuture f.message) 6) s' := by
  refine ⟨.of_parts (by decide) nofun (List.forall_mem_singleton.2 awaited_lined), _,
    ⟨.text (Fault.notAttemptable .int).message, 0⟩, _, by rfl, by rfl, rfl, rfl, fun id s hs => ?_⟩
  obtain ⟨s', hs', -⟩ := await_failed hs 6
  exact ⟨s', hs'⟩

end StreamLang
