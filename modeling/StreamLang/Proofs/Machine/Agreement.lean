import StreamLang.Proofs.Machine.Stack

/-! A stack whose top frame evaluates an expression comes to what the expression comes to, and then
the frames below it with that value. So a machine ends as the evaluator does, except that where the
evaluator fails because a future is still pending, the machine stops there and can go on later. -/

namespace StreamLang

open Eval Recur

/-- The expression of a statement. -/
def Stmt.inner : Stmt → Expr
  | .bind _ _ _ e => e
  | .expr e => e

variable {γ : Type} [Gateway γ] (module : Nat) (root : Bool)

namespace Expr

/-- On top of every stack the expression comes to its meaning. -/
def Agrees (e : Expr) : Prop :=
  ∀ env stack v, stackMeaning (γ := γ) module root (.eval e env :: stack) v =
    e.meaning env >>= stackMeaning module root stack

theorem agrees_of_not_suspends {e : Expr} (h : ¬ e.suspends) : e.Agrees (γ := γ) module root := by
  intro env stack v
  have hstep : ∀ r : Recur γ, r.stepFrame (.eval e env) v =
      r.eval e env >>= fun v => pure (.value v) := by
    intro r
    rw [stepFrame, if_neg h]
  simp only [stackMeaning_cons, hstep]
  rw [(eval_grows e env).limit_bind_left, bind_assoc]
  exact bind_congr fun w => pure_bind _ _

theorem stackMeaning_eval {e : Expr} {env : Env} {step : FrameStep} (h : e.suspends)
    (hstep : FrameStep.ofExpr e env = .ok step) (stack : List TaskFrame) (v : Value) :
    stackMeaning (γ := γ) module root (.eval e env :: stack) v = step.meaning module root stack := by
  have hx : ∀ r : Recur γ, r.stepFrame (.eval e env) v = pure step := by
    intro r
    rw [stepFrame, if_pos h, hstep]
    rfl
  rw [stackMeaning_cons_of_const module root _ hx, meaning_pure, pure_bind]

variable {module root}

theorem Agrees.push {e : Expr} (h : e.Agrees (γ := γ) module root) (env : Env)
    (stack : List TaskFrame) :
    (FrameStep.push [.eval e env]).meaning (γ := γ) module root stack =
      e.meaning env >>= stackMeaning module root stack :=
  h env stack .void

theorem Agrees.push_pair {e : Expr} (h : e.Agrees (γ := γ) module root) (env : Env)
    (frame : TaskFrame) (stack : List TaskFrame) :
    (FrameStep.push [.eval e env, frame]).meaning (γ := γ) module root stack =
      e.meaning env >>= stackMeaning module root (frame :: stack) :=
  h env (frame :: stack) .void

theorem agrees_branch {span : Span} {test whenTrue : Expr} {whenFalse : Option Expr}
    (htest : test.Agrees (γ := γ) module root) (htrue : whenTrue.Agrees (γ := γ) module root)
    (hfalse : ∀ e, whenFalse = some e → e.Agrees (γ := γ) module root)
    (h : (branch span test whenTrue whenFalse).suspends) :
    (branch span test whenTrue whenFalse).Agrees (γ := γ) module root := by
  intro env stack v
  rw [stackMeaning_eval module root h rfl, meaning_branch, bind_assoc, htest.push_pair]
  refine bind_congr fun w => ?_
  rw [stackMeaning_cons_of_bind module root ((Run.truth .branch w).located span.line) _
    (fun _ => rfl), meaning_located, bind_assoc]
  refine bind_congr fun b => ?_
  cases b with
  | true => exact (pure_bind _ _).trans (htrue.push env stack)
  | false =>
    cases whenFalse with
    | none =>
      rw [if_neg Bool.false_ne_true, if_neg Bool.false_ne_true, meaningOr_none, pure_bind]
      exact pure_bind _ _
    | some e => exact (pure_bind _ _).trans ((hfalse e rfl).push env stack)

theorem agrees_await {span : Span} {future : Expr} (h : future.Agrees (γ := γ) module root) :
    (await span future).Agrees (γ := γ) module root := by
  intro env stack v
  rw [stackMeaning_eval module root rfl rfl, meaning_await, bind_assoc, h.push_pair]
  exact bind_congr fun w => stackMeaning_await span.line stack w

theorem agrees_attempt {span : Span} {inner : Expr} (hinner : inner.Agrees (γ := γ) module root)
    (h : (attempt span inner).suspends) : (attempt span inner).Agrees (γ := γ) module root := by
  intro env stack v
  rw [stackMeaning_eval module root h rfl, meaning_attempt, bind_assoc, hinner.push_pair]
  refine bind_congr fun w => ?_
  rw [stackMeaning_cons_of_bind module root (Run.attempt w span.line) _ fun _ => rfl]
  exact bind_congr fun u => pure_bind _ _

theorem agrees_logical {span : Span} {op : BinaryOp} {lhs rhs : Expr} (hop : op.isLogical = true)
    (hlhs : lhs.Agrees (γ := γ) module root) (hrhs : rhs.Agrees (γ := γ) module root)
    (h : (binary span op lhs rhs).suspends) :
    (binary span op lhs rhs).Agrees (γ := γ) module root := by
  intro env stack v
  have hstep : FrameStep.ofExpr (binary span op lhs rhs) env =
      .ok (.push [.eval lhs env, .logic (binary span op lhs rhs) env false]) := if_pos hop
  rw [stackMeaning_eval module root h hstep, meaning_logical hop, bind_assoc, hlhs.push_pair]
  refine bind_congr fun w => ?_
  rw [stackMeaning_cons_of_bind module root ((Run.truth .operand w).located span.line) _
    (fun _ => rfl), meaning_located, bind_assoc]
  refine bind_congr fun a => ?_
  simp only [Bool.false_or]
  split
  · rw [meaning_pure, pure_bind, pure_bind]
    rfl
  · rw [meaning_pure, pure_bind, hrhs.push_pair, bind_assoc]
    refine bind_congr fun u => ?_
    rw [stackMeaning_cons_of_bind module root ((Run.truth .operand u).located span.line) _
      (fun _ => rfl), meaning_located, bind_assoc]
    refine bind_congr fun b => ?_
    rw [if_pos (Bool.true_or _), meaning_pure, pure_bind, pure_bind]
    rfl

omit [Gateway γ] in
theorem firstArm_mem {r : Recur γ} {v : Value} {env : Env} {arms : List MatchArm}
    {s s' : Interpreter γ} {taken : Expr × Env} (h : r.firstArm v env arms s = .ok taken s') :
    ∃ arm ∈ arms, taken.1 = arm.body := by
  induction arms generalizing s with
  | nil => cases h
  | cons arm rest ih =>
    have hrest : ∀ {s₁ : Interpreter γ}, r.firstArm v env rest s₁ = .ok taken s' →
        ∃ other ∈ arm :: rest, taken.1 = other.body := by
      intro s₁ h₁
      obtain ⟨other, ho, hbody⟩ := ih h₁
      exact ⟨other, .tail _ ho, hbody⟩
    obtain ⟨s₁, s₂, -, h⟩ := bind_eq_ok h
    cases hb : arm.pattern.bindings? s₁.scheduler.futures v with
    | none =>
      rw [hb] at h
      exact hrest h
    | some bindings =>
      rw [hb] at h
      obtain ⟨holds, s₃, -, h⟩ := bind_eq_ok h
      cases holds with
      | true =>
        cases h
        exact ⟨arm, .head _, rfl⟩
      | false => exact hrest h

omit [Gateway γ] in
theorem selectArm_mem {r : Recur γ} {v : Value} {env : Env} {arms : List MatchArm}
    {s s' : Interpreter γ} {taken : Expr × Env} (h : r.selectArm v env arms s = .ok taken s') :
    ∃ arm ∈ arms, taken.1 = arm.body := by
  cases v with
  | future id =>
    obtain ⟨_, _, _, h⟩ := bind_eq_ok h
    exact firstArm_mem h
  | _ => exact firstArm_mem h

theorem agrees_cases {span : Span} {scrutinee : Expr} {arms : List MatchArm}
    (hscrutinee : scrutinee.Agrees (γ := γ) module root)
    (harms : ∀ arm ∈ arms, arm.body.Agrees (γ := γ) module root)
    (h : (cases span scrutinee arms).suspends) :
    (cases span scrutinee arms).Agrees (γ := γ) module root := by
  intro env stack v
  rw [stackMeaning_eval module root h rfl, meaning_cases, bind_assoc, hscrutinee.push_pair]
  refine bind_congr fun w => ?_
  have hselect : Grows fun n => (ofFuel (γ := γ) n).selectArm w env arms :=
    fun _ _ h => (ofFuel_below h).selectArm w env arms
  have hstep : limit (fun n => (ofFuel (γ := γ) n).stepFrame
      (.arms (cases span scrutinee arms) env) w) =
      armMeaning w env arms >>= fun arm => pure (.push [.eval arm.1 arm.2]) :=
    ((hselect.located span.line).limit_bind_left _).trans
      (congrArg (· >>= _) (hselect.limit_located span.line))
  rw [stackMeaning_cons, hstep, bind_assoc, bind_assoc]
  refine Meaning.bind_congr_of_ok fun s taken s' hs => (pure_bind _ _).trans ?_
  obtain ⟨n, hn⟩ := hselect.limit_eq_some_iff.1 hs
  obtain ⟨arm, harm, hbody⟩ := selectArm_mem (ok_of_meaning hn)
  exact (hbody ▸ harms arm harm : taken.1.Agrees module root).push taken.2 stack

theorem ofStatements_meaning {e : Expr} {tail : Option Expr} {stmts : List Stmt} {next : Nat}
    (hleft : e.statements next = .ok (stmts, tail))
    (hstmts : ∀ stmt ∈ stmts, stmt.inner.Agrees (γ := γ) module root)
    (htail : ∀ e, tail = some e → e.Agrees (γ := γ) module root) (env : Env)
    (stack : List TaskFrame) :
    (FrameStep.ofStatements e env next stmts tail).meaning (γ := γ) module root stack =
      blockMeaning tail stmts env >>= stackMeaning module root stack := by
  induction stmts generalizing env next with
  | nil =>
    rw [blockMeaning_nil]
    cases tail with
    | none => rw [meaningOr_none, pure_bind]; rfl
    | some last => exact (htail last rfl).push env stack
  | cons stmt rest ih =>
    have hnext := statements_succ hleft
    replace ih := ih hnext fun other ho => hstmts other (.tail _ ho)
    cases stmt with
    | bind span pattern ty value =>
      have hvalue : value.Agrees module root := hstmts (.bind span pattern ty value) (.head _)
      have hlet : ∀ v, Grows fun n => (ofFuel (γ := γ) n).bindLet span pattern ty v env :=
        fun v _ _ h => (ofFuel_below h).bindLet span pattern ty v env
      rw [blockMeaning_bind, bind_assoc, FrameStep.ofStatements, hvalue.push_pair]
      refine bind_congr fun v => ?_
      simp only [stackMeaning_cons, stepFrame_bind (letAt_of_statements hleft) hnext]
      rw [(hlet v).limit_bind_left, bind_assoc, bind_assoc]
      exact bind_congr fun env' => (pure_bind _ _).trans (ih env')
    | expr first =>
      have hfirst : first.Agrees module root := hstmts (.expr first) (.head _)
      rw [blockMeaning_expr, bind_assoc, FrameStep.ofStatements, hfirst.push_pair]
      refine bind_congr fun v => ?_
      rw [stackMeaning_cons_of_const module root _ fun _ => stepFrame_discard hnext, meaning_pure,
        pure_bind, ih env]

theorem stackMeaning_operand {e : Expr} {env : Env} {stack : List TaskFrame} {rest : List Expr}
    {done : List Value} (hrest : e.operands.drop (done.length + 1) = rest)
    (hparts : ∀ part ∈ rest, part.Agrees (γ := γ) module root) (v : Value) :
    stackMeaning (γ := γ) module root (.operand e env done :: stack) v = (do
      let vs ← partsMeaning rest env
      let w ← combineMeaning e env (done.reverse ++ v :: vs)
      stackMeaning module root stack w) := by
  induction rest generalizing done v with
  | nil =>
    have hcombine : Grows fun n => (ofFuel (γ := γ) n).combine e env (v :: done).reverse :=
      fun _ _ h => (ofFuel_below h).combine e env _
    have hstep : limit (fun n => (ofFuel (γ := γ) n).stepFrame (.operand e env done) v) =
        combineMeaning e env (v :: done).reverse >>= fun w => pure (.value w) := by
      simp only [stepFrame_operand_of_last hrest]
      rw [(hcombine.located e.line).limit_bind_left, hcombine.limit_located]
      rfl
    rw [stackMeaning_cons, hstep, bind_assoc, partsMeaning_nil, pure_bind, List.reverse_cons]
    exact bind_congr fun w => pure_bind _ _
  | cons next rest ih =>
    rw [stackMeaning_cons_of_const module root _ fun _ => stepFrame_operand_of_next hrest,
      meaning_pure, pure_bind, (hparts next (.head _)).push_pair, partsMeaning_cons, bind_assoc]
    refine bind_congr fun w => ?_
    have hmore : e.operands.drop ((v :: done).length + 1) = rest := operands_drop_succ hrest
    rw [ih hmore fun part hp => hparts part (.tail _ hp), bind_assoc]
    refine bind_congr fun vs => ?_
    rw [pure_bind, List.reverse_cons, List.append_assoc]
    rfl

theorem agrees_parts {e : Expr} (hnode : ∀ (r : Recur γ) env, r.evalNode e env = r.evalParts e env)
    (hstep : ∀ env, FrameStep.ofExpr e env = FrameStep.ofParts e env)
    (hany : e.suspends = e.operands.any suspends)
    (hparts : ∀ part ∈ e.operands, part.Agrees (γ := γ) module root) (h : e.suspends) :
    e.Agrees (γ := γ) module root := by
  intro env stack v
  cases hops : e.operands with
  | nil =>
    rw [hany, hops] at h
    cases h
  | cons first rest =>
    rw [hops] at hparts
    have hpush : FrameStep.ofExpr e env = .ok (.push [.eval first env, .operand e env []]) := by
      rw [hstep, FrameStep.ofParts, hops]
    have hrest : e.operands.drop (([] : List Value).length + 1) = rest := by
      rw [hops]
      rfl
    rw [stackMeaning_eval module root h hpush, meaning_parts hnode, hops,
      (hparts first (.head _)).push_pair, partsMeaning_cons, bind_assoc, bind_assoc]
    refine bind_congr fun w => ?_
    rw [stackMeaning_operand hrest fun part hp => hparts part (.tail _ hp), bind_assoc]
    refine bind_congr fun vs => ?_
    rw [pure_bind]
    rfl

theorem agrees_block {span : Span} {stmts : List Stmt} {tail : Option Expr}
    (hstmts : ∀ stmt ∈ stmts, stmt.inner.Agrees (γ := γ) module root)
    (htail : ∀ e, tail = some e → e.Agrees (γ := γ) module root)
    (h : (block span stmts tail).suspends) :
    (block span stmts tail).Agrees (γ := γ) module root := by
  intro env stack v
  rw [stackMeaning_eval module root h rfl, meaning_block]
  exact ofStatements_meaning rfl hstmts htail env stack

omit [Gateway γ]

theorem anySuspends_eq (es : List Expr) : anySuspends es = es.any suspends := by
  induction es with
  | nil => rfl
  | cons e rest ih => rw [anySuspends, ih, List.any_cons]

theorem anyEntrySuspends_eq (entries : List (String × Expr)) :
    anyEntrySuspends entries = (entries.map (·.2)).any suspends := by
  induction entries with
  | nil => rfl
  | cons entry rest ih => rw [anyEntrySuspends, ih, List.map_cons, List.any_cons]

theorem anyFieldSuspends_eq (fields : List FieldInit) :
    anyFieldSuspends fields = (fields.map FieldInit.value).any suspends := by
  induction fields with
  | nil => rfl
  | cons field rest ih =>
    obtain ⟨name, span, value⟩ := field
    rw [anyFieldSuspends, ih, List.map_cons, List.any_cons]

theorem sizeOf_lt_of_mem_values {fields : List FieldInit} {part : Expr}
    (h : part ∈ fields.map FieldInit.value) : sizeOf part < sizeOf fields := by
  obtain ⟨⟨name, span, value⟩, hf, rfl⟩ := List.mem_map.1 h
  have hlt := List.sizeOf_lt_of_mem hf
  rw [FieldInit.mk.sizeOf_spec] at hlt
  show sizeOf value < sizeOf fields
  omega

theorem sizeOf_lt_of_mem_operands {e part : Expr} (h : part ∈ e.operands) :
    sizeOf part < sizeOf e := by
  have hsize : ∀ {es : List Expr}, part ∈ es → sizeOf part < sizeOf es :=
    fun hp => List.sizeOf_lt_of_mem hp
  cases e with
  | list span items =>
    have hlt : sizeOf part < sizeOf items := hsize h
    rw [list.sizeOf_spec]
    omega
  | tuple span items =>
    have hlt : sizeOf part < sizeOf items := hsize h
    rw [tuple.sizeOf_spec]
    omega
  | map span entries =>
    obtain ⟨⟨key, value⟩, he, rfl⟩ := List.mem_map.1 h
    have hlt := List.sizeOf_lt_of_mem he
    rw [Prod.mk.sizeOf_spec] at hlt
    rw [map.sizeOf_spec]
    show sizeOf value < _
    omega
  | record span name fields =>
    have := sizeOf_lt_of_mem_values (h : part ∈ fields.map FieldInit.value)
    rw [record.sizeOf_spec]
    omega
  | variant span enum name args =>
    have hlt : sizeOf part < sizeOf args := hsize h
    rw [variant.sizeOf_spec]
    omega
  | update span target fields =>
    rw [update.sizeOf_spec]
    rcases List.mem_cons.1 h with rfl | hp
    · omega
    · have := sizeOf_lt_of_mem_values hp
      omega
  | call span callee args =>
    rw [call.sizeOf_spec]
    rcases List.mem_cons.1 h with rfl | hp
    · omega
    · have := hsize hp
      omega
  | method span receiver name args =>
    rw [method.sizeOf_spec]
    rcases List.mem_cons.1 h with rfl | hp
    · omega
    · have := hsize hp
      omega
  | select span target field =>
    obtain rfl := List.mem_singleton.1 h
    simp only [select.sizeOf_spec]
    omega
  | unary span op operand =>
    obtain rfl := List.mem_singleton.1 h
    simp only [unary.sizeOf_spec]
    omega
  | index span target i =>
    rw [index.sizeOf_spec]
    rcases List.mem_cons.1 h with rfl | hp
    · omega
    · obtain rfl := List.mem_singleton.1 hp
      omega
  | binary span op lhs rhs =>
    rw [binary.sizeOf_spec]
    rcases List.mem_cons.1 h with rfl | hp
    · omega
    · obtain rfl := List.mem_singleton.1 hp
      omega
  | _ => cases h

theorem sizeOf_body_lt_of_mem {arms : List MatchArm} {arm : MatchArm} (h : arm ∈ arms) :
    sizeOf arm.body < sizeOf arms := by
  have hlt := List.sizeOf_lt_of_mem h
  obtain ⟨span, pattern, guard, body⟩ := arm
  rw [MatchArm.mk.sizeOf_spec] at hlt
  show sizeOf body < sizeOf arms
  omega

theorem sizeOf_inner_lt_of_mem {stmts : List Stmt} {stmt : Stmt} (h : stmt ∈ stmts) :
    sizeOf stmt.inner < sizeOf stmts := by
  have hlt := List.sizeOf_lt_of_mem h
  cases stmt with
  | bind span pattern ty value =>
    rw [Stmt.bind.sizeOf_spec] at hlt
    show sizeOf value < sizeOf stmts
    omega
  | expr e =>
    rw [Stmt.expr.sizeOf_spec] at hlt
    show sizeOf e < sizeOf stmts
    omega

variable (module root) [Gateway γ]

/-- The induction is on the size of the expression: each frame hands on to a smaller one. -/
theorem agrees (e : Expr) : e.Agrees (γ := γ) module root := by
  induction hn : sizeOf e using Nat.strongRecOn generalizing e with
  | ind n ih =>
    subst hn
    replace ih : ∀ part : Expr, sizeOf part < sizeOf e → part.Agrees (γ := γ) module root :=
      fun part hlt => ih _ hlt part rfl
    by_cases h : e.suspends
    case neg => exact agrees_of_not_suspends module root h
    have hparts : ∀ part ∈ e.operands, part.Agrees (γ := γ) module root :=
      fun part hp => ih part (sizeOf_lt_of_mem_operands hp)
    cases e with
    | literal span l => cases h
    | name span n => cases h
    | closure span decl => cases h
    | async span body => cases h
    | list span items =>
      exact agrees_parts (fun _ _ => rfl) (fun _ => rfl) (anySuspends_eq items) hparts h
    | tuple span items =>
      exact agrees_parts (fun _ _ => rfl) (fun _ => rfl) (anySuspends_eq items) hparts h
    | map span entries =>
      exact agrees_parts (fun _ _ => rfl) (fun _ => rfl) (anyEntrySuspends_eq entries) hparts h
    | record span name fields =>
      exact agrees_parts (fun _ _ => rfl) (fun _ => rfl) (anyFieldSuspends_eq fields) hparts h
    | variant span enum name args =>
      exact agrees_parts (fun _ _ => rfl) (fun _ => rfl) (anySuspends_eq args) hparts h
    | update span target fields =>
      refine agrees_parts (fun _ _ => rfl) (fun _ => rfl) ?_ hparts h
      rw [suspends, anyFieldSuspends_eq, operands, List.any_cons]
    | select span target field =>
      exact agrees_parts (fun _ _ => rfl) (fun _ => rfl) (by simp [suspends, operands]) hparts h
    | index span target i =>
      exact agrees_parts (fun _ _ => rfl) (fun _ => rfl) (by simp [suspends, operands]) hparts h
    | call span callee args =>
      refine agrees_parts (fun _ _ => rfl) (fun _ => rfl) ?_ hparts h
      rw [suspends, anySuspends_eq, operands, List.any_cons]
    | method span receiver name args =>
      refine agrees_parts (fun _ _ => rfl) (fun _ => rfl) ?_ hparts h
      rw [suspends, anySuspends_eq, operands, List.any_cons]
    | unary span op operand =>
      exact agrees_parts (fun _ _ => rfl) (fun _ => rfl) (by simp [suspends, operands]) hparts h
    | binary span op lhs rhs =>
      by_cases hop : op.isLogical = true
      · exact agrees_logical hop (hparts lhs (by simp [operands])) (hparts rhs (by simp [operands])) h
      · exact agrees_parts (fun _ _ => if_neg hop) (fun _ => if_neg hop)
          (by simp [suspends, operands]) hparts h
    | branch span test whenTrue whenFalse =>
      refine agrees_branch (ih test ?_) (ih whenTrue ?_) (fun e he => ih e ?_) h
      · simp only [branch.sizeOf_spec]; omega
      · simp only [branch.sizeOf_spec]; omega
      · subst he
        simp only [branch.sizeOf_spec, Option.some.sizeOf_spec]
        omega
    | cases span scrutinee arms =>
      refine agrees_cases (ih scrutinee ?_) (fun arm harm => ih arm.body ?_) h
      · simp only [cases.sizeOf_spec]; omega
      · have := sizeOf_body_lt_of_mem harm
        simp only [cases.sizeOf_spec]
        omega
    | block span stmts tail =>
      refine agrees_block (fun stmt hstmt => ih stmt.inner ?_) (fun e he => ih e ?_) h
      · have := sizeOf_inner_lt_of_mem hstmt
        simp only [block.sizeOf_spec]
        omega
      · subst he
        simp only [block.sizeOf_spec, Option.some.sizeOf_spec]
        omega
    | await span future =>
      refine agrees_await (ih future ?_)
      simp only [await.sizeOf_spec]
      omega
    | attempt span inner =>
      refine agrees_attempt (ih inner ?_) h
      simp only [attempt.sizeOf_spec]
      omega

end Expr

omit [Gateway γ] in
/-- A machine in the current module works its stack off there, and leaves the current module. -/
theorem meaning_runMachine (r : Recur γ) (frames : List TaskFrame) (root : Bool)
    (s : Interpreter γ) :
    (r.runMachine ⟨frames, s.current, root⟩).meaning s =
      ((r.runStack s.current root r.fuel frames .void).meaning s).map fun p =>
        (p.1, { p.2 with current := s.current }) := by
  have hrun : r.runMachine ⟨frames, s.current, root⟩ s =
      (r.runStack s.current root r.fuel frames .void).restoring
        (fun s' => { s' with current := s.current }) s := rfl
  rw [Eval.meaning, Eval.meaning, hrun, Eval.restoring]
  cases r.runStack s.current root r.fuel frames .void s with
  | ok step s' => rfl
  | error u s' => cases h : u.stop? <;> simp [h]

theorem stackMeaning_eq_some_iff (module : Nat) (root : Bool) (frames : List TaskFrame)
    (s s' : Interpreter γ) (o : Except Stop Value) :
    stackMeaning module root frames .void s = some (o, s') ↔
      ∃ step, Ends (fun n => (ofFuel n).runStack module root n frames .void) s step s' ∧
        step >>= TaskStep.finish = o := by
  have hfinish : ∀ (last : Except Stop Value) (s₁ : Interpreter γ),
      (MonadExcept.ofExcept last : Meaning (Interpreter γ) Value) s₁ = some (last, s₁) := by
    intro last s₁
    cases last <;> rfl
  have hgrows := stack_grows (γ := γ) module root frames .void
  rw [stackMeaning, Meaning.bind_eq_some_iff]
  constructor
  · rintro (⟨step, s₁, hstep, ho⟩ | ⟨stop, s₁, hstop, ho⟩)
    · rw [hfinish] at ho
      cases ho
      exact ⟨.ok step, hgrows.limit_iff_ends.1 hstep, rfl⟩
    · cases ho
      exact ⟨.error stop, hgrows.limit_iff_ends.1 hstop, rfl⟩
  · rintro ⟨stop | step, hends, rfl⟩
    · exact .inr ⟨stop, s', hgrows.limit_iff_ends.2 hends, rfl⟩
    · exact .inl ⟨step, s', hgrows.limit_iff_ends.2 hends, hfinish _ _⟩

/-- A machine for an expression ends in the same way as the evaluation of the expression, in every
state: with the same value, with the same `?` that leaves the function around, or with a failure of
the same message; and it leaves the same state. Where the evaluation awaits a pending future, it
fails, and the machine stops in the same state. -/
theorem runMachine_ends_iff (e : Expr) (env : Env) (root : Bool) (s s' : Interpreter γ)
    (o : Except Stop Value) :
    (∃ step, Ends (fun n => (ofFuel n).runMachine (.start e env s.current root)) s step s' ∧
      step >>= TaskStep.finish = o) ↔
    ∃ s₁, Ends (fun n => evalWithin n e env) s o s₁ ∧ s' = { s₁ with current := s.current } := by
  have hmachine : ∀ step, Ends (fun n => (ofFuel n).runMachine (.start e env s.current root)) s step s' ↔
      ∃ s₁, Ends (fun n => (ofFuel n).runStack s.current root n [.eval e env] .void) s step s₁ ∧
        s' = { s₁ with current := s.current } := by
    intro step
    simp only [Ends, TaskMachine.start, meaning_runMachine, Option.map_eq_some_iff]
    constructor
    · rintro ⟨n, ⟨last, s₁⟩, hn, heq⟩
      cases heq
      exact ⟨s₁, ⟨n, hn⟩, rfl⟩
    · rintro ⟨s₁, ⟨n, hn⟩, rfl⟩
      exact ⟨n, (step, s₁), hn, rfl⟩
  have heval : ∀ s₁, stackMeaning s.current root [.eval e env] .void s = some (o, s₁) ↔
      Ends (fun n => evalWithin n e env) s o s₁ := by
    intro s₁
    have hnil : stackMeaning (γ := γ) s.current root [] = pure :=
      funext (stackMeaning_nil s.current root)
    rw [e.agrees s.current root env [] .void, hnil, bind_pure]
    exact (eval_grows e env).limit_iff_ends
  constructor
  · rintro ⟨step, hstep, ho⟩
    obtain ⟨s₁, hends, hs⟩ := (hmachine step).1 hstep
    exact ⟨s₁, (heval s₁).1 ((stackMeaning_eq_some_iff ..).2 ⟨step, hends, ho⟩), hs⟩
  · rintro ⟨s₁, hends, hs⟩
    obtain ⟨step, hstep, ho⟩ := (stackMeaning_eq_some_iff ..).1 ((heval s₁).2 hends)
    exact ⟨step, (hmachine step).2 ⟨s₁, hstep, hs⟩, ho⟩

end StreamLang
