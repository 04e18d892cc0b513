import StreamLang.Interpreter.Machine
import StreamLang.Proofs.Lockstep.Evaluator

/-! Slices of tasks keep step. A frame is permitted when the code and the values in it are; the tasks of
two runs that keep step go through the same frames, and only the lines of failures may differ. -/

namespace StreamLang

section

variable {p : Permit} (G : Regime p)

/-- What a block holds from a statement on is permitted among these names. -/
def BlockPermitted (m : Nat) (e : Expr) (next : Nat) (bound : List String) : Prop :=
  ∀ left, e.statements next = .ok left → BlockHolds (G.expr m) left.2 bound left.1

/-- In a task of the module, what is still to be done is permitted. -/
def TaskFrame.Permitted (m : Nat) : TaskFrame → Prop
  | eval e env => G.expr m env.names e ∧ AllPermitted p env.values
  | operand e env done =>
    G.expr m env.names e ∧ AllPermitted p env.values ∧ AllPermitted p done
  | branch e env => G.expr m env.names e ∧ AllPermitted p env.values
  | arms e env => G.expr m env.names e ∧ AllPermitted p env.values
  | logic e env _ => G.expr m env.names e ∧ AllPermitted p env.values
  | block e env next (.bind index) =>
    (∀ binding, e.letAt index = .ok binding →
      BlockPermitted G m e next (binding.2.1.names ++ env.names)) ∧ AllPermitted p env.values
  | block e env next .discard => BlockPermitted G m e next env.names ∧ AllPermitted p env.values
  | await _ => G.effects
  | resume _ _ => G.effects
  | attempt _ => True

def TaskBody.Permitted : TaskBody → Prop
  | machine m => ∀ frame ∈ m.stack, frame.Permitted G m.module
  | combinator c => c.Permitted p

end

namespace Terms

variable (T : Terms)

inductive SameFailed : Failed → Failed → Prop
  | mk {error : Value} {line line' : Nat} (h : error.Permitted T.permit)
      (hline : T.SameLine line line') : SameFailed ⟨error, line⟩ ⟨error, line'⟩

/-- Steps of two frames that count as the same. -/
inductive SameFrameStep (G : Regime T.permit) (m : Nat) : FrameStep → FrameStep → Prop
  | value {v : Value} (h : v.Permitted T.permit) : SameFrameStep G m (.value v) (.value v)
  | push {frames : List TaskFrame} (h : ∀ frame ∈ frames, frame.Permitted G m) :
    SameFrameStep G m (.push frames) (.push frames)
  | suspend {on : FutureId} {frame : TaskFrame} (h : frame.Permitted G m) :
    SameFrameStep G m (.suspend on frame) (.suspend on frame)
  | fail {f f' : Failed} (h : T.SameFailed f f') : SameFrameStep G m (.fail f) (.fail f')

/-- Ends of two slices that count as the same. -/
inductive SameTaskStep (G : Regime T.permit) : TaskStep → TaskStep → Prop
  | complete {v : Value} (h : v.Permitted T.permit) : SameTaskStep G (.complete v) (.complete v)
  | suspend {on : FutureId} {body : TaskBody} (h : body.Permitted G) :
    SameTaskStep G (.suspend on body) (.suspend on body)
  | fail {f f' : Failed} (h : T.SameFailed f f') : SameTaskStep G (.fail f) (.fail f')

variable {T}

/-- A failure without a line gets this one. -/
theorem SameFailed.locate {f f' : Failed} (h : T.SameFailed f f') (line : Nat) :
    T.SameFailed (if f.line = 0 then { f with line } else f)
      (if f'.line = 0 then { f' with line } else f') := by
  obtain ⟨he, hline⟩ := h
  have hpick : ∀ error inner, (if inner = 0 then (⟨error, line⟩ : Failed) else ⟨error, inner⟩) =
      ⟨error, if inner = 0 then line else inner⟩ := by
    intro error inner
    split <;> rfl
  dsimp only
  rw [hpick, hpick]
  exact .mk he fun hT => by rw [hline hT]

section

variable (hT : T.lines)
include hT

theorem SameFailed.eq {f f' : Failed} (h : T.SameFailed f f') : f = f' := by
  obtain ⟨-, hline⟩ := h
  rw [hline hT]

theorem SameFrameStep.eq {G : Regime T.permit} {m : Nat} {step step' : FrameStep}
    (h : T.SameFrameStep G m step step') : step = step' := by
  cases h with
  | fail hf => rw [hf.eq hT]
  | _ => rfl

theorem SameTaskStep.eq {G : Regime T.permit} {step step' : TaskStep}
    (h : T.SameTaskStep G step step') : step = step' := by
  cases h with
  | fail hf => rw [hf.eq hT]
  | _ => rfl

end

end Terms

variable {γ : Type} [Gateway γ] {L : Pairing γ}

section

variable {T : Terms} {G : Regime T.permit} {m : Nat} {env : Env}

/-- The frames that a block pushes are permitted. -/
theorem FrameStep.ofBlock_same {e : Expr} {next : Nat}
    (hblock : BlockPermitted G m e next env.names) (henv : AllPermitted T.permit env.values) :
    Except.All (fun step => T.SameFrameStep G m step step) (FrameStep.ofBlock e env next) := by
  rw [FrameStep.ofBlock]
  cases hleft : e.statements next with
  | error fault => exact .error _
  | ok left =>
    obtain ⟨stmts, tail⟩ := left
    have hholds := hblock _ hleft
    cases stmts with
    | nil => cases tail with
      | none => exact .ok (.value Value.permitted_void)
      | some last => exact .ok (.push (List.forall_mem_singleton.2 ⟨hholds last rfl, henv⟩))
    | cons stmt rest =>
      have hnext := Expr.statements_succ hleft
      cases stmt with
      | bind span pattern ty first =>
        refine .ok (.push (List.forall_mem_cons.2 ⟨⟨hholds.1, henv⟩,
          List.forall_mem_singleton.2 ⟨fun binding hbinding left' hleft' => ?_, henv⟩⟩))
        cases (Expr.letAt_of_statements hleft).symm.trans hbinding
        cases hnext.symm.trans hleft'
        exact hholds.2
      | expr first =>
        refine .ok (.push (List.forall_mem_cons.2 ⟨⟨hholds.1, henv⟩,
          List.forall_mem_singleton.2 ⟨fun left' hleft' => ?_, henv⟩⟩))
        cases hnext.symm.trans hleft'
        exact hholds.2

theorem FrameStep.ofParts_same {e : Expr} (he : G.expr m env.names e)
    (henv : AllPermitted T.permit env.values) :
    Except.All (fun step => T.SameFrameStep G m step step) (FrameStep.ofParts e env) := by
  have hparts := G.operands he
  rw [FrameStep.ofParts]
  cases hoperands : e.operands with
  | nil => exact .error _
  | cons first rest =>
    rw [hoperands] at hparts
    exact .ok (.push (List.forall_mem_cons.2 ⟨⟨hparts first (.head _), henv⟩,
      List.forall_mem_singleton.2 ⟨he, henv, List.forall_mem_nil _⟩⟩))

/-- The frames that an expression pushes are permitted. -/
theorem FrameStep.ofExpr_same {e : Expr} (he : G.expr m env.names e)
    (henv : AllPermitted T.permit env.values) :
    Except.All (fun step => T.SameFrameStep G m step step) (FrameStep.ofExpr e env) := by
  have htwo : ∀ {first second : TaskFrame}, first.Permitted G m → second.Permitted G m →
      T.SameFrameStep G m (.push [first, second]) (.push [first, second]) :=
    fun h h' => .push (List.forall_mem_cons.2 ⟨h, List.forall_mem_singleton.2 h'⟩)
  cases e with
  | await span future =>
    obtain ⟨heffects, hfuture⟩ := G.await he
    exact .ok (htwo ⟨hfuture, henv⟩ heffects)
  | attempt span inner => exact .ok (htwo ⟨G.attempt he, henv⟩ trivial)
  | branch span test whenTrue whenFalse => exact .ok (htwo ⟨(G.branch he).1, henv⟩ ⟨he, henv⟩)
  | cases span scrutinee arms => exact .ok (htwo ⟨(G.cases he).1, henv⟩ ⟨he, henv⟩)
  | block span stmts tail =>
    refine FrameStep.ofBlock_same (fun left hleft => ?_) henv
    cases hleft
    exact G.block he
  | binary span op lhs rhs =>
    rw [FrameStep.ofExpr]
    split
    · exact .ok (htwo ⟨G.operands he lhs (.head _), henv⟩ ⟨he, henv⟩)
    · exact FrameStep.ofParts_same he henv
  | _ => exact FrameStep.ofParts_same he henv

end

namespace Recur.Lockstep

variable {r r' : Recur γ} {m : L.Place} (hL : L.Lawful) (h : r.Lockstep L r')
include hL h

theorem stepFrame {frame : TaskFrame} (hframe : frame.Permitted L.regime (L.module m)) {v : Value}
    (hv : L.Permits v) :
    Eval.Lockstep L.terms (L.state m) (L.terms.SameFrameStep L.regime (L.module m))
      (r.stepFrame frame v)
      (r'.stepFrame frame v) := by
  have hgive : ∀ {x y : Run γ Value}, L.Agree m L.Permits x y →
      Eval.Lockstep L.terms (L.state m) (L.terms.SameFrameStep L.regime (L.module m))
        (do return .value (← x)) (do return .value (← y)) := by
    refine fun hxy => .bind hxy ?_
    rintro w _ ⟨rfl, hw⟩
    exact .pure (.value hw)
  have htruth : ∀ (what : Condition) (line : Nat) {f g : Bool → Run γ FrameStep},
      (∀ b, Eval.Lockstep L.terms (L.state m) (L.terms.SameFrameStep L.regime (L.module m)) (f b)
        (g b)) →
      Eval.Lockstep L.terms (L.state m) (L.terms.SameFrameStep L.regime (L.module m))
        ((Run.truth what v).located line >>= f) ((Run.truth what v).located line >>= g) := by
    refine fun what line f g hfg => .bind (.located (Run.truth_agree what v) (.refl line)) ?_
    rintro b _ ⟨rfl, -⟩
    exact hfg b
  cases frame with
  | eval e env =>
    obtain ⟨he, henv⟩ := hframe
    rw [Recur.stepFrame, Recur.stepFrame]
    split
    · refine .weaken (Eval.Agree.ofExcept (FrameStep.ofExpr_same he henv)) ?_
      rintro step _ ⟨rfl, hstep⟩
      exact hstep
    · exact hgive (h.eval he henv)
  | operand e env done =>
    obtain ⟨he, henv, hdone⟩ := hframe
    have hmore : L.PermitsAll (v :: done) := .cons hv hdone
    cases hrest : e.operands.drop (done.length + 1) with
    | nil =>
      rw [stepFrame_operand_of_last hrest, stepFrame_operand_of_last hrest]
      refine hgive (.located ((h.inStep m).combine hL.scene he henv fun w hw => ?_) (.refl _))
      exact hmore w (List.mem_reverse.1 hw)
    | cons next rest =>
      have hnext := L.regime.operands he next (Expr.mem_operands_of_drop hrest)
      rw [stepFrame_operand_of_next hrest, stepFrame_operand_of_next hrest]
      exact .pure (.push (List.forall_mem_cons.2 ⟨⟨hnext, henv⟩,
        List.forall_mem_singleton.2 ⟨he, henv, hmore⟩⟩))
  | branch e env =>
    refine .bind (Eval.Agree.ofExcept fun _ => id) ?_
    rintro branches _ ⟨rfl, hbranches⟩
    obtain ⟨span, test, rfl⟩ := Expr.branches_eq_ok hbranches
    obtain ⟨-, htrue, hfalse⟩ := L.regime.branch hframe.1
    refine htruth _ _ fun b => ?_
    cases b with
    | true => exact .pure (.push (List.forall_mem_singleton.2 ⟨htrue, hframe.2⟩))
    | false =>
      obtain ⟨whenTrue, whenFalse⟩ := branches
      cases whenFalse with
      | none => exact .pure (.value Value.permitted_void)
      | some other =>
        exact .pure (.push (List.forall_mem_singleton.2 ⟨hfalse other rfl, hframe.2⟩))
  | arms e env =>
    refine .bind (Eval.Agree.ofExcept fun _ => id) ?_
    rintro clauses _ ⟨rfl, hclauses⟩
    obtain ⟨span, scrutinee, rfl⟩ := Expr.clauses_eq_ok hclauses
    obtain ⟨-, harms⟩ := L.regime.cases hframe.1
    refine .bind (.located ((h.inStep m).selectArm hL.scene hv harms hframe.2) (.refl _)) ?_
    rintro taken _ ⟨rfl, htaken⟩
    exact .pure (.push (List.forall_mem_singleton.2 htaken))
  | logic e env right =>
    refine .bind (Eval.Agree.ofExcept fun _ => id) ?_
    rintro operation _ ⟨rfl, hoperation⟩
    obtain ⟨span, lhs, rfl⟩ := Expr.operation_eq_ok hoperation
    refine htruth _ _ fun b => ?_
    split
    · exact .pure (.value (Value.permitted_bool b))
    · have hrhs := L.regime.operands hframe.1 operation.2 (.tail _ (.head _))
      exact .pure (.push (List.forall_mem_cons.2 ⟨⟨hrhs, hframe.2⟩,
        List.forall_mem_singleton.2 hframe⟩))
  | block e env next pending =>
    have hgo : ∀ {env' : Env}, BlockPermitted L.regime (L.module m) e next env'.names →
        L.PermitsAll env'.values →
        Eval.Lockstep L.terms (L.state m) (L.terms.SameFrameStep L.regime (L.module m))
          (Eval.ofExcept (FrameStep.ofBlock e env' next))
          (Eval.ofExcept (FrameStep.ofBlock e env' next)) := by
      intro env' hrest henv'
      refine .weaken (Eval.Agree.ofExcept (FrameStep.ofBlock_same hrest henv')) ?_
      rintro step _ ⟨rfl, hstep⟩
      exact hstep
    cases pending with
    | discard => exact hgo hframe.1 hframe.2
    | bind index =>
      refine .bind (Eval.Agree.ofExcept fun _ => id) ?_
      rintro binding _ ⟨rfl, hbinding⟩
      refine .bind ((h.inStep m).bindLet hL.scene _ _ _ hv hframe.2) ?_
      rintro env' _ ⟨rfl, hnames, henv⟩
      refine hgo ?_ henv
      rw [hnames]
      exact hframe.1 binding hbinding
  | await line =>
    cases v with
    | future id => exact .pure (.push (List.forall_mem_singleton.2 hframe))
    | _ => exact .failAt _ (.refl line)
  | resume id line =>
    refine .bind (hL.scene.observe (L.regime.future hframe) id) fun a b hab => ?_
    cases hab with
    | none => exact .failAt _ (.refl line)
    | some hstate => cases hstate with
      | pending => exact .pure (.suspend hframe)
      | resolved hw => exact .pure (.value hw)
      | failed he hline => exact .pure (.fail (Terms.SameFailed.locate (.mk he hline) line))
  | attempt line => exact hgive (Run.attempt_agree hv line)

/-- The whole stack keeps step, since every frame does. -/
theorem runStack {module : Nat} {root : Bool}
    (hmodule : ∀ frame : TaskFrame, frame.Permitted L.regime (L.module m) →
      frame.Permitted L.regime module)
    {n n' : Nat} (hbounds : L.terms.Bounds n n') {frames : List TaskFrame}
    (hframes : ∀ frame ∈ frames, frame.Permitted L.regime (L.module m)) {v : Value}
    (hv : L.Permits v) :
    Eval.Lockstep L.terms (L.state m) (L.terms.SameTaskStep L.regime)
      (r.runStack module root n frames v) (r'.runStack module root n' frames v) := by
  induction n generalizing n' frames v with
  | zero => exact .exhausted (y := fun n => r'.runStack module root n frames v) rfl hbounds
  | succ n ih =>
    obtain ⟨k, rfl, hbelow⟩ := hbounds.step
    cases frames with
    | nil => exact .pure (.complete hv)
    | cons frame stack =>
      obtain ⟨hframe, hstack⟩ := List.forall_mem_cons.1 hframes
      refine .bind (h.stepFrame hL hframe hv) fun a b hab => ?_
      cases hab with
      | value hw => exact ih hbelow hstack hw
      | push hpushed =>
        exact ih hbelow (List.forall_mem_append.2 ⟨hpushed, hstack⟩) Value.permitted_void
      | suspend hframe =>
        have hleft := List.forall_mem_cons.2 ⟨hframe, hstack⟩
        exact .pure (.suspend fun frame hmem => hmodule frame (hleft frame hmem))
      | fail hf => exact .pure (.fail hf)

omit h in
theorem follow (hfuture : L.terms.permit.future) (source : FutureId) :
    Eval.Lockstep L.terms (L.state m) (L.terms.SameTaskStep L.regime)
      (Recur.follow (γ := γ) source) (Recur.follow source) := by
  refine .bind (hL.scene.observe hfuture source) fun a b hab => ?_
  cases hab with
  | none => exact .fail _
  | some hstate => cases hstate with
    | pending =>
      have hbody : (TaskBody.combinator (.forward source)).Permitted L.regime := trivial
      exact .pure (.suspend hbody)
    | resolved hv => exact .pure (.complete hv)
    | failed he hline => exact .pure (.fail (.mk he hline))

theorem handle {handler argument : Value} (hhandler : L.Permits handler)
    (hargument : L.Permits argument) :
    Eval.Lockstep L.terms (L.state m) (L.terms.SameTaskStep L.regime)
      (r.handle handler argument) (r'.handle handler argument) := by
  refine .bind (h.call handler [argument] hhandler (List.forall_mem_singleton.2 hargument)) ?_
  rintro v _ ⟨rfl, hv⟩
  cases v with
  | future next => exact follow hL (Value.permitted_future.1 hv) next
  | _ => exact .pure (.complete hv)

omit h in
theorem collect (hfuture : L.terms.permit.future) (sources : List FutureId) {values : List Value}
    (hvalues : L.PermitsAll values) :
    Eval.Lockstep L.terms (L.state m) (L.terms.SameTaskStep L.regime)
      (Recur.collect (γ := γ) sources values) (Recur.collect sources values) := by
  induction sources generalizing values with
  | nil =>
    exact .pure (.complete (Value.permitted_list.2 fun v hv => hvalues v (List.mem_reverse.1 hv)))
  | cons source rest ih =>
    refine .bind (hL.scene.observe hfuture source) fun a b hab => ?_
    cases hab with
    | none => exact .fail _
    | some hstate => cases hstate with
      | pending =>
        have hbody : (TaskBody.combinator (.all (source :: rest) values)).Permitted L.regime :=
          hvalues
        exact .pure (.suspend hbody)
      | resolved hv => exact ih (.cons hv hvalues)
      | failed he hline => exact .pure (.fail (.mk he hline))

theorem runCombinator (hfuture : L.terms.permit.future) {c : Combinator}
    (hc : c.Permitted L.terms.permit) :
    Eval.Lockstep L.terms (L.state m) (L.terms.SameTaskStep L.regime) (r.runCombinator c)
      (r'.runCombinator c) := by
  have hbody : (TaskBody.combinator c).Permitted L.regime := hc
  cases c with
  | forward source => exact follow hL hfuture source
  | all sources values => exact collect hL hfuture sources hc
  | onError source handler =>
    refine .bind (hL.scene.observe hfuture source) fun a b hab => ?_
    cases hab with
    | none => exact .fail _
    | some hstate => cases hstate with
      | pending => exact .pure (.suspend hbody)
      | resolved hv =>
        rename_i v
        cases v with
        | err error => exact h.handle hL hc (Value.permitted_err.1 hv)
        | _ => exact .pure (.complete hv)
      | failed he _ => exact h.handle hL hc he
  | onComplete source handler =>
    refine .bind (hL.scene.observe hfuture source) fun a b hab => ?_
    cases hab with
    | none => exact .fail _
    | some hstate => cases hstate with
      | pending => exact .pure (.suspend hbody)
      | resolved hv =>
        rename_i v
        cases v with
        | ok inner => exact h.handle hL hc hv
        | err error => exact h.handle hL hc hv
        | _ => exact h.handle hL hc (Value.permitted_ok.2 hv)
      | failed he _ => exact h.handle hL hc (Value.permitted_err.2 he)
  | andThen source handler =>
    refine .bind (hL.scene.observe hfuture source) fun a b hab => ?_
    cases hab with
    | none => exact .fail _
    | some hstate => cases hstate with
      | pending => exact .pure (.suspend hbody)
      | resolved hv => exact h.handle hL hc hv
      | failed he hline => exact .pure (.fail (.mk he hline))

/-- The slices of two runs of the same task keep step. -/
theorem runBodyOf (hfuture : L.terms.permit.future) {body : TaskBody}
    (hbody : body.Permitted L.regime) :
    Eval.Lockstep L.terms (L.state m) (L.terms.SameTaskStep L.regime) (r.runBodyOf body)
      (r'.runBodyOf body) := by
  cases body with
  | machine machine =>
    have hframes : ∀ frame ∈ machine.stack,
        frame.Permitted L.regime (L.module (L.inModule m machine.module)) := by
      rwa [hL.module_inModule]
    refine hL.inModule (h.runStack hL (fun frame hframe => ?_) h.bounds hframes
      Value.permitted_void)
    rwa [hL.module_inModule] at hframe
  | combinator c => exact h.runCombinator hL hfuture hbody

end Recur.Lockstep

end StreamLang
