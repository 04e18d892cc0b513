import StreamLang.Proofs.Charter.Watch

/-! Slices of tasks keep to a charter, under every watch that the charter meets. What a frame comes to
is what the frames below it may go on with. -/

namespace StreamLang

variable {γ : Type} {C : Charter} {due : FutureId → Value → Prop} {m : Nat} {Q : Value → Prop}

namespace Charter

variable (C)

/-- What a frame makes of its value, above a stack. -/
def Leads (m : Nat) (Q : Value → Prop) (stack : List TaskFrame) : FrameStep → Prop
  | .value v => C.Fine v ∧ C.Stack m Q stack v
  | .push frames => C.Stack m Q (frames ++ stack) .void
  | .suspend _ frame => C.Stack m Q (frame :: stack) .void
  | .fail f => C.Fine f.error

/-- How a slice ends. -/
def Comes (Q : Value → Prop) : TaskStep → Prop
  | .complete v => C.Fine v ∧ Q v
  | .suspend _ body => C.Body Q body
  | .fail f => C.Fine f.error

variable {C}

section

variable {stack : List TaskFrame} {env : Env}

/-- Two frames, the second of which may go on with what the first gives. -/
theorem leads_two {first second : TaskFrame} (hfirst : C.Ready m first .void)
    (hsecond : ∀ w, C.Fine w → C.Yields m first w → C.Ready m second w)
    (hstack : ∀ w, C.Fine w → C.Yields m second w → C.Stack m Q stack w) :
    C.Leads m Q stack (.push [first, second]) :=
  ⟨hfirst, fun w hw hgives => ⟨hsecond w hw hgives, hstack⟩⟩

theorem leads_eval {e : Expr} (he : C.code m env e) (henv : C.AllFine env.values)
    (hstack : ∀ w, C.Fine w → C.Stack m Q stack w) :
    C.Leads m Q stack (.push [.eval e env]) :=
  ⟨⟨he, henv⟩, fun w hw _ => hstack w hw⟩

variable [Gateway γ] (hC : C.Lawful γ)
include hC

/-- The frames that a block pushes. -/
theorem ofBlock_leads {e : Expr} {next : Nat} (hblock : C.Rest m env e next)
    (henv : C.AllFine env.values) (hstack : ∀ w, C.Fine w → C.Stack m Q stack w) :
    Except.All (C.Leads m Q stack) (FrameStep.ofBlock e env next) := by
  cases hleft : e.statements next with
  | error fault =>
    rw [FrameStep.ofBlock, hleft]
    exact .error _
  | ok left =>
    rw [FrameStep.ofBlock_of_statements hleft]
    have hrest := hblock left hleft
    obtain ⟨stmts, tail⟩ := left
    cases stmts with
    | nil => cases tail with
      | none => exact .ok ⟨Value.every_void, hstack _ Value.every_void⟩
      | some last => exact .ok (leads_eval (hC.tail hrest) henv hstack)
    | cons stmt rest =>
      have hnext := Expr.statements_succ hleft
      cases stmt with
      | bind span pattern ty first =>
        obtain ⟨hfirst, hmore⟩ := hC.bind hrest
        refine .ok (leads_two ⟨hfirst, henv⟩ (fun w _ hgives => ⟨?_, henv⟩)
          fun w hw _ => hstack w hw)
        intro binding hbinding bindings hmatches left' hleft'
        cases (Expr.letAt_of_statements hleft).symm.trans hbinding
        cases hnext.symm.trans hleft'
        exact hmore w bindings hgives hmatches
      | expr first =>
        obtain ⟨hfirst, hmore⟩ := hC.expr hrest
        refine .ok (leads_two ⟨hfirst, henv⟩ (fun _ _ _ => ⟨fun left' hleft' => ?_, henv⟩)
          fun w hw _ => hstack w hw)
        cases hnext.symm.trans hleft'
        exact hmore

/-- The first part is on its way, and the others follow. -/
theorem ofParts_leads {e : Expr} (hfrom : e.isFromParts = true) (he : C.code m env e)
    (henv : C.AllFine env.values)
    (hstack : ∀ w, C.Fine w → C.gives m env e w → C.Stack m Q stack w) :
    Except.All (C.Leads m Q stack) (FrameStep.ofParts e env) := by
  rw [FrameStep.ofParts]
  cases hops : e.operands with
  | nil => exact .error _
  | cons first rest =>
    have hfirst := hC.parts he hfrom first (by rw [hops]; exact .head _)
    exact .ok (leads_two ⟨hfirst, henv⟩
      (fun w _ hgives => ⟨⟨hfrom, he, AllEvery.nil, [], first, rest, hops, .nil, hgives⟩, henv⟩)
      hstack)

/-- The frames that an expression pushes. -/
theorem ofExpr_leads {e : Expr} (he : C.code m env e) (henv : C.AllFine env.values)
    (hstack : ∀ w, C.Fine w → C.gives m env e w → C.Stack m Q stack w) :
    Except.All (C.Leads m Q stack) (FrameStep.ofExpr e env) := by
  cases hfrom : e.isFromParts with
  | true =>
    rw [Expr.ofExpr_of_isFromParts hfrom]
    exact ofParts_leads hC hfrom he henv hstack
  | false =>
    by_cases hname : ∃ span n, e = .name span n
    · obtain ⟨span, n, rfl⟩ := hname
      exact .error _
    · have hany : ∀ w, C.Fine w → C.Stack m Q stack w := fun w hw =>
        hstack w hw (hC.others (fun span n heq => hname ⟨span, n, heq⟩) hfrom w)
      cases e with
      | literal | closure | async => exact .error _
      | name span n => exact absurd ⟨span, n, rfl⟩ hname
      | await span future =>
        exact .ok (leads_two ⟨hC.await he, henv⟩ (fun _ _ _ => trivial) fun w hw _ => hany w hw)
      | attempt span inner =>
        exact .ok (leads_two ⟨hC.attempt he, henv⟩ (fun _ _ _ => trivial) fun w hw _ => hany w hw)
      | branch span test whenTrue whenFalse =>
        exact .ok (leads_two ⟨(hC.branch he).1, henv⟩ (fun _ _ _ => ⟨he, henv⟩)
          fun w hw _ => hany w hw)
      | cases span scrutinee arms =>
        exact .ok (leads_two ⟨(hC.cases he).1, henv⟩ (fun _ _ _ => ⟨he, henv⟩)
          fun w hw _ => hany w hw)
      | block span stmts tail =>
        refine ofBlock_leads hC (fun left hleft => ?_) henv hany
        cases hleft
        exact hC.ofBlock he
      | binary span op lhs rhs =>
        have hop : op.isLogical = true := by simpa [Expr.isFromParts] using hfrom
        rw [FrameStep.ofExpr, if_pos hop]
        exact .ok (leads_two ⟨(hC.logical he hop).1, henv⟩ (fun _ _ _ => ⟨he, henv⟩)
          fun w hw _ => hany w hw)
      | _ => cases hfrom

end

end Charter

namespace Recur.Obeys

section

variable {r r' : Recur γ} (h : r.Obeys C due r')
include h

omit h in
theorem follow (hQ : ∀ v, Q v) (source : FutureId) :
    Run.Under C due m (C.Comes Q) (Recur.follow (γ := γ) source) (Recur.follow source) := by
  refine .bind (Run.observe_under source) fun found hfound => ?_
  cases found with
  | none => exact .fail _
  | some state => cases state with
    | pending => exact .pure ⟨hQ, AllEvery.nil⟩
    | resolved v => exact .pure ⟨(hfound _ rfl).1, hQ v⟩
    | failed f => exact .pure (hfound _ rfl)

theorem handle (hQ : ∀ v, Q v) {handler argument : Value} (hhandler : C.Fine handler)
    (hargument : C.Fine argument) :
    Run.Under C due m (C.Comes Q) (r.handle handler argument) (r'.handle handler argument) := by
  refine .bind (h.callOne hhandler hargument) fun v hv => ?_
  cases v with
  | future next => exact follow hQ next
  | _ => exact .pure ⟨hv, hQ _⟩

omit h in
theorem collect (hQ : ∀ v, Q v) (sources : List FutureId) {values : List Value}
    (hvalues : C.AllFine values) :
    Run.Under C due m (C.Comes Q) (Recur.collect (γ := γ) sources values)
      (Recur.collect sources values) := by
  induction sources generalizing values with
  | nil => exact .pure ⟨Value.every_list.2 hvalues.reverse, hQ _⟩
  | cons source rest ih =>
    refine .bind (Run.observe_under source) fun found hfound => ?_
    cases found with
    | none => exact .fail _
    | some state => cases state with
      | pending => exact .pure ⟨hQ, hvalues⟩
      | resolved v => exact ih (AllEvery.cons (hfound _ rfl).1 hvalues)
      | failed f => exact .pure (hfound _ rfl)

theorem runCombinator (hQ : ∀ v, Q v) {c : Combinator} (hc : C.AllFine c.values) :
    Run.Under C due m (C.Comes Q) (r.runCombinator c) (r'.runCombinator c) := by
  have hwait : ∀ source : FutureId, Run.Under C due m (C.Comes Q)
      (pure (.suspend source (.combinator c)) : Run γ TaskStep)
      (pure (.suspend source (.combinator c))) :=
    fun _ => .pure ⟨hQ, hc⟩
  cases c with
  | forward source => exact follow hQ source
  | all sources values => exact collect hQ sources hc
  | onError source handler =>
    have hhandler := hc handler (.head _)
    refine .bind (Run.observe_under source) fun found hfound => ?_
    cases found with
    | none => exact .fail _
    | some state => cases state with
      | pending => exact hwait source
      | resolved v =>
        have hv := (hfound _ rfl).1
        cases v with
        | err error => exact h.handle hQ hhandler (Value.every_err.1 hv)
        | _ => exact .pure ⟨hv, hQ _⟩
      | failed f => exact h.handle hQ hhandler (hfound _ rfl)
  | onComplete source handler =>
    have hhandler := hc handler (.head _)
    refine .bind (Run.observe_under source) fun found hfound => ?_
    cases found with
    | none => exact .fail _
    | some state => cases state with
      | pending => exact hwait source
      | resolved v =>
        have hv := (hfound _ rfl).1
        cases v with
        | ok u => exact h.handle hQ hhandler hv
        | err error => exact h.handle hQ hhandler hv
        | _ => exact h.handle hQ hhandler (Value.every_ok.2 hv)
      | failed f =>
        have hf : C.Fine f.error := hfound _ rfl
        exact h.handle hQ hhandler (Value.every_err.2 hf)
  | andThen source handler =>
    refine .bind (Run.observe_under source) fun found hfound => ?_
    cases found with
    | none => exact .fail _
    | some state => cases state with
      | pending => exact hwait source
      | resolved v => exact h.handle hQ (hc handler (.head _)) (hfound _ rfl).1
      | failed f => exact .pure (hfound _ rfl)

end

variable [Gateway γ] (hC : C.Lawful γ) {r r' : Recur γ} (h : r.Obeys C due r')
include hC h

/-- What a frame makes of a value is what the frames below it may go on with. -/
theorem stepFrame {frame : TaskFrame} {stack : List TaskFrame} {v : Value}
    (hstack : C.Stack m Q (frame :: stack) v) (hv : C.Fine v) :
    Run.Under C due m (C.Leads m Q stack) (r.stepFrame frame v) (r'.stepFrame frame v) := by
  obtain ⟨hready, hrest⟩ := hstack
  have hgive : ∀ {x y : Run γ Value},
      Run.Under C due m (fun w => C.Fine w ∧ C.Yields m frame w) x y →
      Run.Under C due m (C.Leads m Q stack) (do return .value (← x)) (do return .value (← y)) :=
    fun hxy => .bind hxy fun w hw => .pure ⟨hw.1, hrest w hw.1 hw.2⟩
  have htruth : ∀ (what : Condition) (line : Nat),
      Run.Under C due m Run.Whatever ((Run.truth (γ := γ) what v).located line)
        ((Run.truth what v).located line) :=
    fun what line => .located (Run.truth_under what v) line
  cases frame with
  | eval e env =>
    obtain ⟨he, henv⟩ := hready
    rw [Recur.stepFrame, Recur.stepFrame]
    split
    · exact .ofExcept (Charter.ofExpr_leads hC he henv hrest)
    · exact hgive (h.eval he henv)
  | operand e env done =>
    obtain ⟨⟨hfrom, he, hdone, before, part, rest, hops, hbefore, hpart⟩, henv⟩ := hready
    have hmore : C.AllFine (v :: done) := .cons hv hdone
    have hgiven : List.Forall₂ (C.gives m env) (before ++ [part]) (v :: done).reverse := by
      rw [List.reverse_cons]
      exact List.rel_append hbefore (.cons hpart .nil)
    have hdrop : e.operands.drop (done.length + 1) = rest := by
      have hlength : before.length = done.length := by
        rw [hbefore.length_eq, List.length_reverse]
      rw [hops, ← List.singleton_append, ← List.append_assoc, ← hlength]
      exact List.drop_left' List.length_append
    cases rest with
    | nil =>
      rw [stepFrame_operand_of_last hdrop, stepFrame_operand_of_last hdrop]
      rw [← hops] at hgiven
      exact hgive (.located (h.combineGiven hC hfrom he henv hmore.reverse hgiven) _)
    | cons next rest =>
      rw [stepFrame_operand_of_next hdrop, stepFrame_operand_of_next hdrop]
      have hnext := hC.parts he hfrom next (Expr.mem_operands_of_drop hdrop)
      have hops' : e.operands = before ++ [part] ++ next :: rest := by
        rw [hops, List.append_assoc]
        rfl
      exact .pure (Charter.leads_two ⟨hnext, henv⟩ (fun w _ hw =>
        ⟨⟨hfrom, he, hmore, before ++ [part], next, rest, hops', hgiven, hw⟩, henv⟩) hrest)
  | branch e env =>
    obtain ⟨he, henv⟩ := hready
    refine .bind (.ofExcept fun _ => id) fun branches hbranches => ?_
    obtain ⟨span, test, rfl⟩ := Expr.branches_eq_ok hbranches
    obtain ⟨-, htrue, hfalse⟩ := hC.branch he
    refine .bind (htruth _ _) fun b _ => ?_
    cases b with
    | true => exact .pure (Charter.leads_eval htrue henv fun w hw => hrest w hw trivial)
    | false =>
      obtain ⟨whenTrue, whenFalse⟩ := branches
      cases whenFalse with
      | none => exact .pure ⟨Value.every_void, hrest _ Value.every_void trivial⟩
      | some other =>
        exact .pure (Charter.leads_eval (hfalse other rfl) henv fun w hw => hrest w hw trivial)
  | arms e env =>
    obtain ⟨he, henv⟩ := hready
    refine .bind (.ofExcept fun _ => id) fun clauses hclauses => ?_
    obtain ⟨span, scrutinee, rfl⟩ := Expr.clauses_eq_ok hclauses
    refine .bind (.located (h.selectArm hv (hC.cases he).2 henv) _) fun taken htaken => .pure ?_
    exact Charter.leads_eval htaken.1 htaken.2 fun w hw => hrest w hw trivial
  | logic e env right =>
    obtain ⟨he, henv⟩ := hready
    refine .bind (.ofExcept fun _ => id) fun operation hoperation => ?_
    obtain ⟨span, lhs, rfl⟩ := Expr.operation_eq_ok hoperation
    have hrhs : C.code m env operation.2 := by
      cases hop : operation.1.isLogical with
      | true => exact (hC.logical he hop).2
      | false => exact hC.parts he (by rw [Expr.isFromParts, hop]; rfl) _ (.tail _ (.head _))
    refine .bind (htruth _ _) fun b _ => ?_
    split
    · exact .pure ⟨Value.every_bool b, hrest _ (Value.every_bool b) trivial⟩
    · exact .pure (Charter.leads_two ⟨hrhs, henv⟩ (fun _ _ _ => ⟨he, henv⟩)
        fun w hw _ => hrest w hw trivial)
  | block e env next pending =>
    have hany : ∀ w, C.Fine w → C.Stack m Q stack w := by
      intro w hw
      refine hrest w hw ?_
      cases pending <;> trivial
    cases pending with
    | bind index =>
      obtain ⟨hblock, henv⟩ := hready
      refine .bind (.ofExcept fun _ => id) fun binding hbinding => ?_
      refine .bind (h.bindLet hC _ _ _ hv henv) fun env' henv' => ?_
      obtain ⟨hvalues, bindings, hmatches, rfl⟩ := henv'
      exact .ofExcept
        (Charter.ofBlock_leads hC (hblock binding hbinding bindings hmatches) hvalues hany)
    | discard => exact .ofExcept (Charter.ofBlock_leads hC hready.1 hready.2 hany)
  | await line =>
    cases v with
    | future id => exact .pure ⟨trivial, fun w hw _ => hrest w hw trivial⟩
    | _ => exact .failAt _ line
  | resume id line =>
    refine .bind (Run.observe_under id) fun found hfound => ?_
    cases found with
    | none => exact .failAt _ line
    | some state => cases state with
      | pending => exact .pure ⟨trivial, fun w hw _ => hrest w hw trivial⟩
      | resolved w => exact .pure ⟨(hfound _ rfl).1, hrest w (hfound _ rfl).1 trivial⟩
      | failed f =>
        have hf : C.Fine f.error := hfound _ rfl
        refine .pure ?_
        dsimp only [Charter.Leads]
        split <;> exact hf
  | attempt line => exact hgive ((Run.attempt_under hv line).weaken fun _ hw => ⟨hw, trivial⟩)

variable {w : Watch γ} (hw : w.Met C)

section

include hw

/-- The whole stack, frame after frame. -/
theorem supervisedStack {root : Bool} (hroot : root = true ∨ ∀ v, Q v) (fuel : Nat)
    {frames : List TaskFrame} {v : Value} (hstack : C.Stack m Q frames v) (hv : C.Fine v) :
    Run.Under C due m (C.Comes Q) (r.runStack m root fuel frames v)
      (r'.supervisedStack w m root fuel frames v) := by
  induction fuel generalizing frames v with
  | zero => exact .exhausted
  | succ fuel ih =>
    cases frames with
    | nil => exact .pure ⟨hv, hstack⟩
    | cons frame stack =>
      rw [Recur.runStack, Recur.supervisedStack]
      refine .ensure ?_ _ fun s hs hm => hw.working hs (hm ▸ hstack) hv
      refine .bind (h.stepFrame hC hstack hv) fun step hstep => ?_
      cases step with
      | value u => exact ih hstep.2 hstep.1
      | push pushed => exact ih hstep Value.every_void
      | suspend on frame => exact .pure ⟨hroot, hstep⟩
      | fail f => exact .pure hstep

end

include hw

theorem supervisedBody {body : TaskBody} (hbody : C.Body Q body) :
    Run.Under C due m (C.Comes Q) (r.runBodyOf body) (r'.supervisedBody w body) := by
  cases body with
  | machine machine =>
    rw [Recur.runBodyOf, Recur.supervisedBody, Recur.runMachine, h.fuel]
    exact Run.inModule_under _ (h.supervisedStack hC hw hbody.1 _ hbody.2 Value.every_void)
  | combinator c => exact h.runCombinator hbody.1 hbody.2

/-- A slice that unwinds ends its task; a `?` does so with a value only where any may come. -/
theorem supervisedSlice {body : TaskBody} (hbody : C.Body Q body) :
    Run.Under C due m (C.Comes Q) (r.runSlice body) (r'.supervisedSlice w body) := by
  intro s hs hm
  obtain ⟨hsame, hends⟩ := h.supervisedBody hC hw hbody s hs hm
  unfold Recur.runSlice Recur.supervisedSlice
  rw [hsame]
  cases hrun : r.runBodyOf body s with
  | ok step t =>
    rw [hrun] at hends
    exact ⟨rfl, hends⟩
  | error u t =>
    rw [hrun] at hends
    refine ⟨rfl, ?_⟩
    cases u with
    | fail fault line => exact ⟨hends.1, Value.every_text _⟩
    | early v line =>
      cases hroot : body.isRoot with
      | true => exact ⟨hends.1, Value.every_text _⟩
      | false =>
        refine ⟨hends.1, hends.2, ?_⟩
        cases body with
        | machine machine =>
          refine hbody.1.elim (fun htrue => ?_) fun hQ => hQ v
          cases htrue.symm.trans hroot
        | combinator c => exact hbody.1 v
    | exhausted => exact hends

end Recur.Obeys

end StreamLang
