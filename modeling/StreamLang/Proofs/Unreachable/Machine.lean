import StreamLang.Proofs.Unreachable.Evaluator

/-! Slices of tasks are secure. An expression that may wait is taken apart into frames, so that the
evaluator is given only code in which nothing waits; and a task waits only for futures there are. -/

namespace StreamLang

variable {γ : Type} {n : Nat}

def FrameStep.Fits (n : Nat) : FrameStep → Prop
  | value v => v.Fits n
  | push frames => ∀ frame ∈ frames, frame.Fits n
  | suspend _ frame => frame.Fits n
  | fail f => f.error.Fits n

def TaskStep.Fits (n : Nat) : TaskStep → Prop
  | complete v => v.Fits n
  | suspend _ body => body.Fits n
  | fail f => f.error.Fits n

namespace FrameStep

variable {env : Env}

theorem fits_two {first second : TaskFrame} (h : first.Fits n) (h' : second.Fits n) :
    Fits n (.push [first, second]) :=
  List.forall_mem_cons.2 ⟨h, List.forall_mem_singleton.2 h'⟩

/-- The frames that a block pushes. -/
theorem ofStatements_fits {e : Expr} {next : Nat} {left : List Stmt × Option Expr}
    (he : e.Placed true) (hleft : e.statements next = .ok left) (henv : AllFit n env.values) :
    (ofStatements e env next left.1 left.2).Fits n := by
  obtain ⟨hstmts, htail⟩ := he.of_statements hleft
  obtain ⟨stmts, tail⟩ := left
  cases stmts with
  | nil => cases tail with
    | none => exact Value.every_void
    | some last => exact List.forall_mem_singleton.2 ⟨htail last rfl, henv⟩
  | cons stmt rest =>
    have hstmt := hstmts stmt (.head _)
    have hnext := Expr.statements_succ hleft
    cases stmt with
    | bind span pattern ty first =>
      exact fits_two ⟨hstmt, henv⟩ ⟨⟨he, ⟨_, hnext⟩, _, Expr.letAt_of_statements hleft⟩, henv⟩
    | expr first => exact fits_two ⟨hstmt, henv⟩ ⟨⟨he, ⟨_, hnext⟩, trivial⟩, henv⟩

/-- The first operand is on its way. -/
theorem ofParts_fits {e : Expr} (hfrom : e.isFromParts = true)
    (hparts : ∀ part ∈ e.operands, part.Placed true) (henv : AllFit n env.values) :
    Except.All (Fits n) (ofParts e env) := by
  rw [ofParts]
  cases hops : e.operands with
  | nil => exact .error _
  | cons first rest =>
    have hfirst : first.Placed true := hparts first (hops ▸ List.mem_cons_self)
    refine .ok (fits_two ⟨hfirst, henv⟩ ⟨hfrom, henv, AllEvery.nil, hparts, ?_⟩)
    rw [hops, List.length_nil, List.length_cons]
    omega

/-- The frames that an expression pushes. -/
theorem ofExpr_fits {allowed : Bool} {e : Expr} (he : e.Placed allowed) (hallowed : allowed = true)
    (henv : AllFit n env.values) : Except.All (Fits n) (ofExpr e env) := by
  subst hallowed
  have hplaced := he
  cases he with
  | literal | name | closure | async => exact .error _
  | parts hfrom hparts =>
    rw [Expr.ofExpr_of_isFromParts hfrom]
    exact ofParts_fits hfrom hparts henv
  | logical hop hlhs _ =>
    rw [ofExpr, if_pos hop]
    exact .ok (fits_two ⟨hlhs, henv⟩ ⟨⟨hplaced, _, rfl⟩, henv⟩)
  | branch htest _ _ => exact .ok (fits_two ⟨htest, henv⟩ ⟨⟨hplaced, _, rfl⟩, henv⟩)
  | cases hscrutinee _ _ _ =>
    exact .ok (fits_two ⟨hscrutinee, henv⟩ ⟨⟨hplaced, _, rfl⟩, henv⟩)
  | block hstmts htail => exact .ok (ofStatements_fits hplaced rfl henv)
  | await span hfuture => exact .ok (fits_two ⟨hfuture, henv⟩ trivial)
  | attempt span hinner => exact .ok (fits_two ⟨hinner, henv⟩ trivial)

end FrameStep

namespace Recur.Secure

variable {r r' : Recur γ} (h : r.Secure r')
include h

theorem stepFrame {frame : TaskFrame} (hframe : frame.Fits n) {v : Value} (hv : v.Fits n) :
    Run.Secure n FrameStep.Fits (r.stepFrame frame v) (r'.stepFrame frame v) := by
  have hgive : ∀ {m : Nat} {x y : Run γ Value}, Run.Secure m Value.Fits x y →
      Run.Secure m FrameStep.Fits (do return .value (← x)) (do return .value (← y)) :=
    fun hxy => .bind hxy fun _ _ w hw => .pure fun _ hk => hw.mono hk
  have htruth : ∀ (what : Condition) (line : Nat),
      Run.Secure n Run.Anything ((Run.truth (γ := γ) what v).located line)
        ((Run.truth what v).located line) :=
    fun what line => .located (Run.truth_secure what v) line
  cases frame with
  | eval e env =>
    obtain ⟨he, henv⟩ := hframe
    rw [Recur.stepFrame, Recur.stepFrame]
    cases hwaits : e.suspends with
    | true =>
      obtain ⟨step, hstep⟩ := Expr.ofExpr_of_suspends hwaits env
      refine .ofExcept (fun _ hm => FrameStep.ofExpr_fits he rfl (henv.mono hm)) ?_
      rw [hstep]
      exact .ok step
    | false => exact hgive (h.eval (he.of_not_suspends hwaits) henv)
  | operand e env done =>
    obtain ⟨hfrom, henv, hdone, hparts, hlen⟩ := hframe
    have hmore : AllFit n (v :: done) := .cons hv hdone
    have hleft : (e.operands.drop (done.length + 1)).length =
        e.operands.length - (done.length + 1) := List.length_drop
    cases hrest : e.operands.drop (done.length + 1) with
    | nil =>
      rw [stepFrame_operand_of_last hrest, stepFrame_operand_of_last hrest]
      have hcount : (v :: done).reverse.length = e.operands.length := by
        rw [hrest, List.length_nil] at hleft
        rw [List.length_reverse, List.length_cons]
        omega
      exact hgive (.located (h.combine hfrom henv hcount hmore.reverse) _)
    | cons next rest =>
      rw [stepFrame_operand_of_next hrest, stepFrame_operand_of_next hrest]
      have hnext := hparts next (Expr.mem_operands_of_drop hrest)
      refine .pure fun _ hm => FrameStep.fits_two ⟨hnext, henv.mono hm⟩
        ⟨hfrom, henv.mono hm, hmore.mono hm, hparts, ?_⟩
      rw [hrest, List.length_cons] at hleft
      rw [List.length_cons]
      omega
  | branch e env =>
    obtain ⟨⟨he, branches, hbranches⟩, henv⟩ := hframe
    obtain ⟨span, test, rfl⟩ := Expr.branches_eq_ok hbranches
    cases he with
    | parts hfrom _ => cases hfrom
    | branch _ htrue hfalse =>
      rw [stepFrame_branch, stepFrame_branch]
      refine .bind (htruth _ span.line) fun _ hm b _ => ?_
      have hone : ∀ {e : Expr} (k : Nat), _ ≤ k → e.Placed true →
          FrameStep.Fits k (.push [.eval e env]) :=
        fun k hk he => List.forall_mem_singleton.2 ⟨he, henv.mono (Nat.le_trans hm hk)⟩
      cases b with
      | true => exact .pure fun k hk => hone k hk htrue
      | false =>
        obtain ⟨whenTrue, whenFalse⟩ := branches
        cases whenFalse with
        | none => exact .pure fun _ _ => Value.every_void
        | some other => exact .pure fun k hk => hone k hk (hfalse other rfl)
  | arms e env =>
    obtain ⟨⟨he, clauses, hclauses⟩, henv⟩ := hframe
    obtain ⟨span, scrutinee, rfl⟩ := Expr.clauses_eq_ok hclauses
    cases he with
    | parts hfrom _ => cases hfrom
    | cases _ hguards hbodies hopen =>
      rw [stepFrame_arms, stepFrame_arms]
      refine .bind (.located (h.selectArm hv hguards hbodies hopen henv) span.line) ?_
      exact fun _ _ taken htaken => .pure fun _ hm =>
        List.forall_mem_singleton.2 ⟨htaken.1, AllEvery.mono htaken.2 hm⟩
  | logic e env right =>
    obtain ⟨⟨he, operation, hoperation⟩, henv⟩ := hframe
    obtain ⟨span, lhs, rfl⟩ := Expr.operation_eq_ok hoperation
    have hrhs : operation.2.Placed true := by
      cases he with
      | parts _ hparts => exact hparts _ (.tail _ (.head _))
      | logical _ _ hrhs => exact hrhs
    rw [stepFrame_logic, stepFrame_logic]
    refine .bind (htruth _ span.line) fun _ hm b _ => ?_
    split
    · exact .pure fun _ _ => Value.every_bool b
    · exact .pure fun _ hk => FrameStep.fits_two ⟨hrhs, henv.mono (Nat.le_trans hm hk)⟩
        ⟨⟨he, _, rfl⟩, henv.mono (Nat.le_trans hm hk)⟩
  | block e env next pending =>
    obtain ⟨⟨he, ⟨left, hleft⟩, hpending⟩, henv⟩ := hframe
    cases pending with
    | bind index =>
      obtain ⟨binding, hbinding⟩ := hpending
      rw [stepFrame_bind hbinding hleft, stepFrame_bind hbinding hleft]
      exact .bind (h.bindLet _ _ _ hv henv) fun _ _ env' henv' => .pure fun _ hm =>
        FrameStep.ofStatements_fits he hleft (AllEvery.mono henv' hm)
    | discard =>
      rw [stepFrame_discard hleft, stepFrame_discard hleft]
      exact .pure fun _ hm => FrameStep.ofStatements_fits he hleft (henv.mono hm)
  | await line =>
    cases v with
    | future id =>
      exact .pure fun _ hm => List.forall_mem_singleton.2
        (Nat.lt_of_lt_of_le (Value.every_future.1 hv) hm)
    | _ => exact .failAt rfl line
  | resume id line =>
    refine .bind (Run.observe_secure hframe) fun _ hm found hfound => ?_
    obtain ⟨state, rfl, hstate⟩ := hfound
    cases state with
    | pending =>
      exact .pure fun _ hk => Nat.lt_of_lt_of_le hframe (Nat.le_trans hm hk)
    | resolved w => exact .pure fun _ hk => Value.Every.mono hstate hk
    | failed f =>
      refine .pure fun _ hk => ?_
      have hf : f.error.Fits _ := Value.Every.mono hstate hk
      dsimp only [FrameStep.Fits]
      split <;> exact hf
  | attempt line => exact hgive (Run.attempt_secure hv line)

/-- The whole stack is secure, since every frame is. -/
theorem runStack (module : Nat) (root : Bool) (fuel : Nat) {frames : List TaskFrame}
    (hframes : ∀ frame ∈ frames, frame.Fits n) {v : Value} (hv : v.Fits n) :
    Run.Secure n TaskStep.Fits (r.runStack module root fuel frames v)
      (r'.runStack module root fuel frames v) := by
  induction fuel generalizing n frames v with
  | zero => exact .exhausted
  | succ fuel ih =>
    cases frames with
    | nil => exact .pure fun _ hm => hv.mono hm
    | cons frame stack =>
      obtain ⟨hframe, hstack⟩ := List.forall_mem_cons.1 hframes
      refine .bind (h.stepFrame hframe hv) fun m hm step hstep => ?_
      have hstack' : ∀ frame ∈ stack, frame.Fits m :=
        fun frame hmem => (hstack frame hmem).mono hm
      cases step with
      | value w => exact ih hstack' hstep
      | push pushed => exact ih (List.forall_mem_append.2 ⟨hstep, hstack'⟩) Value.every_void
      | suspend on frame =>
        have hbody : TaskBody.Fits m (.machine ⟨frame :: stack, module, root⟩) :=
          List.forall_mem_cons.2 ⟨hstep, hstack'⟩
        exact .pure fun _ hk => TaskBody.Fits.mono hk hbody
      | fail f => exact .pure fun _ hk => Value.Every.mono hstep hk

theorem runMachine {m : TaskMachine} (hm : ∀ frame ∈ m.stack, frame.Fits n) :
    Run.Secure n TaskStep.Fits (r.runMachine m) (r'.runMachine m) := by
  unfold Recur.runMachine
  rw [h.fuel]
  exact Run.inModule_secure _ (h.runStack _ _ _ hm Value.every_void)

omit h in
theorem follow {source : FutureId} (hsource : source < n) :
    Run.Secure n TaskStep.Fits (Recur.follow (γ := γ) source) (Recur.follow source) := by
  refine .bind (Run.observe_secure hsource) fun _ hm found hfound => ?_
  obtain ⟨state, rfl, hstate⟩ := hfound
  cases state with
  | pending => exact .pure fun _ hk => Nat.lt_of_lt_of_le hsource (Nat.le_trans hm hk)
  | resolved v => exact .pure fun _ hk => Value.Every.mono hstate hk
  | failed f => exact .pure fun _ hk => Value.Every.mono hstate hk

theorem handle {handler argument : Value} (hhandler : handler.Fits n)
    (hargument : argument.Fits n) :
    Run.Secure n TaskStep.Fits (r.handle handler argument) (r'.handle handler argument) := by
  refine .bind (h.callOne hhandler hargument) fun _ _ v hv => ?_
  cases v with
  | future next => exact follow (Value.every_future.1 hv)
  | _ => exact .pure fun _ hk => hv.mono hk

omit h in
theorem collect {sources : List FutureId} (hsources : ∀ source ∈ sources, source < n)
    {values : List Value} (hvalues : AllFit n values) :
    Run.Secure n TaskStep.Fits (Recur.collect (γ := γ) sources values)
      (Recur.collect sources values) := by
  induction sources generalizing n values with
  | nil => exact .pure fun _ hm => Value.every_list.2 (hvalues.reverse.mono hm)
  | cons source rest ih =>
    obtain ⟨hsource, hrest⟩ := List.forall_mem_cons.1 hsources
    refine .bind (Run.observe_secure hsource) fun m hm found hfound => ?_
    obtain ⟨state, rfl, hstate⟩ := hfound
    cases state with
    | pending =>
      have hwait : Combinator.Fits n (.all (source :: rest) values) := ⟨hsources, hvalues⟩
      exact .pure fun _ hk => Combinator.Fits.mono (Nat.le_trans hm hk) hwait
    | resolved v =>
      exact ih (fun id hid => Nat.lt_of_lt_of_le (hrest id hid) hm)
        (AllEvery.cons hstate (hvalues.mono hm))
    | failed f => exact .pure fun _ hk => Value.Every.mono hstate hk

theorem runCombinator {c : Combinator} (hc : c.Fits n) :
    Run.Secure n TaskStep.Fits (r.runCombinator c) (r'.runCombinator c) := by
  have hwait : ∀ {m : Nat} (source : FutureId), n ≤ m → Run.Secure m TaskStep.Fits
      (pure (.suspend source (.combinator c)) : Run γ TaskStep)
      (pure (.suspend source (.combinator c))) :=
    fun _ hm => .pure fun _ hk => Combinator.Fits.mono (Nat.le_trans hm hk) hc
  have hgive : ∀ {m : Nat} {v : Value}, v.Fits m → Run.Secure m TaskStep.Fits
      (pure (.complete v) : Run γ TaskStep) (pure (.complete v)) :=
    fun hv => .pure fun _ hk => hv.mono hk
  cases c with
  | forward source => exact follow hc
  | all sources values => exact collect hc.1 hc.2
  | onError source handler =>
    refine .bind (Run.observe_secure hc.1) fun _ hm found hfound => ?_
    obtain ⟨state, rfl, hstate⟩ := hfound
    have hhandler := hc.2.mono hm
    cases state with
    | pending => exact hwait source hm
    | resolved v => cases v with
      | err error => exact h.handle hhandler (Value.every_err.1 hstate)
      | _ => exact hgive hstate
    | failed f => exact h.handle hhandler hstate
  | onComplete source handler =>
    refine .bind (Run.observe_secure hc.1) fun _ hm found hfound => ?_
    obtain ⟨state, rfl, hstate⟩ := hfound
    have hhandler := hc.2.mono hm
    cases state with
    | pending => exact hwait source hm
    | resolved v => cases v with
      | ok w => exact h.handle hhandler hstate
      | err error => exact h.handle hhandler hstate
      | _ => exact h.handle hhandler (Value.every_ok.2 hstate)
    | failed f => exact h.handle hhandler (Value.every_err.2 hstate)
  | andThen source handler =>
    refine .bind (Run.observe_secure hc.1) fun _ hm found hfound => ?_
    obtain ⟨state, rfl, hstate⟩ := hfound
    cases state with
    | pending => exact hwait source hm
    | resolved v => exact h.handle (hc.2.mono hm) hstate
    | failed f => exact .pure fun _ hk => Value.Every.mono hstate hk

/-- No slice of a task ends with an internal fault. -/
theorem runBodyOf {body : TaskBody} (hbody : body.Fits n) :
    Run.Secure n TaskStep.Fits (r.runBodyOf body) (r'.runBodyOf body) := by
  cases body with
  | machine m => exact h.runMachine hbody
  | combinator c => exact h.runCombinator hbody

end Recur.Secure

end StreamLang
