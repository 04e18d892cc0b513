import StreamLang.Proofs.Evaluation.Evaluator
import StreamLang.Proofs.Running

/-! That a future never resolves is said in one place, the loop that works for a future, and only when a
step makes no progress while the future is pending. -/

namespace StreamLang

variable {γ α β : Type}

/-- The computation does not end with the verdict that a future never resolves. -/
def Run.Hopeful (x : Run γ α) : Prop :=
  ∀ s line t, x s ≠ .error (.fail .neverResolves line) t

namespace Run.Hopeful

theorem pure (a : α) : Hopeful (Pure.pure a : Run γ α) := by rintro _ _ _ ⟨⟩

theorem failAt {fault : Fault} {line : Nat} (h : fault.isVerdict = false) :
    Hopeful (Eval.failAt fault line : Run γ α) := by
  rintro s _ _ ⟨⟩
  cases h

theorem fail {fault : Fault} (h : fault.isVerdict = false) : Hopeful (Eval.fail fault : Run γ α) :=
  failAt h

theorem modifyGet (f : Interpreter γ → α × Interpreter γ) :
    Hopeful (MonadStateOf.modifyGet f : Run γ α) := by rintro _ _ _ ⟨⟩

theorem get_bind {f : Interpreter γ → Run γ α} (h : ∀ s, Hopeful (f s)) : Hopeful (get >>= f) :=
  fun s => h s s

theorem bind_of_ok {x : Run γ α} {f : α → Run γ β} (hx : Hopeful x)
    (hf : ∀ s a t, x s = .ok a t → Hopeful (f a)) : Hopeful (x >>= f) := by
  intro s line t h
  rcases Eval.bind_eq_error h with hfirst | ⟨a, s', ha, hrest⟩
  · exact hx s line t hfirst
  · exact hf s a s' ha s' line t hrest

theorem bind {x : Run γ α} {f : α → Run γ β} (hx : Hopeful x) (hf : ∀ a, Hopeful (f a)) :
    Hopeful (x >>= f) :=
  bind_of_ok hx fun _ a _ _ => hf a

theorem located {x : Run γ α} (hx : Hopeful x) (line : Nat) : Hopeful (x.located line) := by
  intro s line' t h
  unfold Eval.located at h
  cases hx' : x s with
  | ok a s' =>
    rw [hx'] at h
    cases h
  | error u s' =>
    rw [hx'] at h
    obtain ⟨hu, rfl⟩ := EStateM.Result.error.inj h
    cases u with
    | fail fault inner =>
      have hfault : fault = .neverResolves := by cases inner <;> cases hu <;> rfl
      exact hx s inner s' (hfault ▸ hx')
    | early | exhausted => cases hu

theorem restoring {x : Run γ α} (hx : Hopeful x) (restore : Interpreter γ → Interpreter γ) :
    Hopeful (x.restoring restore) := by
  intro s line t h
  unfold Eval.restoring at h
  cases hx' : x s with
  | ok a s' =>
    rw [hx'] at h
    cases h
  | error u s' =>
    rw [hx'] at h
    obtain ⟨rfl, -⟩ := EStateM.Result.error.inj h
    exact hx s line s' hx'

theorem catchEarly {x : Run γ Value} (hx : Hopeful x) : Hopeful x.catchEarly := by
  intro s line t h
  unfold Eval.catchEarly at h
  split at h
  · cases h
  · exact hx s line t h

theorem atTop {x : Run γ α} (hx : Hopeful x) (line : Nat) : Hopeful (Run.atTop line x) := by
  intro s line' t h
  unfold Run.atTop at h
  split at h
  · cases h
  · exact hx.located line s line' t h

end Run.Hopeful

namespace Run

theorem hopeful_judgement : Judgement (γ := γ) (fun _ => True) fun _ _ x => Hopeful x where
  pure := .pure
  failAt := .failAt
  exhausted := by rintro _ _ _ _ _ ⟨⟩
  early _ _ _ := by rintro _ _ _ ⟨⟩
  bind_of_ok := .bind_of_ok
  get_bind h := .get_bind fun s => h s fun _ _ _ _ => trivial
  modifyGet _ := .modifyGet _
  located := .located
  restoring h _ := h.restoring _
  catchEarly := .catchEarly
  mono h _ := h
  predicate _ h := h

theorem countStep_hopeful : Hopeful (countStep (γ := γ)) := by
  refine .bind (.modifyGet _) fun _ => .get_bind fun s => ?_
  split
  · exact .fail rfl
  · exact .pure _

theorem ofGateway_hopeful (f : γ → Except String α × γ) : Hopeful (ofGateway f) := by
  refine .bind (.modifyGet _) fun reply => ?_
  cases reply with
  | ok a => exact .pure a
  | error message => exact .fail rfl

theorem load_hopeful (u : ModuleUnit) : Hopeful (load (γ := γ) u) := by
  have hfunctions (module : Nat) (decls : List FunctionDecl) :
      Hopeful (functionGlobals (γ := γ) module decls) := by
    induction decls with
    | nil => exact .pure _
    | cons d rest ih =>
      exact .bind (.bind (.modifyGet _) fun _ => .pure _) fun _ => .bind ih fun _ => .pure _
  refine .get_bind fun s => .get_bind fun _ => .bind (hfunctions _ _) fun _ => ?_
  exact .bind (.modifyGet _) fun _ => .pure _

theorem destructure_hopeful (pattern : Pattern) (v : Value) :
    Hopeful (destructure (γ := γ) pattern v) := by
  refine .get_bind fun s => ?_
  split
  · exact .pure _
  · exact .fail rfl

end Run

open Run (Hopeful)

namespace Recur

/-- Whatever goes wrong in a slice ends its task. -/
theorem runSlice_hopeful (r : Recur γ) (body : TaskBody) : Hopeful (r.runSlice body) := by
  intro s line t h
  unfold runSlice at h
  split at h
  · cases h
  · rename_i u _ _
    cases u <;> cases h

variable [Gateway γ] (r : Recur γ)

theorem checkOptional_hopeful (fuel : Nat) (ty : Option TypeExpr) (v : Value) (line : Nat) :
    Hopeful ((ofFuel (γ := γ) fuel).checkOptional ty v line) :=
  -- the judgement has no use for its index
  @Judged.checkOptional _ _ _ _ True (ofFuel_judged Run.hopeful_judgement fuel) ty v line

theorem step_hopeful : Hopeful r.step := by
  refine .bind (.modifyGet _) fun task? => ?_
  cases task? with
  | some task =>
    refine .bind Run.countStep_hopeful fun _ => .bind ?_ fun _ => .pure _
    exact .bind (r.runSlice_hopeful task.body) fun _ => .modifyGet _
  | none =>
    refine .bind (Run.ofGateway_hopeful _) fun c? => ?_
    cases c? with
    | some c => exact .bind (.modifyGet _) fun _ => .pure _
    | none =>
      refine .get_bind fun s => ?_
      split
      · exact .bind (Run.ofGateway_hopeful _) fun _ => .pure _
      · exact .pure _

theorem drain_hopeful (bound : Nat) : Hopeful (r.drain bound) := by
  induction bound with
  | zero => rintro _ _ _ ⟨⟩
  | succ bound ih =>
    refine .bind r.step_hopeful fun moved => ?_
    split
    · exact ih
    · exact .pure _

/-- The state after so many steps. -/
def after : Nat → Interpreter γ → Interpreter γ
  | 0, s => s
  | n + 1, s => after n (endState (r.step s))

variable {r} {s t : Interpreter γ} {id : FutureId} {line line' : Nat}

theorem after_succ_of_ok {moved : Bool} (h : r.step s = .ok moved t) (n : Nat) :
    r.after (n + 1) s = r.after n t := by
  rw [after, h]
  rfl

theorem after_add (m n : Nat) (s : Interpreter γ) : r.after (m + n) s = r.after n (r.after m s) := by
  induction m generalizing s with
  | zero => rw [Nat.zero_add, after]
  | succ m ih => rw [Nat.succ_add, after, after, ih]

/-- Before the verdict the future was pending after each step, and the next step made no progress. -/
theorem pending_of_verdict {bound : Nat}
    (h : r.settle line id bound s = .error (.fail .neverResolves line') t) :
    line' = line ∧ ∃ n, (∀ k ≤ n, (r.after k s).scheduler.futures.state? id = some .pending) ∧
      r.step (r.after n s) = .ok false t := by
  induction bound generalizing s with
  | zero => cases h
  | succ bound ih =>
    have hlook : Run.futureState? id s = .ok (s.scheduler.futures.state? id) s := rfl
    rw [settle, Eval.bind_of_ok hlook] at h
    have hpending : s.scheduler.futures.state? id = some .pending := by
      cases hstate : s.scheduler.futures.state? id with
      | none =>
        rw [hstate] at h
        cases h
      | some state =>
        rw [hstate] at h
        cases state with
        | pending => rfl
        | resolved | failed => cases h
    rw [hpending] at h
    dsimp only at h
    cases hstep : r.step s with
    | error u s' =>
      have hlocated : r.step.located line s = .error (u.locate line) s' := by
        rw [Eval.located, hstep]
      rw [Eval.bind_of_error hlocated] at h
      obtain ⟨hu, -⟩ := EStateM.Result.error.inj h
      exact absurd (hu ▸ hlocated) (r.step_hopeful.located line s _ s')
    | ok moved s' =>
      have hlocated : r.step.located line s = .ok moved s' := by
        rw [Eval.located, hstep]
      rw [Eval.bind_of_ok hlocated] at h
      cases moved with
      | true =>
        obtain ⟨hline, n, hbefore, hlast⟩ := ih h
        refine ⟨hline, n + 1, fun k hk => ?_, (after_succ_of_ok hstep n).symm ▸ hlast⟩
        cases k with
        | zero => exact hpending
        | succ k =>
          rw [after_succ_of_ok hstep]
          exact hbefore k (Nat.le_of_succ_le_succ hk)
      | false =>
        cases h
        refine ⟨rfl, 0, fun k hk => ?_, hstep⟩
        rw [Nat.le_zero.1 hk]
        exact hpending

end Recur

end StreamLang
