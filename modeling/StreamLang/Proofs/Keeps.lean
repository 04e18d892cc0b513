import StreamLang.Execution
import StreamLang.Proofs.Delivers

/-! What a computation leaves in the state, and properties of states that it keeps, however it ends. -/

namespace StreamLang

variable {γ α β : Type}

/-- What only futures, tasks and services use. -/
structure Outside (γ : Type) where
  scheduler : Scheduler TaskBody
  gateway : γ
  requests : List Outstanding
  nextRequest : RequestId

def Interpreter.outside (s : Interpreter γ) : Outside γ :=
  ⟨s.scheduler, s.gateway, s.requests, s.nextRequest⟩

/-- The state in which a computation ends. -/
def endState {α : Type} : EStateM.Result Unwind (Interpreter γ) α → Interpreter γ
  | .ok _ s => s
  | .error _ s => s

namespace Run

variable [Gateway γ] {op : ServiceOp} {args : List Json} {s : Interpreter γ} {gateway : γ}

/-- A request that the provider takes gets a future of its own. -/
theorem dispatch_of_ok
    (h : Gateway.dispatch ⟨s.nextRequest, op, args⟩ s.gateway = (.ok (), gateway)) :
    dispatch op args s = .ok s.scheduler.futures.size
      { s with
        gateway
        nextRequest := s.nextRequest + 1
        scheduler := s.scheduler.createFuture.2
        requests := s.requests ++ [⟨s.nextRequest, s.scheduler.futures.size, op⟩] } := by
  simp [dispatch, withScheduler, Scheduler.createFuture, Eval.modify_apply, Eval.modifyGet_apply,
    bind, EStateM.bind, pure, EStateM.pure, h]

/-- A request that it refuses leaves nothing behind but its number. -/
theorem dispatch_of_error {message : String}
    (h : Gateway.dispatch ⟨s.nextRequest, op, args⟩ s.gateway = (.error message, gateway)) :
    dispatch op args s = .error (.fail (.gatewayFailure message) 0)
      { s with gateway, nextRequest := s.nextRequest + 1 } := by
  simp [dispatch, Eval.modifyGet_apply, Eval.fail_apply, bind, EStateM.bind, h]

omit [Gateway γ] in
theorem ofGateway_of_ok {f : γ → Except String α × γ} {a : α} (h : f s.gateway = (.ok a, gateway)) :
    ofGateway f s = .ok a { s with gateway } := by
  simp [ofGateway, Eval.modifyGet_apply, bind, EStateM.bind, pure, EStateM.pure, h]

omit [Gateway γ] in
theorem ofGateway_of_error {f : γ → Except String α × γ} {message : String}
    (h : f s.gateway = (.error message, gateway)) :
    ofGateway f s = .error (.fail (.gatewayFailure message) 0) { s with gateway } := by
  simp [ofGateway, Eval.modifyGet_apply, Eval.fail_apply, bind, EStateM.bind, h]

end Run

/-- In a state as `P` says the computation ends with a value as `Q` says, or unwinds in a state as `E`
says. -/
def Run.Leads (E P : Interpreter γ → Prop) (x : Run γ α) (Q : α → Interpreter γ → Prop) : Prop :=
  ∀ s, P s → match x s with
    | .ok a t => Q a t
    | .error _ t => E t

/-- The computation keeps the property, however it ends. -/
abbrev Run.Keeps (P : Interpreter γ → Prop) (x : Run γ α) : Prop := x.Leads P P fun _ => P

namespace Run

variable {E P : Interpreter γ → Prop} {Q : α → Interpreter γ → Prop} {R : β → Interpreter γ → Prop}

theorem keeps_of_endState {x : Run γ α} (h : ∀ s, P s → P (endState (x s))) : Keeps P x := by
  intro s hs
  have hend := h s hs
  cases hx : x s with
  | ok a t =>
    rw [hx] at hend
    exact hend
  | error u t =>
    rw [hx] at hend
    exact hend

theorem Leads.endState {x : Run γ α} (h : Leads E P x fun _ => E) {s : Interpreter γ} (hs : P s) :
    E (endState (x s)) := by
  have hend := h s hs
  cases hx : x s with
  | ok a t =>
    rw [hx] at hend
    exact hend
  | error u t =>
    rw [hx] at hend
    exact hend

namespace Leads

theorem of_ok {x : Run γ α} (h : Leads E P x Q) {s t : Interpreter γ} {a : α} (hs : P s)
    (hx : x s = .ok a t) : Q a t := by
  have hend := h s hs
  rwa [hx] at hend

theorem pure {a : α} (h : ∀ s, P s → Q a s) : Leads E P (Pure.pure a) Q := h

theorem throw (u : Unwind) (h : ∀ s, P s → E s) : Leads E P (MonadExcept.throw u : Run γ α) Q := h

theorem failAt (fault : Fault) (line : Nat) (h : ∀ s, P s → E s) :
    Leads E P (Eval.failAt fault line : Run γ α) Q := h

theorem fail (fault : Fault) (h : ∀ s, P s → E s) : Leads E P (Eval.fail fault : Run γ α) Q := h

theorem bind {x : Run γ α} {f : α → Run γ β} (hx : Leads E P x Q)
    (hf : ∀ a, Leads E (Q a) (f a) R) : Leads E P (x >>= f) R := by
  intro s hs
  have hend := hx s hs
  cases hx' : x s with
  | ok a t =>
    rw [hx'] at hend
    rw [Eval.bind_of_ok hx']
    exact hf a t hend
  | error u t =>
    rw [hx'] at hend
    rw [Eval.bind_of_error hx']
    exact hend

theorem get_bind {f : Interpreter γ → Run γ α} (h : ∀ s, P s → Leads E (fun t => t = s) (f s) Q) :
    Leads E P (get >>= f) Q :=
  fun s hs => h s hs s rfl

theorem modifyGet {f : Interpreter γ → α × Interpreter γ} (h : ∀ s, P s → Q (f s).1 (f s).2) :
    Leads E P (MonadStateOf.modifyGet f : Run γ α) Q := h

theorem modify {f : Interpreter γ → Interpreter γ} {Q : PUnit → Interpreter γ → Prop}
    (h : ∀ s, P s → Q ⟨⟩ (f s)) : Leads E P (modify f : Run γ PUnit) Q := h

theorem anything (x : Run γ α) : Leads (fun _ => True) P x fun _ _ => True := by
  intro s _
  cases x s <;> exact trivial

theorem ofGateway {f : γ → Except String α × γ}
    (hok : ∀ s a gateway, P s → f s.gateway = (.ok a, gateway) → Q a { s with gateway })
    (herror : ∀ s message gateway, P s → f s.gateway = (.error message, gateway) →
      E { s with gateway }) : Leads E P (Run.ofGateway f) Q := by
  intro s hs
  cases hreply : f s.gateway with
  | mk reply gateway => cases reply with
    | ok a =>
      rw [Run.ofGateway_of_ok hreply]
      exact hok s a gateway hs hreply
    | error message =>
      rw [Run.ofGateway_of_error hreply]
      exact herror s message gateway hs hreply

theorem weaken {E' P' : Interpreter γ → Prop} {Q' : α → Interpreter γ → Prop} {x : Run γ α}
    (h : Leads E P x Q) (hP : ∀ s, P' s → P s) (hQ : ∀ a s, Q a s → Q' a s)
    (hE : ∀ s, E s → E' s) : Leads E' P' x Q' := by
  intro s hs
  have hend := h s (hP s hs)
  cases hx : x s with
  | ok a t =>
    rw [hx] at hend
    exact hQ a t hend
  | error u t =>
    rw [hx] at hend
    exact hE t hend

theorem located {x : Run γ α} (h : Leads E P x Q) (line : Nat) : Leads E P (x.located line) Q := by
  intro s hs
  have hend := h s hs
  unfold Eval.located
  cases hx : x s with
  | ok a t =>
    rw [hx] at hend
    exact hend
  | error u t =>
    rw [hx] at hend
    exact hend

theorem atTop {x : Run γ α} (h : Leads E P x Q) (line : Nat) : Leads E P (Run.atTop line x) Q := by
  intro s hs
  have hend := h.located line s hs
  unfold Run.atTop
  cases hx : x.located line s with
  | ok a t =>
    rw [hx] at hend
    exact hend
  | error u t =>
    rw [hx] at hend
    cases u <;> exact hend

theorem forM {ι : Type} {f : ι → Run γ PUnit} {is : List ι} (h : ∀ i ∈ is, Keeps P (f i)) :
    Keeps P (is.forM f) := by
  induction is with
  | nil => exact .pure fun _ hs => hs
  | cons i is ih =>
    obtain ⟨hi, his⟩ := List.forall_mem_cons.1 h
    exact .bind hi fun _ => ih his

end Leads

end Run

end StreamLang
