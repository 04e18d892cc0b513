import StreamLang.Proofs.Combinators.Slice
import StreamLang.Proofs.Scheduler.Waiting
import StreamLang.Proofs.Service.Replies

/-! Courses on which a task goes on by slices of its own. Whatever else happens, the task waits where
it waited until that is settled, and then it is active again; so a combinator stands, at any time,
where its slices and the states of the futures have brought it. -/

namespace StreamLang

variable {γ : Type}

namespace Interpreter

variable [Gateway γ] {s t : Interpreter γ} {out out' : List (Task TaskBody)} {f : FutureId}
  {c : Option Completion}

/-- A move that does not hand the task of the future back. -/
theorem Move.spares (h : s.Move out c t out') (hs : s.Orderly out) (howned : s.scheduler.Owns out f)
    (hout : ∀ task ∈ out, task.future = f → task ∈ out') :
    Scheduler.Spares f s.scheduler out t.scheduler out' := by
  have hinvariant := hs.reached.invariant
  have hother {before after : List (Task TaskBody)} {task : Task TaskBody}
      (hreached : s.scheduler.Reached (before ++ task :: after))
      (hrest : ∀ o ∈ before ++ task :: after, o.future = f → o ∈ before ++ after) :
      f ≠ task.future := by
    rintro rfl
    have hmem : task ∈ before ++ task :: after := List.mem_append_right _ List.mem_cons_self
    exact hreached.not_owns ⟨task, .inl (hrest task hmem rfl), rfl⟩
  cases h with
  | inside houtside =>
    have hsame : t.scheduler = s.scheduler := congrArg Outside.scheduler houtside
    rw [hsame]
    exact .refl
  | markObserved id => exact .markObserved id
  | settledFuture state hsettled =>
    have hne : f ≠ s.scheduler.createFuture.1 := Nat.ne_of_lt (hs.owned_lt f howned)
    exact .trans .createFuture (.settle hinvariant.createFuture hne state fun _ h _ => h)
  | spawn body => exact .spawn hinvariant body
  | dispatch op args =>
    cases hreply : Gateway.dispatch ⟨s.nextRequest, op, args⟩ s.gateway with
    | mk reply gateway => cases reply with
      | ok _ =>
        rw [Run.dispatch_of_ok hreply]
        exact .createFuture
      | error message =>
        rw [Run.dispatch_of_error hreply]
        exact .refl
  | take hnext => exact .take hinvariant hnext
  | idle hnext => exact .idle hinvariant hnext
  | suspend body on => exact .suspend hinvariant (hother hs.reached hout).symm body on
  | complete v => exact .settle hinvariant (hother hs.reached hout) _ hout
  | fail e => exact .settle hinvariant (hother hs.reached hout) _ hout
  | @answer _ d gateway hpoll =>
    cases hfind : s.requests.find? (·.request == d.id) with
    | none =>
      rw [Run.receive_of_none (s := { s with gateway }) hfind]
      exact .refl
    | some o =>
      have hne : f ≠ o.future := by
        rintro rfl
        exact hs.foreign o (hs.find?_eq_some.1 hfind).1 howned
      rw [Run.receive_of_some (s := { s with gateway }) hfind]
      exact .settle hinvariant hne _ fun _ h _ => h
  | poll hpoll hnone => exact .refl
  | wait hwait => exact .refl

omit [Gateway γ] in
/-- A future that belongs to no task will belong to none. -/
theorem Effect.not_owns (h : s.Effect out c t out') (hf : f < s.scheduler.futures.size)
    (hnot : ¬ s.scheduler.Owns out f) : ¬ t.scheduler.Owns out' f := by
  intro howns
  cases h with
  | passes _ hscheduler =>
    rcases hscheduler.owner f howns with hold | ⟨hnew, -⟩
    · exact hnot hold
    · exact absurd hf (Nat.not_lt.2 hnew)
  | sent op hscheduler =>
    rw [hscheduler] at howns
    exact hnot howns
  | answered _ hscheduler =>
    rw [hscheduler] at howns
    exact hnot howns.of_settle

theorem kept_orderly (out : List (Task TaskBody)) : Kept fun s : Interpreter γ => s.Orderly out :=
  kept_of_move fun hs hmove => by
    obtain ⟨_, hmove⟩ := hmove out
    exact hs.effect (hmove.effect hs.reached)

/-- A course on which the task of a future goes on by its own slices alone, with the calls of handlers
in them. -/
inductive TaskCourse (f : FutureId) (s : Interpreter γ) (out : List (Task TaskBody)) :
    List (HandlerCall γ) → Interpreter γ → List (Task TaskBody) → Prop
  | refl : TaskCourse f s out [] s out
  /-- Anything else happens. -/
  | move {calls : List (HandlerCall γ)} {t u : Interpreter γ} {out' out'' : List (Task TaskBody)}
      {c : Option Completion} (h : TaskCourse f s out calls t out') (hmove : t.Move out' c u out'')
      (hout : ∀ task ∈ out', task.future = f → task ∈ out'') : TaskCourse f s out calls u out''
  | slice {calls : List (HandlerCall γ)} {t u : Interpreter γ} {before after : List (Task TaskBody)}
      {task : Task TaskBody} (h : TaskCourse f s out calls t (before ++ task :: after))
      (hfuture : task.future = f) (fuel : Nat)
      (hrun : (Recur.ofFuel fuel).runTask task t = .ok () u) :
    TaskCourse f s out (calls ++ (Recur.ofFuel fuel).handlerCalls task.body t) u (before ++ after)

end Interpreter

namespace Combinator

/-- The combinator has come to its end, and its task is gone; or the task waits for the next of the
futures it follows. -/
def Rests (c : Combinator) (f : FutureId) (s : Scheduler TaskBody) (out : List (Task TaskBody))
    (calls : List (HandlerCall γ)) : Prop :=
  (∃ state, s.futures.state? f = some state ∧ c.Ends s.futures calls state ∧ ¬ s.Owns out f) ∨
    ∃ b on, c.Ahead s.futures calls b ∧ b.sources.head? = some on ∧ s.Waits f (.combinator b) on

/-- It rests, or its task is active. -/
def Stands (c : Combinator) (f : FutureId) (s : Scheduler TaskBody) (out : List (Task TaskBody))
    (calls : List (HandlerCall γ)) : Prop :=
  c.Rests f s out calls ∨ ∃ b, c.Ahead s.futures calls b ∧ s.Active out f (.combinator b)

variable {c b : Combinator} {f : FutureId} {calls : List (HandlerCall γ)} {s t u : Interpreter γ}
  {out out' before after : List (Task TaskBody)} {task : Task TaskBody}

theorem Slices.runSlice {r : Recur γ} (h : c.Slices calls (r.runCombinator b s)) :
    (∃ step t, r.runSlice (.combinator b) s = .ok step t ∧
      c.Goes t.scheduler.futures calls step) ∨
    ∃ call ∈ calls, ∃ u t, call.result = .error u t ∧ u.taskStep? false = none ∧
      r.runSlice (.combinator b) s = .error u t := by
  unfold Recur.runSlice
  dsimp only [Recur.runBodyOf, TaskBody.isRoot]
  cases hrun : r.runCombinator b s with
  | ok step t =>
    rw [hrun] at h
    exact .inl ⟨step, t, rfl, h⟩
  | error u t =>
    rw [hrun] at h
    dsimp only [Slices] at h ⊢
    cases hstep : u.taskStep? false with
    | some step =>
      rw [hstep] at h
      exact .inl ⟨step, t, rfl, h⟩
    | none =>
      rw [hstep] at h
      obtain ⟨call, hmem, hresult⟩ := h
      exact .inr ⟨call, hmem, u, t, hresult, hstep, rfl⟩

/-- When its task is handed back, a combinator rests. -/
theorem Goes.rests {step : TaskStep} (h : c.Goes u.scheduler.futures calls step)
    (hu : u.scheduler.Reached (before ++ task :: after))
    (hpending : u.scheduler.futures.state? task.future = some .pending) :
    c.Rests task.future (u.scheduler.handBack task step) (before ++ after) calls := by
  have hgone := hu.not_owns
  cases h with
  | complete hends =>
    exact .inl ⟨_, Scheduler.state?_settle_self hpending _,
      hends.later (Scheduler.later_settle _ _ _), fun howns => hgone howns.of_settle⟩
  | fail hends =>
    exact .inl ⟨_, Scheduler.state?_settle_self hpending _,
      hends.later (Scheduler.later_settle _ _ _), fun howns => hgone howns.of_settle⟩
  | @suspend b on hahead hsource hon =>
    exact .inr ⟨b, on, hahead.later (Scheduler.later_suspend _ _ on), hsource,
      Scheduler.waits_suspend task _ hpending hon⟩

variable [Gateway γ] {d : Option Completion}

theorem Stands.move (h : c.Stands f s.scheduler out calls) (hs : s.Orderly out)
    (hmove : s.Move out d t out') (hout : ∀ task ∈ out, task.future = f → task ∈ out') :
    c.Stands f t.scheduler out' calls := by
  have heffect := hmove.effect hs.reached
  have hlater := heffect.later
  rcases h with (⟨state, hstate, hends, hgone⟩ | ⟨b, on, hahead, hsource, hwaits⟩) |
    ⟨b, hahead, hactive⟩
  · have hf := FutureTable.lt_size_of_state? hstate
    exact .inl (.inl ⟨state, hlater.settled hends.settled hstate, hends.later hlater,
      heffect.not_owns hf hgone⟩)
  · rcases (hmove.spares hs hwaits.owns hout).waits hwaits with hwaits | hactive
    · exact .inl (.inr ⟨b, on, hahead.later hlater, hsource, hwaits⟩)
    · exact .inr ⟨b, hahead.later hlater, hactive⟩
  · exact .inr ⟨b, hahead.later hlater, (hmove.spares hs hactive.owns hout).active hactive⟩

/-- A task that is taken out is active, and a slice of it brings the combinator to rest, unless a call
of the handler is cut off in it. -/
theorem Stands.slice (h : c.Stands f s.scheduler (before ++ task :: after) calls)
    (hfuture : task.future = f) (hs : s.Orderly (before ++ task :: after))
    (hsources : ∀ g ∈ c.sources, g < s.scheduler.futures.size) (fuel : Nat) :
    ∃ b, task.body = .combinator b ∧
      ((∃ t, (Recur.ofFuel fuel).runTask task s = .ok () t ∧ t.Orderly (before ++ after) ∧
        s.scheduler.futures.size ≤ t.scheduler.futures.size ∧
        c.Rests f t.scheduler (before ++ after)
          (calls ++ (Recur.ofFuel fuel).handlerCalls task.body s)) ∨
      ∃ call ∈ (Recur.ofFuel fuel).handlerCalls task.body s, ∃ u t,
        call.result = .error u t ∧ u.taskStep? false = none ∧
        (Recur.ofFuel fuel).runTask task s = .error u t) := by
  subst hfuture
  have hmem : task ∈ before ++ task :: after := List.mem_append_right _ List.mem_cons_self
  rcases h with (⟨state, -, -, hgone⟩ | ⟨b, on, -, -, hwaits⟩) | ⟨b, hahead, hactive⟩
  · exact absurd ⟨task, .inl hmem, rfl⟩ hgone
  · exact absurd hwaits fun hwaits => hwaits.not_out hs.reached
  · have hbody := hactive.body_eq hs.reached
    refine ⟨b, hbody, ?_⟩
    rw [hbody]
    have hslices := hahead.slices (r := Recur.ofFuel fuel) hsources fun g args t =>
      .of_state? (((Recur.keeps_call (Interpreter.kept_extends t) fuel g args).endState
        (Interpreter.Extends.refl t)).futures)
    rcases hslices.runSlice with ⟨step, t, hrun, hgoes⟩ | ⟨call, hcall, u, t, hresult, hstep, hrun⟩
    · have hextends := Recur.keeps_runSlice (Interpreter.kept_extends s) fuel (.combinator b) s
        (.refl s)
      have horderly := Recur.keeps_runSlice (Interpreter.kept_orderly _) fuel (.combinator b) s hs
      rw [hrun] at hextends horderly
      rw [← hbody] at hrun
      have heffect := (Interpreter.Move.handBack t before after task step).effect horderly.reached
      refine .inl ⟨_, Recur.runTask_of_ok hrun, horderly.effect heffect, ?_, ?_⟩
      · exact Nat.le_trans (FutureTable.Later.of_state? hextends.futures).size heffect.later.size
      · exact hgoes.rests horderly.reached (hextends.futures _ _ hactive.pending)
    · rw [← hbody] at hrun
      refine .inr ⟨call, ?_, u, t, hresult, hstep, Recur.runTask_of_error hrun⟩
      refine (List.mem_append.1 hcall).resolve_left fun hold => ?_
      obtain ⟨v, t, hok⟩ := hahead.result_ok call hold
      rw [hresult] at hok
      cases hok

end Combinator

end StreamLang
