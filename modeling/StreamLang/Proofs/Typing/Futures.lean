import StreamLang.Proofs.Return.Innermost
import StreamLang.Proofs.Typing.Sequences
import StreamLang.Proofs.Typing.Streams

/-! The types that the table gives to the builtins on futures. What a combinator settles with is told
when it is there; until then its task goes on by slices of its own, in turns of which each ends as its
slice does. -/

namespace StreamLang

open Ty Combinator

variable {γ : Type} [Gateway γ] {w w' : World γ} {c : Combinator} {f : FutureId} {r t : Ty}
  {calls : List (HandlerCall γ)} {fuel : Nat} {v x : Value}

/-! The slices of combinators -/

omit [Gateway γ] in
theorem endState_runSlice (r : Recur γ) (body : TaskBody) (s : Interpreter γ) :
    endState (r.runSlice body s) = endState (r.runBodyOf body s) := by
  unfold Recur.runSlice
  cases r.runBodyOf body s with
  | ok step t => rfl
  | error u t =>
    dsimp only
    cases u.taskStep? body.isRoot <;> rfl

omit [Gateway γ] in
/-- A turn ends with the end of the slice, where the task is handed back. -/
theorem exists_handBack {r : Recur γ} {task : Task TaskBody} {s u : Interpreter γ}
    (h : r.runTask task s = .ok () u) :
    ∃ step, u = { endState (r.runBodyOf task.body s) with
      scheduler := (endState (r.runBodyOf task.body s)).scheduler.handBack task step } := by
  rw [← endState_runSlice]
  cases hslice : r.runSlice task.body s with
  | ok step t =>
    rw [Recur.runTask_of_ok hslice] at h
    cases h
    exact ⟨step, rfl⟩
  | error unwind t =>
    rw [Recur.runTask_of_error hslice] at h
    cases h

namespace World

theorem onward_observed (w : World γ) (id : FutureId) :
    w.Onward (w.withState (w.state.observed id)) := Onward.refl.step (w.step_observed id)

theorem onward_follow (w : World γ) (g : FutureId) :
    w.Onward (w.withState (endState (Recur.follow g w.state))) := by
  cases hstate : w.state.scheduler.futures.state? g with
  | none =>
    rw [Recur.follow_of_none hstate]
    exact w.onward_observed g
  | some state =>
    rw [Recur.follow_of_some hstate]
    exact w.onward_observed g

theorem onward_collect (w : World γ) (sources : List FutureId) (values : List Value) :
    w.Onward (w.withState (endState (Recur.collect sources values w.state))) := by
  induction sources generalizing w values with
  | nil => exact .refl
  | cons g rest ih =>
    rw [Recur.collect, Eval.bind_of_ok (Run.observe_eq g w.state)]
    cases w.state.scheduler.futures.state? g with
    | none => exact w.onward_observed g
    | some state => cases state with
      | resolved v => exact (w.onward_observed g).trans (ih _ _)
      | _ => exact w.onward_observed g

/-- What a handler has given is there at the end of the slice. -/
theorem onward_handled {handler a : Value} {s : Interpreter γ}
    (h : callWithin fuel handler [a] w.state = .ok x s) :
    (w.withState s).Onward
      (w.withState (endState ((Recur.ofFuel fuel).handle handler a w.state))) := by
  have hcall : (Recur.ofFuel fuel).call handler [a] w.state = .ok x s := h
  rw [Recur.handle, Eval.bind_of_ok hcall]
  cases x with
  | future g => exact (w.withState s).onward_follow g
  | _ => exact .refl

theorem onward_handle (w : World γ) (handler a : Value) :
    w.Onward (w.withState (endState ((Recur.ofFuel fuel).handle handler a w.state))) := by
  cases h : callWithin fuel handler [a] w.state with
  | ok x s => exact (onward_call h).trans (onward_handled h)
  | error u s =>
    have hcall : (Recur.ofFuel fuel).call handler [a] w.state = .error u s := h
    have hstep := Step.call (w := w) fuel handler [a]
    rw [h] at hstep
    rw [Recur.handle, Eval.bind_of_error hcall]
    exact Onward.refl.step hstep

theorem onward_runCombinator (w : World γ) (c : Combinator) :
    w.Onward (w.withState (endState ((Recur.ofFuel fuel).runCombinator c w.state))) := by
  cases hhandler : c.handler? with
  | none =>
    cases c with
    | all sources values => exact w.onward_collect sources values
    | forward source => exact w.onward_follow source
    | _ => cases hhandler
  | some followed =>
    obtain ⟨source, handler⟩ := followed
    cases hstate : w.state.scheduler.futures.state? source with
    | none =>
      have hobserved := w.onward_observed source
      cases c with
      | all | forward => cases hhandler
      | _ =>
        cases hhandler
        rw [Recur.runCombinator, Eval.bind_of_ok (Run.observe_eq _ _), hstate]
        exact hobserved
    | some state => cases ha : c.argument? state with
      | none =>
        rw [Recur.runCombinator_of_none hhandler hstate ha]
        exact w.onward_observed source
      | some a =>
        rw [Recur.runCombinator_of_some hhandler hstate ha]
        exact (w.onward_observed source).trans (onward_handle _ handler a)

end World

omit [Gateway γ] in
/-- A call of the handler in a slice is the one that the slice goes on from. -/
theorem Recur.eq_of_mem_handlerCalls {r : Recur γ} {s : Interpreter γ} {call : HandlerCall γ}
    (h : call ∈ r.handlerCalls (.combinator c) s) :
    ∃ source, call.before = s.observed source ∧
      call.result = r.call call.handler [call.argument] call.before ∧
      r.runCombinator c s = r.handle call.handler call.argument call.before := by
  cases hhandler : c.handler? with
  | none =>
    simp only [handlerCalls, hhandler] at h
    cases h
  | some followed =>
    obtain ⟨source, handler⟩ := followed
    cases hstate : s.scheduler.futures.state? source with
    | none =>
      simp only [handlerCalls, hhandler, hstate] at h
      cases h
    | some state => cases ha : c.argument? state with
      | none =>
        rw [handlerCalls_of_none hhandler hstate ha] at h
        cases h
      | some a =>
        rw [handlerCalls_of_some hhandler hstate ha] at h
        cases List.mem_singleton.1 h
        exact ⟨source, rfl, rfl, runCombinator_of_some hhandler hstate ha⟩

omit [Gateway γ] in
/-- At rest, each call of the handler was asked for. -/
theorem Combinator.Rests.asks {s : Scheduler TaskBody} {out : List (Task TaskBody)}
    (h : c.Rests f s out calls) : ∀ call ∈ calls, c.Asks s.futures call := by
  rcases h with ⟨state, -, hends, -⟩ | ⟨b, on, hahead, -⟩
  · cases hends with
    | values | failure | passed => exact List.forall_mem_nil _
    | value hasks | followed hasks | lost hasks | failing hasks | early hasks =>
      exact List.forall_mem_singleton.2 hasks
  · cases hahead with
    | gather | handle => exact List.forall_mem_nil _
    | follow hasks => exact List.forall_mem_singleton.2 hasks

/-! How a combinator fares in later worlds -/

theorem conforms_future {id : FutureId} : Conforms t w (.future id) ↔
    t.base = .unknown ∨ ∃ e, t.base = .future e ∧ ∀ w' x, w.Later w' →
      w'.state.scheduler.futures.state? id = some (.resolved x) → Conforms e w' x := by
  fun_induction Ty.base t with
  | case1 name t ih => rw [Conforms, ih]
  | case2 t hnot => cases t <;> simp_all [Conforms]

theorem conforms_of_unknown (h : t.base = .unknown) : Conforms t w v := by
  rw [← conforms_base, h]
  trivial

/-- What the call gave conforms to the type, and it did not end early. -/
structure HandlerCall.Told (r : Ty) (w : World γ) (call : HandlerCall γ) : Prop where
  given : ∀ x s, call.result = .ok x s → Conforms r w x
  plain : ∀ v line s, call.result ≠ .error (.early v line) s

theorem HandlerCall.Told.later {call : HandlerCall γ} (h : call.Told r w) (hlater : w.Later w') :
    call.Told r w' := ⟨fun x s hx => (h.given x s hx).later hlater, h.plain⟩

namespace Combinator

/-- The combinator stands there after calls of its handler that gave values of the type. -/
def Tells (c : Combinator) (f : FutureId) (r : Ty) (w : World γ) : Prop :=
  ∃ calls : List (HandlerCall γ), c.Stands f w.state.scheduler w.out calls ∧
    ∀ call ∈ calls, call.Told r w

/-- The futures that the combinator follows are there, and its handler gives values of the type. -/
structure Placed (c : Combinator) (r : Ty) (w : World γ) : Prop where
  orderly : w.state.Orderly w.out
  sources : ∀ g ∈ c.sources, g < w.state.scheduler.futures.size
  /-- No predicate that is checked in a call ends the call early. -/
  plain : w.state.schemas.Predicates (¬ ·.Attempts)
  handler : ∀ source handler, c.handler? = some (source, handler) → handler.Answers 1 r w

theorem Placed.later (h : c.Placed r w) (hlater : w.Later w') : c.Placed r w' where
  orderly := hlater.orderly h.orderly
  sources g hg := Nat.lt_of_lt_of_le (h.sources g hg) (hlater.futures h.orderly).size
  plain := by
    rw [hlater.schemas]
    exact h.plain
  handler source handler hhandler := (h.handler source handler hhandler).later hlater

/-- The combinator goes on: its task is in the scheduler, or it has its turn. -/
structure Fares (c : Combinator) (f : FutureId) (r : Ty) (w : World γ) : Prop
    extends c.Placed r w where
  apart : ∀ task ∈ w.running, task.future ≠ f
  tells : c.Tells f r w
  turn : ∀ turn, w.turn = some turn → turn.task.future = f →
    c.Tells f r ⟨turn.settled, w.running, none⟩

/-- What a move keeps, if it does not hand back the task of the combinator. -/
theorem stands_move {s t : Interpreter γ} {out out' : List (Task TaskBody)} {d : Option Completion}
    (h : s.Orderly out ∧ c.Stands f s.scheduler out calls) (hmove : s.Move out d t out')
    (hout : ∀ task ∈ out, task.future = f → task ∈ out') :
    t.Orderly out' ∧ c.Stands f t.scheduler out' calls :=
  ⟨h.1.effect (hmove.effect h.1.reached), h.2.move h.1 hmove hout⟩

theorem Tells.onward (h : c.Tells f r w) (hw : w.state.Orderly w.out) (honward : w.Onward w') :
    c.Tells f r w' := by
  obtain ⟨calls, hstands, htold⟩ := h
  have hkept := honward.keeps
    (Q := fun s out => s.Orderly out ∧ c.Stands f s.scheduler out calls) ⟨hw, hstands⟩
    fun hs hmove => stands_move hs hmove fun _ htask _ => htask
  exact ⟨calls, hkept.2, fun call hcall => (htold call hcall).later honward.later⟩

/-- A turn of another task. -/
theorem Tells.turn {s : Interpreter γ} {running : List (Task TaskBody)}
    {scheduler : Scheduler TaskBody} {turn : Turn γ} (h : c.Tells f r ⟨s, running, none⟩)
    (hs : s.Orderly running) (hbegins : World.Begins s running scheduler turn)
    (hfuture : turn.task.future ≠ f) : c.Tells f r ⟨turn.settled, running, none⟩ := by
  obtain ⟨calls, hstands, htold⟩ := h
  obtain ⟨t, fuel, honward, hrun⟩ := hbegins.slice
  have hmove {s t : Interpreter γ} {out : List (Task TaskBody)} {d : Option Completion}
      (hs : s.Orderly out ∧ c.Stands f s.scheduler out calls) (hmove : s.Move out d t out) :
      t.Orderly out ∧ c.Stands f t.scheduler out calls := stands_move hs hmove fun _ h _ => h
  have htaken := stands_move (c := c) (f := f) ⟨hs, hstands⟩ (.take hbegins.next)
    fun o ho _ => .tail _ ho
  have ht := honward.keeps (Q := fun s out => s.Orderly out ∧ c.Stands f s.scheduler out calls)
    htaken hmove
  rw [honward.eq_withState] at ht
  have hsettled := World.keeps_runTask
    (Q := fun s out => s.Orderly out ∧ c.Stands f s.scheduler out calls) ht hmove
    (fun step hs => stands_move hs (.handBack _ [] running _ step) fun o ho h =>
      (List.mem_cons.1 ho).resolve_left fun heq => hfuture (heq ▸ h)) hrun
  have hturn := World.Later.refl.turn (w := ⟨s, running, none⟩) hbegins
  exact ⟨calls, hsettled.2, fun call hcall => (htold call hcall).later hturn⟩

/-- A slice of the task in its turn. -/
theorem Tells.slice {s u : Interpreter γ} {running : List (Task TaskBody)} {task : Task TaskBody}
    (h : c.Tells f r ⟨s, running, some ⟨task, u⟩⟩) (hfuture : task.future = f)
    (hplaced : c.Placed r ⟨s, running, some ⟨task, u⟩⟩)
    (hrun : (Recur.ofFuel fuel).runTask task s = .ok () u) : c.Tells f r ⟨u, running, none⟩ := by
  obtain ⟨calls, hstands, htold⟩ := h
  have hstands : c.Stands f s.scheduler ([] ++ task :: running) calls := hstands
  obtain ⟨b, hbody, ⟨u', hrun', -, -, hrests⟩ | ⟨_, _, _, _, _, _, herror⟩⟩ :=
    hstands.slice hfuture hplaced.orderly hplaced.sources fuel
  · rw [hrun] at hrun'
    cases hrun'
    let t : World γ := ⟨s, running, some ⟨task, u⟩⟩
    let last := endState ((Recur.ofFuel fuel).runCombinator b s)
    have hend : ∃ step,
        u = { last with scheduler := last.scheduler.handBack task step } := by
      obtain ⟨step, hu⟩ := exists_handBack hrun
      rw [hbody] at hu
      exact ⟨step, hu⟩
    have hfinish : (t.withState last).Later ⟨u, running, none⟩ := by
      obtain ⟨step, hu⟩ := hend
      have hlater : (t.withState last).Later ⟨last, running, some ⟨task, u⟩⟩ := .refl
      rw [hu] at hlater ⊢
      exact hlater.finish
    refine ⟨_, .inl hrests, fun call hcall => ?_⟩
    rcases List.mem_append.1 hcall with hold | hnew
    · exact (htold call hold).later ((t.onward_runCombinator b).later.trans hfinish)
    · obtain ⟨source, state, hasked, -⟩ := hrests.asks call hcall
      rw [hbody] at hnew
      obtain ⟨g, hbefore, hresult, hslice⟩ := Recur.eq_of_mem_handlerCalls hnew
      have hobserved := t.onward_observed g
      rw [← hbefore] at hobserved
      constructor
      · intro x s' hx
        rw [hresult] at hx
        have hgiven := hplaced.handler source call.handler hasked _ fuel [call.argument] x s'
          hobserved.later rfl hx
        have honward := World.onward_handled (w := t.withState call.before) hx
        rw [show endState ((Recur.ofFuel fuel).handle call.handler call.argument
          (t.withState call.before).state) = last from congrArg endState hslice.symm] at honward
        exact hgiven.later (honward.later.trans hfinish)
      · intro v line s' hearly
        rw [hresult] at hearly
        have hbeforePlain : call.before.schemas.Predicates (¬ ·.Attempts) := by
          rw [hbefore]
          exact hplaced.plain
        have hcalls : Run.EarlyOnly False
            ((Recur.ofFuel (γ := γ) fuel).call call.handler [call.argument]) :=
          (Recur.ofFuel_earlyOnly fuel).call call.handler [call.argument]
        exact (hcalls.of_early hbeforePlain hearly).1
  · rw [hrun] at herror
    cases herror

/-- A turn of the task of the combinator. -/
theorem Fares.begin {s : Interpreter γ} {running : List (Task TaskBody)}
    {scheduler : Scheduler TaskBody} {turn : Turn γ} (h : c.Fares f r ⟨s, running, none⟩)
    (hbegins : World.Begins s running scheduler turn) (hfuture : turn.task.future = f) :
    c.Tells f r ⟨turn.settled, running, none⟩ := by
  have hbegin := World.Later.refl.begin (w := ⟨s, running, none⟩) hbegins
  have hplaced := h.toPlaced.later hbegin
  obtain ⟨calls, hstands, htold⟩ := h.tells
  have htells : c.Tells f r ⟨{ s with scheduler }, running, some turn⟩ :=
    ⟨calls, hstands.move h.orderly (.take hbegins.next) fun o ho _ => .tail _ ho,
      fun call hcall => (htold call hcall).later hbegin⟩
  obtain ⟨t, fuel, honward, hrun⟩ := hbegins.slice
  have hafter := htells.onward hplaced.orderly honward
  have hplacedAfter := hplaced.later honward.later
  rw [honward.eq_withState] at hafter hplacedAfter
  exact hafter.slice hfuture hplacedAfter hrun

/-- The task of the combinator is not handed back but by its own slices. -/
theorem Fares.later (h : c.Fares f r w) (hlater : w.Later w') : c.Fares f r w' := by
  induction hlater with
  | refl => exact h
  | @step t s _ hstep ih =>
    have honward := World.Onward.refl.step hstep
    exact ⟨ih.toPlaced.later honward.later, ih.apart, ih.tells.onward ih.orderly honward, ih.turn⟩
  | @handBack s before after task _ step ih =>
    have hback := World.Later.refl.handBack (w := ⟨s, before ++ task :: after, none⟩) step
    obtain ⟨calls, hstands, htold⟩ := ih.tells
    have hstands := hstands.move ih.orderly (.handBack s before after task step)
      fun o ho hfuture => absurd hfuture (ih.apart o ho)
    refine ⟨ih.toPlaced.later hback, fun o ho => ih.apart o ?_,
      ⟨calls, hstands, fun call hcall => (htold call hcall).later hback⟩,
      fun _ h => by cases h⟩
    exact (List.mem_append.1 ho).elim (List.mem_append_left _)
      fun ho => List.mem_append_right _ (.tail _ ho)
  | @turn s running scheduler turn _ hbegins ih =>
    have hturn := World.Later.refl.turn (w := ⟨s, running, none⟩) hbegins
    refine ⟨ih.toPlaced.later hturn, ih.apart, ?_, fun _ h => by cases h⟩
    by_cases hfuture : turn.task.future = f
    · exact ih.begin hbegins hfuture
    · exact ih.tells.turn ih.orderly hbegins hfuture
  | @begin s running scheduler turn _ hbegins ih =>
    have hbegin := World.Later.refl.begin (w := ⟨s, running, none⟩) hbegins
    obtain ⟨calls, hstands, htold⟩ := ih.tells
    refine ⟨ih.toPlaced.later hbegin, ih.apart,
      ⟨calls, hstands.move ih.orderly (.take hbegins.next) fun o ho _ => .tail _ ho,
        fun call hcall => (htold call hcall).later hbegin⟩, ?_⟩
    rintro _ ⟨⟩ hfuture
    exact ih.begin hbegins hfuture
  | @finish s running task step _ ih =>
    have hfinish := World.Later.refl.finish (w := ⟨s, running,
      some ⟨task, { s with scheduler := s.scheduler.handBack task step }⟩⟩)
    refine ⟨ih.toPlaced.later hfinish, ih.apart, ?_, fun _ h => by cases h⟩
    by_cases hfuture : task.future = f
    · exact ih.turn _ rfl hfuture
    · obtain ⟨calls, hstands, htold⟩ := ih.tells
      have hs : s.Orderly (task :: running) := ih.orderly
      have hstands : c.Stands f s.scheduler (task :: running) calls := hstands
      have hmove := Interpreter.Move.handBack s [] running task step
      have hout : ∀ o ∈ task :: running, o.future = f → o ∈ running := fun o ho h =>
        (List.mem_cons.1 ho).resolve_left fun heq => hfuture (heq ▸ h)
      exact ⟨calls, hstands.move hs hmove hout, fun call hcall => (htold call hcall).later hfinish⟩

/-- The combinator has settled with a value. -/
theorem Fares.resolved (h : c.Fares f r w)
    (hf : w.state.scheduler.futures.state? f = some (.resolved x))
    (hvalues : ∀ sources vs, c = .all sources [] → List.Forall₂
      (fun g v => w.state.scheduler.futures.state? g = some (.resolved v)) sources vs →
      Conforms t w (.list vs))
    (hpassed : ∀ source handler v, c.handler? = some (source, handler) →
      w.state.scheduler.futures.state? source = some (.resolved v) →
      c.argument? (.resolved v) = none → Conforms t w v)
    (hgiven : r.Below t) (hplain : ∀ t, r.base ≠ .future t) : Conforms t w x := by
  obtain ⟨calls, hstands, htold⟩ := h.tells
  rcases hstands with (⟨state, hstate, hends, -⟩ | ⟨b, on, -, -, hwaits⟩) | ⟨b, -, hactive⟩
  · rw [hf] at hstate
    cases hstate
    cases hends with
    | values hvs => exact hvalues _ _ rfl hvs
    | passed hhandler hstate _ hother => exact hpassed _ _ _ hhandler hstate hother
    | value _ hresult _ =>
      exact ((htold _ (List.mem_singleton.2 rfl)).given _ _ hresult).below hgiven
    | followed _ hresult =>
      have hfuture := (htold _ (List.mem_singleton.2 rfl)).given _ _ hresult
      rcases conforms_future.1 hfuture with hunknown | ⟨e, he, -⟩
      · exact (conforms_of_unknown hunknown).below hgiven
      · exact absurd he (hplain e)
    | early _ hresult =>
      exact absurd hresult ((htold _ (List.mem_singleton.2 rfl)).plain _ _ _)
  · have hpending := hwaits.pending
    rw [hf] at hpending
    cases hpending
  · have hpending := hactive.pending
    rw [hf] at hpending
    cases hpending

end Combinator

/-! The builtins -/

section

open World (Brings)

variable {tys : List Ty} {args items : List Value} {op : FutureOp} {g : FutureId} {state : FutureState}

/-- A combinator that is started settles with values of the type. -/
theorem brings_spawn (hplaced : c.Placed r w)
    (hnew : ∀ futures, c.Ahead futures ([] : List (HandlerCall γ)) c)
    (hresolved : ∀ w' f x, w.Later w' → c.Fares f r w' →
      w'.state.scheduler.futures.state? f = some (.resolved x) → Conforms t w' x) :
    w.Brings (Conforms (.future t)) (do return .future (← Run.spawnCombinator c)) := by
  rintro _ _ ⟨⟩
  have hstep : w.Step { w.state with scheduler := (w.state.scheduler.spawn (.combinator c)).2 } :=
    .move (.spawn _) (.of_loaded rfl rfl)
  have honward := World.Onward.refl.step hstep
  have hold : ∀ task ∈ w.out, task.future ≠ w.state.scheduler.futures.size := by
    intro task htask
    exact Nat.ne_of_lt (hplaced.orderly.owned_lt _ ⟨task, .inl htask, rfl⟩)
  have hfares : c.Fares w.state.scheduler.futures.size r
      (w.withState { w.state with scheduler := (w.state.scheduler.spawn (.combinator c)).2 }) := by
    refine ⟨hplaced.later honward.later, fun task htask => hold task ?_,
      ⟨[], stands_new _ _ (hnew _), List.forall_mem_nil _⟩, fun turn hturn hfuture => ?_⟩
    · exact List.mem_append_right _ htask
    · refine absurd hfuture (hold turn.task (List.mem_append_left _ ?_))
      have hturn : w.turn = some turn := hturn
      rw [hturn]
      exact .head _
  refine ⟨honward, _, rfl, fun w' x hlater hstate => ?_⟩
  exact hresolved w' _ x (honward.later.trans hlater) (hfares.later hlater) hstate

/-- A future that is settled from the start. -/
theorem brings_settledFuture (hw : w.state.Orderly w.out) (hsettled : state.isPending = false)
    (h : ∀ x, state = .resolved x → Conforms t w x) :
    w.Brings (Conforms (.future t)) (Run.settledFuture state) := by
  rintro _ _ ⟨⟩
  have hstep : w.Step { w.state with scheduler :=
      w.state.scheduler.createFuture.2.settle w.state.scheduler.createFuture.1 state } :=
    .move (.settledFuture state hsettled) (.of_loaded rfl rfl)
  have honward := World.Onward.refl.step hstep
  refine ⟨honward, _, rfl, fun w' x hlater hx => ?_⟩
  have hpending : state ≠ .pending := by
    rintro rfl
    cases hsettled
  have hstate := (hlater.futures (honward.later.orderly hw)).settled hpending
    (Scheduler.state?_settle_self (FutureTable.state?_create_self _) state)
  rw [hx] at hstate
  exact (h x (Option.some.inj hstate).symm).later (honward.later.trans hlater)

/-- The row of the builtin holds for these types of the arguments: a handler takes one argument, it gives
no future, and a join is above the types that are joined. -/
def FutureOp.Sound (op : FutureOp) (args : List Ty) : Prop :=
  let first := argument args 0
  let second := argument args 1
  match op with
  | onError =>
    (∀ t, first = .future t → t.Joins second.returned) ∧ second.Takes 1 ∧
      ∀ t, second.returned.base ≠ .future t
  | onComplete | andThen => second.Takes 1 ∧ ∀ t, second.returned.base ≠ .future t
  | _ => True

/-- The futures in the value are there. -/
def World.Holds (w : World γ) (v : Value) : Prop :=
  v.Every fun x => ∀ id, x = .future id → id < w.state.scheduler.futures.size

omit [Gateway γ] in
theorem World.Holds.lt (h : w.Holds (.future g)) : g < w.state.scheduler.futures.size :=
  (Value.every_iff.1 h).1 rfl g rfl

theorem World.Holds.later (h : w.Holds v) (hw : w.state.Orderly w.out) (hlater : w.Later w') :
    w'.Holds v :=
  .imp (fun _ _ hx id heq => Nat.lt_of_lt_of_le (hx id heq) (hlater.futures hw).size) h

theorem Argument.future_eq (b : Builtin) (v : Value) :
    Except.All (fun g => v = .future g) (Argument.future b v) := by
  cases v with
  | future g => exact .ok rfl
  | _ => exact .error _

theorem Argument.futures_eq (b : Builtin) (items : List Value) :
    Except.All (fun ids => items = ids.map .future) (Argument.futures b items) := by
  induction items with
  | nil => exact .ok rfl
  | cons v rest ih =>
    refine .bind (future_eq b v) fun g hg => .bind ih fun ids hids => .ok ?_
    rw [hg, hids]
    rfl

theorem source_of_values {futures : FutureTable} {sources : List FutureId} {vs : List Value}
    (h : List.Forall₂ (fun g v => futures.state? g = some (.resolved v)) sources vs) :
    ∀ v ∈ vs, ∃ g ∈ sources, futures.state? g = some (.resolved v) := by
  induction h with
  | nil => exact List.forall_mem_nil _
  | cons hv _ ih =>
    refine List.forall_mem_cons.2 ⟨⟨_, .head _, hv⟩, fun v hmem => ?_⟩
    obtain ⟨g, hg, hstate⟩ := ih v hmem
    exact ⟨g, .tail _ hg, hstate⟩

/-- A combinator that calls the handler on what the source settles with. -/
theorem brings_handled {k : FutureId → Value → Combinator} {b : Builtin} {handler : Value}
    (hw : w.state.Orderly w.out) (hplain : w.state.schemas.Predicates (¬ ·.Attempts))
    (hhandler : ∀ g h, (k g h).handler? = some (g, h)) (hsources : ∀ g h, (k g h).sources = [g])
    (hv : w.Holds v) (hanswers : handler.Answers 1 r w) (hgiven : r.Below t)
    (hfuture : ∀ t, r.base ≠ .future t)
    (hpassed : ∀ g w' x, v = .future g → w.Later w' →
      w'.state.scheduler.futures.state? g = some (.resolved x) →
      (k g handler).argument? (.resolved x) = none → Conforms t w' x) :
    w.Brings (Conforms (.future t)) (do
      let source ← Eval.ofExcept (Argument.future b v)
      return .future (← Run.spawnCombinator (k source handler))) := by
  have hsource : w.Brings (fun _ g => v = .future g) (Eval.ofExcept (Argument.future b v)) :=
    .ofExcept (Argument.future_eq b v)
  refine .bind hsource fun w' g honward hg => ?_
  subst hg
  have hplaced : (k g handler).Placed r w := by
    refine ⟨hw, ?_, hplain, fun g' h hh => ?_⟩
    · rw [hsources]
      exact List.forall_mem_singleton.2 hv.lt
    · rw [hhandler] at hh
      cases hh
      exact hanswers
  refine brings_spawn (hplaced.later honward.later) (fun _ => .handle (hhandler g handler))
    fun u f x hlater hfares hstate => hfares.resolved hstate ?_ ?_ hgiven hfuture
  · intro sources vs hall _
    have hnone := hhandler g handler
    rw [hall] at hnone
    cases hnone
  · intro g' h x hh hx hother
    rw [hhandler] at hh
    cases hh
    exact hpassed g u x rfl (honward.later.trans hlater) hx hother

/-- The values of all futures in a list. -/
theorem brings_all {e : Ty} {b : Builtin} (hw : w.state.Orderly w.out)
    (hplain : w.state.schemas.Predicates (¬ ·.Attempts)) (hitems : ∀ i ∈ items, Conforms e w i)
    (hthere : ∀ i ∈ items, w.Holds i)
    (helem : ∀ g w' x, w.Later w' → Conforms e w' (.future g) →
      w'.state.scheduler.futures.state? g = some (.resolved x) → Conforms t w' x) :
    w.Brings (Conforms (.future (.list t))) (do
      let sources ← Eval.ofExcept (Argument.futures b items)
      return .future (← Run.spawnCombinator (.all sources []))) := by
  have hsources : w.Brings (fun _ ids => items = ids.map .future)
      (Eval.ofExcept (Argument.futures b items)) := .ofExcept (Argument.futures_eq b items)
  refine .bind hsources fun w' sources honward heq => ?_
  have hmem : ∀ g ∈ sources, Value.future g ∈ items := fun g hg =>
    heq ▸ List.mem_map_of_mem hg
  have hplaced : (all sources []).Placed (.list t) w :=
    ⟨hw, fun g hg => (hthere _ (hmem g hg)).lt, hplain, fun _ _ hh => by cases hh⟩
  refine brings_spawn (hplaced.later honward.later) (fun _ => .gather .nil)
    fun u f x hlater hfares hstate => hfares.resolved hstate ?_ (fun _ _ _ hh => by cases hh)
      (.refl _) (fun _ hfuture => by cases hfuture)
  rintro _ vs ⟨⟩ hvalues
  refine ⟨vs, rfl, fun v hv => ?_⟩
  obtain ⟨g, hg, hstate⟩ := source_of_values hvalues v hv
  have hlater := honward.later.trans hlater
  exact helem g u v hlater ((hitems _ (hmem g hg)).later hlater) hstate

theorem onFutures_brings (hw : w.state.Orderly w.out)
    (hplain : w.state.schemas.Predicates (¬ ·.Attempts)) (hsound : op.Sound tys)
    (hargs : ConformAll tys w args) (hthere : ∀ v ∈ args, w.Holds v) :
    w.Brings (Conforms (op.resultType tys)) (Run.onFutures op args) := by
  unfold Run.onFutures
  split
  case h_1 source handler =>
    have hhandler := (hargs.argument (k := 1) rfl).answers hsound.2.1
    have hsource := hargs.argument (k := 0) rfl
    have hgoal (t : Ty) (hgiven : (argument tys 1).returned.Below t)
        (hpassed : ∀ g w' x, source = .future g → w.Later w' →
          w'.state.scheduler.futures.state? g = some (.resolved x) → Conforms t w' x) :
        w.Brings (Conforms (.future t)) (do
          let source ← Run.futureOf .onError source
          return .future (← Run.spawnCombinator (.onError source handler))) :=
      brings_handled (k := .onError) hw hplain (fun _ _ => rfl) (fun _ _ => rfl)
        (hthere _ (.head _)) hhandler hgiven hsound.2.2
        fun g w' x hg hlater hx _ => hpassed g w' x hg hlater hx
    dsimp only [FutureOp.resultType]
    split
    · rename_i t ht
      have hjoin := hsound.1 t ht
      refine hgoal _ hjoin.2 fun g w' x hg hlater hx => ?_
      rw [hg, ht] at hsource
      obtain ⟨_, ⟨⟩, hfuture⟩ := hsource
      exact (hfuture w' x hlater hx).below hjoin.1
    · exact hgoal .unknown (.unknown _) fun _ _ _ _ _ _ => trivial
  case h_2 source handler =>
    have hhandler := (hargs.argument (k := 1) rfl).answers hsound.1
    refine brings_handled (k := .onComplete) hw hplain (fun _ _ => rfl) (fun _ _ => rfl)
      (hthere _ (.head _)) hhandler (.refl _) hsound.2 fun g w' x _ _ _ hother => ?_
    cases x <;> cases hother
  case h_3 source handler =>
    have hhandler := (hargs.argument (k := 1) rfl).answers hsound.1
    refine brings_handled (k := .andThen) hw hplain (fun _ _ => rfl) (fun _ _ => rfl)
      (hthere _ (.head _)) hhandler (.refl _) hsound.2 fun g w' x _ _ _ hother => ?_
    cases hother
  case h_4 l =>
    have hitems : w.Brings (fun _ items =>
        (∀ i ∈ items, Conforms (argument tys 0).elementOf w i) ∧ ∀ i ∈ items, w.Holds i)
        (Eval.ofExcept (Argument.list (.future .all) l)) :=
      .ofExcept fun items h => ⟨(hargs.argument (k := 0) rfl).elements _ items h,
        Argument.list_every _ (hthere l (.head _)) items h⟩
    refine .bind hitems fun w' items honward h => ?_
    have hw' := honward.later.orderly hw
    have hplain' : w'.state.schemas.Predicates (¬ ·.Attempts) := honward.later.schemas ▸ hplain
    have hthere' : ∀ i ∈ items, w'.Holds i := fun i hi => (h.2 i hi).later hw honward.later
    have hitems' : ∀ i ∈ items, Conforms (argument tys 0).elementOf w' i :=
      fun i hi => (h.1 i hi).onward honward
    dsimp only [FutureOp.resultType]
    split
    · rename_i t ht
      rw [ht] at hitems'
      refine brings_all hw' hplain' hitems' hthere' fun g u x hlater hg hx => ?_
      obtain ⟨_, ⟨⟩, hfuture⟩ := hg
      exact hfuture u x .refl hx
    · exact brings_all hw' hplain' hitems' hthere' fun _ _ _ _ _ _ => trivial
  case h_5 v =>
    have hv := hargs.argument (k := 0) rfl
    refine brings_settledFuture hw rfl fun x hx => ?_
    cases hx
    exact hv
  case h_6 v =>
    have hfailed : w.Brings (Conforms (.future .unknown))
        (Run.settledFuture (.failed ⟨v, w.state.line⟩)) :=
      brings_settledFuture hw rfl fun _ _ => trivial
    exact fun a s h => hfailed a s h
  case h_7 f =>
    have hstate (w : World γ) (id : FutureId) :
        w.Brings (fun _ _ => True) (Run.futureState? id) := by
      rintro _ _ ⟨⟩
      exact ⟨.refl, trivial⟩
    refine .bind (P := fun _ _ => True) (.ofExcept (.of_true _)) fun w' id _ _ => ?_
    refine .bind (hstate w' id) fun u state? _ _ => ?_
    cases state? with
    | none => exact .fail _
    | some state => exact .pure ⟨_, rfl⟩
  case h_8 => exact .fail _

end

end StreamLang

/-! What a call of a builtin gives conforms to the type that the table gives to it, and so does, for a
future, what that settles with. -/

namespace StreamLang

open Ty

variable {γ : Type} [Gateway γ] {w : World γ} {b : Builtin} {tys : List Ty} {args : List Value}

/-- The row of the table for the builtin holds for these types of the arguments. -/
def Builtin.Sound (b : Builtin) (args : List Ty) : Prop :=
  match b with
  | sequence op => op.Sound args
  | source op => op.Sound args
  | collection op => op.Sound args
  | wrapper op => op.Sound args
  | scalar op => op.Sound args
  | future op => op.Sound args
  | log | service _ => True

theorem Recur.callBuiltin_brings (hservice : ∀ op, b ≠ .service op) (hsound : b.Sound tys)
    (hargs : ConformAll tys w args) (hw : w.state.Orderly w.out)
    (hplain : w.state.schemas.Predicates (¬ ·.Attempts)) (hthere : ∀ v ∈ args, w.Holds v)
    (fuel : Nat) :
    w.Brings (Conforms (b.resultType tys)) ((ofFuel fuel).callBuiltin b args) := by
  cases b with
  | sequence op => exact onSequence_brings hsound hargs
  | source op => exact op.stream_brings hsound hargs
  | collection op => exact .ofExcept (op.apply_conforms hsound hargs)
  | wrapper op => exact .ofExcept (op.apply_conforms hsound hargs)
  | scalar op => exact .ofExcept (op.apply_conforms hsound hargs)
  | log => exact writeLog_brings args
  | future op => exact onFutures_brings hw hplain hsound hargs hthere
  | service op => exact absurd rfl (hservice op)

/-- What a call of a builtin gives conforms to the type of its row. -/
theorem builtin_gives_its_type (hservice : ∀ op, b ≠ .service op)
    (harity : b.arity.accepts args.length = true) (hargs : ConformAll tys w args)
    (hsound : b.Sound tys) (hw : w.state.Orderly w.out)
    (hplain : w.state.schemas.Predicates (¬ ·.Attempts)) (hthere : ∀ v ∈ args, w.Holds v)
    {fuel : Nat} {id : Identity} {v : Value} {s : Interpreter γ}
    (h : callWithin fuel (.function id (.builtin b)) args w.state = .ok v s) :
    w.Onward (w.withState s) ∧ Conforms (b.resultType tys) (w.withState s) v := by
  cases fuel with
  | zero => cases h
  | succ fuel =>
    have hmin : ¬ args.length < b.arity.min :=
      Nat.not_lt.2 (of_decide_eq_true (Bool.and_eq_true_iff.1 harity).1)
    have hcall : (Recur.ofFuel fuel).callBuiltin b args w.state = .ok v s := by
      have h : (Recur.ofFuel fuel).callCallable (.builtin b) args w.state = .ok v s := h
      simpa [Recur.callCallable, hmin, harity] using h
    exact Recur.callBuiltin_brings hservice hsound hargs hw hplain hthere fuel v s hcall

theorem brokenState_orderly : brokenState.Orderly [] :=
  (Interpreter.Course.move .refl (.settledFuture (.failed ⟨.text "lost", 3⟩) rfl)).orderly
    (Interpreter.start_orderly _ _ _)

theorem brokenState_plain : brokenState.schemas.Predicates (¬ ·.Attempts) := by
  intro e he
  have hnone : brokenState.schemas.aliases = [] := rfl
  rw [hnone] at he
  cases he

theorem lengthOf_conforms (w : World StockGateway) (t : Ty) :
    Conforms (.function [t] .int) w lengthOf := by
  refine ⟨_, _, rfl, fun w' fuel args x s _ hargs hcall => ?_⟩
  obtain ⟨v, rfl⟩ := List.length_eq_one_iff.1 hargs
  cases fuel with
  | zero => cases hcall
  | succ fuel =>
    have hlen : w'.Brings (Conforms .int) (Eval.ofExcept v.len) := .ofExcept v.len_conforms
    exact (hlen x s hcall).2

/-- `on_error(broken, len)`, where `broken` is taken to be a `Future<Int>`. -/
theorem recovered_length_is_an_integer :
    ∃ s, callWithin 1 (.function ⟨1, []⟩ (.builtin (.future .onError))) [.future 0, lengthOf]
        brokenState = .ok (.future 1) s ∧
      Conforms (.future .int) (⟨s, [], none⟩ : World StockGateway) (.future 1) := by
  let w : World StockGateway := ⟨brokenState, [], none⟩
  have hfuture : Conforms (.future .int) w (.future 0) := by
    refine ⟨0, rfl, fun w' x hlater hx => ?_⟩
    have hbroken : brokenState.scheduler.futures.state? 0 = some (.failed ⟨.text "lost", 3⟩) := rfl
    have hstays := (hlater.futures brokenState_orderly).settled (fun h => by cases h) hbroken
    rw [hx] at hstays
    cases hstays
  have hsound : (Builtin.future .onError).Sound [.future .int, .function [.text] .int] := by
    refine ⟨?_, ?_, ?_⟩
    · rintro _ ⟨⟩
      exact ⟨.refl _, .refl _⟩
    · rintro _ _ ⟨⟩
      rfl
    · intro t h
      cases h
  have hthere : ∀ v ∈ [Value.future 0, lengthOf], w.Holds v := by
    have hsize : 0 < brokenState.scheduler.futures.size := by decide
    simp [World.Holds, lengthOf, w, hsize, Callable.values]
  have hcall : callWithin 1 (.function ⟨1, []⟩ (.builtin (.future .onError))) [.future 0, lengthOf]
      brokenState = .ok (.future 1) _ := rfl
  have hargs : ConformAll [.future .int, .function [.text] .int] w [.future 0, lengthOf] :=
    ⟨hfuture, lengthOf_conforms w .text, trivial⟩
  exact ⟨_, hcall, (builtin_gives_its_type (fun _ h => by cases h) rfl hargs hsound
    brokenState_orderly brokenState_plain hthere hcall).2⟩

/-- `reverse` gives a list for a set, but its row gives the type of the set. -/
theorem reversed_set_is_no_set :
    ¬ ∀ (b : Builtin) (tys : List Ty) (args : List Value) (w : World StockGateway) (fuel : Nat)
      (id : Identity) (v : Value) (s : Interpreter StockGateway), (∀ op, b ≠ .service op) →
      b.arity.accepts args.length = true → ConformAll tys w args → w.state.Orderly w.out →
      w.state.schemas.Predicates (¬ ·.Attempts) → (∀ v ∈ args, w.Holds v) →
      callWithin fuel (.function id (.builtin b)) args w.state = .ok v s →
      Conforms (b.resultType tys) (w.withState s) v := by
  intro h
  have hset : Conforms (.set .int) (⟨brokenState, [], none⟩ : World StockGateway)
      (.set [.int 1, .int 2]) := by
    refine ⟨_, rfl, ?_⟩
    simp [Conforms]
  have hthere : ∀ v ∈ [Value.set [.int 1, .int 2]],
      (⟨brokenState, [], none⟩ : World StockGateway).Holds v := by
    simp [World.Holds]
  have hlist := h (.collection .reverse) [.set .int] [.set [.int 1, .int 2]] _ 1 ⟨1, []⟩
    (.list [.int 2, .int 1]) brokenState (fun _ h => by cases h) rfl ⟨hset, trivial⟩
    brokenState_orderly brokenState_plain hthere rfl
  obtain ⟨_, ⟨⟩, _⟩ := hlist

end StreamLang
