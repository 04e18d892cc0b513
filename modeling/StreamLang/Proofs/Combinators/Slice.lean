import Mathlib.Data.List.Forall2
import StreamLang.Proofs.Running
import StreamLang.Proofs.Scheduler.Owners
import StreamLang.Proofs.Slice.Atomic

/-! Slices of the tasks that follow other futures. What such a task does next depends on the futures in
their order only, and once it calls its handler it depends on what that gives. -/

namespace StreamLang

variable {γ : Type}

/-- A call of a handler, with the state it is made in and how it ends. -/
structure HandlerCall (γ : Type) where
  handler : Value
  argument : Value
  before : Interpreter γ
  result : EStateM.Result Unwind (Interpreter γ) Value

namespace Combinator

/-- The futures that are followed, first to last. -/
def sources : Combinator → List FutureId
  | onError source _ | onComplete source _ | andThen source _ | forward source => [source]
  | all sources _ => sources

/-- The handler, with the future whose outcome it may get. -/
def handler? : Combinator → Option (FutureId × Value)
  | onError source handler | onComplete source handler | andThen source handler =>
    some (source, handler)
  | all _ _ | forward _ => none

/-- What the handler is called on when the source has come to this state. An outcome without an argument
is passed on. -/
def argument? : Combinator → FutureState → Option Value
  | onError _ _, .resolved (.err error) => some error
  | onError _ _, .failed f => some f.error
  | onComplete _ _, .resolved (.ok v) => some (.ok v)
  | onComplete _ _, .resolved (.err error) => some (.err error)
  | onComplete _ _, .resolved v => some (.ok v)
  | onComplete _ _, .failed f => some (.err f.error)
  | andThen _ _, .resolved v => some v
  | _, _ => none

/-- The source has settled in a way that the handler is for. -/
def Asks (futures : FutureTable) (c : Combinator) (call : HandlerCall γ) : Prop :=
  ∃ source state, c.handler? = some (source, call.handler) ∧
    futures.state? source = some state ∧ c.argument? state = some call.argument

/-- What a combinator comes to in the end, after these calls of its handler. -/
inductive Ends (futures : FutureTable) : Combinator → List (HandlerCall γ) → FutureState → Prop
  /-- All sources have values. -/
  | values {sources : List FutureId} {vs : List Value}
      (hvalues : List.Forall₂ (fun g v => futures.state? g = some (.resolved v)) sources vs) :
    Ends futures (.all sources []) [] (.resolved (.list vs))
  /-- A source failed, and those before it have values. -/
  | failure {done rest : List FutureId} {g : FutureId} {f : Failed}
      (hdone : ∀ d ∈ done, ∃ v, futures.state? d = some (.resolved v))
      (hfailed : futures.state? g = some (.failed f)) :
    Ends futures (.all (done ++ g :: rest) []) [] (.failed f)
  /-- The source has settled in another way. -/
  | passed {c : Combinator} {source : FutureId} {handler : Value} {state : FutureState}
      (hhandler : c.handler? = some (source, handler))
      (hstate : futures.state? source = some state) (hsettled : state ≠ .pending)
      (hother : c.argument? state = none) : Ends futures c [] state
  /-- The handler gave a value that is not a future. -/
  | value {c : Combinator} {call : HandlerCall γ} {v : Value} {t : Interpreter γ}
      (hasks : c.Asks futures call) (hresult : call.result = .ok v t)
      (hplain : ∀ g, v ≠ .future g) : Ends futures c [call] (.resolved v)
  /-- The handler gave a future, which has settled since. -/
  | followed {c : Combinator} {call : HandlerCall γ} {g : FutureId} {t : Interpreter γ}
      {state : FutureState} (hasks : c.Asks futures call) (hresult : call.result = .ok (.future g) t)
      (hthere : g < t.scheduler.futures.size) (hstate : futures.state? g = some state)
      (hsettled : state ≠ .pending) : Ends futures c [call] state
  /-- The handler gave a number that no future had. -/
  | lost {c : Combinator} {call : HandlerCall γ} {g : FutureId} {t : Interpreter γ}
      (hasks : c.Asks futures call) (hresult : call.result = .ok (.future g) t)
      (hnone : t.scheduler.futures.size ≤ g) :
    Ends futures c [call] (.failed ⟨.text Fault.unknownFuture.message, 0⟩)
  /-- The handler failed. -/
  | failing {c : Combinator} {call : HandlerCall γ} {fault : Fault} {line : Nat}
      {t : Interpreter γ} (hasks : c.Asks futures call)
      (hresult : call.result = .error (.fail fault line) t) :
    Ends futures c [call] (.failed ⟨.text fault.message, line⟩)
  /-- The handler ended early. -/
  | early {c : Combinator} {call : HandlerCall γ} {v : Value} {line : Nat} {t : Interpreter γ}
      (hasks : c.Asks futures call) (hresult : call.result = .error (.early v line) t) :
    Ends futures c [call] (.resolved v)

/-- What a combinator still has to do, after these calls of its handler. -/
inductive Ahead (futures : FutureTable) : Combinator → List (HandlerCall γ) → Combinator → Prop
  /-- The first sources have values. -/
  | gather {done rest : List FutureId} {vs : List Value}
      (hvalues : List.Forall₂ (fun g v => futures.state? g = some (.resolved v)) done vs) :
    Ahead futures (.all (done ++ rest) []) [] (.all rest vs.reverse)
  | handle {c : Combinator} {source : FutureId} {handler : Value}
      (hhandler : c.handler? = some (source, handler)) : Ahead futures c [] c
  /-- The handler gave a future. -/
  | follow {c : Combinator} {call : HandlerCall γ} {g : FutureId} {t : Interpreter γ}
      (hasks : c.Asks futures call) (hresult : call.result = .ok (.future g) t)
      (hthere : g < t.scheduler.futures.size) (hhere : g < futures.size) :
    Ahead futures c [call] (.forward g)

variable {futures futures' : FutureTable} {c b : Combinator} {calls : List (HandlerCall γ)}
  {source : FutureId} {handler : Value} {state : FutureState}

theorem argument?_pending (c : Combinator) : c.argument? .pending = none := by
  cases c <;> rfl

theorem Asks.later {call : HandlerCall γ} (h : c.Asks futures call) (hlater : futures.Later futures') :
    c.Asks futures' call := by
  obtain ⟨source, state, hhandler, hstate, hargument⟩ := h
  refine ⟨source, state, hhandler, hlater.settled ?_ hstate, hargument⟩
  rintro rfl
  rw [argument?_pending] at hargument
  cases hargument

theorem values_later {sources : List FutureId} {vs : List Value}
    (h : List.Forall₂ (fun g v => futures.state? g = some (.resolved v)) sources vs)
    (hlater : futures.Later futures') :
    List.Forall₂ (fun g v => futures'.state? g = some (.resolved v)) sources vs :=
  h.imp fun _ _ hv => hlater.settled (by simp) hv

theorem Ends.later (h : c.Ends futures calls state) (hlater : futures.Later futures') :
    c.Ends futures' calls state := by
  cases h with
  | values hvalues => exact .values (values_later hvalues hlater)
  | failure hdone hfailed =>
    refine .failure (fun d hd => ?_) (hlater.settled nofun hfailed)
    obtain ⟨v, hv⟩ := hdone d hd
    exact ⟨v, hlater.settled nofun hv⟩
  | passed hhandler hstate hsettled hother =>
    exact .passed hhandler (hlater.settled hsettled hstate) hsettled hother
  | value hasks hresult hplain => exact .value (hasks.later hlater) hresult hplain
  | followed hasks hresult hthere hstate hsettled =>
    exact .followed (hasks.later hlater) hresult hthere (hlater.settled hsettled hstate) hsettled
  | lost hasks hresult hnone => exact .lost (hasks.later hlater) hresult hnone
  | failing hasks hresult => exact .failing (hasks.later hlater) hresult
  | early hasks hresult => exact .early (hasks.later hlater) hresult

theorem Ends.settled (h : c.Ends futures calls state) : state ≠ .pending := by
  cases h with
  | passed _ _ hsettled | followed _ _ _ _ hsettled => exact hsettled
  | _ => nofun

theorem Ahead.later (h : c.Ahead futures calls b) (hlater : futures.Later futures') :
    c.Ahead futures' calls b := by
  cases h with
  | gather hvalues => exact .gather (values_later hvalues hlater)
  | handle hhandler => exact .handle hhandler
  | follow hasks hresult hthere hhere =>
    exact .follow (hasks.later hlater) hresult hthere (Nat.lt_of_lt_of_le hhere hlater.size)

/-- A combinator goes on after a call only if that gave a value. -/
theorem Ahead.result_ok (h : c.Ahead futures calls b) :
    ∀ call ∈ calls, ∃ v t, call.result = .ok v t := by
  cases h with
  | follow _ hresult => exact List.forall_mem_singleton.2 ⟨_, _, hresult⟩
  | _ => exact List.forall_mem_nil _

/-- Where a slice leaves a combinator. -/
inductive Goes (futures : FutureTable) (c : Combinator) (calls : List (HandlerCall γ)) :
    TaskStep → Prop
  | complete {v : Value} (h : c.Ends futures calls (.resolved v)) : Goes futures c calls (.complete v)
  | fail {f : Failed} (h : c.Ends futures calls (.failed f)) : Goes futures c calls (.fail f)
  | suspend {b : Combinator} {on : FutureId} (h : c.Ahead futures calls b)
      (hsource : b.sources.head? = some on) (hpending : futures.state? on = some .pending) :
    Goes futures c calls (.suspend on (.combinator b))

end Combinator

/-- The step of a task that takes over the state of a future, or waits. -/
def FutureState.step (wait : TaskStep) : FutureState → TaskStep
  | pending => wait
  | resolved v => .complete v
  | failed f => .fail f

/-- The state after a future was looked at. -/
def Interpreter.observed (s : Interpreter γ) (id : FutureId) : Interpreter γ :=
  { s with scheduler := s.scheduler.markObserved id }

@[simp] theorem Interpreter.state?_observed (s : Interpreter γ) (id other : FutureId) :
    (s.observed id).scheduler.futures.state? other = s.scheduler.futures.state? other :=
  FutureTable.state?_markObserved _ _ _

theorem Interpreter.later_observed (s : Interpreter γ) (id : FutureId) :
    s.scheduler.futures.Later (s.observed id).scheduler.futures :=
  .of_state? fun g _ => (s.state?_observed id g).trans

theorem Run.observe_eq (id : FutureId) (s : Interpreter γ) :
    Run.observe id s = .ok (s.scheduler.futures.state? id) (s.observed id) :=
  congrArg (EStateM.Result.ok · (s.observed id)) (s.state?_observed id id)

namespace Recur

variable {r : Recur γ} {c b : Combinator} {s t : Interpreter γ} {source : FutureId}
  {handler a : Value} {state : FutureState} {calls : List (HandlerCall γ)}

/-- The calls of handlers in a slice of a task. -/
def handlerCalls (r : Recur γ) (body : TaskBody) (s : Interpreter γ) : List (HandlerCall γ) :=
  match body with
  | .machine _ => []
  | .combinator c =>
    match c.handler? with
    | none => []
    | some (source, handler) =>
      match (s.scheduler.futures.state? source).bind c.argument? with
      | none => []
      | some a => [⟨handler, a, s.observed source, r.call handler [a] (s.observed source)⟩]

theorem handlerCalls_of_none (hhandler : c.handler? = some (source, handler))
    (hstate : s.scheduler.futures.state? source = some state) (ha : c.argument? state = none) :
    r.handlerCalls (.combinator c) s = [] := by
  simp [handlerCalls, hhandler, hstate, ha]

theorem handlerCalls_of_some (hhandler : c.handler? = some (source, handler))
    (hstate : s.scheduler.futures.state? source = some state) (ha : c.argument? state = some a) :
    r.handlerCalls (.combinator c) s =
      [⟨handler, a, s.observed source, r.call handler [a] (s.observed source)⟩] := by
  simp [handlerCalls, hhandler, hstate, ha]

theorem follow_of_some (hstate : s.scheduler.futures.state? source = some state) :
    follow source s =
      .ok (state.step (.suspend source (.combinator (.forward source)))) (s.observed source) := by
  rw [follow, Eval.bind_of_ok (Run.observe_eq source s), hstate]
  cases state <;> rfl

theorem follow_of_none (hstate : s.scheduler.futures.state? source = none) :
    follow source s = .error (.fail .unknownFuture 0) (s.observed source) := by
  rw [follow, Eval.bind_of_ok (Run.observe_eq source s), hstate]
  rfl

/-- A source that is pending is waited for, and an outcome that the handler is not for is passed on. -/
theorem runCombinator_of_none (hhandler : c.handler? = some (source, handler))
    (hstate : s.scheduler.futures.state? source = some state) (ha : c.argument? state = none) :
    r.runCombinator c s =
      .ok (state.step (.suspend source (.combinator c))) (s.observed source) := by
  cases c with
  | all | forward => cases hhandler
  | onError | onComplete | andThen =>
    cases hhandler
    rw [runCombinator, Eval.bind_of_ok (Run.observe_eq source s), hstate]
    cases state with
    | pending => rfl
    | failed f => first | rfl | cases ha
    | resolved v => cases v <;> first | rfl | cases ha

/-- An outcome that the handler is for is given to it. -/
theorem runCombinator_of_some (hhandler : c.handler? = some (source, handler))
    (hstate : s.scheduler.futures.state? source = some state) (ha : c.argument? state = some a) :
    r.runCombinator c s = r.handle handler a (s.observed source) := by
  cases c with
  | all | forward => cases hhandler
  | onError | onComplete | andThen =>
    cases hhandler
    rw [runCombinator, Eval.bind_of_ok (Run.observe_eq source s), hstate]
    cases state with
    | pending => cases ha
    | failed f => first | (cases ha; rfl) | cases ha
    | resolved v => cases v <;> first | (cases ha; rfl) | cases ha

/-- A slice of a combinator depends on the evaluator by these calls alone. -/
theorem runCombinator_same {call : Host (Interpreter γ)}
    (h : ∀ p ∈ r.handlerCalls (.combinator c) s, call p.handler [p.argument] p.before = p.result) :
    { r with call }.runCombinator c s = r.runCombinator c s := by
  cases hhandler : c.handler? with
  | none => cases c <;> first | rfl | cases hhandler
  | some followed =>
    obtain ⟨source, handler⟩ := followed
    cases hstate : s.scheduler.futures.state? source with
    | none =>
      cases c with
      | all | forward => cases hhandler
      | onError | onComplete | andThen =>
        cases hhandler
        rw [runCombinator, runCombinator, Eval.bind_of_ok (Run.observe_eq source s),
          Eval.bind_of_ok (Run.observe_eq source s), hstate]
    | some state =>
      cases ha : c.argument? state with
      | none =>
        rw [runCombinator_of_none hhandler hstate ha, runCombinator_of_none hhandler hstate ha]
      | some a =>
        rw [handlerCalls_of_some hhandler hstate ha] at h
        rw [runCombinator_of_some hhandler hstate ha, runCombinator_of_some hhandler hstate ha]
        have hsame : call handler [a] (s.observed source) = r.call handler [a] (s.observed source) :=
          h _ (List.mem_singleton.2 rfl)
        exact Eval.bind_of_same hsame _

/-- What `all` does when it looks at its sources: they give it a list, or the first of them that has no
value makes it fail or wait. -/
inductive Collects (futures : FutureTable) (values : List Value) : List FutureId → TaskStep → Prop
  | complete {sources : List FutureId} {vs : List Value}
      (hvalues : List.Forall₂ (fun g v => futures.state? g = some (.resolved v)) sources vs) :
    Collects futures values sources (.complete (.list (values.reverse ++ vs)))
  | fail {done rest : List FutureId} {g : FutureId} {f : Failed}
      (hdone : ∀ d ∈ done, ∃ v, futures.state? d = some (.resolved v))
      (hfailed : futures.state? g = some (.failed f)) :
    Collects futures values (done ++ g :: rest) (.fail f)
  | suspend {done rest : List FutureId} {g : FutureId} {vs : List Value}
      (hvalues : List.Forall₂ (fun g v => futures.state? g = some (.resolved v)) done vs)
      (hpending : futures.state? g = some .pending) :
    Collects futures values (done ++ g :: rest)
      (.suspend g (.combinator (.all (g :: rest) (vs.reverse ++ values))))

theorem Collects.cons {futures : FutureTable} {values : List Value} {sources : List FutureId}
    {step : TaskStep} {g : FutureId} {v : Value} (hv : futures.state? g = some (.resolved v))
    (h : Collects futures (v :: values) sources step) :
    Collects futures values (g :: sources) step := by
  cases h with
  | complete hvalues =>
    rw [List.reverse_cons, List.append_assoc, List.singleton_append]
    exact .complete (.cons hv hvalues)
  | @fail done rest g' f hdone hfailed =>
    have hall : ∀ d ∈ g :: done, ∃ v, futures.state? d = some (.resolved v) :=
      List.forall_mem_cons.2 ⟨⟨v, hv⟩, hdone⟩
    exact .fail hall hfailed
  | @suspend done rest g' vs hvalues hpending =>
    have hfirst : (v :: vs).reverse ++ values = vs.reverse ++ v :: values := by simp
    rw [← hfirst]
    exact Collects.suspend (.cons hv hvalues) hpending

theorem collect_collects {futures : FutureTable} {sources : List FutureId}
    (hsources : ∀ g ∈ sources, ∃ state, futures.state? g = some state)
    (hs : ∀ g, s.scheduler.futures.state? g = futures.state? g) (values : List Value) :
    ∃ step t, collect sources values s = .ok step t ∧
      (∀ g, t.scheduler.futures.state? g = futures.state? g) ∧
      Collects futures values sources step := by
  induction sources generalizing s values with
  | nil =>
    have hstep : Collects futures values [] (.complete (.list (values.reverse ++ []))) :=
      .complete .nil
    rw [List.append_nil] at hstep
    exact ⟨_, s, rfl, hs, hstep⟩
  | cons g rest ih =>
    obtain ⟨⟨state, hstate⟩, hrest⟩ := List.forall_mem_cons.1 hsources
    have hobserved (id : FutureId) :
        (s.observed g).scheduler.futures.state? id = futures.state? id :=
      (s.state?_observed g id).trans (hs id)
    rw [collect, Eval.bind_of_ok (Run.observe_eq g s), hs, hstate]
    cases state with
    | pending => exact ⟨_, _, rfl, hobserved, Collects.suspend .nil hstate⟩
    | failed f => exact ⟨_, _, rfl, hobserved, Collects.fail (List.forall_mem_nil _) hstate⟩
    | resolved v =>
      obtain ⟨step, t, hcollect, ht, hstep⟩ := ih hrest hobserved (v :: values)
      exact ⟨step, t, hcollect, ht, hstep.cons hstate⟩

end Recur

namespace Combinator

variable {r : Recur γ} {c b : Combinator} {s : Interpreter γ} {calls : List (HandlerCall γ)}

/-- A slice leaves the combinator where it goes, unless a call in it was cut off. -/
def Slices (c : Combinator) (calls : List (HandlerCall γ)) :
    EStateM.Result Unwind (Interpreter γ) TaskStep → Prop
  | .ok step t => c.Goes t.scheduler.futures calls step
  | .error u t =>
    match u.taskStep? false with
    | some step => c.Goes t.scheduler.futures calls step
    | none => ∃ call ∈ calls, call.result = .error u t

theorem resolved_of_values {futures : FutureTable} {sources : List FutureId} {vs : List Value}
    (h : List.Forall₂ (fun g v => futures.state? g = some (.resolved v)) sources vs) :
    ∀ g ∈ sources, ∃ v, futures.state? g = some (.resolved v) := by
  induction h with
  | nil => exact List.forall_mem_nil _
  | cons hv _ ih => exact List.forall_mem_cons.2 ⟨⟨_, hv⟩, ih⟩

theorem slices_collect {done rest : List FutureId} {vs : List Value}
    (hvalues : List.Forall₂ (fun g v => s.scheduler.futures.state? g = some (.resolved v)) done vs)
    (hsources : ∀ g ∈ rest, ∃ state, s.scheduler.futures.state? g = some state) :
    (all (done ++ rest) []).Slices ([] : List (HandlerCall γ))
      (Recur.collect rest vs.reverse s) := by
  obtain ⟨step, t, hcollect, ht, hstep⟩ :=
    Recur.collect_collects hsources (fun _ => rfl) vs.reverse
  rw [hcollect]
  have hlater : s.scheduler.futures.Later t.scheduler.futures :=
    .of_state? fun g _ => (ht g).trans
  cases hstep with
  | complete hrest =>
    rw [List.reverse_reverse]
    exact .complete ((Ends.values (List.rel_append hvalues hrest)).later hlater)
  | @fail before after g f hdone hfailed =>
    rw [← List.append_assoc]
    refine .fail ((Ends.failure (fun d hd => ?_) hfailed).later hlater)
    rcases List.mem_append.1 hd with hd | hd
    · exact resolved_of_values hvalues d hd
    · exact hdone d hd
  | @suspend before after g ws hrest hpending =>
    rw [← List.append_assoc, ← List.reverse_append]
    exact .suspend ((Ahead.gather (List.rel_append hvalues hrest)).later hlater) rfl
      ((ht g).trans hpending)

theorem slices_follow {call : HandlerCall γ} {g : FutureId} {u : Interpreter γ}
    (hasks : c.Asks s.scheduler.futures call) (hresult : call.result = .ok (.future g) u)
    (hthere : g < u.scheduler.futures.size) (hhere : g < s.scheduler.futures.size) :
    c.Slices [call] (Recur.follow g s) := by
  have hlater := s.later_observed g
  obtain ⟨state, hstate⟩ := FutureTable.exists_state?_of_lt hhere
  have hobserved := (s.state?_observed g g).trans hstate
  rw [Recur.follow_of_some hstate]
  cases state with
  | pending =>
    have hafter := Nat.lt_of_lt_of_le hhere hlater.size
    exact .suspend (.follow (hasks.later hlater) hresult hthere hafter) rfl hobserved
  | resolved v => exact .complete (.followed (hasks.later hlater) hresult hthere hobserved nofun)
  | failed f => exact .fail (.followed (hasks.later hlater) hresult hthere hobserved nofun)

theorem slices_lost {call : HandlerCall γ} {g : FutureId} (hasks : c.Asks s.scheduler.futures call)
    (hresult : call.result = .ok (.future g) s) (hnone : s.scheduler.futures.size ≤ g) :
    c.Slices [call] (Recur.follow g s) := by
  rw [Recur.follow_of_none (FutureTable.state?_eq_none_iff.2 hnone)]
  exact .fail (.lost (hasks.later (s.later_observed g)) hresult hnone)

theorem slices_handle {handler a : Value}
    (hasks : c.Asks s.scheduler.futures ⟨handler, a, s, r.call handler [a] s⟩)
    (hlater : s.scheduler.futures.Later (endState (r.call handler [a] s)).scheduler.futures) :
    c.Slices [⟨handler, a, s, r.call handler [a] s⟩] (r.handle handler a s) := by
  unfold Recur.handle
  cases hcall : r.call handler [a] s with
  | error u t =>
    rw [hcall] at hasks hlater
    rw [Eval.bind_of_error hcall]
    cases u with
    | fail fault line => exact .fail (.failing (hasks.later hlater) rfl)
    | early v line => exact .complete (.early (hasks.later hlater) rfl)
    | exhausted => exact ⟨_, List.mem_singleton.2 rfl, rfl⟩
  | ok v t =>
    rw [hcall] at hasks hlater
    rw [Eval.bind_of_ok hcall]
    have hasks := hasks.later hlater
    cases v with
    | future g =>
      rcases Nat.lt_or_ge g t.scheduler.futures.size with hthere | hnone
      · exact slices_follow hasks rfl hthere hthere
      · exact slices_lost hasks rfl hnone
    | _ => exact .complete (.value hasks rfl nofun)

/-- A slice of what a combinator still has to do brings it further. -/
theorem Ahead.slices (h : c.Ahead s.scheduler.futures calls b)
    (hsources : ∀ g ∈ c.sources, g < s.scheduler.futures.size)
    (hcall : ∀ f args (t : Interpreter γ),
      t.scheduler.futures.Later (endState (r.call f args t)).scheduler.futures) :
    c.Slices (calls ++ r.handlerCalls (.combinator b) s) (r.runCombinator b s) := by
  have hstates : ∀ g ∈ c.sources, ∃ state, s.scheduler.futures.state? g = some state :=
    fun g hg => FutureTable.exists_state?_of_lt (hsources g hg)
  cases h with
  | gather hvalues =>
    exact slices_collect hvalues fun g hg => hstates g (List.mem_append_right _ hg)
  | follow hasks hresult hthere hhere => exact slices_follow hasks hresult hthere hhere
  | @handle _ source handler hhandler =>
    have hsource : c.sources = [source] := by
      cases c <;> cases hhandler <;> rfl
    obtain ⟨state, hstate⟩ := hstates source (by simp [hsource])
    have hobserved := (s.state?_observed source source).trans hstate
    cases ha : c.argument? state with
    | some a =>
      rw [Recur.handlerCalls_of_some hhandler hstate ha,
        Recur.runCombinator_of_some hhandler hstate ha]
      exact slices_handle ⟨source, state, hhandler, hobserved, ha⟩ (hcall _ _ _)
    | none =>
      rw [Recur.handlerCalls_of_none hhandler hstate ha,
        Recur.runCombinator_of_none hhandler hstate ha]
      cases state with
      | pending => exact .suspend (.handle hhandler) (by simp [hsource]) hobserved
      | resolved v => exact .complete (.passed hhandler hobserved nofun ha)
      | failed f => exact .fail (.passed hhandler hobserved nofun ha)

end Combinator

end StreamLang
