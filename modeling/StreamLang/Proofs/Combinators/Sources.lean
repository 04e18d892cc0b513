import StreamLang.Gateway.Stock
import StreamLang.Proofs.Combinators.Course

/-! Combinators of futures and their sources. In whatever order and at whatever time the sources settle,
what a combinator comes to is told by their states, and by what its handler gives. -/

namespace StreamLang

variable {γ : Type}

/-- What the builtins on futures start tasks for. -/
inductive FutureOp.Starts : FutureOp → List Value → Combinator → Prop
  | onError (source : FutureId) (handler : Value) :
    Starts .onError [.future source, handler] (.onError source handler)
  | onComplete (source : FutureId) (handler : Value) :
    Starts .onComplete [.future source, handler] (.onComplete source handler)
  | andThen (source : FutureId) (handler : Value) :
    Starts .andThen [.future source, handler] (.andThen source handler)
  | all (sources : List FutureId) : Starts .all [.list (sources.map .future)] (.all sources [])

theorem Argument.futures_map (b : Builtin) (ids : List FutureId) :
    Argument.futures b (ids.map .future) = .ok ids := by
  induction ids with
  | nil => rfl
  | cons id rest ih =>
    rw [List.map_cons, Argument.futures, ih]
    rfl

theorem Run.onFutures_of_starts {op : FutureOp} {args : List Value} {c : Combinator}
    (h : op.Starts args c) (s : Interpreter γ) :
    Run.onFutures op args s = .ok (.future s.scheduler.futures.size)
      { s with scheduler := (s.scheduler.spawn (.combinator c)).2 } := by
  cases h with
  | onError | onComplete | andThen => rfl
  | all sources =>
    have hfutures : (Eval.ofExcept (Argument.futures (.future .all) (sources.map .future)) :
        Run γ (List FutureId)) s = .ok sources s := by
      rw [Argument.futures_map]
      rfl
    change (Eval.ofExcept (Argument.futures (.future .all) (sources.map .future)) >>= fun ids => do
      return Value.future (← Run.spawnCombinator (.all ids []))) s = _
    rw [Eval.bind_of_ok hfutures]
    rfl

namespace Combinator

/-- The sources have values up to the first one in another state, which is this. -/
def FirstIn (futures : FutureTable) (sources : List FutureId) (state : FutureState) : Prop :=
  ∃ done g rest, sources = done ++ g :: rest ∧
    (∀ d ∈ done, ∃ v, futures.state? d = some (.resolved v)) ∧ futures.state? g = some state ∧
    ∀ v, state ≠ .resolved v

/-- A combinator that rests, and the states of the futures. -/
structure Accords (futures : FutureTable) (c : Combinator) (f : FutureId)
    (calls : List (HandlerCall γ)) : Prop where
  /-- Its handler was called once if the source has settled in a way that it is for, and otherwise not
  at all. -/
  called : (∃ call, calls = [call] ∧ c.Asks futures call) ∨
    calls = [] ∧ ∀ source handler state, c.handler? = some (source, handler) →
      futures.state? source = some state → c.argument? state = none
  /-- `all` has the values of its sources just when all of these have one. -/
  resolved : ∀ sources, c = .all sources [] → ∀ v, futures.state? f = some (.resolved v) ↔
    ∃ vs, v = .list vs ∧
      List.Forall₂ (fun g w => futures.state? g = some (.resolved w)) sources vs
  /-- It fails, and it waits, just as the first source without a value does. -/
  failed : ∀ sources, c = .all sources [] → ∀ e, futures.state? f = some (.failed e) ↔
    FirstIn futures sources (.failed e)
  pending : ∀ sources, c = .all sources [] →
    (futures.state? f = some .pending ↔ FirstIn futures sources .pending)

variable {futures : FutureTable} {c b : Combinator} {f : FutureId} {calls : List (HandlerCall γ)}
  {sources : List FutureId} {vs ws : List Value} {state state' : FutureState}
  {s t : Interpreter γ} {out out' : List (Task TaskBody)}

theorem values_unique
    (h : List.Forall₂ (fun g v => futures.state? g = some (.resolved v)) sources vs)
    (h' : List.Forall₂ (fun g v => futures.state? g = some (.resolved v)) sources ws) : vs = ws := by
  refine List.right_unique_forall₂' (fun g v w hv hw => ?_) h h'
  rw [hv] at hw
  cases hw
  rfl

theorem FirstIn.not_values (h : FirstIn futures sources state) :
    ¬ List.Forall₂ (fun g v => futures.state? g = some (.resolved v)) sources vs := by
  obtain ⟨done, g, rest, rfl, -, hg, hstate⟩ := h
  intro hvalues
  obtain ⟨v, hv⟩ := resolved_of_values hvalues g (List.mem_append_right _ List.mem_cons_self)
  rw [hg] at hv
  exact hstate v (Option.some.inj hv)

theorem FirstIn.unique (h : FirstIn futures sources state) (h' : FirstIn futures sources state') :
    state = state' := by
  obtain ⟨done, g, rest, hsplit, hdone, hg, hstate⟩ := h
  obtain ⟨done', g', rest', hsplit', hdone', hg', hstate'⟩ := h'
  rw [hsplit] at hsplit'
  have hopen {d : FutureId} {σ : FutureState} (hd : futures.state? d = some σ)
      (hσ : ∀ v, σ ≠ .resolved v) : ¬ ∃ v, futures.state? d = some (.resolved v) := by
    rintro ⟨v, hv⟩
    rw [hd] at hv
    exact hσ v (Option.some.inj hv)
  -- whichever list of values is shorter, the source behind it is not in the other one
  have hsame : g = g' := by
    rcases List.append_eq_append_iff.1 hsplit' with ⟨more, rfl, hrest⟩ | ⟨more, rfl, hrest⟩
    · cases more with
      | nil => exact (List.cons.inj hrest).1
      | cons d more =>
        obtain rfl := (List.cons.inj hrest).1
        exact absurd (hdone' g (by simp)) (hopen hg hstate)
    · cases more with
      | nil => exact (List.cons.inj hrest).1.symm
      | cons d more =>
        obtain rfl := (List.cons.inj hrest).1
        exact absurd (hdone g' (by simp)) (hopen hg' hstate')
  rw [hsame, hg'] at hg
  exact (Option.some.inj hg).symm

/-- All sources of `all` have values. -/
theorem accords_of_values
    (hvalues : List.Forall₂ (fun g v => futures.state? g = some (.resolved v)) sources vs)
    (hf : futures.state? f = some (.resolved (.list vs))) :
    (all sources []).Accords futures f ([] : List (HandlerCall γ)) where
  called := .inr ⟨rfl, nofun⟩
  resolved := by
    rintro _ ⟨⟩ v
    rw [hf]
    constructor
    · rintro ⟨⟩
      exact ⟨vs, rfl, hvalues⟩
    · rintro ⟨ws, rfl, hws⟩
      rw [values_unique hvalues hws]
  failed := by
    rintro _ ⟨⟩ e
    rw [hf]
    exact ⟨nofun, fun hfirst => absurd hvalues hfirst.not_values⟩
  pending := by
    rintro _ ⟨⟩
    rw [hf]
    exact ⟨nofun, fun hfirst => absurd hvalues hfirst.not_values⟩

/-- One of them has none. -/
theorem accords_of_first (hfirst : FirstIn futures sources state)
    (hf : futures.state? f = some state) :
    (all sources []).Accords futures f ([] : List (HandlerCall γ)) where
  called := .inr ⟨rfl, nofun⟩
  resolved := by
    rintro _ ⟨⟩ v
    rw [hf]
    constructor
    · rintro ⟨⟩
      obtain ⟨_, _, _, -, -, -, hstate⟩ := hfirst
      exact absurd rfl (hstate v)
    · rintro ⟨ws, -, hws⟩
      exact absurd hws hfirst.not_values
  failed := by
    rintro _ ⟨⟩ e
    rw [hf]
    exact ⟨fun h => Option.some.inj h ▸ hfirst, fun h => congrArg some (hfirst.unique h)⟩
  pending := by
    rintro _ ⟨⟩
    rw [hf]
    exact ⟨fun h => Option.some.inj h ▸ hfirst, fun h => congrArg some (hfirst.unique h)⟩

/-- For a combinator with a handler, only the calls of that are in question. -/
theorem accords_of_handler {source : FutureId} {handler : Value}
    (hhandler : c.handler? = some (source, handler))
    (hcalled : (∃ call, calls = [call] ∧ c.Asks futures call) ∨
      calls = [] ∧ ∀ state, futures.state? source = some state → c.argument? state = none) :
    c.Accords futures f calls where
  called := by
    refine hcalled.imp_right fun ⟨hnil, hnone⟩ => ⟨hnil, fun source' handler' state h hstate => ?_⟩
    rw [hhandler] at h
    cases h
    exact hnone state hstate
  resolved := by
    rintro _ rfl
    cases hhandler
  failed := by
    rintro _ rfl
    cases hhandler
  pending := by
    rintro _ rfl
    cases hhandler

theorem accords_of_asks {call : HandlerCall γ} (h : c.Asks futures call) :
    c.Accords futures f [call] := by
  obtain ⟨source, state, hhandler, hstate, ha⟩ := h
  exact accords_of_handler hhandler (.inl ⟨call, rfl, source, state, hhandler, hstate, ha⟩)

theorem Rests.accords (h : c.Rests f s.scheduler out calls) :
    c.Accords s.scheduler.futures f calls := by
  rcases h with ⟨state, hf, hends, -⟩ | ⟨b, on, hahead, hsource, hwaits⟩
  · cases hends with
    | values hvalues => exact accords_of_values hvalues hf
    | failure hdone hfailed =>
      exact accords_of_first ⟨_, _, _, rfl, hdone, hfailed, nofun⟩ hf
    | passed hhandler hstate hsettled hother =>
      refine accords_of_handler hhandler (.inr ⟨rfl, fun state' hstate' => ?_⟩)
      rw [hstate] at hstate'
      cases hstate'
      exact hother
    | value hasks | followed hasks | lost hasks | failing hasks | early hasks =>
      exact accords_of_asks hasks
  · cases hahead with
    | @gather done rest vs hvalues =>
      obtain ⟨rest', rfl⟩ : ∃ rest', rest = on :: rest' := List.head?_eq_some_iff.1 hsource
      exact accords_of_first
        ⟨done, on, rest', rfl, resolved_of_values hvalues, hwaits.source, nofun⟩ hwaits.pending
    | @handle _ source handler hhandler =>
      have hon : source = on := by
        cases c <;> cases hhandler <;> exact Option.some.inj hsource
      refine accords_of_handler hhandler (.inr ⟨rfl, fun state hstate => ?_⟩)
      rw [hon, hwaits.source] at hstate
      cases hstate
      exact argument?_pending c
    | follow hasks => exact accords_of_asks hasks

end Combinator

open Combinator

variable [Gateway γ] {s t : Interpreter γ} {out out' : List (Task TaskBody)} {f : FutureId}
  {c : Combinator} {calls : List (HandlerCall γ)}

omit [Gateway γ] in
/-- A new combinator is active. -/
theorem Combinator.stands_new (s : Scheduler TaskBody) (out : List (Task TaskBody))
    (hahead : c.Ahead (s.spawn (.combinator c)).2.futures ([] : List (HandlerCall γ)) c) :
    c.Stands s.futures.size (s.spawn (.combinator c)).2 out ([] : List (HandlerCall γ)) := by
  refine .inr ⟨c, hahead, FutureTable.state?_create_self _, ?_⟩
  refine ⟨⟨s.nextTask, s.futures.size, .ready, .combinator c⟩, rfl, rfl, .inr ⟨s.nextTask, ?_, ?_⟩⟩
  · simp [Scheduler.spawn]
  · simp [Scheduler.spawn]

omit [Gateway γ] in
theorem Combinator.stands_spawn {op : FutureOp} {args : List Value} (h : op.Starts args c)
    (s : Scheduler TaskBody) (out : List (Task TaskBody)) :
    c.Stands s.futures.size (s.spawn (.combinator c)).2 out ([] : List (HandlerCall γ)) := by
  refine stands_new s out ?_
  cases h with
  | all sources => exact .gather .nil
  | _ => exact .handle rfl

namespace Interpreter

/-- Wherever a course leads, the combinator stands as the futures tell. -/
theorem TaskCourse.stands (h : s.TaskCourse f out calls t out') (hs : s.Orderly out)
    (hsources : ∀ g ∈ c.sources, g < s.scheduler.futures.size)
    (hstands : c.Stands f s.scheduler out ([] : List (HandlerCall γ))) :
    t.Orderly out' ∧ (∀ g ∈ c.sources, g < t.scheduler.futures.size) ∧
      c.Stands f t.scheduler out' calls := by
  induction h with
  | refl => exact ⟨hs, hsources, hstands⟩
  | move _ hmove hout ih =>
    obtain ⟨ht, hsources, hstands⟩ := ih
    have heffect := hmove.effect ht.reached
    exact ⟨ht.effect heffect, fun g hg => Nat.lt_of_lt_of_le (hsources g hg) heffect.later.size,
      hstands.move ht hmove hout⟩
  | slice _ hfuture fuel hrun ih =>
    obtain ⟨ht, hsources, hstands⟩ := ih
    obtain ⟨b, -, ⟨u, hu, hafter, hsize, hrests⟩ | ⟨_, _, _, _, _, _, herror⟩⟩ :=
      hstands.slice hfuture ht hsources fuel
    · rw [hu] at hrun
      cases hrun
      exact ⟨hafter, fun g hg => Nat.lt_of_lt_of_le (hsources g hg) hsize, .inl hrests⟩
    · rw [herror] at hrun
      cases hrun

/-- A course of the task leads to the state; the tasks `held` were taken out last. -/
def OnTaskCourse (f : FutureId) (s₀ : Interpreter γ) (out₀ held : List (Task TaskBody))
    (s : Interpreter γ) : Prop :=
  ∃ calls out, s₀.TaskCourse f out₀ calls s (held ++ out)

theorem OnTaskCourse.move {s₀ : Interpreter γ} {out₀ held held' : List (Task TaskBody)}
    (h : OnTaskCourse f s₀ out₀ held s) (hheld : held ⊆ held')
    (hmove : ∀ out, ∃ c, s.Move (held ++ out) c t (held' ++ out)) :
    OnTaskCourse f s₀ out₀ held' t := by
  obtain ⟨calls, out, hcourse⟩ := h
  obtain ⟨_, hmove⟩ := hmove out
  refine ⟨calls, out, hcourse.move hmove fun task htask _ => ?_⟩
  exact (List.mem_append.1 htask).elim (fun h => List.mem_append_left _ (hheld h))
    fun h => List.mem_append_right _ h

/-- A task that is not handed back stays out. -/
theorem OnTaskCourse.release {s₀ : Interpreter γ} {out₀ held : List (Task TaskBody)}
    (h : OnTaskCourse f s₀ out₀ held s) : OnTaskCourse f s₀ out₀ [] s := by
  obtain ⟨calls, out, hcourse⟩ := h
  exact ⟨calls, held ++ out, hcourse⟩

end Interpreter

open Interpreter (OnTaskCourse)

theorem Recur.sustains_taskCourse (fuel : Nat) {s₀ : Interpreter γ}
    {out₀ : List (Task TaskBody)} : (ofFuel fuel).Sustains (OnTaskCourse f s₀ out₀) := by
  refine sustains_of_move (fun hheld hs hmove => hs.move hheld hmove) (fun hs => hs.release)
    fun task => ?_
  have hkept : Interpreter.Kept (OnTaskCourse f s₀ out₀ [task]) :=
    Interpreter.kept_of_move fun hs hmove =>
      hs.move (List.Subset.refl _) fun out => hmove ([task] ++ out)
  by_cases hfuture : task.future = f
  · -- the slice is one of the task itself
    intro s hs
    have hend := leads_runTask hkept fuel (R := fun _ => True) task (fun _ hs => hs.release)
      (fun _ _ _ => trivial) s hs
    cases hrun : (ofFuel fuel).runTask task s with
    | ok _ t =>
      obtain ⟨calls, out, hcourse⟩ := hs
      have hcourse : s₀.TaskCourse f out₀ calls s ([] ++ task :: out) := hcourse
      exact ⟨_, [] ++ out, hcourse.slice hfuture fuel hrun⟩
    | error u t =>
      rw [hrun] at hend
      exact hend
  · refine leads_runTask hkept fuel task (fun _ hs => hs.release) fun s step hs => ?_
    obtain ⟨calls, out, hcourse⟩ := hs
    refine ⟨calls, out, hcourse.move (.handBack s [] out task step) fun other hother h => ?_⟩
    rcases List.mem_cons.1 hother with rfl | hother
    · exact absurd h hfuture
    · exact hother

/-- A combinator may be started on any futures, in any state that a program comes to. Whatever happens
then, and in whatever order, its task goes on by slices of its own alone. At any time the combinator
has come to its end, or waits for the next future it follows, or is active; a slice brings it to rest,
unless a call of its handler is cut off, and depends on the evaluator by that call alone. At rest it
accords with the states of the futures. -/
theorem combinator_accords_with_sources {checked : Checked} {options : Options} {gateway : γ}
    {cs : List Completion} {s : Interpreter γ} {out : List (Task TaskBody)}
    (hcourse : (Interpreter.start checked options gateway).Course [] cs s out) {op : FutureOp}
    {args : List Value} {c : Combinator} (hstarts : op.Starts args c)
    (hsources : ∀ g ∈ c.sources, g < s.scheduler.futures.size) :
    ∃ f s₁, Run.onFutures op args s = .ok (.future f) s₁ ∧
      (∀ calls t out', s₁.TaskCourse f out calls t out' →
        c.Stands f t.scheduler out' calls ∧
        (c.Rests f t.scheduler out' calls → c.Accords t.scheduler.futures f calls) ∧
        ∀ fuel before task after, out' = before ++ task :: after → task.future = f →
          ∃ b, task.body = .combinator b ∧
            ((∃ u, (Recur.ofFuel fuel).runTask task t = .ok () u ∧
              c.Rests f u.scheduler (before ++ after)
                (calls ++ (Recur.ofFuel fuel).handlerCalls task.body t)) ∨
            ∃ call ∈ (Recur.ofFuel fuel).handlerCalls task.body t, ∃ u,
              call.result = .error .exhausted u) ∧
            ∀ call : Host (Interpreter γ),
              (∀ p ∈ (Recur.ofFuel fuel).handlerCalls task.body t,
                call p.handler [p.argument] p.before = p.result) →
              { Recur.ofFuel fuel with call }.runCombinator b t =
                (Recur.ofFuel fuel).runCombinator b t) ∧
      ∀ fuel,
        (∀ e env, Run.Keeps (OnTaskCourse f s₁ out []) (evalWithin fuel e env)) ∧
        Run.Keeps (OnTaskCourse f s₁ out []) ((Recur.ofFuel fuel).step) ∧
        ∀ t, OnTaskCourse f s₁ out [] t → ∀ units,
          OnTaskCourse f s₁ out [] (t.execute fuel units).2 := by
  have hs := hcourse.orderly (Interpreter.start_orderly checked options gateway)
  refine ⟨_, _, Run.onFutures_of_starts hstarts s, fun calls t out' htask => ?_, fun fuel => ?_⟩
  · have hspawn : s.Move out none { s with scheduler := (s.scheduler.spawn (.combinator c)).2 } out :=
      .spawn (.combinator c)
    have heffect := hspawn.effect hs.reached
    obtain ⟨ht, htsources, hstands⟩ := htask.stands (hs.effect heffect)
      (fun g hg => Nat.lt_of_lt_of_le (hsources g hg) heffect.later.size)
      (stands_spawn hstarts s.scheduler out)
    refine ⟨hstands, Rests.accords, ?_⟩
    rintro fuel before task after rfl hfuture
    obtain ⟨b, hbody, hend⟩ := hstands.slice hfuture ht htsources fuel
    refine ⟨b, hbody, ?_, fun call hsame => Recur.runCombinator_same (hbody ▸ hsame)⟩
    refine hend.imp (fun ⟨u, hrun, _, _, hrests⟩ => ⟨u, hrun, hrests⟩) ?_
    rintro ⟨call, hcall, u, v, hresult, hstep, -⟩
    cases u with
    | exhausted => exact ⟨call, hcall, v, hresult⟩
    | fail | early => cases hstep
  · have hsustains : (Recur.ofFuel fuel).Sustains (OnTaskCourse s.scheduler.futures.size
        { s with scheduler := (s.scheduler.spawn (.combinator c)).2 } out) :=
      Recur.sustains_taskCourse fuel
    refine ⟨Recur.keeps_eval (hsustains.kept []) fuel, hsustains.step, fun t ht units => ?_⟩
    exact hsustains.execute
      (fun _ _ houtside _ hs => hs.move (List.Subset.refl _) fun _ => ⟨none, .inside houtside⟩)
      units ht

/-- A program with one future, which has failed. -/
def brokenState : Interpreter StockGateway :=
  let s : Interpreter StockGateway :=
    .start ⟨(Check.collectSchemas []).table, [], []⟩ .default (.null [])
  { s with
    scheduler := s.scheduler.createFuture.2.settle s.scheduler.createFuture.1
      (.failed ⟨.text "lost", 3⟩) }

/-- The builtin `len`, as a value. -/
def lengthOf : Value := .function ⟨0, []⟩ (.builtin (.collection .len))

/-- `on_error` gives the failure to its handler, and settles with the value of that. -/
theorem failure_is_measured :
    ∃ s calls t, Run.onFutures .onError [.future 0, lengthOf] brokenState = .ok (.future 1) s ∧
      s.TaskCourse 1 [] calls t [] ∧ t.scheduler.futures.state? 1 = some (.resolved (.int 4)) := by
  have hcourse : (Interpreter.start ⟨(Check.collectSchemas []).table, [], []⟩ .default
      (StockGateway.null [])).Course [] ([] ++ []) brokenState [] :=
    .move .refl (.settledFuture (.failed ⟨.text "lost", 3⟩) rfl)
  obtain ⟨f, s, hrun, hcombinator, -⟩ := combinator_accords_with_sources hcourse
    (.onError 0 lengthOf) (List.forall_mem_singleton.2 (by decide))
  have hstarted := Run.onFutures_of_starts (.onError 0 lengthOf) brokenState
  rw [hstarted] at hrun
  cases hrun
  let c : Combinator := .onError 0 lengthOf
  let s : Interpreter StockGateway :=
    { brokenState with scheduler := (brokenState.scheduler.spawn (.combinator c)).2 }
  let taken : Scheduler TaskBody :=
    { s.scheduler with
      ready := ⟨[], []⟩
      tasks := s.scheduler.tasks.erase 0 }
  let task : Task TaskBody := ⟨0, 1, .running, .combinator c⟩
  have hnext : s.scheduler.nextReady = (some task, taken) := by
    have htask : s.scheduler.tasks[0]? = some ⟨0, 1, .ready, .combinator c⟩ := by
      simp only [s, Scheduler.spawn, Std.HashMap.getElem?_insert]
      rfl
    have hpop : s.scheduler.ready.pop? = some (0, ⟨[], []⟩) := rfl
    simp [Scheduler.nextReady, Scheduler.takeReady, hpop, htask, task, taken]
  have htaken : s.TaskCourse 1 [] [] { s with scheduler := taken } ([] ++ task :: []) :=
    .move .refl (.take hnext) (List.forall_mem_nil _)
  obtain ⟨-, -, hslice⟩ := hcombinator _ _ _ htaken
  obtain ⟨b, -, hend, -⟩ := hslice 2 [] task [] rfl rfl
  let t : Interpreter StockGateway := { s with scheduler := taken }
  have hcalls : (Recur.ofFuel 2).handlerCalls task.body t =
      [⟨lengthOf, .text "lost", t.observed 0, .ok (.int 4) (t.observed 0)⟩] :=
    Recur.handlerCalls_of_some (r := .ofFuel 2) (s := t) rfl rfl rfl
  rw [hcalls] at hend
  rcases hend with ⟨u, hrun, hrests⟩ | ⟨call, hcall, u, hresult⟩
  · refine ⟨s, _, u, hstarted, htaken.slice rfl 2 hrun, ?_⟩
    rcases hrests with ⟨state, hf, hends, -⟩ | ⟨b, on, hahead, -⟩
    · cases hends with
      | value _ hresult =>
        cases hresult
        exact hf
      | followed _ hresult | lost _ hresult | failing _ hresult | early _ hresult => cases hresult
    · cases hahead with
      | follow _ hresult => cases hresult
  · cases List.mem_singleton.1 hcall
    cases hresult

end StreamLang
