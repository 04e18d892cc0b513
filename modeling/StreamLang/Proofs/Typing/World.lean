import StreamLang.Proofs.Combinators.Sources

/-! The states that a program may come to. What a task that is under way now ends with is not known. The
others have their turns, and go on by slices of their own alone. -/

namespace StreamLang

variable {γ : Type}

/-- What is remembered, declared and bound in the first state is so in the second. -/
structure Interpreter.Retains (s t : Interpreter γ) : Prop where
  memo : t.memo = s.memo
  options : t.options = s.options
  schemas : t.schemas = s.schemas
  pure : t.pure = s.pure
  modules : ∀ (m : Nat) (scope : ModuleScope), s.modules[m]? = some scope →
    ∃ scope' : ModuleScope, t.modules[m]? = some scope' ∧ scope'.name = scope.name ∧
      ∀ n v, Keyed.get? n scope.globals = some v → Keyed.get? n scope'.globals = some v

theorem Interpreter.Retains.of_loaded {s t : Interpreter γ} (hmemo : t.memo = s.memo)
    (hloaded : t.loaded = s.loaded) : s.Retains t where
  memo := hmemo
  options := congrArg Loaded.options hloaded
  schemas := congrArg Loaded.schemas hloaded
  pure := congrArg Loaded.pure hloaded
  modules m scope h := by
    have hmodules : t.modules = s.modules := congrArg Loaded.modules hloaded
    exact ⟨scope, hmodules ▸ h, rfl, fun _ _ hv => hv⟩

/-- The turn of a task, with the state at its end. -/
structure Turn (γ : Type) where
  task : Task TaskBody
  settled : Interpreter γ

/-- A state, the tasks that are under way in it, and the turn of a further one. -/
structure World (γ : Type) where
  state : Interpreter γ
  running : List (Task TaskBody)
  turn : Option (Turn γ)

namespace World

/-- The tasks that are taken out of the scheduler. -/
def out (w : World γ) : List (Task TaskBody) := (w.turn.map Turn.task).toList ++ w.running

/-- The same turn in another state. -/
def withState (w : World γ) (s : Interpreter γ) : World γ := { w with state := s }

variable [Gateway γ] {w w' t u : World γ} {s : Interpreter γ}

/-- Something happens, and the same tasks are under way. -/
inductive Step (w : World γ) : Interpreter γ → Prop
  | move {s : Interpreter γ} {c : Option Completion}
      (hmove : w.state.Move w.out c s w.out) (hretains : w.state.Retains s) : Step w s
  | eval (fuel : Nat) (e : Expr) (env : Env) : Step w (endState (evalWithin fuel e env w.state))
  | call (fuel : Nat) (f : Value) (args : List Value) :
    Step w (endState (callWithin fuel f args w.state))

/-- The second world comes after the first in the same turn. -/
inductive Onward (w : World γ) : World γ → Prop
  | refl : Onward w w
  | step {t : World γ} {s : Interpreter γ} (h : Onward w t) (hstep : t.Step s) : Onward w (t.withState s)

/-- The task is taken out, and its turn ends as its slice does, which starts somewhere in the turn. -/
structure Begins (s : Interpreter γ) (running : List (Task TaskBody))
    (scheduler : Scheduler TaskBody) (turn : Turn γ) : Prop where
  next : s.scheduler.nextReady = (some turn.task, scheduler)
  slice : ∃ (t : World γ) (fuel : Nat), Onward ⟨{ s with scheduler }, running, some turn⟩ t ∧
    (Recur.ofFuel fuel).runTask turn.task t.state = .ok () turn.settled

/-- The program may come from the first world to the second. -/
inductive Later (w : World γ) : World γ → Prop
  | refl : Later w w
  | step {t : World γ} {s : Interpreter γ} (h : Later w t) (hstep : t.Step s) : Later w (t.withState s)
  /-- A task that is under way is handed back in some way. -/
  | handBack {s : Interpreter γ} {before after : List (Task TaskBody)} {task : Task TaskBody}
      (h : Later w ⟨s, before ++ task :: after, none⟩) (step : TaskStep) :
    Later w ⟨{ s with scheduler := s.scheduler.handBack task step }, before ++ after, none⟩
  /-- A task has its turn. -/
  | turn {s : Interpreter γ} {running : List (Task TaskBody)} {scheduler : Scheduler TaskBody}
      {turn : Turn γ} (h : Later w ⟨s, running, none⟩) (hbegins : Begins s running scheduler turn) :
    Later w ⟨turn.settled, running, none⟩
  /-- It is in its turn. -/
  | begin {s : Interpreter γ} {running : List (Task TaskBody)} {scheduler : Scheduler TaskBody}
      {turn : Turn γ} (h : Later w ⟨s, running, none⟩) (hbegins : Begins s running scheduler turn) :
    Later w ⟨{ s with scheduler }, running, some turn⟩
  /-- What happened in the turn was on the way to its end. -/
  | finish {s : Interpreter γ} {running : List (Task TaskBody)} {task : Task TaskBody}
      {step : TaskStep}
      (h : Later w ⟨s, running,
        some ⟨task, { s with scheduler := s.scheduler.handBack task step }⟩⟩) :
    Later w ⟨{ s with scheduler := s.scheduler.handBack task step }, running, none⟩

theorem Onward.trans (h : w.Onward w') (h' : w'.Onward t) : w.Onward t := by
  induction h' with
  | refl => exact h
  | step _ hstep ih => exact ih.step hstep

theorem Onward.eq_withState (h : w.Onward w') : w' = w.withState w'.state := by
  induction h with
  | refl => rfl
  | step _ _ ih => rw [ih]; rfl

theorem Onward.later (h : w.Onward w') : w.Later w' := by
  induction h with
  | refl => exact .refl
  | step _ hstep ih => exact ih.step hstep

theorem Later.trans (h : w.Later w') (h' : w'.Later t) : w.Later t := by
  induction h' with
  | refl => exact h
  | step _ hstep ih => exact ih.step hstep
  | handBack _ step ih => exact ih.handBack step
  | turn _ hbegins ih => exact ih.turn hbegins
  | begin _ hbegins ih => exact ih.begin hbegins
  | finish _ ih => exact ih.finish

/-- A call leads on. -/
theorem onward_call {fuel : Nat} {f v : Value} {args : List Value}
    (h : callWithin fuel f args w.state = .ok v s) : w.Onward (w.withState s) := by
  have hstep := Step.call (w := w) fuel f args
  rw [h] at hstep
  exact Onward.refl.step hstep

/-- A future is looked at. -/
theorem step_observed (w : World γ) (id : FutureId) : w.Step (w.state.observed id) :=
  .move (.markObserved id) (.of_loaded rfl rfl)

section

variable {Q : Interpreter γ → List (Task TaskBody) → Prop}

theorem Step.keeps (h : w.Step s) (hQ : Q w.state w.out)
    (hmove : ∀ {s t out c}, Q s out → s.Move out c t out → Q t out) : Q s w.out := by
  have hkept : Interpreter.Kept fun s => Q s w.out :=
    Interpreter.kept_of_move fun hs hmoves => by
      obtain ⟨c, hm⟩ := hmoves w.out
      exact hmove hs hm
  cases h with
  | move hm => exact hmove hQ hm
  | eval fuel e env => exact (Recur.keeps_eval hkept fuel e env).endState hQ
  | call fuel f args => exact (Recur.keeps_call hkept fuel f args).endState hQ

theorem Onward.keeps (h : w.Onward w') (hQ : Q w.state w.out)
    (hmove : ∀ {s t out c}, Q s out → s.Move out c t out → Q t out) : Q w'.state w'.out := by
  induction h with
  | refl => exact hQ
  | step _ hstep ih => exact hstep.keeps ih hmove

/-- A run of a task, which is handed back at the end. -/
theorem keeps_runTask {s u : Interpreter γ} {running : List (Task TaskBody)}
    {task : Task TaskBody} {fuel : Nat} (hQ : Q s (task :: running))
    (hmove : ∀ {s t out c}, Q s out → s.Move out c t out → Q t out)
    (hback : ∀ {s} step, Q s (task :: running) →
      Q { s with scheduler := s.scheduler.handBack task step } running)
    (hrun : (Recur.ofFuel fuel).runTask task s = .ok () u) : Q u running := by
  have hkept : Interpreter.Kept fun s => Q s (task :: running) :=
    Interpreter.kept_of_move fun hs hmoves => by
      obtain ⟨c, hm⟩ := hmoves (task :: running)
      exact hmove hs hm
  exact (Recur.leads_runTask hkept fuel (E := fun _ => True) (R := fun s => Q s running) task
    (fun _ _ => trivial) fun s step hs => hback step hs).of_ok hQ hrun

/-- What all moves keep. -/
theorem Later.keeps (h : w.Later w') (hQ : Q w.state w.out)
    (hmove : ∀ {s t out out' c}, Q s out → s.Move out c t out' → Q t out') :
    Q w'.state w'.out := by
  induction h with
  | refl => exact hQ
  | step _ hstep ih => exact hstep.keeps ih hmove
  | @handBack s before after task _ step ih => exact hmove ih (.handBack s before after task step)
  | @turn s running scheduler turn _ hbegins ih =>
    obtain ⟨t, fuel, honward, hrun⟩ := hbegins.slice
    have ht : Q t.state t.out := honward.keeps (hmove ih (.take hbegins.next)) hmove
    rw [honward.eq_withState] at ht
    exact keeps_runTask ht hmove (fun step hs => hmove hs (.handBack _ [] running _ step)) hrun
  | begin _ hbegins ih => exact hmove ih (.take hbegins.next)
  | @finish s running task step _ ih => exact hmove ih (.handBack s [] running task step)

end

theorem Later.orderly (h : w.Later w') (hw : w.state.Orderly w.out) : w'.state.Orderly w'.out :=
  h.keeps hw fun hs hmove => hs.effect (hmove.effect hs.reached)

theorem Step.schemas (h : w.Step s) : s.schemas = w.state.schemas := by
  have hkept : Interpreter.Kept fun s : Interpreter γ => s.schemas = w.state.schemas :=
    Interpreter.kept_of_loaded fun hs hloaded => (congrArg Loaded.schemas hloaded).trans hs
  cases h with
  | move _ hretains => exact hretains.schemas
  | eval fuel e env => exact (Recur.keeps_eval hkept fuel e env).endState rfl
  | call fuel f args => exact (Recur.keeps_call hkept fuel f args).endState rfl

theorem Onward.schemas (h : w.Onward w') : w'.state.schemas = w.state.schemas := by
  induction h with
  | refl => rfl
  | step _ hstep ih => exact hstep.schemas.trans ih

theorem Later.schemas (h : w.Later w') : w'.state.schemas = w.state.schemas := by
  induction h with
  | refl => rfl
  | step _ hstep ih => exact hstep.schemas.trans ih
  | turn _ hbegins ih =>
    obtain ⟨t, fuel, honward, hrun⟩ := hbegins.slice
    have hkept : Interpreter.Kept fun s : Interpreter γ => s.schemas = t.state.schemas :=
      Interpreter.kept_of_loaded fun hs hloaded => (congrArg Loaded.schemas hloaded).trans hs
    have hsettled := (Recur.leads_runTask hkept fuel (E := fun _ => True)
      (R := fun s => s.schemas = t.state.schemas) _ (fun _ _ => trivial)
      fun _ _ hs => hs).of_ok rfl hrun
    exact hsettled.trans (honward.schemas.trans ih)
  | handBack _ _ ih | begin _ _ ih | finish _ ih => exact ih

/-- The states of futures that are there are not taken back. -/
theorem Later.futures (h : w.Later w') (hw : w.state.Orderly w.out) :
    w.state.scheduler.futures.Later w'.state.scheduler.futures := by
  refine (h.keeps (Q := fun s out => s.Orderly out ∧
    w.state.scheduler.futures.Later s.scheduler.futures) ⟨hw, .refl _⟩ fun hs hmove => ?_).2
  have heffect := hmove.effect hs.1.reached
  exact ⟨hs.1.effect heffect, hs.2.trans heffect.later⟩

end World

end StreamLang
