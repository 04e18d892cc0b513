import StreamLang.Execution
import StreamLang.Proofs.Unreachable.Machine

/-! Vigilant runs. A vigilant evaluator stops at any `await` that it is given, and a vigilant slice
does not make a failed future of an internal fault, but lets it out, so that it ends the whole run.
A run that goes on as the vigilant one does, which does not end so, has never met an internal fault.
-/

namespace StreamLang

variable {γ : Type}

def Unwind.isInternal : Unwind → Bool
  | fail fault _ => fault.isInternal
  | early _ _ => false
  | exhausted => false

/-- What a run of a program is made of: the evaluator, and what a slice of a task comes to. -/
structure Runner (γ : Type) where
  recur : Recur γ
  slice : TaskBody → Run γ TaskStep

namespace Runner

def runTask (r : Runner γ) (task : Task TaskBody) : Run γ Unit := do
  let step ← r.slice task.body
  Run.withScheduler fun s =>
    match step with
    | .complete v => ((), s.complete task v)
    | .suspend on body => ((), s.suspend { task with body } on)
    | .fail f => ((), s.fail task f)

variable [Gateway γ]

def step (r : Runner γ) : Run γ Bool := do
  match ← Run.withScheduler Scheduler.nextReady with
  | some task =>
    Run.countStep
    r.runTask task
    return true
  | none =>
    match ← Run.ofGateway Gateway.poll with
    | some c =>
      Run.receive c
      return true
    | none =>
      if 0 < Gateway.outstanding (← get).gateway then
        Run.ofGateway Gateway.wait
        return true
      else return false

def settle (r : Runner γ) (line : Nat) (id : FutureId) : Nat → Run γ Value
  | 0 => throw .exhausted
  | fuel + 1 => do
    match ← Run.futureState? id with
    | some (.resolved v) =>
      Run.markObserved id
      return v
    | some (.failed f) =>
      Run.markObserved id
      Eval.failAt (.failedFuture f.message) (if f.line = 0 then line else f.line)
    | some .pending =>
      if ← r.step.located line then settle r line id fuel
      else Eval.failAt .neverResolves line
    | none => Eval.failAt .unknownFuture line

def drain (r : Runner γ) : Nat → Run γ Unit
  | 0 => throw .exhausted
  | fuel + 1 => do
    if ← r.step then drain r fuel

def runRoot (r : Runner γ) (line : Nat) (e : Expr) : Run γ Value := do
  let module := (← get).current
  let id ← Run.withScheduler (·.spawn (.machine (.start e Env.empty module true)))
  r.settle line id r.recur.fuel

def runLet (r : Runner γ) (module line : Nat) (d : LetDecl) : Run γ Unit := do
  let v ← r.runRoot line d.value
  (r.recur.checkOptional d.ty v line).atTop line
  let bindings ← (Run.destructure d.pattern v).atTop line
  Run.bindGlobals module bindings

def runExpr (r : Runner γ) (line : Nat) (e : Expr) : Run γ Value := do
  match ← r.runRoot line e with
  | .future id => r.settle line id r.recur.fuel
  | v => return v

def runItem (r : Runner γ) (module : Nat) (isMain : Bool) (i : Item) : Run γ Unit := do
  modify fun s => { s with current := module }
  match i.kind with
  | .binding d => r.runLet module i.span.line d
  | .expr e =>
    let v ← r.runExpr i.span.line e
    if isMain then modify fun s => { s with results := s.results.push v }
  | _ => return ()

def runUnit (r : Runner γ) (isMain : Bool) (u : ModuleUnit) : Run γ Unit := do
  let module ← Run.load u
  u.program.items.forM (r.runItem module isMain)

def runUnits (r : Runner γ) : List ModuleUnit → Run γ Unit
  | [] => return ()
  | u :: rest => do
    r.runUnit rest.isEmpty u
    runUnits r rest

def runProgram (r : Runner γ) (units : List ModuleUnit) : Run γ Unit := do
  modify fun s => { s with results := #[] }
  r.runUnits units
  r.drain r.recur.fuel

end Runner

namespace Recur

/-- A run as it is: a slice that unwinds ends its task. -/
def runner (r : Recur γ) : Runner γ := ⟨r, r.runSlice⟩

/-- A slice out of which an internal fault comes. -/
def strictSlice (r : Recur γ) (body : TaskBody) : Run γ TaskStep := fun s =>
  match r.runBodyOf body s with
  | .ok step s => .ok step s
  | .error u s =>
    if u.isInternal then .error u s
    else
      match u.taskStep? body.isRoot with
      | some step => .ok step s
      | none => .error u s

section

variable [Gateway γ]

/-- The evaluator, except that it stops at an `await`. -/
def vigilant : Nat → Recur γ
  | 0 => ofFuel 0
  | fuel + 1 =>
    { fuel := fuel + 1
      eval e env :=
        if e.isAwait then Eval.failAt .pendingAwait e.line
        else ((vigilant fuel).evalNode e env).located e.line
      call := (vigilant fuel).callValue }

theorem runner_settle (r : Recur γ) (line : Nat) (id : FutureId) (bound : Nat) :
    r.runner.settle line id bound = r.settle line id bound := by
  induction bound with
  | zero => rfl
  | succ bound ih =>
    simp only [Runner.settle, ih]
    rfl

theorem runner_drain (r : Recur γ) (bound : Nat) : r.runner.drain bound = r.drain bound := by
  induction bound with
  | zero => rfl
  | succ bound ih =>
    simp only [Runner.drain, ih]
    rfl

theorem runner_runRoot (r : Recur γ) (line : Nat) (e : Expr) :
    r.runner.runRoot line e = r.runRoot line e := by
  simp only [Runner.runRoot, runner_settle]
  rfl

theorem runner_runItem (r : Recur γ) (module : Nat) (isMain : Bool) :
    r.runner.runItem module isMain = r.runItem module isMain := by
  funext i
  simp only [Runner.runItem, Runner.runLet, Runner.runExpr, runner_runRoot, runner_settle]
  rfl

theorem runner_runUnits (r : Recur γ) (units : List ModuleUnit) :
    r.runner.runUnits units = r.runUnits units := by
  induction units with
  | nil => rfl
  | cons u rest ih =>
    simp only [Runner.runUnits, Runner.runUnit, runner_runItem, ih]
    rfl

theorem runner_runProgram (r : Recur γ) (units : List ModuleUnit) :
    r.runner.runProgram units = r.runProgram units := by
  simp only [Runner.runProgram, runner_runUnits, runner_drain]
  rfl

end

end Recur

/-- The run in which nothing internal goes wrong unnoticed. -/
def Runner.vigilant [Gateway γ] (fuel : Nat) : Runner γ :=
  ⟨Recur.vigilant fuel, (Recur.vigilant fuel).strictSlice⟩

/-- From every sound state the two runs go alike, and meet no internal fault. -/
structure Runner.Secure (r r' : Runner γ) : Prop where
  recur : r.recur.Secure r'.recur
  slice : ∀ {n body}, TaskBody.Fits n body →
    Run.Secure n TaskStep.Fits (r.slice body) (r'.slice body)

namespace Recur

/-- The evaluator is given no `await`. -/
theorem vigilant_secure [Gateway γ] (fuel : Nat) :
    (ofFuel (γ := γ) fuel).Secure (vigilant fuel) := by
  induction fuel with
  | zero => exact ⟨rfl, fun _ _ => .exhausted, fun _ _ => .exhausted⟩
  | succ fuel ih =>
    refine ⟨rfl, fun {n e env} he henv => ?_, ih.callValue⟩
    have hawait : e.isAwait = false := by
      have hwaits := he.not_suspends rfl
      cases e with
      | await => cases hwaits
      | _ => rfl
    have heval : (vigilant (γ := γ) (fuel + 1)).eval e env =
        ((vigilant fuel).evalNode e env).located e.line := by
      simp only [vigilant, hawait, Bool.false_eq_true, if_false]
    rw [heval]
    exact .located (ih.evalNode he henv) _

namespace Secure

variable {r r' : Recur γ} (h : r.Secure r') {n : Nat}
include h

/-- No slice has an internal fault to let out. -/
theorem strictSlice {body : TaskBody} (hbody : body.Fits n) :
    Run.Secure n TaskStep.Fits (r.runSlice body) (r'.strictSlice body) := by
  intro s hs
  obtain ⟨hsame, hends⟩ := h.runBodyOf hbody s hs
  unfold Recur.runSlice Recur.strictSlice
  rw [hsame]
  cases hrun : r.runBodyOf body s with
  | ok step t =>
    rw [hrun] at hends
    exact ⟨rfl, hends⟩
  | error u t =>
    rw [hrun] at hends
    obtain ⟨ht, hu⟩ := hends
    cases u with
    | fail fault line =>
      have hmild : fault.isInternal = false := Bool.eq_false_iff.2 hu
      simp only [Unwind.isInternal, hmild]
      exact ⟨rfl, ht, Value.every_text _⟩
    | early v line =>
      refine ⟨rfl, ht, ?_⟩
      cases body.isRoot with
      | true => exact Value.every_text _
      | false => exact hu
    | exhausted => exact ⟨rfl, ht, trivial⟩

theorem runner : r.runner.Secure ⟨r', r'.strictSlice⟩ := ⟨h, h.strictSlice⟩

end Secure

end Recur

end StreamLang

/-! Runs of programs are secure, from the items at the top of each module down to the slices of
their tasks, whatever the provider answers. -/

namespace StreamLang

/-- Code at the top of a module, where an `await` may stand. -/
def ItemKind.Placed : ItemKind → Prop
  | binding d => d.value.Placed true
  | expr e => e.Placed true
  | _ => True

/-- The predicate of an alias, which is never a place for an `await`. -/
def ItemKind.PredicatePlaced : ItemKind → Prop
  | typeAlias d => ∀ p, d.predicate = some p → p.Placed false
  | _ => True

/-- All code of the module is in place. -/
structure ModuleUnit.Placed (u : ModuleUnit) : Prop where
  functions : ∀ d ∈ u.functions, d.body.Placed d.isAsync
  items : ∀ i ∈ u.program.items, i.kind.Placed
  predicates : ∀ i ∈ u.program.items, i.kind.PredicatePlaced

namespace Run

variable {γ α : Type} {n : Nat} {P : Nat → α → Prop}

theorem Secure.atTop {x y : Run γ α} (h : Secure n P x y) (line : Nat) :
    Secure n P (Run.atTop line x) (Run.atTop line y) := by
  intro s hs
  obtain ⟨hsame, hends⟩ := h.located line s hs
  unfold Run.atTop
  rw [hsame]
  cases hx : x.located line s with
  | ok a t =>
    rw [hx] at hends
    exact ⟨rfl, hends⟩
  | error u t =>
    rw [hx] at hends
    cases u with
    | early v inner => exact ⟨rfl, hends.1, Bool.false_ne_true⟩
    | _ => exact ⟨rfl, hends⟩

theorem ofGateway_secure (f : γ → Except String α × γ) :
    Secure n Anything (ofGateway f) (ofGateway f) := by
  refine .bind (.modifyGet (P := Anything) fun _ hs =>
    ⟨hs.self.of_same ⟨rfl, rfl, rfl, rfl⟩, trivial⟩) fun _ _ reply _ => ?_
  cases reply with
  | ok a => exact .pure fun _ _ => trivial
  | error message => exact .fail rfl

theorem countStep_secure : Secure n Anything (countStep (γ := γ)) countStep := by
  refine .bind (.modify_same fun _ => ⟨rfl, rfl, rfl, rfl⟩) fun _ _ _ _ => .get_bind fun s _ => ?_
  split
  · exact .fail rfl
  · exact .pure fun _ _ => trivial

theorem nextReady_secure : Secure n (fun m next => ∀ task, next = some task → task.body.Fits m)
    (withScheduler (γ := γ) Scheduler.nextReady) (withScheduler Scheduler.nextReady) :=
  withScheduler_secure fun s hs _ => by
    obtain ⟨hsound, hwidth, hnext⟩ := hs.takeReady (s.nextTask + 1) rfl
    rw [← hwidth] at hnext
    exact ⟨hsound, Nat.le_of_eq hwidth.symm, hnext⟩

/-- An answer is data, and a future that there is already gets it. -/
theorem receive_secure (c : Completion) :
    Secure n Anything (receive (γ := γ) c) (receive c) := by
  refine .modify fun s hs => ?_
  cases s.requests.find? (·.request == c.id) with
  | none => exact hs.self
  | some o =>
    have hwidth := Scheduler.width_settle (s := s.scheduler) o.future
      (.resolved (replyValue o.op c.reply))
    have hsound := hs.sound.scheduler.settle (.resolved (replyValue o.op c.reply))
      (replyValue_every o.op c.reply) o.future
    have hs' := hs.sound.withScheduler hsound (Nat.le_of_eq hwidth.symm)
    exact ⟨hs'.of_same ⟨rfl, rfl, rfl, rfl⟩, Nat.le_of_eq hwidth.symm⟩

/-- Names that are imported stand for what they do in their own modules. -/
theorem importedGlobals_fit {modules : Array ModuleScope}
    (h : ∀ scope ∈ modules, EntriesFit n scope.globals) (imports : List ResolvedImport) :
    EntriesFit n (importedGlobals modules imports) := by
  intro e he
  obtain ⟨i, -, hi⟩ := List.mem_filterMap.1 he
  split at hi
  · cases hi
  · obtain ⟨v, hv, rfl⟩ := Option.map_eq_some_iff.1 hi
    obtain ⟨scope, hscope, hget⟩ := Option.bind_eq_some_iff.1 hv
    have hfits := h scope (Array.mem_of_find?_eq_some hscope) _ (Keyed.mem_of_get? hget)
    exact hfits

theorem functionGlobals_secure (module : Nat) {decls : List FunctionDecl}
    (h : ∀ d ∈ decls, d.body.Placed d.isAsync) :
    Secure n EntriesFit (functionGlobals (γ := γ) module decls) (functionGlobals module decls) := by
  induction decls generalizing n with
  | nil => exact .pure fun _ _ => List.forall_mem_nil _
  | cons d rest ih =>
    obtain ⟨hd, hrest⟩ := List.forall_mem_cons.1 h
    refine .bind (newFunction_secure (c := .closure d Env.empty module) hd AllEvery.nil)
      fun _ _ f hf => ?_
    refine .bind (ih hrest) fun _ hm more hmore => .pure fun _ hk => ?_
    exact List.forall_mem_cons.2 ⟨hf.mono (Nat.le_trans hm hk), EntriesEvery.mono hmore hk⟩

theorem load_secure {u : ModuleUnit} (hu : u.Placed) :
    Secure n Anything (load (γ := γ) u) (load u) := by
  refine .get_bind fun s hs => .get_bind fun t ht => ?_
  have himported := importedGlobals_fit ht.sound.globals u.imports
  refine .bind (functionGlobals_secure s.modules.size hu.functions) fun m hm functions hf => ?_
  have hall : EntriesFit m (Keyed.ofList (importedGlobals t.modules u.imports ++ functions)) :=
    Keyed.forall_foldl_insert (List.forall_mem_nil _)
      (List.forall_mem_append.2 ⟨EntriesEvery.mono himported hm, hf⟩)
  refine .bind (.modify fun k hk => ⟨⟨hk.sound.predicates, fun scope hscope => ?_, hk.sound.memo,
    hk.sound.scheduler⟩, Nat.le_refl _⟩) fun _ _ _ _ => .pure fun _ _ => trivial
  obtain hold | rfl := Array.mem_push.1 hscope
  · exact hk.sound.globals scope hold
  · exact EntriesEvery.mono hall hk.width

theorem bindGlobals_secure (module : Nat) {bindings : List (String × Value)}
    (hb : EntriesFit n bindings) :
    Secure n Anything (bindGlobals (γ := γ) module bindings) (bindGlobals module bindings) := by
  refine .modify fun s hs => ⟨⟨hs.sound.predicates, fun scope hscope => ?_, hs.sound.memo,
    hs.sound.scheduler⟩, Nat.le_refl _⟩
  obtain ⟨i, hi, rfl⟩ := Array.mem_iff_getElem.1 hscope
  have hi' : i < s.modules.size := Nat.lt_of_lt_of_eq hi Array.size_modify
  have hold := hs.sound.globals s.modules[i] (Array.getElem_mem hi')
  rw [Array.getElem_modify]
  split
  · exact Keyed.forall_foldl_insert hold (hb.mono hs.width)
  · exact hold

end Run

namespace Runner.Secure

variable {γ : Type} {r r' : Runner γ} (h : r.Secure r') {n : Nat}
include h

theorem runTask {task : Task TaskBody} (htask : task.body.Fits n) :
    Run.Secure n Run.Anything (r.runTask task) (r'.runTask task) := by
  refine .bind (h.slice htask) fun m _ step hstep => ?_
  refine Run.withScheduler_secure fun s hs hm => ?_
  cases step with
  | complete v =>
    exact ⟨hs.settle (.resolved v) (Value.Every.mono hstep hm) _,
      Nat.le_of_eq (Scheduler.width_settle _ _).symm, trivial⟩
  | suspend on body =>
    exact ⟨hs.suspend { task with body } (TaskBody.Fits.mono hm hstep) on,
      Nat.le_of_eq (Scheduler.width_suspend _ _).symm, trivial⟩
  | fail f =>
    exact ⟨hs.settle (.failed f) (Value.Every.mono hstep hm) _,
      Nat.le_of_eq (Scheduler.width_settle _ _).symm, trivial⟩

variable [Gateway γ]

/-- One unit of progress. -/
theorem step : Run.Secure n Run.Anything r.step r'.step := by
  refine .bind Run.nextReady_secure fun m _ next hnext => ?_
  cases next with
  | some task =>
    refine .bind Run.countStep_secure fun _ hk _ _ => ?_
    refine .bind (h.runTask (TaskBody.Fits.mono hk (hnext task rfl))) fun _ _ _ _ => ?_
    exact .pure fun _ _ => trivial
  | none =>
    refine .bind (Run.ofGateway_secure _) fun _ _ c? _ => ?_
    cases c? with
    | some c => exact .bind (Run.receive_secure c) fun _ _ _ _ => .pure fun _ _ => trivial
    | none =>
      refine .get_bind fun s _ => ?_
      split
      · exact .bind (Run.ofGateway_secure _) fun _ _ _ _ => .pure fun _ _ => trivial
      · exact .pure fun _ _ => trivial

/-- The future that is waited for is one there is, so that it is never unknown. -/
theorem settle (line : Nat) {id : FutureId} (hid : id < n) (bound : Nat) :
    Run.Secure n Value.Fits (r.settle line id bound) (r'.settle line id bound) := by
  induction bound generalizing n with
  | zero => exact .exhausted
  | succ bound ih =>
    refine .bind (Run.futureState?_secure hid) fun _ hm found hfound => ?_
    obtain ⟨state, rfl, hstate⟩ := hfound
    cases state with
    | resolved v =>
      exact .bind (Run.markObserved_secure id) fun _ hk _ _ =>
        .pure fun _ hl => Value.Every.mono hstate (Nat.le_trans hk hl)
    | failed f => exact .bind (Run.markObserved_secure id) fun _ _ _ _ => .failAt rfl _
    | pending =>
      refine .bind (h.step.located line) fun _ hk moved _ => ?_
      split
      · exact ih (Nat.lt_of_lt_of_le hid (Nat.le_trans hm hk))
      · exact .failAt rfl line

theorem drain (bound : Nat) : Run.Secure n Run.Anything (r.drain bound) (r'.drain bound) := by
  induction bound generalizing n with
  | zero => exact .exhausted
  | succ bound ih =>
    refine .bind h.step fun _ _ moved _ => ?_
    split
    · exact ih
    · exact .pure fun _ _ => trivial

theorem runRoot (line : Nat) {e : Expr} (he : e.Placed true) :
    Run.Secure n Value.Fits (r.runRoot line e) (r'.runRoot line e) := by
  refine .get_bind fun s hs => ?_
  rw [h.recur.fuel]
  refine .bind (Run.spawnBody_secure
    (List.forall_mem_singleton.2 ⟨he, AllEvery.nil⟩)) fun _ _ id hid => h.settle line hid _

theorem runLet (module line : Nat) {d : LetDecl} (hd : d.value.Placed true) :
    Run.Secure n Run.Anything (r.runLet module line d) (r'.runLet module line d) := by
  refine .bind (h.runRoot line hd) fun _ _ v hv => ?_
  refine .bind ((h.recur.checkOptional d.ty hv line).atTop line) fun _ hm _ _ => ?_
  refine .bind ((Run.destructure_secure d.pattern (hv.mono hm)).atTop line) fun _ _ bindings hb => ?_
  exact Run.bindGlobals_secure module hb

theorem runExpr (line : Nat) {e : Expr} (he : e.Placed true) :
    Run.Secure n Value.Fits (r.runExpr line e) (r'.runExpr line e) := by
  refine .bind (h.runRoot line he) fun _ _ v hv => ?_
  cases v with
  | future id =>
    dsimp only
    rw [h.recur.fuel]
    exact h.settle line (Value.every_future.1 hv) _
  | _ => exact .pure fun _ hm => hv.mono hm

theorem runItem (module : Nat) (isMain : Bool) {i : Item} (hi : i.kind.Placed) :
    Run.Secure n Run.Anything (r.runItem module isMain i) (r'.runItem module isMain i) := by
  refine .bind (.modify_same fun _ => ⟨rfl, rfl, rfl, rfl⟩) fun _ _ _ _ => ?_
  obtain ⟨kind, exported, span⟩ := i
  cases kind with
  | binding d => exact h.runLet module span.line hi
  | expr e =>
    refine .bind (h.runExpr span.line hi) fun _ _ v _ => ?_
    split
    · exact .modify_same fun _ => ⟨rfl, rfl, rfl, rfl⟩
    · exact .pure fun _ _ => trivial
  | _ => exact .pure fun _ _ => trivial

theorem runUnits {units : List ModuleUnit} (hunits : ∀ u ∈ units, u.Placed) :
    Run.Secure n Run.Anything (r.runUnits units) (r'.runUnits units) := by
  induction units generalizing n with
  | nil => exact .pure fun _ _ => trivial
  | cons u rest ih =>
    obtain ⟨hu, hrest⟩ := List.forall_mem_cons.1 hunits
    have hunit : Run.Secure n Run.Anything (r.runUnit rest.isEmpty u) (r'.runUnit rest.isEmpty u) :=
      .bind (Run.load_secure hu) fun _ _ module _ =>
        .forM fun i hi => h.runItem module _ (hu.items i hi)
    exact .bind hunit fun _ _ _ _ => ih hrest

/-- No run of a program whose code is in place meets an internal fault. -/
theorem runProgram {units : List ModuleUnit} (hunits : ∀ u ∈ units, u.Placed) :
    Run.Secure n Run.Anything (r.runProgram units) (r'.runProgram units) := by
  refine .bind (.modify_same fun _ => ⟨rfl, rfl, rfl, rfl⟩) fun _ _ _ _ => ?_
  refine .bind (h.runUnits hunits) fun _ _ _ _ => ?_
  rw [h.recur.fuel]
  exact h.drain _

end Runner.Secure

end StreamLang
