import StreamLang.Proofs.Charter.Machine
import StreamLang.Proofs.Running

/-! Runs of programs keep to a charter, under every watch that the charter meets: the slices of tasks,
the items at the top of each module, and the modules one after the other. -/

namespace StreamLang

variable {γ : Type} {C : Charter} {due : FutureId → Value → Prop}

/-- Of one future more is said. -/
def Toward (due : FutureId → Value → Prop) (id : FutureId) (Q : Value → Prop) (other : FutureId)
    (v : Value) : Prop :=
  due other v ∧ (other = id → Q v)

namespace Charter

/-- The module may be run as the `k`-th. -/
structure Opens (C : Charter) (k : Nat) (u : ModuleUnit) : Prop where
  functions : ∀ d ∈ u.functions, C.closure d Env.empty k
  values : ∀ i ∈ u.program.items,
    (∀ d, i.kind = .binding d → C.code k Env.empty d.value) ∧
      ∀ e, i.kind = .expr e → C.code k Env.empty e
  loads : ∀ l (functions : List (String × Value)), C.loaded l → l.modules.size = k →
    functions.map (·.1) = u.functions.map FunctionDecl.displayName →
      C.loaded { l with modules := l.modules.push (ModuleScope.mk u.name
        (Keyed.ofList (Run.importedGlobals l.modules u.imports ++ functions))) }
  binds : ∀ l, ∀ i ∈ u.program.items, ∀ d, i.kind = .binding d → ∀ v bindings, C.loaded l →
    C.gives k Env.empty d.value v → d.pattern.Matches v bindings →
      C.loaded { l with modules := l.modules.modify k fun scope =>
        { scope with globals := bindings.foldl (fun m b => Keyed.insert b.1 b.2 m) scope.globals } }

variable {Q : Value → Prop} {id : FutureId} {m : Nat}

theorem Stack.mono {P R : Value → Prop} (hPR : ∀ v, P v → R v) {frames : List TaskFrame} {v : Value}
    (h : C.Stack m P frames v) : C.Stack m R frames v := by
  induction frames generalizing v with
  | nil => exact hPR v h
  | cons frame rest ih => exact ⟨h.1, fun w hw hgives => ih (h.2 w hw hgives)⟩

theorem Body.mono {P R : Value → Prop} (hPR : ∀ v, P v → R v) {body : TaskBody} (h : C.Body P body) :
    C.Body R body := by
  cases body with
  | machine m => exact ⟨h.1.imp_right fun hP v => hPR v (hP v), Stack.mono hPR h.2⟩
  | combinator c => exact ⟨fun v => hPR v (h.1 v), h.2⟩

section

variable {s : StreamLang.Scheduler TaskBody}

/-- A task that is started settles a future that is still to be made, and no other one does. -/
theorem Scheduler.spawnToward (h : C.Scheduler due s) {body : TaskBody} (hbody : C.Body Q body) :
    C.Scheduler (Toward due s.futures.size Q) (s.spawn body).2 where
  futures other state hstate := by
    simp only [StreamLang.Scheduler.spawn, FutureTable.state?_create] at hstate
    split at hstate
    · cases hstate
      trivial
    · rename_i hne
      have hsettles := h.futures other state hstate
      cases state with
      | pending => trivial
      | resolved v => exact ⟨hsettles.1, hsettles.2, fun heq => absurd heq hne⟩
      | failed f => exact hsettles
  tasks other task htask := by
    simp only [StreamLang.Scheduler.spawn, Std.HashMap.getElem?_insert] at htask
    split at htask
    · cases htask
      refine ⟨by simp [StreamLang.Scheduler.spawn], hbody.mono fun v hv => ⟨?_, fun _ => hv⟩⟩
      exact h.fresh _ (Nat.le_refl _) v
    · have hworks := h.tasks other task htask
      refine ⟨Nat.lt_of_lt_of_le hworks.known (by simp [StreamLang.Scheduler.spawn]), ?_⟩
      exact hworks.body.mono fun v hv => ⟨hv, fun heq => absurd heq (Nat.ne_of_lt hworks.known)⟩
  fresh other hother v := by
    have hlt : s.futures.size < other :=
      Nat.lt_of_lt_of_le (by simp [StreamLang.Scheduler.spawn]) hother
    exact ⟨h.fresh other (Nat.le_of_lt hlt) v, fun heq => absurd heq (Nat.ne_of_gt hlt)⟩

theorem Scheduler.ofToward (h : C.Scheduler (Toward due id Q) s) : C.Scheduler due s where
  futures other state hstate := by
    have hsettles := h.futures other state hstate
    cases state with
    | pending => trivial
    | resolved v => exact ⟨hsettles.1, hsettles.2.1⟩
    | failed f => exact hsettles
  tasks other task htask :=
    ⟨(h.tasks other task htask).known, (h.tasks other task htask).body.mono fun _ => And.left⟩
  fresh other hother v := (h.fresh other hother v).1

end

variable {s : Interpreter γ}

theorem State.spawnToward (h : C.State due s) {body : TaskBody} (hbody : C.Body Q body) :
    C.State (Toward due s.scheduler.futures.size Q)
      { s with scheduler := (s.scheduler.spawn body).2 } where
  loaded := h.loaded
  globals := h.globals
  memo := h.memo
  results := h.results
  scheduler := h.scheduler.spawnToward hbody
  requests o ho := by
    have hlt := (h.requests o ho).1
    exact ⟨Nat.lt_of_lt_of_le hlt (by simp [StreamLang.Scheduler.spawn]), fun v =>
      ⟨(h.requests o ho).2 v, fun heq => absurd heq (Nat.ne_of_lt hlt)⟩⟩

theorem Scheduler.empty : C.Scheduler (fun _ _ => True) StreamLang.Scheduler.empty where
  futures id state h := by simp [StreamLang.Scheduler.empty, FutureTable.state?, FutureTable.empty] at h
  tasks id task h := by
    rw [show (StreamLang.Scheduler.empty : StreamLang.Scheduler TaskBody).tasks = ∅ from rfl,
      Std.HashMap.getElem?_empty] at h
    cases h
  fresh _ _ _ := trivial

/-- Before the first run there is nothing that could break the charter. -/
theorem State.start {checked : Checked} {options : Options} {gateway : γ}
    (hloaded : C.loaded (Interpreter.start checked options gateway).loaded) :
    C.State (fun _ _ => True) (Interpreter.start checked options gateway) where
  loaded := hloaded
  globals _ hscope := absurd hscope (Array.not_mem_empty _)
  memo key v hv := by
    rw [show (Interpreter.start checked options gateway).memo.entries = ∅ from rfl,
      Std.HashMap.getElem?_empty] at hv
    cases hv
  results _ hv := absurd hv (Array.not_mem_empty _)
  scheduler := .empty
  requests _ ho := absurd ho List.not_mem_nil

theorem State.ofToward (h : C.State (Toward due id Q) s) : C.State due s :=
  ⟨h.loaded, h.globals, h.memo, h.results, h.scheduler.ofToward,
    fun o ho => ⟨(h.requests o ho).1, fun v => ((h.requests o ho).2 v).1⟩⟩

end Charter

namespace Run

variable {α β : Type} {m n : Nat} {P : α → Prop}

/-- The same, from states with so many futures. -/
def UnderFrom (C : Charter) (due : FutureId → Value → Prop) (m n : Nat) (P : α → Prop)
    (x y : Run γ α) : Prop :=
  ∀ s, C.State due s → s.current = m → n ≤ s.scheduler.futures.size →
    y s = x s ∧ Ended C due m s.loaded s.scheduler.futures.size P (x s)

theorem Under.from {x y : Run γ α} (h : Under C due m P x y) : UnderFrom C due m n P x y :=
  fun s hs hm _ => h s hs hm

theorem UnderFrom.bind {R : β → Prop} {x y : Run γ α} {f g : α → Run γ β}
    (hx : UnderFrom C due m n P x y) (hf : ∀ a, P a → UnderFrom C due m n R (f a) (g a)) :
    UnderFrom C due m n R (x >>= f) (y >>= g) := by
  intro s hs hm hn
  obtain ⟨hsame, hends⟩ := hx s hs hm hn
  cases hx' : x s with
  | ok a t =>
    rw [hx'] at hsame hends
    rw [Eval.bind_of_ok hx', Eval.bind_of_ok hsame]
    obtain ⟨hsame', hends'⟩ := hf a hends.2 t hends.1.state hends.1.current
      (Nat.le_trans hn hends.1.grown)
    rw [hends.1.loaded] at hends'
    exact ⟨hsame', hends'.mono hends.1.grown⟩
  | error u t =>
    rw [hx'] at hsame hends
    rw [Eval.bind_of_error hx', Eval.bind_of_error hsame]
    exact ⟨rfl, hends⟩

/-- The first computation ends with a value, in a state from which the others go on. -/
theorem Under.bindFrom {R : β → Prop} {x y : Run γ α} {f g : α → Run γ β}
    (h : ∀ s, C.State due s → s.current = m → ∃ a t, x s = .ok a t ∧ y s = .ok a t ∧
      Stays C due m s.loaded s.scheduler.futures.size t ∧
        UnderFrom C due m t.scheduler.futures.size R (f a) (g a)) :
    Under C due m R (x >>= f) (y >>= g) := by
  intro s hs hm
  obtain ⟨a, t, hx, hy, ht, hrest⟩ := h s hs hm
  rw [Eval.bind_of_ok hx, Eval.bind_of_ok hy]
  obtain ⟨hsame, hends⟩ := hrest t ht.state ht.current (Nat.le_refl _)
  rw [ht.loaded] at hends
  exact ⟨hsame, hends.mono ht.grown⟩

theorem Ended.ofToward {l : Loaded} {id : FutureId} {Q : Value → Prop}
    {x : EStateM.Result Unwind (Interpreter γ) α} (h : Ended C (Toward due id Q) m l n P x) :
    Ended C due m l n P x := by
  cases x with
  | ok a t => exact ⟨⟨h.1.state.ofToward, h.1.current, h.1.loaded, h.1.grown⟩, h.2⟩
  | error u t => exact ⟨⟨h.1.state.ofToward, h.1.current, h.1.loaded, h.1.grown⟩, h.2⟩

-- around the evaluator

theorem ofGateway_under (f : γ → Except String α × γ) :
    Under C due m Whatever (ofGateway f) (ofGateway f) := by
  refine .bind (.modifyGet (P := Whatever) fun _ hs =>
    ⟨.of_same hs rfl rfl rfl rfl rfl rfl, trivial⟩) fun reply _ => ?_
  cases reply with
  | ok a => exact .pure trivial
  | error message => exact .fail _

theorem countStep_under : Under C due m Whatever (countStep (γ := γ)) countStep := by
  refine .bind (modify_same_under (fun _ => rfl) (fun _ => rfl) (fun _ => rfl) (fun _ => rfl)
    (fun _ => rfl) fun _ => rfl) fun _ _ => .get_bind fun s _ _ => ?_
  split
  · exact .fail _
  · exact .pure trivial

/-- An answer is data, and comes to a future that may come to anything. -/
theorem receive_under (c : Completion) :
    Under C due m Whatever (receive (γ := γ) c) (receive c) := by
  refine .modify fun s hs => ?_
  cases hfound : s.requests.find? (·.request == c.id) with
  | none => exact .of_same hs rfl rfl rfl rfl rfl rfl
  | some o =>
    have hsize := Nat.le_of_eq
      (Scheduler.size_settle s.scheduler o.future (.resolved (replyValue o.op c.reply))).symm
    have hsettles : C.Settles due o.future (.resolved (replyValue o.op c.reply)) :=
      ⟨replyValue_every o.op c.reply, (hs.requests o (List.mem_of_find?_eq_some hfound)).2 _⟩
    have hsettled := hs.withScheduler (hs.scheduler.settle hsettles) hsize
    exact ⟨⟨hs.loaded, hs.globals, hs.memo, hs.results, hsettled.scheduler,
      fun other hother => hsettled.requests other (List.mem_of_mem_filter hother)⟩, rfl, rfl, hsize⟩

/-- Names that are imported stand for what they do in their own modules. -/
theorem importedGlobals_fine {modules : Array ModuleScope}
    (h : ∀ scope ∈ modules, C.EntriesFine scope.globals) (imports : List ResolvedImport) :
    C.EntriesFine (importedGlobals modules imports) := by
  intro e he
  obtain ⟨i, -, hi⟩ := List.mem_filterMap.1 he
  split at hi
  · cases hi
  · obtain ⟨v, hv, rfl⟩ := Option.map_eq_some_iff.1 hi
    obtain ⟨scope, hscope, hget⟩ := Option.bind_eq_some_iff.1 hv
    have hfine := h scope (Array.mem_of_find?_eq_some hscope) _ (Keyed.mem_of_get? hget)
    exact hfine

theorem functionGlobals_under {k : Nat} {decls : List FunctionDecl}
    (h : ∀ d ∈ decls, C.closure d Env.empty k) :
    Under C due m (fun functions => C.EntriesFine functions ∧
        functions.map (·.1) = decls.map FunctionDecl.displayName)
      (functionGlobals (γ := γ) k decls) (functionGlobals k decls) := by
  induction decls with
  | nil => exact .pure ⟨List.forall_mem_nil _, rfl⟩
  | cons d rest ih =>
    obtain ⟨hd, hrest⟩ := List.forall_mem_cons.1 h
    refine .bind (newFunction_under (c := .closure d Env.empty k) hd AllEvery.nil) fun f hf => ?_
    refine .bind (ih hrest) fun more hmore => .pure ⟨List.forall_mem_cons.2 ⟨hf, hmore.1⟩, ?_⟩
    rw [List.map_cons, List.map_cons, hmore.2]

end Run

section

variable [Gateway γ] {m n : Nat} (hC : C.Lawful γ) {w : Watch γ} (hw : w.Met C) (fuel : Nat)
include hC hw

theorem runTask_under {task : Task TaskBody} (htask : C.Works due n task) :
    Run.UnderFrom C due m n Run.Whatever ((Recur.ofFuel fuel).runner.runTask task)
      ((Runner.supervised w fuel).runTask task) := by
  have hslice := (Recur.supervised_obeys hC hw due fuel).supervisedSlice (m := m) hC hw
    htask.body
  refine .bind hslice.from fun step hstep s hs hm hn => ?_
  subst hm
  have hknown := Nat.lt_of_lt_of_le htask.known hn
  refine ⟨rfl, ?_⟩
  cases step with
  | complete v =>
    have hsize := Nat.le_of_eq (Scheduler.size_settle s.scheduler task.future (.resolved v)).symm
    exact ⟨⟨hs.withScheduler (hs.scheduler.settle hstep) hsize, rfl, rfl, hsize⟩, trivial⟩
  | suspend on body =>
    have hsize := Nat.le_of_eq (Scheduler.width_suspend (s := s.scheduler) { task with body } on).symm
    have hworks : C.Works due s.scheduler.futures.size { task with body } := ⟨hknown, hstep⟩
    exact ⟨⟨hs.withScheduler (hs.scheduler.suspend hworks on) hsize, rfl, rfl, hsize⟩, trivial⟩
  | fail f =>
    have hsize := Nat.le_of_eq (Scheduler.size_settle s.scheduler task.future (.failed f)).symm
    exact ⟨⟨hs.withScheduler (hs.scheduler.settle hstep) hsize, rfl, rfl, hsize⟩, trivial⟩

/-- One unit of progress. -/
theorem step_under : Run.Under C due m Run.Whatever (Recur.ofFuel fuel).runner.step
    (Runner.supervised w fuel).step := by
  refine .bindFrom fun s hs hm => ?_
  obtain ⟨hscheduler, hsize, hworks⟩ := hs.scheduler.takeReady (s.scheduler.nextTask + 1) rfl
  have hgrown := Nat.le_of_eq hsize.symm
  refine ⟨_, _, rfl, rfl, ⟨hs.withScheduler hscheduler hgrown, hm, rfl, hgrown⟩, ?_⟩
  cases hnext : s.scheduler.nextReady.1 with
  | some task =>
    refine .bind Run.countStep_under.from fun _ _ => ?_
    exact .bind (runTask_under hC hw fuel (hworks task hnext)) fun _ _ => (Run.Under.pure trivial).from
  | none =>
    refine Run.Under.from (.bind (Run.ofGateway_under _) fun c? _ => ?_)
    cases c? with
    | some c => exact .bind (Run.receive_under c) fun _ _ => .pure trivial
    | none =>
      refine .get_bind fun s _ _ => ?_
      split
      · exact .bind (Run.ofGateway_under _) fun _ _ => .pure trivial
      · exact .pure trivial

/-- The value is one that the future was due to come to. -/
theorem settle_under (line : Nat) (id : FutureId) (bound : Nat) :
    Run.Under C due m (fun v => C.Fine v ∧ due id v)
      ((Recur.ofFuel fuel).runner.settle line id bound)
      ((Runner.supervised w fuel).settle line id bound) := by
  induction bound with
  | zero => exact .exhausted
  | succ bound ih =>
    refine .bind (Run.futureState?_under id) fun found hfound => ?_
    cases found with
    | none => exact .failAt _ line
    | some state => cases state with
      | resolved v => exact .bind (Run.markObserved_under id) fun _ _ => .pure (hfound _ rfl)
      | failed f => exact .bind (Run.markObserved_under id) fun _ _ => .failAt _ _
      | pending =>
        refine .bind ((step_under hC hw fuel).located line) fun moved _ => ?_
        split
        · exact ih
        · exact .failAt _ line

theorem drain_under (bound : Nat) : Run.Under C due m Run.Whatever
    ((Recur.ofFuel fuel).runner.drain bound) ((Runner.supervised w fuel).drain bound) := by
  induction bound with
  | zero => exact .exhausted
  | succ bound ih =>
    refine .bind (step_under hC hw fuel) fun moved _ => ?_
    split
    · exact ih
    · exact .pure trivial

/-- What the task of an expression comes to is what the expression may give. -/
theorem runRoot_under (line : Nat) {e : Expr} (he : C.code m Env.empty e) :
    Run.Under C due m (fun v => C.Fine v ∧ C.gives m Env.empty e v)
      ((Recur.ofFuel fuel).runner.runRoot line e) ((Runner.supervised w fuel).runRoot line e) := by
  rintro s hs rfl
  have hbody : C.Body (C.gives s.current Env.empty e)
      (.machine (.start e Env.empty s.current true)) :=
    ⟨.inl rfl, ⟨he, AllEvery.nil⟩, fun _ _ hgives => hgives⟩
  have hspawned := hs.spawnToward hbody
  have hgrown : s.scheduler.futures.size ≤
      (s.scheduler.spawn (.machine (.start e Env.empty s.current true))).2.futures.size := by
    simp [Scheduler.spawn]
  have hsettle : Run.Under C (Toward due s.scheduler.futures.size (C.gives s.current Env.empty e))
      s.current (fun v => C.Fine v ∧ C.gives s.current Env.empty e v) _ _ :=
    (settle_under hC hw fuel line s.scheduler.futures.size fuel).weaken fun v hv => ⟨hv.1, hv.2.2 rfl⟩
  obtain ⟨hsame, hends⟩ := hsettle _ hspawned rfl
  have hfuel : (Runner.supervised w fuel).recur.fuel = fuel :=
    (Recur.supervised_obeys hC hw due fuel).fuel
  refine ⟨Eq.trans ?_ hsame, hends.ofToward.mono hgrown⟩
  change (Runner.supervised w fuel).settle line s.scheduler.futures.size
    (Runner.supervised w fuel).recur.fuel _ = _
  rw [hfuel]

theorem runExpr_under (line : Nat) {e : Expr} (he : C.code m Env.empty e) :
    Run.Under C due m C.Fine ((Recur.ofFuel fuel).runner.runExpr line e)
      ((Runner.supervised w fuel).runExpr line e) := by
  refine .bind (runRoot_under hC hw fuel line he) fun v hv => ?_
  cases v with
  | future id =>
    dsimp only
    rw [show (Runner.supervised w fuel).recur.fuel = fuel from
      (Recur.supervised_obeys hC hw due fuel).fuel]
    exact (settle_under hC hw fuel line id _).weaken fun _ => And.left
  | _ => exact .pure hv.1

end

-- modules

namespace Run

variable {α : Type} {k k' : Nat}

/-- With so many modules. -/
def Reached (C : Charter) (due : FutureId → Value → Prop) (k : Nat) :
    EStateM.Result Unwind (Interpreter γ) PUnit → Prop
  | .ok _ t => C.State due t ∧ t.modules.size = k
  | .error _ t => C.State due t

/-- From states with `k` modules to states with `k'`, in whatever module. -/
def Onward (C : Charter) (due : FutureId → Value → Prop) (k k' : Nat) (x y : Run γ PUnit) : Prop :=
  ∀ s, C.State due s → s.modules.size = k → y s = x s ∧ Reached C due k' (x s)

namespace Onward

theorem pure : Onward C due k k (Pure.pure ⟨⟩ : Run γ PUnit) (Pure.pure ⟨⟩) :=
  fun _ hs hk => ⟨rfl, hs, hk⟩

theorem bind {l : Nat} {x y : Run γ PUnit} {f g : PUnit → Run γ PUnit} (hx : Onward C due k l x y)
    (hf : Onward C due l k' (f ⟨⟩) (g ⟨⟩)) : Onward C due k k' (x >>= f) (y >>= g) := by
  intro s hs hk
  obtain ⟨hsame, hends⟩ := hx s hs hk
  cases hx' : x s with
  | ok a t =>
    rw [hx'] at hsame hends
    rw [Eval.bind_of_ok hx', Eval.bind_of_ok hsame]
    exact hf t hends.1 hends.2
  | error u t =>
    rw [hx'] at hsame hends
    rw [Eval.bind_of_error hx', Eval.bind_of_error hsame]
    exact ⟨rfl, hends⟩

/-- What comes after a computation in one module. -/
theorem ofUnder {m : Nat} {P : α → Prop} {x y : Run γ α} {f g : α → Run γ PUnit}
    (hx : Under C due m P x y) (hf : ∀ a, P a → Onward C due k k' (f a) (g a)) {s : Interpreter γ}
    (hs : C.State due s) (hm : s.current = m) (hk : s.modules.size = k) :
    (y >>= g) s = (x >>= f) s ∧ Reached C due k' ((x >>= f) s) := by
  obtain ⟨hsame, hends⟩ := hx s hs hm
  cases hx' : x s with
  | ok a t =>
    rw [hx'] at hsame hends
    rw [Eval.bind_of_ok hx', Eval.bind_of_ok hsame]
    have hmodules : t.modules = s.modules := congrArg Loaded.modules hends.1.loaded
    exact hf a hends.2 t hends.1.state (by rw [hmodules]; exact hk)
  | error u t =>
    rw [hx'] at hsame hends
    rw [Eval.bind_of_error hx', Eval.bind_of_error hsame]
    exact ⟨rfl, hends.1.state⟩

theorem modify_same {f : Interpreter γ → Interpreter γ} (hf : ∀ s, C.State due s → C.State due (f s))
    (hmodules : ∀ s, (f s).modules = s.modules) :
    Onward C due k k (modify f : Run γ PUnit) (modify f) :=
  fun s hs hk => ⟨rfl, hf s hs, by rw [hmodules]; exact hk⟩

end Onward

theorem bindGlobals_onward {n : Nat} {bindings : List (String × Value)} (hb : C.EntriesFine bindings)
    (hloaded : ∀ l, C.loaded l → C.loaded { l with modules := l.modules.modify n fun scope =>
      { scope with globals := bindings.foldl (fun m b => Keyed.insert b.1 b.2 m) scope.globals } }) :
    Onward C due k k (bindGlobals (γ := γ) n bindings) (bindGlobals n bindings) := by
  refine fun s hs hk => ⟨rfl, ⟨hloaded _ hs.loaded, fun scope hscope => ?_, hs.memo, hs.results,
    hs.scheduler, hs.requests⟩, Array.size_modify.trans hk⟩
  obtain ⟨i, hi, rfl⟩ := Array.mem_iff_getElem.1 hscope
  have hi' : i < s.modules.size := Nat.lt_of_lt_of_eq hi Array.size_modify
  have hold := hs.globals s.modules[i] (Array.getElem_mem hi')
  rw [Array.getElem_modify]
  split
  · exact Keyed.forall_foldl_insert hold hb
  · exact hold

/-- A module is loaded behind those that there are. -/
theorem load_reaches {u : ModuleUnit} (hu : C.Opens k u) {s : Interpreter γ} (hs : C.State due s)
    (hk : s.modules.size = k) :
    ∃ t, load u s = .ok k t ∧ C.State due t ∧ t.modules.size = k + 1 := by
  subst hk
  obtain ⟨functions, t, hrun, -⟩ := functionGlobals_eq s.modules.size u.functions s
  obtain ⟨-, hends⟩ := functionGlobals_under (m := s.current) hu.functions s hs rfl
  rw [hrun] at hends
  obtain ⟨ht, hfine, hnames⟩ := hends
  have hmodules : t.modules = s.modules := congrArg Loaded.modules ht.loaded
  let scope : ModuleScope :=
    ⟨u.name, Keyed.ofList (importedGlobals s.modules u.imports ++ functions)⟩
  refine ⟨{ t with modules := t.modules.push scope }, ?_, ⟨?_, fun other hother => ?_,
    ht.state.memo, ht.state.results, ht.state.scheduler, ht.state.requests⟩, ?_⟩
  · change (functionGlobals s.modules.size u.functions >>= _) s = _
    rw [Eval.bind_of_ok hrun]
    rfl
  · change C.loaded { t.loaded with modules := t.loaded.modules.push scope }
    rw [ht.loaded]
    exact hu.loads s.loaded functions hs.loaded rfl hnames
  · rcases Array.mem_push.1 hother with hold | rfl
    · exact ht.state.globals other hold
    · refine Keyed.forall_foldl_insert (List.forall_mem_nil _) (List.forall_mem_append.2 ⟨?_, hfine⟩)
      exact importedGlobals_fine hs.globals u.imports
  · rw [Array.size_push, hmodules]

end Run

section

variable [Gateway γ] {k : Nat} (hC : C.Lawful γ) {w : Watch γ} (hw : w.Met C) (fuel : Nat)
  {u : ModuleUnit}
include hC hw

/-- What a `let` binds is what its value may give. -/
theorem runLet_onward {n : Nat} (hu : C.Opens k u) {i : Item} (hi : i ∈ u.program.items)
    {d : LetDecl} (hd : i.kind = .binding d) (line : Nat) {s : Interpreter γ} (hs : C.State due s)
    (hm : s.current = k) (hn : s.modules.size = n) :
    (Runner.supervised w fuel).runLet k line d s = (Recur.ofFuel fuel).runner.runLet k line d s ∧
      Run.Reached C due n ((Recur.ofFuel fuel).runner.runLet k line d s) := by
  have hrecur := Recur.supervised_obeys hC hw due fuel
  have hbindings : Run.Under C due k (fun bindings => C.EntriesFine bindings ∧
      ∃ v, C.gives k Env.empty d.value v ∧ d.pattern.Matches v bindings)
      (do
        let v ← (Recur.ofFuel fuel).runner.runRoot line d.value
        Run.atTop line ((Recur.ofFuel fuel).checkOptional d.ty v line)
        Run.atTop line (Run.destructure d.pattern v))
      (do
        let v ← (Runner.supervised w fuel).runRoot line d.value
        Run.atTop line ((Recur.supervised w fuel).checkOptional d.ty v line)
        Run.atTop line (Run.destructure d.pattern v)) := by
    refine .bind (runRoot_under hC hw fuel line ((hu.values i hi).1 d hd)) fun v hv => ?_
    refine .bind ((hrecur.checkOptional hC d.ty hv.1 line).atTop line) fun _ _ => ?_
    exact ((Run.destructure_under d.pattern hv.1).atTop line).weaken fun bindings hb =>
      ⟨hb.1, v, hv.2, hb.2⟩
  have hall := Run.Onward.ofUnder hbindings (fun bindings hb => Run.bindGlobals_onward (n := k) hb.1
    fun l hl => hb.2.elim fun v hv => hu.binds l i hi d hd v bindings hl hv.1 hv.2) hs hm hn
  simp only [bind_assoc] at hall
  exact hall

theorem runItem_onward {n : Nat} (hu : C.Opens k u) (isMain : Bool) {i : Item}
    (hi : i ∈ u.program.items) :
    Run.Onward C due n n ((Recur.ofFuel fuel).runner.runItem k isMain i)
      ((Runner.supervised w fuel).runItem k isMain i) := by
  intro s hs hn
  have ht : C.State due { s with current := k } := hs.of_same rfl rfl rfl rfl rfl
  have hmove : (modify fun s => { s with current := k } : Run γ PUnit) s =
      .ok ⟨⟩ { s with current := k } := rfl
  rw [Runner.runItem, Runner.runItem, Eval.bind_of_ok hmove, Eval.bind_of_ok hmove]
  cases hkind : i.kind with
  | binding d => exact runLet_onward hC hw fuel hu hi hkind i.span.line ht rfl hn
  | expr e =>
    refine Run.Onward.ofUnder (runExpr_under hC hw fuel i.span.line ((hu.values i hi).2 e hkind))
      (fun v hv => ?_) ht rfl hn
    split
    · refine .modify_same (fun s hs => ⟨hs.loaded, hs.globals, hs.memo, fun other hother => ?_,
        hs.scheduler, hs.requests⟩) fun _ => rfl
      rcases Array.mem_push.1 hother with hold | rfl
      · exact hs.results other hold
      · exact hv
    · exact .pure
  | _ => exact ⟨rfl, ht, hn⟩

theorem runItems_onward {n : Nat} (hu : C.Opens k u) (isMain : Bool) {items : List Item}
    (hitems : ∀ i ∈ items, i ∈ u.program.items) :
    Run.Onward C due n n (items.forM ((Recur.ofFuel fuel).runner.runItem k isMain))
      (items.forM ((Runner.supervised w fuel).runItem k isMain)) := by
  induction items with
  | nil => exact .pure
  | cons i rest ih =>
    exact .bind (runItem_onward hC hw fuel hu isMain (hitems i (.head _)))
      (ih fun j hj => hitems j (.tail _ hj))

theorem runUnit_onward (hu : C.Opens k u) (isMain : Bool) :
    Run.Onward C due k (k + 1) ((Recur.ofFuel fuel).runner.runUnit isMain u)
      ((Runner.supervised w fuel).runUnit isMain u) := by
  intro s hs hk
  obtain ⟨t, hload, ht, hsize⟩ := Run.load_reaches hu hs hk
  rw [Runner.runUnit, Runner.runUnit, Eval.bind_of_ok hload, Eval.bind_of_ok hload]
  exact runItems_onward hC hw fuel hu isMain (fun _ hi => hi) t ht hsize

theorem runUnits_onward {units : List ModuleUnit}
    (hunits : ∀ j u, units[j]? = some u → C.Opens (k + j) u) :
    Run.Onward C due k (k + units.length) ((Recur.ofFuel fuel).runner.runUnits units)
      ((Runner.supervised w fuel).runUnits units) := by
  induction units generalizing k with
  | nil => exact .pure
  | cons u rest ih =>
    have hrest : ∀ j v, rest[j]? = some v → C.Opens (k + 1 + j) v := fun j v hv => by
      rw [Nat.add_assoc, Nat.add_comm 1 j]
      exact hunits (j + 1) v hv
    have hlength : k + (u :: rest).length = k + 1 + rest.length := by
      rw [List.length_cons, Nat.add_assoc, Nat.add_comm 1]
    rw [hlength]
    exact .bind (runUnit_onward hC hw fuel (hunits 0 u rfl) rest.isEmpty) (ih hrest)

/-- To the end nothing more is loaded. -/
theorem drain_onward (bound : Nat) : Run.Onward C due k k ((Recur.ofFuel fuel).runner.drain bound)
    ((Runner.supervised w fuel).drain bound) := by
  intro s hs hk
  obtain ⟨hsame, hends⟩ := drain_under hC hw fuel bound s hs rfl
  refine ⟨hsame, ?_⟩
  cases hrun : (Recur.ofFuel fuel).runner.drain bound s with
  | ok a t =>
    rw [hrun] at hends
    have hmodules : t.modules = s.modules := congrArg Loaded.modules hends.1.loaded
    exact ⟨hends.1.state, by rw [hmodules]; exact hk⟩
  | error u t =>
    rw [hrun] at hends
    exact hends.1.state

/-- A program keeps to the charter, and the watch has nothing to do. -/
theorem runProgram_onward {units : List ModuleUnit}
    (hunits : ∀ j u, units[j]? = some u → C.Opens (k + j) u) :
    Run.Onward C due k (k + units.length) ((Recur.ofFuel fuel).runProgram units)
      ((Runner.supervised w fuel).runProgram units) := by
  rw [← Recur.runner_runProgram]
  refine .bind (.modify_same (fun s hs => ⟨hs.loaded, hs.globals, hs.memo, ?_, hs.scheduler,
    hs.requests⟩) fun _ => rfl) (.bind (runUnits_onward hC hw fuel hunits) ?_)
  · exact fun _ hv => absurd hv (Array.not_mem_empty _)
  · rw [show (Runner.supervised w fuel).recur.fuel = fuel from
      (Recur.supervised_obeys hC hw due fuel).fuel]
    exact drain_onward hC hw fuel fuel

theorem execute_kept {units : List ModuleUnit} {s : Interpreter γ} (hs : C.State due s)
    (hunits : ∀ j u, units[j]? = some u → C.Opens (s.modules.size + j) u) :
    (Runner.supervised w fuel).runProgram units s = (Recur.ofFuel fuel).runProgram units s ∧
      C.State due (s.execute fuel units).2 := by
  obtain ⟨hsame, hends⟩ := runProgram_onward hC hw fuel hunits s hs rfl
  refine ⟨hsame, ?_⟩
  unfold Interpreter.execute
  cases hrun : (Recur.ofFuel fuel).runProgram units s with
  | ok a t =>
    rw [hrun] at hends
    exact hends.1
  | error u t =>
    rw [hrun] at hends
    cases u <;> exact hends

end

end StreamLang
