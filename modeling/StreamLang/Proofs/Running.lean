import StreamLang.Proofs.Lockstep.Diagonal

/-! Properties of states that a run keeps. The evaluator makes the changes of `Interpreter.Kept`. Around it
the scheduler takes tasks out, runs them and puts them back, the provider gives answers, and names are
bound at the top of modules. -/

namespace StreamLang

variable {γ α : Type}

/-- What keeps step with itself keeps the property. -/
theorem Run.keeps_of_steady {Q : Interpreter γ → Prop} {V : α → α → Prop}
    (hV : ∀ a b, V a b → a = b) {x : Run γ α}
    (hx : ∀ p, Eval.Lockstep (Pairing.diagonal γ False Q).terms
      ((Pairing.diagonal γ False Q).state p) V x x) : Run.Keeps Q x :=
  Run.keeps_of_endState fun s hs => (Pairing.diagonal_same hV (hx s.standing) hs).2.1

/-- A pattern that fits binds its own names. -/
theorem Pattern.names_of_bindings? {futures : FutureTable} (p : Pattern) {v : Value}
    {bindings : List (String × Value)} (h : p.bindings? futures v = some bindings) :
    bindings.map Prod.fst = p.names := by
  let T := (Pairing.diagonal Unit False fun _ => True).terms
  have hsame : T.SameFutures futures futures := by
    intro _ id
    cases futures.state? id with
    | none => exact .none
    | some state => exact .some (Terms.sameState_refl _ Value.permitted_all state)
  exact (p.bindings?_same hsame v v.permitted_all).names bindings h

/-- A task that was taken out is put back, or its future is settled. -/
def Scheduler.handBack (s : Scheduler TaskBody) (task : Task TaskBody) :
    TaskStep → Scheduler TaskBody
  | .complete v => s.complete task v
  | .suspend on body => s.suspend { task with body } on
  | .fail f => s.fail task f

namespace Recur

variable {r : Recur γ} {task : Task TaskBody} {s t : Interpreter γ}

theorem runTask_of_ok {step : TaskStep} (h : r.runSlice task.body s = .ok step t) :
    r.runTask task s = .ok () { t with scheduler := t.scheduler.handBack task step } := by
  rw [runTask, Eval.bind_of_ok h]
  cases step <;> rfl

theorem runTask_of_error {u : Unwind} (h : r.runSlice task.body s = .error u t) :
    r.runTask task s = .error u t :=
  Eval.bind_of_error h

end Recur

namespace Run

/-- The functions of a module get their names, and nothing else changes at the top of modules. -/
theorem functionGlobals_eq (module : Nat) (decls : List FunctionDecl) (s : Interpreter γ) :
    ∃ functions t, functionGlobals module decls s = .ok functions t ∧
      functions.map Prod.fst = decls.map FunctionDecl.displayName ∧
      (∀ e ∈ functions, ∃ d ∈ decls, ∃ id,
        e = (d.displayName, .function id (.closure d Env.empty module))) ∧
      t.modules = s.modules := by
  induction decls generalizing s with
  | nil => exact ⟨[], s, rfl, rfl, List.forall_mem_nil _, rfl⟩
  | cons d rest ih =>
    obtain ⟨functions, t, hrun, hnames, hvalues, hmodules⟩ :=
      ih { s with nextIdentity := s.nextIdentity.next }
    have hfirst : newFunction (.closure d Env.empty module) s =
        .ok (.function s.nextIdentity (.closure d Env.empty module))
          { s with nextIdentity := s.nextIdentity.next } := rfl
    refine ⟨(d.displayName, .function s.nextIdentity (.closure d Env.empty module)) :: functions, t,
      ?_, ?_, ?_, hmodules⟩
    · rw [functionGlobals, Eval.bind_of_ok hfirst, Eval.bind_of_ok hrun]
      rfl
    · rw [List.map_cons, List.map_cons, hnames]
    · refine List.forall_mem_cons.2 ⟨⟨d, List.mem_cons_self, _, rfl⟩, fun e he => ?_⟩
      obtain ⟨d', hd', hvalue⟩ := hvalues e he
      exact ⟨d', List.mem_cons_of_mem _ hd', hvalue⟩

/-- A module is loaded with its imports and functions. -/
theorem load_eq (u : ModuleUnit) (s : Interpreter γ) :
    ∃ functions t, load u s = .ok s.modules.size t ∧
      functions.map Prod.fst = u.functions.map FunctionDecl.displayName ∧
      (∀ e ∈ functions, ∃ d ∈ u.functions, ∃ id,
        e = (d.displayName, .function id (.closure d Env.empty s.modules.size))) ∧
      t.modules = s.modules.push
        ⟨u.name, Keyed.ofList (importedGlobals s.modules u.imports ++ functions)⟩ := by
  obtain ⟨functions, t, hrun, hnames, hvalues, hmodules⟩ :=
    functionGlobals_eq s.modules.size u.functions s
  let scope : ModuleScope :=
    ⟨u.name, Keyed.ofList (importedGlobals s.modules u.imports ++ functions)⟩
  refine ⟨functions, { t with modules := t.modules.push scope }, ?_, hnames, hvalues, ?_⟩
  · change (functionGlobals s.modules.size u.functions >>= _) s = _
    rw [Eval.bind_of_ok hrun]
    rfl
  · exact congrArg (Array.push · scope) hmodules

end Run

variable [Gateway γ]

theorem Interpreter.execute_state (s : Interpreter γ) (fuel : Nat) (units : List ModuleUnit) :
    (s.execute fuel units).2 = endState ((Recur.ofFuel fuel).runProgram units s) := by
  unfold execute
  cases (Recur.ofFuel fuel).runProgram units s with
  | ok _ t => rfl
  | error u t => cases u <;> rfl

namespace Recur

section

variable {Q : Interpreter γ → Prop} (hQ : Interpreter.Kept Q) (fuel : Nat)
include hQ

theorem ofFuel_steady :
    (ofFuel fuel).Lockstep (Pairing.diagonal γ False Q) (ofFuel fuel) :=
  ofFuel_lockstep (Pairing.diagonal_lawful hQ) (.inl rfl)

theorem keeps_runBodyOf (body : TaskBody) : Run.Keeps Q ((ofFuel fuel).runBodyOf body) :=
  Run.keeps_of_steady (fun _ _ h => h.eq trivial) fun _ =>
    (ofFuel_steady hQ fuel).runBodyOf (Pairing.diagonal_lawful hQ) trivial body.permitted_all

theorem keeps_eval (e : Expr) (env : Env) : Run.Keeps Q ((ofFuel fuel).eval e env) :=
  Run.keeps_of_steady (fun _ _ h => h.1) fun _ =>
    (ofFuel_steady hQ fuel).eval trivial (Value.frames_permitted_all env)

theorem keeps_call (f : Value) (args : List Value) : Run.Keeps Q ((ofFuel fuel).call f args) :=
  Run.keeps_of_steady (fun _ _ h => h.1) fun _ =>
    (ofFuel_steady hQ fuel).call f args f.permitted_all (Value.items_permitted_all args)

theorem keeps_checkOptional (ty : Option TypeExpr) (v : Value) (line : Nat) :
    Run.Keeps Q ((ofFuel fuel).checkOptional ty v line) :=
  Run.keeps_of_steady (fun _ _ h => h.1) fun p =>
    ((ofFuel_steady hQ fuel).inStep p).checkOptional (Pairing.diagonal_lawful hQ).scene ty
      v.permitted_all (.refl line)

theorem keeps_runSlice (body : TaskBody) : Run.Keeps Q ((ofFuel fuel).runSlice body) := by
  refine Run.keeps_of_endState fun s hs => ?_
  have hend := (keeps_runBodyOf hQ fuel body).endState hs
  unfold Recur.runSlice
  cases hrun : (ofFuel fuel).runBodyOf body s with
  | ok step t =>
    rw [hrun] at hend
    exact hend
  | error u t =>
    rw [hrun] at hend
    dsimp only
    cases u.taskStep? body.isRoot <;> exact hend

/-- A run of a task is a slice of it, and then the task is handed back. -/
theorem leads_runTask {E R : Interpreter γ → Prop} (task : Task TaskBody) (hE : ∀ s, Q s → E s)
    (hback : ∀ s step, Q s → R { s with scheduler := s.scheduler.handBack task step }) :
    Run.Leads E Q ((ofFuel fuel).runTask task) fun _ => R := by
  intro s hs
  have hend := keeps_runSlice hQ fuel task.body s hs
  cases hslice : (ofFuel fuel).runSlice task.body s with
  | ok step t =>
    rw [hslice] at hend
    rw [runTask_of_ok hslice]
    exact hback t step hend
  | error u t =>
    rw [hslice] at hend
    rw [runTask_of_error hslice]
    exact hE t hend

end

omit [Gateway γ] in
theorem leads_destructure {Q : Interpreter γ → Prop} (pattern : Pattern) (v : Value) :
    Run.Leads Q Q (Run.destructure pattern v) fun bindings s =>
      bindings.map Prod.fst = pattern.names ∧ Q s := by
  refine .get_bind fun s hs => ?_
  cases hbindings : pattern.bindings? s.scheduler.futures v with
  | none => exact .fail _ fun t ht => ht ▸ hs
  | some bindings => exact .pure fun t ht => ⟨pattern.names_of_bindings? hbindings, ht ▸ hs⟩

/-- What is done around the evaluator keeps the property, in which it may matter which task was taken out
and is held. -/
structure Sustains (r : Recur γ) (Q : List (Task TaskBody) → Interpreter γ → Prop) : Prop where
  kept : ∀ held, Interpreter.Kept (Q held)
  /-- A task that is not handed back stays out. -/
  release : ∀ {held s}, Q held s → Q [] s
  take : ∀ {s task scheduler}, Q [] s → s.scheduler.nextReady = (some task, scheduler) →
    Q [task] { s with scheduler }
  idle : ∀ {s scheduler}, Q [] s → s.scheduler.nextReady = (none, scheduler) →
    Q [] { s with scheduler }
  runTask : ∀ task, Run.Leads (Q []) (Q [task]) (r.runTask task) fun _ => Q []
  answer : ∀ {s : Interpreter γ} {c : Completion} {gateway : γ}, Q [] s →
    Gateway.poll s.gateway = (.ok (some c), gateway) →
    Q [] (endState (Run.receive c { s with gateway }))
  poll : ∀ {s : Interpreter γ} {reply : Except String (Option Completion)} {gateway : γ}, Q [] s →
    Gateway.poll s.gateway = (reply, gateway) → (∀ c, reply ≠ .ok (some c)) →
    Q [] { s with gateway }
  wait : ∀ {s : Interpreter γ} {reply : Except String Unit} {gateway : γ}, Q [] s →
    Gateway.wait s.gateway = (reply, gateway) → Q [] { s with gateway }

namespace Sustains

variable {Q : List (Task TaskBody) → Interpreter γ → Prop} {held : List (Task TaskBody)}
  {fuel : Nat} (h : (ofFuel fuel).Sustains Q)
include h

theorem inside {f : Interpreter γ → Interpreter γ} (houtside : ∀ s, (f s).outside = s.outside)
    (hlog : ∀ s, (f s).log = s.log) (hdepth : ∀ s, (f s).depth = s.depth)
    (hloaded : ∀ s, (f s).loaded = s.loaded) :
    Run.Keeps (Q held) (modify f : Run γ PUnit) :=
  .modify fun s hs => (h.kept held).inside hs (houtside s) (hlog s) (hdepth s) (hloaded s)

/-- A task that was found ready is held until its slice ends. -/
theorem nextReady : Run.Leads (Q []) (Q []) (Run.withScheduler Scheduler.nextReady)
    fun task? => Q task?.toList := by
  refine .modifyGet fun s hs => ?_
  cases hready : s.scheduler.nextReady with
  | mk task? scheduler => cases task? with
    | some task => exact h.take hs hready
    | none => exact h.idle hs hready

theorem countStep : Run.Keeps (Q held) Run.countStep := by
  refine .bind (h.inside (fun _ => rfl) (fun _ => rfl) (fun _ => rfl) fun _ => rfl) fun _ =>
    .get_bind fun s hs => ?_
  split
  · exact .fail _ fun t ht => ht ▸ hs
  · exact .pure fun t ht => ht ▸ hs

/-- An answer was polled, and is still to be taken in. -/
def Polled (Q : List (Task TaskBody) → Interpreter γ → Prop) (c : Completion)
    (t : Interpreter γ) : Prop :=
  ∃ (s : Interpreter γ) (gateway : γ), Q [] s ∧
    Gateway.poll s.gateway = (.ok (some c), gateway) ∧ t = { s with gateway }

theorem leads_poll : Run.Leads (Q []) (Q []) (Run.ofGateway Gateway.poll) fun c? t =>
    (c? = none → Q [] t) ∧ ∀ c, c? = some c → Polled Q c t := by
  refine .ofGateway ?_ fun s message gateway hs hreply => h.poll hs hreply nofun
  intro s c? gateway hs hreply
  refine ⟨?_, ?_⟩
  · rintro rfl
    exact h.poll hs hreply nofun
  · rintro c rfl
    exact ⟨s, gateway, hs, hreply, rfl⟩

theorem receive (c : Completion) :
    Run.Leads (Q []) (Polled Q c) (Run.receive c) fun _ => Q [] := by
  rintro _ ⟨s, gateway, hs, hreply, rfl⟩
  exact h.answer hs hreply

theorem keeps_wait : Run.Keeps (Q [])
    (Run.ofGateway (Gateway.wait : γ → Except String Unit × γ)) :=
  .ofGateway (fun _ _ _ hs hreply => h.wait hs hreply) fun _ _ _ hs hreply => h.wait hs hreply

theorem step : Run.Keeps (Q []) ((ofFuel fuel).step) := by
  refine .bind h.nextReady fun task? => ?_
  cases task? with
  | some task =>
    refine .bind (.weaken h.countStep (fun _ hs => hs) (fun _ _ hs => hs) fun _ => h.release)
      fun _ => ?_
    exact .bind (h.runTask task) fun _ => .pure fun _ hs => hs
  | none =>
    refine .bind h.leads_poll fun c? => ?_
    cases c? with
    | some c =>
      refine .bind (.weaken (h.receive c) (fun _ hs => hs.2 c rfl) (fun _ _ hs => hs)
        fun _ hs => hs) fun _ => .pure fun _ hs => hs
    | none =>
      refine .get_bind fun s hs => ?_
      split
      · have hwait : Run.Leads (Q []) (fun t => t = s)
            (Run.ofGateway (Gateway.wait : γ → Except String Unit × γ)) fun _ => Q [] :=
          .weaken h.keeps_wait (fun t ht => ht ▸ hs.1 rfl) (fun _ _ hs => hs) fun _ hs => hs
        exact .bind hwait fun _ => .pure fun _ hs => hs
      · exact .pure fun t ht => ht ▸ hs.1 rfl

theorem settle (line : Nat) (id : FutureId) (bound : Nat) :
    Run.Keeps (Q []) ((ofFuel fuel).settle line id bound) := by
  induction bound with
  | zero => exact .throw _ fun _ hs => hs
  | succ bound ih =>
    have hobserve : Run.Keeps (Q []) (Run.markObserved (γ := γ) id) :=
      .modifyGet fun s hs => (h.kept []).markObserved hs id
    have hlook : Run.Keeps (Q []) (Run.futureState? (γ := γ) id) :=
      .get_bind fun s hs => .pure fun t ht => ht ▸ hs
    refine .bind hlook fun state? => ?_
    cases state? with
    | none => exact .failAt _ _ fun _ hs => hs
    | some state => cases state with
      | resolved v => exact .bind hobserve fun _ => .pure fun _ hs => hs
      | failed f => exact .bind hobserve fun _ => .failAt _ _ fun _ hs => hs
      | pending =>
        refine .bind (.located h.step line) fun moved => ?_
        split
        · exact ih
        · exact .failAt _ _ fun _ hs => hs

theorem drain (bound : Nat) : Run.Keeps (Q []) ((ofFuel fuel).drain bound) := by
  induction bound with
  | zero => exact .throw _ fun _ hs => hs
  | succ bound ih =>
    refine .bind h.step fun moved => ?_
    split
    · exact ih
    · exact .pure fun _ hs => hs

theorem runRoot (line : Nat) (e : Expr) : Run.Keeps (Q []) ((ofFuel fuel).runRoot line e) := by
  refine .get_bind fun s hs => ?_
  refine .bind (Q := fun _ => Q []) ?_ fun id => h.settle line id _
  rintro _ rfl
  exact (h.kept []).spawn hs _

theorem runExpr (line : Nat) (e : Expr) : Run.Keeps (Q []) ((ofFuel fuel).runExpr line e) := by
  refine .bind (h.runRoot line e) fun v => ?_
  cases v with
  | future id => exact h.settle line id _
  | _ => exact .pure fun _ hs => hs

section

variable {E R : Interpreter γ → Prop}

/-- Only the names of its pattern are bound by a `let`. -/
theorem runLet (module line : Nat) (d : LetDecl) (hbind : ∀ bindings : List (String × Value),
      bindings.map Prod.fst = d.pattern.names →
        Run.Leads (Q []) (Q []) (Run.bindGlobals module bindings) fun _ => R) :
    Run.Leads (Q []) (Q []) ((ofFuel fuel).runLet module line d) fun _ => R := by
  refine .bind (h.runRoot line d.value) fun v => ?_
  refine .bind (.atTop (keeps_checkOptional (h.kept []) fuel d.ty v line) line) fun _ => ?_
  refine .bind (.atTop (leads_destructure d.pattern v) line) fun bindings s hs => ?_
  exact hbind bindings hs.1 s hs.2

theorem runItem (module : Nat) (isMain : Bool) (i : Item)
    (hbind : ∀ d, i.kind = .binding d → ∀ bindings : List (String × Value),
      bindings.map Prod.fst = d.pattern.names →
        Run.Leads (Q []) (Q []) (Run.bindGlobals module bindings) fun _ => R)
    (hother : (∀ d, i.kind ≠ .binding d) → ∀ s, Q [] s → R s) :
    Run.Leads (Q []) (Q []) ((ofFuel fuel).runItem module isMain i) fun _ => R := by
  refine .bind (h.inside (fun _ => rfl) (fun _ => rfl) (fun _ => rfl) fun _ => rfl) fun _ => ?_
  cases hkind : i.kind with
  | binding d => exact h.runLet module _ d (hbind d hkind)
  | expr e =>
    refine .weaken (Q := fun _ => Q []) ?_ (fun _ hs => hs)
      (fun _ => hother (by rw [hkind]; exact nofun)) fun _ hs => hs
    refine .bind (h.runExpr _ e) fun v => ?_
    split
    · exact h.inside (fun _ => rfl) (fun _ => rfl) (fun _ => rfl) fun _ => rfl
    · exact .pure fun _ hs => hs
  | _ => exact .pure (hother (by rw [hkind]; exact nofun))

end

-- whole programs, where it does not matter what is bound at the top of modules

variable (hany : ∀ s t : Interpreter γ,
  t.outside = s.outside → t.schemas = s.schemas → Q [] s → Q [] t)
include hany

omit h [Gateway γ] in
theorem keeps_modifyGet {f : Interpreter γ → α × Interpreter γ}
    (houtside : ∀ s, (f s).2.outside = s.outside) (hschemas : ∀ s, (f s).2.schemas = s.schemas) :
    Run.Keeps (Q []) (modifyGet f : Run γ α) :=
  .modifyGet fun s => hany s _ (houtside s) (hschemas s)

omit h [Gateway γ] in
theorem keeps_load (u : ModuleUnit) : Run.Keeps (Q []) (Run.load u) := by
  have hfunctions (module : Nat) (decls : List FunctionDecl) :
      Run.Keeps (Q []) (Run.functionGlobals (γ := γ) module decls) := by
    induction decls with
    | nil => exact .pure fun _ hs => hs
    | cons d rest ih =>
      have hnew : Run.Keeps (Q []) (Run.newFunction (γ := γ) (.closure d Env.empty module)) :=
        .bind (keeps_modifyGet hany (fun _ => rfl) fun _ => rfl) fun _ => .pure fun _ hs => hs
      exact .bind hnew fun f => .bind ih fun _ => .pure fun _ hs => hs
  refine .get_bind fun s hs => .get_bind fun t ht => ?_
  subst ht
  refine .bind (.weaken (hfunctions _ _) (fun _ h => h ▸ hs) (fun _ _ h => h) fun _ h => h)
    fun functions => ?_
  exact .bind (keeps_modifyGet hany (fun _ => rfl) fun _ => rfl) fun _ => .pure fun _ hs => hs

theorem runUnits (units : List ModuleUnit) : Run.Keeps (Q []) ((ofFuel fuel).runUnits units) := by
  induction units with
  | nil => exact .pure fun _ hs => hs
  | cons u rest ih =>
    refine .bind (.bind (keeps_load hany u) fun module => ?_) fun _ => ih
    exact .forM fun i _ => h.runItem module _ i
      (fun _ _ _ _ => keeps_modifyGet hany (fun _ => rfl) fun _ => rfl) fun _ _ hs => hs

theorem execute (units : List ModuleUnit) {s : Interpreter γ} (hs : Q [] s) :
    Q [] (s.execute fuel units).2 := by
  have hrun : Run.Keeps (Q []) ((ofFuel fuel).runProgram units) :=
    .bind (keeps_modifyGet hany (fun _ => rfl) fun _ => rfl) fun _ => .bind (h.runUnits hany units) fun _ =>
      h.drain _
  rw [Interpreter.execute_state]
  exact hrun.endState hs

end Sustains

/-- The scheduler, the provider and the evaluator leave alone what the program was loaded with. -/
theorem sustains_loaded (fuel : Nat) {P : Interpreter γ → Prop}
    (hP : ∀ {s t}, P s → t.loaded = s.loaded → P t) :
    (ofFuel fuel).Sustains fun (_ : List (Task TaskBody)) => P := by
  have hkept := Interpreter.kept_of_loaded hP
  constructor
  case kept => exact fun _ => hkept
  case release => exact id
  case take => exact fun hs _ => hP hs rfl
  case idle => exact fun hs _ => hP hs rfl
  case runTask =>
    exact fun task => leads_runTask hkept fuel task (fun _ hs => hs) fun _ _ hs => hP hs rfl
  case answer =>
    intro s c gateway hs _
    refine hP hs ?_
    unfold Run.receive
    rw [Eval.modify_apply]
    dsimp only [endState]
    split <;> rfl
  case poll => exact fun hs _ _ => hP hs rfl
  case wait => exact fun hs _ => hP hs rfl

theorem sustains_modules (fuel : Nat) (P : Array ModuleScope → Prop) :
    (ofFuel fuel).Sustains fun (_ : List (Task TaskBody)) (s : Interpreter γ) => P s.modules := by
  refine sustains_loaded fuel fun {s t} hs hloaded => ?_
  rwa [show t.modules = s.modules from congrArg Loaded.modules hloaded]

end Recur

end StreamLang
