import StreamLang.Gateway.Stock
import StreamLang.Proofs.Refinement.Bare

/-! The module in which a refinement is checked. A predicate has the names of the module that is
being run, not of the one that declares the alias. Where they stand for the same in both, a check
ends as it would in the other module; where they do not, it may end in another way. -/

namespace StreamLang

variable {γ α : Type}

/-- Nothing is excused, and lines are compared. -/
def Terms.exact : Terms where
  permit := .all
  lines := True
  excused _ := False
  not_excused_early _ _ := id
  excused_locate _ _ := id

namespace Scene

/-- The program of `s₀` with one module being run, and with another one. -/
def moved (s₀ : Interpreter γ) (m m' : Nat) : Scene γ where
  terms := .exact
  state s t := s.loaded = s₀.loaded ∧ s.current = m ∧ t = { s with current := m' }
  code := Expr.Bare fun n => s₀.global? m n = s₀.global? m' n
  effects := True

variable {s₀ : Interpreter γ} {m m' : Nat}

theorem moved_modifyGet {P : α → Prop} {f : Interpreter γ → α × Interpreter γ}
    (hf : ∀ s, f { s with current := m' } = ((f s).1, { (f s).2 with current := m' }))
    (hkeeps : ∀ s, (f s).2.loaded = s.loaded ∧ (f s).2.current = s.current) (hP : ∀ a, P a) :
    (moved s₀ m m').Steady P (modifyGet f : Run γ α) := by
  refine .modifyGet ?_
  rintro s _ ⟨hloaded, hm, rfl⟩
  obtain ⟨hloaded', hm'⟩ := hkeeps s
  rw [hf]
  exact ⟨rfl, hP _, hloaded'.trans hloaded, hm'.trans hm, rfl⟩

theorem moved_modify {f : Interpreter γ → Interpreter γ}
    (hf : ∀ s, f { s with current := m' } = { f s with current := m' })
    (hkeeps : ∀ s, (f s).loaded = s.loaded ∧ (f s).current = s.current) :
    (moved s₀ m m').Steady (fun _ => True) (modify f : Run γ PUnit) :=
  moved_modifyGet (fun s => by rw [hf]) hkeeps fun _ => trivial

theorem moved_fresh : (moved s₀ m m').Steady (fun _ => True) Run.freshIdentity :=
  moved_modifyGet (fun _ => rfl) (fun _ => ⟨rfl, rfl⟩) fun _ => trivial

theorem moved_newFunction (c : Callable) :
    (moved s₀ m m').Steady (Value.Permitted .all) (Run.newFunction c) :=
  .bind moved_fresh fun _ _ => .pure (Value.permitted_all _)

theorem moved_withScheduler (f : Scheduler TaskBody → α × Scheduler TaskBody) :
    (moved s₀ m m').Steady (fun _ => True) (Run.withScheduler f : Run γ α) :=
  moved_modifyGet (fun _ => rfl) (fun _ => ⟨rfl, rfl⟩) fun _ => trivial

theorem moved_lookup {name : String} {env : Env}
    (hname : name ∈ env.names ∨ s₀.global? m name = s₀.global? m' name) :
    (moved s₀ m m').Steady (Value.Permitted .all) (Run.lookup name env) := by
  unfold Run.lookup
  cases hv : env.lookup? name with
  | some v => exact .pure v.permitted_all
  | none =>
    have hsame := hname.resolve_left (Env.not_mem_names hv)
    refine .get_bind ?_
    rintro s _ ⟨hloaded, rfl, rfl⟩
    have hglobal : Interpreter.global? { s with current := m' } m' name =
        s.global? s.current name := by
      rw [Interpreter.global?_of_loaded hloaded, hsame]
      exact Interpreter.global?_of_loaded hloaded m' name
    rw [hglobal]
    cases s.global? s.current name with
    | some v => exact .pure v.permitted_all
    | none =>
      dsimp only
      cases Builtin.ofName? name with
      | some b => exact moved_newFunction (.builtin b)
      | none =>
        dsimp only
        split
        · exact .pure (Value.permitted_all _)
        · exact .fail _

theorem moved_dispatch [Gateway γ] (op : ServiceOp) (args : List Json) :
    (moved s₀ m m').Steady (fun _ => True) (Run.dispatch op args) := by
  refine .bind (P := fun _ => True)
    (moved_modifyGet (fun _ => rfl) (fun _ => ⟨rfl, rfl⟩) fun _ => trivial) fun id _ => ?_
  refine .bind (P := fun _ => True)
    (moved_modifyGet (fun _ => rfl) (fun _ => ⟨rfl, rfl⟩) fun _ => trivial) fun reply _ => ?_
  cases reply with
  | error message => exact .fail _
  | ok _ =>
    refine .bind (moved_withScheduler _) fun future _ => ?_
    exact .bind (moved_modify (fun _ => rfl) fun _ => ⟨rfl, rfl⟩) fun _ _ => .pure trivial

theorem moved_settledFuture (state : FutureState) :
    (moved s₀ m m').Steady (Value.Permitted .all) (Run.settledFuture state) :=
  .bind (moved_withScheduler _) fun _ _ => .bind (moved_withScheduler _) fun _ _ =>
    .pure (Value.permitted_all _)

theorem moved_lawful [Gateway γ] (h : s₀.SameNames m m') : (moved s₀ m m').Lawful where
  future _ := trivial
  builtin _ := .inr trivial
  operands he := he.operands
  methodName he := he.methodName
  branch he := he.of_branch
  cases he := he.of_cases
  block he := he.of_block
  attempt he := he.of_attempt
  async _ := trivial
  await he := (Expr.Bare.not_await he).elim
  line := by
    rintro s _ ⟨_, _, rfl⟩
    exact .refl _
  schemas := by
    rintro s _ ⟨_, _, rfl⟩
    rfl
  predicate := by
    rintro s _ name schema p ⟨hloaded, _, rfl⟩ hschema hp
    have hschemas : s.schemas = s₀.schemas := congrArg Loaded.schemas hloaded
    rw [hschemas] at hschema
    exact h name schema p hschema hp
  futures := by
    rintro s _ ⟨_, _, rfl⟩ _ id
    cases s.scheduler.futures.state? id with
    | none => exact .none
    | some state => exact .some (Terms.sameState_refl _ Value.permitted_all state)
  lookup he _ := moved_lookup he.of_name
  setLine _ := moved_modify (fun _ => rfl) fun _ => ⟨rfl, rfl⟩
  newFunction _ _ := moved_newFunction _
  newStream _ := .bind moved_fresh fun _ _ => .pure (Value.permitted_all _)
  closure he := (Expr.Bare.not_closure he).elim
  spawn he := (Expr.Bare.not_async he).elim
  writeLog _ := moved_modify (fun _ => rfl) fun _ => ⟨rfl, rfl⟩
  markObserved _ _ := moved_withScheduler _
  settledFuture := by
    rintro _ state state' (_ | _ | ⟨_, hline⟩) _
    · exact moved_settledFuture _
    · exact moved_settledFuture _
    · obtain rfl := hline trivial
      exact moved_settledFuture _
  spawnCombinator _ _ _ := moved_withScheduler _
  dispatch _ op args := moved_dispatch op args

theorem moved_numbered {P : α → Prop} {x y : Run γ α} (h : (moved s₀ m m').Agree P x y) :
    (moved s₀ m m').Agree P (Run.numbered x) (Run.numbered y) := by
  rintro s _ ⟨hloaded, hm, rfl⟩
  refine Eval.Lockstep.restoring h ?_ (s := { s with nextIdentity := s.nextIdentity.inner })
    ⟨hloaded, hm, rfl⟩
  rintro s' _ ⟨hloaded', hm', rfl⟩
  exact ⟨hloaded', hm', rfl⟩

/-- What is run with the names of a module does not depend on the module that was run before. -/
theorem moved_inModule (module : Nat) {x : Run γ Value}
    (hx : ∀ s, (endState (x s)).loaded = s.loaded) :
    (moved s₀ m m').Steady (Value.Permitted .all) (Run.inModule module x) := by
  rintro s _ ⟨hloaded, hm, rfl⟩
  have hend := hx { s with current := module }
  change (Terms.exact).Ends _ _
    (x.restoring (fun s' => { s' with current := s.current }) { s with current := module })
    (x.restoring (fun s' => { s' with current := m' }) { s with current := module })
  unfold Eval.restoring
  generalize x { s with current := module } = r at hend ⊢
  cases r with
  | ok v t => exact .value ⟨rfl, v.permitted_all⟩ ⟨hend.trans hloaded, hm, rfl⟩
  | error u t =>
    exact .unwinding (Terms.unwinds_refl _ Value.permitted_all u) ⟨hend.trans hloaded, hm, rfl⟩

theorem moved_memoKey? (decl : FunctionDecl) (module : Nat) (args : List Value) :
    (moved s₀ m m').Steady (fun _ => True) (Run.memoKey? decl module args) := by
  unfold Run.memoKey?
  cases decl.name with
  | none => exact .pure trivial
  | some name =>
    refine .get_bind ?_
    rintro s _ ⟨_, _, rfl⟩
    exact .pure trivial

theorem moved_callClosure [Gateway γ] (fuel : Nat) {decl : FunctionDecl} (env : Env) (module : Nat)
    {args : List Value} (hlen : args.length = decl.arity) :
    (moved s₀ m m').Steady (Value.Permitted .all)
      ((Recur.ofFuel fuel).callClosure decl env module args) :=
  Recur.callClosure_agree moved_numbered
    (moved_inModule module (Recur.loaded_enterClosure fuel env hlen))
    (moved_memoKey? decl module args)
    (fun _ => moved_modifyGet (fun _ => rfl) (fun _ => ⟨rfl, rfl⟩)
      fun _ _ _ => Value.permitted_all _)
    fun _ _ _ => moved_modify (fun _ => rfl) fun _ => ⟨rfl, rfl⟩

theorem ofFuel_moved [Gateway γ] (h : s₀.SameNames m m') (fuel : Nat) :
    (Recur.ofFuel fuel).InStep (moved s₀ m m') (Recur.ofFuel fuel) := by
  induction fuel with
  | zero => exact ⟨.inl rfl, fun _ _ => .throw .exhausted, fun _ _ _ _ => .throw .exhausted⟩
  | succ fuel ih =>
    have hS := moved_lawful h
    refine ⟨.inl rfl, fun {e env} he henv => ?_, ?_⟩
    · exact .located (ih.evalNode hS he henv) (.refl e.line)
    · exact ih.callValue hS fun _ _ _ hlen => moved_callClosure fuel _ _ hlen

/-- What keeps step ends in the same way with the names of the other module. -/
theorem moved_ends {P : α → Prop} {x : Run γ α} {s : Interpreter γ}
    (h : (moved s m s.current).Steady P x) : Run.inModule m x s = x s := by
  have hends := h { s with current := m } s ⟨rfl, rfl, rfl⟩
  change x.restoring (fun s' => { s' with current := s.current }) { s with current := m } = x s
  unfold Eval.restoring
  generalize x { s with current := m } = r, x s = r' at hends ⊢
  cases hends with
  | value hab hs =>
    obtain ⟨rfl, -⟩ := hab
    obtain ⟨-, -, rfl⟩ := hs
    rfl
  | unwinding hu hs =>
    obtain rfl := hu.eq trivial
    obtain ⟨-, -, rfl⟩ := hs
    rfl
  | excused hu => exact hu.elim

end Scene

/-- A check of refinements ends as it would in another module, when the names in the predicates
stand for the same there. -/
theorem check_same_elsewhere [Gateway γ] {s : Interpreter γ} {home : Nat}
    (h : s.SameNames home s.current) (fuel line : Nat) (v : Value) :
    (∀ t, Run.inModule home ((Recur.ofFuel fuel).checkRefinements line t v) s =
      (Recur.ofFuel fuel).checkRefinements line t v s) ∧
    ∀ ty, Run.inModule home ((Recur.ofFuel fuel).checkOptional ty v line) s =
      (Recur.ofFuel fuel).checkOptional ty v line s := by
  have hstep := Scene.ofFuel_moved h fuel
  have hS := Scene.moved_lawful h
  constructor
  · exact fun t => Scene.moved_ends (hstep.checkRefinements hS (.refl line) t v v.permitted_all)
  · exact fun ty => Scene.moved_ends (hstep.checkOptional hS ty v.permitted_all (.refl line))

/-- `export type Positive = Int where positive(value);` -/
def positive : AliasDecl :=
  ⟨"Positive", .named .none "Int" [],
    some (.call .none (.name .none "positive") [.name .none "value"])⟩

/-- `export type Natural = Int where abs(value) == value;` -/
def natural : AliasDecl :=
  ⟨"Natural", .named .none "Int" [],
    some (.binary .none .eq (.call .none (.name .none "abs") [.name .none "value"])
      (.name .none "value"))⟩

/-- `fn positive(n: Int) -> Bool { n > <limit> }` -/
def above (limit : Int64) : FunctionDecl :=
  ⟨some "positive", [⟨"n", some (.named .none "Int" []), .none⟩], some (.named .none "Bool" []),
    .binary .none .gt (.name .none "n") (.literal .none (.int limit)), false, .none⟩

/-- The module `sign` declares the alias and a private function, maybe for its predicate. -/
def signProgram (a : AliasDecl) : Program :=
  ⟨[⟨.typeAlias a, true, .none⟩, ⟨.function (above 0), false, .none⟩]⟩

/-- A module that imports the alias, and may have a function of its own under the name. -/
def importProgram (a : AliasDecl) (own : Option FunctionDecl) : Program :=
  ⟨⟨.imports ⟨[⟨a.name, none, .none⟩], "sign"⟩, false, .none⟩ ::
    own.toList.map fun d => ⟨.function d, false, .none⟩⟩

def importUnits (a : AliasDecl) (own : Option FunctionDecl) : List ModuleUnit :=
  [⟨"sign", signProgram a, []⟩,
    ⟨"main", importProgram a own, [⟨a.name, "sign", a.name, .typeAlias, .none⟩]⟩]

def importChecked (a : AliasDecl) (own : Option FunctionDecl) : Checked :=
  ⟨(Check.collectSchemas (importUnits a own)).table,
    ⟨"sign", "positive"⟩ :: own.toList.map fun _ => ⟨"main", "positive"⟩, []⟩

/-- Both modules are loaded, and this one is being run. -/
def importState (a : AliasDecl) (own : Option FunctionDecl) (current : Nat) :
    Interpreter StockGateway :=
  let start := Interpreter.start (importChecked a own) ⟨512, false, 1000, false⟩ (.null [])
  { (start.execute 3 (importUnits a own)).2 with current }

theorem natural_bare {good : String → Prop} (habs : good "abs") {p : Expr}
    (h : natural.predicate = some p) : p.Bare good ["value"] := by
  cases h
  have hvalue : Expr.Bare good ["value"] (.name .none "value") := .name .none (.inl (.head _))
  have hcall : Expr.Bare good ["value"] (.call .none (.name .none "abs") [.name .none "value"]) :=
    .parts rfl nofun (List.forall_mem_cons.2
      ⟨.name .none (.inr habs), List.forall_mem_singleton.2 hvalue⟩)
  exact .parts rfl nofun (List.forall_mem_cons.2 ⟨hcall, List.forall_mem_singleton.2 hvalue⟩)

theorem natural_sameNames : (importState natural (some (above 10)) 1).SameNames 0 1 := by
  intro name schema p hschema hp
  have haliases : (importState natural (some (above 10)) 1).schemas.aliases =
      [("Natural", ⟨"Natural", .int, natural.predicate⟩)] := rfl
  rw [SchemaTable.typeAlias?, haliases, Keyed.get?] at hschema
  split at hschema
  case isTrue =>
    cases hschema
    refine natural_bare ?_ hp
    rfl
  case isFalse => cases hschema

/-- `abs` is the builtin in both modules. -/
theorem natural_same_elsewhere :
    accept "main" (importProgram natural (some (above 10))) [("sign", signProgram natural)] =
        .ok ⟨importUnits natural (some (above 10)), importChecked natural (some (above 10))⟩ ∧
      (importState natural (some (above 10)) 1).SameNames 0 1 ∧
      Run.inModule 0 ((Recur.ofFuel 9).checkOptional (some (.named .none "Natural" [])) (.int 5) 1)
          (importState natural (some (above 10)) 1) =
        (Recur.ofFuel 9).checkOptional (some (.named .none "Natural" [])) (.int 5) 1
          (importState natural (some (above 10)) 1) :=
  ⟨rfl, natural_sameNames, (check_same_elsewhere natural_sameNames 9 1 (.int 5)).2 _⟩

/-- How the check of the alias on 5 ends. -/
def checkFive (a : AliasDecl) (own : Option FunctionDecl) (current : Nat) :
    Except (Option Fault) Unit :=
  match Recur.checkAnnotation (Recur.ofFuel 9) (.named .none a.name []) (.int 5) 1
    (importState a own current) with
  | .ok _ _ => .ok ()
  | .error (.fail fault _) _ => .error (some fault)
  | .error _ _ => .error none

/-- Five is positive in the module that declares the alias. In one that imports it the private
function is unknown, or a function of the importing module takes its place. -/
theorem verdict_of_module :
    accept "main" (importProgram positive none) [("sign", signProgram positive)] =
        .ok ⟨importUnits positive none, importChecked positive none⟩ ∧
      checkFive positive none 0 = .ok () ∧
      checkFive positive none 1 = .error (some (.undefinedVariable "positive")) ∧
      accept "main" (importProgram positive (some (above 10))) [("sign", signProgram positive)] =
        .ok ⟨importUnits positive (some (above 10)), importChecked positive (some (above 10))⟩ ∧
      checkFive positive (some (above 10)) 0 = .ok () ∧
      checkFive positive (some (above 10)) 1 =
        .error (some (.refinementViolated (.int 5) "Positive")) := by
  refine ⟨rfl, rfl, rfl, rfl, rfl, rfl⟩

end StreamLang
