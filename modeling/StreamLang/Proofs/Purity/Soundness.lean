import StreamLang.Execution
import StreamLang.Gateway.Stock
import StreamLang.Proofs.Modules.Imports
import StreamLang.Proofs.Purity.Apart
import StreamLang.Proofs.Purity.Scan
import StreamLang.Proofs.Purity.Mention

/-! The analysis against the evaluator: a saturated call of a function that is marked as pure stays
apart from futures, tasks and services, in a state whose names hold what the check takes them to
hold. -/

namespace StreamLang

variable {γ : Type} {units : List ModuleUnit} {checked : Checked}

/-- The name is mentioned in the module by a function that is marked as pure, or it is mentioned by
the predicate of an alias, which is evaluated in all modules. -/
def Interpreter.Mentioned (units : List ModuleUnit) (checked : Checked) (s : Interpreter γ)
    (module : Nat) (name : String) : Prop :=
  (∃ u ∈ units, u.name = s.moduleName module ∧ ∃ decl ∈ u.functions,
      ⟨u.name, decl.displayName⟩ ∈ checked.pure ∧ decl.Mentions name) ∨
    ∃ a schema p, s.schemas.typeAlias? a = some schema ∧ schema.predicate = some p ∧
      p.Mentions ["value"] name

/-- The name is mentioned, and the check finds it harmless. -/
def Interpreter.Trusted (units : List ModuleUnit) (checked : Checked) (s : Interpreter γ)
    (module : Nat) (name : String) : Prop :=
  s.Mentioned units checked module name ∧
    Purity.Referable (· ∈ checked.pure) (Check.globalsOf units (s.moduleName module)) name

/-- What a program has to see to. What is trusted, and is no function, is inert: the values of such names,
the builtin that a name of the module stands for as long as it has no value, and the predicates of
aliases. -/
structure Interpreter.Harmless (units : List ModuleUnit) (checked : Checked) (s : Interpreter γ) :
    Prop where
  data : ∀ m n v, s.Trusted units checked m n →
    (∀ id isAsync,
      Keyed.get? n (Check.globalsOf units (s.moduleName m)) ≠ some (.function id isAsync)) →
    s.global? m n = some v → v.Inert (s.Trusted units checked)
  fallback : ∀ m n symbol b, s.Trusted units checked m n →
    Keyed.get? n (Check.globalsOf units (s.moduleName m)) = some symbol →
    s.global? m n = none → Builtin.ofName? n = some b → Purity.isHarmless b.effect = true
  predicate : ∀ a schema p, s.schemas.typeAlias? a = some schema → schema.predicate = some p →
    ∀ m, p.Confined
      (Purity.Referable (· ∈ checked.pure) (Check.globalsOf units (s.moduleName m))) ["value"]

/-- The state is as the check takes it to be. Besides what the program has to see to, and as runs keep it, a
name that stands for a function holds it, and the remembered results are inert. -/
structure Interpreter.Faithful (units : List ModuleUnit) (checked : Checked) (s : Interpreter γ) : Prop
    extends s.Harmless units checked where
  function : ∀ m n id isAsync v,
    Keyed.get? n (Check.globalsOf units (s.moduleName m)) = some (.function id isAsync) →
    s.global? m n = some v → ∃ u ∈ units, ∃ decl ∈ u.functions, ∃ identity module,
      id = ⟨u.name, decl.displayName⟩ ∧ s.moduleName module = u.name ∧
        v = .function identity (.closure decl Env.empty module)
  remembered : ∀ (key : MemoKey FunctionId) v, s.memo.entries[key]? = some v →
    v.Inert (s.Trusted units checked)

/-- What is loaded matters, and what is remembered. -/
theorem Interpreter.Faithful.of_loaded {s t : Interpreter γ} (hs : s.Faithful units checked)
    (hloaded : t.loaded = s.loaded)
    (hremembered : ∀ (key : MemoKey FunctionId) v, t.memo.entries[key]? = some v →
      v.Inert (s.Trusted units checked)) : t.Faithful units checked := by
  have hmodules : t.modules = s.modules := congrArg Loaded.modules hloaded
  have hschemas : t.schemas = s.schemas := congrArg Loaded.schemas hloaded
  have hname : t.moduleName = s.moduleName := by
    funext m
    rw [moduleName, moduleName, hmodules]
  have hglobal : t.global? = s.global? := by
    funext m n
    rw [global?, global?, hmodules]
  have htrusted : t.Trusted units checked = s.Trusted units checked := by
    funext m n
    rw [Trusted, Trusted, Mentioned, Mentioned, hname, hschemas]
  refine ⟨⟨?data, ?fallback, ?predicate⟩, ?function, ?remembered⟩
  case data =>
    rw [htrusted, hname, hglobal]
    exact hs.data
  case fallback =>
    rw [htrusted, hname, hglobal]
    exact hs.fallback
  case predicate =>
    rw [hname, hschemas]
    exact hs.predicate
  case function =>
    rw [hname, hglobal]
    exact hs.function
  case remembered =>
    rw [htrusted]
    exact hremembered

/-- In a program that is accepted no two modules have one name, and no two functions of a module do. -/
theorem Accepted.distinct {mainName : String} {main : Program} {provider : Provider} {a : Accepted}
    (haccept : accept mainName main provider = .ok a) : Check.Distinct a.units where
  modules :=
    (Modules.inOrder_of_resolve (P := ⟨mainName, main, provider⟩) (accept_eq_ok haccept).1).nodup
  functions u hu := by
    obtain ⟨before, after, hsplit⟩ := List.append_of_mem hu
    have hknown := Check.checkUnit_known (Check.clean_of_split (accept_eq_ok haccept).2 hsplit)
    have hown : u.ownNames.Nodup := (List.nodup_append.1 hknown.nodup).2.1
    exact (List.nodup_append.1 hown).1

namespace Check

/-- The table of a module is what its own check, behind the modules in front of it, has made. -/
theorem globalsOf_of_split (hcheck : program units = .ok checked) (hdistinct : Distinct units)
    {before after : List ModuleUnit} {u : ModuleUnit} (hsplit : units = before ++ u :: after) :
    globalsOf units u.name = (checkAfter checked.schemas before u).1.1 := by
  have hmem : ∀ (before : List ModuleUnit) (p : Exports × State),
      let q := checkedUnits before p
      (u, (checkUnit q.1 u q.2).1.1) ∈ (checkTables (before ++ u :: after) p.1 p.2).1 := by
    intro before
    induction before with
    | nil => exact fun p => List.mem_cons_self
    | cons w rest ih =>
      intro p
      have hrest := ih (Keyed.insert w.name (checkUnit p.1 w p.2).1.2 p.1, (checkUnit p.1 w p.2).2)
      exact List.mem_cons_of_mem _ hrest
  have htable : (u, (checkAfter checked.schemas before u).1.1) ∈ tables units := by
    rw [tables, ← (program_eq_ok hcheck).1, hsplit]
    exact hmem before (beginning checked.schemas)
  exact globalsOf_of_mem hdistinct htable

end Check

/-! What names of modules hold at run time. Modules only bind names when they are loaded, and for each
`let` at their tops, and no `let` has the name of a function. -/

namespace Interpreter

/-- The value is the function of this identity, of a module that there is. -/
def IsFunction (units : List ModuleUnit) (modules : Array ModuleScope) (id : FunctionId)
    (v : Value) : Prop :=
  ∃ u ∈ units, ∃ decl ∈ u.functions, ∃ identity module, ∃ scope : ModuleScope,
    id = ⟨u.name, decl.displayName⟩ ∧ modules[module]? = some scope ∧ scope.name = u.name ∧
      v = .function identity (.closure decl Env.empty module)

/-- A name that stands for a function holds it, as soon as it holds anything. -/
def FunctionsBound (units : List ModuleUnit) (modules : Array ModuleScope) : Prop :=
  ∀ (m : Nat) (scope : ModuleScope), modules[m]? = some scope → ∀ n id isAsync v,
    Keyed.get? n (Check.globalsOf units scope.name) = some (.function id isAsync) →
      Keyed.get? n scope.globals = some v → IsFunction units modules id v

/-- So it is while the module of this name is run, in its place. -/
structure BoundIn (units : List ModuleUnit) (k : Nat) (name : String)
    (modules : Array ModuleScope) : Prop where
  bound : FunctionsBound units modules
  home : ∃ scope : ModuleScope, modules[k]? = some scope ∧ scope.name = name

theorem IsFunction.push {modules : Array ModuleScope} {id : FunctionId} {v : Value}
    (h : IsFunction units modules id v) (scope : ModuleScope) :
    IsFunction units (modules.push scope) id v := by
  obtain ⟨u, hu, decl, hdecl, identity, module, home, hid, hhome, hname, hv⟩ := h
  have hlt : module < modules.size := (Array.getElem?_eq_some_iff.1 hhome).1
  refine ⟨u, hu, decl, hdecl, identity, module, home, hid, ?_, hname, hv⟩
  rw [Array.getElem?_push, if_neg (Nat.ne_of_lt hlt), hhome]

theorem IsFunction.bind {modules : Array ModuleScope} {id : FunctionId} {v : Value}
    (h : IsFunction units modules id v) (k : Nat) (f : ModuleScope → List (String × Value)) :
    IsFunction units (modules.modify k fun scope => { scope with globals := f scope }) id v := by
  obtain ⟨u, hu, decl, hdecl, identity, module, home, hid, hhome, hname, hv⟩ := h
  rw [IsFunction]
  by_cases hk : k = module
  · refine ⟨u, hu, decl, hdecl, identity, module, { home with globals := f home }, hid, ?_, hname, hv⟩
    rw [Array.getElem?_modify, if_pos hk, hhome]
    rfl
  · refine ⟨u, hu, decl, hdecl, identity, module, home, hid, ?_, hname, hv⟩
    rw [Array.getElem?_modify, if_neg hk, hhome]

section

variable {mainName : String} {main : Program} {provider : Provider} {a : Accepted}
  (haccept : accept mainName main provider = .ok a) {before after : List ModuleUnit} {u : ModuleUnit}
  (hsplit : a.units = before ++ u :: after) {modules : Array ModuleScope}
include haccept hsplit

theorem FunctionsBound.push (h : FunctionsBound a.units modules)
    {functions : List (String × Value)}
    (hfunctions : ∀ e ∈ functions, ∃ d ∈ u.functions, ∃ id,
      e = (d.displayName, .function id (.closure d Env.empty modules.size))) :
    FunctionsBound a.units (modules.push
      ⟨u.name, Keyed.ofList (Run.importedGlobals modules u.imports ++ functions)⟩) := by
  have hcheck := (accept_eq_ok haccept).2
  have hdistinct := Accepted.distinct haccept
  intro m scope hscope n id isAsync v hentry hv
  rw [Array.getElem?_push] at hscope
  split at hscope
  case isFalse => exact (h m scope hscope n id isAsync v hentry hv).push _
  case isTrue hm =>
    cases hscope
    rw [Check.globalsOf_of_split hcheck hdistinct hsplit] at hentry
    obtain ⟨-, hsource⟩ := Check.function_of_symbol hentry
    have hnodup := (Check.checkUnit_known (Check.clean_of_split hcheck hsplit)).nodup
    rw [ModuleUnit.valueNames, List.nodup_append] at hnodup
    obtain ⟨⟨n, v⟩, hmem, rfl, rfl⟩ | hnone := Keyed.mem_of_get?_foldl_insert Prod.fst Prod.snd hv
    case inr => cases hnone
    rcases List.mem_append.1 hmem with himport | hfunction
    · obtain ⟨i, hi, hname, hvalue⟩ := mem_importedGlobals.1 himport
      obtain ⟨hown, -⟩ | ⟨-, i', hi', hname', hsymbol⟩ := hsource
      · -- the names of the module are all different
        exact absurd hname.symm (hnodup.2.2 _ (List.mem_map_of_mem hi) _ (List.mem_append_left _ hown))
      · obtain rfl := List.inj_on_of_nodup_map hnodup.1 hi' hi (hname'.trans hname)
        cases hfound : Check.findExport?
            (Check.checkedUnits before (Check.beginning a.checked.schemas)).1 i'.module i'.symbol with
        | none =>
          rw [Check.exportOf, hfound] at hsymbol
          cases hsymbol
        | some e =>
          rw [Check.exportOf, hfound] at hsymbol
          obtain ⟨front, w, back, rfl, hmodule, -, hexported⟩ :=
            Check.exists_exporter hdistinct.modules hsplit hfound
          have hfront : a.units = front ++ w :: (back ++ u :: after) := by simp [hsplit]
          obtain ⟨home, hhome, hget⟩ := Option.bind_eq_some_iff.1 hvalue
          obtain ⟨j, hj, rfl⟩ := Array.mem_iff_getElem.1 (Array.mem_of_find?_eq_some hhome)
          have hhomeName := Array.find?_some hhome
          rw [beq_iff_eq, ← hmodule] at hhomeName
          refine (h j _ (Array.getElem?_eq_getElem hj) i'.symbol id isAsync v ?_ hget).push _
          rw [hhomeName, Check.globalsOf_of_split hcheck hdistinct hfront, hexported]
          exact congrArg some hsymbol
    · obtain ⟨d, hd, identity, heq⟩ := hfunctions _ hfunction
      cases heq
      obtain ⟨-, rfl⟩ | ⟨hnot, -⟩ := hsource
      · exact ⟨u, hsplit ▸ List.mem_append_right _ List.mem_cons_self, d, hd, identity, modules.size,
          _, rfl, Array.getElem?_push_size, rfl, rfl⟩
      · exact absurd (List.mem_map_of_mem hd) hnot

theorem BoundIn.bind {k : Nat} (h : BoundIn a.units k u.name modules) {i : Item}
    (hi : i ∈ u.program.items) {bindings : List (String × Value)}
    (hbindings : bindings.map Prod.fst = i.letNames) :
    BoundIn a.units k u.name (modules.modify k fun scope => { scope with
      globals := bindings.foldl (fun m b => Keyed.insert b.1 b.2 m) scope.globals }) := by
  obtain ⟨hbound, scope, hk, hname⟩ := h
  have hhome : (modules.modify k fun scope => { scope with
      globals := bindings.foldl (fun m b => Keyed.insert b.1 b.2 m) scope.globals })[k]? =
      some { scope with
        globals := bindings.foldl (fun m b => Keyed.insert b.1 b.2 m) scope.globals } := by
    rw [Array.getElem?_modify, if_pos rfl, hk]
    rfl
  refine ⟨fun m scope' hscope n id isAsync v hentry hv => ?_, _, hhome, hname⟩
  by_cases hm : m = k
  · subst hm
    cases hhome.symm.trans hscope
    obtain ⟨e, hmem, rfl, -⟩ | hbefore := Keyed.mem_of_get?_foldl_insert Prod.fst Prod.snd hv
    · rw [hname, Check.globalsOf_of_split (accept_eq_ok haccept).2 (Accepted.distinct haccept)
        hsplit] at hentry
      refine absurd ?_ (Check.function_of_symbol hentry).1
      exact List.mem_flatMap.2 ⟨i, hi, hbindings ▸ List.mem_map_of_mem hmem⟩
    · exact (hbound m scope hk n id isAsync v hentry hbefore).bind m _
  · rw [Array.getElem?_modify, if_neg (Ne.symm hm)] at hscope
    exact (hbound m scope' hscope n id isAsync v hentry hv).bind k _

end

namespace FunctionsBound

section

variable [Gateway γ] {mainName : String} {main : Program} {provider : Provider} {a : Accepted}
  (haccept : accept mainName main provider = .ok a)
include haccept

theorem runUnit (fuel : Nat) (isMain : Bool) {u : ModuleUnit} (hu : u ∈ a.units) :
    Run.Keeps (fun s : Interpreter γ => FunctionsBound a.units s.modules)
      ((Recur.ofFuel fuel).runUnit isMain u) := by
  obtain ⟨before, after, hsplit⟩ := List.append_of_mem hu
  intro s hs
  obtain ⟨functions, t, hload, -, hfunctions, hmodules⟩ := Run.load_eq u s
  rw [Recur.runUnit, Eval.bind_of_ok hload]
  have hitem : ∀ i ∈ u.program.items,
      Run.Keeps (fun s' : Interpreter γ => BoundIn a.units s.modules.size u.name s'.modules)
        ((Recur.ofFuel fuel).runItem s.modules.size isMain i) := by
    intro i hi
    refine (Recur.sustains_modules fuel (BoundIn a.units s.modules.size u.name)).runItem _ isMain i
      (fun d hkind bindings hnames => .modify fun s' hs' => ?_) fun _ _ hs => hs
    exact hs'.bind haccept hsplit hi (hnames.trans (by rw [Item.letNames, hkind]))
  have hstart : BoundIn a.units s.modules.size u.name t.modules := by
    rw [hmodules]
    exact ⟨hs.push haccept hsplit hfunctions, _, Array.getElem?_push_size, rfl⟩
  exact (Run.Leads.forM hitem).weaken (fun _ hs => hs) (fun _ _ hs => hs.bound) (fun _ hs => hs.bound)
    t hstart

/-- In the state that a run of an accepted program leaves, wherever it ends, names of functions hold them. -/
theorem execute (options : Options) (gateway : γ) (fuel : Nat) :
    FunctionsBound a.units
      ((Interpreter.start a.checked options gateway).execute fuel a.units).2.modules := by
  have hunits : ∀ units : List ModuleUnit, (∀ u ∈ units, u ∈ a.units) →
      Run.Keeps (fun s : Interpreter γ => FunctionsBound a.units s.modules)
        ((Recur.ofFuel fuel).runUnits units) := by
    intro units
    induction units with
    | nil => exact fun _ => .pure fun _ hs => hs
    | cons u rest ih =>
      intro hmem
      obtain ⟨hu, hrest⟩ := List.forall_mem_cons.1 hmem
      exact .bind (runUnit haccept fuel _ hu) fun _ => ih hrest
  have hrun : Run.Keeps (fun s : Interpreter γ => FunctionsBound a.units s.modules)
      ((Recur.ofFuel fuel).runProgram a.units) :=
    .bind (.modify fun _ hs => hs) fun _ => .bind (hunits a.units fun _ hu => hu) fun _ =>
      (Recur.sustains_modules fuel (FunctionsBound a.units)).drain _
  rw [Interpreter.execute_state]
  refine hrun.endState fun m scope hscope => ?_
  cases Array.getElem?_empty.symm.trans hscope

end

/-- What `Faithful` says of functions. -/
theorem global {s : Interpreter γ} (h : FunctionsBound units s.modules) {m : Nat} {n : String}
    {id : FunctionId} {isAsync : Bool} {v : Value}
    (hentry : Keyed.get? n (Check.globalsOf units (s.moduleName m)) = some (.function id isAsync))
    (hv : s.global? m n = some v) : ∃ u ∈ units, ∃ decl ∈ u.functions, ∃ identity module,
      id = ⟨u.name, decl.displayName⟩ ∧ s.moduleName module = u.name ∧
        v = .function identity (.closure decl Env.empty module) := by
  obtain ⟨scope, hscope, hget⟩ := Option.bind_eq_some_iff.1 hv
  rw [moduleName, hscope] at hentry
  obtain ⟨u, hu, decl, hdecl, identity, module, home, hid, hhome, hname, rfl⟩ :=
    h m scope hscope n id isAsync v hentry hget
  refine ⟨u, hu, decl, hdecl, identity, module, hid, ?_, rfl⟩
  rw [moduleName, hhome]
  exact hname

end FunctionsBound

end Interpreter

/-- In every function that is marked as pure, a name that is bound somewhere stands outside the
scope of its bindings only for something harmless. -/
def Checked.Scoped (units : List ModuleUnit) (checked : Checked) : Prop :=
  ∀ u ∈ units, ∀ decl ∈ u.functions, ⟨u.name, decl.displayName⟩ ∈ checked.pure →
    Purity.Scoped (· ∈ checked.pure) (Check.globalsOf units u.name) decl

section

variable (hcheck : Check.program units = .ok checked) (hdistinct : Check.Distinct units)
  (hscoped : checked.Scoped units)
include hcheck hdistinct hscoped

/-- A function that is marked as pure is inert. -/
theorem Interpreter.inert_of_marked {s : Interpreter γ} {u : ModuleUnit} (hu : u ∈ units)
    {decl : FunctionDecl} (hdecl : decl ∈ u.functions)
    (hmarked : ⟨u.name, decl.displayName⟩ ∈ checked.pure) {module : Nat}
    (hmodule : s.moduleName module = u.name) (identity : Identity) :
    (Value.function identity (.closure decl Env.empty module)).Inert
      (s.Trusted units checked) := by
  have hharmless := Check.harmless_of_marked hcheck hdistinct hu hdecl hmarked
  have hconfined := Purity.confined_of_harmless hharmless (hscoped u hu decl hdecl hmarked)
  have htrusted : Expr.DeclConfined (s.Trusted units checked module) [] decl := by
    refine hconfined.of_mentions fun n hn => ⟨.inl ⟨u, hu, hmodule.symm, ?_⟩, ?_⟩
    · exact ⟨decl, hdecl, hmarked, hn⟩
    · rw [hmodule]
      exact hn _ hconfined
  exact Value.permitted_function.2 ⟨htrusted, List.forall_mem_nil _⟩

theorem Interpreter.Faithful.inert {s : Interpreter γ} (hs : s.Faithful units checked) :
    s.Inert (s.Trusted units checked) where
  global m n v hgood hv := by
    cases hentry : Keyed.get? n (Check.globalsOf units (s.moduleName m)) with
    | none => exact hs.data m n v hgood (by rw [hentry]; rintro _ _ ⟨⟩) hv
    | some symbol => cases symbol with
      | value ty => exact hs.data m n v hgood (by rw [hentry]; rintro _ _ ⟨⟩) hv
      | function id isAsync =>
        obtain ⟨-, hmarked⟩ := hgood.2.function id isAsync hentry
        obtain ⟨u, hu, decl, hdecl, identity, module, rfl, hmodule, rfl⟩ :=
          hs.function m n id isAsync v hentry hv
        exact Interpreter.inert_of_marked hcheck hdistinct hscoped hu hdecl hmarked hmodule identity
  fallback m n b hgood hnone hb := by
    cases hentry : Keyed.get? n (Check.globalsOf units (s.moduleName m)) with
    | none => exact hgood.2.builtin b hentry hb
    | some symbol => exact hs.fallback m n symbol b hgood hentry hnone hb
  remembered := hs.remembered
  predicate a schema p ha hp m := by
    have hconfined := hs.predicate a schema p ha hp m
    refine hconfined.of_mentions fun n hn => ⟨.inr ⟨a, schema, p, ha, hp, hn⟩, ?_⟩
    exact hn _ hconfined

section

variable [Gateway γ] {s : Interpreter γ} (hs : s.Faithful units checked) {u : ModuleUnit}
  (hu : u ∈ units) {decl : FunctionDecl} (hdecl : decl ∈ u.functions)
  (hmarked : ⟨u.name, decl.displayName⟩ ∈ checked.pure) {module : Nat}
  (hmodule : s.moduleName module = u.name) {args : List Value}
  (hargs : ∀ v ∈ args, v.isPlain = true) (identity : Identity) (fuel : Nat)
include hu hdecl hmarked hmodule hargs

theorem pure_call_steady (o : Outside γ) :
    (Pairing.apart (s.Trusted units checked) o).Steady s.current
      (Value.Inert (s.Trusted units checked))
      (callWithin fuel (.function identity (.closure decl Env.empty module)) args) := by
  have hf := Interpreter.inert_of_marked (s := s) hcheck hdistinct hscoped hu hdecl hmarked hmodule
    identity
  have hfuel := Recur.ofFuel_lockstep (n := fuel)
    (Pairing.apart_lawful (s.Trusted units checked) o) (.inl rfl)
  exact hfuel.call (m := s.current) _ args hf fun v hv => v.permitted_of_isPlain (hargs v hv)

include hs

/-- A call of a function that is marked as pure leaves a state that is as the check takes it to be, with what
it has remembered of its results. -/
theorem Interpreter.Faithful.call : (endState (callWithin fuel
    (.function identity (.closure decl Env.empty module)) args s)).Faithful units checked := by
  have hinert := Pairing.apart_kept (pure_call_steady hcheck hdistinct hscoped hu hdecl hmarked
    hmodule hargs identity fuel s.outside) (hs.inert hcheck hdistinct hscoped) rfl
  have hloaded : (endState (callWithin fuel (.function identity (.closure decl Env.empty module))
      args s)).loaded = s.loaded :=
    (Recur.keeps_call (Interpreter.kept_of_loaded (P := fun t => t.loaded = s.loaded)
      fun h hsame => hsame.trans h) fuel _ args).endState rfl
  exact hs.of_loaded hloaded hinert.remembered

/-- A call of a function that is marked as pure, with plain data, ends in the same way whatever the
futures, the tasks and the services are, and leaves them as they are. -/
theorem pure_call_stays_apart (o : Outside γ) :
    callWithin fuel (.function identity (.closure decl Env.empty module)) args (s.withOutside o) =
        endWithOutside
          (callWithin fuel (.function identity (.closure decl Env.empty module)) args s) o ∧
      (endState (callWithin fuel (.function identity (.closure decl Env.empty module)) args
        s)).outside = s.outside := by
  have hinert := hs.inert hcheck hdistinct hscoped
  have hsame := fun o' => Pairing.apart_ends (pure_call_steady hcheck hdistinct hscoped hu hdecl
    hmarked hmodule hargs identity fuel o') hinert rfl
  exact ⟨hsame o, Pairing.outside_eq_of_apart (hsame s.outside)⟩

end

end

/-- `fn countdown(n: Int) -> Int { if n == 0 { n } else { countdown(n - 1) } }` -/
def countdown : FunctionDecl :=
  let int : TypeExpr := .named .none "Int" []
  let next : Expr := .binary .none .sub (.name .none "n") (.literal .none (.int 1))
  ⟨some "countdown", [⟨"n", some int, .none⟩], some int,
    .branch .none (.binary .none .eq (.name .none "n") (.literal .none (.int 0))) (.name .none "n")
      (some (.call .none (.name .none "countdown") [next])), false, .none⟩

def countdownUnit : ModuleUnit := ⟨"main", ⟨[⟨.function countdown, false, .none⟩]⟩, []⟩

def countdownChecked : Checked :=
  ⟨(Check.collectSchemas [countdownUnit]).table, [⟨"main", "countdown"⟩], []⟩

def countdownState : Interpreter StockGateway :=
  ((Interpreter.start countdownChecked .default (.null [])).execute 3 [countdownUnit]).2

theorem countdown_checked : Check.program [countdownUnit] = .ok countdownChecked := by rfl

theorem countdown_modules : countdownState.modules =
    #[⟨"main", [("countdown", .function ⟨0, []⟩ (.closure countdown Env.empty 0))]⟩] := by rfl

theorem countdown_accepted :
    accept "main" countdownUnit.program [] = .ok ⟨[countdownUnit], countdownChecked⟩ := by rfl

theorem countdown_distinct : Check.Distinct [countdownUnit] :=
  Accepted.distinct countdown_accepted

theorem countdown_global {m : Nat} {n : String} {v : Value}
    (h : countdownState.global? m n = some v) :
    m = 0 ∧ n = "countdown" ∧ v = .function ⟨0, []⟩ (.closure countdown Env.empty 0) := by
  rw [Interpreter.global?, countdown_modules] at h
  cases m with
  | zero =>
    simp only [List.getElem?_toArray, List.getElem?_cons_zero, Option.bind_some, Keyed.get?] at h
    split at h
    · rename_i hn
      cases h
      exact ⟨rfl, hn.symm, rfl⟩
    · cases h
  | succ m => simp at h

theorem countdown_faithful : countdownState.Faithful [countdownUnit] countdownChecked where
  function _ _ _ _ _ hentry hv :=
    (Interpreter.FunctionsBound.execute countdown_accepted .default _ 3).global hentry hv
  data := by
    intro m n v _ hother hv
    obtain ⟨rfl, rfl, rfl⟩ := countdown_global hv
    exact absurd rfl (hother ⟨"main", "countdown"⟩ false)
  fallback := by
    intro m n symbol b _ hentry hnone _
    cases m with
    | zero =>
      have hglobals : Check.globalsOf [countdownUnit] (countdownState.moduleName 0) =
          [("countdown", .function ⟨"main", "countdown"⟩ false)] := by rfl
      rw [hglobals, Keyed.get?] at hentry
      split at hentry
      · rename_i hn
        subst hn
        cases hnone
      · cases hentry
    | succ m => cases hentry
  remembered := by
    intro key v h
    have hmemo : countdownState.memo = .empty := by rfl
    rw [hmemo] at h
    cases Std.HashMap.getElem?_empty.symm.trans h
  predicate := by
    intro name a p h
    have hnone : countdownState.schemas.typeAlias? name = none := by rfl
    cases hnone.symm.trans h

theorem countdown_scoped : countdownChecked.Scoped [countdownUnit] := by
  intro u hu decl hdecl _
  obtain rfl := List.mem_singleton.1 hu
  obtain rfl : decl = countdown := List.mem_singleton.1 hdecl
  have hlocals : (Purity.summarizeFunction (Check.globalsOf [countdownUnit] "main") countdown
      .start).locals = ["n"] := by rfl
  have hn : "n" ∈ countdown.params.map Param.name ++ [] := .head _
  refine ⟨rfl, ⟨.inl hn, trivial⟩, .inl hn, .inr fun hmem => ?_, ⟨.inl hn, trivial⟩, trivial⟩
  rw [show countdownUnit.name = "main" from rfl, hlocals] at hmem
  exact absurd hmem (by decide)

theorem countdown_stays_apart :
    Check.program [countdownUnit] = .ok countdownChecked ∧ Check.Distinct [countdownUnit] ∧
      countdownChecked.Scoped [countdownUnit] ∧
      countdownState.Faithful [countdownUnit] countdownChecked ∧
      callWithin 9 (.function ⟨0, []⟩ (.closure countdown Env.empty 0)) [.int 3]
          (countdownState.withOutside ⟨.empty, .offline "closed", [], 7⟩) =
        endWithOutside
          (callWithin 9 (.function ⟨0, []⟩ (.closure countdown Env.empty 0)) [.int 3] countdownState)
          ⟨.empty, .offline "closed", [], 7⟩ ∧
      (endState (callWithin 9 (.function ⟨0, []⟩ (.closure countdown Env.empty 0)) [.int 3]
        countdownState)).outside = countdownState.outside :=
  ⟨countdown_checked, countdown_distinct, countdown_scoped, countdown_faithful,
    pure_call_stays_apart countdown_checked countdown_distinct countdown_scoped countdown_faithful
      (show countdownUnit ∈ [countdownUnit] from .head _)
      (show countdown ∈ countdownUnit.functions from .head _) (.head _)
      (show countdownState.moduleName 0 = countdownUnit.name from rfl) (by decide) ⟨0, []⟩ 9
      ⟨.empty, .offline "closed", [], 7⟩⟩

/-- `fn leak(n: Int) -> Any { let y = { let ask = 1; ask }; ask("q") }` -/
def leak : FunctionDecl :=
  let inner : Expr := .block .none
    [.bind .none (.bind .none "ask") none (.literal .none (.int 1))] (some (.name .none "ask"))
  let outer : Expr := .call .none (.name .none "ask") [.literal .none (.text "q")]
  ⟨some "leak", [⟨"n", some (.named .none "Int" []), .none⟩], some (.named .none "Any" []),
    .block .none [.bind .none (.bind .none "y") none inner] (some outer), false, .none⟩

def leakUnit : ModuleUnit := ⟨"main", ⟨[⟨.function leak, false, .none⟩]⟩, []⟩

def leakChecked : Checked :=
  ⟨(Check.collectSchemas [leakUnit]).table, [⟨"main", "leak"⟩], []⟩

def leakState : Interpreter StockGateway :=
  ((Interpreter.start leakChecked ⟨512, false, 1000, false⟩ (.null [])).execute 3 [leakUnit]).2

/-- The `ask` of the inner block hides from the scan that the last `ask` is the service. -/
theorem leak_dispatches :
    Check.program [leakUnit] = .ok leakChecked ∧ ⟨"main", "leak"⟩ ∈ leakChecked.pure ∧
      leakState.global? 0 "leak" = some (.function ⟨0, []⟩ (.closure leak Env.empty 0)) ∧
      leakState.requests = [] ∧
      (endState (callWithin 9 (.function ⟨0, []⟩ (.closure leak Env.empty 0)) [.int 1]
        leakState)).requests.map Outstanding.op = [.ask] := by
  refine ⟨rfl, .head _, rfl, rfl, ?_⟩
  decide +kernel

end StreamLang
