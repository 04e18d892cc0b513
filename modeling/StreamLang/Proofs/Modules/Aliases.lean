import Mathlib.Data.List.Forall2
import StreamLang.Gateway.Stock
import StreamLang.Proofs.Modules.Exports

/-! The local names of imported types. The table of types is one for all modules and goes by the names of
the declarations, so that the name under which a module imports a type plays no part: with any other
the program is checked and run in the same way. -/

namespace StreamLang

/-- An imported name with another local name, if it is the name of a type. -/
structure ImportName.Alike (isType : String → Prop) (n n' : ImportName) : Prop where
  name : n'.name = n.name
  span : n'.span = n.span
  localName : n'.localName = n.localName ∨ isType n.name

/-- An item with other local names of types, if it is an import. -/
inductive Item.Alike (isType : String → String → Prop) : Item → Item → Prop
  | same (i : Item) : Item.Alike isType i i
  | imports {module : String} {names names' : List ImportName} {span : Span}
      (h : List.Forall₂ (ImportName.Alike (isType module)) names names') :
    Item.Alike isType ⟨.imports ⟨names, module⟩, false, span⟩ ⟨.imports ⟨names', module⟩, false, span⟩

/-- A program with other local names of imported types. -/
def Program.Alike (isType : String → String → Prop) (p p' : Program) : Prop :=
  List.Forall₂ (Item.Alike isType) p.items p'.items

def Provider.Alike (isType : String → String → Prop) (provider provider' : Provider) : Prop :=
  List.Forall₂ (fun e e' => e'.1 = e.1 ∧ e.2.Alike isType e'.2) provider provider'

/-- What the module exports under the name, if it does, is a type. -/
def Provider.IsType (provider : Provider) (module name : String) : Prop :=
  ∀ target kind, Keyed.get? module provider = some target →
    Modules.lookupExport module target name = .ok kind → kind.isType = true

/-- An item without the names of its import. -/
def Item.bare (i : Item) : Item :=
  match i.kind with
  | .imports _ => if i.exported then i else { i with kind := .imports ⟨[], ""⟩ }
  | _ => i

/-- What tells no two imports apart does not look at the names of an import. -/
theorem Item.same_of_bare {β : Sort*} {g : Item → β}
    (hg : ∀ d d' exported span, g ⟨.imports d, exported, span⟩ = g ⟨.imports d', exported, span⟩)
    (i : Item) : g i.bare = g i := by
  obtain ⟨kind, exported, span⟩ := i
  cases kind with
  | imports d => cases exported with
    | false => exact hg _ _ _ _
    | true => rfl
  | _ => rfl

theorem Item.Alike.bare {isType : String → String → Prop} {i i' : Item} (h : i.Alike isType i') :
    i'.bare = i.bare := by
  cases h <;> rfl

/-- A module with other local names of imported types, as it is checked and run. -/
structure ModuleUnit.Alike (u u' : ModuleUnit) : Prop where
  name : u'.name = u.name
  items : u'.program.items.map Item.bare = u.program.items.map Item.bare
  imports : Check.valueImports u'.imports = Check.valueImports u.imports

namespace Program.Alike

variable {isType : String → String → Prop} {p p' : Program} (h : p.Alike isType p')
include h

theorem bare : p'.items.map Item.bare = p.items.map Item.bare := by
  obtain ⟨items⟩ := p
  obtain ⟨items'⟩ := p'
  change List.Forall₂ (Item.Alike isType) items items' at h
  induction h with
  | nil => rfl
  | cons hi _ ih => rw [List.map_cons, List.map_cons, hi.bare, ih]

theorem findExport? (name : String) : p'.findExport? name = p.findExport? name := by
  obtain ⟨items⟩ := p
  obtain ⟨items'⟩ := p'
  change List.Forall₂ (Item.Alike isType) items items' at h
  unfold Program.findExport?
  induction h with
  | nil => rfl
  | cons hi _ ih =>
    rw [List.find?_cons, List.find?_cons, ih]
    cases hi <;> rfl

theorem declares (name : String) : p'.declares name = p.declares name := by
  obtain ⟨items⟩ := p
  obtain ⟨items'⟩ := p'
  change List.Forall₂ (Item.Alike isType) items items' at h
  unfold Program.declares
  induction h with
  | nil => rfl
  | cons hi _ ih =>
    rw [List.any_cons, List.any_cons, ih]
    cases hi <;> rfl

theorem lookupExport (module name : String) :
    Modules.lookupExport module p' name = Modules.lookupExport module p name := by
  rw [Modules.lookupExport, Modules.lookupExport, h.findExport?, h.declares]

theorem imports : List.Forall₂ (fun d d' => d'.2 = d.2 ∧ d'.1.module = d.1.module ∧
    List.Forall₂ (ImportName.Alike (isType d.1.module)) d.1.names d'.1.names) p.imports p'.imports := by
  obtain ⟨items⟩ := p
  obtain ⟨items'⟩ := p'
  change List.Forall₂ (Item.Alike isType) items items' at h
  unfold Program.imports
  induction h with
  | nil => exact .nil
  | @cons i i' _ _ hi _ ih =>
    cases hi with
    | imports hnames => exact .cons ⟨rfl, rfl, hnames⟩ ih
    | same =>
      obtain ⟨kind, exported, span⟩ := i
      cases kind with
      | imports d => exact .cons ⟨rfl, rfl, List.forall₂_same.2 fun _ _ => ⟨rfl, rfl, .inl rfl⟩⟩ ih
      | _ => exact ih

end Program.Alike

theorem Provider.Alike.get? {isType : String → String → Prop} {provider provider' : Provider}
    (h : provider.Alike isType provider') (name : String) :
    Option.Rel (Program.Alike isType) (Keyed.get? name provider) (Keyed.get? name provider') := by
  induction h with
  | nil => exact .none
  | @cons e e' _ _ he _ ih =>
    rw [Keyed.get?, Keyed.get?, he.1]
    by_cases hname : e.1 = name
    · rw [if_pos hname, if_pos hname]
      exact .some he.2
    · rw [if_neg hname, if_neg hname]
      exact ih

-- the order of the modules

namespace Modules

/-- Walks over the same modules that have met the same problems. -/
structure Walk.Alike (w w' : Walk) : Prop where
  visits : w'.visits = w.visits
  faults : w'.faults = w.faults
  units : List.Forall₂ ModuleUnit.Alike w.units w'.units

variable {provider provider' : Provider}

theorem bindNames_alike {module : String} {target target' : Program}
    (htarget : Keyed.get? module provider = some target)
    (halike : target.Alike provider.IsType target') {names names' : List ImportName}
    (hnames : List.Forall₂ (ImportName.Alike (provider.IsType module)) names names') {w w' : Walk}
    {found found' : List ResolvedImport} (hw : w.Alike w')
    (hfound : Check.valueImports found' = Check.valueImports found) :
    (bindNames module target names w found).1.Alike (bindNames module target' names' w' found').1 ∧
      Check.valueImports (bindNames module target' names' w' found').2 =
        Check.valueImports (bindNames module target names w found).2 := by
  induction hnames generalizing w w' found found' with
  | nil => exact ⟨hw, hfound⟩
  | @cons n n' _ _ hn _ ih =>
    rw [bindNames, bindNames, halike.lookupExport, hn.name, hn.span]
    cases hkind : lookupExport module target n.name with
    | error fault =>
      exact ih ⟨hw.visits, congrArg (· ++ [(fault, n.span)]) hw.faults, hw.units⟩ hfound
    | ok kind =>
      refine ih hw ?_
      rw [Check.valueImports, Check.valueImports, List.filter_append, List.filter_append]
      refine congrArg₂ (· ++ ·) hfound ?_
      rcases hn.localName with hlocal | htype
      · rw [hlocal]
      · have hkind := htype target kind htarget hkind
        simp [hkind]

theorem bindImports_alike (hprovider : provider.Alike provider.IsType provider')
    {visit visit' : String → Program → Walk → Walk}
    (hvisit : ∀ name p p' w w', p.Alike provider.IsType p' → w.Alike w' →
      (visit name p w).Alike (visit' name p' w'))
    {ds ds' : List (ImportDecl × Span)}
    (hds : List.Forall₂ (fun d d' => d'.2 = d.2 ∧ d'.1.module = d.1.module ∧
      List.Forall₂ (ImportName.Alike (provider.IsType d.1.module)) d.1.names d'.1.names) ds ds')
    {w w' : Walk} {found found' : List ResolvedImport} (hw : w.Alike w')
    (hfound : Check.valueImports found' = Check.valueImports found) :
    (bindImports provider visit ds w found).1.Alike (bindImports provider' visit' ds' w' found').1 ∧
      Check.valueImports (bindImports provider' visit' ds' w' found').2 =
        Check.valueImports (bindImports provider visit ds w found).2 := by
  induction hds generalizing w w' found found' with
  | nil => exact ⟨hw, hfound⟩
  | @cons d d' _ _ hd _ ih =>
    obtain ⟨hspan, hmodule, hnames⟩ := hd
    have htargets := hprovider.get? d.1.module
    have hvisited : w'.visit? d.1.module = w.visit? d.1.module := by
      rw [Walk.visit?, hw.visits, Walk.visit?]
    have hreport (fault : ImportFault) : (w.report fault d.2).Alike (w'.report fault d.2) :=
      ⟨hw.visits, congrArg (· ++ [(fault, d.2)]) hw.faults, hw.units⟩
    rw [bindImports, bindImports, hspan, hmodule]
    cases htarget : Keyed.get? d.1.module provider with
    | none =>
      have htarget' : Keyed.get? d.1.module provider' = none := by
        rw [htarget] at htargets
        generalize Keyed.get? d.1.module provider' = found? at htargets ⊢
        cases htargets
        rfl
      rw [htarget']
      exact ih (hreport _) hfound
    | some target =>
      obtain ⟨target', htarget', halike⟩ : ∃ target', Keyed.get? d.1.module provider' = some target' ∧
          target.Alike provider.IsType target' := by
        rw [htarget] at htargets
        generalize Keyed.get? d.1.module provider' = found? at htargets ⊢
        cases htargets with
        | some halike => exact ⟨_, rfl, halike⟩
      rw [htarget']
      dsimp only
      rw [hvisited]
      cases w.visit? d.1.module with
      | none =>
        obtain ⟨hwalk, hvalues⟩ := bindNames_alike htarget halike hnames (hvisit _ _ _ _ _ halike hw) hfound
        exact ih hwalk hvalues
      | some v => cases v with
        | inProgress => exact ih (hreport _) hfound
        | done =>
          obtain ⟨hwalk, hvalues⟩ := bindNames_alike htarget halike hnames hw hfound
          exact ih hwalk hvalues

theorem visitWithin_alike (hprovider : provider.Alike provider.IsType provider') (depth : Nat)
    (name : String) {p p' : Program} {w w' : Walk} (hp : p.Alike provider.IsType p')
    (hw : w.Alike w') :
    (visitWithin provider depth name p w).Alike (visitWithin provider' depth name p' w') := by
  induction depth generalizing name p p' w w' with
  | zero => exact hw
  | succ depth ih =>
    have hmark : (w.mark name .inProgress).Alike (w'.mark name .inProgress) :=
      ⟨congrArg (Keyed.insert name Visit.inProgress) hw.visits, hw.faults, hw.units⟩
    have hvisit (name : String) (p p' : Program) (w w' : Walk) (hp : p.Alike provider.IsType p')
        (hw : w.Alike w') : (visitWithin provider depth name p w).Alike
          (visitWithin provider' depth name p' w') := ih name hp hw
    have hnone : Check.valueImports [] = Check.valueImports [] := rfl
    obtain ⟨hwalk, hvalues⟩ := bindImports_alike hprovider hvisit hp.imports hmark hnone
    exact {
      visits := congrArg (Keyed.insert name Visit.done) hwalk.visits
      faults := hwalk.faults
      units := List.rel_append hwalk.units (.cons ⟨rfl, hp.bare, hvalues⟩ .nil) }

/-- The walk meets the same problems, or gives the same modules in the same order. -/
theorem resolve_alike (hprovider : provider.Alike provider.IsType provider') (mainName : String)
    {main main' : Program} (hmain : main.Alike provider.IsType main') :
    (∃ ds, resolve mainName main provider = .error ds ∧ resolve mainName main' provider' = .error ds) ∨
      ∃ units units', resolve mainName main provider = .ok units ∧
        resolve mainName main' provider' = .ok units' ∧ List.Forall₂ ModuleUnit.Alike units units' := by
  have hstart : Walk.start.Alike .start := ⟨rfl, rfl, .nil⟩
  have hwalk := visitWithin_alike hprovider (provider.length + 1) mainName hmain hstart
  rw [resolve, resolve, ← List.Forall₂.length_eq hprovider, hwalk.faults]
  cases (visitWithin provider (provider.length + 1) mainName main .start).faults.isEmpty with
  | true => exact .inr ⟨_, _, rfl, rfl, hwalk.units⟩
  | false => exact .inl ⟨_, rfl, rfl⟩

end Modules

-- the check

/-- What does not look at the names of imports is the same for modules that are alike. -/
theorem ModuleUnit.Alike.same {β : Sort*} {f : List Item → β}
    (hf : ∀ items, f (items.map Item.bare) = f items) {u u' : ModuleUnit} (h : u.Alike u') :
    f u'.program.items = f u.program.items := by
  rw [← hf, h.items, hf]

theorem filterMap_bare {β : Type} {g : Item → Option β} (hg : ∀ i : Item, g i.bare = g i)
    (items : List Item) : (items.map Item.bare).filterMap g = items.filterMap g := by
  rw [List.filterMap_map]
  exact congrArg (List.filterMap · items) (funext hg)

theorem ModuleUnit.Alike.functions {u u' : ModuleUnit} (h : u.Alike u') :
    u'.functions = u.functions := by
  exact h.same (f := List.filterMap _) (filterMap_bare (Item.same_of_bare fun _ _ _ _ => rfl))

namespace Check

variable {units units' : List ModuleUnit}

theorem collectSchemas_alike (h : List.Forall₂ ModuleUnit.Alike units units') :
    collectSchemas units' = collectSchemas units := by
  have hitems : (units'.flatMap (·.program.items)).map Item.bare =
      (units.flatMap (·.program.items)).map Item.bare := by
    induction h with
    | nil => rfl
    | cons hu _ ih =>
      rw [List.flatMap_cons, List.flatMap_cons, List.map_append, List.map_append, hu.items, ih]
  have hsame {β : Type} {f : List Item → β} (hf : ∀ items, f (items.map Item.bare) = f items) :
      f (units'.flatMap (·.program.items)) = f (units.flatMap (·.program.items)) := by
    rw [← hf, hitems, hf]
  have hrecords := hsame (filterMap_bare (g := recordDecl?) (Item.same_of_bare fun _ _ _ _ => rfl))
  have henums := hsame (filterMap_bare (g := enumDecl?) (Item.same_of_bare fun _ _ _ _ => rfl))
  have haliases := hsame (filterMap_bare (g := aliasDecl?) (Item.same_of_bare fun _ _ _ _ => rfl))
  have hregistered := hsame (f := List.foldl Collection.register ⟨.empty, []⟩) fun items => by
    rw [List.foldl_map]
    exact congrArg (List.foldl · _ items)
      (funext₂ fun c => Item.same_of_bare (g := c.register) fun _ _ _ _ => rfl)
  rw [collectSchemas, collectSchemas, hrecords, henums, haliases, hregistered]

theorem declareImports_valueImports (exports : Exports) (imports : List ResolvedImport)
    (globals : Globals) :
    declareImports exports (valueImports imports) globals = declareImports exports imports globals := by
  induction imports generalizing globals with
  | nil => rfl
  | cons i rest ih =>
    cases htype : i.kind.isType with
    | true =>
      rw [valueImports, List.filter_cons_of_neg (by simp [htype]), declareImports_of_type htype]
      exact ih globals
    | false =>
      rw [valueImports, List.filter_cons_of_pos (by simp [htype]), declareImports, declareImports,
        if_neg (by simp [htype]), if_neg (by simp [htype])]
      simp only [← ih, valueImports]

theorem checkPredicates_bare (items : List Item) :
    checkPredicates (items.map Item.bare) = checkPredicates items := by
  induction items with
  | nil => rfl
  | cons i rest ih =>
    have hi : aliasDecl? i.bare = aliasDecl? i := Item.same_of_bare (fun _ _ _ _ => rfl) i
    rw [List.map_cons, checkPredicates, checkPredicates, hi, ih]

theorem checkValues_bare (items : List Item) (globals : Globals) :
    checkValues (items.map Item.bare) globals = checkValues items globals := by
  induction items generalizing globals with
  | nil => rfl
  | cons i rest ih =>
    obtain ⟨kind, _ | _, span⟩ := i <;> cases kind <;>
      simp only [List.map_cons, Item.bare, checkValues, ih, if_true, Bool.false_eq_true, if_false]

theorem exportsOf_bare (scopes : Scopes) (globals : Globals) (items : List Item) :
    exportsOf scopes globals ⟨items.map Item.bare⟩ = exportsOf scopes globals ⟨items⟩ := by
  have hnames : ((items.map Item.bare).filter Item.exported).flatMap Item.declaredNames =
      (items.filter Item.exported).flatMap Item.declaredNames := by
    induction items with
    | nil => rfl
    | cons i rest ih =>
      obtain ⟨kind, _ | _, span⟩ := i <;> cases kind <;> simpa [Item.bare] using ih
  rw [exportsOf, exportsOf, hnames]

theorem checkUnit_alike (exports : Exports) {u u' : ModuleUnit} (h : u.Alike u') :
    checkUnit exports u' = checkUnit exports u := by
  have himports := declareImports_valueImports exports u.imports []
  have himports' := declareImports_valueImports exports u'.imports []
  have hexports (scopes : Scopes) (globals : Globals) :=
    h.same (f := fun items => exportsOf scopes globals ⟨items⟩) (exportsOf_bare scopes globals)
  have hvalues (globals : Globals) :=
    h.same (f := fun items => checkValues items globals) fun items => checkValues_bare items globals
  simp only [checkUnit, ← himports, ← himports', h.imports, h.functions, h.name,
    h.same checkPredicates_bare, hvalues, hexports]

theorem checkUnits_alike (h : List.Forall₂ ModuleUnit.Alike units units') (exports : Exports)
    (summaries : List (FunctionId × Purity.Summary)) :
    checkUnits units' exports summaries = checkUnits units exports summaries := by
  induction h generalizing exports summaries with
  | nil => rfl
  | @cons u u' _ _ hu _ ih =>
    have hsummaries (globals : Globals) :
        Purity.unitSummaries globals u' = Purity.unitSummaries globals u := by
      rw [Purity.unitSummaries, Purity.unitSummaries, hu.functions, hu.name]
    simp only [checkUnits, checkUnit_alike exports hu, hsummaries, hu.name, ih]

theorem program_alike (h : List.Forall₂ ModuleUnit.Alike units units') :
    program units' = program units := by
  rw [program, program, collectSchemas_alike h, checkUnits_alike h]

end Check

-- the run

namespace Recur

variable {γ : Type}

theorem importedGlobals_valueImports (modules : Array ModuleScope) (imports : List ResolvedImport) :
    Run.importedGlobals modules (Check.valueImports imports) = Run.importedGlobals modules imports := by
  rw [Run.importedGlobals, Check.valueImports, List.filterMap_filter]
  refine congrArg (List.filterMap · imports) (funext fun i => ?_)
  cases i.kind.isType <;> rfl

theorem load_alike {u u' : ModuleUnit} (h : u.Alike u') :
    Run.load (γ := γ) u' = Run.load u := by
  have himports (modules : Array ModuleScope) := importedGlobals_valueImports modules u.imports
  have himports' (modules : Array ModuleScope) := importedGlobals_valueImports modules u'.imports
  simp only [Run.load, ← himports, ← himports', h.imports, h.functions, h.name]

variable [Gateway γ] (r : Recur γ)

theorem runUnit_alike (isMain : Bool) {u u' : ModuleUnit} (h : u.Alike u') :
    r.runUnit isMain u' = r.runUnit isMain u := by
  have hitems (module : Nat) :=
    h.same (f := fun items => items.forM (r.runItem module isMain)) fun items => by
      change forM (items.map Item.bare) (r.runItem module isMain) = forM items (r.runItem module isMain)
      rw [List.forM_map]
      exact congrArg (forM items) (funext (Item.same_of_bare fun _ _ _ _ => rfl))
  simp only [runUnit, load_alike h, hitems]

theorem runUnits_alike {units units' : List ModuleUnit}
    (h : List.Forall₂ ModuleUnit.Alike units units') : r.runUnits units' = r.runUnits units := by
  induction h with
  | nil => rfl
  | @cons _ _ rest rest' hu hrest ih =>
    have hlast : rest'.isEmpty = rest.isEmpty := by
      cases hrest <;> rfl
    rw [runUnits, runUnits, hlast, runUnit_alike r _ hu, ih]

end Recur

/-- The local names of imported types play no part. Let a program and its modules have other local names
for names that they import, where these are names of types. It is rejected with the same diagnostics,
or accepted with the same types, pure functions and warnings; and then every run, from whatever state
and within whatever bound, ends in the same way and in the same state. -/
theorem local_names_of_types_play_no_part {provider provider' : Provider}
    (hprovider : provider.Alike provider.IsType provider') (mainName : String) {main main' : Program}
    (hmain : main.Alike provider.IsType main') :
    (∃ f, accept mainName main provider = .error f ∧ accept mainName main' provider' = .error f) ∨
      ∃ a a', accept mainName main provider = .ok a ∧ accept mainName main' provider' = .ok a' ∧
        a'.checked = a.checked ∧ ∀ (γ : Type) [Gateway γ] (fuel : Nat) (s : Interpreter γ),
          s.execute fuel a'.units = s.execute fuel a.units := by
  unfold accept
  rcases Modules.resolve_alike hprovider mainName hmain with
    ⟨ds, herror, herror'⟩ | ⟨units, units', hok, hok', hunits⟩
  · rw [herror, herror']
    exact .inl ⟨_, rfl, rfl⟩
  · rw [hok, hok']
    dsimp only
    rw [Check.program_alike hunits]
    cases Check.program units with
    | error ds => exact .inl ⟨_, rfl, rfl⟩
    | ok checked =>
      refine .inr ⟨_, _, rfl, rfl, rfl, fun γ _ fuel s => ?_⟩
      rw [Interpreter.execute, Interpreter.execute, Recur.runProgram, Recur.runProgram,
        Recur.runUnits_alike _ hunits]

/-- `export record P { x: Int }` -/
def shapesProgram : Program :=
  ⟨[⟨.record ⟨"P", [⟨"x", .named .none "Int" [], .none⟩]⟩, true, .none⟩]⟩

def shapesProvider : Provider := [("shapes", shapesProgram)]

/-- `import { P as localName } from "shapes";`
`used { x: 1 };` -/
def shapesMain (localName : Option String) (used : String) : Program where
  items :=
    [⟨.imports ⟨[⟨"P", localName, .none⟩], "shapes"⟩, false, .none⟩,
     ⟨.expr (.record .none used [⟨"x", .none, .literal .none (.int 1)⟩]), false, .none⟩]

def shapesUnits : List ModuleUnit :=
  [⟨"shapes", shapesProgram, []⟩,
   ⟨"main", shapesMain none "P", [⟨"P", "shapes", "P", .record, .none⟩]⟩]

def shapesAccepted : Accepted := ⟨shapesUnits, ⟨(Check.collectSchemas shapesUnits).table, [], []⟩⟩

theorem shapes_offer_type : shapesProvider.IsType "shapes" "P" := by
  intro target kind htarget hkind
  have hfound : Keyed.get? "shapes" shapesProvider = some shapesProgram := rfl
  cases hfound.symm.trans htarget
  have hrecord : Modules.lookupExport "shapes" shapesProgram "P" = .ok .record := rfl
  cases hrecord.symm.trans hkind
  rfl

/-- Under another local name the record is still made under its own. -/
theorem record_made_under_its_own_name :
    shapesProvider.Alike shapesProvider.IsType shapesProvider ∧
      (shapesMain none "P").Alike shapesProvider.IsType (shapesMain (some "Q") "P") ∧
      accept "main" (shapesMain none "P") shapesProvider = .ok shapesAccepted ∧
      ∃ a, accept "main" (shapesMain (some "Q") "P") shapesProvider = .ok a ∧
        ((Interpreter.start a.checked .default (StockGateway.null [])).execute 9
          a.units).2.results.toList.map Value.repr = ["P \x7b x: 1 \x7d"] := by
  have hprovider : shapesProvider.Alike shapesProvider.IsType shapesProvider :=
    .cons ⟨rfl, .cons (.same _) .nil⟩ .nil
  have hmain : (shapesMain none "P").Alike shapesProvider.IsType (shapesMain (some "Q") "P") :=
    .cons (.imports (.cons ⟨rfl, rfl, .inr shapes_offer_type⟩ .nil)) (.cons (.same _) .nil)
  have haccept : accept "main" (shapesMain none "P") shapesProvider = .ok shapesAccepted := rfl
  refine ⟨hprovider, hmain, haccept, ?_⟩
  rcases local_names_of_types_play_no_part hprovider "main" hmain with
    ⟨f, herror, -⟩ | ⟨a, a', ha, ha', hchecked, hrun⟩
  · cases haccept.symm.trans herror
  · cases haccept.symm.trans ha
    refine ⟨a', ha', ?_⟩
    rw [hchecked, hrun]
    decide +kernel

/-- Under the local name there is no record. -/
theorem record_unknown_under_local_name :
    accept "main" (shapesMain none "P") shapesProvider = .ok shapesAccepted ∧
      accept "main" (shapesMain (some "Q") "Q") shapesProvider =
        .error (.typing [.ofSpan .typing "unknown record 'Q'" .none]) := by
  exact ⟨rfl, rfl⟩

end StreamLang
