import StreamLang.Gateway.Stock
import StreamLang.Proofs.Modules.Exports
import StreamLang.Proofs.Modules.Written
import StreamLang.Proofs.Refinement.Bare
import StreamLang.Proofs.Running

/-! Imports at run time. A module that was run has values for all names of its own; a module behind it
binds its imports to them when it is loaded, and from then on neither changes. -/

namespace StreamLang

variable {γ : Type}

namespace Interpreter

/-- The module binds these names. -/
structure Opened (u : ModuleUnit) (names : List String) (scope : ModuleScope) : Prop where
  name : scope.name = u.name
  bound : ∀ n ∈ names, (Keyed.get? n scope.globals).isSome

/-- These modules were run. -/
def Ran (units : List ModuleUnit) (modules : Array ModuleScope) : Prop :=
  List.Forall₂ (fun u scope => Opened u u.ownNames scope) units modules.toList

theorem Opened.bind {u : ModuleUnit} {names more : List String} {scope : ModuleScope}
    (h : Opened u names scope) {bindings : List (String × Value)}
    (hmore : bindings.map Prod.fst = more) :
    Opened u (names ++ more) { scope with
      globals := bindings.foldl (fun m b => Keyed.insert b.1 b.2 m) scope.globals } where
  name := h.name
  bound n hn := by
    refine Keyed.isSome_get?_foldl_insert Prod.fst Prod.snd ?_
    rw [hmore]
    exact (List.mem_append.1 hn).imp_left (h.bound n)

end Interpreter

namespace Run

open Interpreter

theorem modify_push (modules : Array ModuleScope) (scope : ModuleScope)
    (f : ModuleScope → ModuleScope) :
    (modules.push scope).modify modules.size f = modules.push (f scope) := by
  apply Array.ext_getElem?
  intro m
  rw [Array.getElem?_modify, Array.getElem?_push, Array.getElem?_push]
  by_cases h : m = modules.size
  · simp [h]
  · simp [h, Ne.symm h]

end Run

namespace Recur

open Interpreter

variable [Gateway γ] {modules : Array ModuleScope} {u : ModuleUnit} {E : Interpreter γ → Prop}
  (fuel : Nat)

/-- The module is loaded, behind others that stay as they are, and has come to bind these names. -/
def Within (modules : Array ModuleScope) (u : ModuleUnit) (names : List String)
    (s : Interpreter γ) : Prop :=
  ∃ scope, s.modules = modules.push scope ∧ Opened u names scope

theorem leads_runItem (isMain : Bool) (i : Item) (names : List String) :
    Run.Leads (fun _ => True) (Within modules u names)
      ((ofFuel fuel).runItem modules.size isMain i)
      fun _ (s : Interpreter γ) => Within modules u (names ++ i.letNames) s := by
  have hsame {s t : Interpreter γ} (h : Within modules u names s) (hsame : t.modules = s.modules) :
      Within modules u names t := by
    obtain ⟨scope, hmodules, hopened⟩ := h
    exact ⟨scope, hsame.trans hmodules, hopened⟩
  have hsustains := sustains_loaded fuel fun hs hloaded => hsame hs (congrArg Loaded.modules hloaded)
  refine .weaken (hsustains.runItem modules.size isMain i ?_ ?_) (fun _ h => h) (fun _ _ h => h)
    fun _ _ => trivial
  · intro d hkind bindings hnames
    refine .modify ?_
    rintro s ⟨scope, hmodules, hopened⟩
    refine ⟨_, ?_, hopened.bind (hnames.trans ?_)⟩
    · dsimp only
      rw [hmodules, Run.modify_push]
    · rw [Item.letNames, hkind]
  · rintro hkind s ⟨scope, hmodules, hopened⟩
    have hnone : i.letNames = [] := by
      unfold Item.letNames
      split
      case h_1 d hd => exact absurd hd (hkind d)
      case h_2 => rfl
    rw [hnone, List.append_nil]
    exact ⟨scope, hmodules, hopened⟩

theorem leads_runItems (isMain : Bool) (items : List Item) (names : List String) :
    Run.Leads (fun _ => True) (Within modules u names)
      (items.forM ((ofFuel fuel).runItem modules.size isMain))
      fun _ (s : Interpreter γ) => Within modules u (names ++ items.flatMap Item.letNames) s := by
  induction items generalizing names with
  | nil =>
    rw [List.flatMap_nil, List.append_nil]
    exact .pure fun _ h => h
  | cons i rest ih =>
    rw [List.flatMap_cons, ← List.append_assoc]
    exact .bind (leads_runItem fuel isMain i names) fun _ => ih _

/-- A module that is run to its end has values for all its names. -/
theorem leads_runUnit (units : List ModuleUnit) (isMain : Bool) :
    Run.Leads (fun _ => True) (fun s : Interpreter γ => Ran units s.modules)
      ((ofFuel fuel).runUnit isMain u) fun _ s => Ran (units ++ [u]) s.modules := by
  intro s hs
  obtain ⟨functions, t, hload, hnames, -, hmodules⟩ := Run.load_eq u s
  rw [runUnit, Eval.bind_of_ok hload]
  have hfunctions : Within s.modules u (u.functions.map FunctionDecl.displayName) t := by
    refine ⟨_, hmodules, rfl, fun n hn => ?_⟩
    refine Keyed.isSome_get?_foldl_insert Prod.fst Prod.snd (.inr ?_)
    rw [List.map_append, hnames]
    exact List.mem_append_right _ hn
  refine (leads_runItems fuel isMain u.program.items _).weaken (fun _ h => h) ?_ (fun _ h => h) t
    hfunctions
  rintro - t' ⟨scope, hmodules, hopened⟩
  rw [Ran, hmodules, Array.toList_push]
  exact List.rel_append hs (.cons hopened .nil)

theorem leads_runUnits (units more : List ModuleUnit) :
    Run.Leads (fun _ => True) (fun s : Interpreter γ => Ran units s.modules)
      (more.forM ((ofFuel fuel).runUnit false)) fun _ s => Ran (units ++ more) s.modules := by
  induction more generalizing units with
  | nil =>
    rw [List.append_nil]
    exact .pure fun _ h => h
  | cons u rest ih =>
    rw [List.append_cons]
    exact .bind (leads_runUnit fuel units false) fun _ => ih _

end Recur

namespace Interpreter

variable {s t : Interpreter γ} {j k : Nat} {i : ResolvedImport} {v : Value}

/-- What the import stands for in the module `k` is what the module `j` has under the symbol. -/
structure Linked (j k : Nat) (i : ResolvedImport) (v : Value) (s : Interpreter γ) : Prop where
  exported : s.global? j i.symbol = some v
  imported : s.global? k i.localName = some v

theorem global?_of_modules (h : t.modules = s.modules) (module : Nat) (name : String) :
    t.global? module name = s.global? module name := by
  rw [global?, global?, h]

theorem lt_size_of_global? {module : Nat} {name : String} (h : s.global? module name = some v) :
    module < s.modules.size := by
  obtain ⟨scope, hscope, -⟩ := Option.bind_eq_some_iff.1 h
  exact (Array.getElem?_eq_some_iff.1 hscope).1

theorem global?_push {scope : ModuleScope} (hmodules : t.modules = s.modules.push scope)
    {module : Nat} {name : String} (h : s.global? module name = some v) :
    t.global? module name = some v := by
  have hlt := lt_size_of_global? h
  rw [global?, hmodules, Array.getElem?_push, if_neg (Nat.ne_of_lt hlt)]
  exact h

/-- Names that are bound at the top of another module, or other names, change nothing. -/
theorem global?_bindGlobals {module : Nat} {bindings : List (String × Value)}
    (hmodules : t.modules = s.modules.modify module fun scope => { scope with
      globals := bindings.foldl (fun m b => Keyed.insert b.1 b.2 m) scope.globals })
    {m : Nat} {name : String} (h : m = module → name ∉ bindings.map Prod.fst) :
    t.global? m name = s.global? m name := by
  rw [global?, global?, hmodules, Array.getElem?_modify]
  split
  case isFalse => rfl
  case isTrue heq =>
    cases s.modules[m]? with
    | none => rfl
    | some scope => exact Keyed.get?_foldl_insert_of_not_mem Prod.fst Prod.snd (h heq.symm) _

namespace Linked

theorem of_modules (hs : Linked j k i v s) (h : t.modules = s.modules) : Linked j k i v t :=
  ⟨(global?_of_modules h _ _).trans hs.exported, (global?_of_modules h _ _).trans hs.imported⟩

theorem push {scope : ModuleScope} (hmodules : t.modules = s.modules.push scope)
    (hs : Linked j k i v s) : Linked j k i v t :=
  ⟨global?_push hmodules hs.exported, global?_push hmodules hs.imported⟩

variable [Gateway γ] (fuel : Nat)

theorem sustains :
    (Recur.ofFuel fuel).Sustains fun (_ : List (Task TaskBody)) (s : Interpreter γ) =>
      Linked j k i v s :=
  Recur.sustains_loaded fuel fun hs hloaded => hs.of_modules (congrArg Loaded.modules hloaded)

/-- An item of another module, or one that binds other names. -/
theorem runItem {module : Nat} {item : Item} (hj : module ≠ j)
    (hk : module = k → i.localName ∉ item.letNames) (isMain : Bool) :
    Run.Keeps (Linked j k i v) ((Recur.ofFuel fuel).runItem (γ := γ) module isMain item) := by
  refine (sustains fuel).runItem module isMain item ?_ fun _ _ hs => hs
  intro d hkind bindings hnames
  refine .modify fun s hs => ⟨?_, ?_⟩
  · exact (global?_bindGlobals rfl fun heq => absurd heq.symm hj).trans hs.exported
  · refine (global?_bindGlobals rfl fun heq => ?_).trans hs.imported
    rw [hnames]
    have hnot := hk heq.symm
    rw [Item.letNames, hkind] at hnot
    exact hnot

/-- A module that is run behind both. -/
theorem runUnit (u : ModuleUnit) (isMain : Bool) :
    Run.Keeps (Linked j k i v) ((Recur.ofFuel fuel).runUnit (γ := γ) isMain u) := by
  intro s hs
  obtain ⟨functions, t, hload, -, -, hmodules⟩ := Run.load_eq u s
  rw [Recur.runUnit, Eval.bind_of_ok hload]
  have hj := Nat.ne_of_gt (lt_size_of_global? hs.exported)
  have hk := Nat.ne_of_gt (lt_size_of_global? hs.imported)
  exact Run.Leads.forM (fun item _ => runItem fuel hj (fun heq => absurd heq hk) isMain) t
    (hs.push hmodules)

theorem runUnits (units : List ModuleUnit) :
    Run.Keeps (Linked j k i v) ((Recur.ofFuel fuel).runUnits (γ := γ) units) := by
  induction units with
  | nil => exact .pure fun _ hs => hs
  | cons u rest ih => exact .bind (runUnit fuel u _) fun _ => ih

end Linked

/-- The scope of a module that was run is found by its name. -/
theorem exists_scope {front back : List ModuleUnit} {u : ModuleUnit} {scopes : List ModuleScope}
    (h : List.Forall₂ (fun u scope => Opened u u.ownNames scope) (front ++ u :: back) scopes)
    (hnew : u.name ∉ front.map ModuleUnit.name) :
    ∃ scope, scopes[front.length]? = some scope ∧ Opened u u.ownNames scope ∧
      scopes.find? (·.name == u.name) = some scope := by
  induction front generalizing scopes with
  | nil =>
    obtain _ | @⟨_, scope, _, rest, hopened, -⟩ := h
    exact ⟨scope, rfl, hopened, List.find?_cons_of_pos (beq_iff_eq.2 hopened.name)⟩
  | cons first front ih =>
    obtain _ | @⟨_, other, _, rest, hother, hrest⟩ := h
    rw [List.map_cons, List.mem_cons, not_or] at hnew
    obtain ⟨scope, hscope, hopened, hfind⟩ := ih hrest hnew.2
    refine ⟨scope, hscope, hopened, ?_⟩
    rw [List.find?_cons_of_neg, hfind]
    rw [hother.name, beq_iff_eq]
    exact Ne.symm hnew.1

/-- What an import stands for at run time. -/
def importedValue (modules : Array ModuleScope) (i : ResolvedImport) : Option Value :=
  (modules.find? (·.name == i.module)).bind fun scope => Keyed.get? i.symbol scope.globals

theorem mem_importedGlobals {modules : Array ModuleScope} {imports : List ResolvedImport}
    {e : String × Value} : e ∈ Run.importedGlobals modules imports ↔
      ∃ i ∈ Check.valueImports imports, e.1 = i.localName ∧ importedValue modules i = some e.2 := by
  constructor
  · intro he
    obtain ⟨i, hi, hsome⟩ := List.mem_filterMap.1 he
    split at hsome
    case isTrue => cases hsome
    case isFalse hkind =>
      obtain ⟨w, hw, rfl⟩ := Option.map_eq_some_iff.1 hsome
      exact ⟨i, List.mem_filter.2 ⟨hi, by simp [hkind]⟩, rfl, hw⟩
  · rintro ⟨i, hi, hname, hvalue⟩
    obtain ⟨hi, hkind⟩ := List.mem_filter.1 hi
    refine List.mem_filterMap.2 ⟨i, hi, ?_⟩
    rw [if_neg (by simpa using hkind)]
    exact Option.map_eq_some_iff.2 ⟨e.2, hvalue, by rw [← hname]⟩

/-- When a module is loaded behind others, an import of it gets the value that the exporting module has. -/
theorem linked_of_load {front back : List ModuleUnit} {u w : ModuleUnit}
    (hran : Ran (front ++ w :: back) s.modules) (hnew : w.name ∉ front.map ModuleUnit.name)
    (hnodup : u.valueNames.Nodup) (hi : i ∈ Check.valueImports u.imports)
    (hmodule : w.name = i.module) (hsymbol : i.symbol ∈ w.ownNames) :
    ∃ t v, Run.load u s = .ok (front ++ w :: back).length t ∧
      Linked front.length (front ++ w :: back).length i v t := by
  have hsize : s.modules.size = (front ++ w :: back).length := hran.length_eq.symm
  obtain ⟨scope, hscope, hopened, hfind⟩ := exists_scope hran hnew
  obtain ⟨v, hv⟩ := Option.isSome_iff_exists.1 (hopened.bound _ hsymbol)
  obtain ⟨functions, t, hload, hnames, -, hmodules⟩ := Run.load_eq u s
  have hexported : s.global? front.length i.symbol = some v := by
    rw [global?, ← Array.getElem?_toList, hscope]
    exact hv
  have hvalue : importedValue s.modules i = some v := by
    rw [importedValue, ← hmodule, ← Array.find?_toList, hfind]
    exact hv
  rw [hsize] at hload
  refine ⟨t, v, hload, global?_push hmodules hexported, ?_⟩
  rw [global?, hmodules, ← hsize, Array.getElem?_push_size]
  refine Keyed.get?_foldl_insert Prod.fst Prod.snd (e := (i.localName, v))
    (List.mem_append_left _ (mem_importedGlobals.2 ⟨i, hi, rfl, hvalue⟩)) ?_ []
  -- the names of the module are all different
  rw [ModuleUnit.valueNames, List.nodup_append] at hnodup
  rintro ⟨name, other⟩ hother rfl
  rcases List.mem_append.1 hother with hother | hother
  · obtain ⟨i', hi', hname, hvalue'⟩ := mem_importedGlobals.1 hother
    obtain rfl := List.inj_on_of_nodup_map hnodup.1 hi' hi hname.symm
    rw [hvalue] at hvalue'
    exact (Option.some.inj hvalue').symm
  · have hfunction : i.localName ∈ u.functions.map FunctionDecl.displayName :=
      hnames ▸ List.mem_map.2 ⟨_, hother, rfl⟩
    exact absurd rfl (hnodup.2.2 _ (List.mem_map.2 ⟨i, hi, rfl⟩) _
      (List.mem_append_left _ hfunction))

end Interpreter

/-- Once the modules in front were run, the others are. -/
theorem Recur.runUnits_append [Gateway γ] (r : Recur γ) {before rest : List ModuleUnit}
    (hrest : rest ≠ []) {s t : Interpreter γ} (h : before.forM (r.runUnit false) s = .ok () t) :
    r.runUnits (before ++ rest) s = r.runUnits rest t := by
  induction before generalizing s with
  | nil =>
    cases h
    rfl
  | cons u more ih =>
    obtain ⟨_, mid, hu, hmore⟩ := Eval.bind_eq_ok h
    have hlast : (more ++ rest).isEmpty = false := by
      rw [List.isEmpty_eq_false_iff]
      exact List.append_ne_nil_of_right_ne_nil _ hrest
    rw [List.cons_append, Recur.runUnits, hlast, Eval.bind_of_ok hu]
    exact ih hmore

theorem Recur.runProgram_append [Gateway γ] (r : Recur γ) {before rest : List ModuleUnit}
    (hrest : rest ≠ []) {s t : Interpreter γ}
    (h : before.forM (r.runUnit false) { s with results := #[] } = .ok () t) :
    r.runProgram (before ++ rest) s = (do r.runUnits rest; r.drain r.fuel) t :=
  Eval.bind_of_same (r.runUnits_append hrest h) fun _ => r.drain _

/-- A module that is imported declares the symbol itself, if the modules were read from texts. -/
theorem Project.Follows.exists_exporter {P : Project} {before : List ModuleUnit} {u : ModuleUnit}
    (h : P.Follows before u) (hwritten : ∀ w ∈ before, w.program.Written) {i : ResolvedImport}
    (hi : i ∈ u.imports) (hkind : i.kind.isType = false) :
    ∃ front w back, before = front ++ w :: back ∧ w.name = i.module ∧
      ∃ item, item ∈ w.program.items ∧ item.exported = true ∧ item.declaresValues = true ∧
        i.symbol ∈ item.declaredNames := by
  obtain ⟨asked, hlinks⟩ := exists_of_forall₂ h.imports.flip hi
  obtain ⟨w, hw, hname, item, -, ⟨hitem, hexported, hdeclared⟩, hitemKind⟩ := hlinks.declared
  obtain ⟨front, back, heq⟩ := List.append_of_mem hw
  refine ⟨front, w, back, heq, hname.trans hlinks.module.symm, item, hitem, hexported, ?_, ?_⟩
  · rw [Item.declaresValues, (hwritten w hw).not_import hitem hexported, ← hitemKind, hkind]
    rfl
  · rwa [hlinks.symbol]

theorem Project.InOrder.written {P : Project} {units : List ModuleUnit} (h : P.InOrder units)
    (hmain : P.main.Written) (hprovider : ∀ e ∈ P.provider, e.2.Written) {u : ModuleUnit}
    (hu : u ∈ units) : u.program.Written := by
  obtain ⟨before, after, heq⟩ := List.append_of_mem hu
  have hprogram := (h.follows before u after heq).program
  unfold Project.program? at hprogram
  split at hprogram
  · rw [← Option.some.inj hprogram]
    exact hmain
  · exact hprovider _ (Keyed.mem_of_get? hprogram)

open Interpreter in
/-- Imports are bound. Let a module `u` import a function or a value, in a program that is accepted. The
module it comes from is checked before, and `u` declares the import with the type and the symbol found
there. It is also run before; when that is done and `u` is loaded, the import has the value that the
symbol has there. Nothing that is run from then on changes either of them. -/
theorem imports_are_bound [Gateway γ] {P : Project} (hmain : P.main.Written)
    (hprovider : ∀ e ∈ P.provider, e.2.Written) {a : Accepted}
    (h : accept P.mainName P.main P.provider = .ok a) {before after : List ModuleUnit}
    {u : ModuleUnit} (hsplit : a.units = before ++ u :: after) {i : ResolvedImport}
    (hi : i ∈ u.imports) (hkind : i.kind.isType = false) :
    ∃ front w back, before = front ++ w :: back ∧ w.name = i.module ∧
      (∃ summaries,
        Check.checkUnits a.units [] [] (Check.beginning a.checked.schemas).2 =
          Check.checkUnits (u :: after)
            (Check.checkedUnits before (Check.beginning a.checked.schemas)).1 summaries
            (Check.checkedUnits before (Check.beginning a.checked.schemas)).2) ∧
      (∃ e, Check.ImportDeclared a.checked.schemas front w before u i e) ∧
      ∀ (options : Options) (gateway : γ) (fuel : Nat) (s : Interpreter γ),
        before.forM ((Recur.ofFuel fuel).runUnit false) (.start a.checked options gateway) =
          .ok () s →
        ∃ t v, Run.load u s = .ok before.length t ∧ Linked front.length before.length i v t ∧
          (∀ item ∈ u.program.items, ∀ isMain, Run.Keeps (Linked front.length before.length i v)
            ((Recur.ofFuel fuel).runItem (γ := γ) before.length isMain item)) ∧
          (∀ later isMain, Run.Keeps (Linked front.length before.length i v)
            ((Recur.ofFuel fuel).runUnit (γ := γ) isMain later)) ∧
          Run.Keeps (Linked front.length before.length i v) ((Recur.ofFuel fuel).step (γ := γ)) ∧
          Linked front.length before.length i v
            ((Interpreter.start a.checked options gateway).execute fuel a.units).2 := by
  obtain ⟨hunits, hprogram⟩ := accept_eq_ok h
  have horder := Modules.inOrder_of_resolve hunits
  have hfollows := horder.follows before u after hsplit
  have hwritten : ∀ w ∈ before, w.program.Written := fun w hw =>
    horder.written hmain hprovider (hsplit ▸ List.mem_append_left _ hw)
  obtain ⟨front, w, back, rfl, hmodule, item, hitem, hexported, hvalues, hsymbol⟩ :=
    hfollows.exists_exporter hwritten hi hkind
  refine ⟨front, w, back, rfl, hmodule, ?_, ?_, ?_⟩
  · rw [hsplit]
    exact Check.checkUnits_append _ _ (Check.beginning a.checked.schemas) []
  · exact Check.import_declared hprogram horder.nodup hsplit hi hmodule hitem hexported hvalues
      hsymbol hkind
  · intro options gateway fuel s hbefore
    have hran : Ran (front ++ w :: back) s.modules := by
      have hleads := Recur.leads_runUnits fuel [] (front ++ w :: back)
        (.start a.checked options gateway) .nil
      rw [hbefore] at hleads
      exact hleads
    have hnew : w.name ∉ front.map ModuleUnit.name := by
      have hunitsNodup := horder.nodup
      rw [hsplit, List.append_assoc, List.map_append, List.nodup_append] at hunitsNodup
      exact fun hmem => hunitsNodup.2.2 _ hmem _ List.mem_cons_self rfl
    have hnodup : u.valueNames.Nodup :=
      (Check.checkUnit_known (Check.clean_of_split hprogram hsplit)).nodup
    have hvalue : i ∈ Check.valueImports u.imports := List.mem_filter.2 ⟨hi, by simp [hkind]⟩
    obtain ⟨t, v, hload, hlinked⟩ :=
      linked_of_load hran hnew hnodup hvalue hmodule (ModuleUnit.mem_ownNames hitem hvalues hsymbol)
    have hitems : ∀ item ∈ u.program.items, ∀ isMain,
        Run.Keeps (Linked front.length (front ++ w :: back).length i v)
          ((Recur.ofFuel fuel).runItem (γ := γ) (front ++ w :: back).length isMain item) := by
      intro item hitem isMain
      refine Linked.runItem fuel ?_ (fun _ hmem => ?_) isMain
      · simp
      · have hown : i.localName ∈ u.ownNames :=
          List.mem_append_right _ (List.mem_flatMap.2 ⟨item, hitem, hmem⟩)
        exact (List.nodup_append.1 hnodup).2.2 _ (List.mem_map.2 ⟨i, hvalue, rfl⟩) _ hown rfl
    refine ⟨t, v, hload, hlinked, hitems, Linked.runUnit fuel, (Linked.sustains fuel).step, ?_⟩
    -- the rest of the program is made of these
    have hrest : Run.Leads (Linked front.length (front ++ w :: back).length i v) (fun s' => s' = s)
        (do
          (Recur.ofFuel fuel).runUnits (γ := γ) (u :: after)
          (Recur.ofFuel fuel).drain (Recur.ofFuel (γ := γ) fuel).fuel)
        fun _ => Linked front.length (front ++ w :: back).length i v := by
      refine .bind (.bind ?_ fun _ => Linked.runUnits fuel after) fun _ =>
        (Linked.sustains fuel).drain _
      rintro _ rfl
      rw [Recur.runUnit, Eval.bind_of_ok hload]
      exact Run.Leads.forM (fun item hitem => hitems item hitem _) t hlinked
    rw [execute_state, hsplit, Recur.runProgram_append _ (List.cons_ne_nil u after) hbefore]
    exact hrest.endState rfl

/-- What the text says, or a program that does nothing. -/
def Program.ofText (source : String) : Program := (Program.ofSource source).toOption.getD ⟨[]⟩

theorem Program.written_ofText {source : String} (h : (Program.ofSource source).isOk) :
    (Program.ofText source).Written := by
  cases hsource : Program.ofSource source with
  | error e =>
    rw [hsource] at h
    cases h
  | ok p =>
    rw [Program.ofText, hsource]
    exact ⟨source, hsource⟩

/-- The entry module imports a value under another name. -/
def relabelled : Project where
  mainName := "main"
  main := .ofText "import \x7bone as uno\x7d from \"numbers\"; uno;"
  provider := [("numbers", .ofText "export let one = 1;")]

/-- The project is accepted: two modules, of which the second has the import and the first runs to its
end. -/
def relabelledRuns : Bool :=
  match accept relabelled.mainName relabelled.main relabelled.provider with
  | .ok ⟨[w, ⟨_, _, [i]⟩], checked⟩ =>
    i.symbol == "one" && i.localName == "uno" && !i.kind.isType &&
      match [w].forM ((Recur.ofFuel 20).runUnit false)
        (.start checked .default (StockGateway.null [])) with
      | .ok _ _ => true
      | .error _ _ => false
  | _ => false

open Interpreter in
/-- The value is there under both names. -/
theorem relabelled_is_bound :
    ∃ (a : Accepted) (w u : ModuleUnit) (i : ResolvedImport) (s t : Interpreter StockGateway)
      (v : Value), accept relabelled.mainName relabelled.main relabelled.provider = .ok a ∧
      a.units = [w, u] ∧ i ∈ u.imports ∧ i.symbol = "one" ∧ i.localName = "uno" ∧
      [w].forM ((Recur.ofFuel 20).runUnit false) (.start a.checked .default (.null [])) =
        .ok () s ∧
      Run.load u s = .ok 1 t ∧ Linked 0 1 i v t ∧
      Linked 0 1 i v ((Interpreter.start a.checked .default
        (StockGateway.null [])).execute 20 a.units).2 := by
  have hruns : relabelledRuns = true := by decide +kernel
  unfold relabelledRuns at hruns
  split at hruns
  case h_2 => cases hruns
  case h_1 w name program i checked haccept =>
    simp only [Bool.and_eq_true, beq_iff_eq, Bool.not_eq_true'] at hruns
    obtain ⟨⟨⟨hsymbol, hname⟩, hkind⟩, hrun⟩ := hruns
    split at hrun
    case h_2 => cases hrun
    case h_1 s hran =>
      let u : ModuleUnit := ⟨name, program, [i]⟩
      have hsplit : [w, u] = [w] ++ u :: [] := rfl
      obtain ⟨front, x, back, hbefore, -, -, -, hbound⟩ := imports_are_bound (γ := StockGateway)
        (P := relabelled) (Program.written_ofText (by decide +kernel))
        (List.forall_mem_singleton.2 (Program.written_ofText (by decide +kernel))) haccept
        hsplit (List.mem_singleton.2 rfl) hkind
      obtain ⟨t, v, hload, hlinked, -, -, -, hend⟩ := hbound .default (.null []) 20 s hran
      obtain rfl : front = [] := by
        cases front with
        | nil => rfl
        | cons _ _ => simp at hbefore
      exact ⟨_, w, _, i, s, t, v, haccept, rfl, List.mem_singleton.2 rfl, hsymbol, hname, hran, hload,
        hlinked, hend⟩

end StreamLang
