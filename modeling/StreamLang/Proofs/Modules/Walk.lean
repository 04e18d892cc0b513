import Mathlib.Data.List.Forall2
import Mathlib.Logic.Relation
import StreamLang.Modules

/-! The import graph of a program, and the walk over it. The walk is told here by its single steps,
with no bound on its depth; it comes to an end, since each module of the provider is visited at most
once. -/

namespace StreamLang

/-- An exported item of the program declares the name. -/
def Program.Exports (p : Program) (name : String) (i : Item) : Prop :=
  i ∈ p.items ∧ i.exported = true ∧ name ∈ i.declaredNames

theorem Program.exports_of_findExport? {p : Program} {name : String} {i : Item}
    (h : p.findExport? name = some i) : p.Exports name i := by
  have hfound := List.find?_some h
  rw [Bool.and_eq_true, List.contains_iff_mem] at hfound
  exact ⟨List.mem_of_find?_eq_some h, hfound⟩

theorem Program.exists_findExport? {p : Program} {name : String} {i : Item}
    (h : p.Exports name i) : ∃ item, p.findExport? name = some item := by
  refine Option.isSome_iff_exists.1 (List.find?_isSome.2 ⟨i, h.1, ?_⟩)
  rw [Bool.and_eq_true, List.contains_iff_mem]
  exact h.2

namespace Modules

/-- Handles the import declarations of a module, and with them those of the modules that are met for
the first time. -/
inductive Binds (provider : Provider) :
    List (ImportDecl × Span) → Walk → List ResolvedImport → Walk → List ResolvedImport → Prop
  | nil {w : Walk} {found : List ResolvedImport} : Binds provider [] w found w found
  | missing {d : ImportDecl × Span} {rest : List (ImportDecl × Span)} {w w' : Walk}
      {found found' : List ResolvedImport} (htarget : Keyed.get? d.1.module provider = none)
      (hrest : Binds provider rest (w.report (.moduleNotFound d.1.module) d.2) found w' found') :
    Binds provider (d :: rest) w found w' found'
  | cycle {d : ImportDecl × Span} {rest : List (ImportDecl × Span)} {w w' : Walk}
      {found found' : List ResolvedImport} {target : Program}
      (htarget : Keyed.get? d.1.module provider = some target)
      (hvisit : w.visit? d.1.module = some .inProgress)
      (hrest : Binds provider rest (w.report (.cycle d.1.module) d.2) found w' found') :
    Binds provider (d :: rest) w found w' found'
  | done {d : ImportDecl × Span} {rest : List (ImportDecl × Span)} {w w' : Walk}
      {found found' : List ResolvedImport} {target : Program}
      (htarget : Keyed.get? d.1.module provider = some target)
      (hvisit : w.visit? d.1.module = some .done)
      (hrest : Binds provider rest (bindNames d.1.module target d.1.names w found).1
        (bindNames d.1.module target d.1.names w found).2 w' found') :
    Binds provider (d :: rest) w found w' found'
  | first {d : ImportDecl × Span} {rest : List (ImportDecl × Span)} {w inner w' : Walk}
      {found own found' : List ResolvedImport} {target : Program}
      (htarget : Keyed.get? d.1.module provider = some target) (hvisit : w.visit? d.1.module = none)
      (hinner : Binds provider target.imports (w.mark d.1.module .inProgress) [] inner own)
      (hrest : Binds provider rest
        (bindNames d.1.module target d.1.names (inner.complete ⟨d.1.module, target, own⟩) found).1
        (bindNames d.1.module target d.1.names (inner.complete ⟨d.1.module, target, own⟩) found).2
        w' found') :
    Binds provider (d :: rest) w found w' found'

namespace Walk

variable {w w' w'' : Walk}

theorem visit?_mark (w : Walk) (module name : String) (v : Visit) :
    (w.mark module v).visit? name = if name = module then some v else w.visit? name := by
  split
  case isTrue h => rw [h, visit?, mark, Keyed.get?_insert_self]
  case isFalse h => rw [visit?, mark, Keyed.get?_insert_of_ne h, visit?]

theorem visit?_complete (w : Walk) (u : ModuleUnit) (name : String) :
    (w.complete u).visit? name = if name = u.name then some .done else w.visit? name :=
  visit?_mark w u.name name .done

/-- What the rest of a walk does to what there is of it. -/
structure Extends (w w' : Walk) : Prop where
  units : w.units <+: w'.units
  faults : w.faults <+: w'.faults
  met : ∀ name, w'.visit? name = none → w.visit? name = none
  inProgress : ∀ name, w'.visit? name = some .inProgress ↔ w.visit? name = some .inProgress

theorem Extends.refl (w : Walk) : w.Extends w :=
  ⟨List.prefix_refl _, List.prefix_refl _, fun _ => id, fun _ => .rfl⟩

theorem Extends.trans (h : w.Extends w') (h' : w'.Extends w'') : w.Extends w'' where
  units := h.units.trans h'.units
  faults := h.faults.trans h'.faults
  met name hname := h.met name (h'.met name hname)
  inProgress name := (h'.inProgress name).trans (h.inProgress name)

theorem extends_report (w : Walk) (fault : ImportFault) (span : Span) :
    w.Extends (w.report fault span) :=
  ⟨List.prefix_refl _, List.prefix_append _ _, fun _ => id, fun _ => .rfl⟩

/-- A module that is met, and then is complete. -/
theorem Extends.visited {name : String} {u : ModuleUnit} (hnew : w.visit? name = none)
    (hname : u.name = name) (h : (w.mark name .inProgress).Extends w') :
    w.Extends (w'.complete u) where
  units := h.units.trans (List.prefix_append _ _)
  faults := h.faults
  met other hother := by
    rw [visit?_complete] at hother
    split at hother
    · cases hother
    · have hmarked := h.met other hother
      rw [visit?_mark] at hmarked
      split at hmarked
      · cases hmarked
      · exact hmarked
  inProgress other := by
    rw [visit?_complete, hname]
    split
    case isTrue heq =>
      rw [heq, hnew]
      constructor <;> rintro ⟨⟩
    case isFalse hne => rw [h.inProgress, visit?_mark, if_neg hne]

end Walk

/-- Binding names reports problems, and changes nothing else. -/
theorem bindNames_walk (module : String) (target : Program) (names : List ImportName) (w : Walk)
    (found : List ResolvedImport) :
    (bindNames module target names w found).1.visits = w.visits ∧
      (bindNames module target names w found).1.units = w.units ∧
      w.faults <+: (bindNames module target names w found).1.faults := by
  induction names generalizing w found with
  | nil => exact ⟨rfl, rfl, List.prefix_refl _⟩
  | cons n rest ih =>
    rw [bindNames]
    cases lookupExport module target n.name with
    | ok kind => exact ih w _
    | error fault =>
      obtain ⟨hvisits, hunits, hfaults⟩ := ih (w.report fault n.span) found
      exact ⟨hvisits, hunits, (List.prefix_append _ _).trans hfaults⟩

theorem extends_bindNames (module : String) (target : Program) (names : List ImportName)
    (w : Walk) (found : List ResolvedImport) :
    w.Extends (bindNames module target names w found).1 := by
  obtain ⟨hvisits, hunits, hfaults⟩ := bindNames_walk module target names w found
  have hvisit (name : String) :
      (bindNames module target names w found).1.visit? name = w.visit? name := by
    rw [Walk.visit?, hvisits, Walk.visit?]
  exact {
    units := hunits ▸ List.prefix_refl _
    faults := hfaults
    met := fun name h => (hvisit name).symm.trans h
    inProgress := fun name => by rw [hvisit] }

variable {provider : Provider} {ds : List (ImportDecl × Span)} {w w' : Walk}
  {found found' : List ResolvedImport}

theorem Binds.extends (h : Binds provider ds w found w' found') : w.Extends w' := by
  induction h with
  | nil => exact .refl _
  | missing _ _ ih => exact (Walk.extends_report _ _ _).trans ih
  | cycle _ _ _ ih => exact (Walk.extends_report _ _ _).trans ih
  | done _ _ _ ih => exact (extends_bindNames _ _ _ _ _).trans ih
  | first _ hnew _ _ ihinner ihrest =>
    exact (ihinner.visited hnew rfl).trans ((extends_bindNames _ _ _ _ _).trans ihrest)

/-- A walk goes one way only. -/
theorem Binds.unique {other : Walk} {foundOther : List ResolvedImport}
    (h : Binds provider ds w found w' found') (h' : Binds provider ds w found other foundOther) :
    w' = other ∧ found' = foundOther := by
  induction h generalizing other foundOther with
  | nil =>
    cases h'
    exact ⟨rfl, rfl⟩
  | missing htarget _ ih =>
    cases h' with
    | missing _ hrest => exact ih hrest
    | cycle htarget' | done htarget' | first htarget' =>
      rw [htarget] at htarget'
      cases htarget'
  | cycle htarget hvisit _ ih =>
    cases h' with
    | cycle _ _ hrest => exact ih hrest
    | missing htarget' =>
      rw [htarget] at htarget'
      cases htarget'
    | done _ hvisit' | first _ hvisit' =>
      rw [hvisit] at hvisit'
      cases hvisit'
  | done htarget hvisit _ ih =>
    cases h' with
    | done htarget' _ hrest =>
      rw [htarget] at htarget'
      cases htarget'
      exact ih hrest
    | missing htarget' =>
      rw [htarget] at htarget'
      cases htarget'
    | cycle _ hvisit' | first _ hvisit' =>
      rw [hvisit] at hvisit'
      cases hvisit'
  | first htarget hvisit _ _ ihinner ihrest =>
    cases h' with
    | first htarget' _ hinner hrest =>
      rw [htarget] at htarget'
      cases htarget'
      obtain ⟨rfl, rfl⟩ := ihinner hinner
      exact ihrest hrest
    | missing htarget' =>
      rw [htarget] at htarget'
      cases htarget'
    | cycle _ hvisit' | done _ hvisit' =>
      rw [hvisit] at hvisit'
      cases hvisit'

/-- How many modules of the provider were not met yet. -/
def unmet (provider : Provider) (w : Walk) : Nat :=
  provider.countP fun entry => (w.visit? entry.1).isNone

theorem unmet_le_length (provider : Provider) (w : Walk) : unmet provider w ≤ provider.length :=
  List.countP_le_length

theorem unmet_le_of_extends (h : w.Extends w') : unmet provider w' ≤ unmet provider w := by
  refine List.countP_mono_left fun entry _ hentry => ?_
  rw [Option.isNone_iff_eq_none] at hentry ⊢
  exact h.met entry.1 hentry

/-- To meet a module leaves fewer to be met. -/
theorem unmet_mark_lt {name : String} {target : Program}
    (htarget : Keyed.get? name provider = some target) (hnew : w.visit? name = none) :
    unmet provider (w.mark name .inProgress) < unmet provider w := by
  have hmem := Keyed.mem_of_get? htarget
  have hmono : ∀ entry : String × Program,
      ((w.mark name .inProgress).visit? entry.1).isNone → (w.visit? entry.1).isNone := by
    intro entry hentry
    rw [Walk.visit?_mark] at hentry
    split at hentry
    · cases hentry
    · exact hentry
  obtain ⟨before, after, rfl⟩ := List.append_of_mem hmem
  have hbefore := List.countP_mono_left (l := before) fun entry _ => hmono entry
  have hafter := List.countP_mono_left (l := after) fun entry _ => hmono entry
  have hself : ((w.mark name .inProgress).visit? name).isNone = false := by
    rw [Walk.visit?_mark, if_pos rfl]
    rfl
  simp only [unmet, List.countP_append, List.countP_cons, hself, hnew, Option.isNone_none,
    Bool.false_eq_true, if_false, if_true]
  omega

/-- Within the bound, a module that is met for the first time is walked through to its end. -/
def Completes (provider : Provider) (depth : Nat) : Prop :=
  ∀ {name : String} {target : Program} {w : Walk}, Keyed.get? name provider = some target →
    w.visit? name = none → unmet provider w ≤ depth →
    ∃ inner own, Binds provider target.imports (w.mark name .inProgress) [] inner own ∧
      visitWithin provider depth name target w = inner.complete ⟨name, target, own⟩

theorem binds_bindImports {depth : Nat} (hvisits : Completes provider depth)
    (hdepth : unmet provider w ≤ depth) :
    Binds provider ds w found
      (bindImports provider (visitWithin provider depth) ds w found).1
      (bindImports provider (visitWithin provider depth) ds w found).2 := by
  induction ds generalizing w found with
  | nil => exact .nil
  | cons d rest ih =>
    have hnames {w₁ : Walk} {target : Program} (h : w.Extends w₁) :
        unmet provider (bindNames d.1.module target d.1.names w₁ found).1 ≤ depth :=
      Nat.le_trans (unmet_le_of_extends (h.trans (extends_bindNames _ _ _ _ _))) hdepth
    rw [bindImports]
    cases htarget : Keyed.get? d.1.module provider with
    | none => exact .missing htarget (ih hdepth)
    | some target =>
      cases hvisit : w.visit? d.1.module with
      | none =>
        obtain ⟨inner, own, hinner, hcomplete⟩ := hvisits htarget hvisit hdepth
        dsimp only
        rw [hcomplete]
        exact .first htarget hvisit hinner (ih (hnames (hinner.extends.visited hvisit rfl)))
      | some v => cases v with
        | inProgress => exact .cycle htarget hvisit (ih hdepth)
        | done => exact .done htarget hvisit (ih (hnames (.refl w)))

/-- A bound that allows for every module not met yet is enough. -/
theorem completes (provider : Provider) (depth : Nat) : Completes provider depth := by
  induction depth with
  | zero =>
    intro name target w htarget hnew hdepth
    exact absurd (unmet_mark_lt htarget hnew) (by omega)
  | succ depth ih =>
    intro name target w htarget hnew hdepth
    have hfewer := unmet_mark_lt htarget hnew
    exact ⟨_, _, binds_bindImports ih (by omega), rfl⟩

/-- The walk over the modules of a program comes to an end, and no larger bound changes it. -/
theorem exists_binds (provider : Provider) (mainName : String) (main : Program) :
    ∃ w own, Binds provider main.imports (Walk.start.mark mainName .inProgress) [] w own ∧
      ∀ depth, provider.length < depth →
        visitWithin provider depth mainName main .start = w.complete ⟨mainName, main, own⟩ := by
  have hwalk (depth : Nat) (hdepth : provider.length ≤ depth) :
      Binds provider main.imports (Walk.start.mark mainName .inProgress) [] _ _ :=
    binds_bindImports (completes provider depth)
      (Nat.le_trans (unmet_le_length provider _) hdepth)
  refine ⟨_, _, hwalk _ (Nat.le_refl _), fun depth hdepth => ?_⟩
  obtain ⟨depth, rfl⟩ : ∃ k, depth = k + 1 := ⟨depth - 1, by omega⟩
  obtain ⟨hw, hown⟩ := (hwalk depth (by omega)).unique (hwalk _ (Nat.le_refl _))
  rw [visitWithin, hw, hown]

end Modules

end StreamLang
