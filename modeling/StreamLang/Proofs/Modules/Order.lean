import Mathlib.Data.List.Nodup
import StreamLang.Proofs.Modules.Walk

/-! The order of the modules. The walk succeeds just when all that is imported exists, is exported,
and nothing imports itself, directly or through others; then each module stands behind those it
imports from, and its imports are bound to what they export. -/

namespace StreamLang

/-- The names that a program imports, with the modules they come from. -/
def importedNames (ds : List (ImportDecl × Span)) : List (String × ImportName) :=
  ds.flatMap fun d => d.1.names.map fun n => (d.1.module, n)

/-- An entry module under its name, and the modules that may be imported. -/
structure Project where
  mainName : String
  main : Program
  provider : Provider

namespace Project

variable (P : Project)

/-- The program of a module. The entry module has its own, whatever the provider has under its
name. -/
def program? (name : String) : Option Program :=
  if name = P.mainName then some P.main else Keyed.get? name P.provider

/-- One module imports another one, maybe without any of its names. -/
def Imports (a b : String) : Prop :=
  ∃ p, P.program? a = some p ∧ ∃ d ∈ p.imports, d.1.module = b

/-- The entry module imports the module, directly or through others, or is the module. -/
def Needs (name : String) : Prop := Relation.ReflTransGen P.Imports P.mainName name

/-- All imports can be bound. -/
structure Linkable : Prop where
  found : ∀ a b, P.Needs a → P.Imports a b → ∃ q, P.program? b = some q
  exported : ∀ a p, P.Needs a → P.program? a = some p → ∀ d ∈ p.imports, ∀ n ∈ d.1.names,
    ∀ q, P.program? d.1.module = some q → ∃ i, q.Exports n.name i
  acyclic : ∀ a, P.Needs a → ¬ Relation.TransGen P.Imports a a

/-- The import stands for the name that was asked for, as a module in front exports it. -/
structure Links (earlier : List ModuleUnit) (asked : String × ImportName) (i : ResolvedImport) :
    Prop where
  localName : i.localName = asked.2.localName
  module : i.module = asked.1
  symbol : i.symbol = asked.2.name
  span : i.span = asked.2.span
  declared : ∃ u ∈ earlier, u.name = asked.1 ∧
    ∃ item, u.program.findExport? asked.2.name = some item ∧ u.program.Exports asked.2.name item ∧
      i.kind = .ofItem item

/-- All that the module imports stands in front of it. -/
structure Follows (earlier : List ModuleUnit) (u : ModuleUnit) : Prop where
  program : P.program? u.name = some u.program
  targets : ∀ d ∈ u.program.imports, ∃ v ∈ earlier, v.name = d.1.module
  imports : List.Forall₂ (Links earlier) (importedNames u.program.imports) u.imports

/-- These are the modules the program needs, each once, behind those it imports. -/
structure InOrder (units : List ModuleUnit) : Prop where
  nodup : (units.map ModuleUnit.name).Nodup
  mem : ∀ name, name ∈ units.map ModuleUnit.name ↔ P.Needs name
  last : (units.getLast?.map ModuleUnit.name) = some P.mainName
  follows : ∀ before u after, units = before ++ u :: after → P.Follows before u

variable {P}

theorem Links.mono {earlier later : List ModuleUnit} (h : earlier ⊆ later)
    {asked : String × ImportName} {i : ResolvedImport} (hi : Links earlier asked i) :
    Links later asked i := by
  obtain ⟨u, hu, hdeclared⟩ := hi.declared
  exact { hi with declared := ⟨u, h hu, hdeclared⟩ }

theorem exists_of_forall₂ {α β : Type} {R : α → β → Prop} {as : List α} {bs : List β}
    (h : List.Forall₂ R as bs) {a : α} (ha : a ∈ as) : ∃ b, R a b := by
  induction h with
  | nil => cases ha
  | @cons a' b _ _ hb _ ih =>
    rcases List.mem_cons.1 ha with rfl | ha
    · exact ⟨b, hb⟩
    · exact ih ha

theorem follows_concat {units : List ModuleUnit} {last : ModuleUnit}
    (h : ∀ before u after, units = before ++ u :: after → P.Follows before u)
    (hlast : P.Follows units last) (before : List ModuleUnit) (u : ModuleUnit)
    (after : List ModuleUnit) (heq : units ++ [last] = before ++ u :: after) :
    P.Follows before u := by
  rcases List.eq_nil_or_concat after with rfl | ⟨front, other, rfl⟩
  · obtain ⟨rfl, hsame⟩ := List.append_inj' heq rfl
    cases hsame
    exact hlast
  · have hsplit : units ++ [last] = (before ++ u :: front) ++ [other] := by simpa using heq
    exact h before u front (List.append_inj' hsplit rfl).1

namespace InOrder

variable {units : List ModuleUnit} (h : P.InOrder units)
include h

/-- A needed module stands somewhere in the order. -/
theorem exists_split {name : String} (hneeds : P.Needs name) :
    ∃ before u after, units = before ++ u :: after ∧ u.name = name := by
  obtain ⟨u, hu, hname⟩ := List.mem_map.1 ((h.mem name).2 hneeds)
  obtain ⟨before, after, heq⟩ := List.append_of_mem hu
  exact ⟨before, u, after, heq, hname⟩

theorem program? {before after : List ModuleUnit} {u v : ModuleUnit}
    (heq : units = before ++ u :: after) (hv : v ∈ before) :
    P.program? v.name = some v.program := by
  obtain ⟨front, back, rfl⟩ := List.append_of_mem hv
  exact (h.follows front v (back ++ u :: after) (by simp [heq])).program

/-- Whatever a module imports, directly or through others, stands in front of it. -/
theorem mem_before {before after : List ModuleUnit} {u : ModuleUnit}
    (heq : units = before ++ u :: after) {name : String}
    (himports : Relation.TransGen P.Imports u.name name) :
    name ∈ before.map ModuleUnit.name := by
  have hdirect {before after : List ModuleUnit} {u : ModuleUnit}
      (heq : units = before ++ u :: after) {name : String} (himport : P.Imports u.name name) :
      name ∈ before.map ModuleUnit.name := by
    have hfollows := h.follows before u after heq
    obtain ⟨p, hp, d, hd, rfl⟩ := himport
    rw [hfollows.program] at hp
    cases hp
    exact List.mem_map.2 (hfollows.targets d hd)
  induction himports with
  | single himport => exact hdirect heq himport
  | tail _ himport ih =>
    obtain ⟨v, hv, rfl⟩ := List.mem_map.1 ih
    obtain ⟨front, back, rfl⟩ := List.append_of_mem hv
    have hsplit : units = front ++ v :: (back ++ u :: after) := by simp [heq]
    have hfront := hdirect hsplit himport
    rw [List.map_append]
    exact List.mem_append_left _ hfront

/-- An order exists only for imports that can be bound. -/
theorem linkable : P.Linkable where
  found a b hneeds himports := by
    obtain ⟨before, u, after, heq, rfl⟩ := h.exists_split hneeds
    obtain ⟨v, hv, rfl⟩ := List.mem_map.1 (h.mem_before heq (.single himports))
    exact ⟨v.program, h.program? heq hv⟩
  exported a p hneeds hprogram d hd n hn q hq := by
    obtain ⟨before, u, after, heq, rfl⟩ := h.exists_split hneeds
    have hfollows := h.follows before u after heq
    rw [hfollows.program] at hprogram
    cases hprogram
    have hasked : (d.1.module, n) ∈ importedNames u.program.imports :=
      List.mem_flatMap.2 ⟨d, hd, List.mem_map.2 ⟨n, hn, rfl⟩⟩
    obtain ⟨i, hlinks⟩ := exists_of_forall₂ hfollows.imports hasked
    obtain ⟨v, hv, hname, item, -, hexports, -⟩ := hlinks.declared
    have hprogram := h.program? heq hv
    rw [hname, hq] at hprogram
    cases hprogram
    exact ⟨item, hexports⟩
  acyclic a hneeds hcycle := by
    obtain ⟨before, u, after, heq, rfl⟩ := h.exists_split hneeds
    have hbefore := h.mem_before heq hcycle
    have hnodup := h.nodup
    rw [heq, List.map_append, List.map_cons, List.nodup_append] at hnodup
    exact hnodup.2.2 _ hbefore _ List.mem_cons_self rfl

end InOrder

end Project

namespace Modules

open Project Relation

variable {P : Project} {w w' : Walk} {found found' : List ResolvedImport}

/-- The complete modules of a walk, with no problem so far. -/
structure Sound (P : Project) (w : Walk) : Prop where
  main : w.visit? P.mainName = some .inProgress
  done : ∀ name, w.visit? name = some .done ↔ name ∈ w.units.map ModuleUnit.name
  nodup : (w.units.map ModuleUnit.name).Nodup
  needs : ∀ u ∈ w.units, P.Needs u.name
  follows : ∀ before u after, w.units = before ++ u :: after → P.Follows before u

/-- As long as the entry module is in progress, all others are those of the provider. -/
theorem program?_of_target (hmain : w.visit? P.mainName = some .inProgress) {name : String}
    {target : Program} (htarget : Keyed.get? name P.provider = some target)
    (hvisit : w.visit? name ≠ some .inProgress) : P.program? name = some target := by
  refine (if_neg ?_).trans htarget
  rintro rfl
  exact hvisit hmain

namespace Sound

theorem start (P : Project) : Sound P (Walk.start.mark P.mainName .inProgress) where
  main := by rw [Walk.visit?_mark, if_pos rfl]
  done name := by
    rw [Walk.visit?_mark]
    constructor
    · intro h
      split at h <;> cases h
    · rintro ⟨⟩
  nodup := List.nodup_nil
  needs := List.forall_mem_nil _
  follows before u after h := by
    cases before <;> cases h

/-- The walk goes on with another one of the same modules. -/
theorem of_same (h : Sound P w) (hvisits : ∀ name, w'.visit? name = w.visit? name)
    (hunits : w'.units = w.units) : Sound P w' where
  main := (hvisits _).trans h.main
  done name := by rw [hvisits, hunits, h.done]
  nodup := hunits ▸ h.nodup
  needs := hunits ▸ h.needs
  follows := hunits ▸ h.follows

theorem bindNames (h : Sound P w) (module : String) (target : Program) (names : List ImportName)
    (found : List ResolvedImport) : Sound P (bindNames module target names w found).1 := by
  obtain ⟨hvisits, hunits, -⟩ := bindNames_walk module target names w found
  exact h.of_same (fun name => by rw [Walk.visit?, hvisits, Walk.visit?]) hunits

theorem mark (h : Sound P w) {name : String} (hnew : w.visit? name = none) :
    Sound P (w.mark name .inProgress) where
  main := by
    rw [Walk.visit?_mark]
    split
    · rfl
    · exact h.main
  done other := by
    rw [Walk.visit?_mark]
    refine Iff.trans ?_ (h.done other)
    split
    case isTrue heq =>
      rw [heq, hnew]
      constructor <;> rintro ⟨⟩
    case isFalse => rfl
  nodup := h.nodup
  needs := h.needs
  follows := h.follows

/-- A module is complete when all that it imports is. -/
theorem complete (h : Sound P w) {u : ModuleUnit} (hmain : u.name ≠ P.mainName)
    (hvisit : w.visit? u.name = some .inProgress) (hneeds : P.Needs u.name)
    (hfollows : P.Follows w.units u) : Sound P (w.complete u) where
  main := by
    rw [Walk.visit?_complete, if_neg (Ne.symm hmain)]
    exact h.main
  done other := by
    rw [Walk.visit?_complete, Walk.complete, List.map_append, List.mem_append, List.map_singleton,
      List.mem_singleton, ← h.done]
    split
    case isTrue heq => simp [heq]
    case isFalse hne => simp [hne]
  nodup := by
    rw [Walk.complete, List.map_append, List.nodup_append]
    refine ⟨h.nodup, List.nodup_singleton _, ?_⟩
    rintro name hname other hother rfl
    rw [List.map_singleton, List.mem_singleton] at hother
    rw [← h.done, hother, hvisit] at hname
    cases hname
  needs := by
    intro v hv
    rw [Walk.complete, List.mem_append, List.mem_singleton] at hv
    rcases hv with hv | rfl
    · exact h.needs v hv
    · exact hneeds
  follows := follows_concat h.follows hfollows

end Sound

/-- Without problems, all names of an import declaration are bound. -/
theorem links_of_bindNames {module : String} {target : Program} {names : List ImportName}
    {earlier : List ModuleUnit} (htarget : ∃ u ∈ earlier, u.name = module ∧ u.program = target)
    (hfaults : (bindNames module target names w found).1.faults = []) :
    ∃ new, (bindNames module target names w found).2 = found ++ new ∧
      List.Forall₂ (Links earlier) (names.map fun n => (module, n)) new := by
  induction names generalizing w found with
  | nil => exact ⟨[], (List.append_nil _).symm, .nil⟩
  | cons n rest ih =>
    rw [bindNames] at hfaults ⊢
    cases hlookup : lookupExport module target n.name with
    | error fault =>
      rw [hlookup] at hfaults
      have hprefix := (bindNames_walk module target rest (w.report fault n.span) found).2.2
      dsimp only at hfaults
      rw [hfaults, List.prefix_nil] at hprefix
      simp [Walk.report] at hprefix
    | ok kind =>
      rw [hlookup] at hfaults
      obtain ⟨new, hnew, hlinks⟩ := ih hfaults
      refine ⟨⟨n.localName, module, n.name, kind, n.span⟩ :: new, ?_, .cons ?_ hlinks⟩
      · dsimp only
        rw [hnew, List.append_assoc, List.singleton_append]
      · unfold lookupExport at hlookup
        cases hexport : target.findExport? n.name with
        | none =>
          rw [hexport] at hlookup
          dsimp only at hlookup
          split at hlookup <;> cases hlookup
        | some item =>
          rw [hexport] at hlookup
          cases hlookup
          obtain ⟨u, hu, hname, rfl⟩ := htarget
          exact ⟨rfl, rfl, rfl, rfl, u, hu, hname, item, hexport,
            Program.exports_of_findExport? hexport, rfl⟩

/-- No problem comes up when all names are exported. -/
theorem faults_bindNames {module : String} {target : Program} {names : List ImportName}
    (h : ∀ n ∈ names, ∃ i, target.Exports n.name i) :
    (bindNames module target names w found).1.faults = w.faults := by
  induction names generalizing w found with
  | nil => rfl
  | cons n rest ih =>
    obtain ⟨i, hi⟩ := h n List.mem_cons_self
    obtain ⟨item, hitem⟩ := Program.exists_findExport? hi
    have hlookup : lookupExport module target n.name = .ok (.ofItem item) := by
      rw [lookupExport, hitem]
    rw [bindNames, hlookup]
    exact ih fun m hm => h m (List.mem_cons_of_mem _ hm)

/-- What a walk without problems has done: all import declarations are bound. -/
structure Bound (P : Project) (ds : List (ImportDecl × Span)) (found : List ResolvedImport)
    (w' : Walk) (found' : List ResolvedImport) : Prop where
  sound : Sound P w'
  targets : ∀ d ∈ ds, ∃ u ∈ w'.units, u.name = d.1.module
  imports : ∃ new, found' = found ++ new ∧ List.Forall₂ (Links w'.units) (importedNames ds) new

theorem Bound.cons {d : ImportDecl × Span} {rest : List (ImportDecl × Span)} {w₁ : Walk}
    {found₁ new : List ResolvedImport} {u : ModuleUnit} (hu : u ∈ w₁.units)
    (hname : u.name = d.1.module) (hnew : found₁ = found ++ new)
    (hlinks : List.Forall₂ (Links w₁.units) (d.1.names.map fun n => (d.1.module, n)) new)
    (hextends : w₁.Extends w') (hrest : Bound P rest found₁ w' found') :
    Bound P (d :: rest) found w' found' where
  sound := hrest.sound
  targets := List.forall_mem_cons.2 ⟨⟨u, hextends.units.subset hu, hname⟩, hrest.targets⟩
  imports := by
    obtain ⟨more, hmore, hlinksRest⟩ := hrest.imports
    refine ⟨new ++ more, by rw [hmore, hnew, List.append_assoc], ?_⟩
    exact List.rel_append (hlinks.imp fun _ _ h => h.mono hextends.units.subset) hlinksRest

/-- The module whose imports are bound is complete. -/
theorem Bound.complete {name : String} {target : Program} {own : List ResolvedImport}
    (h : Bound P target.imports [] w own) (hvisit : w.visit? name = some .inProgress)
    (hmain : name ≠ P.mainName) (hneeds : P.Needs name) (hprogram : P.program? name = some target) :
    Sound P (w.complete ⟨name, target, own⟩) := by
  obtain ⟨new, hnew, hlinks⟩ := h.imports
  rw [List.nil_append] at hnew
  subst hnew
  exact h.sound.complete hmain hvisit hneeds ⟨hprogram, h.targets, hlinks⟩

theorem Binds.faultless {ds : List (ImportDecl × Span)}
    (h : Binds P.provider ds w found w' found') (hfaults : w'.faults = []) : w.faults = [] :=
  List.prefix_nil.1 (hfaults ▸ h.extends.faults)

theorem faultless_of_bindNames {module : String} {target : Program} {names : List ImportName}
    (hfaults : (bindNames module target names w found).1.faults = []) : w.faults = [] :=
  List.prefix_nil.1 (hfaults ▸ (bindNames_walk module target names w found).2.2)

/-- A walk that ends without problems had none, and has bound all it went through. -/
theorem Binds.bound {ds : List (ImportDecl × Span)}
    (h : Binds P.provider ds w found w' found') (hfaults : w'.faults = []) (hw : Sound P w)
    (hneeds : ∀ d ∈ ds, P.Needs d.1.module) : Bound P ds found w' found' := by
  induction h with
  | nil => exact ⟨hw, List.forall_mem_nil _, [], (List.append_nil _).symm, .nil⟩
  | missing _ hrest => exact absurd (hrest.faultless hfaults) (by simp [Walk.report])
  | cycle _ _ hrest => exact absurd (hrest.faultless hfaults) (by simp [Walk.report])
  | @done d rest w w' found found' target htarget hvisit hrest ih =>
    obtain ⟨-, hunits, -⟩ := bindNames_walk d.1.module target d.1.names w found
    obtain ⟨u, hu, hname⟩ := List.mem_map.1 ((hw.done _).1 hvisit)
    have hprogram : u.program = target := by
      obtain ⟨before, after, heq⟩ := List.append_of_mem hu
      have hown := (hw.follows before u after heq).program
      rw [hname, program?_of_target hw.main htarget (by rw [hvisit]; rintro ⟨⟩)] at hown
      exact (Option.some.inj hown).symm
    obtain ⟨new, hnew, hlinks⟩ :=
      links_of_bindNames ⟨u, hu, hname, hprogram⟩ (hrest.faultless hfaults)
    rw [← hunits] at hu hlinks
    exact .cons hu hname hnew hlinks hrest.extends
      (ih hfaults (hw.bindNames _ _ _ _) (List.forall_mem_cons.1 hneeds).2)
  | @first d rest w inner w' found own found' target htarget hvisit hinner hrest ihinner ihrest =>
    have hmain : d.1.module ≠ P.mainName := by
      intro heq
      rw [heq, hw.main] at hvisit
      cases hvisit
    have hprogram := program?_of_target hw.main htarget (by rw [hvisit]; rintro ⟨⟩)
    have hneeded := (List.forall_mem_cons.1 hneeds).1
    have hnamed := hrest.faultless hfaults
    have hinnerFaults : (inner.complete ⟨d.1.module, target, own⟩).faults = [] :=
      faultless_of_bindNames hnamed
    have hown := ihinner hinnerFaults (hw.mark hvisit) fun d' hd' =>
      hneeded.tail ⟨target, hprogram, d', hd', rfl⟩
    have hprogress : inner.visit? d.1.module = some .inProgress := by
      rw [hinner.extends.inProgress, Walk.visit?_mark, if_pos rfl]
    have hcomplete := hown.complete hprogress hmain hneeded hprogram
    have hu : ModuleUnit.mk d.1.module target own ∈
        (inner.complete ⟨d.1.module, target, own⟩).units :=
      List.mem_append_right _ List.mem_cons_self
    obtain ⟨new, hnew, hlinks⟩ := links_of_bindNames ⟨_, hu, rfl, rfl⟩ hnamed
    obtain ⟨-, hunits, -⟩ := bindNames_walk d.1.module target d.1.names
      (inner.complete ⟨d.1.module, target, own⟩) found
    rw [← hunits] at hu hlinks
    exact .cons hu rfl hnew hlinks hrest.extends
      (ihrest hfaults (hcomplete.bindNames _ _ _ _) (List.forall_mem_cons.1 hneeds).2)

/-- In a project whose imports can be bound no problem comes up on the way from the entry module to
a module, all modules of that way being in progress. -/
theorem Binds.faults_eq {ds : List (ImportDecl × Span)}
    (h : Binds P.provider ds w found w' found') (hP : P.Linkable) {name : String} {p : Program}
    (hneeds : P.Needs name) (hprogram : P.program? name = some p) (hds : ds ⊆ p.imports)
    (hmain : w.visit? P.mainName = some .inProgress)
    (hway : ∀ other, w.visit? other = some .inProgress → ReflTransGen P.Imports other name) :
    w'.faults = w.faults := by
  induction h generalizing name p with
  | nil => rfl
  | @missing d rest w w' found found' htarget hrest ih =>
    have himports : P.Imports name d.1.module := ⟨p, hprogram, d, hds List.mem_cons_self, rfl⟩
    obtain ⟨q, hq⟩ := hP.found name d.1.module hneeds himports
    unfold Project.program? at hq
    split at hq
    case isTrue heq =>
      rw [heq] at himports
      exact absurd (TransGen.tail' (hway _ hmain) himports) (hP.acyclic _ .refl)
    case isFalse =>
      rw [htarget] at hq
      cases hq
  | @cycle d rest w w' found found' target htarget hvisit hrest ih =>
    have himports : P.Imports name d.1.module := ⟨p, hprogram, d, hds List.mem_cons_self, rfl⟩
    exact absurd (TransGen.tail' (hway _ hvisit) himports) (hP.acyclic _ (hneeds.tail himports))
  | @done d rest w w' found found' target htarget hvisit hrest ih =>
    have htargeted := program?_of_target hmain htarget (by rw [hvisit]; rintro ⟨⟩)
    have hexported := hP.exported name p hneeds hprogram d (hds List.mem_cons_self)
    have hextends := extends_bindNames d.1.module target d.1.names w found
    rw [ih hneeds hprogram (List.subset_of_cons_subset hds) ((hextends.inProgress _).2 hmain)
      fun other hother => hway other ((hextends.inProgress _).1 hother)]
    exact faults_bindNames fun n hn => hexported n hn target htargeted
  | @first d rest w inner w' found own found' target htarget hvisit hinner hrest ihinner ihrest =>
    have htargeted := program?_of_target hmain htarget (by rw [hvisit]; rintro ⟨⟩)
    have hexported := hP.exported name p hneeds hprogram d (hds List.mem_cons_self)
    have himports : P.Imports name d.1.module := ⟨p, hprogram, d, hds List.mem_cons_self, rfl⟩
    have hinnerFaults : inner.faults = w.faults := by
      refine ihinner (hneeds.tail himports) htargeted (List.Subset.refl _) ?_ fun other hother => ?_
      · rw [Walk.visit?_mark]
        split
        · rfl
        · exact hmain
      · rw [Walk.visit?_mark] at hother
        split at hother
        case isTrue heq => rw [heq]
        case isFalse => exact (hway other hother).tail himports
    have hextends := (hinner.extends.visited (u := ⟨d.1.module, target, own⟩) hvisit rfl).trans
      (extends_bindNames d.1.module target d.1.names _ found)
    rw [ihrest hneeds hprogram (List.subset_of_cons_subset hds) ((hextends.inProgress _).2 hmain)
      fun other hother => hway other ((hextends.inProgress _).1 hother)]
    exact (faults_bindNames fun n hn => hexported n hn target htargeted).trans hinnerFaults

/-- The walk over a project, with the entry module complete at its end. -/
structure Walked (P : Project) (w : Walk) (own : List ResolvedImport) : Prop where
  binds : Binds P.provider P.main.imports (Walk.start.mark P.mainName .inProgress) [] w own
  resolve : resolve P.mainName P.main P.provider =
    if w.faults.isEmpty then .ok (w.units ++ [⟨P.mainName, P.main, own⟩])
    else .error (w.faults.map fun f => .ofSpan .typing f.1.message f.2)

theorem exists_walked (P : Project) : ∃ w own, Walked P w own := by
  obtain ⟨w, own, hbinds, hvisit⟩ := exists_binds P.provider P.mainName P.main
  refine ⟨w, own, hbinds, ?_⟩
  rw [Modules.resolve, hvisit _ (Nat.lt_succ_self _)]
  rfl

theorem program?_main (P : Project) : P.program? P.mainName = some P.main := if_pos rfl

namespace Walked

variable {own : List ResolvedImport} (h : Walked P w own)
include h

theorem faultless_of_linkable (hP : P.Linkable) : w.faults = [] := by
  refine h.binds.faults_eq hP .refl (program?_main P) (List.Subset.refl _) ?_ fun other hother => ?_
  · rw [Walk.visit?_mark, if_pos rfl]
  · rw [Walk.visit?_mark] at hother
    split at hother
    case isTrue heq => rw [heq]
    case isFalse => cases hother

theorem bound (hfaults : w.faults = []) : Bound P P.main.imports [] w own :=
  h.binds.bound hfaults (.start P) fun d hd => .single ⟨P.main, program?_main P, d, hd, rfl⟩

/-- Without problems the modules are in order. -/
theorem inOrder (hfaults : w.faults = []) :
    P.InOrder (w.units ++ [⟨P.mainName, P.main, own⟩]) := by
  obtain ⟨hsound, htargets, new, hnew, hlinks⟩ := h.bound hfaults
  rw [List.nil_append] at hnew
  subst hnew
  have hlast : P.Follows w.units ⟨P.mainName, P.main, own⟩ :=
    ⟨program?_main P, htargets, hlinks⟩
  have hfollows := follows_concat hsound.follows hlast
  constructor
  case nodup =>
    rw [List.map_append, List.nodup_append]
    refine ⟨hsound.nodup, List.nodup_singleton _, ?_⟩
    rintro name hname other hother rfl
    rw [List.map_singleton, List.mem_singleton] at hother
    rw [← hsound.done, hother, hsound.main] at hname
    cases hname
  case mem =>
    intro name
    constructor
    · rw [List.map_append, List.mem_append, List.map_singleton, List.mem_singleton]
      rintro (hname | rfl)
      · obtain ⟨u, hu, rfl⟩ := List.mem_map.1 hname
        exact hsound.needs u hu
      · exact .refl
    · intro hneeds
      induction hneeds with
      | refl => simp
      | tail _ himports ih =>
        -- what a module of the order imports stands in front of it
        obtain ⟨u, hu, rfl⟩ := List.mem_map.1 ih
        obtain ⟨before, after, heq⟩ := List.append_of_mem hu
        have hfollows := hfollows before u after heq
        obtain ⟨p, hp, d, hd, rfl⟩ := himports
        rw [hfollows.program] at hp
        cases hp
        obtain ⟨v, hv, hname⟩ := hfollows.targets d hd
        rw [heq]
        exact List.mem_map.2 ⟨v, List.mem_append_left _ hv, hname⟩
  case last => simp
  case follows => exact hfollows

end Walked

theorem inOrder_of_resolve {units : List ModuleUnit}
    (h : resolve P.mainName P.main P.provider = .ok units) : P.InOrder units := by
  obtain ⟨w, own, hwalk⟩ := exists_walked P
  rw [hwalk.resolve] at h
  split at h
  case isTrue hfaults =>
    cases h
    exact hwalk.inOrder (List.isEmpty_iff.1 hfaults)
  case isFalse => cases h

end Modules

open Modules in
/-- The walk over the imports of a program comes to an end, which no larger bound changes. It
succeeds just when all modules that are needed exist, all names are exported, and no module needs
itself; the modules are then in order, with their imports bound. -/
theorem resolve_succeeds_iff_linkable (P : Project) :
    (∃ w own, Binds P.provider P.main.imports (Walk.start.mark P.mainName .inProgress) [] w own ∧
      ∀ depth, P.provider.length < depth →
        visitWithin P.provider depth P.mainName P.main .start =
          w.complete ⟨P.mainName, P.main, own⟩) ∧
    ((∃ units, resolve P.mainName P.main P.provider = .ok units) ↔ P.Linkable) ∧
    ∀ units, resolve P.mainName P.main P.provider = .ok units → P.InOrder units := by
  refine ⟨exists_binds _ _ _, ⟨?_, ?_⟩, fun units => inOrder_of_resolve⟩
  · rintro ⟨units, hunits⟩
    exact (inOrder_of_resolve hunits).linkable
  · intro hP
    obtain ⟨w, own, hwalk⟩ := exists_walked P
    have hfaults := hwalk.faultless_of_linkable hP
    exact ⟨_, hwalk.resolve.trans (if_pos (List.isEmpty_iff.2 hfaults))⟩

/-- `import {names} from "module";` -/
def importItem (module : String) (names : List String) : Item :=
  ⟨.imports ⟨names.map (⟨·, none, .none⟩), module⟩, false, .none⟩

/-- `export let name = 1;` -/
def exportItem (name : String) : Item :=
  ⟨.binding ⟨.none, .bind .none name, none, .literal .none (.int 1)⟩, true, .none⟩

/-- Both modules that the entry module imports import `base`, one of them none of its names. -/
def diamond : Project where
  mainName := "main"
  main := ⟨[importItem "left" ["l"], importItem "right" ["r"]]⟩
  provider :=
    [("right", ⟨[importItem "base" [], exportItem "r"]⟩), ("base", ⟨[exportItem "b"]⟩),
      ("left", ⟨[importItem "base" ["b"], exportItem "l"]⟩)]

/-- The base is there once, in front of both. -/
theorem diamond_in_order :
    ∃ units, Modules.resolve diamond.mainName diamond.main diamond.provider = .ok units ∧
      units.map ModuleUnit.name = ["base", "left", "right", "main"] ∧ diamond.InOrder units ∧
      diamond.Linkable := by
  have horder := resolve_succeeds_iff_linkable diamond
  exact ⟨_, rfl, rfl, horder.2.2 _ rfl, horder.2.1.1 ⟨_, rfl⟩⟩

end StreamLang
