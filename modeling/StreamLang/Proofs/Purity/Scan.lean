import Mathlib.Data.List.Nodup
import StreamLang.Check.Program
import StreamLang.Proofs.Purity.Inert

/-! What the scan of a body shows. When it finds no effect, and only functions that are pure are
referred to, the body is confined, as long as no name that is bound somewhere in it stands outside
the scope of its bindings for something harmful. -/

namespace StreamLang.Purity

/-- A name of a module stands for something harmless: a pure function, data, a builtin without
effects, or nothing. -/
structure Referable (isPure : FunctionId → Prop) (globals : Globals) (name : String) : Prop where
  function : ∀ id isAsync, Keyed.get? name globals = some (.function id isAsync) →
    isAsync = false ∧ isPure id
  value : ∀ ty, Keyed.get? name globals = some (.value ty) → isOpaque ty = false
  builtin : ∀ b, Keyed.get? name globals = none → Builtin.ofName? name = some b →
    isHarmless b.effect = true

namespace Summary

/-- The second summary holds all that the first does. -/
structure Le (s t : Summary) : Prop where
  locals : s.locals ⊆ t.locals
  calls : s.calls ⊆ t.calls
  effectful : s.effectful = true → t.effectful = true

/-- No effect was found, and only pure functions are referred to. -/
structure Harmless (isPure : FunctionId → Prop) (s : Summary) : Prop where
  effectful : s.effectful = false
  calls : ∀ id ∈ s.calls, isPure id

namespace Le

theorem refl (s : Summary) : s.Le s := ⟨List.Subset.refl _, List.Subset.refl _, fun h => h⟩

theorem trans {s t u : Summary} (h : s.Le t) (h' : t.Le u) : s.Le u :=
  ⟨List.Subset.trans h.locals h'.locals, List.Subset.trans h.calls h'.calls,
    fun he => h'.effectful (h.effectful he)⟩

theorem bind (s : Summary) (names : List String) : s.Le (s.bind names) :=
  ⟨List.subset_append_right _ _, List.Subset.refl _, fun h => h⟩

theorem taint (s : Summary) : s.Le s.taint :=
  ⟨List.Subset.refl _, List.Subset.refl _, fun _ => rfl⟩

theorem call (s : Summary) (id : FunctionId) : s.Le (s.call id) :=
  ⟨List.Subset.refl _, List.subset_cons_self _ _, fun h => h⟩

end Le

end Summary

/-- Going from the one summary to the other the scan has looked at a piece of code, for which
`confined` says what it is to be confined: with a harmless summary in the end, the code is confined
to harmless names, if this holds of the names that are in the end among the bound ones. -/
structure Scanned (isPure : FunctionId → Prop) (globals : Globals)
    (confined : (String → Prop) → Prop) (s t : Summary) : Prop where
  le : s.Le t
  sound : ∀ final : Summary, t.Le final → final.Harmless isPure →
    confined (fun n => n ∈ final.locals → Referable isPure globals n) →
    confined (Referable isPure globals)

namespace Scanned

variable {isPure : FunctionId → Prop} {globals : Globals} {c c' : (String → Prop) → Prop}
  {s t u : Summary}

theorem nothing (s : Summary) : Scanned isPure globals (fun _ => True) s s :=
  ⟨.refl s, fun _ _ _ _ => trivial⟩

theorem seq (h : Scanned isPure globals c s t) (h' : Scanned isPure globals c' t u) :
    Scanned isPure globals (fun good => c good ∧ c' good) s u :=
  ⟨h.le.trans h'.le, fun final hle hfinal hc =>
    ⟨h.sound final (h'.le.trans hle) hfinal hc.1, h'.sound final hle hfinal hc.2⟩⟩

theorem after (hle : s.Le t) (h : Scanned isPure globals c t u) : Scanned isPure globals c s u :=
  ⟨hle.trans h.le, h.sound⟩

theorem tainted (s : Summary) : Scanned isPure globals c s s.taint where
  le := .taint s
  sound final hle hfinal _ := by
    have heffect := hle.effectful rfl
    rw [hfinal.effectful] at heffect
    cases heffect

theorem bound {p : Prop} (h : ∀ final : Summary, s.Le final → final.Harmless isPure → p) :
    Scanned isPure globals (fun _ => p) s s :=
  ⟨.refl s, fun final hle hfinal _ => h final hle hfinal⟩

end Scanned

variable (isPure : FunctionId → Prop) (globals : Globals)

theorem refer_scanned (bound : List String) (name : String) (s : Summary) :
    Scanned isPure globals (fun good => name ∈ bound ∨ good name) s (refer globals name s) := by
  have hgood : ∀ {t : Summary}, s.Le t → (∀ final : Summary, t.Le final → final.Harmless isPure →
      Referable isPure globals name) →
      Scanned isPure globals (fun good => name ∈ bound ∨ good name) s t :=
    fun hle h => ⟨hle, fun final hle' hfinal _ => .inr (h final hle' hfinal)⟩
  unfold refer
  split
  · rename_i hlocal
    refine ⟨.refl s, fun final hle _ hc => hc.imp_right fun h => h (hle.locals ?_)⟩
    exact List.contains_iff_mem.1 hlocal
  · cases hentry : Keyed.get? name globals with
    | some symbol =>
      cases symbol with
      | function id isAsync =>
        cases isAsync with
        | true => exact .tainted s
        | false =>
          refine hgood (.call s id) fun final hle hfinal => ⟨?_, ?_, ?_⟩
          · intro id' isAsync h
            rw [hentry] at h
            cases h
            exact ⟨rfl, hfinal.calls _ (hle.calls (.head _))⟩
          · intro ty h
            rw [hentry] at h
            cases h
          · intro b h
            rw [hentry] at h
            cases h
      | value ty =>
        dsimp only
        split
        · exact .tainted s
        · rename_i hopaque
          refine hgood (.refl s) fun final hle hfinal => ⟨?_, ?_, ?_⟩
          · intro id' isAsync h
            rw [hentry] at h
            cases h
          · intro ty' h
            rw [hentry] at h
            cases h
            exact Bool.eq_false_iff.2 hopaque
          · intro b h
            rw [hentry] at h
            cases h
    | none =>
      have hnone : (∀ b, Builtin.ofName? name = some b → isHarmless b.effect = true) →
          Referable isPure globals name := by
        intro h
        refine ⟨fun id isAsync h' => ?_, fun ty h' => ?_, fun b _ => h b⟩
        · rw [hentry] at h'
          cases h'
        · rw [hentry] at h'
          cases h'
      dsimp only
      cases hb : Builtin.ofName? name with
      | some b =>
        dsimp only
        split
        · rename_i hharmless
          refine hgood (.refl s) fun _ _ _ => hnone fun b' h => ?_
          rw [hb] at h
          cases h
          exact hharmless
        · exact .tainted s
      | none =>
        dsimp only
        split
        · refine hgood (.refl s) fun _ _ _ => hnone fun b h => ?_
          rw [hb] at h
          cases h
        · exact .tainted s

mutual

theorem summarize_scanned (e : Expr) (bound : List String) (s : Summary) :
    Scanned isPure globals (fun good => e.Confined good bound) s (summarize globals e s) := by
  cases e with
  | literal _ _ => exact .nothing s
  | name _ n => exact refer_scanned isPure globals bound n s
  | list _ items => exact summarizeAll_scanned items bound s
  | tuple _ items => exact summarizeAll_scanned items bound s
  | map _ entries => exact summarizeEntries_scanned entries bound s
  | record _ _ fields => exact summarizeFields_scanned fields bound s
  | variant _ _ _ args => exact summarizeAll_scanned args bound s
  | update _ target fields =>
    exact .seq (summarize_scanned target bound s) (summarizeFields_scanned fields bound _)
  | select _ target _ => exact summarize_scanned target bound s
  | index _ target i =>
    exact .seq (summarize_scanned target bound s) (summarize_scanned i bound _)
  | call _ callee args =>
    exact .seq (summarize_scanned callee bound s) (summarizeAll_scanned args bound _)
  | method _ receiver m args =>
    exact .seq (refer_scanned isPure globals bound m s)
      (.seq (summarize_scanned receiver bound _) (summarizeAll_scanned args bound _))
  | binary _ _ lhs rhs =>
    exact .seq (summarize_scanned lhs bound s) (summarize_scanned rhs bound _)
  | unary _ _ operand => exact summarize_scanned operand bound s
  | branch _ test whenTrue whenFalse =>
    exact .seq (summarize_scanned test bound s)
      (.seq (summarize_scanned whenTrue bound _) (summarizeOptional_scanned whenFalse bound _))
  | cases _ scrutinee arms =>
    exact .after (.bind s _)
      (.seq (summarize_scanned scrutinee bound _) (summarizeArms_scanned arms bound _))
  | block _ stmts tail =>
    exact .after (.bind s _)
      (.seq (summarizeStmts_scanned stmts bound _) (summarizeOptional_scanned tail _ _))
  | closure _ decl => exact summarizeFunction_scanned decl bound s
  | async _ _ => exact .tainted s
  | await _ _ => exact .tainted s
  | attempt _ inner => exact summarize_scanned inner bound s
termination_by structural e

theorem summarizeOptional_scanned (e : Option Expr) (bound : List String) (s : Summary) :
    Scanned isPure globals (fun good => Expr.OptionConfined good bound e) s
      (summarizeOptional globals e s) := by
  cases e with
  | none => exact .nothing s
  | some e => exact summarize_scanned e bound s
termination_by structural e

theorem summarizeAll_scanned (es : List Expr) (bound : List String) (s : Summary) :
    Scanned isPure globals (fun good => Expr.AllConfined good bound es) s
      (summarizeAll globals es s) := by
  cases es with
  | nil => exact .nothing s
  | cons e rest =>
    exact .seq (summarize_scanned e bound s) (summarizeAll_scanned rest bound _)
termination_by structural es

theorem summarizeEntries_scanned (entries : List (String × Expr)) (bound : List String)
    (s : Summary) :
    Scanned isPure globals (fun good => Expr.EntriesConfined good bound entries) s
      (summarizeEntries globals entries s) := by
  cases entries with
  | nil => exact .nothing s
  | cons entry rest =>
    obtain ⟨_, e⟩ := entry
    exact .seq (summarize_scanned e bound s) (summarizeEntries_scanned rest bound _)
termination_by structural entries

theorem summarizeFields_scanned (fields : List FieldInit) (bound : List String) (s : Summary) :
    Scanned isPure globals (fun good => Expr.FieldsConfined good bound fields) s
      (summarizeFields globals fields s) := by
  cases fields with
  | nil => exact .nothing s
  | cons field rest =>
    obtain ⟨_, _, e⟩ := field
    exact .seq (summarize_scanned e bound s) (summarizeFields_scanned rest bound _)
termination_by structural fields

theorem summarizeArms_scanned (arms : List MatchArm) (bound : List String) (s : Summary) :
    Scanned isPure globals (fun good => Expr.ArmsConfined good bound arms) s
      (summarizeArms globals arms s) := by
  cases arms with
  | nil => exact .nothing s
  | cons arm rest =>
    obtain ⟨_, pattern, guard, body⟩ := arm
    exact .seq (summarizeOptional_scanned guard (pattern.names ++ bound) s)
      (.seq (summarize_scanned body (pattern.names ++ bound) _)
        (summarizeArms_scanned rest bound _))
termination_by structural arms

theorem summarizeStmts_scanned (stmts : List Stmt) (bound : List String) (s : Summary) :
    Scanned isPure globals (fun good => Expr.StmtsConfined good bound stmts) s
      (summarizeStmts globals stmts s) := by
  cases stmts with
  | nil => exact .nothing s
  | cons stmt rest => cases stmt with
    | bind _ pattern _ e =>
      exact .seq (summarize_scanned e bound s)
        (summarizeStmts_scanned rest (pattern.names ++ bound) _)
    | expr e => exact .seq (summarize_scanned e bound s) (summarizeStmts_scanned rest bound _)
termination_by structural stmts

theorem summarizeFunction_scanned (decl : FunctionDecl) (bound : List String) (s : Summary) :
    Scanned isPure globals (fun good => Expr.DeclConfined good bound decl) s
      (summarizeFunction globals decl s) := by
  obtain ⟨_, params, _, body, isAsync, _⟩ := decl
  have hbody : ∀ s : Summary, Scanned isPure globals
      (fun good => body.Confined good (params.map Param.name ++ bound)) s
      (summarize globals body (s.bind (params.map Param.name))) :=
    fun s => .after (.bind s _) (summarize_scanned body _ _)
  cases isAsync with
  | true => exact .seq (.tainted s) (hbody s.taint)
  | false => exact .seq (.bound fun _ _ _ => rfl) (hbody s)
termination_by structural decl

end

end StreamLang.Purity

/-! The functions that are marked as pure. Pruning ends at a list of functions which refer only to
functions of the list, and nothing in their bodies was found to have an effect. -/

namespace StreamLang

namespace Purity

theorem prune_subset (fs : List (FunctionId × Summary)) : prune fs ⊆ fs :=
  List.filter_sublist.subset

theorem pruneAll_subset (n : Nat) (fs : List (FunctionId × Summary)) : pruneAll n fs ⊆ fs := by
  induction n generalizing fs with
  | zero => exact List.Subset.refl _
  | succ n ih => exact List.Subset.trans (ih (prune fs)) (prune_subset fs)

theorem pruneAll_of_fixed {fs : List (FunctionId × Summary)} (h : prune fs = fs) (n : Nat) :
    pruneAll n fs = fs := by
  induction n with
  | zero => rfl
  | succ n ih => rw [pruneAll, h, ih]

/-- A round that changes something removes a function, so there are enough rounds. -/
theorem prune_pruneAll {n : Nat} {fs : List (FunctionId × Summary)} (h : fs.length ≤ n) :
    prune (pruneAll n fs) = pruneAll n fs := by
  induction n generalizing fs with
  | zero =>
    rw [List.length_eq_zero_iff.1 (Nat.le_zero.1 h)]
    rfl
  | succ n ih =>
    rw [pruneAll]
    by_cases hfixed : prune fs = fs
    · rw [hfixed, pruneAll_of_fixed hfixed, hfixed]
    · have hshorter : (prune fs).length < fs.length := by
        refine Nat.lt_of_le_of_ne (List.length_filter_le _ _) fun hlen => hfixed ?_
        exact List.filter_sublist.eq_of_length hlen
      exact ih (by omega)

/-- A function that is marked as pure has a summary without an effect, and refers only to functions
that are marked as pure. -/
theorem harmless_of_mem {summaries : List (FunctionId × Summary)} {id : FunctionId}
    (h : id ∈ pureFunctions summaries) :
    ∃ f ∈ summaries, f.1 = id ∧ f.2.Harmless (· ∈ pureFunctions summaries) := by
  obtain ⟨f, hf, rfl⟩ := List.mem_map.1 h
  have hstart := pruneAll_subset _ _ hf
  obtain ⟨hmem, heffect⟩ := List.mem_filter.1 hstart
  refine ⟨f, hmem, rfl, by simpa using heffect, fun id hid => ?_⟩
  have hfixed := prune_pruneAll (List.length_filter_le (fun f => !f.2.effectful) summaries)
  rw [← hfixed, prune] at hf
  have hcalls := List.all_eq_true.1 (List.mem_filter.1 hf).2 id hid
  obtain ⟨g, hg, hgid⟩ := List.any_eq_true.1 hcalls
  exact List.mem_map.2 ⟨g, hg, eq_of_beq hgid⟩

/-- No name that is bound somewhere in the function stands outside the scope of its bindings, unless
for something harmless. -/
def Scoped (isPure : FunctionId → Prop) (globals : Globals) (decl : FunctionDecl) : Prop :=
  Expr.DeclConfined
    (fun n => n ∈ (summarizeFunction globals decl .start).locals → Referable isPure globals n) []
    decl

theorem confined_of_harmless {isPure : FunctionId → Prop} {globals : Globals}
    {decl : FunctionDecl} (h : (summarizeFunction globals decl .start).Harmless isPure)
    (hscoped : Scoped isPure globals decl) :
    Expr.DeclConfined (Referable isPure globals) [] decl :=
  (summarizeFunction_scanned isPure globals decl [] .start).sound _ (.refl _) h hscoped

end Purity

namespace Check

/-- The modules that `checkUnits` goes through, each with what its names refer to. -/
def checkTables : List ModuleUnit → Exports → CheckM (List (ModuleUnit × Globals))
  | [], _ => return []
  | u :: rest, exports => do
    let r ← checkUnit exports u
    let tables ← checkTables rest (Keyed.insert u.name r.2 exports)
    return (u, r.1) :: tables

/-- The summaries of all functions of the modules. -/
def tableSummaries (tables : List (ModuleUnit × Globals)) : List (FunctionId × Purity.Summary) :=
  tables.flatMap fun t => Purity.unitSummaries t.2 t.1

theorem checkUnits_eq (units : List ModuleUnit) (exports : Exports)
    (summaries : List (FunctionId × Purity.Summary)) :
    checkUnits units exports summaries =
      (fun tables => summaries ++ tableSummaries tables) <$> checkTables units exports := by
  induction units generalizing exports summaries with
  | nil => simp [checkUnits, checkTables, tableSummaries]
  | cons u rest ih => simp [checkUnits, checkTables, tableSummaries, ih, List.append_assoc]

theorem checkTables_units (units : List ModuleUnit) (exports : Exports) (s : State) :
    ((checkTables units exports).run s).1.map (·.1) = units := by
  induction units generalizing exports s with
  | nil => rfl
  | cons u rest ih =>
    have htail := ih (Keyed.insert u.name ((checkUnit exports u).run s).1.2 exports)
      ((checkUnit exports u).run s).2
    exact congrArg (u :: ·) htail

/-- The modules of a program, each with what its names refer to. -/
def tables (units : List ModuleUnit) : List (ModuleUnit × Globals) :=
  ((checkTables units []).run ⟨(collectSchemas units).table, .empty, #[]⟩).1

/-- What the names of a module refer to. -/
def globalsOf (units : List ModuleUnit) (module : String) : Globals :=
  (((tables units).find? (·.1.name == module)).map (·.2)).getD []

/-- No two modules have one name, and no two functions of a module do. -/
structure Distinct (units : List ModuleUnit) : Prop where
  modules : (units.map ModuleUnit.name).Nodup
  functions : ∀ u ∈ units, (u.functions.map FunctionDecl.displayName).Nodup

theorem pure_eq {units : List ModuleUnit} {checked : Checked} (h : program units = .ok checked) :
    checked.pure = Purity.pureFunctions (tableSummaries (tables units)) := by
  unfold program at h
  dsimp only at h
  split at h
  · split at h
    · cases h
    · cases h
      rw [checkUnits_eq]
      rfl
  · cases h

theorem globalsOf_of_mem {units : List ModuleUnit} (hdistinct : Distinct units)
    {t : ModuleUnit × Globals} (ht : t ∈ tables units) : globalsOf units t.1.name = t.2 := by
  have hnodup : ((tables units).map fun t => t.1.name).Nodup := by
    have hmap : (tables units).map (fun t => t.1.name) = units.map ModuleUnit.name := by
      conv_rhs => rw [← checkTables_units units [] ⟨(collectSchemas units).table, .empty, #[]⟩]
      rw [List.map_map]
      rfl
    rw [hmap]
    exact hdistinct.modules
  have hfind : ∃ t', (tables units).find? (·.1.name == t.1.name) = some t' :=
    Option.isSome_iff_exists.1 (List.find?_isSome.2 ⟨t, ht, beq_self_eq_true _⟩)
  obtain ⟨t', ht'⟩ := hfind
  have hfound := List.find?_some ht'
  have hname : t'.1.name = t.1.name := eq_of_beq hfound
  have heq := List.inj_on_of_nodup_map hnodup (List.mem_of_find?_eq_some ht') ht hname
  rw [globalsOf, ht', heq]
  rfl

/-- A function of the program that is marked as pure has a harmless body. -/
theorem harmless_of_marked {units : List ModuleUnit} {checked : Checked}
    (hcheck : program units = .ok checked) (hdistinct : Distinct units) {u : ModuleUnit}
    (hu : u ∈ units) {decl : FunctionDecl} (hdecl : decl ∈ u.functions)
    (hmarked : ⟨u.name, decl.displayName⟩ ∈ checked.pure) :
    (Purity.summarizeFunction (globalsOf units u.name) decl .start).Harmless (· ∈ checked.pure) := by
  rw [pure_eq hcheck] at hmarked ⊢
  obtain ⟨f, hf, hid, hharmless⟩ := Purity.harmless_of_mem hmarked
  obtain ⟨t, ht, hsummary⟩ := List.mem_flatMap.1 hf
  obtain ⟨decl', hdecl', rfl⟩ := List.mem_map.1 hsummary
  obtain ⟨hmodule, hname⟩ := FunctionId.mk.inj hid
  have hunits := checkTables_units units [] ⟨(collectSchemas units).table, .empty, #[]⟩
  have ht' : t.1 ∈ units := by
    rw [← hunits]
    exact List.mem_map_of_mem ht
  have hunit : t.1 = u := List.inj_on_of_nodup_map hdistinct.modules ht' hu hmodule
  rw [hunit] at hdecl'
  have hsame := List.inj_on_of_nodup_map (hdistinct.functions u hu) hdecl' hdecl hname
  rw [← hunit, globalsOf_of_mem hdistinct ht, ← hsame]
  exact hharmless

end Check

end StreamLang
