import Mathlib.Data.List.Nodup
import StreamLang.Proofs.Alias.Rounds

/-! The shapes in the table of types are those that the program declares, with no field twice, when no
problem is found with the declarations. -/

namespace StreamLang

/-- A module declares the record. -/
def HasRecord (units : List ModuleUnit) (d : RecordDecl) : Prop :=
  ∃ u ∈ units, ∃ i ∈ u.program.items, i.kind = .record d

/-- The program declares just one record of this name; it has these fields in this order, each once. -/
def DeclaresRecord (units : List ModuleUnit) (name : String) (fields : List String) : Prop :=
  ∃ d, HasRecord units d ∧ d.name = name ∧ (∀ other, HasRecord units other → other.name = name →
    other = d) ∧ d.fields.map FieldDecl.name = fields ∧ fields.Nodup

namespace Check

namespace Collection

-- problems are never taken back

theorem foldl_clean {α : Type} {step : Collection → α → Collection}
    (hstep : ∀ c x, (step c x).faults = [] → c.faults = []) {xs : List α} {c : Collection}
    (h : (xs.foldl step c).faults = []) : c.faults = [] := by
  induction xs generalizing c with
  | nil => exact h
  | cons x xs ih => exact hstep c x (ih h)

theorem resolveType_clean {c : Collection} {ty : TypeExpr}
    (h : (c.resolveType ty).1.faults = []) : c.faults = [] := by
  unfold resolveType at h
  split at h
  · exact h
  · exact (List.append_eq_nil_iff.1 h).1

theorem report_not_clean (c : Collection) (fault : CheckFault) (span : Span) :
    (c.report fault span).faults ≠ [] := by
  simp [report]

theorem resolveTypes_clean {tys : List TypeExpr} {c : Collection}
    (h : (resolveTypes tys c).1.faults = []) : c.faults = [] := by
  induction tys generalizing c with
  | nil => exact h
  | cons t rest ih => exact resolveType_clean (ih h)

theorem resolveVariants_clean {enum : String} {variants : List VariantDecl} {seen : List String}
    {done : List (String × Option Ty)} {c : Collection}
    (h : (resolveVariants enum variants seen done c).1.faults = []) : c.faults = [] := by
  induction variants generalizing seen done c with
  | nil => exact h
  | cons v rest ih =>
    rw [resolveVariants] at h
    split at h
    · exact absurd (ih h) (report_not_clean c _ _)
    · exact resolveTypes_clean (ih h)

theorem resolveEnum_clean {c : Collection} {d : EnumDecl} (h : (c.resolveEnum d).faults = []) :
    c.faults = [] := by
  unfold resolveEnum at h
  dsimp only at h
  split at h <;> exact resolveVariants_clean h

theorem resolveEnum_records (c : Collection) (d : EnumDecl) :
    (c.resolveEnum d).table.records = c.table.records := by
  have h := congrArg SchemaTable.records (resolveVariants_table d.name d.variants [] [] c)
  unfold resolveEnum
  dsimp only
  split <;> exact h

/-- Without a problem the fields are those that are written, and none comes twice. -/
theorem resolveFields_names {record : String} {fields : List FieldDecl} {seen : List String}
    {done : List (String × Ty)} {c : Collection}
    (h : (resolveFields record fields seen done c).1.faults = []) :
    c.faults = [] ∧ (fields.map FieldDecl.name).Nodup ∧ (∀ f ∈ fields, f.name ∉ seen) ∧
      (resolveFields record fields seen done c).2.map (·.1) =
        done.map (·.1) ++ fields.map FieldDecl.name := by
  induction fields generalizing seen done c with
  | nil => exact ⟨h, List.nodup_nil, List.forall_mem_nil _, (List.append_nil _).symm⟩
  | cons f rest ih =>
    rw [resolveFields] at h ⊢
    split at h
    · exact absurd (ih h).1 (report_not_clean c _ _)
    · rename_i hseen
      obtain ⟨hclean, hnodup, hfresh, hnames⟩ := ih h
      have hnew : f.name ∉ rest.map FieldDecl.name := fun hmem => by
        obtain ⟨other, hother, hname⟩ := List.mem_map.1 hmem
        exact hfresh other hother (hname ▸ .head _)
      refine ⟨resolveType_clean hclean, List.nodup_cons.2 ⟨hnew, hnodup⟩, ?_, ?_⟩
      · refine List.forall_mem_cons.2 ⟨by simpa using hseen, fun other hother hmem => ?_⟩
        exact hfresh other hother (.tail _ hmem)
      · rw [if_neg hseen, hnames, List.map_append, List.append_assoc]
        rfl

/-- No name is registered twice without a problem. -/
theorem register_clean {c : Collection} {i : Item} (h : (c.register i).faults = []) :
    c.faults = [] ∧ ∀ n, i.typeName? = some n → c.table.isTypeName n = false := by
  unfold register at h
  unfold Item.typeName?
  cases hkind : i.kind with
  | record d | enum d | typeAlias d =>
    rw [hkind] at h
    dsimp only at h
    split at h
    · exact absurd h (report_not_clean c _ _)
    · rename_i hnew
      refine ⟨h, ?_⟩
      rintro n ⟨⟩
      exact Bool.eq_false_iff.2 hnew
  | _ =>
    rw [hkind] at h
    refine ⟨h, ?_⟩
    rintro n ⟨⟩

theorem isTypeName_of_knows {t : SchemaTable} {i : Item} (h : t.Knows i.kind) {n : String}
    (hn : i.typeName? = some n) : t.isTypeName n = true := by
  rw [Item.typeName?] at hn
  obtain ⟨d, hkind, rfl⟩ | ⟨d, hkind, rfl⟩ | ⟨d, hkind, rfl⟩ := ItemKind.typeName?_eq_some.1 hn
  all_goals rw [hkind] at h
  · exact by rw [SchemaTable.isTypeName, show Keyed.contains d.name t.records = true from h]; rfl
  · exact by rw [SchemaTable.isTypeName, show Keyed.contains d.name t.enums = true from h.2]; simp
  · obtain ⟨base, hentry⟩ := h.2.2
    have hcontains : Keyed.contains d.name t.aliases = true := congrArg Option.isSome hentry
    rw [SchemaTable.isTypeName, hcontains]
    simp

theorem registered_distinct {items : List Item} {c : Collection}
    (h : (items.foldl register c).faults = []) : c.faults = [] ∧ DistinctTypes items ∧
      ∀ n ∈ items.filterMap Item.typeName?, c.table.isTypeName n = false := by
  induction items generalizing c with
  | nil => exact ⟨h, List.nodup_nil, List.forall_mem_nil _⟩
  | cons i rest ih =>
    obtain ⟨hclean, hdistinct, hfresh⟩ := ih h
    obtain ⟨hbefore, hnew⟩ := register_clean hclean
    refine ⟨hbefore, ?_, fun n hn => ?_⟩
    · rw [DistinctTypes]
      cases hi : i.typeName? with
      | none => rwa [List.filterMap_cons_none hi]
      | some n =>
        rw [List.filterMap_cons_some hi]
        refine List.nodup_cons.2 ⟨fun hmem => ?_, hdistinct⟩
        have hknown := isTypeName_of_knows (register_knows hnew) hi
        exact Bool.false_ne_true ((hfresh n hmem).symm.trans hknown)
    · by_cases hi : i.typeName? = some n
      · exact hnew n hi
      · have hrest : n ∈ rest.filterMap Item.typeName? := by
          obtain ⟨j, hj, hname⟩ := List.mem_filterMap.1 hn
          rcases List.mem_cons.1 hj with rfl | hj
          · exact absurd hname hi
          · exact List.mem_filterMap.2 ⟨j, hj, hname⟩
        exact (register_agreeOn hi).isTypeName.symm.trans (hfresh n hrest)

-- the table of records

theorem resolveRecord_faults {c : Collection} {d : RecordDecl} (h : (c.resolveRecord d).faults = []) :
    (resolveFields d.name d.fields [] [] c).1.faults = [] := by
  unfold resolveRecord at h
  dsimp only at h
  split at h <;> exact h

/-- The schema is that of a declaration. -/
def OfDecl (decls : List RecordDecl) (name : String) (schema : RecordSchema) : Prop :=
  ∃ d ∈ decls, d.name = name ∧ (d.fields.map FieldDecl.name).Nodup ∧
    schema.fields.map (·.1) = d.fields.map FieldDecl.name

/-- Every record in the table is resolved, or is still to be. -/
def Resolved (decls rest : List RecordDecl) (c : Collection) : Prop :=
  ∀ name schema, c.table.record? name = some schema →
    OfDecl decls name schema ∨ name ∈ rest.map RecordDecl.name

theorem Resolved.step {decls rest : List RecordDecl} {d : RecordDecl} {c : Collection}
    (hd : d ∈ decls) (h : Resolved decls (d :: rest) c) (hclean : (c.resolveRecord d).faults = []) :
    Resolved decls rest (c.resolveRecord d) := by
  have htable := resolveFields_table d.name d.fields [] [] c
  obtain ⟨-, hnodup, -, hnames⟩ := resolveFields_names (resolveRecord_faults hclean)
  unfold resolveRecord
  dsimp only
  intro name schema hschema
  by_cases hname : name = d.name
  · subst hname
    refine .inl ⟨d, hd, rfl, hnodup, ?_⟩
    split at hschema
    · rw [SchemaTable.record?, Keyed.get?_insert_self] at hschema
      cases hschema
      exact hnames
    · rename_i habsent
      rw [SchemaTable.record?] at hschema
      exact absurd (congrArg Option.isSome hschema) habsent
  · have hold : c.table.record? name = some schema := by
      rw [← htable]
      split at hschema
      · rwa [SchemaTable.record?, Keyed.get?_insert_of_ne hname] at hschema
      · exact hschema
    refine (h name schema hold).imp_right fun hmem => ?_
    exact (List.mem_cons.1 hmem).resolve_left hname

theorem resolveRecord_clean (c : Collection) (d : RecordDecl) (h : (c.resolveRecord d).faults = []) :
    c.faults = [] :=
  (resolveFields_names (resolveRecord_faults h)).1

theorem Resolved.all {decls rest : List RecordDecl} {c : Collection} (hrest : ∀ d ∈ rest, d ∈ decls)
    (h : Resolved decls rest c) (hclean : (rest.foldl resolveRecord c).faults = []) :
    Resolved decls [] (rest.foldl resolveRecord c) := by
  induction rest generalizing c with
  | nil => exact h
  | cons d rest ih =>
    obtain ⟨hd, hrest⟩ := List.forall_mem_cons.1 hrest
    exact ih hrest (h.step hd (foldl_clean resolveRecord_clean hclean)) hclean

-- what comes before the records

theorem setAlias_same (c : Collection) (name : String) (base : Ty) :
    (c.setAlias name base).faults = c.faults ∧
      (c.setAlias name base).table.records = c.table.records := by
  unfold setAlias
  split <;> exact ⟨rfl, rfl⟩

theorem resolveAliasSilently_same (c : Collection) (d : AliasDecl) :
    (c.resolveAliasSilently d).faults = c.faults ∧
      (c.resolveAliasSilently d).table.records = c.table.records := by
  unfold resolveAliasSilently
  split <;> exact setAlias_same c d.name _

theorem resolveAlias_records (c : Collection) (d : AliasDecl) :
    (c.resolveAlias d).table.records = c.table.records :=
  (setAlias_same _ d.name _).2.trans (congrArg SchemaTable.records (resolveType_table d.ty))

theorem resolveAlias_clean (c : Collection) (d : AliasDecl) (h : (c.resolveAlias d).faults = []) :
    c.faults = [] :=
  resolveType_clean ((setAlias_same _ d.name _).1.symm.trans h)

theorem foldl_records {α : Type} {step : Collection → α → Collection}
    (hstep : ∀ c x, (step c x).table.records = c.table.records) (xs : List α) (c : Collection) :
    (xs.foldl step c).table.records = c.table.records := by
  induction xs generalizing c with
  | nil => rfl
  | cons x xs ih => exact (ih _).trans (hstep c x)

/-- The table when all names are registered and the aliases are resolved. -/
def afterAliases (items : List Item) : Collection :=
  (aliasDecls items).foldl resolveAlias ((aliasDecls items).foldl resolveAliasSilently
    ((aliasDecls items).foldl resolveAliasSilently (items.foldl register ⟨.empty, []⟩)))

theorem afterAliases_records (items : List Item) :
    (afterAliases items).table.records = (items.foldl register ⟨.empty, []⟩).table.records := by
  have hsilent := foldl_records fun c d => (resolveAliasSilently_same c d).2
  have hlast := foldl_records fun c d => resolveAlias_records c d
  exact (hlast _ _).trans ((hsilent _ _).trans (hsilent _ _))

theorem afterAliases_clean {items : List Item} (h : (afterAliases items).faults = []) :
    (items.foldl register ⟨.empty, []⟩).faults = [] := by
  have hsilent : ∀ c d, (resolveAliasSilently c d).faults = [] → c.faults = [] :=
    fun c d hc => (resolveAliasSilently_same c d).1.symm.trans hc
  exact foldl_clean hsilent (foldl_clean hsilent (foldl_clean resolveAlias_clean h))

theorem register_records {c : Collection} {i : Item} {name : String}
    (h : Keyed.contains name (c.register i).table.records = true) :
    Keyed.contains name c.table.records = true ∨ ∃ d, recordDecl? i = some d ∧ d.name = name := by
  unfold register at h
  unfold recordDecl?
  cases hkind : i.kind with
  | record d =>
    rw [hkind] at h
    dsimp only at h
    split at h
    · exact .inl h
    · by_cases hname : d.name = name
      · exact .inr ⟨d, rfl, hname⟩
      · exact .inl ((contains_insert_of_ne (Ne.symm hname) _ _).symm.trans h)
  | enum d | typeAlias d =>
    rw [hkind] at h
    dsimp only at h
    split at h <;> exact .inl h
  | _ =>
    rw [hkind] at h
    exact .inl h

/-- Only names of records are registered as such. -/
theorem registered_records {items : List Item} {c : Collection} {name : String}
    (h : Keyed.contains name (items.foldl register c).table.records = true) :
    Keyed.contains name c.table.records = true ∨
      name ∈ (items.filterMap recordDecl?).map RecordDecl.name := by
  induction items generalizing c with
  | nil => exact .inl h
  | cons i rest ih =>
    have hcons : ∀ {d}, d ∈ rest.filterMap recordDecl? → d ∈ (i :: rest).filterMap recordDecl? :=
      fun hd => ((List.sublist_cons_self i rest).filterMap _).subset hd
    rcases ih h with hold | hmem
    · refine (register_records hold).imp_right ?_
      rintro ⟨d, hd, hname⟩
      exact List.mem_map.2 ⟨d, List.mem_filterMap.2 ⟨i, .head _, hd⟩, hname⟩
    · obtain ⟨d, hd, hname⟩ := List.mem_map.1 hmem
      exact .inr (List.mem_map.2 ⟨d, hcons hd, hname⟩)

end Collection

theorem recordDecl?_eq_some {i : Item} {d : RecordDecl} :
    recordDecl? i = some d ↔ i.kind = .record d := by
  unfold recordDecl?
  split <;> simp_all

theorem recordDecls_sublist (items : List Item) :
    ((items.filterMap recordDecl?).map RecordDecl.name).Sublist (items.filterMap Item.typeName?) := by
  induction items with
  | nil => exact .slnil
  | cons i rest ih =>
    cases hi : recordDecl? i with
    | some d =>
      have hname : i.typeName? = some d.name := by
        rw [Item.typeName?, recordDecl?_eq_some.1 hi]
        rfl
      rw [List.filterMap_cons_some hi, List.filterMap_cons_some hname]
      exact ih.cons_cons d.name
    | none =>
      rw [List.filterMap_cons_none hi]
      exact ih.trans ((List.sublist_cons_self i rest).filterMap _)

theorem hasRecord_iff {units : List ModuleUnit} {d : RecordDecl} :
    HasRecord units d ↔ d ∈ (itemsOf units).filterMap recordDecl? := by
  simp only [HasRecord, itemsOf, List.mem_filterMap, List.mem_flatMap, recordDecl?_eq_some]
  constructor
  · rintro ⟨u, hu, i, hi, hkind⟩
    exact ⟨i, ⟨u, hu, hi⟩, hkind⟩
  · rintro ⟨i, ⟨u, hu, hi⟩, hkind⟩
    exact ⟨u, hu, i, hi, hkind⟩

open Collection in
/-- The shape of every record in the table is declared. -/
theorem collectSchemas_declared {units : List ModuleUnit} (hclean : (collectSchemas units).faults = [])
    {name : String} {schema : RecordSchema}
    (h : (collectSchemas units).table.record? name = some schema) :
    DeclaresRecord units name (schema.fields.map (·.1)) := by
  have hall : collectSchemas units = ((itemsOf units).filterMap enumDecl?).foldl resolveEnum
      (((itemsOf units).filterMap recordDecl?).foldl resolveRecord
        (afterAliases (itemsOf units))) := rfl
  rw [hall] at hclean
  rw [hall, SchemaTable.record?, foldl_records resolveEnum_records] at h
  have hrecords := foldl_clean (fun _ _ => resolveEnum_clean) hclean
  have hdistinct := (registered_distinct (afterAliases_clean
    (foldl_clean resolveRecord_clean hrecords))).2.1
  have hstart : Resolved ((itemsOf units).filterMap recordDecl?)
      ((itemsOf units).filterMap recordDecl?) (afterAliases (itemsOf units)) := by
    intro n schema hschema
    rw [SchemaTable.record?, afterAliases_records] at hschema
    exact .inr ((registered_records (congrArg Option.isSome hschema)).resolve_left nofun)
  rcases Resolved.all (fun _ => id) hstart hrecords name schema h with hdecl | hmem
  · obtain ⟨d, hd, hname, hnodup, hfields⟩ := hdecl
    refine ⟨d, hasRecord_iff.2 hd, hname, fun other hother heq => ?_, hfields.symm, hfields ▸ hnodup⟩
    have hnames := (recordDecls_sublist (itemsOf units)).nodup hdistinct
    exact List.inj_on_of_nodup_map hnames (hasRecord_iff.1 hother) hd (heq.trans hname.symm)
  · exact absurd hmem List.not_mem_nil

end Check

end StreamLang
