import StreamLang.Proofs.Alias.Expansion
import StreamLang.Proofs.Contents.Builtins

/-! The rounds in which aliases are resolved. A round goes through the aliases in the order of the
text, so it follows a chain of references backwards as far as it leads, and forwards one step. Three
rounds give every alias its expansion from which no chain leads forwards more than twice. -/

namespace StreamLang

/-- The alias is mentioned in the type of another. -/
def AliasDecl.MentionedBy (d' d : AliasDecl) : Prop := d'.name ∈ d.ty.names ∧ Declarable d'.name

/-- On every chain of references from the `i`-th alias at most `k` steps lead to the alias itself or
to a later one. In particular every chain ends. -/
inductive AheadAtMost (decls : List AliasDecl) : Nat → Nat → Prop
  | intro {k i d} (hd : decls[i]? = some d)
      (back : ∀ j d', decls[j]? = some d' → d'.MentionedBy d → j < i → AheadAtMost decls k j)
      (room : ∀ j d', decls[j]? = some d' → d'.MentionedBy d → i ≤ j → 0 < k)
      (ahead : ∀ j d', decls[j]? = some d' → d'.MentionedBy d → i ≤ j →
        AheadAtMost decls (k - 1) j) :
      AheadAtMost decls k i

theorem AheadAtMost.mono {decls : List AliasDecl} {k m i : Nat} (h : AheadAtMost decls k i)
    (hm : k ≤ m) : AheadAtMost decls m i := by
  induction h generalizing m with
  | intro hd _ room _ hback hahead =>
    refine .intro hd (fun j d' hj href hlt => hback j d' hj href hlt hm)
      (fun j d' hj href hle => ?_) (fun j d' hj href hle => hahead j d' hj href hle (by omega))
    exact Nat.lt_of_lt_of_le (room j d' hj href hle) hm

theorem AheadAtMost.forwards {decls : List AliasDecl} {k i m : Nat} {d : AliasDecl}
    (hd : decls[i]? = some d) (h : AheadAtMost decls k m) (him : i ≤ m)
    (honly : ∀ j d', decls[j]? = some d' → d'.name ∈ d.ty.names → j = m) :
    AheadAtMost decls (k + 1) i := by
  refine .intro hd (fun j d' hj href hlt => ?_) (fun _ _ _ _ _ => k.succ_pos)
    (fun j d' hj href _ => ?_)
  · have := honly j d' hj href.1
    omega
  · rw [honly j d' hj href.1]
    exact h

theorem AheadAtMost.backwards {decls : List AliasDecl} {k i m : Nat} {d : AliasDecl}
    (hd : decls[i]? = some d) (h : AheadAtMost decls k m) (hmi : m < i)
    (honly : ∀ j d', decls[j]? = some d' → d'.name ∈ d.ty.names → j = m) :
    AheadAtMost decls k i := by
  have hback {j : Nat} {d' : AliasDecl} (hj : decls[j]? = some d') (href : d'.MentionedBy d) :
      ¬ i ≤ j := by
    have := honly j d' hj href.1
    omega
  refine .intro hd (fun j d' hj href _ => ?_) (fun j d' hj href hle => absurd hle (hback hj href))
    (fun j d' hj href hle => absurd hle (hback hj href))
  rw [honly j d' hj href.1]
  exact h

theorem AheadAtMost.of_unmentioned {decls : List AliasDecl} {k i : Nat} {d : AliasDecl}
    (hd : decls[i]? = some d) (h : ∀ (j : Nat) d', decls[j]? = some d' → d'.name ∉ d.ty.names) :
    AheadAtMost decls k i :=
  .intro hd (fun j d' hj href _ => absurd href.1 (h j d' hj))
    (fun j d' hj href _ => absurd href.1 (h j d' hj))
    (fun j d' hj href _ => absurd href.1 (h j d' hj))

namespace Check

/-- The aliases in the order of their declarations. -/
def aliasDecls (items : List Item) : List AliasDecl := items.filterMap aliasDecl?

theorem aliasDecl?_eq_some {i : Item} {d : AliasDecl} :
    aliasDecl? i = some d ↔ i.kind = .typeAlias d := by
  unfold aliasDecl?
  split <;> simp_all

theorem mem_aliasDecls {items : List Item} {d : AliasDecl} :
    d ∈ aliasDecls items ↔ ∃ i ∈ items, i.kind = .typeAlias d := by
  simp only [aliasDecls, List.mem_filterMap, aliasDecl?_eq_some]

theorem aliasDecls_sublist (items : List Item) :
    ((aliasDecls items).map AliasDecl.name).Sublist (items.filterMap Item.typeName?) := by
  induction items with
  | nil => exact .slnil
  | cons i rest ih =>
    cases hk : i.kind with
    | typeAlias d =>
      have hd : aliasDecl? i = some d := aliasDecl?_eq_some.2 hk
      have hn : i.typeName? = some d.name := by rw [Item.typeName?, hk]; rfl
      rw [aliasDecls, List.filterMap_cons_some hd, List.filterMap_cons_some hn]
      exact ih.cons_cons d.name
    | _ =>
      have hd : aliasDecl? i = none := by rw [aliasDecl?, hk]
      rw [aliasDecls, List.filterMap_cons_none hd]
      refine ih.trans ((List.Sublist.refl _).trans ?_)
      exact (List.sublist_cons_self i rest).filterMap _

theorem position_unique {items : List Item} (h : DistinctTypes items) {i j : Nat}
    {d d' : AliasDecl} (hi : (aliasDecls items)[i]? = some d)
    (hj : (aliasDecls items)[j]? = some d') (hn : d.name = d'.name) : i = j := by
  have hnodup := (aliasDecls_sublist items).nodup h
  have hlt : i < ((aliasDecls items).map AliasDecl.name).length := by
    rw [List.length_map]
    exact (List.getElem?_eq_some_iff.1 hi).1
  refine (List.getElem?_inj hlt hnodup).1 ?_
  rw [List.getElem?_map, List.getElem?_map, hi, hj, Option.map_some, Option.map_some, hn]

/-- The items of all modules. -/
def itemsOf (units : List ModuleUnit) : List Item := units.flatMap (·.program.items)

/-- Each type is declared once, and the types behind the aliases name existing types. -/
structure WellDeclared (items : List Item) : Prop where
  distinct : DistinctTypes items
  written : ∀ d ∈ aliasDecls items, d.ty.WellWritten items

theorem WellDeclared.perm {items items' : List Item} (h : WellDeclared items)
    (hperm : items'.Perm items) : WellDeclared items' where
  distinct := (hperm.filterMap Item.typeName?).nodup_iff.2 h.distinct
  written := fun d hd => d.ty.wellWritten_of_subset (fun _ hi => hperm.mem_iff.2 hi)
    (h.written d ((hperm.filterMap aliasDecl?).mem_iff.1 hd))

namespace Collection

/-- One alias of a round: its entry gets the meaning of its type, if the table knows that. -/
def Resolves (step : Collection → AliasDecl → Collection) : Prop :=
  ∀ c d, ∃ base, (step c d).table = (c.setAlias d.name base).table ∧
    ∀ t, c.table.resolve d.ty = .ok t → base = t

theorem resolveAliasSilently_resolves : Resolves resolveAliasSilently := by
  intro c d
  cases h : c.table.resolve d.ty with
  | ok t => exact ⟨t, by rw [resolveAliasSilently, h], fun _ heq => Except.ok.inj heq⟩
  | error fault => exact ⟨.unknown, by rw [resolveAliasSilently, h], fun _ heq => nomatch heq⟩

theorem resolveAlias_resolves : Resolves resolveAlias := by
  intro c d
  cases h : c.table.resolve d.ty with
  | ok t => exact ⟨t, by rw [resolveAlias, resolveType, h], fun _ heq => Except.ok.inj heq⟩
  | error fault =>
    refine ⟨.unknown, ?_, fun _ heq => nomatch heq⟩
    rw [resolveAlias, resolveType, h]
    unfold setAlias report
    cases c.table.typeAlias? d.name <;> rfl

theorem setAlias_table {c : Collection} {name : String} {base : Ty} {a : AliasSchema}
    (h : c.table.typeAlias? name = some a) :
    (c.setAlias name base).table =
      { c.table with aliases := Keyed.insert name { a with base } c.table.aliases } := by
  rw [setAlias, h]

variable {c : Collection} {name : String} {base : Ty}

theorem typeAlias?_setAlias_self {a : AliasSchema} (h : c.table.typeAlias? name = some a) :
    (c.setAlias name base).table.typeAlias? name = some { a with base } := by
  rw [setAlias_table h]
  exact Keyed.get?_insert_self name _ _

theorem typeAlias?_setAlias_of_ne {other : String} (h : other ≠ name) :
    (c.setAlias name base).table.typeAlias? other = c.table.typeAlias? other := by
  cases ha : c.table.typeAlias? name with
  | none => rw [setAlias, ha]
  | some a =>
    rw [setAlias_table ha]
    exact Keyed.get?_insert_of_ne h _ _

theorem setAlias_records : (c.setAlias name base).table.records = c.table.records := by
  unfold setAlias
  split <;> rfl

theorem setAlias_enums : (c.setAlias name base).table.enums = c.table.enums := by
  unfold setAlias
  split <;> rfl

theorem setAlias_knows {k : ItemKind} (h : c.table.Knows k) :
    (c.setAlias name base).table.Knows k := by
  cases k with
  | record d => exact (congrArg (Keyed.contains d.name) setAlias_records).trans h
  | enum d =>
    exact ⟨(congrArg (Keyed.contains d.name) setAlias_records).trans h.1,
      (congrArg (Keyed.contains d.name) setAlias_enums).trans h.2⟩
  | typeAlias d =>
    obtain ⟨hr, he, b, hb⟩ := h
    refine ⟨(congrArg (Keyed.contains d.name) setAlias_records).trans hr,
      (congrArg (Keyed.contains d.name) setAlias_enums).trans he, ?_⟩
    by_cases hn : d.name = name
    · subst hn
      exact ⟨base, typeAlias?_setAlias_self hb⟩
    · exact ⟨b, (typeAlias?_setAlias_of_ne hn).trans hb⟩
  | _ => trivial

/-- The state of the aliases after `k` whole rounds and the first `p` aliases of the next one. -/
def Settled (items : List Item) (k p : Nat) (t : SchemaTable) : Prop :=
  ∀ i d, (aliasDecls items)[i]? = some d →
    (∃ m < k, AheadAtMost (aliasDecls items) m i) ∨
      i < p ∧ AheadAtMost (aliasDecls items) k i →
    t.Expanded items d

variable {items : List Item} {k : Nat} {step : Collection → AliasDecl → Collection}

/-- The aliases that the next one refers to are settled: those before it in this round, the others
in the round before. -/
theorem Settled.referred {t : SchemaTable} {p : Nat} (h : Settled items k p t) {d d' : AliasDecl}
    (hp : AheadAtMost (aliasDecls items) k p) (hd : (aliasDecls items)[p]? = some d)
    (hd' : d' ∈ aliasDecls items) (href : d'.MentionedBy d) : t.Expanded items d' := by
  obtain ⟨j, hj⟩ := List.getElem?_of_mem hd'
  obtain ⟨hdp, back, room, ahead⟩ := hp
  obtain rfl := Option.some.inj (hdp.symm.trans hd)
  rcases Nat.lt_or_ge j p with hlt | hge
  · exact h j d' hj (.inr ⟨hlt, back j d' hj href hlt⟩)
  · have hk := room j d' hj href hge
    exact h j d' hj (.inl ⟨k - 1, by omega, ahead j d' hj href hge⟩)

theorem Settled.next (hstep : Resolves step) (hitems : WellDeclared items) {p : Nat} {d : AliasDecl}
    (hd : (aliasDecls items)[p]? = some d) (hknown : ∀ i ∈ items, c.table.Knows i.kind)
    (h : Settled items k p c.table) : Settled items k (p + 1) (step c d).table := by
  obtain ⟨base, htable, hbase⟩ := hstep c d
  intro i e he hi
  rw [SchemaTable.Expanded, htable]
  by_cases hip : i = p
  · subst hip
    obtain rfl := Option.some.inj (hd.symm.trans he)
    have hahead : AheadAtMost (aliasDecls items) k i := by
      rcases hi with ⟨m, hm, ha⟩ | ⟨-, ha⟩
      · exact ha.mono (Nat.le_of_lt hm)
      · exact ha
    have hmem : d ∈ aliasDecls items := List.mem_of_getElem? hd
    obtain ⟨ty, hty, hx⟩ := SchemaTable.resolve_expansion hknown d.ty (hitems.written d hmem)
      fun i hi d' hkind hn hname =>
        h.referred hahead hd (mem_aliasDecls.2 ⟨i, hi, hkind⟩) ⟨hn, hname⟩
    obtain rfl := hbase ty hty
    obtain ⟨i, hi, hkind⟩ := mem_aliasDecls.1 hmem
    have hentry := hknown i hi
    rw [hkind] at hentry
    obtain ⟨-, -, b, hb⟩ := hentry
    exact ⟨base, typeAlias?_setAlias_self hb, hx⟩
  · have hne : e.name ≠ d.name := fun hn => hip (position_unique hitems.distinct he hd hn)
    rw [typeAlias?_setAlias_of_ne hne]
    refine h i e he (hi.imp_right fun ⟨hlt, ha⟩ => ⟨by omega, ha⟩)

theorem knows_step (hstep : Resolves step) (hknown : ∀ i ∈ items, c.table.Knows i.kind)
    (d : AliasDecl) : ∀ i ∈ items, (step c d).table.Knows i.kind := by
  obtain ⟨base, htable, -⟩ := hstep c d
  intro i hi
  rw [htable]
  exact setAlias_knows (hknown i hi)

/-- What is left of a round settles the aliases that are left. -/
theorem Settled.rest (hstep : Resolves step) (hitems : WellDeclared items) {todo : List AliasDecl} :
    ∀ {done : List AliasDecl} {c : Collection}, aliasDecls items = done ++ todo →
      (∀ i ∈ items, c.table.Knows i.kind) → Settled items k done.length c.table →
      (∀ i ∈ items, (todo.foldl step c).table.Knows i.kind) ∧
        Settled items k (aliasDecls items).length (todo.foldl step c).table := by
  induction todo with
  | nil =>
    intro done c heq hknown h
    rw [heq, List.append_nil]
    exact ⟨hknown, h⟩
  | cons d todo ih =>
    intro done c heq hknown h
    have hd : (aliasDecls items)[done.length]? = some d := by
      rw [heq, List.getElem?_append_right (Nat.le_refl _), Nat.sub_self]
      rfl
    have hnext : Settled items k (done ++ [d]).length (step c d).table := by
      rw [List.length_append]
      exact h.next hstep hitems hd hknown
    exact ih (by rw [heq, List.append_assoc]; rfl) (knows_step hstep hknown d) hnext

/-- A round settles what is one step further ahead. -/
theorem Settled.round (hstep : Resolves step) (hitems : WellDeclared items)
    (hknown : ∀ i ∈ items, c.table.Knows i.kind) (h : Settled items k 0 c.table) :
    (∀ i ∈ items, ((aliasDecls items).foldl step c).table.Knows i.kind) ∧
      Settled items (k + 1) 0 ((aliasDecls items).foldl step c).table := by
  obtain ⟨hknown', h'⟩ := Settled.rest hstep hitems (List.nil_append _).symm hknown h
  refine ⟨hknown', fun i d hd hi => h' i d hd ?_⟩
  rcases hi with ⟨m, hm, ha⟩ | ⟨hlt, -⟩
  · have hlen : i < (aliasDecls items).length := (List.getElem?_eq_some_iff.1 hd).1
    exact .inr ⟨hlen, ha.mono (by omega)⟩
  · exact absurd hlt (Nat.not_lt_zero i)

theorem contains_insert_self {α : Type} (n : String) (v : α) (m : List (String × α)) :
    Keyed.contains n (Keyed.insert n v m) = true := by
  rw [Keyed.contains, Keyed.get?_insert_self]
  rfl

theorem contains_insert_of_ne {α : Type} {n n' : String} (h : n' ≠ n) (v : α)
    (m : List (String × α)) :
    Keyed.contains n' (Keyed.insert n v m) = Keyed.contains n' m := by
  rw [Keyed.contains, Keyed.get?_insert_of_ne h, Keyed.contains]

/-- Both tables say the same about a name. -/
structure AgreeOn (t t' : SchemaTable) (n : String) : Prop where
  records : Keyed.contains n t'.records = Keyed.contains n t.records
  enums : Keyed.contains n t'.enums = Keyed.contains n t.enums
  aliases : t'.typeAlias? n = t.typeAlias? n

theorem AgreeOn.knows {t t' : SchemaTable} {n : String} (h : AgreeOn t t' n) {k : ItemKind}
    (hk : k.typeName? = some n) (hknown : t.Knows k) : t'.Knows k := by
  obtain ⟨d, rfl, rfl⟩ | ⟨d, rfl, rfl⟩ | ⟨d, rfl, rfl⟩ := ItemKind.typeName?_eq_some.1 hk
  · exact h.records.trans hknown
  · exact ⟨h.records.trans hknown.1, h.enums.trans hknown.2⟩
  · obtain ⟨hr, he, b, hb⟩ := hknown
    exact ⟨h.records.trans hr, h.enums.trans he, b, h.aliases.trans hb⟩

theorem AgreeOn.isTypeName {t t' : SchemaTable} {n : String} (h : AgreeOn t t' n) :
    t'.isTypeName n = t.isTypeName n := by
  have ha : Keyed.contains n t'.aliases = Keyed.contains n t.aliases :=
    congrArg Option.isSome h.aliases
  rw [SchemaTable.isTypeName, SchemaTable.isTypeName, h.records, h.enums, ha]

theorem register_agreeOn {i : Item} {n : String} (hn : i.typeName? ≠ some n) :
    AgreeOn c.table (c.register i).table n := by
  rw [Item.typeName?] at hn
  unfold register
  cases hk : i.kind with
  | record d =>
    have hne : n ≠ d.name := fun h => hn (by rw [hk, h]; rfl)
    simp only
    split
    · exact ⟨rfl, rfl, rfl⟩
    · exact ⟨contains_insert_of_ne hne _ _, rfl, rfl⟩
  | enum d =>
    have hne : n ≠ d.name := fun h => hn (by rw [hk, h]; rfl)
    simp only
    split
    · exact ⟨rfl, rfl, rfl⟩
    · exact ⟨rfl, contains_insert_of_ne hne _ _, rfl⟩
  | typeAlias d =>
    have hne : n ≠ d.name := fun h => hn (by rw [hk, h]; rfl)
    simp only
    split
    · exact ⟨rfl, rfl, rfl⟩
    · exact ⟨rfl, rfl, Keyed.get?_insert_of_ne hne _ _⟩
  | _ => exact ⟨rfl, rfl, rfl⟩

theorem register_knows {i : Item}
    (hfresh : ∀ n, i.typeName? = some n → c.table.isTypeName n = false) :
    (c.register i).table.Knows i.kind := by
  unfold register
  cases hk : i.kind with
  | record d =>
    have h := hfresh d.name (by rw [Item.typeName?, hk]; rfl)
    simp only [h]
    exact contains_insert_self _ _ _
  | enum d =>
    have h := hfresh d.name (by rw [Item.typeName?, hk]; rfl)
    simp only [h]
    rw [SchemaTable.isTypeName, Bool.or_eq_false_iff, Bool.or_eq_false_iff] at h
    exact ⟨h.1.1, contains_insert_self _ _ _⟩
  | typeAlias d =>
    have h := hfresh d.name (by rw [Item.typeName?, hk]; rfl)
    simp only [h]
    rw [SchemaTable.isTypeName, Bool.or_eq_false_iff, Bool.or_eq_false_iff] at h
    exact ⟨h.1.1, h.1.2, .unknown, Keyed.get?_insert_self _ _ _⟩
  | _ => trivial

/-- After registration the table knows every name that was declared once. -/
theorem registered_knows : ∀ (todo done : List Item) (c : Collection),
    DistinctTypes (done ++ todo) → (∀ i ∈ done, c.table.Knows i.kind) →
    (∀ n, c.table.isTypeName n = true → n ∈ done.filterMap Item.typeName?) →
    ∀ i ∈ done ++ todo, (todo.foldl register c).table.Knows i.kind
  | [], done, c, _, hknown, _ => by rwa [List.append_nil]
  | i :: todo, done, c, hdistinct, hknown, hnames => by
    have hsplit : done ++ i :: todo = (done ++ [i]) ++ todo := by rw [List.append_assoc]; rfl
    have hother {n : String} (hn : i.typeName? = some n) : n ∉ done.filterMap Item.typeName? := by
      rw [DistinctTypes, List.filterMap_append, List.filterMap_cons_some hn] at hdistinct
      exact fun hmem => (List.nodup_append.1 hdistinct).2.2 n hmem n (.head _) rfl
    rw [hsplit]
    refine registered_knows todo (done ++ [i]) (c.register i) (hsplit ▸ hdistinct) ?_ ?_
    · intro j hj
      rcases List.mem_append.1 hj with hj | hj
      · cases hm : j.kind.typeName? with
        | none =>
          revert hm
          cases j.kind <;> intro hm <;> trivial
        | some m =>
          refine (register_agreeOn fun hn => hother hn ?_).knows hm (hknown j hj)
          exact List.mem_filterMap.2 ⟨j, hj, hm⟩
      · obtain rfl := List.mem_singleton.1 hj
        exact register_knows fun n hn => Bool.eq_false_iff.2 fun h => hother hn (hnames n h)
    · intro n hn
      rw [List.filterMap_append, List.mem_append]
      by_cases hi : i.typeName? = some n
      · exact .inr (List.mem_filterMap.2 ⟨i, .head _, hi⟩)
      · exact .inl (hnames n ((register_agreeOn hi).isTypeName.symm.trans hn))

theorem resolveType_table (ty : TypeExpr) : (c.resolveType ty).1.table = c.table := by
  unfold resolveType
  split <;> rfl

theorem resolveTypes_table : ∀ (tys : List TypeExpr) (c : Collection),
    (resolveTypes tys c).1.table = c.table
  | [], _ => rfl
  | t :: rest, _ => (resolveTypes_table rest _).trans (resolveType_table t)

theorem resolveFields_table (record : String) : ∀ (fs : List FieldDecl) (seen : List String)
    (done : List (String × Ty)) (c : Collection),
    (resolveFields record fs seen done c).1.table = c.table
  | [], _, _, _ => rfl
  | f :: rest, seen, done, _ => by
    unfold resolveFields
    split
    · exact resolveFields_table record rest seen done _
    · exact (resolveFields_table record rest _ _ _).trans (resolveType_table f.ty)

theorem resolveVariants_table (enum : String) : ∀ (vs : List VariantDecl) (seen : List String)
    (done : List (String × Option Ty)) (c : Collection),
    (resolveVariants enum vs seen done c).1.table = c.table
  | [], _, _, _ => rfl
  | v :: rest, seen, done, c => by
    unfold resolveVariants
    split
    · exact resolveVariants_table enum rest seen done _
    · exact (resolveVariants_table enum rest _ _ _).trans (resolveTypes_table v.payload c)

theorem resolveRecord_aliases (d : RecordDecl) :
    (c.resolveRecord d).table.aliases = c.table.aliases := by
  have h := congrArg SchemaTable.aliases (resolveFields_table d.name d.fields [] [] c)
  unfold resolveRecord
  simp only
  split <;> exact h

theorem resolveEnum_aliases (d : EnumDecl) :
    (c.resolveEnum d).table.aliases = c.table.aliases := by
  have h := congrArg SchemaTable.aliases (resolveVariants_table d.name d.variants [] [] c)
  unfold resolveEnum
  simp only
  split <;> exact h

theorem foldl_aliases {α : Type} {step : Collection → α → Collection}
    (hstep : ∀ c x, (step c x).table.aliases = c.table.aliases) :
    ∀ (xs : List α) (c : Collection), (xs.foldl step c).table.aliases = c.table.aliases
  | [], _ => rfl
  | x :: xs, c => (foldl_aliases hstep xs (step c x)).trans (hstep c x)

end Collection

section

variable {units : List ModuleUnit} {i : Nat} {d : AliasDecl}

open Collection in
theorem expanded_of_aheadAtMost (hitems : WellDeclared (itemsOf units))
    (hd : (aliasDecls (itemsOf units))[i]? = some d)
    (h : AheadAtMost (aliasDecls (itemsOf units)) 2 i) :
    (collectSchemas units).table.Expanded (itemsOf units) d := by
  have hknown := registered_knows (itemsOf units) [] ⟨.empty, []⟩ hitems.distinct
    (fun _ h => nomatch h) (fun n hn => nomatch hn)
  have hnone : Settled (itemsOf units) 0 0 ((itemsOf units).foldl register ⟨.empty, []⟩).table := by
    rintro i d - (⟨m, hm, -⟩ | ⟨hlt, -⟩)
    · exact absurd hm (Nat.not_lt_zero m)
    · exact absurd hlt (Nat.not_lt_zero i)
  obtain ⟨hknown, honce⟩ := hnone.round resolveAliasSilently_resolves hitems hknown
  obtain ⟨hknown, htwice⟩ := honce.round resolveAliasSilently_resolves hitems hknown
  obtain ⟨-, hthrice⟩ := htwice.round resolveAlias_resolves hitems hknown
  obtain ⟨base, hentry, hx⟩ := hthrice i d hd (.inl ⟨2, by omega, h⟩)
  refine ⟨base, ?_, hx⟩
  rw [← hentry]
  -- The types of fields and payloads, which come after the rounds, leave the aliases alone.
  unfold collectSchemas SchemaTable.typeAlias?
  rw [foldl_aliases (fun c d => resolveEnum_aliases d),
    foldl_aliases (fun c d => resolveRecord_aliases d)]
  rfl

/-- An alias from which no chain of references leads forwards more than twice is stored with its
full expansion. So two orders of the declarations in which that holds store the same for it. -/
theorem collected_alias_expanded (hitems : WellDeclared (itemsOf units))
    (hd : (aliasDecls (itemsOf units))[i]? = some d)
    (h : AheadAtMost (aliasDecls (itemsOf units)) 2 i) :
    (collectSchemas units).table.Expanded (itemsOf units) d ∧
      ∀ units' j, (itemsOf units').Perm (itemsOf units) →
        (aliasDecls (itemsOf units'))[j]? = some d →
        AheadAtMost (aliasDecls (itemsOf units')) 2 j →
        (collectSchemas units').table.typeAlias? d.name =
          (collectSchemas units).table.typeAlias? d.name := by
  have hexp := expanded_of_aheadAtMost hitems hd h
  refine ⟨hexp, fun units' j hperm hj h' => ?_⟩
  have hitems' := hitems.perm hperm
  obtain ⟨base, hentry, hx⟩ := hexp
  obtain ⟨base', hentry', hx'⟩ := expanded_of_aheadAtMost hitems' hj h'
  rw [hentry, hentry', hx'.unique hitems'.distinct (hx.of_subset fun _ hi => hperm.mem_iff.2 hi)]

end

/-- `type Natural = Int where value >= 0;` -/
def natural : AliasDecl :=
  ⟨"Natural", .named .none "Int" [],
    some (.binary .none .ge (.name .none "value") (.literal .none (.int 0)))⟩

/-- `type <name> = <other>;` -/
def synonym (name other : String) : AliasDecl := ⟨name, .named .none other [], none⟩

def aliasUnit (decls : List AliasDecl) : ModuleUnit :=
  ⟨"main", ⟨decls.map fun d => ⟨.typeAlias d, false, .none⟩⟩, []⟩

/-- Each alias refers to the next one. -/
def shareUnit : ModuleUnit :=
  aliasUnit [synonym "Share" "Percent", synonym "Percent" "Natural", natural]

theorem shareUnit_wellDeclared : WellDeclared (itemsOf [shareUnit]) where
  distinct := by
    unfold DistinctTypes
    decide
  written := by
    rintro d (_ | ⟨_, _ | ⟨_, _ | ⟨_, hd⟩⟩⟩)
    · exact ⟨trivial, rfl, fun _ => by decide⟩
    · exact ⟨trivial, rfl, fun _ => by decide⟩
    · exact ⟨trivial, rfl, fun h => nomatch h⟩
    · cases hd

/-- The chain from `Share` leads forwards twice. -/
theorem shareUnit_ahead : AheadAtMost (aliasDecls (itemsOf [shareUnit])) 2 0 := by
  refine .forwards rfl (m := 1) (.forwards rfl (m := 2) (.of_unmentioned rfl ?_) (by omega) ?_)
    (by omega) ?_ <;> rintro (_ | _ | _ | j) d' hj <;> cases hj <;> decide

/-- Each alias refers to the one before it. -/
def sharedUnit : ModuleUnit :=
  aliasUnit [natural, synonym "Percent" "Natural", synonym "Share" "Percent"]

theorem sharedUnit_ahead : AheadAtMost (aliasDecls (itemsOf [sharedUnit])) 2 2 := by
  refine .backwards rfl (m := 1) (.backwards rfl (m := 0) (.of_unmentioned rfl ?_) (by omega) ?_)
    (by omega) ?_ <;> rintro (_ | _ | _ | j) d' hj <;> cases hj <;> decide

theorem share_expanded :
    (collectSchemas [shareUnit]).table.Expanded (itemsOf [shareUnit]) (synonym "Share" "Percent") ∧
      (collectSchemas [sharedUnit]).table.typeAlias? "Share" =
        (collectSchemas [shareUnit]).table.typeAlias? "Share" := by
  obtain ⟨hexp, horder⟩ :=
    collected_alias_expanded shareUnit_wellDeclared (i := 0) rfl shareUnit_ahead
  refine ⟨hexp, horder [sharedUnit] 2 ?_ rfl sharedUnit_ahead⟩
  exact List.reverse_perm (itemsOf [shareUnit])

/-- `Rate` is two steps further from `Natural`. -/
def rateUnit : ModuleUnit :=
  aliasUnit [synonym "Rate" "Quota", synonym "Quota" "Share", synonym "Share" "Percent",
    synonym "Percent" "Natural", natural]

theorem rateUnit_wellDeclared : WellDeclared (itemsOf [rateUnit]) where
  distinct := by
    unfold DistinctTypes
    decide
  written := by
    rintro d (_ | ⟨_, _ | ⟨_, _ | ⟨_, _ | ⟨_, _ | ⟨_, hd⟩⟩⟩⟩⟩)
    · exact ⟨trivial, rfl, fun _ => by decide⟩
    · exact ⟨trivial, rfl, fun _ => by decide⟩
    · exact ⟨trivial, rfl, fun _ => by decide⟩
    · exact ⟨trivial, rfl, fun _ => by decide⟩
    · exact ⟨trivial, rfl, fun h => nomatch h⟩
    · cases hd

theorem rateUnit_expansion :
    Expansion (itemsOf [rateUnit]) (synonym "Rate" "Quota").ty (.refined "Natural" .int) := by
  have step {name other : String} {t : Ty} (hname : Declarable name)
      (hmem : synonym name other ∈ aliasDecls (itemsOf [rateUnit]))
      (h : Expansion (itemsOf [rateUnit]) (.named .none other []) t) :
      Expansion (itemsOf [rateUnit]) (.named .none name []) t := by
    obtain ⟨i, hi, hkind⟩ := mem_aliasDecls.1 hmem
    refine .declared hname hi (by rw [Item.typeName?, hkind]; rfl) ?_
    rw [hkind]
    exact .plain rfl h
  have hnatural : (⟨.typeAlias natural, false, .none⟩ : Item) ∈ itemsOf [rateUnit] :=
    .tail _ (.tail _ (.tail _ (.tail _ (.head _))))
  refine step rfl (.tail _ (.head _)) (step rfl (.tail _ (.tail _ (.head _)))
    (step rfl (.tail _ (.tail _ (.tail _ (.head _)))) ?_))
  exact .declared rfl hnatural rfl (.refined rfl (.builtIn .nil rfl))

set_option maxRecDepth 2000 in
/-- Behind a chain that leads forwards four times nothing is known: `Rate` accepts any value, and
nothing checks that it is a natural number. -/
theorem rate_unknown :
    WellDeclared (itemsOf [rateUnit]) ∧
      Expansion (itemsOf [rateUnit]) (synonym "Rate" "Quota").ty (.refined "Natural" .int) ∧
      (collectSchemas [rateUnit]).faults = [] ∧
      (collectSchemas [rateUnit]).table.typeAlias? "Rate" = some ⟨"Rate", .unknown, none⟩ :=
  ⟨rateUnit_wellDeclared, rateUnit_expansion, rfl, rfl⟩

end Check

end StreamLang

/-! The predicates in the table of types are those that the program writes. -/

namespace StreamLang

/-- The predicates of the aliases in the table have the property. -/
def SchemaTable.Predicates (P : Expr → Prop) (t : SchemaTable) : Prop :=
  ∀ e ∈ t.aliases, ∀ p, e.2.predicate = some p → P p

theorem SchemaTable.Predicates.of_typeAlias? {P : Expr → Prop} {t : SchemaTable}
    (h : t.Predicates P) {name : String} {a : AliasSchema} (ha : t.typeAlias? name = some a)
    {p : Expr} (hp : a.predicate = some p) : P p :=
  h _ (Keyed.mem_of_get? ha) p hp

/-- The predicates of the aliases that the module declares have the property. -/
def ModuleUnit.Predicates (P : Expr → Prop) (u : ModuleUnit) : Prop :=
  ∀ i ∈ u.program.items, ∀ d, i.kind = .typeAlias d → ∀ p, d.predicate = some p → P p

namespace Check

namespace Collection

variable {P : Expr → Prop} {c : Collection} (hc : c.table.Predicates P)
include hc

theorem insert_predicates {name : String} {a : AliasSchema} (ha : ∀ p, a.predicate = some p → P p) :
    ∀ e ∈ Keyed.insert name a c.table.aliases, ∀ p, e.2.predicate = some p → P p :=
  Keyed.forall_insert (P := fun a : AliasSchema => ∀ p, a.predicate = some p → P p) ha hc

theorem register_predicates {i : Item}
    (hi : ∀ d, i.kind = .typeAlias d → ∀ p, d.predicate = some p → P p) :
    (c.register i).table.Predicates P := by
  obtain ⟨kind, exported, span⟩ := i
  unfold register
  cases kind with
  | typeAlias d =>
    dsimp only
    split
    · exact hc
    · exact insert_predicates hc (hi d rfl)
  | record d | enum d => dsimp only; split <;> exact hc
  | _ => exact hc

theorem setAlias_predicates (name : String) (base : Ty) :
    (c.setAlias name base).table.Predicates P := by
  unfold setAlias
  split
  · rename_i a ha
    exact insert_predicates hc fun p hp => hc.of_typeAlias? ha hp
  · exact hc

theorem round_predicates {step : Collection → AliasDecl → Collection} (hstep : Resolves step)
    (decls : List AliasDecl) : (decls.foldl step c).table.Predicates P :=
  List.foldlRecOn (motive := fun c => c.table.Predicates P) decls step hc fun c hc d _ => by
    obtain ⟨base, htable, -⟩ := hstep c d
    rw [htable]
    exact setAlias_predicates hc d.name base

/-- Records and enums have no predicates. -/
theorem predicates_of_aliases {c' : Collection} (h : c'.table.aliases = c.table.aliases) :
    c'.table.Predicates P := by
  unfold SchemaTable.Predicates
  rw [h]
  exact hc

end Collection

open Collection in
/-- What holds of the predicates that the modules write holds of those in the table. -/
theorem collectSchemas_predicates {P : Expr → Prop} {units : List ModuleUnit}
    (h : ∀ u ∈ units, u.Predicates P) : (collectSchemas units).table.Predicates P := by
  have hregistered : ((itemsOf units).foldl register ⟨.empty, []⟩).table.Predicates P := by
    refine List.foldlRecOn (motive := fun c : Collection => c.table.Predicates P) _ _
      (List.forall_mem_nil _) fun c hc i hi => register_predicates hc ?_
    obtain ⟨u, hu, hitem⟩ := List.mem_flatMap.1 hi
    exact h u hu i hitem
  have honce := round_predicates hregistered resolveAliasSilently_resolves
    (aliasDecls (itemsOf units))
  have htwice := round_predicates honce resolveAliasSilently_resolves (aliasDecls (itemsOf units))
  have haliases := round_predicates htwice resolveAlias_resolves (aliasDecls (itemsOf units))
  have hrecords := predicates_of_aliases haliases (foldl_aliases (fun _ => resolveRecord_aliases)
    ((itemsOf units).filterMap recordDecl?) _)
  exact predicates_of_aliases hrecords (foldl_aliases (fun _ => resolveEnum_aliases)
    ((itemsOf units).filterMap enumDecl?) _)

end Check

end StreamLang
