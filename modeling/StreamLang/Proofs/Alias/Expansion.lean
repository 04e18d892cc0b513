import StreamLang.Check.Schemas

/-! What an alias stands for, whatever the order of the declarations: each plain alias is replaced
by its own expansion, and one with a predicate becomes a refinement of it. A table that holds the
expansions of the aliases an expression names gives the expression its expansion. -/

namespace StreamLang

/-- The name has no built-in meaning, so it is the name of a declared type if it is one at all. -/
def Declarable (name : String) : Prop :=
  SchemaTable.empty.resolveNamed name [] = .error (.unknownType name)

/-- The name of the type that is declared. -/
def ItemKind.typeName? : ItemKind → Option String
  | .record d => some d.name
  | .enum d => some d.name
  | .typeAlias d => some d.name
  | _ => none

def Item.typeName? (i : Item) : Option String := i.kind.typeName?

theorem ItemKind.typeName?_eq_some {k : ItemKind} {n : String} : k.typeName? = some n ↔
    (∃ d, k = .record d ∧ d.name = n) ∨ (∃ d, k = .enum d ∧ d.name = n) ∨
      ∃ d, k = .typeAlias d ∧ d.name = n := by
  cases k <;> simp [typeName?]

namespace TypeExpr

mutual

/-- The names in a written type. -/
def names : TypeExpr → List String
  | tuple _ items => namesAll items
  | function _ params ret => namesAll params ++ names ret
  | named _ name args => name :: namesAll args

def namesAll : List TypeExpr → List String
  | [] => []
  | e :: rest => names e ++ namesAll rest

end

mutual

/-- All names exist, with as many arguments as they take. -/
def WellWritten (items : List Item) : TypeExpr → Prop
  | tuple _ es => AllWellWritten items es
  | function _ params ret => AllWellWritten items params ∧ WellWritten items ret
  | named _ name args =>
    AllWellWritten items args ∧ args.length = SchemaTable.argumentCount name ∧
      (Declarable name → name ∈ items.filterMap Item.typeName?)

def AllWellWritten (items : List Item) : List TypeExpr → Prop
  | [] => True
  | e :: rest => WellWritten items e ∧ AllWellWritten items rest

end

end TypeExpr

mutual

/-- The type that a written type stands for by the declarations in `items`. Their order plays no
part. -/
inductive Expansion (items : List Item) : TypeExpr → Ty → Prop
  | tuple {span es ts} (h : ExpansionAll items es ts) : Expansion items (.tuple span es) (.tuple ts)
  | function {span params ret ps r} (hparams : ExpansionAll items params ps)
      (hret : Expansion items ret r) :
      Expansion items (.function span params ret) (.function ps r)
  | builtIn {span name args ts t} (h : ExpansionAll items args ts)
      (hname : SchemaTable.empty.resolveNamed name ts = .ok t) :
      Expansion items (.named span name args) t
  | declared {span name i t} (hname : Declarable name) (hi : i ∈ items)
      (hdecl : i.typeName? = some name) (h : DeclaredExpansion items i.kind t) :
      Expansion items (.named span name []) t

/-- The type that a declaration lets its name stand for. -/
inductive DeclaredExpansion (items : List Item) : ItemKind → Ty → Prop
  | record {d} : DeclaredExpansion items (.record d) (.record d.name)
  | enum {d} : DeclaredExpansion items (.enum d) (.enum d.name)
  | plain {d t} (hnone : d.predicate = none) (h : Expansion items d.ty t) :
      DeclaredExpansion items (.typeAlias d) t
  | refined {d t} (hsome : d.predicate.isSome) (h : Expansion items d.ty t) :
      DeclaredExpansion items (.typeAlias d) (.refined d.name t)

inductive ExpansionAll (items : List Item) : List TypeExpr → List Ty → Prop
  | nil : ExpansionAll items [] []
  | cons {e es t ts} (h : Expansion items e t) (hs : ExpansionAll items es ts) :
      ExpansionAll items (e :: es) (t :: ts)

end

/-- No two types are declared under one name. -/
def DistinctTypes (items : List Item) : Prop := (items.filterMap Item.typeName?).Nodup

theorem DistinctTypes.tail {i : Item} {items : List Item} (h : DistinctTypes (i :: items)) :
    DistinctTypes items := by
  unfold DistinctTypes at h ⊢
  cases hi : i.typeName? with
  | none => rwa [List.filterMap_cons_none hi] at h
  | some n =>
    rw [List.filterMap_cons_some hi] at h
    exact h.tail

theorem DistinctTypes.eq_of_typeName? {items : List Item} (h : DistinctTypes items) {i i' : Item}
    (hi : i ∈ items) (hi' : i' ∈ items) {n : String} (hn : i.typeName? = some n)
    (hn' : i'.typeName? = some n) : i = i' := by
  induction items with
  | nil => cases hi
  | cons first rest ih =>
    have hlater {j j' : Item} (hdistinct : DistinctTypes (j :: rest)) (hj : j.typeName? = some n)
        (hmem : j' ∈ rest) (hj' : j'.typeName? = some n) : False := by
      rw [DistinctTypes, List.filterMap_cons_some hj, List.nodup_cons] at hdistinct
      exact hdistinct.1 (List.mem_filterMap.2 ⟨j', hmem, hj'⟩)
    rcases List.mem_cons.1 hi with rfl | hr <;> rcases List.mem_cons.1 hi' with rfl | hr'
    · rfl
    · exact (hlater h hn hr' hn').elim
    · exact (hlater h hn' hr hn).elim
    · exact ih h.tail hr hr'

theorem ExpansionAll.length_eq {items : List Item} :
    ∀ {es : List TypeExpr} {ts : List Ty}, ExpansionAll items es ts → es.length = ts.length
  | [], _, .nil => rfl
  | _ :: _, _, .cons _ hs => congrArg (· + 1) hs.length_eq

theorem Declarable.not_builtIn {items : List Item} {name : String} {ts : List Ty} {t : Ty}
    (h : Declarable name) (hts : ExpansionAll items [] ts)
    (hok : SchemaTable.empty.resolveNamed name ts = .ok t) : False := by
  cases hts
  cases h.symm.trans hok

mutual

/-- A written type has no two expansions. -/
theorem Expansion.unique {items : List Item} (hdistinct : DistinctTypes items) {e : TypeExpr}
    {t t' : Ty} (h : Expansion items e t) (h' : Expansion items e t') : t = t' := by
  match h, h' with
  | .tuple h, .tuple h' => rw [ExpansionAll.unique hdistinct h h']
  | .function hp hr, .function hp' hr' =>
    rw [ExpansionAll.unique hdistinct hp hp', Expansion.unique hdistinct hr hr']
  | .builtIn h hname, .builtIn h' hname' =>
    rw [ExpansionAll.unique hdistinct h h', hname'] at hname
    exact (Except.ok.inj hname).symm
  | .builtIn h hok, .declared hname .. => exact (hname.not_builtIn h hok).elim
  | .declared hname .., .builtIn h hok => exact (hname.not_builtIn h hok).elim
  | .declared _ hi hdecl h, .declared _ hi' hdecl' h' =>
    cases hdistinct.eq_of_typeName? hi hi' hdecl hdecl'
    exact DeclaredExpansion.unique hdistinct h h'

theorem DeclaredExpansion.unique {items : List Item} (hdistinct : DistinctTypes items)
    {k : ItemKind} {t t' : Ty} (h : DeclaredExpansion items k t)
    (h' : DeclaredExpansion items k t') : t = t' := by
  match h, h' with
  | .record, .record => rfl
  | .enum, .enum => rfl
  | .plain _ h, .plain _ h' => exact Expansion.unique hdistinct h h'
  | .refined _ h, .refined _ h' => rw [Expansion.unique hdistinct h h']
  | .plain hnone _, .refined hsome _ => rw [hnone] at hsome; cases hsome
  | .refined hsome _, .plain hnone _ => rw [hnone] at hsome; cases hsome

theorem ExpansionAll.unique {items : List Item} (hdistinct : DistinctTypes items)
    {es : List TypeExpr} {ts ts' : List Ty} (h : ExpansionAll items es ts)
    (h' : ExpansionAll items es ts') : ts = ts' := by
  match h, h' with
  | .nil, .nil => rfl
  | .cons h hs, .cons h' hs' =>
    rw [Expansion.unique hdistinct h h', ExpansionAll.unique hdistinct hs hs']

end

mutual

/-- Only membership counts among the declarations. -/
theorem Expansion.of_subset {items items' : List Item} (hsub : ∀ i ∈ items, i ∈ items')
    {e : TypeExpr} {t : Ty} (h : Expansion items e t) : Expansion items' e t := by
  match h with
  | .tuple h => exact .tuple (ExpansionAll.of_subset hsub h)
  | .function hp hr => exact .function (ExpansionAll.of_subset hsub hp) (Expansion.of_subset hsub hr)
  | .builtIn h hname => exact .builtIn (ExpansionAll.of_subset hsub h) hname
  | .declared hname hi hdecl h =>
    exact .declared hname (hsub _ hi) hdecl (DeclaredExpansion.of_subset hsub h)

theorem DeclaredExpansion.of_subset {items items' : List Item} (hsub : ∀ i ∈ items, i ∈ items')
    {k : ItemKind} {t : Ty} (h : DeclaredExpansion items k t) : DeclaredExpansion items' k t := by
  match h with
  | .record => exact .record
  | .enum => exact .enum
  | .plain hnone h => exact .plain hnone (Expansion.of_subset hsub h)
  | .refined hsome h => exact .refined hsome (Expansion.of_subset hsub h)

theorem ExpansionAll.of_subset {items items' : List Item} (hsub : ∀ i ∈ items, i ∈ items')
    {es : List TypeExpr} {ts : List Ty} (h : ExpansionAll items es ts) :
    ExpansionAll items' es ts := by
  match h with
  | .nil => exact .nil
  | .cons h hs => exact .cons (Expansion.of_subset hsub h) (ExpansionAll.of_subset hsub hs)

end

namespace TypeExpr

mutual

theorem wellWritten_of_subset {items items' : List Item} (hsub : ∀ i ∈ items, i ∈ items')
    (e : TypeExpr) (h : e.WellWritten items) : e.WellWritten items' := by
  cases e with
  | tuple span es => exact allWellWritten_of_subset hsub es h
  | function span params ret =>
    exact ⟨allWellWritten_of_subset hsub params h.1, wellWritten_of_subset hsub ret h.2⟩
  | named span name args =>
    refine ⟨allWellWritten_of_subset hsub args h.1, h.2.1, fun hname => ?_⟩
    obtain ⟨i, hi, hn⟩ := List.mem_filterMap.1 (h.2.2 hname)
    exact List.mem_filterMap.2 ⟨i, hsub i hi, hn⟩

theorem allWellWritten_of_subset {items items' : List Item} (hsub : ∀ i ∈ items, i ∈ items')
    (es : List TypeExpr) (h : AllWellWritten items es) : AllWellWritten items' es := by
  cases es with
  | nil => trivial
  | cons e rest =>
    exact ⟨wellWritten_of_subset hsub e h.1, allWellWritten_of_subset hsub rest h.2⟩

end

end TypeExpr

namespace SchemaTable

/-- Built-in names mean the same over every table. -/
theorem resolveNamed_builtIn (t : SchemaTable) {name : String} {args : List Ty} {ty : Ty}
    (h : empty.resolveNamed name args = .ok ty) : t.resolveNamed name args = .ok ty := by
  unfold resolveNamed at h ⊢
  split
  · rename_i hlen
    rw [if_pos hlen] at h
    split at h <;> cases h
  · rename_i hlen
    rw [if_neg hlen] at h
    split at h <;> first | exact h | cases h

theorem resolveNamed_declarable (t : SchemaTable) {name : String} (h : Declarable name) :
    t.resolveNamed name [] = t.resolveDeclared name := by
  unfold Declarable resolveNamed at h
  unfold resolveNamed
  split
  · rename_i hlen
    rw [if_pos hlen] at h
    split at h <;> cases h
  · rename_i hlen
    rw [if_neg hlen] at h
    split at h <;> cases h
    rfl

/-- A name with the arguments it takes is built in, or it is left to the declarations. -/
theorem builtIn_or_declarable {name : String} {args : List Ty}
    (h : args.length = argumentCount name) :
    (∃ ty, empty.resolveNamed name args = .ok ty) ∨ args = [] ∧ Declarable name := by
  unfold resolveNamed
  rw [if_neg (fun hne => hne h)]
  split <;> first | exact .inl ⟨_, rfl⟩ | skip
  -- What is left is a name without a row of its own, and such a name takes no arguments.
  have hargs : args = [] := by
    unfold argumentCount at h
    split at h <;> rcases args with _ | ⟨a, _ | ⟨b, _ | ⟨c, more⟩⟩⟩ <;> simp_all
  subst hargs
  refine .inr ⟨rfl, ?_⟩
  unfold Declarable resolveNamed
  rw [if_neg (fun hne => hne h)]
  split <;> first | contradiction | rfl

/-- The table has the declared name in its place, and with it the predicate of an alias. -/
def Knows (t : SchemaTable) : ItemKind → Prop
  | .record d => Keyed.contains d.name t.records = true
  | .enum d => Keyed.contains d.name t.records = false ∧ Keyed.contains d.name t.enums = true
  | .typeAlias d =>
    Keyed.contains d.name t.records = false ∧ Keyed.contains d.name t.enums = false ∧
      ∃ base, t.typeAlias? d.name = some ⟨d.name, base, d.predicate⟩
  | _ => True

/-- The entry of the alias has its expansion. -/
def Expanded (t : SchemaTable) (items : List Item) (d : AliasDecl) : Prop :=
  ∃ base, t.typeAlias? d.name = some ⟨d.name, base, d.predicate⟩ ∧ Expansion items d.ty base

variable {t : SchemaTable} {items : List Item}

theorem resolveDeclared_expansion (ht : ∀ i ∈ items, t.Knows i.kind) {name : String}
    (hex : name ∈ items.filterMap Item.typeName?)
    (h : ∀ i ∈ items, ∀ d, i.kind = .typeAlias d → d.name = name → t.Expanded items d) :
    ∃ i ∈ items, i.typeName? = some name ∧
      ∃ ty, t.resolveDeclared name = .ok ty ∧ DeclaredExpansion items i.kind ty := by
  obtain ⟨i, hi, hdecl⟩ := List.mem_filterMap.1 hex
  refine ⟨i, hi, hdecl, ?_⟩
  have hknown := ht i hi
  unfold resolveDeclared
  obtain ⟨d, hkind, rfl⟩ | ⟨d, hkind, rfl⟩ | ⟨d, hkind, rfl⟩ := ItemKind.typeName?_eq_some.1 hdecl
  · rw [hkind] at hknown ⊢
    exact ⟨.record d.name, if_pos hknown, .record⟩
  · rw [hkind] at hknown ⊢
    obtain ⟨hr, he⟩ := hknown
    exact ⟨.enum d.name, by rw [hr, he]; rfl, .enum⟩
  · rw [hkind] at hknown ⊢
    obtain ⟨hr, he, -⟩ := hknown
    obtain ⟨base, hentry, hbase⟩ := h i hi d hkind rfl
    simp only [hr, he, hentry]
    cases hp : d.predicate with
    | none => exact ⟨base, rfl, .plain hp hbase⟩
    | some p => exact ⟨.refined d.name base, rfl, .refined (by rw [hp]; rfl) hbase⟩

mutual

/-- A table that holds the expansions of the aliases named in `e` gives `e` its expansion. -/
theorem resolve_expansion (ht : ∀ i ∈ items, t.Knows i.kind) (e : TypeExpr) (he : e.WellWritten items)
    (h : ∀ i ∈ items, ∀ d, i.kind = .typeAlias d → d.name ∈ e.names → Declarable d.name →
      t.Expanded items d) :
    ∃ ty, t.resolve e = .ok ty ∧ Expansion items e ty := by
  cases e with
  | tuple span es =>
    obtain ⟨ts, hts, hx⟩ := resolveAll_expansion ht es he h
    exact ⟨.tuple ts, by rw [resolve, hts]; rfl, .tuple hx⟩
  | function span params ret =>
    obtain ⟨ps, hps, hx⟩ := resolveAll_expansion ht params he.1
      fun i hi d hkind hn => h i hi d hkind (List.mem_append_left _ hn)
    obtain ⟨r, hr, hy⟩ := resolve_expansion ht ret he.2
      fun i hi d hkind hn => h i hi d hkind (List.mem_append_right _ hn)
    exact ⟨.function ps r, by rw [resolve, hps, hr]; rfl, .function hx hy⟩
  | named span name args =>
    obtain ⟨ts, hts, hx⟩ := resolveAll_expansion ht args he.1
      fun i hi d hkind hn => h i hi d hkind (.tail _ hn)
    obtain ⟨ty, hty⟩ | ⟨rfl, hname⟩ := builtIn_or_declarable (hx.length_eq.symm.trans he.2.1)
    · exact ⟨ty, by rw [resolve, hts]; exact resolveNamed_builtIn t hty, .builtIn hx hty⟩
    · obtain rfl : args = [] := List.eq_nil_of_length_eq_zero hx.length_eq
      obtain ⟨i, hi, hdecl, ty, hty, hz⟩ := resolveDeclared_expansion ht (he.2.2 hname)
        fun i hi d hkind hn => h i hi d hkind (hn ▸ .head _) (hn ▸ hname)
      exact ⟨ty, (resolveNamed_declarable t hname).trans hty, .declared hname hi hdecl hz⟩

theorem resolveAll_expansion (ht : ∀ i ∈ items, t.Knows i.kind) (es : List TypeExpr)
    (he : TypeExpr.AllWellWritten items es)
    (h : ∀ i ∈ items, ∀ d, i.kind = .typeAlias d → d.name ∈ TypeExpr.namesAll es →
      Declarable d.name → t.Expanded items d) :
    ∃ ts, t.resolveAll es = .ok ts ∧ ExpansionAll items es ts := by
  cases es with
  | nil => exact ⟨[], rfl, .nil⟩
  | cons e rest =>
    obtain ⟨ty, hty, hx⟩ := resolve_expansion ht e he.1
      fun i hi d hkind hn => h i hi d hkind (List.mem_append_left _ hn)
    obtain ⟨ts, hts, hxs⟩ := resolveAll_expansion ht rest he.2
      fun i hi d hkind hn => h i hi d hkind (List.mem_append_right _ hn)
    exact ⟨ty :: ts, by rw [resolveAll, hty, hts]; rfl, .cons hx hxs⟩

end

end SchemaTable

end StreamLang
