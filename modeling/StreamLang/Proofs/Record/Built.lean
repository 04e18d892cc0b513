import StreamLang.Proofs.Charter.Evaluator
import StreamLang.Proofs.Lockstep.Diagonal

/-! What a construction makes of the values given for the fields, and an update of those of a record.
Neither depends on the order in which the fields are written. -/

namespace StreamLang

/-- The value given for the field, the first one if there are several. -/
def givenFor? (given : List (FieldInit × Value)) (field : String) : Option Value :=
  (given.find? (·.1.name == field)).map (·.2)

/-- The same value is given for every field, in whatever order. -/
def SameGiven (given given' : List (FieldInit × Value)) : Prop :=
  ∀ n, givenFor? given n = givenFor? given' n

/-- The value that replaces the field, the last one if there are several. -/
def replacement? (updates : List (FieldInit × Value)) (field : String) : Option Value :=
  givenFor? updates.reverse field

section

variable {given : List (FieldInit × Value)} {fields : List (String × Value)} {n : String} {v : Value}

theorem givenFor?_cons (g : FieldInit × Value) :
    givenFor? (g :: given) n = if g.1.name = n then some g.2 else givenFor? given n := by
  by_cases h : g.1.name = n <;> simp [givenFor?, h]

theorem givenFor?_eq_none : givenFor? given n = none ↔ ∀ g ∈ given, g.1.name ≠ n := by
  simp [givenFor?]

theorem givenFor?_append (xs ys : List (FieldInit × Value)) :
    givenFor? (xs ++ ys) n = (givenFor? xs n).or (givenFor? ys n) := by
  rw [givenFor?, List.find?_append, Option.map_or, givenFor?, givenFor?]

theorem givenFor?_eq_fieldOf? :
    givenFor? given n = fieldOf? n (given.map fun g => (g.1.name, g.2)) := by
  rw [givenFor?, fieldOf?, List.find?_map, Option.map_map]
  rfl

theorem replacement?_cons (u : FieldInit × Value) :
    replacement? (u :: given) n =
      (replacement? given n).or (if u.1.name = n then some u.2 else none) := by
  rw [replacement?, List.reverse_cons, givenFor?_append, givenFor?_cons]
  rfl

/-- Nothing is stored under a name that is not there. -/
theorem stored_eq_none {α : Type} {entries : List (String × α)} :
    (entries.find? (·.1 == n)).map (·.2) = none ↔ n ∉ entries.map (·.1) := by
  simp only [Option.map_eq_none_iff, List.find?_eq_none, beq_iff_eq, List.mem_map, not_exists, not_and]

theorem fieldOf?_eq_none : fieldOf? n fields = none ↔ n ∉ fields.map (·.1) := stored_eq_none

theorem mem_of_fieldOf?_eq_some (h : fieldOf? n fields = some v) : (n, v) ∈ fields := by
  obtain ⟨e, he, rfl⟩ := Option.map_eq_some_iff.1 h
  have hname := List.find?_some he
  rw [beq_iff_eq] at hname
  exact hname ▸ List.mem_of_find?_eq_some he

theorem fieldOf?_cons (e : String × Value) :
    fieldOf? n (e :: fields) = if e.1 = n then some e.2 else fieldOf? n fields := by
  by_cases h : e.1 = n <;> simp [fieldOf?, h]

theorem fieldOf?_of_mem (hnodup : (fields.map (·.1)).Nodup) (h : (n, v) ∈ fields) :
    fieldOf? n fields = some v := by
  induction fields with
  | nil => cases h
  | cons e rest ih =>
    obtain ⟨hfresh, hnodup⟩ := List.nodup_cons.1 hnodup
    rw [fieldOf?_cons]
    rcases List.mem_cons.1 h with rfl | h
    · exact if_pos rfl
    · have hmem : n ∈ rest.map (·.1) := List.mem_map_of_mem (f := (·.1)) h
      have hne : e.1 ≠ n := by
        rintro rfl
        exact hfresh hmem
      rw [if_neg hne]
      exact ih hnodup h

/-- Where each field is given once, the order does not matter. -/
theorem sameGiven_of_perm {given' : List (FieldInit × Value)}
    (h : (given.map fun g => (g.1.name, g.2)).Perm (given'.map fun g => (g.1.name, g.2)))
    (hnodup : (given.map (·.1.name)).Nodup) : SameGiven given given' := by
  have hnames : ((given.map fun g => (g.1.name, g.2)).map (·.1)).Nodup := by
    rwa [List.map_map]
  intro n
  rw [givenFor?_eq_fieldOf?, givenFor?_eq_fieldOf?]
  refine Option.ext fun v => ⟨fun hv => ?_, fun hv => ?_⟩
  · exact fieldOf?_of_mem ((h.map _).nodup hnames) (h.mem_iff.1 (mem_of_fieldOf?_eq_some hv))
  · exact fieldOf?_of_mem hnames (h.mem_iff.2 (mem_of_fieldOf?_eq_some hv))

theorem fieldOf?_setField (m : String) (hm : (fieldOf? m fields).isSome = true) :
    fieldOf? n (setField m v fields) = if m = n then some v else fieldOf? n fields := by
  induction fields with
  | nil => cases hm
  | cons e rest ih =>
    rw [fieldOf?_cons] at hm
    rw [setField]
    by_cases he : e.1 = m
    · rw [if_pos he, fieldOf?_cons, fieldOf?_cons, he]
      split <;> rfl
    · rw [if_neg he] at hm
      rw [if_neg he, fieldOf?_cons, fieldOf?_cons, ih hm]
      by_cases hn : m = n
      · rw [if_pos hn, if_neg fun h => he (h.trans hn.symm), if_pos hn]
      · rw [if_neg hn, if_neg hn]

/-- Fields of the same names with the same values are the same. -/
theorem fields_eq {fields' : List (String × Value)} (hnames : fields.map (·.1) = fields'.map (·.1))
    (hnodup : (fields.map (·.1)).Nodup) (h : ∀ n, fieldOf? n fields = fieldOf? n fields') :
    fields = fields' := by
  induction fields generalizing fields' with
  | nil => exact (List.map_eq_nil_iff.1 hnames.symm).symm
  | cons e rest ih =>
    cases fields' with
    | nil => cases hnames
    | cons e' rest' =>
      obtain ⟨hname, hrest⟩ := List.cons.inj hnames
      obtain ⟨hfresh, hnodup⟩ := List.nodup_cons.1 hnodup
      have hhead := h e.1
      rw [fieldOf?_cons, fieldOf?_cons, if_pos rfl, if_pos hname.symm] at hhead
      refine List.cons_eq_cons.2 ⟨Prod.ext hname (Option.some.inj hhead), ih hrest hnodup fun n => ?_⟩
      by_cases hn : e.1 = n
      · rw [← hn, fieldOf?_eq_none.2 hfresh, fieldOf?_eq_none.2 (hrest ▸ hfresh)]
      · have hn' := h n
        rwa [fieldOf?_cons, fieldOf?_cons, if_neg hn,
          if_neg fun heq => hn (hname.trans heq)] at hn'

end

namespace Recur

variable {γ : Type} {r : Recur γ} {name : String} {given given' : List (FieldInit × Value)}

theorem declaredFields_ok {fields : List (String × Ty)} {found : List (String × Value)}
    {s t : Interpreter γ} (h : r.declaredFields name given fields s = .ok found t) :
    found.map (·.1) = fields.map (·.1) ∧ ∀ e ∈ found, givenFor? given e.1 = some e.2 := by
  induction fields generalizing found s with
  | nil =>
    cases h
    exact ⟨rfl, List.forall_mem_nil _⟩
  | cons field rest ih =>
    rw [declaredFields] at h
    cases hg : given.find? (·.1.name == field.1) with
    | none =>
      rw [hg] at h
      cases h
    | some g =>
      rw [hg] at h
      obtain ⟨⟨⟩, s₁, -, h⟩ := Eval.bind_eq_ok h
      obtain ⟨more, s₂, hmore, h⟩ := Eval.bind_eq_ok h
      cases h
      obtain ⟨hnames, hgiven⟩ := ih hmore
      refine ⟨congrArg (field.1 :: ·) hnames, List.forall_mem_cons.2 ⟨?_, hgiven⟩⟩
      rw [givenFor?, hg]
      rfl

/-- A construction gives each field that is declared the value given for it, and no other value is
given. -/
theorem buildRecord_ok {v : Value} {s t : Interpreter γ} (h : r.buildRecord name given s = .ok v t) :
    ∃ schema fields, s.schemas.record? name = some schema ∧ v = .record name fields ∧
      fields.map (·.1) = schema.fields.map (·.1) ∧ ∀ n, fieldOf? n fields = givenFor? given n := by
  rw [buildRecord, Eval.get_bind_apply] at h
  cases hschema : s.schemas.record? name with
  | none =>
    rw [hschema] at h
    cases h
  | some schema =>
    rw [hschema] at h
    obtain ⟨fields, s₁, hfields, h⟩ := Eval.bind_eq_ok h
    obtain ⟨hnames, hgiven⟩ := declaredFields_ok hfields
    cases hextra : given.find? fun g => (schema.field? g.1.name).isNone with
    | some extra =>
      rw [hextra] at h
      cases h
    | none =>
      rw [hextra] at h
      cases h
      refine ⟨schema, fields, rfl, rfl, hnames, fun n => ?_⟩
      cases hfield : fieldOf? n fields with
      | some w => exact (hgiven (n, w) (mem_of_fieldOf?_eq_some hfield)).symm
      | none =>
        -- What is given for another name would be reported.
        refine (givenFor?_eq_none.2 fun g hg heq => ?_).symm
        have hknown := List.find?_eq_none.1 hextra g hg
        rw [fieldOf?_eq_none, hnames] at hfield
        rw [heq, RecordSchema.field?, Option.isNone_iff_eq_none, stored_eq_none] at hknown
        exact hknown hfield

/-- An update keeps the names of the fields and their order, and replaces just the fields that it
names, all of which there are. -/
theorem updateFields_ok {updates : List (FieldInit × Value)} {fields found : List (String × Value)}
    {s t : Interpreter γ} (h : r.updateFields name updates fields s = .ok found t) :
    found.map (·.1) = fields.map (·.1) ∧
      ∀ n, fieldOf? n found = (replacement? updates n).or (fieldOf? n fields) := by
  induction updates generalizing fields s with
  | nil =>
    cases h
    exact ⟨rfl, fun n => rfl⟩
  | cons u rest ih =>
    rw [updateFields] at h
    split at h
    · cases h
    · rename_i hthere
      have hgo : ∃ s₁, r.updateFields name rest (setField u.1.name u.2 fields) s₁ = .ok found t := by
        rw [Eval.get_bind_apply] at h
        cases hty : (s.schemas.record? name).bind (·.field? u.1.name) with
        | none =>
          rw [hty] at h
          exact ⟨s, h⟩
        | some ty =>
          rw [hty] at h
          obtain ⟨⟨⟩, s₁, -, h⟩ := Eval.bind_eq_ok h
          exact ⟨s₁, h⟩
      obtain ⟨s₁, hgo⟩ := hgo
      obtain ⟨hnames, hfields⟩ := ih hgo
      refine ⟨hnames.trans (setField_names _ _ _), fun n => ?_⟩
      have hsome : (fieldOf? u.1.name fields).isSome = true := by
        rwa [Bool.not_eq_true, Option.isNone_eq_false_iff] at hthere
      rw [hfields, fieldOf?_setField _ hsome, replacement?_cons]
      by_cases hn : u.1.name = n
      · rw [if_pos hn, if_pos hn, Option.or_assoc]
        rfl
      · rw [if_neg hn, if_neg hn, Option.or_none]

-- the order in which the fields are written

/-- The lines of failures do not matter. -/
def unlined : Terms where
  permit := .all
  lines := False
  excused _ := False
  not_excused_early _ _ := id
  excused_locate _ _ := id

theorem self_unlined {α : Type} (x : Run γ α) : Eval.Agree unlined Eq (fun _ => True) x x := by
  rintro s _ rfl
  cases x s with
  | ok a t => exact .value ⟨rfl, trivial⟩ rfl
  | error u t => exact .unwinding (Terms.unwinds_refl _ Value.permitted_all u) rfl

theorem checkPredicate_unlined (n : String) (v : Value) (line line' : Nat) :
    Eval.Agree unlined Eq (fun _ => True) (r.checkPredicate n v line)
      (r.checkPredicate n v line') := by
  have hline : unlined.SameLine line line' := False.elim
  rintro s _ rfl
  rw [checkPredicate, checkPredicate, Eval.get_bind_apply, Eval.get_bind_apply]
  cases (s.schemas.typeAlias? n).bind AliasSchema.predicate with
  | none => exact .value ⟨rfl, trivial⟩ rfl
  | some predicate =>
    refine Eval.Agree.bind (.located (self_unlined (r.eval predicate _)) hline) (fun w _ => ?_) s s rfl
    split
    · exact .pure trivial
    · exact .failAt _ hline

mutual

/-- A check does not depend on the line that is to be blamed. -/
theorem checkRefinements_unlined (line line' : Nat) (ty : Ty) (v : Value) :
    Eval.Agree unlined Eq (fun _ => True) (r.checkRefinements line ty v)
      (r.checkRefinements line' ty v) := by
  cases ty with
  | refined n base =>
    rw [checkRefinements, checkRefinements]
    exact .bind (checkPredicate_unlined n v line line') fun _ _ =>
      checkRefinements_unlined line line' base v
  | list elem => cases v with
    | list items | set items => exact .forM fun w _ => checkRefinements_unlined line line' elem w
    | _ => exact .pure trivial
  | set elem => cases v with
    | list items | set items => exact .forM fun w _ => checkRefinements_unlined line line' elem w
    | _ => exact .pure trivial
  | option inner => cases v with
    | option held => cases held with
      | none => exact .pure trivial
      | some w => exact checkRefinements_unlined line line' inner w
    | _ => exact .pure trivial
  | tuple tys => cases v with
    | tuple items => exact checkItems_unlined line line' tys items
    | _ => exact .pure trivial
  | _ => exact .pure trivial
termination_by structural ty

theorem checkItems_unlined (line line' : Nat) (tys : List Ty) (vs : List Value) :
    Eval.Agree unlined Eq (fun _ => True) (r.checkItems line tys vs) (r.checkItems line' tys vs) := by
  cases tys with
  | nil => exact .pure trivial
  | cons ty tys => cases vs with
    | nil => exact .pure trivial
    | cons v vs =>
      rw [checkItems, checkItems]
      exact .bind (checkRefinements_unlined line line' ty v) fun _ _ =>
        checkItems_unlined line line' tys vs
termination_by structural tys

end

section

variable (hgiven : SameGiven given given')
include hgiven

theorem declaredFields_unlined (name : String) (fields : List (String × Ty)) :
    Eval.Agree unlined Eq (fun _ => True) (r.declaredFields name given fields)
      (r.declaredFields name given' fields) := by
  induction fields with
  | nil => exact .pure trivial
  | cons field rest ih =>
    have hfield := hgiven field.1
    unfold givenFor? at hfield
    rw [declaredFields, declaredFields]
    cases hg : given.find? (·.1.name == field.1) with
    | none =>
      rw [hg] at hfield
      rw [Option.map_eq_none_iff.1 hfield.symm]
      exact .fail _
    | some g =>
      rw [hg] at hfield
      obtain ⟨g', hg', hvalue⟩ := Option.map_eq_some_iff.1 hfield.symm
      rw [hg']
      dsimp only
      rw [hvalue]
      exact .bind (checkRefinements_unlined _ _ _ _) fun _ _ => .bind ih fun _ _ => .pure trivial

/-- Values are given for the same names. -/
theorem forall_names_of_same {P : String → Prop} (h : ∀ g ∈ given, P g.1.name) :
    ∀ g ∈ given', P g.1.name := by
  intro g' hg'
  have hsome : givenFor? given g'.1.name ≠ none := by
    rw [hgiven]
    exact fun hnone => givenFor?_eq_none.1 hnone g' hg' rfl
  by_contra hP
  exact hsome (givenFor?_eq_none.2 fun g hg heq => hP (heq ▸ h g hg))

/-- What a construction gives does not depend on the order of the fields. -/
theorem buildRecord_ok_of_same {v : Value} {s t : Interpreter γ}
    (h : r.buildRecord name given s = .ok v t) : r.buildRecord name given' s = .ok v t := by
  rw [buildRecord, Eval.get_bind_apply] at h ⊢
  cases hschema : s.schemas.record? name with
  | none =>
    rw [hschema] at h
    cases h
  | some schema =>
    rw [hschema] at h
    obtain ⟨fields, s₁, hfields, h⟩ := Eval.bind_eq_ok h
    have hends := declaredFields_unlined (r := r) hgiven name schema.fields s s rfl
    rw [hfields] at hends
    have hfields' : r.declaredFields name given' schema.fields s = .ok fields s₁ := by
      generalize r.declaredFields name given' schema.fields s = end' at hends
      cases hends with
      | value hsame hstate => rw [hsame.1, hstate]
    refine (Eval.bind_of_ok hfields').trans ?_
    cases hextra : given.find? fun g => (schema.field? g.1.name).isNone with
    | some extra =>
      rw [hextra] at h
      cases h
    | none =>
      have hknown : ∀ g ∈ given', ¬(schema.field? g.1.name).isNone = true :=
        forall_names_of_same (P := fun n => ¬(schema.field? n).isNone = true) hgiven
          (List.find?_eq_none.1 hextra)
      rw [hextra] at h
      rw [List.find?_eq_none.2 hknown]
      exact h

end

end Recur

end StreamLang
