import Mathlib.Data.List.Induction
import StreamLang.Builtin.Collection
import StreamLang.Proofs.Equality.Equivalence

/-! Sets of values without floating-point numbers. Such values are of one kind when they are equal, so
that members of sets are compared like all values; a set is known by what it contains. -/

namespace StreamLang

namespace Value

/-- No floating-point number stands in the value, and no set in it holds a member twice. -/
abbrev Floatless (v : Value) : Prop := v.DrawnFrom .integers

/-- The values that equal none before them, in their order. -/
def firstOnes (vs : List Value) : List Value :=
  (vs.zipIdx.filter fun p => (vs.take p.2).all fun v => !v.equals p.1).map (·.1)

/-- The builtin finds the value in the collection. -/
def Contains (v x : Value) : Prop := CollectionOp.contains.apply [v, x] = .ok (.bool true)

/-- One of the values equals the given one. -/
def Holds (vs : List Value) (x : Value) : Prop := ∃ v ∈ vs, Same v x

variable {x y : Value} {vs ws : List Value}

instance (vs : List Value) (x : Value) : Decidable (Holds vs x) :=
  inferInstanceAs (Decidable (∃ v ∈ vs, Same v x))

/-! Members of one kind -/

def Form.kind : Form → Kind
  | text _ => .text
  | bool _ => .bool
  | void => .void
  | list => .list
  | tuple => .tuple
  | map _ => .map
  | record _ _ => .record
  | enum _ _ => .enum
  | option => .option
  | ok => .result
  | err => .result
  | future _ => .future
  | stream _ => .stream
  | function _ => .function

theorem kind_eq_of_form {v : Value} {f : Form} (h : v.form? = some f) : v.kind = f.kind := by
  cases v <;> cases h <;> rfl

theorem kind_eq_of_same (hx : x.Floatless) (hy : y.Floatless) (h : Same x y) : x.kind = y.kind := by
  rw [same_iff] at h
  cases h with
  | intFloat => exact hy.admitted.1.elim
  | floatInt => exact hx.admitted.1.elim
  | form h h' => rw [kind_eq_of_form h, kind_eq_of_form h']
  | _ => rfl

theorem sameMember_iff (hx : x.Floatless) (hy : y.Floatless) : x.sameMember y = true ↔ Same x y := by
  rw [sameMember, Bool.and_eq_true, sameKind, beq_iff_eq]
  exact and_iff_right_of_imp (kind_eq_of_same hx hy)

theorem Same.symm (hx : x.Floatless) (hy : y.Floatless) (h : Same x y) : Same y x :=
  (same_comm Numbers.integers_apart hx hy).1 h

theorem Same.trans {z : Value} (hx : x.Floatless) (hy : y.Floatless) (hz : z.Floatless)
    (h : Same x y) (h' : Same y z) : Same x z :=
  same_trans Numbers.integers_apart hx hy hz h h'

theorem any_sameMember_iff (hvs : ∀ v ∈ vs, v.Floatless) (hx : x.Floatless) :
    (vs.any (·.sameMember x)) = true ↔ Holds vs x := by
  rw [List.any_eq_true]
  exact exists_congr fun v => and_congr_right fun hv => sameMember_iff (hvs v hv) hx

theorem contains_set_iff (hvs : ∀ v ∈ vs, v.Floatless) (hx : x.Floatless) :
    Contains (set vs) x ↔ Holds vs x := by
  rw [← any_sameMember_iff hvs hx]
  simp [Contains, CollectionOp.apply, Value.contains]

@[simp] theorem holds_append : Holds (vs ++ ws) x ↔ Holds vs x ∨ Holds ws x := by
  simp only [Holds, List.mem_append, or_and_right, exists_or]

@[simp] theorem holds_singleton : Holds [y] x ↔ Same y x := by simp [Holds]

/-! Building a set -/

theorem addMember_eq (hvs : ∀ v ∈ vs, v.Floatless) (hx : x.Floatless) :
    addMember vs x = if Holds vs x then vs else vs ++ [x] := by
  simp only [addMember, any_sameMember_iff hvs hx]

/-- No member is there twice, whatever the values are. -/
theorem addMember_distinct (h : vs.Pairwise fun a b => a.sameMember b = false) (v : Value) :
    (addMember vs v).Pairwise fun a b => a.sameMember b = false := by
  unfold addMember
  split
  · exact h
  case isFalse hnone =>
    refine List.pairwise_append.2 ⟨h, List.pairwise_singleton _ _, fun a ha b hb => ?_⟩
    obtain rfl := List.mem_singleton.1 hb
    exact Bool.eq_false_iff.2 fun hsame => hnone (List.any_eq_true.2 ⟨a, ha, hsame⟩)

theorem members_distinct (vs : List Value) :
    (vs.foldl addMember []).Pairwise fun a b => a.sameMember b = false := by
  induction vs using List.reverseRecOn with
  | nil => exact .nil
  | append_singleton vs v ih =>
    rw [List.foldl_append]
    exact addMember_distinct ih v

theorem firstOnes_subset : firstOnes vs ⊆ vs := by
  intro v hv
  obtain ⟨p, hp, rfl⟩ := List.mem_map.1 hv
  exact List.fst_mem_of_mem_zipIdx (List.mem_filter.1 hp).1

theorem firstOnes_concat (vs : List Value) (v : Value) :
    firstOnes (vs ++ [v]) = if Holds vs v then firstOnes vs else firstOnes vs ++ [v] := by
  have hbefore : ∀ p ∈ vs.zipIdx, ((vs ++ [v]).take p.2).all (fun w => !w.equals p.1) =
      (vs.take p.2).all fun w => !w.equals p.1 := by
    intro p hp
    rw [List.take_append_of_le_length (Nat.le_of_lt (List.mem_zipIdx' hp).1)]
  have hnone : (vs.all fun w => !w.equals v) = !decide (Holds vs v) := by
    rw [Bool.eq_iff_iff, Bool.not_eq_true', decide_eq_false_iff_not]
    simp [Holds, Same]
  unfold firstOnes
  rw [List.zipIdx_append, List.filter_append, List.map_append, List.filter_congr hbefore]
  by_cases h : Holds vs v <;> simp [hnone, h]

theorem holds_firstOnes (hvs : ∀ v ∈ vs, v.Floatless) (hx : x.Floatless) :
    Holds (firstOnes vs) x ↔ Holds vs x := by
  induction vs using List.reverseRecOn with
  | nil => rfl
  | append_singleton vs v ih =>
    rw [List.forall_mem_append, List.forall_mem_singleton] at hvs
    rw [firstOnes_concat, holds_append, holds_singleton, ← ih hvs.1]
    split
    case isTrue hmember =>
      refine (or_iff_left_of_imp fun h => (ih hvs.1).2 ?_).symm
      obtain ⟨w, hw, hsame⟩ := hmember
      exact ⟨w, hw, hsame.trans (hvs.1 w hw) hvs.2 hx h⟩
    case isFalse => rw [holds_append, holds_singleton]

theorem setOf_eq (hvs : ∀ v ∈ vs, v.Floatless) : setOf vs = set (firstOnes vs) := by
  unfold setOf
  congr 1
  induction vs using List.reverseRecOn with
  | nil => rfl
  | append_singleton vs v ih =>
    rw [List.forall_mem_append, List.forall_mem_singleton] at hvs
    have hfirst : ∀ w ∈ firstOnes vs, w.Floatless := fun w hw => hvs.1 w (firstOnes_subset hw)
    rw [List.foldl_append, ih hvs.1, firstOnes_concat]
    simp only [List.foldl_cons, List.foldl_nil, addMember_eq hfirst hvs.2, holds_firstOnes hvs.1 hvs.2]

theorem floatless_firstOnes (hvs : ∀ v ∈ vs, v.Floatless) : (set (firstOnes vs)).Floatless := by
  have hdistinct := members_distinct vs
  rw [Value.set.inj (setOf_eq hvs)] at hdistinct
  exact drawnFrom_set.2 ⟨hdistinct, fun v hv => hvs v (firstOnes_subset hv)⟩

theorem pairwise_not_same (h : (set vs).Floatless) : vs.Pairwise fun v w => ¬Same v w := by
  refine List.Pairwise.imp_of_mem (fun {v w} hv hw hdistinct hsame => ?_) h.admitted
  rw [← sameMember_iff (h.member hv) (h.member hw), hdistinct] at hsame
  cases hsame

/-! Equality of sets -/

/-- Two sets are equal when each has the members of the other. -/
theorem same_set_iff (hvs : (set vs).Floatless) (hws : (set ws).Floatless) :
    Same (set vs) (set ws) ↔ (∀ v ∈ vs, Holds ws v) ∧ ∀ w ∈ ws, Holds vs w := by
  have hcomm : ∀ v ∈ vs, ∀ w ∈ ws, Same v w ↔ Same w v := fun v hv w hw =>
    same_comm Numbers.integers_apart (hvs.member hv) (hws.member hw)
  have hpartner : ∀ v ∈ vs, Holds ws v → ∃ w ∈ ws, w.kind = v.kind ∧ Same w v :=
    fun v hv ⟨w, hw, h⟩ => ⟨w, hw, kind_eq_of_same (hws.member hw) (hvs.member hv) h, h⟩
  have hpartner' : ∀ w ∈ ws, Holds vs w → ∃ v ∈ vs, v.kind = w.kind ∧ Same v w :=
    fun w hw ⟨v, hv, h⟩ => ⟨v, hv, kind_eq_of_same (hvs.member hv) (hws.member hw) h, h⟩
  rw [same_iff]
  constructor
  · intro h
    cases h with
    | set hlen h =>
      refine ⟨fun v hv => ?_, fun w hw => ?_⟩
      · obtain ⟨w, hw, -, hsame⟩ := h v hv
        exact ⟨w, hw, hsame⟩
      · obtain ⟨v, hv, -, hsame⟩ := set_flip Numbers.integers_apart hvs hws hcomm hlen h w hw
        exact ⟨v, hv, hsame⟩
    | form hform => cases hform
  · rintro ⟨h, h'⟩
    have hle := length_le_of_partners (fun v hv => hpartner v hv (h v hv))
      (partners_differ Numbers.integers_apart hvs hws hcomm)
    have hge := length_le_of_partners (fun w hw => hpartner' w hw (h' w hw))
      (partners_differ Numbers.integers_apart hws hvs fun w hw v hv => (hcomm v hv w hw).symm)
    exact .set (Nat.le_antisymm hle hge) fun v hv => hpartner v hv (h v hv)

/-! The operations on sets -/

/-- The value is the list or the set of these values. -/
inductive Collects : Value → List Value → Prop
  | list (vs : List Value) : Collects (list vs) vs
  | set (vs : List Value) : Collects (set vs) vs

variable {a b : Value}

theorem Collects.argument (h : a.Collects vs) (b : Builtin) : Argument.list b a = .ok vs := by
  cases h <;> rfl

theorem Collects.floatless (h : a.Collects vs) (ha : a.Floatless) : ∀ v ∈ vs, v.Floatless := by
  cases h with
  | list => exact drawnFrom_list.1 ha
  | set => exact (drawnFrom_set.1 ha).2

theorem Collects.contains_iff (h : a.Collects vs) (ha : a.Floatless) (hx : x.Floatless) :
    Contains a x ↔ Holds vs x := by
  cases h with
  | set => exact contains_set_iff (drawnFrom_set.1 ha).2 hx
  | list => simp [Contains, CollectionOp.apply, Value.contains, Holds, Same]

theorem contains_firstOnes_iff (hvs : ∀ v ∈ vs, v.Floatless) (hx : x.Floatless) :
    Contains (set (firstOnes vs)) x ↔ Holds vs x :=
  (contains_set_iff (fun _ hv => hvs _ (firstOnes_subset hv)) hx).trans (holds_firstOnes hvs hx)

/-- Two sets are equal when the same values are found in both. -/
theorem same_set_iff_contains (hvs : (set vs).Floatless) (hws : (set ws).Floatless) :
    Same (set vs) (set ws) ↔ ∀ z : Value, z.Floatless → (Contains (set vs) z ↔ Contains (set ws) z) := by
  have hv := (drawnFrom_set.1 hvs).2
  have hw := (drawnFrom_set.1 hws).2
  rw [same_set_iff hvs hws]
  constructor
  · rintro ⟨h, h'⟩ z hz
    rw [contains_set_iff hv hz, contains_set_iff hw hz]
    constructor
    · rintro ⟨v, hmem, hsame⟩
      obtain ⟨w, hmem', hsame'⟩ := h v hmem
      exact ⟨w, hmem', hsame'.trans (hw w hmem') (hv v hmem) hz hsame⟩
    · rintro ⟨w, hmem, hsame⟩
      obtain ⟨v, hmem', hsame'⟩ := h' w hmem
      exact ⟨v, hmem', hsame'.trans (hv v hmem') (hw w hmem) hz hsame⟩
  · intro h
    refine ⟨fun v hmem => ?_, fun w hmem => ?_⟩
    · rw [← contains_set_iff hw (hv v hmem), ← h v (hv v hmem), contains_set_iff hv (hv v hmem)]
      exact ⟨v, hmem, same_self (hv v hmem)⟩
    · rw [← contains_set_iff hv (hw w hmem), h w (hw w hmem), contains_set_iff hw (hw w hmem)]
      exact ⟨w, hmem, same_self (hw w hmem)⟩

/-- The laws of sets, for two collections `a` of `vs` and `b` of `ws` and two values. -/
structure SetLaws (a b : Value) (vs ws : List Value) (x y : Value) : Prop where
  set : CollectionOp.set.apply [a] = .ok (set (firstOnes vs))
  insert : CollectionOp.insert.apply [a, y] = .ok (Value.set (firstOnes (vs ++ [y])))
  union : CollectionOp.union.apply [a, b] = .ok (Value.set (firstOnes (vs ++ ws)))
  /-- Among the first ones are no two equal, so that they may be members of sets again. -/
  distinct : ∀ us ∈ [vs, vs ++ [y], vs ++ ws],
    (firstOnes us).Pairwise (fun v w => ¬Same v w) ∧ (Value.set (firstOnes us)).Floatless
  contains_set : Contains (.set (firstOnes vs)) x ↔ ∃ v ∈ vs, Same v x
  contains_insert : Contains (.set (firstOnes (vs ++ [y]))) x ↔ Contains a x ∨ Same x y
  contains_union : Contains (.set (firstOnes (vs ++ ws))) x ↔ Contains a x ∨ Contains b x
  eq_iff : a = .set vs → b = .set ws → (BinaryOp.eq.apply a b = .ok (.bool true) ↔
    ∀ z : Value, z.Floatless → (Contains a z ↔ Contains b z))
  /-- Neither the order nor the number of times matters. -/
  repeated : (∀ v, v ∈ vs ↔ v ∈ ws) →
    BinaryOp.eq.apply (.set (firstOnes vs)) (.set (firstOnes ws)) = .ok (.bool true)

end Value

open Value

theorem sets_obey_laws {a b x y : Value} {vs ws : List Value} (hvs : a.Collects vs)
    (hws : b.Collects ws) (ha : a.Floatless) (hb : b.Floatless) (hx : x.Floatless)
    (hy : y.Floatless) : SetLaws a b vs ws x y := by
  have hv := hvs.floatless ha
  have hw := hws.floatless hb
  have hvy : ∀ v ∈ vs ++ [y], v.Floatless :=
    List.forall_mem_append.2 ⟨hv, List.forall_mem_singleton.2 hy⟩
  have hvw : ∀ v ∈ vs ++ ws, v.Floatless := List.forall_mem_append.2 ⟨hv, hw⟩
  constructor
  case set =>
    rw [CollectionOp.apply, hvs.argument]
    exact congrArg Except.ok (setOf_eq hv)
  case insert =>
    rw [CollectionOp.apply, hvs.argument]
    exact congrArg Except.ok (setOf_eq hvy)
  case union =>
    rw [CollectionOp.apply, hvs.argument, hws.argument]
    exact congrArg Except.ok (setOf_eq hvw)
  case distinct =>
    have hlaw : ∀ us : List Value, (∀ v ∈ us, v.Floatless) →
        (firstOnes us).Pairwise (fun v w => ¬Same v w) ∧ (Value.set (firstOnes us)).Floatless :=
      fun us hus => ⟨pairwise_not_same (floatless_firstOnes hus), floatless_firstOnes hus⟩
    simp only [List.forall_mem_cons]
    exact ⟨hlaw _ hv, hlaw _ hvy, hlaw _ hvw, List.forall_mem_nil _⟩
  case contains_set => exact contains_firstOnes_iff hv hx
  case contains_insert =>
    rw [contains_firstOnes_iff hvy hx, holds_append, holds_singleton, hvs.contains_iff ha hx,
      same_comm Numbers.integers_apart hy hx]
  case contains_union =>
    rw [contains_firstOnes_iff hvw hx, holds_append, hvs.contains_iff ha hx, hws.contains_iff hb hx]
  case eq_iff =>
    rintro rfl rfl
    rw [eq_apply_iff, same_set_iff_contains ha hb]
  case repeated =>
    intro hsame
    rw [eq_apply_iff, same_set_iff_contains (floatless_firstOnes hv) (floatless_firstOnes hw)]
    intro z hz
    rw [contains_firstOnes_iff hv hz, contains_firstOnes_iff hw hz]
    exact exists_congr fun v => and_congr_left' (hsame v)

/-- Sets of sets and of lists, a member twice and one the other way round. -/
theorem nested_sets_obey_laws :
    SetLaws (.list [.set [.int 1, .int 2], .list [.int 3], .set [.int 2, .int 1]])
      (.set [.list [.int 3], .set [.int 1, .int 2]])
      [.set [.int 1, .int 2], .list [.int 3], .set [.int 2, .int 1]]
      [.list [.int 3], .set [.int 1, .int 2]] (.set [.int 2, .int 1]) (.text "a") ∧
    firstOnes [.set [.int 1, .int 2], .list [.int 3], .set [.int 2, .int 1]] =
      [.set [.int 1, .int 2], .list [.int 3]] := by
  have hpair : (Value.set [.int 1, .int 2]).Floatless := by
    rw [Floatless, drawnFrom_set]
    simp [Numbers.integers]
    decide
  have hpair' : (Value.set [.int 2, .int 1]).Floatless := by
    rw [Floatless, drawnFrom_set]
    simp [Numbers.integers]
    decide
  have hlist : (Value.list [.int 3]).Floatless := by simp [Floatless, Numbers.integers]
  have hdistinct : [Value.list [.int 3], .set [.int 1, .int 2]].Pairwise
      (fun a b => a.sameMember b = false) := by decide
  refine ⟨sets_obey_laws (.list _) (.set _) ?_ ?_ hpair' ?_, rfl⟩
  · refine drawnFrom_list.2 ?_
    simp only [List.forall_mem_cons]
    exact ⟨hpair, hlist, hpair', List.forall_mem_nil _⟩
  · refine drawnFrom_set.2 ⟨hdistinct, ?_⟩
    simp only [List.forall_mem_cons]
    exact ⟨hlist, hpair, List.forall_mem_nil _⟩
  · exact ⟨trivial, List.forall_mem_nil _⟩

end StreamLang
