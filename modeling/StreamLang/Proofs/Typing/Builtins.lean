import StreamLang.Builtin.ResultType
import StreamLang.Interpreter.Call
import StreamLang.Proofs.Contents.Builtins
import StreamLang.Proofs.Typing.Conforms

/-! The types that the table gives to builtins on plain values hold of what these give, where the row of
the builtin is sound for the types of the arguments. -/

namespace StreamLang

open Ty

variable {γ : Type} [Gateway γ] {w : World γ} {t : Ty} {v : Value} {items more : List Value}

section

theorem conforms_list : Conforms t w (.list items) ↔
    t.base = .unknown ∨ ∃ e, t.base = .list e ∧ ∀ i ∈ items, Conforms e w i := by
  fun_induction Ty.base t with
  | case1 name t ih => rw [Conforms, ih]
  | case2 t hnot => cases t <;> simp_all [Conforms]

theorem conforms_set : Conforms t w (.set items) ↔
    t.base = .unknown ∨ ∃ e, t.base = .set e ∧ ∀ i ∈ items, Conforms e w i := by
  fun_induction Ty.base t with
  | case1 name t ih => rw [Conforms, ih]
  | case2 t hnot => cases t <;> simp_all [Conforms]

theorem conforms_map {entries : List (String × Value)} : Conforms t w (.map entries) ↔
    t.base = .unknown ∨ ∃ k e, t.base = .map k e ∧ ∀ x ∈ entries, Conforms e w x.2 := by
  fun_induction Ty.base t with
  | case1 name t ih => rw [Conforms, ih]
  | case2 t hnot => cases t <;> simp_all [Conforms]

theorem conforms_text {s : String} :
    Conforms t w (.text s) ↔ t.base = .unknown ∨ t.base = .text := by
  fun_induction Ty.base t with
  | case1 name t ih => rw [Conforms, ih]
  | case2 t hnot => cases t <;> simp_all [Conforms]

theorem conforms_option {inner : Option Value} : Conforms t w (.option inner) ↔
    t.base = .unknown ∨ ∃ e, t.base = .option e ∧ ∀ x ∈ inner, Conforms e w x := by
  fun_induction Ty.base t with
  | case1 name t ih => rw [Conforms, ih]
  | case2 t hnot => cases t <;> simp_all [Conforms]

theorem conforms_ok : Conforms t w (.ok v) ↔
    t.base = .unknown ∨ ∃ e f, t.base = .result e f ∧ Conforms e w v := by
  fun_induction Ty.base t with
  | case1 name t ih => rw [Conforms, ih]
  | case2 t hnot => cases t <;> simp_all [Conforms]

end

theorem base_base (t : Ty) : t.base.base = t.base := by
  fun_induction Ty.base t with
  | case1 name t ih => exact ih
  | case2 t hnot => cases t <;> first | rfl | exact absurd rfl (hnot _ _)

theorem base_argument (tys : List Ty) (k : Nat) : (argument tys k).base = argument tys k := by
  unfold argument
  cases tys[k]? with
  | none => rfl
  | some t => exact base_base t

/-- An argument conforms to its type. -/
theorem ConformAll.argument {tys : List Ty} {args : List Value} (h : ConformAll tys w args) {k : Nat}
    (hv : args[k]? = some v) : Conforms (argument tys k) w v := by
  induction tys generalizing args k with
  | nil =>
    cases args with
    | nil => cases hv
    | cons => cases h
  | cons t ts ih =>
    cases args with
    | nil => cases hv
    | cons v vs =>
      cases k with
      | zero =>
        cases hv
        exact (conforms_base t).2 h.1
      | succ k => exact ih h.2 hv

theorem elementOf_base (t : Ty) : t.base.elementOf = t.elementOf := by
  rw [elementOf, element?, base_base, elementOf, element?]

theorem elementOf_of_unknown (h : t.base = .unknown) : t.elementOf = .unknown := by
  rw [← elementOf_base, h]
  rfl

theorem Conforms.ofList (h : Conforms t w (.list items)) :
    ∀ i ∈ items, Conforms t.elementOf w i := by
  rcases conforms_list.1 h with hunknown | ⟨e, he, hitems⟩
  · rw [elementOf_of_unknown hunknown]
    exact fun _ _ => trivial
  · rw [← elementOf_base, he]
    exact hitems

theorem Conforms.ofSet (h : Conforms t w (.set items)) :
    ∀ i ∈ items, Conforms t.elementOf w i := by
  rcases conforms_set.1 h with hunknown | ⟨e, he, hitems⟩
  · rw [elementOf_of_unknown hunknown]
    exact fun _ _ => trivial
  · rw [← elementOf_base, he]
    exact hitems

/-- The items of a list or a set conform to the type of its elements. -/
theorem Conforms.elements (h : Conforms t w v) (b : Builtin) :
    Except.All (fun items => ∀ i ∈ items, Conforms t.elementOf w i) (Argument.list b v) := by
  cases v with
  | list items => exact .ok h.ofList
  | set items => exact .ok h.ofSet
  | _ => exact .error _

/-- A list conforms as other lists do that its items are from. -/
theorem Conforms.relist (h : Conforms t w (.list items)) (h' : Conforms t w (.list more))
    {others : List Value} (hfrom : ∀ i ∈ others, i ∈ items ∨ i ∈ more) :
    Conforms t w (.list others) := by
  refine conforms_list.2 ?_
  rcases conforms_list.1 h with hunknown | ⟨e, he, hitems⟩
  · exact .inl hunknown
  · rcases conforms_list.1 h' with hunknown | ⟨e', he', hmore⟩
    · exact .inl hunknown
    · cases he.symm.trans he'
      exact .inr ⟨e, he, fun i hi => (hfrom i hi).elim (hitems i) (hmore i)⟩

theorem Conforms.reset (h : Conforms t w (.set items)) (h' : Conforms t w (.set more))
    {others : List Value} (hfrom : ∀ i ∈ others, i ∈ items ∨ i ∈ more) :
    Conforms t w (.set others) := by
  refine conforms_set.2 ?_
  rcases conforms_set.1 h with hunknown | ⟨e, he, hitems⟩
  · exact .inl hunknown
  · rcases conforms_set.1 h' with hunknown | ⟨e', he', hmore⟩
    · exact .inl hunknown
    · cases he.symm.trans he'
      exact .inr ⟨e, he, fun i hi => (hfrom i hi).elim (hitems i) (hmore i)⟩

/-- What stands for a list conforms as that list, but for a set. -/
theorem Conforms.asList (h : Conforms t w v) (hset : ∀ e, t.base ≠ .set e) (b : Builtin) :
    Except.All (fun items => Conforms t w (.list items)) (Argument.list b v) := by
  cases v with
  | list items => exact .ok h
  | set items =>
    rcases conforms_set.1 h with hunknown | ⟨e, he, -⟩
    · exact .ok (conforms_list.2 (.inl hunknown))
    · exact absurd he (hset e)
  | _ => exact .error _

/-- What stands for a list conforms as the set of its items, but for a list. -/
theorem Conforms.asSet (h : Conforms t w v) (hlist : ∀ e, t.base ≠ .list e) (b : Builtin) :
    Except.All (fun items => Conforms t w (.set items)) (Argument.list b v) := by
  cases v with
  | list items =>
    rcases conforms_list.1 h with hunknown | ⟨e, he, -⟩
    · exact .ok (conforms_set.2 (.inl hunknown))
    · exact absurd he (hlist e)
  | set items => exact .ok h
  | _ => exact .error _

theorem Value.mem_of_setOf (items : List Value) :
    ∃ members, Value.setOf items = .set members ∧ ∀ m ∈ members, m ∈ items := by
  have hfold : ∀ {vs members : List Value}, ∀ m ∈ vs.foldl Value.addMember members,
      m ∈ vs ∨ m ∈ members := by
    intro vs
    induction vs with
    | nil => exact fun m hm => .inr hm
    | cons v vs ih =>
      intro members m hm
      rcases ih m hm with hm | hm
      · exact .inl (.tail _ hm)
      · rw [Value.addMember] at hm
        split at hm
        · exact .inr hm
        · rcases List.mem_append.1 hm with hm | hm
          · exact .inr hm
          · exact .inl (List.mem_singleton.1 hm ▸ .head _)
  exact ⟨_, rfl, fun m hm => (hfold m hm).resolve_right List.not_mem_nil⟩

theorem Conforms.setOf (h : Conforms t w (.set items)) : Conforms t w (Value.setOf items) := by
  obtain ⟨members, hset, hfrom⟩ := Value.mem_of_setOf items
  rw [hset]
  exact h.reset h fun m hm => .inl (hfrom m hm)

/-- The set of values of a type. -/
theorem conforms_setOf (h : ∀ i ∈ items, Conforms t w i) :
    Conforms (.set t) w (Value.setOf items) :=
  Conforms.setOf (conforms_set.2 (.inr ⟨t, rfl, h⟩))

/-- The row of the builtin holds for these types of the arguments. Where types are joined, the join is above
both; and no set is given the type of a list, or a list that of a set. -/
def CollectionOp.Sound (op : CollectionOp) (args : List Ty) : Prop :=
  let first := Ty.argument args 0
  let second := Ty.argument args 1
  match op with
  | append => ∀ e, first = .list e → e.Joins second
  | concat => first.Joins second ∧ ∀ e, (first.join second).base ≠ .set e
  | union => first.Joins second ∧ ∀ e, (first.join second).base ≠ .list e
  | merge => first.Joins second
  | tail | reverse => ∀ e, first.base ≠ .set e
  | put => ∀ k v, first = .map k v → v.Joins (Ty.argument args 2)
  | insert => ∀ e, first = .set e → e.Joins second
  | _ => True

theorem forall_mem_concat (h : ∀ i ∈ items, Conforms t w i) (hv : Conforms t w v) :
    ∀ i ∈ items ++ [v], Conforms t w i := by
  intro i hi
  rcases List.mem_append.1 hi with hi | hi
  · exact h i hi
  · exact List.mem_singleton.1 hi ▸ hv

theorem Value.concat_conforms {a b : Value} (ha : Conforms t w a) (hb : Conforms t w b)
    (hset : ∀ e, t.base ≠ .set e) : Except.All (Conforms t w) (a.concat b) := by
  unfold Value.concat
  split
  · exact .ok (conforms_text.2 (conforms_text.1 ha))
  · refine .bind (ha.asList hset _) fun items hitems => ?_
    refine .bind (hb.asList hset _) fun more hmore => ?_
    exact .ok (hitems.relist hmore fun i hi => List.mem_append.1 hi)

theorem Value.reverse_conforms (h : Conforms t w v) (hset : ∀ e, t.base ≠ .set e) :
    Except.All (Conforms t w) v.reverse := by
  have hlist : Except.All (Conforms t w) (do
      return Value.list (← Argument.list (.collection .reverse) v).reverse) :=
    .bind (h.asList hset _) fun items hitems =>
      .ok (hitems.relist hitems fun i hi => .inl (List.mem_reverse.1 hi))
  cases v with
  | text s => exact .ok (conforms_text.2 (conforms_text.1 h))
  | _ => exact hlist

theorem Conforms.asMap (h : Conforms t w v) (b : Builtin) :
    Except.All (fun entries => Conforms t w (.map entries)) (Argument.map b v) := by
  cases v with
  | map entries => exact .ok h
  | _ => exact .error _

theorem Value.len_conforms (v : Value) : Except.All (Conforms .int w) v.len := by
  cases v with
  | list | set | tuple | map | text => exact .ok ⟨_, rfl⟩
  | _ => exact .error _

theorem Value.contains_conforms (a b : Value) : Except.All (Conforms .bool w) (a.contains b) := by
  unfold Value.contains
  split
  · exact .ok ⟨_, rfl⟩
  · exact .ok ⟨_, rfl⟩
  · exact .ok ⟨_, rfl⟩
  · exact .ok ⟨_, rfl⟩
  · exact .error _

theorem Value.merge_conforms {left right : List (String × Value)} (h : Conforms t w (.map left))
    (h' : Conforms t w (.map right)) : Conforms t w (.map (Value.mergeEntries left right)) := by
  refine conforms_map.2 ?_
  rcases conforms_map.1 h with hunknown | ⟨k, e, he, hleft⟩
  · exact .inl hunknown
  · rcases conforms_map.1 h' with hunknown | ⟨k', e', he', hright⟩
    · exact .inl hunknown
    · cases he.symm.trans he'
      exact .inr ⟨k, e, he, Keyed.forall_foldl_insert hleft hright⟩

theorem CollectionOp.apply_conforms {op : CollectionOp} {tys : List Ty} {args : List Value}
    (hsound : op.Sound tys) (hargs : ConformAll tys w args) :
    Except.All (Conforms (op.resultType tys) w) (op.apply args) := by
  have htruth : ∀ x : Bool, Conforms .bool w (.bool x) := fun x => ⟨x, rfl⟩
  have hnumber : ∀ n : Int64, Conforms .int w (.int n) := fun n => ⟨n, rfl⟩
  have hoption : ∀ {e : Ty} {inner : Option Value}, (∀ x ∈ inner, Conforms e w x) →
      Conforms (.option e) w (.option inner) := fun h => ⟨_, rfl, h⟩
  have hlist : ∀ {e : Ty} {items : List Value}, (∀ x ∈ items, Conforms e w x) →
      Conforms (.list e) w (.list items) := fun h => ⟨_, rfl, h⟩
  unfold CollectionOp.apply
  dsimp only
  split
  case h_1 v => exact v.len_conforms
  case h_2 l v =>
    have hl := hargs.argument (k := 0) rfl
    have hv := hargs.argument (k := 1) rfl
    refine .bind (hl.elements _) fun items hitems => .ok ?_
    dsimp only [CollectionOp.resultType, CollectionOp.Sound] at hsound ⊢
    split
    · rename_i e he
      rw [he] at hitems
      have hjoin := hsound e he
      exact hlist (forall_mem_concat (fun i hi => (hitems i hi).below hjoin.1) (hv.below hjoin.2))
    · exact hlist fun _ _ => trivial
  case h_3 a b =>
    have ha := (hargs.argument (k := 0) rfl).below hsound.1.1
    have hb := (hargs.argument (k := 1) rfl).below hsound.1.2
    exact Value.concat_conforms ha hb hsound.2
  case h_4 l =>
    have hl := hargs.argument (k := 0) rfl
    exact .bind (hl.elements _) fun items hitems => .ok (hoption fun v hv =>
      hitems v (List.mem_of_head? hv))
  case h_5 l =>
    have hl := hargs.argument (k := 0) rfl
    exact .bind (hl.asList hsound _) fun items hitems => .ok (hitems.relist hitems fun i hi =>
      .inl (List.mem_of_mem_drop hi))
  case h_6 l i =>
    have hl := hargs.argument (k := 0) rfl
    refine .bind (hl.elements _) fun items hitems => .bind (.of_true _) fun n _ =>
      .ok (hoption fun v hv => ?_)
    unfold Value.itemAt? at hv
    split at hv
    · cases hv
    · exact hitems v (List.mem_of_getElem? hv)
  case h_7 v => exact Value.reverse_conforms (hargs.argument (k := 0) rfl) hsound
  case h_8 a b =>
    refine .bind (.of_true _) fun start _ => .bind (.of_true _) fun stop _ => .ok ?_
    refine hlist fun v hv => ?_
    obtain ⟨k, -, rfl⟩ := List.mem_map.1 hv
    exact hnumber _
  case h_9 a b => exact a.contains_conforms b
  case h_10 a b =>
    have ha := (hargs.argument (k := 0) rfl).below hsound.1
    have hb := (hargs.argument (k := 1) rfl).below hsound.2
    exact .bind (ha.asMap _) fun left hleft => .bind (hb.asMap _) fun right hright =>
      .ok (Value.merge_conforms hleft hright)
  case h_11 m k =>
    have hm := hargs.argument (k := 0) rfl
    refine .bind (hm.asMap _) fun entries hentries => .bind (.of_true _) fun key _ => .ok ?_
    dsimp only [CollectionOp.resultType]
    split
    · rename_i _ e he
      rw [he] at hentries
      obtain ⟨_, ⟨⟩, hvalues⟩ := hentries
      exact hoption fun v hv => hvalues _ (Keyed.mem_of_get? hv)
    · exact hoption fun _ _ => trivial
  case h_12 m k v =>
    have hm := hargs.argument (k := 0) rfl
    have hv := hargs.argument (k := 2) rfl
    refine .bind (hm.asMap _) fun entries hentries => .bind (.of_true _) fun key _ => .ok ?_
    dsimp only [CollectionOp.resultType, CollectionOp.Sound] at hsound ⊢
    split
    · rename_i key e he
      rw [he] at hentries
      obtain ⟨_, ⟨⟩, hvalues⟩ := hentries
      have hjoin := hsound key e he
      exact ⟨_, rfl, Keyed.forall_insert (hv.below hjoin.2)
        fun x hx => (hvalues x hx).below hjoin.1⟩
    · exact ⟨_, rfl, fun _ _ => trivial⟩
  case h_13 m k =>
    have hm := hargs.argument (k := 0) rfl
    refine .bind (hm.asMap _) fun entries hentries => .bind (.of_true _) fun key _ =>
      .ok (conforms_map.2 ?_)
    refine (conforms_map.1 hentries).imp_right fun ⟨key, e, he, hvalues⟩ => ⟨key, e, he, ?_⟩
    exact fun x hx => hvalues x (List.mem_filter.1 hx).1
  case h_14 m =>
    refine .bind (.of_true _) fun entries _ => .ok (hlist fun v hv => ?_)
    obtain ⟨e, -, rfl⟩ := List.mem_map.1 hv
    exact ⟨_, rfl⟩
  case h_15 m =>
    have hm := hargs.argument (k := 0) rfl
    refine .bind (hm.asMap _) fun entries hentries => .ok ?_
    dsimp only [CollectionOp.resultType]
    split
    · rename_i _ e he
      rw [he] at hentries
      obtain ⟨_, ⟨⟩, hvalues⟩ := hentries
      refine hlist fun v hv => ?_
      obtain ⟨x, hx, rfl⟩ := List.mem_map.1 hv
      exact hvalues x hx
    · exact hlist fun _ _ => trivial
  case h_16 m k =>
    exact .bind (.of_true _) fun entries _ => .bind (.of_true _) fun key _ => .ok (htruth _)
  case h_17 l =>
    have hl := hargs.argument (k := 0) rfl
    exact .bind (hl.elements _) fun items hitems => .ok (conforms_setOf hitems)
  case h_18 s v =>
    have hs := hargs.argument (k := 0) rfl
    have hv := hargs.argument (k := 1) rfl
    refine .bind (hs.elements _) fun items hitems => .ok ?_
    dsimp only [CollectionOp.resultType, CollectionOp.Sound] at hsound ⊢
    split
    · rename_i e he
      rw [he] at hitems
      have hjoin := hsound e he
      exact conforms_setOf
        (forall_mem_concat (fun i hi => (hitems i hi).below hjoin.1) (hv.below hjoin.2))
    · exact conforms_setOf fun _ _ => trivial
  case h_19 a b =>
    have ha := (hargs.argument (k := 0) rfl).below hsound.1.1
    have hb := (hargs.argument (k := 1) rfl).below hsound.1.2
    refine .bind (ha.asSet hsound.2 _) fun left hleft => .bind (hb.asSet hsound.2 _) fun right hright =>
      .ok (Conforms.setOf ?_)
    exact hleft.reset hright fun i hi => List.mem_append.1 hi
  case h_20 => exact .error _

def WrapperOp.Sound (op : WrapperOp) (args : List Ty) : Prop :=
  let first := Ty.argument args 0
  let second := Ty.argument args 1
  match op with
  | unwrapOr =>
    (∀ e, first = .option e → e.Joins second) ∧ (∀ e f, first = .result e f → e.Joins second) ∧
      (first = .unknown → second = .unknown)
  | _ => True

/-- The payload conforms to the type inside; what is known of the outer type tells of both. -/
theorem conforms_payload {x : Value} {t : Ty} (hv : Conforms t w v)
    (hpayload : v = .option (some x) ∨ v = .ok x) :
    (∀ e, t = .option e → Conforms e w x) ∧ (∀ e f, t = .result e f → Conforms e w x) := by
  refine ⟨?_, ?_⟩
  · rintro e rfl
    obtain ⟨inner, rfl, hx⟩ := hv
    rcases hpayload with h | h
    · cases h
      exact hx x rfl
    · cases h
  · rintro e f rfl
    rcases hv with ⟨y, rfl, hy⟩ | ⟨y, rfl, -⟩
    · rcases hpayload with h | h
      · cases h
      · cases h
        exact hy
    · rcases hpayload with h | h <;> cases h

theorem Value.unwrap_conforms {tys : List Ty} (hv : Conforms (Ty.argument tys 0) w v) :
    Except.All (Conforms (WrapperOp.unwrap.resultType tys) w) v.unwrap := by
  have hinner {x : Value} (hx : v = .option (some x) ∨ v = .ok x) :
      Conforms (WrapperOp.unwrap.resultType tys) w x := by
    obtain ⟨hoption, hresult⟩ := conforms_payload hv hx
    dsimp only [WrapperOp.resultType]
    split
    · exact hoption _ ‹_›
    · exact hresult _ _ ‹_›
    · trivial
  unfold Value.unwrap
  split
  · exact .ok (hinner (.inl rfl))
  · exact .ok (hinner (.inr rfl))
  all_goals exact .error _

theorem Value.unwrapOr_conforms {tys : List Ty} {fallback : Value}
    (hsound : WrapperOp.unwrapOr.Sound tys) (hv : Conforms (Ty.argument tys 0) w v)
    (hfallback : Conforms (Ty.argument tys 1) w fallback) :
    Except.All (Conforms (WrapperOp.unwrapOr.resultType tys) w) (v.unwrapOr fallback) := by
  obtain ⟨hsoundOption, hsoundResult, hunknown⟩ := hsound
  have hinner {x : Value} (hx : v = .option (some x) ∨ v = .ok x) :
      Conforms (WrapperOp.unwrapOr.resultType tys) w x := by
    obtain ⟨hoption, hresult⟩ := conforms_payload hv hx
    dsimp only [WrapperOp.resultType]
    split
    · rename_i e he
      exact (hoption e he).below (hsoundOption e he).1
    · rename_i e f he
      exact (hresult e f he).below (hsoundResult e f he).1
    · rename_i hoptions hresults
      have hbase : (Ty.argument tys 0).base = .unknown := by
        rcases hx with rfl | rfl
        · rcases conforms_option.1 hv with h | ⟨e, he, -⟩
          · exact h
          · rw [base_argument] at he
            exact absurd he (hoptions e)
        · rcases conforms_ok.1 hv with h | ⟨e, f, he, -⟩
          · exact h
          · rw [base_argument] at he
            exact absurd he (hresults e f)
      rw [base_argument] at hbase
      rw [hunknown hbase]
      trivial
  have hother : Conforms (WrapperOp.unwrapOr.resultType tys) w fallback := by
    dsimp only [WrapperOp.resultType]
    split
    · rename_i e he
      exact hfallback.below (hsoundOption e he).2
    · rename_i e f he
      exact hfallback.below (hsoundResult e f he).2
    · exact hfallback
  unfold Value.unwrapOr
  split
  · exact .ok (hinner (.inl rfl))
  · exact .ok (hinner (.inr rfl))
  · exact .ok hother
  · exact .ok hother
  · exact .error _

theorem WrapperOp.apply_conforms {op : WrapperOp} {tys : List Ty} {args : List Value}
    (hsound : op.Sound tys) (hargs : ConformAll tys w args) :
    Except.All (Conforms (op.resultType tys) w) (op.apply args) := by
  have hsome : ∀ {e : Ty} {x : Value}, Conforms e w x →
      Conforms (.option e) w (.option (Option.some x)) :=
    fun h => conforms_option.2 (.inr ⟨_, rfl, fun y hy => by
      cases hy
      exact h⟩)
  unfold WrapperOp.apply
  dsimp only
  split
  case h_1 v => exact .ok (hsome (hargs.argument (k := 0) rfl))
  case h_2 v => exact .ok (hsome (hargs.argument (k := 0) rfl))
  case h_3 => exact .ok (conforms_option.2 (.inr ⟨_, rfl, fun _ hx => by cases hx⟩))
  case h_4 v => exact .ok (.inl ⟨v, rfl, hargs.argument (k := 0) rfl⟩)
  case h_5 v => exact .ok (.inl ⟨v, rfl, hargs.argument (k := 0) rfl⟩)
  case h_6 v => exact .ok (.inr ⟨v, rfl, hargs.argument (k := 0) rfl⟩)
  case h_7 v => exact .ok (.inr ⟨v, rfl, hargs.argument (k := 0) rfl⟩)
  case h_8 v => exact Value.unwrap_conforms (hargs.argument (k := 0) rfl)
  case h_9 v fallback =>
    exact Value.unwrapOr_conforms hsound (hargs.argument (k := 0) rfl) (hargs.argument (k := 1) rfl)
  case h_14 => exact .error _
  all_goals exact .bind (.of_true _) fun b _ => .ok ⟨_, rfl⟩

def ScalarOp.Sound (op : ScalarOp) (args : List Ty) : Prop :=
  match op with
  | min | max => (Ty.argument args 0).Joins (Ty.argument args 1)
  | _ => True

theorem Value.toWhole_conforms (b : Builtin) (round : Decimal.Binary → Int) (v : Value) :
    Except.All (Conforms .int w) (Value.toWhole b round v) := by
  refine .bind (.of_true _) fun x _ => ?_
  split
  · exact .error _
  · split
    · exact .ok ⟨_, rfl⟩
    · exact .error _

theorem Value.extreme_conforms {a b : Value} (op : ScalarOp) (ha : Conforms t w a)
    (hb : Conforms t w b) : Except.All (Conforms t w) (Value.extreme op a b) := by
  have hpick : ∀ c : Bool, Conforms t w (if c then a else b) := by
    intro c
    split
    · exact ha
    · exact hb
  unfold Value.extreme
  dsimp only
  split
  · exact .ok (hpick _)
  · exact .ok (hpick _)
  · exact .bind (.of_true _) fun x _ => .bind (.of_true _) fun y _ => .ok (hpick _)

/-- A number conforms to the type of numbers as the one that it comes from. -/
theorem Value.abs_conforms (h : Conforms t w v) : Except.All (Conforms t.numberType w) v.abs := by
  unfold Value.abs
  split
  · split
    · refine .ok ?_
      cases t with
      | int => exact ⟨_, rfl⟩
      | float => exact .inl ⟨_, rfl⟩
      | _ => trivial
    · exact .error _
  · refine .ok ?_
    cases t with
    | int =>
      obtain ⟨_, h⟩ := h
      cases h
    | float => exact .inr ⟨_, rfl⟩
    | _ => trivial
  · exact .error _

theorem ScalarOp.apply_conforms {op : ScalarOp} {tys : List Ty} {args : List Value}
    (hsound : op.Sound tys) (hargs : ConformAll tys w args) :
    Except.All (Conforms (op.resultType tys) w) (op.apply args) := by
  unfold ScalarOp.apply
  dsimp only
  split
  case h_1 v => exact .ok ⟨_, rfl⟩
  case h_2 v => exact .bind (.of_true _) fun s _ => .ok ⟨_, rfl⟩
  case h_3 v => exact .bind (.of_true _) fun s _ => .ok ⟨_, rfl⟩
  case h_4 v sep =>
    refine .bind (.of_true _) fun s _ => .bind (.of_true _) fun t _ => .ok ?_
    refine conforms_list.2 (.inr ⟨.text, rfl, fun x hx => ?_⟩)
    obtain ⟨part, -, rfl⟩ := List.mem_map.1 hx
    exact ⟨part, rfl⟩
  case h_5 l sep =>
    exact .bind (.of_true _) fun items _ => .bind (.of_true _) fun s _ => .ok ⟨_, rfl⟩
  case h_6 v => exact Value.abs_conforms (hargs.argument (k := 0) rfl)
  case h_7 a b =>
    exact Value.extreme_conforms _ ((hargs.argument (k := 0) rfl).below hsound.1)
      ((hargs.argument (k := 1) rfl).below hsound.2)
  case h_8 a b =>
    exact Value.extreme_conforms _ ((hargs.argument (k := 0) rfl).below hsound.1)
      ((hargs.argument (k := 1) rfl).below hsound.2)
  case h_9 v =>
    refine .bind (.of_true _) fun x _ => ?_
    split
    · exact .ok (.inr ⟨_, rfl⟩)
    · exact .error _
  case h_10 v =>
    unfold Value.floor
    split
    · exact .ok ⟨_, rfl⟩
    · exact Value.toWhole_conforms _ _ _
  case h_11 v =>
    unfold Value.toFloat
    split
    · split
      · exact .ok (.inr ⟨_, rfl⟩)
      · exact .error _
    · exact .bind (.of_true _) fun x _ => .ok (.inr ⟨_, rfl⟩)
  case h_12 v =>
    unfold Value.toInt
    split
    · exact .ok ⟨_, rfl⟩
    · split
      · exact .ok ⟨_, rfl⟩
      · exact .error _
    · exact Value.toWhole_conforms _ _ _
  case h_13 => exact .error _

end StreamLang
