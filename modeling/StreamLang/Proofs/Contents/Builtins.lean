import StreamLang.Interpreter.Expr
import StreamLang.Proofs.Contents.Every

/-! What operators, accesses and builtins make of values holds no futures, functions and records but
those of the values. -/

namespace StreamLang

/-- If there is a result, it has the property. -/
def Except.All {ε α : Type} (P : α → Prop) (x : Except ε α) : Prop := ∀ a, x = .ok a → P a

namespace Except.All

variable {ε α β : Type} {P : α → Prop} {Q : β → Prop}

theorem ok {a : α} (h : P a) : All P (.ok a : Except ε α) := by
  rintro b ⟨⟩
  exact h

theorem error (e : ε) : All P (.error e : Except ε α) := fun _ h => by cases h

theorem bind {x : Except ε α} {f : α → Except ε β} (hx : All P x)
    (hf : ∀ a, P a → All Q (f a)) : All Q (x >>= f) := by
  cases x with
  | ok a => exact hf a (hx a rfl)
  | error e => exact .error e

theorem of_true (x : Except ε α) : All (fun _ => True) x := fun _ _ => trivial

theorem map {x : Except ε α} {f : α → β} (hf : ∀ a, Q (f a)) : All Q (x.map f) := by
  cases x with
  | ok a => exact .ok (hf a)
  | error e => exact .error e

end Except.All

namespace Keyed

variable {α : Type} {P : α → Prop}

theorem forall_insert {key : String} {a : α} {m : List (String × α)} (ha : P a)
    (hm : ∀ e ∈ m, P e.2) : ∀ e ∈ insert key a m, P e.2 := by
  induction m with
  | nil => simpa [insert] using ha
  | cons e rest ih =>
    have hrest : ∀ e ∈ rest, P e.2 := fun e' he => hm e' (.tail _ he)
    rw [insert]
    split
    · exact List.forall_mem_cons.2 ⟨ha, hm⟩
    · split
      · exact List.forall_mem_cons.2 ⟨ha, hrest⟩
      · exact List.forall_mem_cons.2 ⟨hm e (.head _), ih hrest⟩

theorem forall_foldl_insert {entries m : List (String × α)} (hm : ∀ e ∈ m, P e.2)
    (h : ∀ e ∈ entries, P e.2) : ∀ e ∈ entries.foldl (fun m e => insert e.1 e.2 m) m, P e.2 := by
  induction entries generalizing m with
  | nil => exact hm
  | cons e rest ih =>
    exact ih (forall_insert (h e (.head _)) hm) fun e' he => h e' (.tail _ he)

end Keyed

theorem mem_of_fieldOf? {name : String} {fields : List (String × Value)} {v : Value}
    (h : fieldOf? name fields = some v) : ∃ e ∈ fields, e.2 = v := by
  obtain ⟨e, he, rfl⟩ := Option.map_eq_some_iff.1 h
  exact ⟨e, List.mem_of_find?_eq_some he, rfl⟩

variable {ok : Value → Prop}

namespace Argument

theorem list_every (b : Builtin) {v : Value} (hv : v.Every ok) :
    Except.All (AllEvery ok) (list b v) := by
  cases v with
  | list items => exact .ok (Value.every_list.1 hv)
  | set items => exact .ok (Value.every_set.1 hv)
  | _ => exact .error _

theorem map_every (b : Builtin) {v : Value} (hv : v.Every ok) :
    Except.All (EntriesEvery ok) (map b v) := by
  cases v with
  | map entries => exact .ok (Value.every_map.1 hv)
  | _ => exact .error _

end Argument

namespace Value

theorem addMember_every {members : List Value} {v : Value} (hm : AllEvery ok members)
    (hv : v.Every ok) : AllEvery ok (addMember members v) := by
  rw [addMember]
  split
  · exact hm
  · exact hm.append (.cons hv (List.forall_mem_nil _))

theorem setOf_every {vs : List Value} (h : AllEvery ok vs) : (setOf vs).Every ok := by
  have hfold : ∀ {ws members : List Value}, AllEvery ok ws → AllEvery ok members →
      AllEvery ok (ws.foldl addMember members) := by
    intro ws
    induction ws with
    | nil => exact fun _ hm => hm
    | cons w rest ih =>
      intro members hws hm
      exact ih (hws.of_subset (List.subset_cons_self w rest))
        (addMember_every hm (hws w (.head _)))
  exact every_set.2 (hfold h (List.forall_mem_nil _))

theorem itemAt?_every {items : List Value} (h : AllEvery ok items) (i : Int64) :
    ∀ v, itemAt? items i = some v → v.Every ok := by
  intro v hv
  rw [itemAt?] at hv
  split at hv
  · cases hv
  · exact h v (List.mem_of_getElem? hv)

theorem get?_every {entries : List (String × Value)} (h : EntriesEvery ok entries)
    (key : String) : ∀ v, Keyed.get? key entries = some v → v.Every ok := by
  intro v hv
  exact h _ (Keyed.mem_of_get? hv)

theorem fieldOf?_every {fields : List (String × Value)} (h : EntriesEvery ok fields)
    (name : String) : ∀ v, fieldOf? name fields = some v → v.Every ok := by
  intro v hv
  obtain ⟨e, he, rfl⟩ := mem_of_fieldOf? hv
  exact h e he

theorem select_every {v : Value} (hv : v.Every ok) (field : String) :
    Except.All (Every ok) (v.select field) := by
  cases v with
  | record name fields =>
    rw [select]
    split
    · exact .ok (fieldOf?_every (every_record.1 hv).2 field _ ‹_›)
    · exact .error _
  | map entries =>
    rw [select]
    split
    · exact .ok (get?_every (every_map.1 hv) field _ ‹_›)
    · exact .error _
  | tuple items =>
    rw [select]
    split
    · rename_i w hw
      obtain ⟨i, -, hi⟩ := Option.bind_eq_some_iff.1 hw
      exact .ok (every_tuple.1 hv w (List.mem_of_getElem? hi))
    · exact .error _
  | _ => exact .error _

theorem item_every {items : List Value} (h : AllEvery ok items) (target : Indexed) (i : Int64) :
    Except.All (Every ok) (item target items i) := by
  rw [item]
  split
  · exact .ok (itemAt?_every h i _ ‹_›)
  · exact .error _

theorem index_every {target : Value} (h : target.Every ok) (i : Value) :
    Except.All (Every ok) (target.index i) := by
  unfold index
  split
  · exact item_every (every_list.1 h) _ _
  · exact item_every (every_tuple.1 h) _ _
  · unfold character
    split
    · exact .ok (every_text _)
    · exact .error _
  · split
    · exact .ok (get?_every (every_map.1 h) _ _ ‹_›)
    · exact .error _
  · exact .error _

end Value

namespace BinaryOp

theorem apply_every (op : BinaryOp) (a b : Value) : Except.All (Value.Every ok) (op.apply a b) := by
  have harith : ∀ (op : BinaryOp) f g, Except.All (Value.Every ok) (op.arithmetic f g a b) := by
    intro op f g
    unfold arithmetic
    split
    · split
      · exact .ok (Value.every_int _)
      · exact .error _
    · exact .map fun p => Value.every_float _
  have hdiv : ∀ (op : BinaryOp) f g, Except.All (Value.Every ok) (op.division f g a b) := by
    intro op f g
    unfold division
    split
    · split
      · exact .error _
      · split
        · exact .ok (Value.every_int _)
        · exact .error _
    · refine .bind (.of_true _) fun p _ => ?_
      split
      · exact .error _
      · exact .ok (Value.every_float _)
  have hcompare : ∀ (op : BinaryOp) f, Except.All (Value.Every ok) (op.comparison f a b) :=
    fun op f => .map fun o => Value.every_bool _
  have hlogical : ∀ (op : BinaryOp) f, Except.All (Value.Every ok) (op.logical f a b) := by
    intro op f
    unfold logical
    split
    · exact .ok (Value.every_bool _)
    · exact .error _
  cases op with
  | add =>
    unfold apply
    dsimp only
    split
    · exact .ok (Value.every_text _)
    · exact harith _ _ _
  | sub => exact harith _ _ _
  | mul => exact harith _ _ _
  | div => exact hdiv _ _ _
  | mod => exact hdiv _ _ _
  | eq => exact .ok (Value.every_bool _)
  | ne => exact .ok (Value.every_bool _)
  | lt => exact hcompare _ _
  | le => exact hcompare _ _
  | gt => exact hcompare _ _
  | ge => exact hcompare _ _
  | and => exact hlogical _ _
  | or => exact hlogical _ _

end BinaryOp

theorem UnaryOp.apply_every (op : UnaryOp) (a : Value) :
    Except.All (Value.Every ok) (op.apply a) := by
  unfold UnaryOp.apply
  split
  · exact .ok (Value.every_bool _)
  · split
    · exact .ok (Value.every_int _)
    · exact .error _
  · exact .ok (Value.every_float _)
  · exact .error _

namespace Value

theorem len_every (v : Value) : Except.All (Every ok) v.len := by
  cases v with
  | list items => exact .ok (every_int _)
  | set items => exact .ok (every_int _)
  | tuple items => exact .ok (every_int _)
  | map entries => exact .ok (every_int _)
  | text s => exact .ok (every_int _)
  | _ => exact .error _

theorem concat_every {a b : Value} (ha : a.Every ok) (hb : b.Every ok) :
    Except.All (Every ok) (a.concat b) := by
  unfold concat
  split
  · exact .ok (every_text _)
  · refine .bind (Argument.list_every _ ha) fun items hitems => ?_
    refine .bind (Argument.list_every _ hb) fun more hmore => ?_
    exact .ok (every_list.2 (hitems.append hmore))

theorem reverse_every {v : Value} (hv : v.Every ok) : Except.All (Every ok) v.reverse := by
  have hlist : Except.All (Every ok) (do
      return list (← Argument.list (.collection .reverse) v).reverse) :=
    .bind (Argument.list_every _ hv) fun items h =>
      .ok (every_list.2 fun w hw => h w (List.mem_reverse.1 hw))
  cases v with
  | text s => exact .ok (every_text _)
  | _ => exact hlist

theorem contains_every (a b : Value) : Except.All (Every ok) (a.contains b) := by
  unfold contains
  split
  · exact .ok (every_bool _)
  · exact .ok (every_bool _)
  · exact .ok (every_bool _)
  · exact .ok (every_bool _)
  · exact .error _

end Value

theorem CollectionOp.apply_every (op : CollectionOp) {args : List Value}
    (h : AllEvery ok args) : Except.All (Value.Every ok) (op.apply args) := by
  have hlist : ∀ (b : Builtin) (v : Value), v ∈ args → Except.All (AllEvery ok)
      (Argument.list b v) := fun b v hv => Argument.list_every b (h v hv)
  have hmap : ∀ (b : Builtin) (v : Value), v ∈ args → Except.All (EntriesEvery ok)
      (Argument.map b v) := fun b v hv => Argument.map_every b (h v hv)
  unfold CollectionOp.apply
  dsimp only
  split
  case h_1 v => exact v.len_every
  case h_2 l v =>
    exact .bind (hlist _ l (by simp)) fun items hitems => .ok (Value.every_list.2
      (hitems.append (.cons (h v (by simp)) (List.forall_mem_nil _))))
  case h_3 a b => exact Value.concat_every (h a (by simp)) (h b (by simp))
  case h_4 l =>
    exact .bind (hlist _ l (by simp)) fun items hitems => .ok (Value.every_option.2
      fun v hv => hitems v (List.mem_of_head? hv))
  case h_5 l =>
    exact .bind (hlist _ l (by simp)) fun items hitems => .ok (Value.every_list.2
      fun v hv => hitems v (List.mem_of_mem_drop hv))
  case h_6 l i =>
    exact .bind (hlist _ l (by simp)) fun items hitems => .bind (.of_true _) fun n _ =>
      .ok (Value.every_option.2 (Value.itemAt?_every hitems n))
  case h_7 v => exact Value.reverse_every (h v (by simp))
  case h_8 a b =>
    refine .bind (.of_true _) fun start _ => .bind (.of_true _) fun stop _ => .ok ?_
    refine Value.every_list.2 fun v hv => ?_
    obtain ⟨k, -, rfl⟩ := List.mem_map.1 hv
    exact Value.every_int _
  case h_9 a b => exact a.contains_every b
  case h_10 a b =>
    exact .bind (hmap _ a (by simp)) fun left hleft => .bind (hmap _ b (by simp)) fun right hright =>
      .ok (Value.every_map.2 (Keyed.forall_foldl_insert hleft hright))
  case h_11 m k =>
    exact .bind (hmap _ m (by simp)) fun entries he => .bind (.of_true _) fun key _ =>
      .ok (Value.every_option.2 (Value.get?_every he key))
  case h_12 m k v =>
    exact .bind (hmap _ m (by simp)) fun entries he => .bind (.of_true _) fun key _ =>
      .ok (Value.every_map.2 (Keyed.forall_insert (h v (by simp)) he))
  case h_13 m k =>
    exact .bind (hmap _ m (by simp)) fun entries he => .bind (.of_true _) fun key _ =>
      .ok (Value.every_map.2 fun e hm => he e (List.mem_filter.1 hm).1)
  case h_14 m =>
    refine .bind (.of_true _) fun entries _ => .ok (Value.every_list.2 fun v hv => ?_)
    obtain ⟨e, -, rfl⟩ := List.mem_map.1 hv
    exact Value.every_text _
  case h_15 m =>
    refine .bind (hmap _ m (by simp)) fun entries he => .ok (Value.every_list.2 fun v hv => ?_)
    obtain ⟨e, hm, rfl⟩ := List.mem_map.1 hv
    exact he e hm
  case h_16 m k =>
    exact .bind (.of_true _) fun entries _ => .bind (.of_true _) fun key _ =>
      .ok (Value.every_bool _)
  case h_17 l =>
    exact .bind (hlist _ l (by simp)) fun items hitems => .ok (Value.setOf_every hitems)
  case h_18 s v =>
    exact .bind (hlist _ s (by simp)) fun items hitems => .ok (Value.setOf_every
      (hitems.append (.cons (h v (by simp)) (List.forall_mem_nil _))))
  case h_19 a b =>
    exact .bind (hlist _ a (by simp)) fun left hleft => .bind (hlist _ b (by simp)) fun right hright =>
      .ok (Value.setOf_every (hleft.append hright))
  case h_20 => exact .error _

theorem WrapperOp.apply_every (op : WrapperOp) {args : List Value} (h : AllEvery ok args) :
    Except.All (Value.Every ok) (op.apply args) := by
  unfold WrapperOp.apply
  dsimp only
  split
  case h_1 v => exact .ok (by simpa using h v (by simp))
  case h_2 v => exact .ok (by simpa using h v (by simp))
  case h_3 => exact .ok (by simp)
  case h_4 v => exact .ok (by simpa using h v (by simp))
  case h_5 v => exact .ok (by simpa using h v (by simp))
  case h_6 v => exact .ok (by simpa using h v (by simp))
  case h_7 v => exact .ok (by simpa using h v (by simp))
  case h_8 v =>
    have hv := h v (by simp)
    unfold Value.unwrap
    split
    · exact .ok (Value.every_option.1 hv _ rfl)
    · exact .ok (Value.every_ok.1 hv)
    · exact .error _
    · exact .error _
    · exact .error _
  case h_9 v fallback =>
    have hv := h v (by simp)
    have hfallback := h fallback (by simp)
    unfold Value.unwrapOr
    split
    · exact .ok (Value.every_option.1 hv _ rfl)
    · exact .ok (Value.every_ok.1 hv)
    · exact .ok hfallback
    · exact .ok hfallback
    · exact .error _
  case h_14 => exact .error _
  all_goals exact .bind (.of_true _) fun b _ => .ok (Value.every_bool _)

theorem ScalarOp.apply_every (op : ScalarOp) {args : List Value} (h : AllEvery ok args) :
    Except.All (Value.Every ok) (op.apply args) := by
  have hwhole : ∀ b round v, Except.All (Value.Every ok) (Value.toWhole b round v) := by
    intro b round v
    refine .bind (.of_true _) fun x _ => ?_
    split
    · exact .error _
    · split
      · exact .ok (Value.every_int _)
      · exact .error _
  have hextreme : ∀ op a b, a ∈ args → b ∈ args →
      Except.All (Value.Every ok) (Value.extreme op a b) := by
    intro op a b ha hb
    have hpick : ∀ c : Bool, (if c then a else b).Every ok := by
      intro c
      split
      · exact h a ha
      · exact h b hb
    unfold Value.extreme
    dsimp only
    split
    · exact .ok (hpick _)
    · exact .ok (hpick _)
    · exact .bind (.of_true _) fun x _ => .bind (.of_true _) fun y _ => .ok (hpick _)
  unfold ScalarOp.apply
  dsimp only
  split
  case h_1 v => exact .ok (Value.every_text _)
  case h_2 v => exact .bind (.of_true _) fun s _ => .ok (Value.every_text _)
  case h_3 v => exact .bind (.of_true _) fun s _ => .ok (Value.every_text _)
  case h_4 v sep =>
    refine .bind (.of_true _) fun s _ => .bind (.of_true _) fun t _ => .ok ?_
    refine Value.every_list.2 fun w hw => ?_
    obtain ⟨part, -, rfl⟩ := List.mem_map.1 hw
    exact Value.every_text _
  case h_5 l sep =>
    exact .bind (.of_true _) fun items _ => .bind (.of_true _) fun s _ => .ok (Value.every_text _)
  case h_6 v =>
    unfold Value.abs
    split
    · split
      · exact .ok (Value.every_int _)
      · exact .error _
    · exact .ok (Value.every_float _)
    · exact .error _
  case h_7 a b => exact hextreme _ a b (by simp) (by simp)
  case h_8 a b => exact hextreme _ a b (by simp) (by simp)
  case h_9 v =>
    refine .bind (.of_true _) fun x _ => ?_
    split
    · exact .ok (Value.every_float _)
    · exact .error _
  case h_10 v =>
    unfold Value.floor
    split
    · exact .ok (Value.every_int _)
    · exact hwhole _ _ _
  case h_11 v =>
    unfold Value.toFloat
    split
    · split
      · exact .ok (Value.every_float _)
      · exact .error _
    · exact .bind (.of_true _) fun x _ => .ok (Value.every_float _)
  case h_12 v =>
    unfold Value.toInt
    split
    · exact .ok (Value.every_int _)
    · split
      · exact .ok (Value.every_int _)
      · exact .error _
    · exact hwhole _ _ _
  case h_13 => exact .error _

theorem Value.chunks_every (size : Nat) {items : List Value} (h : AllEvery ok items) :
    AllEvery ok (Value.chunks size items) := by
  have hfrom : ∀ {vs group : List Value} {room : Nat}, AllEvery ok vs → AllEvery ok group →
      AllEvery ok (Value.chunksFrom size group room vs) := by
    intro vs
    induction vs with
    | nil =>
      intro group room _ hgroup
      rw [Value.chunksFrom]
      split
      · exact List.forall_mem_nil _
      · refine .cons (Value.every_list.2 fun v hv => ?_) (List.forall_mem_nil _)
        exact hgroup v (List.mem_reverse.1 hv)
    | cons v rest ih =>
      intro group room hvs hgroup
      obtain ⟨hv, hrest⟩ := List.forall_mem_cons.1 hvs
      have hgrown : AllEvery ok (v :: group) := .cons hv hgroup
      rw [Value.chunksFrom]
      split
      · refine .cons (Value.every_list.2 fun w hw => ?_) (ih hrest (List.forall_mem_nil _))
        exact hgrown w (List.mem_reverse.1 hw)
      · exact ih hrest hgrown
  exact hfrom h (List.forall_mem_nil _)

theorem Value.sum_every (items : List Value) :
    Except.All (Value.Every ok) (Value.sum items) := by
  rw [Value.sum]
  cases Value.allInts? items with
  | some ns =>
    dsimp only [Value.sumInts]
    cases ns.foldlM Whole.add? 0 with
    | some n => exact .ok (Value.every_int n)
    | none => exact .error _
  | none => exact .bind (.of_true _) fun _ _ => .ok (Value.every_float _)

theorem SourceOp.source_every (op : SourceOp) {args : List Value} (h : AllEvery ok args) :
    Except.All (fun source => AllEvery ok source.values) (op.source args) := by
  unfold SourceOp.source
  split
  · exact .bind (Argument.list_every _ (h _ (.head _))) fun _ hitems => .ok hitems
  · refine .bind (.of_true _) fun start _ => .bind (.of_true _) fun stop _ => ?_
    have hrange : ∀ step, Except.All (fun source : Source => AllEvery ok source.values)
        (if step == 0 then .error Fault.zeroStep else .ok (Source.range start stop step)) := by
      intro step
      split
      · exact .error _
      · exact .ok (List.forall_mem_nil _)
    split
    · exact hrange 1
    · exact hrange 1
    · exact .bind (.of_true _) fun step _ => hrange step
  · exact .bind (.of_true _) fun _ _ => .ok fun v hv => h v (.tail _ hv)
  · exact .ok h
  · exact .ok (List.forall_mem_nil _)
  · exact .error _

theorem Pipeline.withStage_every {pipeline : Pipeline} {stage : Stage}
    (hp : AllEvery ok pipeline.values) (hstage : AllEvery ok stage.values) :
    AllEvery ok (pipeline.withStage stage).values := by
  obtain ⟨hsource, hstages⟩ := List.forall_mem_append.1 hp
  refine AllEvery.append hsource ?_
  rw [withStage, List.flatMap_append, List.flatMap_singleton]
  exact AllEvery.append hstages hstage

theorem setField_every (name : String) {v : Value} (hv : v.Every ok)
    {fields : List (String × Value)} (hfields : EntriesEvery ok fields) :
    EntriesEvery ok (setField name v fields) := by
  induction fields with
  | nil => exact List.forall_mem_nil _
  | cons entry rest ih =>
    obtain ⟨hentry, hrest⟩ := List.forall_mem_cons.1 hfields
    rw [setField]
    split
    · exact List.forall_mem_cons.2 ⟨hv, hrest⟩
    · exact List.forall_mem_cons.2 ⟨hentry, ih hrest⟩

theorem foldl_insert_every {updates : List (FieldInit × Value)}
    (hupdates : ∀ u ∈ updates, u.2.Every ok) {entries : List (String × Value)}
    (hentries : EntriesEvery ok entries) :
    EntriesEvery ok (updates.foldl (fun m u => Keyed.insert u.1.name u.2 m) entries) := by
  induction updates generalizing entries with
  | nil => exact hentries
  | cons u rest ih =>
    obtain ⟨hu, hrest⟩ := List.forall_mem_cons.1 hupdates
    exact ih hrest (Keyed.forall_insert hu hentries)

theorem Run.variantPayload_every {args : List Value} (hargs : AllEvery ok args) :
    ∀ v, Run.variantPayload args = some v → v.Every ok := by
  cases args with
  | nil => rintro v ⟨⟩
  | cons w rest => cases rest with
    | nil =>
      rintro v ⟨⟩
      exact hargs w (.head _)
    | cons u rest =>
      rintro v ⟨⟩
      exact Value.every_tuple.2 hargs

namespace Value

mutual

/-- There are no futures, functions and records in a document. -/
theorem read_every (L : Json.Library) : ∀ j : Json L.Number, (read L j).Every ok
  | .null => every_void
  | .bool b => every_bool b
  | .number n => by
    rw [read]
    cases L.asInt? n with
    | some k => exact every_int k
    | none => exact every_float _
  | .text s => every_text s
  | .array items => every_list.2 (readAll_every L items)
  | .object members =>
    every_map.2 (Keyed.forall_foldl_insert (List.forall_mem_nil _) (readMembers_every L members))
termination_by structural j => j

theorem readAll_every (L : Json.Library) :
    ∀ js : List (Json L.Number), AllEvery ok (readAll L js)
  | [] => AllEvery.nil
  | j :: rest => AllEvery.cons (read_every L j) (readAll_every L rest)
termination_by structural js => js

theorem readMembers_every (L : Json.Library) :
    ∀ members : List (String × Json L.Number), EntriesEvery ok (readMembers L members)
  | [] => List.forall_mem_nil _
  | (_, j) :: rest => List.forall_mem_cons.2 ⟨read_every L j, readMembers_every L rest⟩
termination_by structural members => members

end

end Value

/-- An answer is data. -/
theorem Run.replyValue_every (op : ServiceOp) (reply : Except String Json) :
    (Run.replyValue op reply).Every ok := by
  cases reply with
  | error message => exact Value.every_err.2 (Value.every_text message)
  | ok document =>
    refine Value.every_ok.2 ?_
    cases op with
    | trainModel => exact Value.every_model document
    | predict => exact Value.every_prediction document
    | _ => exact Value.read_every Json.library document

end StreamLang
