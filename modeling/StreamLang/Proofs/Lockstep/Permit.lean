import StreamLang.Proofs.Contents.Builtins
import StreamLang.Proofs.Contents.Every

/-! What may stand inside values besides data: whether futures may, which builtins and which
closures. A value is permitted when this holds of all that is inside it, to any depth. What
operators, accesses and builtins make of permitted values is permitted again. -/

namespace StreamLang

/-- What values may hold besides data. -/
structure Permit where
  future : Prop
  builtin : Builtin → Prop
  closure : FunctionDecl → Env → Nat → Prop

section

variable (p : Permit)

/-- The function, without the values it holds. -/
def Callable.Admitted : Callable → Prop
  | closure decl env module => p.closure decl env module
  | builtin b => p.builtin b
  | applied target _ => target.Admitted

/-- The value, without its parts. -/
def Value.Admitted : Value → Prop
  | future _ => p.future
  | function _ c => c.Admitted p
  | _ => True

inductive Value.Permitted : Value → Prop
  | mk {v : Value} (self : v.Admitted p) (parts : ∀ w ∈ v.parts, Value.Permitted w) :
    Value.Permitted v

end

namespace Value

variable {p : Permit}

theorem permitted_iff {v : Value} :
    v.Permitted p ↔ v.Admitted p ∧ ∀ w ∈ v.parts, w.Permitted p :=
  ⟨fun ⟨h, hp⟩ => ⟨h, hp⟩, fun ⟨h, hp⟩ => ⟨h, hp⟩⟩

/-- Only the parts of the value matter. -/
theorem permitted_iff_parts {v : Value} (h : v.Admitted p) :
    v.Permitted p ↔ ∀ w ∈ v.parts, w.Permitted p :=
  permitted_iff.trans (and_iff_right h)

@[simp] theorem permitted_int (n : Int64) : (int n).Permitted p := ⟨trivial, List.forall_mem_nil _⟩

@[simp] theorem permitted_float (x : Binary64) : (float x).Permitted p :=
  ⟨trivial, List.forall_mem_nil _⟩

@[simp] theorem permitted_text (s : String) : (text s).Permitted p := ⟨trivial, List.forall_mem_nil _⟩

@[simp] theorem permitted_bool (b : Bool) : (bool b).Permitted p := ⟨trivial, List.forall_mem_nil _⟩

@[simp] theorem permitted_void : void.Permitted p := ⟨trivial, List.forall_mem_nil _⟩

@[simp] theorem permitted_model (document : Json) : (model document).Permitted p :=
  ⟨trivial, List.forall_mem_nil _⟩

@[simp] theorem permitted_prediction (document : Json) : (prediction document).Permitted p :=
  ⟨trivial, List.forall_mem_nil _⟩

@[simp] theorem permitted_list {items : List Value} :
    (list items).Permitted p ↔ ∀ v ∈ items, v.Permitted p :=
  permitted_iff_parts trivial

@[simp] theorem permitted_set {items : List Value} :
    (set items).Permitted p ↔ ∀ v ∈ items, v.Permitted p :=
  permitted_iff_parts trivial

@[simp] theorem permitted_tuple {items : List Value} :
    (tuple items).Permitted p ↔ ∀ v ∈ items, v.Permitted p :=
  permitted_iff_parts trivial

@[simp] theorem permitted_map {entries : List (String × Value)} :
    (map entries).Permitted p ↔ ∀ e ∈ entries, e.2.Permitted p :=
  (permitted_iff_parts (v := map entries) trivial).trans List.forall_mem_map

@[simp] theorem permitted_record {name : String} {fields : List (String × Value)} :
    (record name fields).Permitted p ↔ ∀ e ∈ fields, e.2.Permitted p :=
  (permitted_iff_parts (v := record name fields) trivial).trans List.forall_mem_map

theorem forall_mem_toList {inner : Option Value} :
    (∀ v ∈ inner.toList, v.Permitted p) ↔ ∀ v, inner = some v → v.Permitted p :=
  ⟨fun h v hv => h v (Option.mem_toList.2 hv), fun h v hv => h v (Option.mem_toList.1 hv)⟩

@[simp] theorem permitted_enum {e w : String} {payload : Option Value} :
    (enum e w payload).Permitted p ↔ ∀ v, payload = some v → v.Permitted p :=
  (permitted_iff_parts (v := enum e w payload) trivial).trans forall_mem_toList

@[simp] theorem permitted_option {inner : Option Value} :
    (option inner).Permitted p ↔ ∀ v, inner = some v → v.Permitted p :=
  (permitted_iff_parts (v := option inner) trivial).trans forall_mem_toList

@[simp] theorem permitted_ok {inner : Value} : (ok inner).Permitted p ↔ inner.Permitted p :=
  (permitted_iff_parts (v := ok inner) trivial).trans List.forall_mem_singleton

@[simp] theorem permitted_err {error : Value} : (err error).Permitted p ↔ error.Permitted p :=
  (permitted_iff_parts (v := err error) trivial).trans List.forall_mem_singleton

@[simp] theorem permitted_future {id : Nat} : (future id).Permitted p ↔ p.future :=
  permitted_iff.trans (and_iff_left (List.forall_mem_nil _))

@[simp] theorem permitted_stream {identity : Identity} {pipeline : Pipeline} :
    (stream identity pipeline).Permitted p ↔ ∀ v ∈ pipeline.values, v.Permitted p :=
  permitted_iff_parts trivial

@[simp] theorem permitted_function {identity : Identity} {c : Callable} :
    (function identity c).Permitted p ↔ c.Admitted p ∧ ∀ v ∈ c.values, v.Permitted p :=
  permitted_iff

theorem admitted_of_not_subject {v : Value} (h : v.isSubject = false) : v.Admitted p := by
  cases v with
  | future id => cases h
  | function identity c => cases h
  | _ => trivial

/-- Of data nothing is asked, nor of records, so that only futures and functions matter. -/
theorem permitted_eq_every : Value.Permitted p = Value.Every (Value.Admitted p) := by
  funext v
  refine propext ⟨fun h => ?_, fun h => ?_⟩
  · induction h with
    | mk self _ ih => exact ⟨fun _ => self, ih⟩
  · induction h with
    | @mk v self _ ih =>
      cases hv : v.isSubject with
      | true => exact ⟨self hv, ih⟩
      | false => exact ⟨admitted_of_not_subject hv, ih⟩

mutual

/-- Data is always permitted. -/
theorem permitted_of_isPlain (v : Value) (h : v.isPlain = true) : v.Permitted p := by
  cases v with
  | list items => exact permitted_list.2 (permitted_of_allPlain items h)
  | set items => exact permitted_set.2 (permitted_of_allPlain items h)
  | tuple items => exact permitted_tuple.2 (permitted_of_allPlain items h)
  | map entries => exact permitted_map.2 (permitted_of_allEntriesPlain entries h)
  | record _ fields => exact permitted_record.2 (permitted_of_allEntriesPlain fields h)
  | enum _ _ payload => cases payload with
    | none => exact permitted_enum.2 (by rintro v ⟨⟩)
    | some v =>
      have hv := permitted_of_isPlain v h
      exact permitted_enum.2 (by rintro w ⟨⟩; exact hv)
  | option inner => cases inner with
    | none => exact permitted_option.2 (by rintro v ⟨⟩)
    | some v =>
      have hv := permitted_of_isPlain v h
      exact permitted_option.2 (by rintro w ⟨⟩; exact hv)
  | ok inner => exact permitted_ok.2 (permitted_of_isPlain inner h)
  | err error => exact permitted_err.2 (permitted_of_isPlain error h)
  | future _ => cases h
  | stream _ _ => cases h
  | function _ _ => cases h
  | model _ => cases h
  | prediction _ => cases h
  | _ => simp
termination_by structural v

theorem permitted_of_allPlain (vs : List Value) (h : allPlain vs = true) :
    ∀ v ∈ vs, v.Permitted p := by
  cases vs with
  | nil => exact List.forall_mem_nil _
  | cons v rest =>
    obtain ⟨hv, hrest⟩ := Bool.and_eq_true_iff.1 h
    exact List.forall_mem_cons.2 ⟨permitted_of_isPlain v hv, permitted_of_allPlain rest hrest⟩
termination_by structural vs

theorem permitted_of_allEntriesPlain (entries : List (String × Value))
    (h : allEntriesPlain entries = true) : ∀ e ∈ entries, e.2.Permitted p := by
  cases entries with
  | nil => exact List.forall_mem_nil _
  | cons e rest =>
    obtain ⟨_, v⟩ := e
    obtain ⟨hv, hrest⟩ := Bool.and_eq_true_iff.1 h
    exact List.forall_mem_cons.2 ⟨permitted_of_isPlain v hv, permitted_of_allEntriesPlain rest hrest⟩
termination_by structural entries

end

end Value

variable {p : Permit}

/-- All values of a list are permitted. -/
def AllPermitted (p : Permit) (vs : List Value) : Prop := ∀ v ∈ vs, v.Permitted p

theorem AllPermitted.cons {v : Value} {vs : List Value} (hv : v.Permitted p) (hvs : AllPermitted p vs) :
    AllPermitted p (v :: vs) :=
  List.forall_mem_cons.2 ⟨hv, hvs⟩

theorem AllPermitted.append {vs ws : List Value} (hvs : AllPermitted p vs) (hws : AllPermitted p ws) :
    AllPermitted p (vs ++ ws) :=
  List.forall_mem_append.2 ⟨hvs, hws⟩

theorem AllPermitted.of_subset {vs ws : List Value} (hvs : AllPermitted p vs) (h : ws ⊆ vs) :
    AllPermitted p ws :=
  fun w hw => hvs w (h hw)

/-- The values of all entries are permitted. -/
def EntriesPermitted (p : Permit) (entries : List (String × Value)) : Prop :=
  ∀ e ∈ entries, e.2.Permitted p

theorem allPermitted_eq_every : AllPermitted p = AllEvery (Value.Admitted p) := by
  unfold AllPermitted
  rw [Value.permitted_eq_every]
  rfl

theorem entriesPermitted_eq_every : EntriesPermitted p = EntriesEvery (Value.Admitted p) := by
  unfold EntriesPermitted
  rw [Value.permitted_eq_every]
  rfl

/-- Every value. -/
def Permit.all : Permit := ⟨True, fun _ => True, fun _ _ _ => True⟩

theorem Callable.admitted_all : ∀ c : Callable, c.Admitted .all
  | closure _ _ _ => trivial
  | builtin _ => trivial
  | applied target _ => admitted_all target

namespace Value

mutual

theorem permitted_all (v : Value) : v.Permitted .all := by
  cases v with
  | list items => exact permitted_list.2 (items_permitted_all items)
  | set items => exact permitted_set.2 (items_permitted_all items)
  | tuple items => exact permitted_tuple.2 (items_permitted_all items)
  | map entries => exact permitted_map.2 (entries_permitted_all entries)
  | record _ fields => exact permitted_record.2 (entries_permitted_all fields)
  | enum _ _ payload => exact permitted_enum.2 (option_permitted_all payload)
  | option inner => exact permitted_option.2 (option_permitted_all inner)
  | ok inner => exact permitted_ok.2 (permitted_all inner)
  | err error => exact permitted_err.2 (permitted_all error)
  | future _ => exact permitted_future.2 trivial
  | stream _ p => exact permitted_stream.2 (pipeline_permitted_all p)
  | function _ c => exact permitted_function.2 ⟨c.admitted_all, callable_permitted_all c⟩
  | _ => simp
termination_by structural v

theorem items_permitted_all (items : List Value) : AllPermitted .all items := by
  cases items with
  | nil => exact List.forall_mem_nil _
  | cons v rest => exact .cons (permitted_all v) (items_permitted_all rest)
termination_by structural items

theorem entries_permitted_all (entries : List (String × Value)) :
    EntriesPermitted .all entries := by
  cases entries with
  | nil => exact List.forall_mem_nil _
  | cons e rest =>
    obtain ⟨_, v⟩ := e
    exact List.forall_mem_cons.2 ⟨permitted_all v, entries_permitted_all rest⟩
termination_by structural entries

theorem option_permitted_all (inner : Option Value) : ∀ v, inner = some v → v.Permitted .all := by
  cases inner with
  | none => rintro v ⟨⟩
  | some v =>
    have hv := permitted_all v
    rintro w ⟨⟩
    exact hv
termination_by structural inner

theorem callable_permitted_all (c : Callable) : AllPermitted .all c.values := by
  cases c with
  | closure _ env _ => exact frames_permitted_all env
  | builtin _ => exact List.forall_mem_nil _
  | applied target args =>
    exact AllPermitted.append (callable_permitted_all target) (items_permitted_all args)
termination_by structural c

theorem frames_permitted_all (frames : List (List (String × Value))) :
    AllPermitted .all (Env.values frames) := by
  cases frames with
  | nil => exact List.forall_mem_nil _
  | cons frame rest =>
    exact AllPermitted.append (List.forall_mem_map.2 (entries_permitted_all frame))
      (frames_permitted_all rest)
termination_by structural frames

theorem pipeline_permitted_all (p : Pipeline) : AllPermitted .all p.values := by
  obtain ⟨source, stages⟩ := p
  exact AllPermitted.append (source_permitted_all source) (stages_permitted_all stages)
termination_by structural p

theorem source_permitted_all (source : Source) : AllPermitted .all source.values := by
  cases source with
  | list items => exact items_permitted_all items
  | generate _ generator => exact .cons (permitted_all generator) (List.forall_mem_nil _)
  | infinite generator => exact .cons (permitted_all generator) (List.forall_mem_nil _)
  | _ => exact List.forall_mem_nil _
termination_by structural source

theorem stages_permitted_all (stages : List Stage) :
    AllPermitted .all (stages.flatMap Stage.values) := by
  cases stages with
  | nil => exact List.forall_mem_nil _
  | cons stage rest => exact AllPermitted.append (stage_permitted_all stage) (stages_permitted_all rest)
termination_by structural stages

theorem stage_permitted_all (stage : Stage) : AllPermitted .all stage.values := by
  cases stage with
  | map f => exact .cons (permitted_all f) (List.forall_mem_nil _)
  | filter f => exact .cons (permitted_all f) (List.forall_mem_nil _)
  | flatMap f => exact .cons (permitted_all f) (List.forall_mem_nil _)
  | _ => exact List.forall_mem_nil _
termination_by structural stage

end

end Value

end StreamLang

/-! What operators, accesses and builtins make of permitted values -/

namespace StreamLang

variable {p : Permit}

namespace Value

theorem fieldOf?_permitted {fields : List (String × Value)} (h : EntriesPermitted p fields)
    (name : String) : ∀ v, fieldOf? name fields = some v → v.Permitted p := by
  rw [entriesPermitted_eq_every] at h
  rw [permitted_eq_every]
  exact fieldOf?_every h name

theorem select_permitted {v : Value} (hv : v.Permitted p) (field : String) :
    Except.All (Permitted p) (v.select field) := by
  rw [permitted_eq_every] at hv ⊢
  exact select_every hv field

theorem index_permitted {target : Value} (h : target.Permitted p) (i : Value) :
    Except.All (Permitted p) (target.index i) := by
  rw [permitted_eq_every] at h ⊢
  exact index_every h i

end Value

theorem BinaryOp.apply_permitted (op : BinaryOp) (a b : Value) :
    Except.All (Value.Permitted p) (op.apply a b) := by
  rw [Value.permitted_eq_every]
  exact op.apply_every a b

theorem UnaryOp.apply_permitted (op : UnaryOp) (a : Value) :
    Except.All (Value.Permitted p) (op.apply a) := by
  rw [Value.permitted_eq_every]
  exact op.apply_every a

theorem CollectionOp.apply_permitted (op : CollectionOp) {args : List Value}
    (h : AllPermitted p args) : Except.All (Value.Permitted p) (op.apply args) := by
  rw [allPermitted_eq_every] at h
  rw [Value.permitted_eq_every]
  exact op.apply_every h

theorem WrapperOp.apply_permitted (op : WrapperOp) {args : List Value} (h : AllPermitted p args) :
    Except.All (Value.Permitted p) (op.apply args) := by
  rw [allPermitted_eq_every] at h
  rw [Value.permitted_eq_every]
  exact op.apply_every h

theorem ScalarOp.apply_permitted (op : ScalarOp) {args : List Value} (h : AllPermitted p args) :
    Except.All (Value.Permitted p) (op.apply args) := by
  rw [allPermitted_eq_every] at h
  rw [Value.permitted_eq_every]
  exact op.apply_every h

theorem Value.chunks_permitted (size : Nat) {items : List Value} (h : AllPermitted p items) :
    AllPermitted p (Value.chunks size items) := by
  rw [allPermitted_eq_every] at h ⊢
  exact Value.chunks_every size h

theorem Value.sum_permitted (items : List Value) :
    Except.All (Value.Permitted p) (Value.sum items) := by
  rw [Value.permitted_eq_every]
  exact Value.sum_every items

theorem SourceOp.source_permitted (op : SourceOp) {args : List Value} (h : AllPermitted p args) :
    Except.All (fun source => AllPermitted p source.values) (op.source args) := by
  rw [allPermitted_eq_every] at h ⊢
  exact op.source_every h

theorem Pipeline.withStage_permitted {pipeline : Pipeline} {stage : Stage}
    (hp : AllPermitted p pipeline.values) (hstage : AllPermitted p stage.values) :
    AllPermitted p (pipeline.withStage stage).values := by
  rw [allPermitted_eq_every] at hp hstage ⊢
  exact Pipeline.withStage_every hp hstage

theorem setField_permitted (name : String) {v : Value} (hv : v.Permitted p)
    {fields : List (String × Value)} (hfields : EntriesPermitted p fields) :
    EntriesPermitted p (setField name v fields) := by
  rw [Value.permitted_eq_every] at hv
  rw [entriesPermitted_eq_every] at hfields ⊢
  exact setField_every name hv hfields

theorem foldl_insert_permitted {updates : List (FieldInit × Value)}
    (hupdates : ∀ u ∈ updates, u.2.Permitted p) {entries : List (String × Value)}
    (hentries : EntriesPermitted p entries) :
    EntriesPermitted p (updates.foldl (fun m u => Keyed.insert u.1.name u.2 m) entries) := by
  rw [Value.permitted_eq_every] at hupdates
  rw [entriesPermitted_eq_every] at hentries ⊢
  exact foldl_insert_every hupdates hentries

theorem Run.variantPayload_permitted {args : List Value} (hargs : AllPermitted p args) :
    ∀ v, Run.variantPayload args = some v → v.Permitted p := by
  rw [allPermitted_eq_every] at hargs
  rw [Value.permitted_eq_every]
  exact Run.variantPayload_every hargs

end StreamLang
