import StreamLang.Interpreter

/-! What is inside a value, to any depth. Futures, functions and records are more than their parts;
a property of these may hold of every one of them that a value contains. -/

namespace StreamLang

/-- All names that an environment binds, innermost first. -/
def Env.names (env : Env) : List String := env.flatMap fun frame => frame.map (·.1)

def Env.values (env : Env) : List Value := env.flatMap fun frame => frame.map (·.2)

def Source.values : Source → List Value
  | list items => items
  | generate _ generator => [generator]
  | infinite generator => [generator]
  | _ => []

def Stage.values : Stage → List Value
  | map f => [f]
  | filter f => [f]
  | flatMap f => [f]
  | _ => []

def Pipeline.values (p : Pipeline) : List Value := p.source.values ++ p.stages.flatMap Stage.values

/-- The values a function holds: the environment of a closure, the arguments given so far. -/
def Callable.values : Callable → List Value
  | closure _ env _ => Env.values env
  | builtin _ => []
  | applied target args => target.values ++ args

/-- The values directly inside a value. -/
def Value.parts : Value → List Value
  | list items => items
  | set items => items
  | tuple items => items
  | map entries => entries.map (·.2)
  | record _ fields => fields.map (·.2)
  | enum _ _ payload => payload.toList
  | option inner => inner.toList
  | ok inner => [inner]
  | err error => [error]
  | stream _ p => p.values
  | function _ c => c.values
  | _ => []

/-- A future, a function or a record: it says more than what is inside it. -/
def Value.isSubject : Value → Bool
  | future _ => true
  | function _ _ => true
  | record _ _ => true
  | _ => false

/-- The property holds of every future, every function and every record in the value. -/
inductive Value.Every (ok : Value → Prop) : Value → Prop
  | mk {v : Value} (self : v.isSubject = true → ok v) (parts : ∀ w ∈ v.parts, Value.Every ok w) :
    Value.Every ok v

namespace Value

variable {ok : Value → Prop}

theorem every_iff {v : Value} :
    v.Every ok ↔ (v.isSubject = true → ok v) ∧ ∀ w ∈ v.parts, w.Every ok :=
  ⟨fun ⟨h, hp⟩ => ⟨h, hp⟩, fun ⟨h, hp⟩ => ⟨h, hp⟩⟩

/-- Only the parts of data matter. -/
theorem every_iff_parts {v : Value} (h : v.isSubject = false) :
    v.Every ok ↔ ∀ w ∈ v.parts, w.Every ok :=
  every_iff.trans (and_iff_right fun hv => by rw [h] at hv; cases hv)

theorem every_of_no_parts {v : Value} (h : v.isSubject = false) (hp : v.parts = []) : v.Every ok :=
  (every_iff_parts h).2 (by rw [hp]; exact List.forall_mem_nil _)

@[simp] theorem every_int (n : Int64) : (int n).Every ok := every_of_no_parts rfl rfl

@[simp] theorem every_float (x : Binary64) : (float x).Every ok := every_of_no_parts rfl rfl

@[simp] theorem every_text (s : String) : (text s).Every ok := every_of_no_parts rfl rfl

@[simp] theorem every_bool (b : Bool) : (bool b).Every ok := every_of_no_parts rfl rfl

@[simp] theorem every_void : void.Every ok := every_of_no_parts rfl rfl

@[simp] theorem every_model (document : Json) : (model document).Every ok :=
  every_of_no_parts rfl rfl

@[simp] theorem every_prediction (document : Json) : (prediction document).Every ok :=
  every_of_no_parts rfl rfl

@[simp] theorem every_list {items : List Value} :
    (list items).Every ok ↔ ∀ v ∈ items, v.Every ok :=
  every_iff_parts rfl

@[simp] theorem every_set {items : List Value} :
    (set items).Every ok ↔ ∀ v ∈ items, v.Every ok :=
  every_iff_parts rfl

@[simp] theorem every_tuple {items : List Value} :
    (tuple items).Every ok ↔ ∀ v ∈ items, v.Every ok :=
  every_iff_parts rfl

@[simp] theorem every_map {entries : List (String × Value)} :
    (map entries).Every ok ↔ ∀ e ∈ entries, e.2.Every ok :=
  (every_iff_parts (v := map entries) rfl).trans List.forall_mem_map

@[simp] theorem every_record {name : String} {fields : List (String × Value)} :
    (record name fields).Every ok ↔ ok (record name fields) ∧ ∀ e ∈ fields, e.2.Every ok :=
  every_iff.trans (and_congr ⟨fun h => h rfl, fun h _ => h⟩ List.forall_mem_map)

theorem forall_mem_toList_every {inner : Option Value} :
    (∀ v ∈ inner.toList, v.Every ok) ↔ ∀ v, inner = some v → v.Every ok :=
  ⟨fun h v hv => h v (Option.mem_toList.2 hv), fun h v hv => h v (Option.mem_toList.1 hv)⟩

@[simp] theorem every_enum {e w : String} {payload : Option Value} :
    (enum e w payload).Every ok ↔ ∀ v, payload = some v → v.Every ok :=
  (every_iff_parts (v := enum e w payload) rfl).trans forall_mem_toList_every

@[simp] theorem every_option {inner : Option Value} :
    (option inner).Every ok ↔ ∀ v, inner = some v → v.Every ok :=
  (every_iff_parts (v := option inner) rfl).trans forall_mem_toList_every

@[simp] theorem every_ok {inner : Value} : (Value.ok inner).Every ok ↔ inner.Every ok :=
  (every_iff_parts (v := Value.ok inner) rfl).trans List.forall_mem_singleton

@[simp] theorem every_err {error : Value} : (err error).Every ok ↔ error.Every ok :=
  (every_iff_parts (v := err error) rfl).trans List.forall_mem_singleton

@[simp] theorem every_future {id : Nat} : (future id).Every ok ↔ ok (future id) :=
  every_iff.trans ⟨fun h => h.1 rfl, fun h => ⟨fun _ => h, List.forall_mem_nil _⟩⟩

@[simp] theorem every_stream {identity : Identity} {pipeline : Pipeline} :
    (stream identity pipeline).Every ok ↔ ∀ v ∈ pipeline.values, v.Every ok :=
  every_iff_parts rfl

@[simp] theorem every_function {identity : Identity} {c : Callable} :
    (function identity c).Every ok ↔ ok (function identity c) ∧ ∀ v ∈ c.values, v.Every ok :=
  every_iff.trans (and_congr_left fun _ => ⟨fun h => h rfl, fun h _ => h⟩)

/-- A property that follows holds as well. -/
theorem Every.imp {ok' : Value → Prop} (h : ∀ v, v.isSubject = true → ok v → ok' v) {v : Value}
    (hv : v.Every ok) : v.Every ok' := by
  induction hv with
  | mk self _ ih => exact ⟨fun hsubject => h _ hsubject (self hsubject), ih⟩

end Value

/-- The property holds of every future, every function and every record in the values. -/
def AllEvery (ok : Value → Prop) (vs : List Value) : Prop := ∀ v ∈ vs, v.Every ok

/-- The property holds of every future, every function and every record in the values of the
entries. -/
def EntriesEvery (ok : Value → Prop) (entries : List (String × Value)) : Prop :=
  ∀ e ∈ entries, e.2.Every ok

namespace AllEvery

variable {ok : Value → Prop} {v : Value} {vs ws : List Value}

theorem nil : AllEvery ok [] := List.forall_mem_nil _

theorem cons (hv : v.Every ok) (hvs : AllEvery ok vs) : AllEvery ok (v :: vs) :=
  List.forall_mem_cons.2 ⟨hv, hvs⟩

theorem one (hv : v.Every ok) : AllEvery ok [v] := cons hv nil

theorem append (hvs : AllEvery ok vs) (hws : AllEvery ok ws) : AllEvery ok (vs ++ ws) :=
  List.forall_mem_append.2 ⟨hvs, hws⟩

theorem of_subset (hvs : AllEvery ok vs) (h : ws ⊆ vs) : AllEvery ok ws := fun w hw => hvs w (h hw)

theorem reverse (hvs : AllEvery ok vs) : AllEvery ok vs.reverse :=
  fun v hv => hvs v (List.mem_reverse.1 hv)

end AllEvery

end StreamLang
