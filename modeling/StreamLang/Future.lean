import StreamLang.Value.Text

/-!
Futures: values that are not there yet. A future is settled once, and stays as it is from then on.
-/

namespace StreamLang

/-- The place of a future in the table. It is a natural number and has no width: a counter of 32 bits
would begin again at the first future after 2^32 of them, none of which is ever given back. -/
abbrev FutureId : Type := Nat

/-- The number of a task, without a width like that of a future. -/
abbrev TaskId : Type := Nat

/-- How a computation failed: what it failed with, and the line, or 0 while no line is known. -/
structure Failed where
  error : Value
  line : Nat

def Failed.message (f : Failed) : String := f.error.render

inductive FutureState
  | pending
  | resolved (v : Value)
  | failed (f : Failed)

namespace FutureState

def label : FutureState → String
  | pending => "pending"
  | resolved _ => "resolved"
  | failed _ => "failed"

def isPending : FutureState → Bool
  | pending => true
  | _ => false

end FutureState

/-- A future with the tasks that wait for it, first to last, and whether anyone has looked at
it. -/
structure FutureSlot where
  state : FutureState
  waiters : List TaskId
  observed : Bool

/-- All futures of an interpreter, in the order in which they were made. -/
structure FutureTable where
  slots : Array FutureSlot

namespace FutureTable

def empty : FutureTable := ⟨#[]⟩

def size (t : FutureTable) : Nat := t.slots.size

/-- A new pending future. -/
def create (t : FutureTable) : FutureTable := ⟨t.slots.push ⟨.pending, [], false⟩⟩

def state? (t : FutureTable) (id : FutureId) : Option FutureState :=
  t.slots[id]?.map FutureSlot.state

def isPending (t : FutureTable) (id : FutureId) : Bool :=
  ((t.state? id).map FutureState.isPending).getD false

def markObserved (t : FutureTable) (id : FutureId) : FutureTable :=
  ⟨t.slots.modify id fun s => { s with observed := true }⟩

/-- A task waits for the future. -/
def register (t : FutureTable) (id : FutureId) (task : TaskId) : FutureTable :=
  ⟨t.slots.modify id fun s => { s with waiters := s.waiters ++ [task], observed := true }⟩

/-- The tasks that wait for the future. -/
def waiters (t : FutureTable) (id : FutureId) : List TaskId :=
  (t.slots[id]?.map FutureSlot.waiters).getD []

/-- Settles a pending future; nobody waits for it any more. -/
def settle (t : FutureTable) (id : FutureId) (state : FutureState) : FutureTable :=
  ⟨t.slots.modify id fun s => { s with state, waiters := [] }⟩

/-- The failures nobody has looked at. -/
def unobservedFailures (t : FutureTable) : List (FutureId × Failed) :=
  t.slots.toList.zipIdx.filterMap fun s =>
    match s.1.state with
    | .failed f => if s.1.observed then none else some (s.2, f)
    | _ => none

@[simp] theorem size_create (t : FutureTable) : t.create.size = t.size + 1 := by
  simp [create, size]

theorem state?_create_self (t : FutureTable) : t.create.state? t.size = some .pending := by
  simp [create, size, state?]

theorem state?_create_of_lt {t : FutureTable} {id : FutureId} (h : id < t.size) :
    t.create.state? id = t.state? id := by
  simp [create, state?, Array.getElem?_push_lt h, Array.getElem?_eq_getElem h]

theorem state?_create (t : FutureTable) (id : FutureId) :
    t.create.state? id = if id = t.size then some .pending else t.state? id := by
  simp only [create, state?, size, Array.getElem?_push]
  by_cases h : id = t.slots.size <;> simp [h]

@[simp] theorem size_settle (t : FutureTable) (id : FutureId) (state : FutureState) :
    (t.settle id state).size = t.size := by
  simp [settle, size]

theorem state?_settle_self {t : FutureTable} {id : FutureId} (h : id < t.size)
    (state : FutureState) : (t.settle id state).state? id = some state := by
  simp only [size] at h
  simp [settle, state?, h, Array.getElem_modify_self]

theorem state?_settle_of_ne {t : FutureTable} {id other : FutureId} (h : other ≠ id)
    (state : FutureState) : (t.settle id state).state? other = t.state? other := by
  simp [settle, state?, Array.getElem?_modify, h.symm]

@[simp] theorem state?_markObserved (t : FutureTable) (id other : FutureId) :
    (t.markObserved id).state? other = t.state? other := by
  simp only [markObserved, state?, Array.getElem?_modify]
  split <;> simp [Option.map_map, Function.comp_def]

@[simp] theorem state?_register (t : FutureTable) (id other : FutureId) (task : TaskId) :
    (t.register id task).state? other = t.state? other := by
  simp only [register, state?, Array.getElem?_modify]
  split <;> simp [Option.map_map, Function.comp_def]

@[simp] theorem size_markObserved (t : FutureTable) (id : FutureId) :
    (t.markObserved id).size = t.size := by
  simp [markObserved, size]

@[simp] theorem size_register (t : FutureTable) (id : FutureId) (task : TaskId) :
    (t.register id task).size = t.size := by
  simp [register, size]

@[simp] theorem waiters_create (t : FutureTable) (id : FutureId) :
    t.create.waiters id = t.waiters id := by
  simp only [create, waiters, Array.getElem?_push]
  split
  · rename_i h
    simp [h]
  · rfl

@[simp] theorem waiters_markObserved (t : FutureTable) (id other : FutureId) :
    (t.markObserved id).waiters other = t.waiters other := by
  simp only [markObserved, waiters, Array.getElem?_modify]
  split <;> simp [Option.map_map, Function.comp_def]

theorem waiters_register_self {t : FutureTable} {id : FutureId} (h : id < t.size)
    (task : TaskId) : (t.register id task).waiters id = t.waiters id ++ [task] := by
  simp only [size] at h
  simp [register, waiters, h, Array.getElem_modify_self]

theorem waiters_register_of_ne {t : FutureTable} {id other : FutureId} (h : other ≠ id)
    (task : TaskId) : (t.register id task).waiters other = t.waiters other := by
  simp [register, waiters, Array.getElem?_modify, h.symm]

theorem waiters_register {t : FutureTable} {id : FutureId} (h : id < t.size) (task : TaskId)
    (other : FutureId) :
    (t.register id task).waiters other =
      if other = id then t.waiters id ++ [task] else t.waiters other := by
  split
  case isTrue heq => rw [heq, waiters_register_self h]
  case isFalse hne => rw [waiters_register_of_ne hne]

@[simp] theorem waiters_settle_self (t : FutureTable) (id : FutureId) (state : FutureState) :
    (t.settle id state).waiters id = [] := by
  simp only [settle, waiters, Array.getElem?_modify, if_true]
  cases t.slots[id]? <;> rfl

theorem waiters_settle_of_ne {t : FutureTable} {id other : FutureId} (h : other ≠ id)
    (state : FutureState) : (t.settle id state).waiters other = t.waiters other := by
  simp [settle, waiters, Array.getElem?_modify, h.symm]

theorem state?_eq_none_iff {t : FutureTable} {id : FutureId} :
    t.state? id = none ↔ t.size ≤ id := by
  simp [state?, size]

theorem lt_size_of_state? {t : FutureTable} {id : FutureId} {state : FutureState}
    (h : t.state? id = some state) : id < t.size := by
  rcases Nat.lt_or_ge id t.size with hlt | hge
  · exact hlt
  · rw [state?_eq_none_iff.2 hge] at h
    cases h

/-- The futures that were there stay as they are. -/
theorem state?_create_of_some {t : FutureTable} {id : FutureId} {state : FutureState}
    (h : t.state? id = some state) : t.create.state? id = some state :=
  (state?_create_of_lt (lt_size_of_state? h)).trans h

/-- Only a pending future of the table counts as pending. -/
theorem isPending_iff {t : FutureTable} {id : FutureId} :
    t.isPending id = true ↔ t.state? id = some .pending := by
  rw [isPending]
  cases t.state? id with
  | none => simp
  | some state => cases state <;> simp [FutureState.isPending]

theorem lt_size_of_isPending {t : FutureTable} {id : FutureId} (h : t.isPending id = true) :
    id < t.size :=
  lt_size_of_state? (isPending_iff.1 h)

end FutureTable

end StreamLang
