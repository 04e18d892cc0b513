import Std.Data.HashMap
import StreamLang.Future

/-!
Tasks that take turns. A task that is ready stands in a queue, first come first served; one that
waits is woken, and stands at the end of the queue again, when its future settles.
-/

namespace StreamLang

/-- A queue in two halves, the second of them backwards. -/
structure Queue (α : Type) where
  front : List α
  back : List α

namespace Queue

variable {α : Type}

def empty : Queue α := ⟨[], []⟩

def toList (q : Queue α) : List α := q.front ++ q.back.reverse

def isEmpty (q : Queue α) : Bool := q.front.isEmpty && q.back.isEmpty

def push (q : Queue α) (a : α) : Queue α := ⟨q.front, a :: q.back⟩

def pop? (q : Queue α) : Option (α × Queue α) :=
  match q.front with
  | a :: rest => some (a, ⟨rest, q.back⟩)
  | [] =>
    match q.back.reverse with
    | [] => none
    | a :: rest => some (a, ⟨rest, []⟩)

@[simp] theorem toList_empty : (empty : Queue α).toList = [] := rfl

@[simp] theorem toList_push (q : Queue α) (a : α) : (q.push a).toList = q.toList ++ [a] := by
  simp [push, toList]

theorem pop?_eq_none {q : Queue α} : q.pop? = none ↔ q.toList = [] := by
  cases q with
  | mk front back =>
    cases front <;> cases h : back.reverse <;> simp_all [pop?, toList]

theorem toList_of_pop? {q r : Queue α} {a : α} (h : q.pop? = some (a, r)) :
    q.toList = a :: r.toList := by
  cases q with
  | mk front back =>
    cases front with
    | cons b rest =>
      simp only [pop?, Option.some.injEq, Prod.mk.injEq] at h
      obtain ⟨rfl, rfl⟩ := h
      rfl
    | nil =>
      cases hb : back.reverse with
      | nil => simp [pop?, hb] at h
      | cons b rest =>
        simp only [pop?, hb, Option.some.injEq, Prod.mk.injEq] at h
        obtain ⟨rfl, rfl⟩ := h
        simp [toList, hb]

end Queue

inductive TaskState
  | ready
  | running
  | suspended
  | completed
  | failed
deriving DecidableEq, Repr

def TaskState.label : TaskState → String
  | ready => "Ready"
  | running => "Running"
  | suspended => "Suspended"
  | completed => "Completed"
  | failed => "Failed"

/-- A task and the future it settles in the end. -/
structure Task (β : Type) where
  id : TaskId
  future : FutureId
  state : TaskState
  body : β

/-- The text of a task's number. -/
def TaskId.text (id : TaskId) : String := "task#" ++ toString id

/-- All futures, the tasks that wait or are ready, and the queue of the ready ones. A task that
runs is in neither place. -/
structure Scheduler (β : Type) where
  futures : FutureTable
  tasks : Std.HashMap TaskId (Task β)
  ready : Queue TaskId
  nextTask : TaskId

namespace Scheduler

variable {β : Type}

def empty : Scheduler β := ⟨.empty, ∅, .empty, 0⟩

/-- A new pending future that belongs to no task. -/
def createFuture (s : Scheduler β) : FutureId × Scheduler β :=
  (s.futures.size, { s with futures := s.futures.create })

/-- A new task, ready to run; gives its future. -/
def spawn (s : Scheduler β) (body : β) : FutureId × Scheduler β :=
  let future := s.futures.size
  (future,
    { futures := s.futures.create
      tasks := s.tasks.insert s.nextTask ⟨s.nextTask, future, .ready, body⟩
      ready := s.ready.push s.nextTask
      nextTask := s.nextTask + 1 })

/-- Takes out the next ready task; numbers without a task are passed over. The first argument
bounds the search. -/
def takeReady : Nat → Scheduler β → Option (Task β) × Scheduler β
  | 0, s => (none, s)
  | n + 1, s =>
    match s.ready.pop? with
    | none => (none, s)
    | some (id, ready) =>
      match s.tasks[id]? with
      | some task =>
        (some { task with state := .running }, { s with ready, tasks := s.tasks.erase id })
      | none => takeReady n { s with ready }

/-- The queue holds different numbers below the next one, so there are not more of them. -/
def nextReady (s : Scheduler β) : Option (Task β) × Scheduler β := takeReady (s.nextTask + 1) s

def hasReady (s : Scheduler β) : Bool := !s.ready.isEmpty

/-- How many tasks wait. -/
def suspended (s : Scheduler β) : Nat :=
  s.tasks.fold (fun n _ task => if task.state == .suspended then n + 1 else n) 0

/-- Puts a task back to wait for a future; if that is settled already, the task is ready again. -/
def suspend (s : Scheduler β) (task : Task β) (on : FutureId) : Scheduler β :=
  if s.futures.isPending on then
    { s with
      futures := s.futures.register on task.id
      tasks := s.tasks.insert task.id { task with state := .suspended } }
  else
    { s with
      ready := s.ready.push task.id
      tasks := s.tasks.insert task.id { task with state := .ready } }

/-- A task that waited is ready again. -/
def wakeOne (s : Scheduler β) (id : TaskId) : Scheduler β :=
  match s.tasks[id]? with
  | none => s
  | some task =>
    if task.state == .suspended then
      { s with
        ready := s.ready.push id
        tasks := s.tasks.insert id { task with state := .ready } }
    else s

/-- Settles a future and wakes the tasks that wait for it. A settled future stays as it is. -/
def settle (s : Scheduler β) (id : FutureId) (state : FutureState) : Scheduler β :=
  if s.futures.isPending id then
    let woken := s.futures.waiters id
    woken.foldl wakeOne { s with futures := s.futures.settle id state }
  else s

def resolve (s : Scheduler β) (id : FutureId) (v : Value) : Scheduler β := s.settle id (.resolved v)

def reject (s : Scheduler β) (id : FutureId) (f : Failed) : Scheduler β := s.settle id (.failed f)

/-- Ends a task with a value. -/
def complete (s : Scheduler β) (task : Task β) (v : Value) : Scheduler β := s.resolve task.future v

/-- Ends a task with a failure. -/
def fail (s : Scheduler β) (task : Task β) (f : Failed) : Scheduler β := s.reject task.future f

def markObserved (s : Scheduler β) (id : FutureId) : Scheduler β :=
  { s with futures := s.futures.markObserved id }

@[simp] theorem futures_wakeOne (s : Scheduler β) (id : TaskId) :
    (s.wakeOne id).futures = s.futures := by
  unfold wakeOne
  cases s.tasks[id]? with
  | none => rfl
  | some task =>
    dsimp only
    split <;> rfl

@[simp] theorem nextTask_wakeOne (s : Scheduler β) (id : TaskId) :
    (s.wakeOne id).nextTask = s.nextTask := by
  unfold wakeOne
  cases s.tasks[id]? with
  | none => rfl
  | some task =>
    dsimp only
    split <;> rfl

@[simp] theorem futures_foldl_wakeOne (s : Scheduler β) (ids : List TaskId) :
    (ids.foldl wakeOne s).futures = s.futures := by
  induction ids generalizing s with
  | nil => rfl
  | cons id rest ih => rw [List.foldl_cons, ih, futures_wakeOne]

@[simp] theorem nextTask_foldl_wakeOne (s : Scheduler β) (ids : List TaskId) :
    (ids.foldl wakeOne s).nextTask = s.nextTask := by
  induction ids generalizing s with
  | nil => rfl
  | cons id rest ih => rw [List.foldl_cons, ih, nextTask_wakeOne]

theorem futures_settle_of_pending {s : Scheduler β} {id : FutureId}
    (h : s.futures.isPending id = true) (state : FutureState) :
    (s.settle id state).futures = s.futures.settle id state := by
  simp [settle, h]

@[simp] theorem nextTask_settle (s : Scheduler β) (id : FutureId) (state : FutureState) :
    (s.settle id state).nextTask = s.nextTask := by
  unfold settle
  split
  · rw [nextTask_foldl_wakeOne]
  · rfl

/-- A future that is settled, or none at all, stays as it is, and nothing else changes. -/
theorem settle_of_not_pending {s : Scheduler β} {id : FutureId}
    (h : s.futures.state? id ≠ some .pending) (state : FutureState) : s.settle id state = s := by
  have hpending : s.futures.isPending id = false := by
    rw [← Bool.not_eq_true, FutureTable.isPending_iff]
    exact h
  simp [settle, hpending]

/-- Only the future that is settled changes its state. -/
theorem state?_settle_of_ne {s : Scheduler β} {id other : FutureId} (h : other ≠ id)
    (state : FutureState) :
    (s.settle id state).futures.state? other = s.futures.state? other := by
  cases hpending : s.futures.isPending id with
  | true => rw [futures_settle_of_pending hpending, FutureTable.state?_settle_of_ne h]
  | false => simp [settle, hpending]

theorem state?_settle_self {s : Scheduler β} {id : FutureId}
    (h : s.futures.state? id = some .pending) (state : FutureState) :
    (s.settle id state).futures.state? id = some state := by
  have hpending := FutureTable.isPending_iff.2 h
  rw [futures_settle_of_pending hpending]
  exact FutureTable.state?_settle_self (FutureTable.lt_size_of_isPending hpending) state

end Scheduler

end StreamLang
