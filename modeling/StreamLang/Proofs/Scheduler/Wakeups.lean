import Mathlib.Data.List.Nodup
import StreamLang.Scheduler

/-! Wake-ups. In every state that a scheduler comes to, a task of the table stands in the queue when
it is ready, and in the list of one pending future when it waits. So the future a task waits for
wakes it, and wakes it once. -/

namespace StreamLang

namespace Scheduler

variable {β : Type} {s t : Scheduler β} {out : List (Task β)}

/-- The states that an empty scheduler comes to by its operations, with the tasks that are taken
out and not handed back. -/
inductive Reached : Scheduler β → List (Task β) → Prop
  | empty : Reached .empty []
  | spawn {s : Scheduler β} {out : List (Task β)} (h : Reached s out) (body : β) :
    Reached (s.spawn body).2 out
  | createFuture {s : Scheduler β} {out : List (Task β)} (h : Reached s out) :
    Reached s.createFuture.2 out
  | observe {s : Scheduler β} {out : List (Task β)} (h : Reached s out) (id : FutureId) :
    Reached (s.markObserved id) out
  | take {s t : Scheduler β} {out : List (Task β)} {task : Task β} (h : Reached s out)
    (hnext : s.nextReady = (some task, t)) : Reached t (task :: out)
  | idle {s t : Scheduler β} {out : List (Task β)} (h : Reached s out)
    (hnext : s.nextReady = (none, t)) : Reached t out
  /-- A slice may have changed the body of the task. -/
  | suspend {s : Scheduler β} {before after : List (Task β)} {task : Task β}
    (h : Reached s (before ++ task :: after)) (body : β) (on : FutureId) :
    Reached (s.suspend { task with body } on) (before ++ after)
  | complete {s : Scheduler β} {before after : List (Task β)} {task : Task β}
    (h : Reached s (before ++ task :: after)) (v : Value) :
    Reached (s.complete task v) (before ++ after)
  | fail {s : Scheduler β} {before after : List (Task β)} {task : Task β}
    (h : Reached s (before ++ task :: after)) (f : Failed) :
    Reached (s.fail task f) (before ++ after)
  | resolve {s : Scheduler β} {out : List (Task β)} (h : Reached s out) (id : FutureId)
    (v : Value) : Reached (s.resolve id v) out
  | reject {s : Scheduler β} {out : List (Task β)} (h : Reached s out) (id : FutureId)
    (f : Failed) : Reached (s.reject id f) out

/-- The queue, the table and the lists of the futures tell the same about every task. -/
structure Coherent (s : Scheduler β) (out : List (Task β)) : Prop where
  queue_nodup : s.ready.toList.Nodup
  mem_queue : ∀ id, id ∈ s.ready.toList ↔ ∃ task, s.tasks[id]? = some task ∧ task.state = .ready
  /-- A task that waits is registered once, with one future, which is pending. -/
  suspended : ∀ id task, s.tasks[id]? = some task → task.state = .suspended →
    ∃ f, s.futures.state? f = some .pending ∧ (s.futures.waiters f).count id = 1 ∧
      ∀ g, g ≠ f → id ∉ s.futures.waiters g
  settled : ∀ f, s.futures.state? f ≠ some .pending → s.futures.waiters f = []
  away : ∀ task ∈ out, s.tasks[task.id]? = none ∧ task.id ∉ s.ready.toList ∧
    ∀ f, task.id ∉ s.futures.waiters f

/-- To settle the future wakes each task that waits for it once, and no other task. -/
structure WakesOnce (s : Scheduler β) (f : FutureId) (state : FutureState) : Prop where
  waiters_nodup : (s.futures.waiters f).Nodup
  queue : (s.settle f state).ready.toList = s.ready.toList ++ s.futures.waiters f
  waiter : ∀ id ∈ s.futures.waiters f, ∃ task, s.tasks[id]? = some task ∧
    task.state = .suspended ∧
    (s.settle f state).tasks[id]? = some { task with state := .ready }
  other : ∀ id, id ∉ s.futures.waiters f → (s.settle f state).tasks[id]? = s.tasks[id]?
  futures : (s.settle f state).futures = s.futures.settle f state

/-- What every operation keeps. -/
structure Invariant (s : Scheduler β) (out : List (Task β)) : Prop where
  key : ∀ {id : TaskId} {task : Task β}, s.tasks[id]? = some task → task.id = id
  numbered : ∀ {id : TaskId} {task : Task β}, s.tasks[id]? = some task → id < s.nextTask
  resting : ∀ {id : TaskId} {task : Task β}, s.tasks[id]? = some task →
    task.state = .ready ∨ task.state = .suspended
  away_numbered : ∀ {task : Task β}, task ∈ out → task.id < s.nextTask
  away_absent : ∀ {task : Task β}, task ∈ out → s.tasks[task.id]? = none
  away_nodup : (out.map Task.id).Nodup
  queue_nodup : s.ready.toList.Nodup
  mem_queue : ∀ {id : TaskId}, id ∈ s.ready.toList ↔
    ∃ task, s.tasks[id]? = some task ∧ task.state = .ready
  registered : ∀ {id : TaskId} {task : Task β}, s.tasks[id]? = some task → task.state = .suspended →
    ∃ f, id ∈ s.futures.waiters f
  waiter : ∀ {f : FutureId} {id : TaskId}, id ∈ s.futures.waiters f →
    ∃ task, s.tasks[id]? = some task ∧ task.state = .suspended
  waiters_nodup : ∀ f, (s.futures.waiters f).Nodup
  waiters_disjoint : ∀ {f g : FutureId} {id : TaskId}, id ∈ s.futures.waiters f →
    id ∈ s.futures.waiters g → f = g
  pending : ∀ {f : FutureId} {id : TaskId}, id ∈ s.futures.waiters f →
    s.futures.state? f = some .pending

namespace Invariant

variable (h : s.Invariant out)
include h

theorem not_mem_queue {id : TaskId} (habsent : s.tasks[id]? = none) : id ∉ s.ready.toList := by
  rw [h.mem_queue, habsent]
  rintro ⟨task, htask, _⟩
  cases htask

theorem not_waiter {id : TaskId} (habsent : s.tasks[id]? = none) (f : FutureId) :
    id ∉ s.futures.waiters f := by
  intro hid
  obtain ⟨task, htask, _⟩ := h.waiter hid
  rw [habsent] at htask
  cases htask

theorem absent_of_le {id : TaskId} (hid : s.nextTask ≤ id) : s.tasks[id]? = none := by
  cases hfound : s.tasks[id]? with
  | none => rfl
  | some task => exact absurd (h.numbered hfound) (Nat.not_lt.2 hid)

theorem coherent : s.Coherent out where
  queue_nodup := h.queue_nodup
  mem_queue _ := h.mem_queue
  suspended id task htask hstate := by
    obtain ⟨f, hf⟩ := h.registered htask hstate
    refine ⟨f, h.pending hf, (h.waiters_nodup f).count.trans (if_pos hf), fun g hg hid => ?_⟩
    exact hg (h.waiters_disjoint hid hf)
  settled f hf := by
    refine List.eq_nil_iff_forall_not_mem.2 fun id hid => hf (h.pending hid)
  away task htask :=
    have habsent := h.away_absent htask
    ⟨habsent, h.not_mem_queue habsent, h.not_waiter habsent⟩

/-- The futures may change, as long as those that tasks wait for stay as they are. -/
theorem of_futures {futures : FutureTable} (hwaiters : ∀ f, futures.waiters f = s.futures.waiters f)
    (hstate : ∀ f, s.futures.state? f = some .pending → futures.state? f = some .pending) :
    Invariant { s with futures } out where
  key := h.key
  numbered := h.numbered
  resting := h.resting
  away_numbered := h.away_numbered
  away_absent := h.away_absent
  away_nodup := h.away_nodup
  queue_nodup := h.queue_nodup
  mem_queue := h.mem_queue
  registered htask hstate := by
    obtain ⟨f, hf⟩ := h.registered htask hstate
    exact ⟨f, (hwaiters f).symm ▸ hf⟩
  waiter hid := h.waiter (hwaiters _ ▸ hid)
  waiters_nodup f := (hwaiters f).symm ▸ h.waiters_nodup f
  waiters_disjoint hf hg := h.waiters_disjoint (hwaiters _ ▸ hf) (hwaiters _ ▸ hg)
  pending hid := hstate _ (h.pending (hwaiters _ ▸ hid))

theorem of_sublist {rest : List (Task β)} (hrest : rest.Sublist out) : s.Invariant rest :=
  { h with
    away_numbered := fun htask => h.away_numbered (hrest.subset htask)
    away_absent := fun htask => h.away_absent (hrest.subset htask)
    away_nodup := (hrest.map _).nodup h.away_nodup }

end Invariant

theorem invariant_empty : (empty : Scheduler β).Invariant [] := by
  constructor <;> simp [empty, FutureTable.empty, FutureTable.waiters]

namespace Invariant

theorem createFuture (h : s.Invariant out) : s.createFuture.2.Invariant out :=
  h.of_futures (fun _ => FutureTable.waiters_create _ _) fun _ hf =>
    FutureTable.state?_create_of_some hf

theorem markObserved (h : s.Invariant out) (id : FutureId) : (s.markObserved id).Invariant out :=
  h.of_futures (fun _ => FutureTable.waiters_markObserved _ _ _) fun f hf => by
    rwa [FutureTable.state?_markObserved]

/-- A ready task that is in no place is put into the queue. -/
theorem enqueue (h : s.Invariant out) (task : Task β) (habsent : s.tasks[task.id]? = none)
    (hnumbered : task.id < s.nextTask) (haway : ∀ t ∈ out, t.id ≠ task.id)
    (hready : task.state = .ready) :
    Invariant { s with ready := s.ready.push task.id, tasks := s.tasks.insert task.id task } out := by
  have hqueue := h.not_mem_queue habsent
  have hwaiter := h.not_waiter habsent
  have hlookup (id : TaskId) : (s.tasks.insert task.id task)[id]? =
      if task.id = id then some task else s.tasks[id]? := by
    simp [Std.HashMap.getElem?_insert]
  obtain ⟨key, numbered, resting, away_numbered, away_absent, away_nodup, queue_nodup, mem_queue,
    registered, waiter, waiters_nodup, waiters_disjoint, pending⟩ := h
  constructor
  case queue_nodup =>
    rw [Queue.toList_push, List.nodup_append]
    exact ⟨queue_nodup, by simp, by grind⟩
  case mem_queue =>
    intro id
    rw [Queue.toList_push, List.mem_append, List.mem_singleton, mem_queue]
    grind
  all_goals grind

/-- A task that is in no place waits for a pending future. -/
theorem park (h : s.Invariant out) (task : Task β) {on : FutureId}
    (habsent : s.tasks[task.id]? = none) (hnumbered : task.id < s.nextTask)
    (haway : ∀ t ∈ out, t.id ≠ task.id) (hstate : task.state = .suspended)
    (hon : s.futures.isPending on = true) :
    Invariant { s with
      futures := s.futures.register on task.id, tasks := s.tasks.insert task.id task } out := by
  have hwaiter := h.not_waiter habsent
  have hlookup (id : TaskId) : (s.tasks.insert task.id task)[id]? =
      if task.id = id then some task else s.tasks[id]? := by
    simp [Std.HashMap.getElem?_insert]
  have hself := FutureTable.waiters_register_self (FutureTable.lt_size_of_isPending hon) task.id
  have hother {f : FutureId} (hf : f ≠ on) :
      (s.futures.register on task.id).waiters f = s.futures.waiters f :=
    FutureTable.waiters_register_of_ne hf task.id
  have hpending := FutureTable.isPending_iff.1 hon
  obtain ⟨key, numbered, resting, away_numbered, away_absent, away_nodup, queue_nodup, mem_queue,
    registered, waiter, waiters_nodup, waiters_disjoint, pending⟩ := h
  constructor
  case registered =>
    intro id other hfound hsuspended
    rw [hlookup] at hfound
    split at hfound
    · subst id
      exact ⟨on, by simp [hself]⟩
    · obtain ⟨f, hf⟩ := registered hfound hsuspended
      by_cases hfon : f = on
      · subst hfon
        exact ⟨f, by simp [hself, hf]⟩
      · exact ⟨f, by rwa [hother hfon]⟩
  case waiters_nodup =>
    intro f
    by_cases hfon : f = on
    · subst hfon
      have hnew := hwaiter f
      rw [hself, List.nodup_append]
      exact ⟨waiters_nodup f, by simp, by grind⟩
    · rw [hother hfon]
      exact waiters_nodup f
  all_goals grind [FutureTable.state?_register]

/-- The first number of the queue is that of a task. -/
theorem nextReady_cases (h : s.Invariant out) :
    (s.ready.toList = [] ∧ s.nextReady = (none, s)) ∨
    ∃ id rest task, s.ready.toList = id :: rest.toList ∧ s.tasks[id]? = some task ∧
      s.nextReady = (some { task with state := .running },
        { s with ready := rest, tasks := s.tasks.erase id }) := by
  cases hpop : s.ready.pop? with
  | none =>
    left
    exact ⟨Queue.pop?_eq_none.1 hpop, by simp [nextReady, takeReady, hpop]⟩
  | some first =>
    right
    obtain ⟨id, rest⟩ := first
    have hqueue := Queue.toList_of_pop? hpop
    have hid : id ∈ s.ready.toList := by simp [hqueue]
    obtain ⟨task, htask, _⟩ := h.mem_queue.1 hid
    exact ⟨id, rest, task, hqueue, htask, by simp [nextReady, takeReady, hpop, htask]⟩

theorem of_nextReady (h : s.Invariant out) {task : Task β}
    (hnext : s.nextReady = (some task, t)) :
    ∃ id rest found, s.ready.toList = id :: rest.toList ∧ s.tasks[id]? = some found ∧
      task = { found with state := .running } ∧
      t = { s with ready := rest, tasks := s.tasks.erase id } := by
  obtain ⟨-, hnone⟩ | ⟨id, rest, found, hqueue, hfound, hsome⟩ := h.nextReady_cases
  · rw [hnone] at hnext
    cases hnext
  · rw [hsome] at hnext
    cases hnext
    exact ⟨id, rest, found, hqueue, hfound, rfl, rfl⟩

theorem of_nextReady_none (h : s.Invariant out) (hnext : s.nextReady = (none, t)) : t = s := by
  obtain ⟨-, hnone⟩ | ⟨_, _, _, -, -, hsome⟩ := h.nextReady_cases
  · rw [hnone] at hnext
    cases hnext
    rfl
  · rw [hsome] at hnext
    cases hnext

/-- A ready task leaves the queue, wherever it stands there, and the table. -/
theorem take (h : s.Invariant out) {id : TaskId} {rest : Queue TaskId} {task : Task β}
    (hqueue : s.ready.toList.Perm (id :: rest.toList)) (htask : s.tasks[id]? = some task) :
    Invariant { s with ready := rest, tasks := s.tasks.erase id }
      ({ task with state := .running } :: out) := by
  have hkey : task.id = id := h.key htask
  have hready : task.state = .ready := by
    obtain ⟨task', htask', hready⟩ := h.mem_queue.1 (hqueue.mem_iff.2 List.mem_cons_self)
    rw [htask] at htask'
    cases htask'
    exact hready
  have hlookup (other : TaskId) : (s.tasks.erase id)[other]? =
      if id = other then none else s.tasks[other]? := by
    simp [Std.HashMap.getElem?_erase]
  obtain ⟨key, numbered, resting, away_numbered, away_absent, away_nodup, queue_nodup, mem_queue,
    registered, waiter, waiters_nodup, waiters_disjoint, pending⟩ := h
  rw [hqueue.nodup_iff, List.nodup_cons] at queue_nodup
  constructor
  case mem_queue =>
    intro other
    have hother : other ∈ s.ready.toList ↔ _ := mem_queue
    rw [hqueue.mem_iff, List.mem_cons] at hother
    grind
  case away_nodup =>
    rw [List.map_cons, List.nodup_cons]
    exact ⟨by grind, away_nodup⟩
  all_goals grind

end Invariant

/-- The tasks with these numbers, which all waited, are ready and stand at the end of the queue. -/
structure Woken (s t : Scheduler β) (ids : List TaskId) : Prop where
  queue : t.ready.toList = s.ready.toList ++ ids
  woken : ∀ id ∈ ids, ∃ task, s.tasks[id]? = some task ∧ task.state = .suspended ∧
    t.tasks[id]? = some { task with state := .ready }
  other : ∀ id, id ∉ ids → t.tasks[id]? = s.tasks[id]?

theorem wakeOne_woken {id : TaskId} {task : Task β} (htask : s.tasks[id]? = some task)
    (hstate : task.state = .suspended) : Woken s (s.wakeOne id) [id] := by
  have hwake : s.wakeOne id =
      { s with
        ready := s.ready.push id
        tasks := s.tasks.insert id { task with state := .ready } } := by
    simp [wakeOne, htask, hstate]
  rw [hwake]
  constructor
  case woken =>
    intro other hother
    rw [List.mem_singleton] at hother
    subst hother
    exact ⟨task, htask, hstate, by simp⟩
  case other =>
    intro other hother
    have hne : id ≠ other := by
      intro heq
      simp [heq] at hother
    simp [Std.HashMap.getElem?_insert, hne]
  case queue => simp

theorem foldl_wakeOne_woken {ids : List TaskId} (hnodup : ids.Nodup)
    (hwait : ∀ id ∈ ids, ∃ task, s.tasks[id]? = some task ∧ task.state = .suspended) :
    Woken s (ids.foldl wakeOne s) ids := by
  induction ids generalizing s with
  | nil => exact ⟨by simp, by simp, by simp⟩
  | cons id rest ih =>
    obtain ⟨task, htask, hstate⟩ := hwait id List.mem_cons_self
    have hfirst := wakeOne_woken htask hstate
    rw [List.nodup_cons] at hnodup
    -- waking the first task leaves the others suspended
    have hsame (other : TaskId) (hother : other ≠ id) :
        (s.wakeOne id).tasks[other]? = s.tasks[other]? :=
      hfirst.other other (by simpa using hother)
    have hrest : Woken (s.wakeOne id) (rest.foldl wakeOne (s.wakeOne id)) rest := by
      refine ih hnodup.2 fun other hother => ?_
      rw [hsame other (by rintro rfl; exact hnodup.1 hother)]
      exact hwait other (List.mem_cons_of_mem _ hother)
    rw [List.foldl_cons]
    constructor
    case queue => rw [hrest.queue, hfirst.queue, List.append_assoc, List.singleton_append]
    case woken =>
      intro other hother
      rcases List.mem_cons.1 hother with rfl | hmem
      · obtain ⟨task', htask', hstate', hready⟩ := hfirst.woken other List.mem_cons_self
        exact ⟨task', htask', hstate', by rw [hrest.other other hnodup.1, hready]⟩
      · obtain ⟨task', htask', hstate', hready⟩ := hrest.woken other hmem
        rw [hsame other (by rintro rfl; exact hnodup.1 hmem)] at htask'
        exact ⟨task', htask', hstate', hready⟩
    case other =>
      intro other hother
      rw [List.mem_cons, not_or] at hother
      rw [hrest.other other hother.2, hsame other hother.1]

namespace Invariant

theorem settle_woken (h : s.Invariant out) {f : FutureId}
    (hf : s.futures.state? f = some .pending) (state : FutureState) :
    Woken { s with futures := s.futures.settle f state } (s.settle f state)
      (s.futures.waiters f) := by
  have hsettle : s.settle f state = (s.futures.waiters f).foldl wakeOne
      { s with futures := s.futures.settle f state } := by
    simp [Scheduler.settle, FutureTable.isPending_iff.2 hf]
  rw [hsettle]
  exact foldl_wakeOne_woken (h.waiters_nodup f) fun id hid => h.waiter hid

theorem wakesOnce (h : s.Invariant out) {f : FutureId}
    (hf : s.futures.state? f = some .pending) (state : FutureState) : s.WakesOnce f state :=
  have hwoken := h.settle_woken hf state
  { waiters_nodup := h.waiters_nodup f
    queue := hwoken.queue
    waiter := hwoken.woken
    other := hwoken.other
    futures := futures_settle_of_pending (FutureTable.isPending_iff.2 hf) state }

theorem settle (h : s.Invariant out) (f : FutureId) (state : FutureState) :
    (s.settle f state).Invariant out := by
  by_cases hf : s.futures.state? f = some .pending
  · obtain ⟨hqueue, hwoken, hother⟩ := h.settle_woken hf state
    have hfutures := futures_settle_of_pending (FutureTable.isPending_iff.2 hf) state
    have hnext := nextTask_settle s f state
    have hnone := FutureTable.waiters_settle_self s.futures f state
    have hkept {g : FutureId} (hg : g ≠ f) :=
      FutureTable.waiters_settle_of_ne (t := s.futures) hg state
    have hstate {g : FutureId} (hg : g ≠ f) :=
      FutureTable.state?_settle_of_ne (t := s.futures) hg state
    have hwaiting {id : TaskId} (hid : id ∈ s.futures.waiters f) : id ∉ s.ready.toList := by
      obtain ⟨task, htask, hsuspended, _⟩ := hwoken id hid
      rw [h.mem_queue]
      rintro ⟨task', htask', hready⟩
      grind
    dsimp only at hqueue hwoken hother
    obtain ⟨key, numbered, resting, away_numbered, away_absent, away_nodup, queue_nodup, mem_queue,
      registered, waiter, waiters_nodup, waiters_disjoint, pending⟩ := h
    constructor
    case queue_nodup =>
      rw [hqueue, List.nodup_append]
      refine ⟨queue_nodup, waiters_nodup f, ?_⟩
      rintro id hid _ hid' rfl
      exact hwaiting hid' hid
    case mem_queue =>
      intro id
      rw [hqueue, List.mem_append, mem_queue]
      by_cases hid : id ∈ s.futures.waiters f
      · obtain ⟨task, _, _, hready⟩ := hwoken id hid
        simp [hid, hready]
      · simp [hid, hother id hid]
    case registered =>
      -- who waits still waited before, for a future that is not settled now
      intro id task htask hsuspended
      have hid : id ∉ s.futures.waiters f := by
        intro hid
        obtain ⟨_, _, _, hready⟩ := hwoken id hid
        grind
      rw [hother id hid] at htask
      obtain ⟨g, hg⟩ := registered htask hsuspended
      have hgf : g ≠ f := by
        rintro rfl
        exact hid hg
      exact ⟨g, by rw [hfutures, hkept hgf]; exact hg⟩
    all_goals grind
  · rwa [settle_of_not_pending hf]

theorem spawn (h : s.Invariant out) (body : β) : (s.spawn body).2.Invariant out := by
  have habsent := h.absent_of_le (Nat.le_refl s.nextTask)
  have hcreated := h.createFuture
  have haway : ∀ t ∈ out, t.id ≠ s.nextTask := by
    intro t ht
    exact Nat.ne_of_lt (h.away_numbered ht)
  have hnumbered : Invariant { s.createFuture.2 with nextTask := s.nextTask + 1 } out :=
    { hcreated with
      numbered := fun htask => Nat.lt_succ_of_lt (hcreated.numbered htask)
      away_numbered := fun htask => Nat.lt_succ_of_lt (hcreated.away_numbered htask) }
  exact hnumbered.enqueue ⟨s.nextTask, s.futures.size, .ready, body⟩ habsent
    (Nat.lt_succ_self _) haway rfl

variable {before after : List (Task β)} {task : Task β}

theorem handBack (h : s.Invariant (before ++ task :: after)) : s.Invariant (before ++ after) :=
  h.of_sublist ((List.Sublist.refl _).append (List.sublist_cons_self _ _))

theorem suspend (h : s.Invariant (before ++ task :: after)) (body : β) (on : FutureId) :
    (s.suspend { task with body } on).Invariant (before ++ after) := by
  have hmem : task ∈ before ++ task :: after := by simp
  have habsent := h.away_absent hmem
  have hnumbered := h.away_numbered hmem
  have haway : ∀ t ∈ before ++ after, t.id ≠ task.id := by
    have hnodup := h.away_nodup
    grind
  unfold Scheduler.suspend
  split
  case isTrue hon =>
    exact h.handBack.park ⟨task.id, task.future, .suspended, body⟩ habsent hnumbered haway rfl hon
  case isFalse =>
    exact h.handBack.enqueue ⟨task.id, task.future, .ready, body⟩ habsent hnumbered haway rfl

end Invariant

theorem Reached.invariant (h : Reached s out) : s.Invariant out := by
  induction h with
  | empty => exact invariant_empty
  | spawn _ body ih => exact ih.spawn body
  | createFuture _ ih => exact ih.createFuture
  | observe _ id ih => exact ih.markObserved id
  | take _ hnext ih =>
    obtain ⟨id, rest, task, hqueue, htask, rfl, rfl⟩ := ih.of_nextReady hnext
    exact ih.take (.of_eq hqueue) htask
  | idle _ hnext ih =>
    obtain rfl := ih.of_nextReady_none hnext
    exact ih
  | suspend _ body on ih => exact ih.suspend body on
  | complete _ v ih => exact ih.handBack.settle _ _
  | fail _ f ih => exact ih.handBack.settle _ _
  | resolve _ id v ih => exact ih.settle id _
  | reject _ id f ih => exact ih.settle id _

/-- In every state that the operations lead to, queue, table and futures agree on every task. So a
future that settles wakes each task that waits for it once, and no task waits for a future that is
settled. -/
theorem coherent_of_reached (h : Reached s out) :
    s.Coherent out ∧
    (∀ f state, s.futures.state? f = some .pending → s.WakesOnce f state) ∧
    ∀ f state, s.futures.state? f ≠ some .pending → s.settle f state = s := by
  refine ⟨h.invariant.coherent, ?_, ?_⟩
  · intro f state hf
    exact h.invariant.wakesOnce hf state
  · intro f state hf
    exact settle_of_not_pending hf state

/-- Two tasks, of which the first waits for a future, stands behind the other when that settles. -/
theorem waiter_stands_last :
    ∃ s : Scheduler String, Reached s [] ∧ s.Coherent [] ∧ s.ready.toList = [1] ∧
      s.futures.waiters 2 = [0] ∧ (s.resolve 2 .void).ready.toList = [1, 0] := by
  let spawned := ((empty.spawn "first").2.spawn "second").2
  have hspawned : Reached spawned [] := (Reached.empty.spawn "first").spawn "second"
  have hnext : spawned.nextReady = (some ⟨0, 0, .running, "first"⟩,
      { spawned with ready := ⟨[1], []⟩, tasks := spawned.tasks.erase 0 }) := by
    have htask : spawned.tasks[0]? = some ⟨0, 0, .ready, "first"⟩ := by
      simp only [spawned, spawn, empty, Std.HashMap.getElem?_insert]
      rfl
    have hpop : spawned.ready.pop? = some (0, ⟨[1], []⟩) := rfl
    simp [nextReady, takeReady, hpop, htask]
  have hgate : Reached _ ([] ++ ⟨0, 0, .running, "first"⟩ :: []) :=
    (hspawned.take hnext).createFuture
  have hwaits := hgate.suspend "first" 2
  obtain ⟨hcoherent, hwakes, _⟩ := coherent_of_reached hwaits
  refine ⟨_, hwaits, hcoherent, rfl, rfl, ?_⟩
  exact (hwakes 2 (.resolved .void) rfl).queue

end Scheduler

end StreamLang
