import StreamLang.Proofs.Scheduler.Wakeups

/-! Answers from outside may come at any time and in any order. Between the same operations on tasks
they leave the same futures, the same tasks and the same tasks ready; only the queue may stand in
another order. -/

namespace StreamLang

namespace Scheduler

variable {β : Type} {s t u : Scheduler β} {f : FutureId} {v : Value}

/-- What is done to the futures and tasks. -/
inductive Op (β : Type)
  | spawn (body : β)
  | createFuture
  | observe (id : FutureId)
  /-- A ready task is taken out, wherever it stands in the queue. -/
  | take (id : TaskId)
  /-- A task that was taken out waits for a future. -/
  | suspend (task : Task β) (on : FutureId)
  | settle (id : FutureId) (state : FutureState)

/-- The future that the operation settles. -/
def Op.settles : Op β → Option FutureId
  | settle id _ => some id
  | _ => none

def perform (s : Scheduler β) : Op β → Scheduler β
  | .spawn body => (s.spawn body).2
  | .createFuture => s.createFuture.2
  | .observe id => s.markObserved id
  | .take id => { s with ready := ⟨s.ready.toList.erase id, []⟩, tasks := s.tasks.erase id }
  | .suspend task on => s.suspend task on
  | .settle id state => s.settle id state

/-- The operation makes sense: who is taken is ready, and who waits then is out. -/
def Admits (s : Scheduler β) : Op β → Prop
  | .take id => id ∈ s.ready.toList
  | .suspend task _ => s.tasks[task.id]? = none ∧ task.id < s.nextTask
  | _ => True

def performAll (s : Scheduler β) (ops : List (Op β)) : Scheduler β := ops.foldl perform s

/-- Each operation makes sense when its turn comes. -/
def AdmitsAll : Scheduler β → List (Op β) → Prop
  | _, [] => True
  | s, op :: rest => s.Admits op ∧ AdmitsAll (s.perform op) rest

/-- The values come from outside, for these futures. -/
def deliverAll (s : Scheduler β) (deliveries : List (FutureId × Value)) : Scheduler β :=
  deliveries.foldl (fun s d => s.resolve d.1 d.2) s

/-- The deliveries come, in this order, between the operations, in theirs. -/
inductive Interleaves : List (FutureId × Value) → List (Op β) → List (Op β) → Prop
  | nil : Interleaves [] [] []
  | deliver {ds : List (FutureId × Value)} {ops all : List (Op β)} (f : FutureId) (v : Value)
    (h : Interleaves ds ops all) :
    Interleaves ((f, v) :: ds) ops (.settle f (.resolved v) :: all)
  | perform {ds : List (FutureId × Value)} {ops all : List (Op β)} (op : Op β)
    (h : Interleaves ds ops all) : Interleaves ds (op :: ops) (op :: all)

/-- Every operation that makes sense keeps the invariant. -/
theorem Invariant.perform (hs : s.Invariant []) {op : Op β} (hop : s.Admits op) :
    (s.perform op).Invariant [] := by
  cases op with
  | spawn body => exact hs.spawn body
  | createFuture => exact hs.createFuture
  | observe id => exact hs.markObserved id
  | settle id state => exact hs.settle id state
  | take id =>
    obtain ⟨task, htask, -⟩ := hs.mem_queue.1 hop
    let rest : Queue TaskId := ⟨s.ready.toList.erase id, []⟩
    have hqueue : s.ready.toList.Perm (id :: rest.toList) := by
      simpa [rest, Queue.toList] using List.perm_cons_erase hop
    exact (hs.take hqueue htask).of_sublist (List.nil_sublist _)
  | suspend task on =>
    obtain ⟨habsent, hnumbered⟩ := hop
    unfold Scheduler.perform Scheduler.suspend
    dsimp only
    split
    case isTrue hon =>
      exact hs.park { task with state := .suspended } habsent hnumbered (List.forall_mem_nil _) rfl
        hon
    case isFalse =>
      exact hs.enqueue { task with state := .ready } habsent hnumbered (List.forall_mem_nil _) rfl

/-- The same futures, the same tasks and the same tasks ready, in some order. -/
structure SameWork (s t : Scheduler β) : Prop where
  state : ∀ f, t.futures.state? f = s.futures.state? f
  waiters : ∀ f, t.futures.waiters f = s.futures.waiters f
  tasks : ∀ id : TaskId, t.tasks[id]? = s.tasks[id]?
  queue : t.ready.toList.Perm s.ready.toList
  nextTask : t.nextTask = s.nextTask

namespace SameWork

theorem symm (h : s.SameWork t) : t.SameWork s where
  state f := (h.state f).symm
  waiters f := (h.waiters f).symm
  tasks id := (h.tasks id).symm
  queue := h.queue.symm
  nextTask := h.nextTask.symm

theorem trans (h : s.SameWork t) (h' : t.SameWork u) : s.SameWork u where
  state f := (h'.state f).trans (h.state f)
  waiters f := (h'.waiters f).trans (h.waiters f)
  tasks id := (h'.tasks id).trans (h.tasks id)
  queue := h'.queue.trans h.queue
  nextTask := h'.nextTask.trans h.nextTask

end SameWork

/-- What it means for futures and tasks, looked up one by one, that a pending future is settled. -/
structure Settled (s : Scheduler β) (f : FutureId) (state : FutureState) (t : Scheduler β) :
    Prop where
  self : t.futures.state? f = some state
  others : ∀ g, g ≠ f → t.futures.state? g = s.futures.state? g
  left : t.futures.waiters f = []
  waiters : ∀ g, g ≠ f → t.futures.waiters g = s.futures.waiters g
  woken : ∀ id ∈ s.futures.waiters f, ∃ task, s.tasks[id]? = some task ∧
    t.tasks[id]? = some { task with state := .ready }
  /-- The tasks that waited for it waited for no other one. -/
  alone : ∀ id ∈ s.futures.waiters f, ∀ g, id ∈ s.futures.waiters g → g = f
  tasks : ∀ id, id ∉ s.futures.waiters f → t.tasks[id]? = s.tasks[id]?
  size : t.futures.size = s.futures.size
  nextTask : t.nextTask = s.nextTask

theorem Invariant.settled (hs : s.Invariant []) (hf : s.futures.state? f = some .pending)
    (state : FutureState) : Settled s f state (s.settle f state) := by
  obtain ⟨-, -, hwaiter, hkept, hfutures⟩ := hs.wakesOnce hf state
  constructor
  case self => exact state?_settle_self hf state
  case others => exact fun g hg => state?_settle_of_ne hg state
  case left => rw [hfutures, FutureTable.waiters_settle_self]
  case waiters =>
    intro g hg
    rw [hfutures, FutureTable.waiters_settle_of_ne hg]
  case woken =>
    intro id hid
    obtain ⟨task, htask, -, hready⟩ := hwaiter id hid
    exact ⟨task, htask, hready⟩
  case alone => exact fun id hid g hg => hs.waiters_disjoint hg hid
  case tasks => exact hkept
  case size => rw [hfutures, FutureTable.size_settle]
  case nextTask => exact nextTask_settle s f state

/-- The second scheduler is ahead: there the values have come already, and in the first one their
futures are still pending. -/
structure Ahead (ds : List (FutureId × Value)) (s t : Scheduler β) : Prop where
  pending : ∀ f v, (f, v) ∈ ds → s.futures.state? f = some .pending
  resolved : ∀ f v, (f, v) ∈ ds → t.futures.state? f = some (.resolved v)
  state : ∀ f, (∀ v, (f, v) ∉ ds) → t.futures.state? f = s.futures.state? f
  waiters : ∀ f, (∀ v, (f, v) ∉ ds) → t.futures.waiters f = s.futures.waiters f
  woken : ∀ f v, (f, v) ∈ ds → ∀ id ∈ s.futures.waiters f, ∃ task, s.tasks[id]? = some task ∧
    t.tasks[id]? = some { task with state := .ready }
  tasks : ∀ id : TaskId, (∀ f v, (f, v) ∈ ds → id ∉ s.futures.waiters f) →
    t.tasks[id]? = s.tasks[id]?
  nextTask : t.nextTask = s.nextTask
  size : t.futures.size = s.futures.size

namespace Ahead

variable {ds : List (FutureId × Value)}

/-- Which tasks are ready can be told from the table. -/
theorem sameWork (hs : s.Invariant []) (ht : t.Invariant []) (h : Ahead [] s t) :
    s.SameWork t where
  state f := h.state f fun _ => List.not_mem_nil
  waiters f := h.waiters f fun _ => List.not_mem_nil
  tasks id := h.tasks id fun _ _ hmem => absurd hmem List.not_mem_nil
  queue := by
    rw [List.perm_ext_iff_of_nodup ht.queue_nodup hs.queue_nodup]
    intro id
    rw [ht.mem_queue, hs.mem_queue, h.tasks id fun _ _ hmem => absurd hmem List.not_mem_nil]
  nextTask := h.nextTask

/-- The value comes to the first scheduler too. -/
theorem catchUp (hs : s.Invariant []) (ht : t.Invariant []) (hnew : ∀ w, (f, w) ∉ ds)
    (h : Ahead ((f, v) :: ds) s t) : Ahead ds (s.resolve f v) t := by
  have hsettled := hs.settled (h.pending f v List.mem_cons_self) (.resolved v)
  have hdone : t.futures.waiters f = [] := by
    refine ht.coherent.settled f ?_
    simp [h.resolved f v List.mem_cons_self]
  unfold resolve
  cases hsettled
  cases h
  constructor <;> grind

/-- The value has come to the first scheduler, where the future was pending before. -/
theorem goBack (hs : s.Invariant []) (hf : s.futures.state? f = some .pending)
    (hnew : ∀ w, (f, w) ∉ ds) (h : Ahead ds (s.resolve f v) t) : Ahead ((f, v) :: ds) s t := by
  have hsettled := hs.settled hf (.resolved v)
  unfold resolve at h
  cases hsettled
  cases h
  constructor <;> grind

theorem createFuture (h : Ahead ds s t) : Ahead ds s.createFuture.2 t.createFuture.2 := by
  have hnew : s.futures.state? s.futures.size = none :=
    FutureTable.state?_eq_none_iff.2 (Nat.le_refl _)
  unfold Scheduler.createFuture
  cases h
  constructor <;>
    grind [FutureTable.state?_create, FutureTable.waiters_create, FutureTable.size_create]

/-- A task that waits for nothing is put at the end of the queue. -/
theorem enqueue (h : Ahead ds s t) (task : Task β) (hfree : ∀ f, task.id ∉ s.futures.waiters f) :
    Ahead ds { s with ready := s.ready.push task.id, tasks := s.tasks.insert task.id task }
      { t with ready := t.ready.push task.id, tasks := t.tasks.insert task.id task } := by
  cases h
  constructor <;> grind

theorem settle (h : Ahead ds s t) (hs : s.Invariant []) (ht : t.Invariant [])
    (hf : ∀ w, (f, w) ∉ ds) (state : FutureState) :
    Ahead ds (s.settle f state) (t.settle f state) := by
  by_cases hpending : s.futures.state? f = some .pending
  · have hsettled := hs.settled hpending state
    have hsettled' := ht.settled ((h.state f hf).trans hpending) state
    have hsame := h.waiters f hf
    cases hsettled
    cases hsettled'
    cases h
    constructor
    case tasks =>
      intro id hid
      have hold : t.tasks[id]? = s.tasks[id]? := by grind
      by_cases hwaits : id ∈ s.futures.waiters f <;> grind
    all_goals grind
  · rwa [settle_of_not_pending hpending, settle_of_not_pending ((h.state f hf).symm ▸ hpending)]

/-- In the first scheduler the task may wait for a value that is there already in the second one. -/
theorem suspend (h : Ahead ds s t) (task : Task β) (on : FutureId)
    (hfree : ∀ f, task.id ∉ s.futures.waiters f) :
    Ahead ds (s.suspend task on) (t.suspend task on) := by
  have hwaiters (hlt : on < s.futures.size) := FutureTable.waiters_register hlt task.id
  have hwaiters' (hlt : on < t.futures.size) := FutureTable.waiters_register hlt task.id
  unfold Scheduler.suspend
  by_cases hdue : ∃ v, (on, v) ∈ ds
  · obtain ⟨v, hv⟩ := hdue
    have hon : s.futures.isPending on = true := FutureTable.isPending_iff.2 (h.pending on v hv)
    have hon' : ¬ t.futures.isPending on = true := by
      rw [FutureTable.isPending_iff, h.resolved on v hv]
      simp
    have hlt := FutureTable.lt_size_of_isPending hon
    rw [if_pos hon, if_neg hon']
    cases h
    constructor <;> grind [FutureTable.state?_register, FutureTable.size_register]
  · have hsame : t.futures.isPending on = s.futures.isPending on := by
      rw [FutureTable.isPending, FutureTable.isPending, h.state on (not_exists.1 hdue)]
    rw [hsame]
    split
    case isTrue hon =>
      have hlt := FutureTable.lt_size_of_isPending hon
      cases h
      constructor <;> grind [FutureTable.state?_register, FutureTable.size_register]
    case isFalse => exact h.enqueue { task with state := .ready } hfree

theorem spawn (h : Ahead ds s t) (hs : s.Invariant []) (body : β) :
    Ahead ds (s.spawn body).2 (t.spawn body).2 := by
  have hfree := hs.createFuture.not_waiter (hs.absent_of_le (Nat.le_refl s.nextTask))
  have hcreated : Ahead ds { s.createFuture.2 with nextTask := s.nextTask + 1 }
      { t.createFuture.2 with nextTask := t.nextTask + 1 } :=
    { h.createFuture with nextTask := congrArg (· + 1) h.nextTask }
  have hspawned := hcreated.enqueue ⟨s.nextTask, s.futures.size, .ready, body⟩ hfree
  have ht : (t.spawn body).2 =
      { t.createFuture.2 with
        nextTask := t.nextTask + 1
        ready := t.ready.push s.nextTask
        tasks := t.tasks.insert s.nextTask ⟨s.nextTask, s.futures.size, .ready, body⟩ } := by
    rw [← h.nextTask, ← h.size]
    rfl
  rw [ht]
  exact hspawned

theorem observe (h : Ahead ds s t) (id : FutureId) :
    Ahead ds (s.markObserved id) (t.markObserved id) := by
  cases h
  constructor <;> simpa [Scheduler.markObserved]

/-- A ready task waits for nothing. -/
theorem take (h : Ahead ds s t) (hs : s.Invariant []) {id : TaskId} (hid : id ∈ s.ready.toList) :
    Ahead ds (s.perform (.take id)) (t.perform (.take id)) := by
  obtain ⟨task, htask, hready⟩ := hs.mem_queue.1 hid
  have hfree : ∀ f, id ∉ s.futures.waiters f := by
    intro f hf
    obtain ⟨task', htask', hsuspended⟩ := hs.waiter hf
    grind
  unfold Scheduler.perform
  cases h
  constructor <;> grind

/-- What makes sense in the first scheduler makes sense in the second one, where more tasks may be
ready. -/
theorem admits (h : Ahead ds s t) (hs : s.Invariant []) (ht : t.Invariant []) {op : Op β}
    (hop : s.Admits op) : t.Admits op := by
  cases op with
  | take id =>
    obtain ⟨task, htask, hready⟩ := hs.mem_queue.1 hop
    refine ht.mem_queue.2 ⟨task, ?_, hready⟩
    rw [h.tasks id, htask]
    intro f v _ hid
    obtain ⟨task', htask', hsuspended⟩ := hs.waiter hid
    grind
  | suspend task on =>
    refine ⟨?_, h.nextTask ▸ hop.2⟩
    rw [h.tasks task.id fun f v _ => hs.not_waiter hop.1 f]
    exact hop.1
  | _ => trivial

theorem perform (h : Ahead ds s t) (hs : s.Invariant []) (ht : t.Invariant []) {op : Op β}
    (hop : s.Admits op) (hother : ∀ f v, (f, v) ∈ ds → op.settles ≠ some f) :
    Ahead ds (s.perform op) (t.perform op) := by
  cases op with
  | spawn body => exact h.spawn hs body
  | createFuture => exact h.createFuture
  | observe id => exact h.observe id
  | take id => exact h.take hs hop
  | suspend task on => exact h.suspend task on (hs.not_waiter hop.1)
  | settle id state => exact h.settle hs ht (fun w hw => hother id w hw rfl) state

end Ahead

/-- The values that come from outside, for futures that are pending. -/
structure Due (s : Scheduler β) (ds : List (FutureId × Value)) : Prop where
  nodup : (ds.map Prod.fst).Nodup
  pending : ∀ d ∈ ds, s.futures.state? d.1 = some .pending

theorem not_mem_of_nodup_map {ds : List (FutureId × Value)}
    (h : (((f, v) :: ds).map Prod.fst).Nodup) (w : Value) : (f, w) ∉ ds :=
  fun hw => (List.nodup_cons.1 h).1 (List.mem_map.2 ⟨(f, w), hw, rfl⟩)

theorem ahead_deliverAll {ds : List (FutureId × Value)} (hs : s.Invariant []) (h : s.Due ds) :
    Ahead ds s (s.deliverAll ds) ∧ (s.deliverAll ds).Invariant [] := by
  induction ds generalizing s with
  | nil => exact ⟨by constructor <;> grind [deliverAll], hs⟩
  | cons d ds ih =>
    obtain ⟨f, v⟩ := d
    have hnew := not_mem_of_nodup_map h.nodup
    have hrest : (s.resolve f v).Due ds := by
      refine ⟨(List.nodup_cons.1 h.nodup).2, fun d hd => ?_⟩
      rw [resolve, state?_settle_of_ne (by rintro rfl; exact hnew _ hd)]
      exact h.pending d (List.mem_cons_of_mem _ hd)
    obtain ⟨hahead, hinv⟩ := ih (hs.settle f _) hrest
    exact ⟨hahead.goBack hs (h.pending _ List.mem_cons_self) hnew, hinv⟩

namespace Ahead

variable {ds ds' : List (FutureId × Value)} {ops all : List (Op β)}

theorem of_perm (h : Ahead ds s t) (hperm : ds.Perm ds') : Ahead ds' s t := by
  have hmem (d : FutureId × Value) : d ∈ ds ↔ d ∈ ds' := hperm.mem_iff
  cases h
  constructor <;> grind

/-- The values come to the first scheduler while both do the same. -/
theorem interleaved (h : Ahead ds s t) (hs : s.Invariant []) (ht : t.Invariant [])
    (hnodup : (ds.map Prod.fst).Nodup) (hall : Interleaves ds ops all) (hadmits : s.AdmitsAll all)
    (hother : ∀ op ∈ ops, ∀ f v, (f, v) ∈ ds → op.settles ≠ some f) :
    (s.performAll all).SameWork (t.performAll ops) := by
  induction hall generalizing s t with
  | nil => exact h.sameWork hs ht
  | deliver f v _ ih =>
    have hnew := not_mem_of_nodup_map hnodup
    refine ih (h.catchUp hs ht hnew) (hs.settle f _) ht (List.nodup_cons.1 hnodup).2 hadmits.2 ?_
    intro op hop g w hg
    exact hother op hop g w (List.mem_cons_of_mem _ hg)
  | perform op _ ih =>
    have hboth := h.perform hs ht hadmits.1 (hother op List.mem_cons_self)
    have hop := h.admits hs ht hadmits.1
    refine ih hboth (hs.perform hadmits.1) (ht.perform hop) hnodup hadmits.2 ?_
    intro op' hop'
    exact hother op' (List.mem_cons_of_mem _ hop')

end Ahead

/-- Whenever the values come, and in whatever order, between the same operations: in the end there
are the same futures, the same tasks and the same tasks ready, and only the queue may stand in
another order. -/
theorem interleavings_agree {out : List (Task β)} {ds ds' : List (FutureId × Value)}
    {ops all all' : List (Op β)} (hs : Reached s out) (hdue : s.Due ds) (hperm : ds.Perm ds')
    (hall : Interleaves ds ops all) (hall' : Interleaves ds' ops all') (hadmits : s.AdmitsAll all)
    (hadmits' : s.AdmitsAll all')
    (hother : ∀ op ∈ ops, ∀ f v, (f, v) ∈ ds → op.settles ≠ some f) :
    (s.performAll all).SameWork (s.performAll all') := by
  have hinv := hs.invariant.of_sublist (List.nil_sublist out)
  obtain ⟨hahead, hdelivered⟩ := ahead_deliverAll hinv hdue
  have hfirst := hahead.interleaved hinv hdelivered hdue.nodup hall hadmits hother
  have hsecond := (hahead.of_perm hperm).interleaved hinv hdelivered
    ((hperm.map _).nodup_iff.1 hdue.nodup) hall' hadmits' fun op hop f v hv =>
      hother op hop f v (hperm.mem_iff.2 hv)
  exact hfirst.trans hsecond.symm

/-- The values alone, one after the other. -/
theorem interleaves_deliveries (ds : List (FutureId × Value)) (s : Scheduler β) :
    Interleaves ds ([] : List (Op β)) (ds.map fun d => .settle d.1 (.resolved d.2)) ∧
    s.AdmitsAll (ds.map fun d => .settle d.1 (.resolved d.2)) ∧
    s.performAll (ds.map fun d => .settle d.1 (.resolved d.2)) = s.deliverAll ds := by
  induction ds generalizing s with
  | nil => exact ⟨.nil, trivial, rfl⟩
  | cons d ds ih =>
    obtain ⟨hall, hadmits, hperform⟩ := ih (s.resolve d.1 d.2)
    exact ⟨.deliver d.1 d.2 hall, ⟨trivial, hadmits⟩, hperform⟩

theorem deliverAll_perm {out : List (Task β)} {ds ds' : List (FutureId × Value)}
    (hs : Reached s out) (hdue : s.Due ds) (hperm : ds.Perm ds') :
    (s.deliverAll ds).SameWork (s.deliverAll ds') := by
  obtain ⟨hall, hadmits, hperform⟩ := interleaves_deliveries ds s
  obtain ⟨hall', hadmits', hperform'⟩ := interleaves_deliveries ds' s
  rw [← hperform, ← hperform']
  exact interleavings_agree hs hdue hperm hall hall' hadmits hadmits' (List.forall_mem_nil _)

end Scheduler

end StreamLang
