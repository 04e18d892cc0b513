import StreamLang.Proofs.Scheduler.Owners

/-! The one task of a future. No two tasks settle the same future. As long as the task of a pending future
is not handed back, it waits where it waited; or what it waited for is settled, and it is ready; or it is
taken out. -/

namespace StreamLang

namespace Scheduler

variable {β : Type} {s t u : Scheduler β} {out out' : List (Task β)} {f : FutureId}

/-- The task is in the table or taken out. -/
def Holds (s : Scheduler β) (out : List (Task β)) (task : Task β) : Prop :=
  task ∈ out ∨ ∃ id : TaskId, s.tasks[id]? = some task

/-- The tasks have futures of the table, each its own one. -/
structure Apart (s : Scheduler β) (out : List (Task β)) : Prop where
  lt : ∀ task, s.Holds out task → task.future < s.futures.size
  id_eq : ∀ a b, s.Holds out a → s.Holds out b → a.future = b.future → a.id = b.id

namespace Apart

/-- Each task was there before, with the same number and the same future. -/
theorem of_old (h : s.Apart out) (hsize : s.futures.size ≤ t.futures.size)
    (hold : ∀ task, t.Holds out' task →
      ∃ old, s.Holds out old ∧ old.id = task.id ∧ old.future = task.future) : t.Apart out' where
  lt task htask := by
    obtain ⟨old, hheld, -, hfuture⟩ := hold task htask
    rw [← hfuture]
    exact Nat.lt_of_lt_of_le (h.lt old hheld) hsize
  id_eq a b ha hb heq := by
    obtain ⟨a', ha', hida, hfa⟩ := hold a ha
    obtain ⟨b', hb', hidb, hfb⟩ := hold b hb
    rw [← hida, ← hidb]
    exact h.id_eq a' b' ha' hb' (by rw [hfa, hfb, heq])

theorem of_same (h : s.Apart out) (htasks : t.tasks = s.tasks)
    (hsize : s.futures.size ≤ t.futures.size) : t.Apart out :=
  h.of_old hsize fun task htask => ⟨task, by rwa [Holds, htasks] at htask, rfl, rfl⟩

theorem of_subset {rest : List (Task β)} (h : s.Apart out) (hrest : rest ⊆ out) : s.Apart rest :=
  h.of_old (Nat.le_refl _) fun task htask => ⟨task, htask.imp_left (@hrest task), rfl, rfl⟩

theorem settle (h : s.Apart out) (g : FutureId) (state : FutureState) :
    (s.settle g state).Apart out := by
  refine h.of_old (Nat.le_of_eq (size_settle s g state).symm) fun task htask => ?_
  rcases htask with hout | ⟨id, hid⟩
  · exact ⟨task, .inl hout, rfl, rfl⟩
  · obtain ⟨old, hold, heq⟩ := task_of_settle hid
    exact ⟨old, .inr ⟨id, hold⟩, by rw [heq], by rw [heq]⟩

theorem spawn (h : s.Apart out) (body : β) : (s.spawn body).2.Apart out := by
  have hsize : (s.spawn body).2.futures.size = s.futures.size + 1 := FutureTable.size_create _
  have hcases {task : Task β} (htask : (s.spawn body).2.Holds out task) :
      task = ⟨s.nextTask, s.futures.size, .ready, body⟩ ∨ s.Holds out task := by
    rcases htask with hout | ⟨id, hid⟩
    · exact .inr (.inl hout)
    · simp only [Scheduler.spawn, Std.HashMap.getElem?_insert] at hid
      split at hid
      · exact .inl (Option.some.inj hid).symm
      · exact .inr (.inr ⟨id, hid⟩)
  constructor
  case lt =>
    intro task htask
    rw [hsize]
    rcases hcases htask with rfl | hold
    · exact Nat.lt_succ_self _
    · exact Nat.lt_succ_of_lt (h.lt task hold)
  case id_eq =>
    -- a new task has a future that no other task has
    have hnew {task : Task β} (hold : s.Holds out task) : task.future ≠ s.futures.size :=
      Nat.ne_of_lt (h.lt task hold)
    intro a b ha hb heq
    rcases hcases ha with rfl | ha <;> rcases hcases hb with rfl | hb
    · rfl
    · exact absurd heq.symm (hnew hb)
    · exact absurd heq (hnew ha)
    · exact h.id_eq a b ha hb heq

theorem take (h : s.Apart out) {id : TaskId} {rest : Queue TaskId} {task : Task β}
    (htask : s.tasks[id]? = some task) :
    Apart { s with ready := rest, tasks := s.tasks.erase id }
      ({ task with state := .running } :: out) := by
  refine h.of_old (Nat.le_refl _) fun other hother => ?_
  rcases hother with hout | ⟨k, hk⟩
  · rcases List.mem_cons.1 hout with rfl | hout
    · exact ⟨task, .inr ⟨id, htask⟩, rfl, rfl⟩
    · exact ⟨other, .inl hout, rfl, rfl⟩
  · rw [Std.HashMap.getElem?_erase] at hk
    split at hk
    · cases hk
    · exact ⟨other, .inr ⟨k, hk⟩, rfl, rfl⟩

variable {before after : List (Task β)} {task : Task β}

theorem handBack (h : s.Apart (before ++ task :: after)) : s.Apart (before ++ after) :=
  h.of_subset (by simp)

theorem suspend (h : s.Apart (before ++ task :: after)) (body : β) (on : FutureId) :
    (s.suspend { task with body } on).Apart (before ++ after) := by
  have hold {new : Scheduler β} (put : Task β) (hid : put.id = task.id)
      (hfuture : put.future = task.future) (htasks : new.tasks = s.tasks.insert put.id put)
      {other : Task β} (hother : new.Holds (before ++ after) other) :
      ∃ old, s.Holds (before ++ task :: after) old ∧ old.id = other.id ∧
        old.future = other.future := by
    rcases hother with hout | ⟨k, hk⟩
    · exact ⟨other, .inl (by simp at hout ⊢; tauto), rfl, rfl⟩
    · rw [htasks, Std.HashMap.getElem?_insert] at hk
      split at hk
      · cases hk
        exact ⟨task, .inl (by simp), hid.symm, hfuture.symm⟩
      · exact ⟨other, .inr ⟨k, hk⟩, rfl, rfl⟩
  unfold Scheduler.suspend
  split
  · refine h.of_old ?_ fun _ hother =>
      hold ⟨task.id, task.future, .suspended, body⟩ rfl rfl rfl hother
    exact Nat.le_of_eq (FutureTable.size_register _ _ _).symm
  · exact h.of_old (Nat.le_refl _) fun _ hother =>
      hold ⟨task.id, task.future, .ready, body⟩ rfl rfl rfl hother

end Apart

theorem Reached.apart (h : Reached s out) : s.Apart out := by
  induction h with
  | empty =>
    have hnone (task : Task β) : ¬ (Scheduler.empty : Scheduler β).Holds [] task := by
      simp [Holds, Scheduler.empty]
    exact ⟨fun task htask => absurd htask (hnone task), fun a _ ha => absurd ha (hnone a)⟩
  | spawn _ body ih => exact ih.spawn body
  | createFuture _ ih =>
    exact ih.of_same rfl (Nat.le_of_lt (by simp [Scheduler.createFuture]))
  | observe _ id ih =>
    exact ih.of_same rfl (Nat.le_of_eq (FutureTable.size_markObserved _ id).symm)
  | take h hnext ih =>
    obtain ⟨id, rest, task, -, htask, rfl, rfl⟩ := h.invariant.of_nextReady hnext
    exact ih.take htask
  | idle h hnext ih =>
    obtain rfl := h.invariant.of_nextReady_none hnext
    exact ih
  | suspend _ body on ih => exact ih.suspend body on
  | complete _ v ih => exact ih.handBack.settle _ _
  | fail _ e ih => exact ih.handBack.settle _ _
  | resolve _ id v ih => exact ih.settle id _
  | reject _ id e ih => exact ih.settle id _

/-- A future belongs to one task at most. -/
theorem Reached.eq_of_future_eq (h : Reached s out) {a b : Task β} (ha : s.Holds out a)
    (hb : s.Holds out b) (heq : a.future = b.future) : a = b := by
  have hid := h.apart.id_eq a b ha hb heq
  have hs := h.invariant
  rcases ha with ha | ⟨i, hi⟩ <;> rcases hb with hb | ⟨j, hj⟩
  · exact List.inj_on_of_nodup_map hs.away_nodup ha hb hid
  · have habsent := hs.away_absent ha
    rw [hid, hs.key hj, hj] at habsent
    cases habsent
  · have habsent := hs.away_absent hb
    rw [← hid, hs.key hi, hi] at habsent
    cases habsent
  · obtain rfl : i = j := by rw [← hs.key hi, ← hs.key hj, hid]
    rw [hi] at hj
    exact Option.some.inj hj

/-- The task of the pending future waits for another one. -/
structure Waits (s : Scheduler β) (f : FutureId) (body : β) (on : FutureId) : Prop where
  pending : s.futures.state? f = some .pending
  source : s.futures.state? on = some .pending
  registered : ∃ id, s.tasks[id]? = some ⟨id, f, .suspended, body⟩ ∧ id ∈ s.futures.waiters on

/-- The task of the pending future is ready, or it is taken out. -/
structure Active (s : Scheduler β) (out : List (Task β)) (f : FutureId) (body : β) : Prop where
  pending : s.futures.state? f = some .pending
  held : ∃ task : Task β, task.future = f ∧ task.body = body ∧
    (task ∈ out ∨ ∃ id ∈ s.ready.toList, s.tasks[id]? = some task)

/-- The future stays pending, and its task waits for the same future, unless it is woken. -/
structure Spares (f : FutureId) (s : Scheduler β) (out : List (Task β)) (t : Scheduler β)
    (out' : List (Task β)) : Prop where
  waits : ∀ {body on}, s.Waits f body on → t.Waits f body on ∨ t.Active out' f body
  active : ∀ {body}, s.Active out f body → t.Active out' f body

namespace Spares

theorem trans {out'' : List (Task β)} (h : Spares f s out t out') (h' : Spares f t out' u out'') :
    Spares f s out u out'' where
  waits hw := (h.waits hw).elim h'.waits fun hd => .inr (h'.active hd)
  active hd := h'.active (h.active hd)

/-- Nothing happens to the tasks, and no future is settled. -/
theorem of_tasks (htasks : t.tasks = s.tasks) (hready : t.ready = s.ready)
    (hwaiters : ∀ g, t.futures.waiters g = s.futures.waiters g)
    (hstate : ∀ g, s.futures.state? g = some .pending → t.futures.state? g = some .pending) :
    Spares f s out t out where
  waits hw := by
    obtain ⟨id, hid, hon⟩ := hw.registered
    refine .inl ⟨hstate f hw.pending, hstate _ hw.source, id, ?_, ?_⟩
    · rwa [htasks]
    · rwa [hwaiters]
  active hd := by
    refine ⟨hstate f hd.pending, ?_⟩
    rw [htasks, hready]
    exact hd.held

theorem refl : Spares f s out s out := of_tasks rfl rfl (fun _ => rfl) fun _ h => h

theorem markObserved (id : FutureId) : Spares f s out (s.markObserved id) out :=
  of_tasks rfl rfl (fun _ => FutureTable.waiters_markObserved _ _ _) fun _ h =>
    (FutureTable.state?_markObserved _ _ _).trans h

theorem createFuture : Spares f s out s.createFuture.2 out :=
  of_tasks rfl rfl (fun _ => FutureTable.waiters_create _ _) fun _ h =>
    FutureTable.state?_create_of_some h

variable (hs : s.Invariant out)
include hs

theorem spawn (body : β) : Spares f s out (s.spawn body).2 out := by
  have hlookup {id : TaskId} {task : Task β} (hid : s.tasks[id]? = some task) :
      (s.spawn body).2.tasks[id]? = some task := by
    have hne : s.nextTask ≠ id := Nat.ne_of_gt (hs.numbered hid)
    simp [Scheduler.spawn, Std.HashMap.getElem?_insert, hne, hid]
  constructor
  case waits =>
    intro _ on hw
    obtain ⟨id, hid, hon⟩ := hw.registered
    have hwaiters : (s.spawn body).2.futures.waiters on = s.futures.waiters on :=
      FutureTable.waiters_create _ _
    exact .inl ⟨FutureTable.state?_create_of_some hw.pending,
      FutureTable.state?_create_of_some hw.source, id, hlookup hid, hwaiters ▸ hon⟩
  case active =>
    intro _ hd
    obtain ⟨task, hfuture, hbody, hplace⟩ := hd.held
    refine ⟨FutureTable.state?_create_of_some hd.pending, task, hfuture, hbody, ?_⟩
    rcases hplace with hout | ⟨id, hqueue, hid⟩
    · exact .inl hout
    · refine .inr ⟨id, ?_, hlookup hid⟩
      simp [Scheduler.spawn, hqueue]

/-- A task that is taken out was ready. -/
theorem take {task : Task β} (hnext : s.nextReady = (some task, t)) :
    Spares f s out t (task :: out) := by
  obtain ⟨id, rest, found, hqueue, hfound, rfl, rfl⟩ := hs.of_nextReady hnext
  have hready : found.state = .ready := by
    obtain ⟨found', hfound', hready⟩ := hs.mem_queue.1 (hqueue ▸ List.mem_cons_self)
    rw [hfound] at hfound'
    cases hfound'
    exact hready
  have hlookup {k : TaskId} (hk : id ≠ k) : (s.tasks.erase id)[k]? = s.tasks[k]? := by
    simp [Std.HashMap.getElem?_erase, hk]
  constructor
  case waits =>
    intro _ on hw
    obtain ⟨k, hk, hon⟩ := hw.registered
    have hne : id ≠ k := by
      rintro rfl
      rw [hfound] at hk
      cases hk
      cases hready
    exact .inl ⟨hw.pending, hw.source, k, (hlookup hne).trans hk, hon⟩
  case active =>
    intro _ hd
    obtain ⟨other, hfuture, hbody, hplace⟩ := hd.held
    refine ⟨hd.pending, ?_⟩
    rcases hplace with hout | ⟨k, hmem, hk⟩
    · exact ⟨other, hfuture, hbody, .inl (List.mem_cons_of_mem _ hout)⟩
    · by_cases hne : id = k
      · subst hne
        rw [hfound] at hk
        cases hk
        exact ⟨{ found with state := .running }, hfuture, hbody, .inl List.mem_cons_self⟩
      · rw [hqueue, List.mem_cons] at hmem
        exact ⟨other, hfuture, hbody, .inr ⟨k, hmem.resolve_left (Ne.symm hne),
          (hlookup hne).trans hk⟩⟩

theorem idle (hnext : s.nextReady = (none, t)) : Spares f s out t out := by
  obtain rfl := hs.of_nextReady_none hnext
  exact refl

/-- Another future is settled. A task that waits for it is woken. -/
theorem settle {g : FutureId} (hne : f ≠ g) (state : FutureState)
    (hout : ∀ task ∈ out, task.future = f → task ∈ out') :
    Spares f s out (s.settle g state) out' := by
  by_cases hg : s.futures.state? g = some .pending
  · have hwakes := hs.wakesOnce hg state
    have hpending : s.futures.state? f = some .pending →
        (s.settle g state).futures.state? f = some .pending :=
      (state?_settle_of_ne hne state).trans
    constructor
    case waits =>
      intro body on hw
      obtain ⟨id, hid, hon⟩ := hw.registered
      by_cases hwoken : id ∈ s.futures.waiters g
      · obtain ⟨task, htask, -, hready⟩ := hwakes.waiter id hwoken
        rw [hid] at htask
        cases htask
        refine .inr ⟨hpending hw.pending, _, rfl, rfl, .inr ⟨id, ?_, hready⟩⟩
        rw [hwakes.queue]
        exact List.mem_append_right _ hwoken
      · have hong : on ≠ g := fun heq => hwoken (heq ▸ hon)
        refine .inl ⟨hpending hw.pending, ?_, id, (hwakes.other id hwoken).trans hid, ?_⟩
        · rw [state?_settle_of_ne hong]
          exact hw.source
        · rw [hwakes.futures, FutureTable.waiters_settle_of_ne hong]
          exact hon
    case active =>
      intro body hd
      obtain ⟨task, hfuture, hbody, hplace⟩ := hd.held
      refine ⟨hpending hd.pending, task, hfuture, hbody, ?_⟩
      refine hplace.imp (fun hmem => hout task hmem hfuture) fun ⟨id, hqueue, hid⟩ => ⟨id, ?_, ?_⟩
      · rw [hwakes.queue]
        exact List.mem_append_left _ hqueue
      · -- the task is ready, so it waits for nothing
        refine (hwakes.other id fun hmem => ?_).trans hid
        obtain ⟨_, hready, hr⟩ := hs.mem_queue.1 hqueue
        obtain ⟨_, hwaiting, hw⟩ := hs.waiter hmem
        rw [hready] at hwaiting
        cases hwaiting
        rw [hr] at hw
        cases hw
  · rw [settle_of_not_pending hg]
    exact ⟨fun hw => .inl hw, fun hd => by
      obtain ⟨task, hfuture, hbody, hplace⟩ := hd.held
      exact ⟨hd.pending, task, hfuture, hbody, hplace.imp_left fun hmem =>
        hout task hmem hfuture⟩⟩

omit hs in
/-- Another task is handed back to wait. -/
theorem suspend {before after : List (Task β)} {task : Task β}
    (hs : s.Invariant (before ++ task :: after)) (hne : task.future ≠ f) (body : β)
    (on : FutureId) :
    Spares f s (before ++ task :: after) (s.suspend { task with body } on) (before ++ after) := by
  have habsent := hs.away_absent (List.mem_append_right before List.mem_cons_self)
  have hout {other : Task β} (hmem : other ∈ before ++ task :: after) (hfuture : other.future = f) :
      other ∈ before ++ after := by
    rcases List.mem_append.1 hmem with hmem | hmem
    · exact List.mem_append_left _ hmem
    · rcases List.mem_cons.1 hmem with rfl | hmem
      · exact absurd hfuture hne
      · exact List.mem_append_right _ hmem
  have hlookup (put : Task β) {id : TaskId} {other : Task β} (hid : s.tasks[id]? = some other) :
      (s.tasks.insert task.id put)[id]? = some other := by
    have hidne : task.id ≠ id := by
      rintro rfl
      rw [habsent] at hid
      cases hid
    simp [Std.HashMap.getElem?_insert, hidne, hid]
  unfold Scheduler.suspend
  split
  case isTrue hon =>
    have hwaiters := FutureTable.waiters_register (FutureTable.lt_size_of_isPending hon) task.id
    constructor
    case waits =>
      intro _ g hw
      obtain ⟨id, hid, hg⟩ := hw.registered
      refine .inl ⟨?_, ?_, id, hlookup _ hid, ?_⟩
      · exact (FutureTable.state?_register _ _ _ _).trans hw.pending
      · exact (FutureTable.state?_register _ _ _ _).trans hw.source
      · dsimp only
        rw [hwaiters]
        split
        case isTrue heq => exact List.mem_append_left _ (heq ▸ hg)
        case isFalse => exact hg
    case active =>
      intro _ hd
      obtain ⟨other, hfuture, hbody, hplace⟩ := hd.held
      refine ⟨(FutureTable.state?_register _ _ _ _).trans hd.pending, other, hfuture, hbody, ?_⟩
      exact hplace.imp (hout · hfuture) fun ⟨id, hqueue, hid⟩ => ⟨id, hqueue, hlookup _ hid⟩
  case isFalse hon =>
    constructor
    case waits =>
      intro _ g hw
      obtain ⟨id, hid, hg⟩ := hw.registered
      exact .inl ⟨hw.pending, hw.source, id, hlookup _ hid, hg⟩
    case active =>
      intro _ hd
      obtain ⟨other, hfuture, hbody, hplace⟩ := hd.held
      refine ⟨hd.pending, other, hfuture, hbody, ?_⟩
      refine hplace.imp (hout · hfuture) fun ⟨id, hqueue, hid⟩ => ⟨id, ?_, hlookup _ hid⟩
      simp [hqueue]

end Spares

variable {before after : List (Task β)} {task : Task β}

/-- A task that is handed back to wait for a pending future waits for it. -/
theorem waits_suspend (task : Task β) (body : β) {on : FutureId}
    (hpending : s.futures.state? task.future = some .pending)
    (hon : s.futures.state? on = some .pending) :
    (s.suspend { task with body } on).Waits task.future body on := by
  have hisPending := FutureTable.isPending_iff.2 hon
  have hsuspend : s.suspend { task with body } on =
      { s with
        futures := s.futures.register on task.id
        tasks := s.tasks.insert task.id ⟨task.id, task.future, .suspended, body⟩ } := by
    simp [Scheduler.suspend, hisPending]
  rw [hsuspend]
  refine ⟨(FutureTable.state?_register _ _ _ _).trans hpending,
    (FutureTable.state?_register _ _ _ _).trans hon, task.id, ?_, ?_⟩
  · simp
  · dsimp only
    rw [FutureTable.waiters_register_self (FutureTable.lt_size_of_isPending hisPending)]
    exact List.mem_append_right _ (List.mem_singleton.2 rfl)

/-- When a task is handed back and gone, no other task has its future. -/
theorem Reached.not_owns (h : s.Reached (before ++ task :: after)) :
    ¬ s.Owns (before ++ after) task.future := by
  rintro ⟨other, hplace, hfuture⟩
  have hmem : task ∈ before ++ task :: after := List.mem_append_right _ List.mem_cons_self
  have hsub : before ++ after ⊆ before ++ task :: after := by simp
  obtain rfl := h.eq_of_future_eq (hplace.imp_left (@hsub other)) (.inl hmem) hfuture
  rcases hplace with hout | ⟨id, hother⟩
  · have hnodup := h.invariant.away_nodup.of_map
    rw [List.nodup_middle, List.nodup_cons] at hnodup
    exact hnodup.1 hout
  · have habsent := h.invariant.away_absent hmem
    rw [h.invariant.key hother, hother] at habsent
    cases habsent

theorem Active.owns {body : β} (h : s.Active out f body) : s.Owns out f := by
  obtain ⟨task, hfuture, -, hplace⟩ := h.held
  exact ⟨task, hplace.imp_right fun ⟨id, _, hid⟩ => ⟨id, hid⟩, hfuture⟩

/-- Of an active task that is taken out the body is known. -/
theorem Active.body_eq {body : β} (h : s.Active (before ++ task :: after) task.future body)
    (hs : s.Reached (before ++ task :: after)) : task.body = body := by
  obtain ⟨other, hfuture, rfl, hplace⟩ := h.held
  have hmem : task ∈ before ++ task :: after := List.mem_append_right _ List.mem_cons_self
  have hheld : s.Holds (before ++ task :: after) other :=
    hplace.imp_right fun ⟨id, _, hid⟩ => ⟨id, hid⟩
  rw [hs.eq_of_future_eq hheld (.inl hmem) hfuture]

variable {body : β} {on : FutureId}

theorem Waits.owns (h : s.Waits f body on) : s.Owns out f := by
  obtain ⟨id, hid, -⟩ := h.registered
  exact ⟨_, .inr ⟨id, hid⟩, rfl⟩

/-- No task that is taken out waits. -/
theorem Waits.not_out (h : s.Waits task.future body on)
    (hs : s.Reached (before ++ task :: after)) : False := by
  obtain ⟨id, hid, -⟩ := h.registered
  have hmem : task ∈ before ++ task :: after := List.mem_append_right _ List.mem_cons_self
  have heq : (⟨id, task.future, .suspended, body⟩ : Task β) = task :=
    hs.eq_of_future_eq (.inr ⟨id, hid⟩) (.inl hmem) rfl
  have habsent := hs.invariant.away_absent hmem
  rw [← heq, hid] at habsent
  cases habsent

end Scheduler

end StreamLang
