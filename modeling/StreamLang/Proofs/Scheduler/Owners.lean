import StreamLang.Proofs.Scheduler.Wakeups

/-! Futures and the tasks they belong to. As tasks go on, a future that belongs to none of them stays
as it is, and so does a future that is settled. -/

namespace StreamLang

theorem FutureTable.exists_state?_of_lt {futures : FutureTable} {id : FutureId}
    (h : id < futures.size) : ∃ state, futures.state? id = some state := by
  cases hstate : futures.state? id with
  | none => exact absurd (FutureTable.state?_eq_none_iff.1 hstate) (Nat.not_le.2 h)
  | some state => exact ⟨state, rfl⟩

/-- No future is lost, and what is settled stays as it is. -/
structure FutureTable.Later (futures futures' : FutureTable) : Prop where
  size : futures.size ≤ futures'.size
  settled : ∀ {g : FutureId} {state : FutureState}, state ≠ .pending →
    futures.state? g = some state → futures'.state? g = some state

namespace FutureTable.Later

variable {futures futures' futures'' : FutureTable}

theorem refl (futures : FutureTable) : futures.Later futures := ⟨Nat.le_refl _, fun _ h => h⟩

theorem trans (h : futures.Later futures') (h' : futures'.Later futures'') :
    futures.Later futures'' :=
  ⟨Nat.le_trans h.size h'.size, fun hsettled hstate => h'.settled hsettled (h.settled hsettled hstate)⟩

/-- Every future there was has the state it had. -/
theorem of_state? (h : ∀ g state, futures.state? g = some state → futures'.state? g = some state) :
    futures.Later futures' := by
  refine ⟨Nat.le_of_not_lt fun hlt => ?_, fun _ hstate => h _ _ hstate⟩
  obtain ⟨state, hstate⟩ := FutureTable.exists_state?_of_lt hlt
  exact Nat.lt_irrefl _ (FutureTable.lt_size_of_state? (h _ _ hstate))

end FutureTable.Later

namespace Scheduler

variable {β : Type} {s : Scheduler β} {out : List (Task β)}

/-- The future belongs to a task, which is in the table or taken out. -/
def Owns (s : Scheduler β) (out : List (Task β)) (f : FutureId) : Prop :=
  ∃ task : Task β, (task ∈ out ∨ ∃ id : TaskId, s.tasks[id]? = some task) ∧ task.future = f

/-- What the tasks of a program do to its futures as they go on. -/
structure Passes (s : Scheduler β) (out : List (Task β)) (t : Scheduler β) (out' : List (Task β)) :
    Prop where
  reached : t.Reached out'
  size : s.futures.size ≤ t.futures.size
  owner : ∀ f, t.Owns out' f → s.Owns out f ∨ s.futures.size ≤ f ∧ f < t.futures.size
  settled : ∀ f state, s.futures.state? f = some state → state ≠ .pending →
    t.futures.state? f = some state
  pending : ∀ f, s.futures.state? f = some .pending → ¬ s.Owns out f →
    t.futures.state? f = some .pending

/-- A task of the new table was in the old one, and only its state may be another one. -/
theorem task_of_wakeOne {id k : TaskId} {task : Task β}
    (h : (s.wakeOne id).tasks[k]? = some task) :
    ∃ old, s.tasks[k]? = some old ∧ task = { old with state := task.state } := by
  unfold wakeOne at h
  cases hfound : s.tasks[id]? with
  | none =>
    rw [hfound] at h
    exact ⟨task, h, rfl⟩
  | some waiter =>
    rw [hfound] at h
    dsimp only at h
    split at h
    · rw [Std.HashMap.getElem?_insert] at h
      split at h
      · rename_i heq
        cases h
        exact ⟨waiter, by rw [← eq_of_beq heq]; exact hfound, rfl⟩
      · exact ⟨task, h, rfl⟩
    · exact ⟨task, h, rfl⟩

theorem task_of_foldl_wakeOne {ids : List TaskId} {k : TaskId} {task : Task β}
    (h : (ids.foldl wakeOne s).tasks[k]? = some task) :
    ∃ old, s.tasks[k]? = some old ∧ task = { old with state := task.state } := by
  induction ids generalizing s with
  | nil => exact ⟨task, h, rfl⟩
  | cons id rest ih =>
    obtain ⟨middle, hmiddle, htask⟩ := ih h
    obtain ⟨old, hold, hmiddle'⟩ := task_of_wakeOne hmiddle
    rw [hmiddle'] at htask
    exact ⟨old, hold, htask⟩

theorem task_of_settle {f : FutureId} {state : FutureState} {k : TaskId} {task : Task β}
    (h : (s.settle f state).tasks[k]? = some task) :
    ∃ old, s.tasks[k]? = some old ∧ task = { old with state := task.state } := by
  unfold Scheduler.settle at h
  split at h
  · obtain ⟨old, hold, htask⟩ := task_of_foldl_wakeOne h
    exact ⟨old, hold, htask⟩
  · exact ⟨task, h, rfl⟩

theorem Owns.of_settle {f g : FutureId} {state : FutureState}
    (h : (s.settle g state).Owns out f) : s.Owns out f := by
  obtain ⟨task, hplace, rfl⟩ := h
  rcases hplace with hout | ⟨id, hid⟩
  · exact ⟨task, .inl hout, rfl⟩
  · obtain ⟨old, hold, htask⟩ := task_of_settle hid
    exact ⟨old, .inr ⟨id, hold⟩, by rw [htask]⟩

theorem Owns.of_subset {rest : List (Task β)} {f : FutureId} (hrest : rest ⊆ out)
    (h : s.Owns rest f) : s.Owns out f := by
  obtain ⟨task, hplace, hfuture⟩ := h
  exact ⟨task, hplace.imp_left (@hrest task), hfuture⟩

/-- The future of a task that is put back into the table. -/
theorem Owns.of_insert {t : Scheduler β} (task : Task β) {f : FutureId}
    (htasks : t.tasks = s.tasks.insert task.id task) (h : t.Owns out f) :
    f = task.future ∨ s.Owns out f := by
  obtain ⟨other, hplace, rfl⟩ := h
  rcases hplace with hout | ⟨id, hid⟩
  · exact .inr ⟨other, .inl hout, rfl⟩
  · rw [htasks, Std.HashMap.getElem?_insert] at hid
    split at hid
    · cases hid
      exact .inl rfl
    · exact .inr ⟨other, .inr ⟨id, hid⟩, rfl⟩

/-- A settled future stays as it is, whatever is settled. -/
theorem state?_settle_of_settled {f g : FutureId} {old state : FutureState}
    (hold : s.futures.state? f = some old) (hsettled : old ≠ .pending) :
    (s.settle g state).futures.state? f = some old := by
  by_cases hfg : f = g
  · subst hfg
    have hnot : s.futures.state? f ≠ some .pending := by
      rw [hold]
      simpa using hsettled
    rwa [settle_of_not_pending hnot]
  · rwa [state?_settle_of_ne hfg]

theorem size_settle (s : Scheduler β) (f : FutureId) (state : FutureState) :
    (s.settle f state).futures.size = s.futures.size := by
  cases hpending : s.futures.isPending f with
  | true => rw [futures_settle_of_pending hpending, FutureTable.size_settle]
  | false => simp [Scheduler.settle, hpending]

theorem later_suspend (s : Scheduler β) (task : Task β) (on : FutureId) :
    s.futures.Later (s.suspend task on).futures := by
  refine .of_state? fun f state hstate => ?_
  unfold Scheduler.suspend
  split
  · exact (FutureTable.state?_register _ _ _ _).trans hstate
  · exact hstate

theorem later_settle (s : Scheduler β) (f : FutureId) (state : FutureState) :
    s.futures.Later (s.settle f state).futures :=
  ⟨Nat.le_of_eq (size_settle s f state).symm, fun hsettled hstate =>
    state?_settle_of_settled hstate hsettled⟩

namespace Passes

/-- The futures keep their states, and the tasks their futures. -/
theorem of_futures {t : Scheduler β} {out' : List (Task β)} (hreached : t.Reached out')
    (hsize : t.futures.size = s.futures.size)
    (hstate : ∀ f, t.futures.state? f = s.futures.state? f)
    (howner : ∀ f, t.Owns out' f → s.Owns out f) : s.Passes out t out' where
  reached := hreached
  size := Nat.le_of_eq hsize.symm
  owner f hf := .inl (howner f hf)
  settled f _ hf _ := (hstate f).trans hf
  pending f hf _ := (hstate f).trans hf

theorem markObserved (h : s.Reached out) (id : FutureId) :
    s.Passes out (s.markObserved id) out := by
  refine of_futures (h.observe id) ?_ (fun _ => FutureTable.state?_markObserved _ _ _) fun _ hf => hf
  simp [Scheduler.markObserved, FutureTable.markObserved, FutureTable.size]

/-- One future is added, which may belong to a new task. -/
theorem of_create {t : Scheduler β} (hreached : t.Reached out)
    (hfutures : t.futures = s.futures.create)
    (howner : ∀ f, t.Owns out f → f = s.futures.size ∨ s.Owns out f) : s.Passes out t out := by
  have hsize : t.futures.size = s.futures.size + 1 := by
    rw [hfutures, FutureTable.size_create]
  constructor
  case reached => exact hreached
  case size =>
    rw [hsize]
    exact Nat.le_succ _
  case owner =>
    intro f hf
    rw [hsize]
    rcases howner f hf with rfl | hf
    · exact .inr ⟨Nat.le_refl _, Nat.lt_succ_self _⟩
    · exact .inl hf
  case settled =>
    intro f state hf _
    rw [hfutures]
    exact FutureTable.state?_create_of_some hf
  case pending =>
    intro f hf _
    rw [hfutures]
    exact FutureTable.state?_create_of_some hf

theorem spawn (h : s.Reached out) (body : β) : s.Passes out (s.spawn body).2 out :=
  of_create (h.spawn body) rfl fun _ hf =>
    Owns.of_insert ⟨s.nextTask, s.futures.size, .ready, body⟩ rfl hf

theorem createFuture (h : s.Reached out) : s.Passes out s.createFuture.2 out :=
  of_create h.createFuture rfl fun _ hf => .inr hf

theorem take (h : s.Reached out) {t : Scheduler β} {task : Task β}
    (hnext : s.nextReady = (some task, t)) : s.Passes out t (task :: out) := by
  have hreached := h.take hnext
  obtain ⟨id, rest, found, -, hfound, rfl, rfl⟩ := h.invariant.of_nextReady hnext
  refine of_futures hreached rfl (fun _ => rfl) ?_
  rintro f ⟨other, hplace, rfl⟩
  rcases hplace with hout | ⟨k, hk⟩
  · rcases List.mem_cons.1 hout with rfl | hout
    · exact ⟨found, .inr ⟨id, hfound⟩, rfl⟩
    · exact ⟨other, .inl hout, rfl⟩
  · rw [Std.HashMap.getElem?_erase] at hk
    split at hk
    · cases hk
    · exact ⟨other, .inr ⟨k, hk⟩, rfl⟩

theorem idle (h : s.Reached out) {t : Scheduler β} (hnext : s.nextReady = (none, t)) :
    s.Passes out t out := by
  have hreached := h.idle hnext
  obtain rfl := h.invariant.of_nextReady_none hnext
  exact of_futures hreached rfl (fun _ => rfl) fun _ hf => hf

variable {before after : List (Task β)} {task : Task β}

theorem suspend (h : s.Reached (before ++ task :: after)) (body : β) (on : FutureId) :
    s.Passes (before ++ task :: after) (s.suspend { task with body } on) (before ++ after) := by
  have hreached := h.suspend body on
  have howns : s.Owns (before ++ task :: after) task.future := ⟨task, .inl (by simp), rfl⟩
  have hrest : before ++ after ⊆ before ++ task :: after := by simp
  have howner {t : Scheduler β} (put : Task β) {f : FutureId} (hfuture : put.future = task.future)
      (htasks : t.tasks = s.tasks.insert put.id put) (hf : t.Owns (before ++ after) f) :
      s.Owns (before ++ task :: after) f := by
    rcases Owns.of_insert put htasks hf with rfl | hf
    · rwa [hfuture]
    · exact hf.of_subset hrest
  unfold Scheduler.suspend at hreached ⊢
  split at hreached
  case isTrue hon =>
    rw [if_pos hon]
    refine of_futures hreached ?_ (fun _ => FutureTable.state?_register _ _ _ _) fun f hf => ?_
    · simp [FutureTable.register, FutureTable.size]
    · exact howner ⟨task.id, task.future, .suspended, body⟩ rfl rfl hf
  case isFalse hon =>
    rw [if_neg hon]
    exact of_futures hreached rfl (fun _ => rfl) fun f hf =>
      howner ⟨task.id, task.future, .ready, body⟩ rfl rfl hf

/-- A task that ends settles its own future. -/
theorem finish {state : FutureState}
    (h : (s.settle task.future state).Reached (before ++ after)) :
    s.Passes (before ++ task :: after) (s.settle task.future state) (before ++ after) where
  reached := h
  size := Nat.le_of_eq (size_settle _ _ _).symm
  owner f hf := by
    have hrest : before ++ after ⊆ before ++ task :: after := by simp
    exact .inl (hf.of_settle.of_subset hrest)
  settled f old hold hsettled := state?_settle_of_settled hold hsettled
  pending f hf hforeign := by
    have hne : f ≠ task.future := by
      rintro rfl
      exact hforeign ⟨task, .inl (by simp), rfl⟩
    rwa [state?_settle_of_ne hne]

/-- A future that is new and belongs to nobody is settled at once. -/
theorem settledFuture (h : s.Reached out) {state : FutureState}
    (hreached : (s.createFuture.2.settle s.createFuture.1 state).Reached out) :
    s.Passes out (s.createFuture.2.settle s.createFuture.1 state) out := by
  have hcreated := createFuture h
  have hold {f : FutureId} {old : FutureState} (hf : s.futures.state? f = some old) :
      (s.createFuture.2.settle s.createFuture.1 state).futures.state? f =
        s.createFuture.2.futures.state? f :=
    state?_settle_of_ne (Nat.ne_of_lt (FutureTable.lt_size_of_state? hf)) state
  constructor
  case reached => exact hreached
  case size =>
    rw [size_settle]
    exact hcreated.size
  case owner =>
    intro f hf
    rw [size_settle]
    exact hcreated.owner f hf.of_settle
  case settled =>
    intro f old hf hsettled
    rw [hold hf]
    exact hcreated.settled f old hf hsettled
  case pending =>
    intro f hf hforeign
    rw [hold hf]
    exact hcreated.pending f hf hforeign

end Passes

end Scheduler

end StreamLang
