import StreamLang.Proofs.Contents.Scope
import StreamLang.Proofs.Keeps
import StreamLang.Proofs.Scheduler.Owners
import StreamLang.Proofs.Unreachable.Arity
import StreamLang.Proofs.Unreachable.Placed

/-! Sound states. Every future that a value, a task or a table speaks of is one of the futures there
are, and all code that is kept for later is in place. The futures only become more, so that what
fits among them goes on to fit. -/

namespace StreamLang

/-- The code of the function is in place. -/
def Callable.Placed : Callable → Prop
  | closure decl _ _ => decl.body.Placed decl.isAsync
  | builtin _ => True
  | applied target _ => target.Placed

/-- The predicates of the aliases in the table are in place. -/
def SchemaTable.Placed (t : SchemaTable) : Prop :=
  ∀ e ∈ t.aliases, ∀ p, e.2.predicate = some p → p.Placed false

theorem SchemaTable.Placed.predicate {t : SchemaTable} (h : t.Placed) {name : String}
    {a : AliasSchema} (ha : t.typeAlias? name = some a) {p : Expr} (hp : a.predicate = some p) :
    p.Placed false := by
  exact h _ (Keyed.mem_of_get? ha) p hp

/-- A future is among the first `n`, and the code of a function is in place. -/
def Value.Within (n : Nat) : Value → Prop
  | future id => id < n
  | function _ c => c.Placed
  | _ => True

/-- All that is inside the value fits among `n` futures. -/
abbrev Value.Fits (n : Nat) : Value → Prop := Value.Every (Value.Within n)

abbrev AllFit (n : Nat) : List Value → Prop := AllEvery (Value.Within n)

abbrev EntriesFit (n : Nat) : List (String × Value) → Prop := EntriesEvery (Value.Within n)

section

variable {m n : Nat}

theorem Value.Within.mono {v : Value} (hv : v.Within m) (h : m ≤ n) : v.Within n := by
  cases v with
  | future id => exact Nat.lt_of_lt_of_le hv h
  | _ => exact hv

theorem Value.Every.mono {v : Value} (hv : v.Fits m) (h : m ≤ n) : v.Fits n :=
  hv.imp fun _ _ hw => hw.mono h

theorem AllEvery.mono {vs : List Value} (hvs : AllFit m vs) (h : m ≤ n) : AllFit n vs :=
  fun v hv => (hvs v hv).mono h

theorem EntriesEvery.mono {entries : List (String × Value)} (he : EntriesFit m entries)
    (h : m ≤ n) : EntriesFit n entries :=
  fun e hmem => (he e hmem).mono h

theorem FutureState.Every.mono {state : FutureState} (hs : state.Every (Value.Within m))
    (h : m ≤ n) : state.Every (Value.Within n) := by
  cases state with
  | pending => trivial
  | resolved v => exact Value.Every.mono hs h
  | failed f => exact Value.Every.mono hs h

end

/-- An internal fault does not come out, and an early end gives a value that fits. -/
def Unwind.Fits (n : Nat) : Unwind → Prop
  | fail fault _ => ¬ fault.isInternal
  | early v _ => v.Fits n
  | exhausted => True

/-- A value is pending that the block has a `let` for. -/
def PendingStmt.Fits (e : Expr) : PendingStmt → Prop
  | bind index => ∃ binding, e.letAt index = .ok binding
  | discard => True

/-- The code in the frame is in place, its expression has the form that the frame is for, and the
values in it fit. An operand is one of as many as the expression has. -/
def TaskFrame.Fits (n : Nat) : TaskFrame → Prop
  | eval e env => e.Placed true ∧ AllFit n env.values
  | operand e env done =>
    e.isFromParts = true ∧ AllFit n env.values ∧ AllFit n done ∧
      (∀ part ∈ e.operands, part.Placed true) ∧ done.length + 1 ≤ e.operands.length
  | branch e env =>
    (e.Placed true ∧ ∃ branches, e.branches = .ok branches) ∧ AllFit n env.values
  | arms e env => (e.Placed true ∧ ∃ clauses, e.clauses = .ok clauses) ∧ AllFit n env.values
  | logic e env _ =>
    (e.Placed true ∧ ∃ operation, e.operation = .ok operation) ∧ AllFit n env.values
  | block e env next pending =>
    (e.Placed true ∧ (∃ left, e.statements next = .ok left) ∧ pending.Fits e) ∧
      AllFit n env.values
  | await _ => True
  | resume id _ => id < n
  | attempt _ => True

def Combinator.Fits (n : Nat) : Combinator → Prop
  | onError source handler => source < n ∧ handler.Fits n
  | onComplete source handler => source < n ∧ handler.Fits n
  | andThen source handler => source < n ∧ handler.Fits n
  | all sources values => (∀ source ∈ sources, source < n) ∧ AllFit n values
  | forward source => source < n

def TaskBody.Fits (n : Nat) : TaskBody → Prop
  | machine m => ∀ frame ∈ m.stack, frame.Fits n
  | combinator c => c.Fits n

section

variable {m n : Nat} (h : m ≤ n)
include h

theorem Unwind.Fits.mono {u : Unwind} (hu : u.Fits m) : u.Fits n := by
  cases u with
  | early v line => exact Value.Every.mono hu h
  | _ => exact hu

theorem TaskFrame.Fits.mono {frame : TaskFrame} (hf : frame.Fits m) : frame.Fits n := by
  cases frame with
  | operand e env done => exact ⟨hf.1, hf.2.1.mono h, hf.2.2.1.mono h, hf.2.2.2⟩
  | resume id line => exact Nat.lt_of_lt_of_le hf h
  | await | attempt => trivial
  | eval | branch | arms | logic | block => exact ⟨hf.1, hf.2.mono h⟩

theorem Combinator.Fits.mono {c : Combinator} (hc : c.Fits m) : c.Fits n := by
  cases c with
  | all sources values =>
    exact ⟨fun id hid => Nat.lt_of_lt_of_le (hc.1 id hid) h, hc.2.mono h⟩
  | forward source => exact Nat.lt_of_lt_of_le hc h
  | onError | onComplete | andThen => exact ⟨Nat.lt_of_lt_of_le hc.1 h, hc.2.mono h⟩

theorem TaskBody.Fits.mono {body : TaskBody} (hb : body.Fits m) : body.Fits n := by
  cases body with
  | machine m => exact fun frame hframe => (hb frame hframe).mono h
  | combinator c => exact Combinator.Fits.mono h hb

end

namespace Scheduler

/-- How many futures there are. -/
def width (s : Scheduler TaskBody) : Nat := s.futures.size

/-- What the futures gave fits, and so do the tasks that wait or are ready. -/
structure Sound (s : Scheduler TaskBody) : Prop where
  futures : s.futures.Every (Value.Within s.width)
  tasks : ∀ (id : TaskId) task, s.tasks[id]? = some task → task.body.Fits s.width

variable {s : Scheduler TaskBody}

@[simp] theorem width_createFuture : s.createFuture.2.width = s.width + 1 :=
  FutureTable.size_create _

@[simp] theorem width_spawn (body : TaskBody) : (s.spawn body).2.width = s.width + 1 :=
  FutureTable.size_create _

@[simp] theorem width_markObserved (id : FutureId) : (s.markObserved id).width = s.width :=
  FutureTable.size_markObserved _ _

@[simp] theorem width_settle (id : FutureId) (state : FutureState) :
    (s.settle id state).width = s.width :=
  size_settle _ _ _

@[simp] theorem width_suspend (task : Task TaskBody) (on : FutureId) :
    (s.suspend task on).width = s.width := by
  unfold Scheduler.suspend
  split
  · exact FutureTable.size_register _ _ _
  · rfl

theorem sound_empty : (empty : Scheduler TaskBody).Sound where
  futures id state h := by simp [empty, FutureTable.state?, FutureTable.empty] at h
  tasks id task h := by
    rw [show (empty : Scheduler TaskBody).tasks = ∅ from rfl, Std.HashMap.getElem?_empty] at h
    cases h

namespace Sound

variable (h : s.Sound)
include h

/-- One more future is pending. -/
theorem create : s.futures.create.Every (Value.Within (s.width + 1)) := by
  intro id state hstate
  rw [FutureTable.state?_create] at hstate
  split at hstate
  · cases hstate
    trivial
  · exact (h.futures id state hstate).mono (Nat.le_succ _)

theorem createFuture : s.createFuture.2.Sound := by
  refine ⟨?_, fun id task htask => ?_⟩
  · rw [width_createFuture]
    exact h.create
  · rw [width_createFuture]
    exact (h.tasks id task htask).mono (Nat.le_succ _)

theorem spawn {body : TaskBody} (hbody : body.Fits s.width) : (s.spawn body).2.Sound := by
  refine ⟨?_, fun id task htask => ?_⟩
  · rw [width_spawn]
    exact h.create
  · rw [width_spawn]
    refine TaskBody.Fits.mono (Nat.le_succ _) ?_
    simp only [Scheduler.spawn, Std.HashMap.getElem?_insert] at htask
    split at htask
    · cases htask
      exact hbody
    · exact h.tasks id task htask

theorem markObserved (id : FutureId) : (s.markObserved id).Sound := by
  refine ⟨fun other state hstate => ?_, fun other task htask => ?_⟩
  · rw [width_markObserved]
    exact h.futures other state ((FutureTable.state?_markObserved _ _ _).symm.trans hstate)
  · rw [width_markObserved]
    exact h.tasks other task htask

theorem settle (state : FutureState) (hstate : state.Every (Value.Within s.width))
    (id : FutureId) : (s.settle id state).Sound where
  futures other state' hstate' := by
    rw [width_settle]
    by_cases hother : other = id
    · subst hother
      cases hpending : s.futures.isPending other with
      | true =>
        rw [state?_settle_self (FutureTable.isPending_iff.1 hpending)] at hstate'
        cases hstate'
        exact hstate
      | false =>
        rw [Scheduler.settle, hpending] at hstate'
        exact h.futures other state' hstate'
    · rw [state?_settle_of_ne hother] at hstate'
      exact h.futures other state' hstate'
  tasks k task htask := by
    obtain ⟨old, hold, heq⟩ := task_of_settle htask
    rw [width_settle, heq]
    exact h.tasks k old hold

theorem suspend (task : Task TaskBody) (hbody : task.body.Fits s.width) (on : FutureId) :
    (s.suspend task on).Sound := by
  refine ⟨fun id state hstate => ?_, fun id found hfound => ?_⟩
  · rw [width_suspend]
    unfold Scheduler.suspend at hstate
    split at hstate
    · exact h.futures id state ((FutureTable.state?_register _ _ _ _).symm.trans hstate)
    · exact h.futures id state hstate
  · rw [width_suspend]
    unfold Scheduler.suspend at hfound
    split at hfound <;> simp only [Std.HashMap.getElem?_insert] at hfound <;> split at hfound
    · cases hfound
      exact hbody
    · exact h.tasks id found hfound
    · cases hfound
      exact hbody
    · exact h.tasks id found hfound

/-- The task that is taken out fits. -/
theorem takeReady (bound : Nat) {t : Scheduler TaskBody} {next : Option (Task TaskBody)}
    (ht : s.takeReady bound = (next, t)) :
    t.Sound ∧ t.width = s.width ∧ ∀ task, next = some task → task.body.Fits s.width := by
  induction bound generalizing s with
  | zero =>
    cases ht
    exact ⟨h, rfl, by rintro task ⟨⟩⟩
  | succ bound ih =>
    rw [Scheduler.takeReady] at ht
    split at ht
    · cases ht
      exact ⟨h, rfl, by rintro task ⟨⟩⟩
    · rename_i id ready _
      split at ht
      · rename_i task htask
        cases ht
        refine ⟨⟨h.futures, fun k other hother => ?_⟩, rfl, ?_⟩
        · rw [Std.HashMap.getElem?_erase] at hother
          split at hother
          · cases hother
          · exact h.tasks k other hother
        · rintro _ ⟨⟩
          exact h.tasks id task htask
      · exact ih (s := { s with ready }) ⟨h.futures, h.tasks⟩ ht

end Sound

end Scheduler

end StreamLang
