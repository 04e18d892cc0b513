import StreamLang.Proofs.Contents.Scope
import StreamLang.Proofs.Lockstep.Diagonal
import StreamLang.Proofs.Scheduler.Owners
import StreamLang.Proofs.Unreachable.Placed

/-! What is to hold in a run, said once for all that is kept in its states. A charter says it of
functions and records, of the code in a scope of a module and of the values that code gives; what the
futures are due to come to is said apart from it. -/

namespace StreamLang

/-- What is to hold in a run. -/
structure Charter where
  /-- The function may stand in a value. -/
  closure : FunctionDecl → Env → Nat → Prop
  /-- A record of this name may have these fields, in this order. -/
  shape : String → List String → Prop
  /-- Of what is loaded, besides that its values are as they should be. -/
  loaded : Loaded → Prop
  /-- The expression may be evaluated in the scope, with the names of the module. -/
  code : Nat → Env → Expr → Prop
  /-- So may the rest of a block. -/
  block : Nat → Env → Option Expr → List Stmt → Prop
  /-- The expression, when it is evaluated there, may give the value. -/
  gives : Nat → Env → Expr → Value → Prop

/-- The pattern fits the value, as futures stand at some time, and binds this. -/
def Pattern.Matches (p : Pattern) (v : Value) (bindings : List (String × Value)) : Prop :=
  ∃ futures, p.bindings? futures v = some bindings

/-- The values a combinator holds. -/
def Combinator.values : Combinator → List Value
  | onError _ handler => [handler]
  | onComplete _ handler => [handler]
  | andThen _ handler => [handler]
  | all _ values => values
  | forward _ => []

namespace Charter

variable (C : Charter)

/-- The function, without the values it holds. -/
def Admits : Callable → Prop
  | .closure decl env module => C.closure decl env module
  | .builtin _ => True
  | .applied target _ => Admits target

/-- The function or the record, without the values inside it. -/
def ok : Value → Prop
  | .function _ c => C.Admits c
  | .record name fields => C.shape name (fields.map (·.1))
  | _ => True

/-- Every function and every record in the value is as the charter says. -/
abbrev Fine : Value → Prop := Value.Every C.ok

abbrev AllFine : List Value → Prop := AllEvery C.ok

abbrev EntriesFine : List (String × Value) → Prop := EntriesEvery C.ok

/-- Arms that may be tried in the scope. -/
def Arms (m : Nat) (env : Env) (arms : List MatchArm) : Prop :=
  ∀ arm ∈ arms, ∀ v bindings, arm.pattern.Matches v bindings →
    (∀ e, arm.guard = some e → C.code m (env.extend bindings) e) ∧
      C.code m (env.extend bindings) arm.body

/-- The block may go on from a statement on in the scope. -/
def Rest (m : Nat) (env : Env) (e : Expr) (next : Nat) : Prop :=
  ∀ left, e.statements next = .ok left → C.block m env left.2 left.1

/-- The frame may go on with the value that comes to it. -/
def Ready (m : Nat) : TaskFrame → Value → Prop
  | .eval e env, _ => C.code m env e ∧ C.AllFine env.values
  | .operand e env done, v =>
    (e.isFromParts = true ∧ C.code m env e ∧ C.AllFine done ∧ ∃ before part rest,
      e.operands = before ++ part :: rest ∧
        List.Forall₂ (C.gives m env) before done.reverse ∧ C.gives m env part v) ∧
      C.AllFine env.values
  | .branch e env, _ => C.code m env e ∧ C.AllFine env.values
  | .arms e env, _ => C.code m env e ∧ C.AllFine env.values
  | .logic e env _, _ => C.code m env e ∧ C.AllFine env.values
  | .block e env next (.bind index), v =>
    (∀ binding, e.letAt index = .ok binding → ∀ bindings, binding.2.1.Matches v bindings →
      C.Rest m (env.extend bindings) e next) ∧ C.AllFine env.values
  | .block e env next .discard, _ => C.Rest m env e next ∧ C.AllFine env.values
  | _, _ => True

/-- The value may be what the work of the frame comes to. -/
def Yields (m : Nat) : TaskFrame → Value → Prop
  | .eval e env, v => C.gives m env e v
  | .operand e env _, v => C.gives m env e v
  | _, _ => True

/-- The stack may go on with the value that comes to its top, and what comes out of it in the end is
as `Q` says. -/
def Stack (m : Nat) (Q : Value → Prop) : List TaskFrame → Value → Prop
  | [], v => Q v
  | frame :: rest, v =>
    C.Ready m frame v ∧ ∀ w, C.Fine w → C.Yields m frame w → Stack m Q rest w

/-- A task may go on with the body, and comes to a value as `Q` says. A `?` can end the task with any
value, except at the top of a module. -/
def Body (Q : Value → Prop) : TaskBody → Prop
  | .machine m => (m.root = true ∨ ∀ v, Q v) ∧ C.Stack m.module Q m.stack .void
  | .combinator c => (∀ v, Q v) ∧ C.AllFine c.values

/-- The task settles one of so many futures, with what may come to it. -/
structure Works (due : FutureId → Value → Prop) (n : Nat) (task : Task TaskBody) : Prop where
  known : task.future < n
  body : C.Body (due task.future) task.body

/-- The future may be in the state. -/
def Settles (due : FutureId → Value → Prop) (id : FutureId) : FutureState → Prop
  | .pending => True
  | .resolved v => C.Fine v ∧ due id v
  | .failed f => C.Fine f.error

/-- What the futures have come to, and the tasks that wait or are ready. Of futures that are still to
be made nothing is promised. -/
structure Scheduler (due : FutureId → Value → Prop) (s : StreamLang.Scheduler TaskBody) : Prop where
  futures : ∀ id state, s.futures.state? id = some state → C.Settles due id state
  tasks : ∀ (id : TaskId) task, s.tasks[id]? = some task → C.Works due s.futures.size task
  fresh : ∀ id, s.futures.size ≤ id → ∀ v, due id v

/-- A state as the charter says. Of the answers to requests nothing is promised. -/
structure State {γ : Type} (due : FutureId → Value → Prop) (s : Interpreter γ) : Prop where
  loaded : C.loaded s.loaded
  globals : ∀ scope ∈ s.modules, C.EntriesFine scope.globals
  memo : ∀ (key : MemoKey FunctionId) v, s.memo.entries[key]? = some v → C.Fine v
  results : ∀ v ∈ s.results, C.Fine v
  scheduler : C.Scheduler due s.scheduler
  requests : ∀ o ∈ s.requests, o.future < s.scheduler.futures.size ∧ ∀ v, due o.future v

/-- The charter says of code what evaluation needs of it. -/
structure Lawful (γ : Type) [Gateway γ] : Prop where
  declared : ∀ {l name schema}, C.loaded l → l.schemas.record? name = some schema →
    C.shape name (schema.fields.map (·.1))
  predicate : ∀ {l name a p}, C.loaded l → l.schemas.typeAlias? name = some a →
    a.predicate = some p → ∀ m v, C.code m (Env.empty.bind "value" v) p
  /-- Only of names, and of what is made from parts, it matters what they give. -/
  others : ∀ {m env e}, (∀ span n, e ≠ .name span n) → e.isFromParts = false → ∀ v,
    C.gives m env e v
  name : ∀ {due} {s t : Interpreter γ} {env span n v}, C.State due s → C.code s.current env (.name span n) →
    Run.lookup n env s = .ok v t → C.gives s.current env (.name span n) v
  parts : ∀ {m env e}, C.code m env e → e.isFromParts = true → ∀ part ∈ e.operands,
    C.code m env part
  combined : ∀ {fuel due} {s t : Interpreter γ} {env e vs v}, C.State due s → C.code s.current env e →
    e.isFromParts = true → List.Forall₂ (C.gives s.current env) e.operands vs →
    (Recur.ofFuel fuel).combine e env vs s = .ok v t → C.gives s.current env e v
  logical : ∀ {m env span op lhs rhs}, C.code m env (.binary span op lhs rhs) →
    op.isLogical = true → C.code m env lhs ∧ C.code m env rhs
  branch : ∀ {m env span test whenTrue whenFalse},
    C.code m env (.branch span test whenTrue whenFalse) → C.code m env test ∧
      C.code m env whenTrue ∧ ∀ e, whenFalse = some e → C.code m env e
  cases : ∀ {m env span scrutinee arms}, C.code m env (.cases span scrutinee arms) →
    C.code m env scrutinee ∧ C.Arms m env arms
  ofBlock : ∀ {m env span stmts tail}, C.code m env (.block span stmts tail) →
    C.block m env tail stmts
  tail : ∀ {m env e}, C.block m env (some e) [] → C.code m env e
  bind : ∀ {m env tail span pattern ty e rest},
    C.block m env tail (.bind span pattern ty e :: rest) → C.code m env e ∧
      ∀ v bindings, C.gives m env e v → pattern.Matches v bindings →
        C.block m (env.extend bindings) tail rest
  expr : ∀ {m env tail e rest}, C.block m env tail (.expr e :: rest) →
    C.code m env e ∧ C.block m env tail rest
  async : ∀ {m env span body}, C.code m env (.async span body) → C.code m env body
  await : ∀ {m env span future}, C.code m env (.await span future) → C.code m env future
  attempt : ∀ {m env span inner}, C.code m env (.attempt span inner) → C.code m env inner
  ofClosure : ∀ {m env span decl}, C.code m env (.closure span decl) → C.closure decl env m
  enter : ∀ {m env decl bindings}, C.closure decl env m →
    bindings.map (·.1) = decl.params.map Param.name → C.code m (env.extend bindings) decl.body

variable {C} {due : FutureId → Value → Prop}

-- futures and tasks

namespace Scheduler

variable {s : StreamLang.Scheduler TaskBody} (h : C.Scheduler due s)
include h

theorem create (id : FutureId) (state : FutureState)
    (hstate : s.futures.create.state? id = some state) : C.Settles due id state := by
  rw [FutureTable.state?_create] at hstate
  split at hstate
  · cases hstate
    trivial
  · exact h.futures id state hstate

theorem freshAfter {n : Nat} (hn : s.futures.size ≤ n) (id : FutureId) (hid : n ≤ id) (v : Value) :
    due id v :=
  h.fresh id (Nat.le_trans hn hid) v

theorem worksAfter {n : Nat} (hn : s.futures.size ≤ n) (id : TaskId) (task : Task TaskBody)
    (htask : s.tasks[id]? = some task) : C.Works due n task :=
  ⟨Nat.lt_of_lt_of_le (h.tasks id task htask).known hn, (h.tasks id task htask).body⟩

theorem createFuture : C.Scheduler due s.createFuture.2 where
  futures := h.create
  tasks := h.worksAfter (by simp [StreamLang.Scheduler.createFuture])
  fresh := h.freshAfter (by simp [StreamLang.Scheduler.createFuture])

/-- The future of a task that is started now comes to anything. -/
theorem spawn {body : TaskBody} (hbody : C.Body (due s.futures.size) body) :
    C.Scheduler due (s.spawn body).2 where
  futures := h.create
  tasks id task htask := by
    simp only [StreamLang.Scheduler.spawn, Std.HashMap.getElem?_insert] at htask
    split at htask
    · cases htask
      exact ⟨by simp [StreamLang.Scheduler.spawn], hbody⟩
    · exact h.worksAfter (by simp [StreamLang.Scheduler.spawn]) id task htask
  fresh := h.freshAfter (by simp [StreamLang.Scheduler.spawn])

theorem markObserved (id : FutureId) : C.Scheduler due (s.markObserved id) where
  futures other state hstate :=
    h.futures other state ((FutureTable.state?_markObserved _ _ _).symm.trans hstate)
  tasks := h.worksAfter (Nat.le_of_eq (FutureTable.size_markObserved _ _).symm)
  fresh := h.freshAfter (Nat.le_of_eq (FutureTable.size_markObserved _ _).symm)

theorem settle {id : FutureId} {state : FutureState} (hstate : C.Settles due id state) :
    C.Scheduler due (s.settle id state) where
  futures other state' hstate' := by
    by_cases hother : other = id
    · subst hother
      cases hpending : s.futures.isPending other with
      | true =>
        rw [StreamLang.Scheduler.state?_settle_self (FutureTable.isPending_iff.1 hpending)] at hstate'
        cases hstate'
        exact hstate
      | false =>
        rw [StreamLang.Scheduler.settle, hpending] at hstate'
        exact h.futures other state' hstate'
    · rw [StreamLang.Scheduler.state?_settle_of_ne hother] at hstate'
      exact h.futures other state' hstate'
  tasks k task htask := by
    obtain ⟨old, hold, heq⟩ := StreamLang.Scheduler.task_of_settle htask
    have hworks := h.worksAfter (Nat.le_of_eq (StreamLang.Scheduler.size_settle s id state).symm) k
      old hold
    rw [heq]
    exact ⟨hworks.known, hworks.body⟩
  fresh := h.freshAfter (Nat.le_of_eq (StreamLang.Scheduler.size_settle _ _ _).symm)

theorem suspend {task : Task TaskBody} (htask : C.Works due s.futures.size task) (on : FutureId) :
    C.Scheduler due (s.suspend task on) := by
  unfold StreamLang.Scheduler.suspend
  split
  all_goals refine ⟨fun id state hstate => ?_, fun id found hfound => ?_, ?_⟩
  · exact h.futures id state ((FutureTable.state?_register _ _ _ _).symm.trans hstate)
  · have hsize := Nat.le_of_eq (FutureTable.size_register s.futures on task.id).symm
    simp only [Std.HashMap.getElem?_insert] at hfound
    split at hfound
    · cases hfound
      exact ⟨Nat.lt_of_lt_of_le htask.known hsize, htask.body⟩
    · exact h.worksAfter hsize id found hfound
  · exact h.freshAfter (Nat.le_of_eq (FutureTable.size_register _ _ _).symm)
  · exact h.futures id state hstate
  · simp only [Std.HashMap.getElem?_insert] at hfound
    split at hfound
    · cases hfound
      exact ⟨htask.known, htask.body⟩
    · exact h.tasks id found hfound
  · exact h.fresh

/-- The task that is taken out may go on. -/
theorem takeReady (bound : Nat) {t : StreamLang.Scheduler TaskBody}
    {next : Option (Task TaskBody)} (ht : s.takeReady bound = (next, t)) :
    C.Scheduler due t ∧ t.futures.size = s.futures.size ∧
      ∀ task, next = some task → C.Works due t.futures.size task := by
  induction bound generalizing s with
  | zero =>
    cases ht
    exact ⟨h, rfl, by rintro task ⟨⟩⟩
  | succ bound ih =>
    rw [StreamLang.Scheduler.takeReady] at ht
    split at ht
    · cases ht
      exact ⟨h, rfl, by rintro task ⟨⟩⟩
    · rename_i id ready _
      split at ht
      · rename_i task htask
        cases ht
        refine ⟨⟨h.futures, fun k other hother => ?_, h.fresh⟩, rfl, ?_⟩
        · rw [Std.HashMap.getElem?_erase] at hother
          split at hother
          · cases hother
          · exact h.tasks k other hother
        · rintro _ ⟨⟩
          exact ⟨(h.tasks id task htask).known, (h.tasks id task htask).body⟩
      · exact ih (s := { s with ready }) ⟨h.futures, h.tasks, h.fresh⟩ ht

end Scheduler

namespace State

variable {γ : Type} {s t : Interpreter γ} (h : C.State due s)
include h

/-- Nothing changes of what is kept. -/
theorem of_same (hloaded : t.loaded = s.loaded) (hmemo : t.memo.entries = s.memo.entries)
    (hresults : t.results = s.results) (hscheduler : t.scheduler = s.scheduler)
    (hrequests : t.requests = s.requests) : C.State due t where
  loaded := by
    rw [hloaded]
    exact h.loaded
  globals := by
    rw [show t.modules = s.modules from congrArg Loaded.modules hloaded]
    exact h.globals
  memo := by
    rw [hmemo]
    exact h.memo
  results := by
    rw [hresults]
    exact h.results
  scheduler := by
    rw [hscheduler]
    exact h.scheduler
  requests := by
    rw [hrequests, hscheduler]
    exact h.requests

theorem withScheduler {scheduler : StreamLang.Scheduler TaskBody} (hscheduler : C.Scheduler due scheduler)
    (hgrown : s.scheduler.futures.size ≤ scheduler.futures.size) : C.State due { s with scheduler } :=
  ⟨h.loaded, h.globals, h.memo, h.results, hscheduler,
    fun o ho => ⟨Nat.lt_of_lt_of_le (h.requests o ho).1 hgrown, (h.requests o ho).2⟩⟩

end State

end Charter

end StreamLang
