import StreamLang.Interpreter
import StreamLang.Proofs.Renaming.Builtins

/-! States with other identities. Futures and tasks keep their numbers; the values that they hold get the
other identities, and so do the values at the top of modules and the remembered ones. A name has the value
it had, and a pattern fits the values it fitted, both with the other identities. -/

namespace StreamLang

/-- Other identities, as many as before. Those that may still be given out follow one another as they did:
the next one in a call, and the first one inside a call. -/
structure Renaming where
  map : Identity → Identity
  injective : Function.Injective map
  /-- May still be given out. -/
  Coming : Identity → Prop
  coming_next : ∀ {id}, Coming id → Coming id.next
  coming_inner : ∀ {id}, Coming id → Coming id.inner
  map_next : ∀ {id}, Coming id → map id.next = (map id).next
  map_inner : ∀ {id}, Coming id → map id.inner = (map id).inner

section

variable (ρ : Identity → Identity)

def TaskFrame.rename : TaskFrame → TaskFrame
  | eval e env => eval e (env.rename ρ)
  | operand e env done => operand e (env.rename ρ) (done.map (Value.rename ρ))
  | branch e env => branch e (env.rename ρ)
  | arms e env => arms e (env.rename ρ)
  | logic e env right => logic e (env.rename ρ) right
  | block e env next pending => block e (env.rename ρ) next pending
  | await line => await line
  | resume future line => resume future line
  | attempt line => attempt line

def Combinator.rename : Combinator → Combinator
  | onError source handler => onError source (handler.rename ρ)
  | onComplete source handler => onComplete source (handler.rename ρ)
  | andThen source handler => andThen source (handler.rename ρ)
  | all sources values => all sources (values.map (Value.rename ρ))
  | forward source => forward source

def TaskBody.rename : TaskBody → TaskBody
  | machine m => machine { m with stack := m.stack.map (TaskFrame.rename ρ) }
  | combinator c => combinator (c.rename ρ)

def Task.rename (task : Task TaskBody) : Task TaskBody := { task with body := task.body.rename ρ }

def FutureState.rename : FutureState → FutureState
  | pending => pending
  | resolved v => resolved (v.rename ρ)
  | failed f => failed ⟨f.error.rename ρ, f.line⟩

def FutureSlot.rename (slot : FutureSlot) : FutureSlot := { slot with state := slot.state.rename ρ }

def FutureTable.rename (t : FutureTable) : FutureTable := ⟨t.slots.map (FutureSlot.rename ρ)⟩

def ModuleScope.rename (scope : ModuleScope) : ModuleScope :=
  { scope with globals := scope.globals.map (Value.renameEntry ρ) }

/-- The second scheduler is the first one with other identities. -/
structure Scheduler.Renamed (s t : Scheduler TaskBody) : Prop where
  futures : t.futures = s.futures.rename ρ
  tasks : ∀ id : TaskId, t.tasks[id]? = (s.tasks[id]?).map (Task.rename ρ)
  ready : t.ready = s.ready
  nextTask : t.nextTask = s.nextTask

/-- The second cache is the first one with other identities in what is remembered. -/
structure MemoCache.Renamed (m m' : MemoCache FunctionId) : Prop where
  entries : ∀ key : MemoKey FunctionId, m'.entries[key]? = (m.entries[key]?).map (Value.rename ρ)
  hits : m'.hits = m.hits
  misses : m'.misses = m.misses

/-- The second state is the first one with other identities, and nothing else is different. -/
inductive Interpreter.Renamed {γ : Type} : Interpreter γ → Interpreter γ → Prop
  | mk {s : Interpreter γ} {scheduler : Scheduler TaskBody} {memo : MemoCache FunctionId}
    (hscheduler : s.scheduler.Renamed ρ scheduler) (hmemo : s.memo.Renamed ρ memo) :
    Renamed s { s with
      modules := s.modules.map (ModuleScope.rename ρ)
      scheduler
      memo
      results := s.results.map (Value.rename ρ)
      nextIdentity := ρ s.nextIdentity }

end

variable {ρ : Identity → Identity}

/-! Futures -/

namespace FutureTable

variable (t : FutureTable)

@[simp] theorem size_rename : (t.rename ρ).size = t.size := Array.size_map

theorem state?_rename (id : FutureId) :
    (t.rename ρ).state? id = (t.state? id).map (FutureState.rename ρ) := by
  rw [state?, state?, rename, Array.getElem?_map, Option.map_map, Option.map_map]
  rfl

theorem isPending_rename (id : FutureId) : (t.rename ρ).isPending id = t.isPending id := by
  rw [isPending, isPending, state?_rename, Option.map_map]
  refine congrArg (Option.getD · false) (congrArg (Option.map · _) (funext fun state => ?_))
  cases state <;> rfl

theorem waiters_rename (id : FutureId) : (t.rename ρ).waiters id = t.waiters id := by
  rw [waiters, waiters, rename, Array.getElem?_map, Option.map_map]
  rfl

theorem create_rename : (t.rename ρ).create = t.create.rename ρ := by
  rw [create, create, rename, rename, Array.map_push]
  rfl

theorem modify_rename (id : FutureId) {f g : FutureSlot → FutureSlot}
    (h : ∀ slot, g (slot.rename ρ) = (f slot).rename ρ) :
    (⟨(t.rename ρ).slots.modify id g⟩ : FutureTable) = rename ρ ⟨t.slots.modify id f⟩ := by
  refine congrArg mk (Array.ext_getElem? fun i => ?_)
  rw [Array.getElem?_modify, rename, Array.getElem?_map, Array.getElem?_map, Array.getElem?_modify]
  split
  · rw [Option.map_map, Option.map_map]
    exact congrArg (Option.map · _) (funext h)
  · rfl

theorem markObserved_rename (id : FutureId) :
    (t.rename ρ).markObserved id = (t.markObserved id).rename ρ := t.modify_rename id fun _ => rfl

theorem settle_rename (id : FutureId) (state : FutureState) :
    (t.rename ρ).settle id (state.rename ρ) = (t.settle id state).rename ρ :=
  t.modify_rename id fun _ => rfl

end FutureTable

/-! Schedulers -/

namespace Scheduler.Renamed

variable {s t : Scheduler TaskBody} (h : s.Renamed ρ t)
include h

theorem createFuture : s.createFuture.1 = t.createFuture.1 ∧
    s.createFuture.2.Renamed ρ t.createFuture.2 := by
  refine ⟨?_, ⟨?_, h.tasks, h.ready, h.nextTask⟩⟩
  · rw [Scheduler.createFuture, Scheduler.createFuture, h.futures, FutureTable.size_rename]
  · rw [Scheduler.createFuture, Scheduler.createFuture, h.futures, FutureTable.create_rename]

theorem insert (task : Task TaskBody) (id : TaskId) :
    ∀ other : TaskId, (t.tasks.insert id (task.rename ρ))[other]? =
      ((s.tasks.insert id task)[other]?).map (Task.rename ρ) := by
  intro other
  rw [Std.HashMap.getElem?_insert, Std.HashMap.getElem?_insert, h.tasks]
  split <;> rfl

theorem spawn (body : TaskBody) : (t.spawn (body.rename ρ)).1 = (s.spawn body).1 ∧
    (s.spawn body).2.Renamed ρ (t.spawn (body.rename ρ)).2 := by
  have hsize : t.futures.size = s.futures.size := by rw [h.futures, FutureTable.size_rename]
  refine ⟨hsize, ⟨?_, ?_, ?_, ?_⟩⟩
  · rw [Scheduler.spawn, Scheduler.spawn, h.futures, FutureTable.create_rename]
  · rw [Scheduler.spawn, Scheduler.spawn, h.nextTask, hsize]
    exact h.insert ⟨s.nextTask, s.futures.size, .ready, body⟩ _
  · rw [Scheduler.spawn, Scheduler.spawn, h.ready, h.nextTask]
  · rw [Scheduler.spawn, Scheduler.spawn, h.nextTask]

theorem markObserved (id : FutureId) : (s.markObserved id).Renamed ρ (t.markObserved id) := by
  refine ⟨?_, h.tasks, h.ready, h.nextTask⟩
  rw [Scheduler.markObserved, Scheduler.markObserved, h.futures, FutureTable.markObserved_rename]

theorem wakeOne (id : TaskId) : (s.wakeOne id).Renamed ρ (t.wakeOne id) := by
  rw [Scheduler.wakeOne, Scheduler.wakeOne, h.tasks]
  cases s.tasks[id]? with
  | none => exact h
  | some task =>
    have hinsert := h.insert { task with state := .ready } id
    dsimp only [Option.map_some]
    rw [show (task.rename ρ).state = task.state from rfl]
    split
    · exact ⟨h.futures, hinsert, congrArg (Queue.push · id) h.ready, h.nextTask⟩
    · exact h

omit h in
theorem wakeAll (ids : List TaskId) : ∀ {s t : Scheduler TaskBody}, s.Renamed ρ t →
    (ids.foldl Scheduler.wakeOne s).Renamed ρ (ids.foldl Scheduler.wakeOne t) := by
  induction ids with
  | nil => exact fun h => h
  | cons id rest ih => exact fun h => ih (h.wakeOne id)

theorem settle (id : FutureId) (state : FutureState) :
    (s.settle id state).Renamed ρ (t.settle id (state.rename ρ)) := by
  rw [Scheduler.settle, Scheduler.settle, h.futures, FutureTable.isPending_rename]
  split
  · dsimp only
    rw [FutureTable.waiters_rename]
    refine wakeAll _ ⟨?_, h.tasks, h.ready, h.nextTask⟩
    rw [FutureTable.settle_rename]
  · exact h

end Scheduler.Renamed

/-! Remembered values -/

namespace MemoCache.Renamed

variable {m m' : MemoCache FunctionId} (h : m.Renamed ρ m') (key : MemoKey FunctionId)
include h

theorem find : (m'.find key).1 = (m.find key).1.map (Value.rename ρ) ∧
    (m.find key).2.Renamed ρ (m'.find key).2 := by
  rw [MemoCache.find, MemoCache.find, h.entries]
  cases m.entries[key]? with
  | none => exact ⟨rfl, h.entries, h.hits, congrArg (· + 1) h.misses⟩
  | some v => exact ⟨rfl, h.entries, congrArg (· + 1) h.hits, h.misses⟩

theorem insert (v : Value) : (m.insert key v).Renamed ρ (m'.insert key (v.rename ρ)) := by
  refine ⟨fun other => ?_, h.hits, h.misses⟩
  rw [MemoCache.insert, MemoCache.insert, Std.HashMap.getElem?_insert, Std.HashMap.getElem?_insert,
    h.entries]
  split <;> rfl

end MemoCache.Renamed

/-! Values at the top of modules -/

namespace Interpreter.Renamed

variable {γ : Type} {s t : Interpreter γ} (h : s.Renamed ρ t) (module : Nat)
include h

theorem global? (name : String) : t.global? module name = (s.global? module name).map (Value.rename ρ) := by
  obtain ⟨-, -⟩ := h
  rw [Interpreter.global?, Interpreter.global?, Array.getElem?_map]
  cases s.modules[module]? with
  | none => rfl
  | some scope => exact Keyed.get?_rename name scope.globals

theorem moduleName : t.moduleName module = s.moduleName module := by
  obtain ⟨-, -⟩ := h
  rw [Interpreter.moduleName, Interpreter.moduleName, Array.getElem?_map]
  cases s.modules[module]? <;> rfl

end Interpreter.Renamed

/-! Scopes and patterns -/

namespace Env

theorem extend_rename (env : Env) (bindings : List (String × Value)) :
    (env.rename ρ).extend (bindings.map (Value.renameEntry ρ)) = (env.extend bindings).rename ρ := by
  cases bindings <;> rfl

theorem lookup?_rename (env : Env) (name : String) :
    (env.rename ρ).lookup? name = (env.lookup? name).map (Value.rename ρ) := by
  induction env with
  | nil => rfl
  | cons frame rest ih =>
    have hframe : lookupFrame? name (frame.map (Value.renameEntry ρ)) =
        (lookupFrame? name frame).map (Value.rename ρ) := by
      rw [lookupFrame?, lookupFrame?, ← List.map_reverse, fieldOf?_rename]
    rw [lookup?, rename, List.map_cons, List.findSome?_cons, hframe, lookup?, List.findSome?_cons]
    cases lookupFrame? name frame with
    | none => exact ih
    | some v => rfl

end Env

namespace Value

theorem member?_rename (name : String) (v : Value) :
    (v.rename ρ).member? name = (v.member? name).map (rename ρ) := by
  cases v with
  | record _ fields =>
    rw [rename_record]
    exact fieldOf?_rename name fields
  | map entries =>
    rw [rename_map]
    exact fieldOf?_rename name entries
  | _ => rfl

end Value

theorem Literal.fits_rename (hρ : Function.Injective ρ) (l : Literal) (v : Value) :
    l.fits (v.rename ρ) = l.fits v := by
  cases l with
  | int n => exact Value.equals_rename hρ v (.int n)
  | float x => exact Value.equals_rename hρ v (.float x)
  | _ => cases v <;> rfl

theorem Marker.inside?_rename (futures : FutureTable) (m : Marker) (v : Value) :
    m.inside? (futures.rename ρ) (v.rename ρ) = (m.inside? futures v).map (Value.rename ρ) := by
  cases m with
  | some => cases v with
    | option inner => cases inner <;> rfl
    | _ => rfl
  | ok => cases v <;> rfl
  | err => cases v <;> rfl
  | resolved => cases v with
    | future id =>
      dsimp only [Value.rename_future, inside?]
      rw [futures.state?_rename]
      cases futures.state? id with
      | none => rfl
      | some state => cases state <;> rfl
    | _ => rfl
  | failed => cases v with
    | future id =>
      dsimp only [Value.rename_future, inside?]
      rw [futures.state?_rename]
      cases futures.state? id with
      | none => rfl
      | some state => cases state <;> rfl
    | _ => rfl

namespace Pattern

/-- What a pattern binds, with other identities. -/
abbrev renameMatch (ρ : Identity → Identity) :
    Option (List (String × Value)) → Option (List (String × Value)) :=
  Option.map (List.map (Value.renameEntry ρ))

theorem renameMatch_append {a b a' b' : Option (List (String × Value))} (ha : a' = renameMatch ρ a)
    (hb : b' = renameMatch ρ b) :
    (do return (← a') ++ (← b')) = renameMatch ρ (do return (← a) ++ (← b)) := by
  subst ha hb
  cases a with
  | none => rfl
  | some first => cases b with
    | none => rfl
    | some more => exact congrArg some List.map_append.symm

mutual

theorem bindings?_rename (hρ : Function.Injective ρ) (futures : FutureTable) (p : Pattern) (v : Value) :
    p.bindings? (futures.rename ρ) (v.rename ρ) = renameMatch ρ (p.bindings? futures v) := by
  cases p with
  | wildcard _ => rfl
  | bind _ name => rfl
  | literal _ l =>
    rw [bindings?, bindings?, l.fits_rename hρ]
    split <;> rfl
  | marked span marker inner =>
    rw [bindings?, bindings?, marker.inside?_rename]
    cases marker.inside? futures v with
    | none => rfl
    | some w => exact bindings?_rename hρ futures inner w
  | none _ =>
    cases v with
    | option inner => cases inner <;> rfl
    | _ => rfl
  | pending _ =>
    cases v with
    | future id =>
      rw [Value.rename_future, bindings?, bindings?, futures.isPending_rename]
      split <;> rfl
    | _ => rfl
  | record _ name fields _ =>
    cases v with
    | record actual values =>
      have hfields := fieldBindings?_rename hρ futures fields (.record actual values)
      rw [Value.rename_record] at hfields ⊢
      rw [bindings?, bindings?, hfields]
      split <;> rfl
    | _ => rfl
  | variant _ enum label payload =>
    cases v with
    | enum e w actual =>
      have hpayload := payloadBindings?_rename hρ futures payload actual
      rw [Value.rename_enum, bindings?, bindings?, hpayload]
      split <;> rfl
    | _ => rfl
  | tuple _ items =>
    cases v with
    | tuple values =>
      have hitems := itemBindings?_rename hρ futures items values
      rw [Value.rename_tuple, bindings?, bindings?, hitems, List.length_map]
      split <;> rfl
    | _ => rfl
  | list _ items rest =>
    cases v with
    | list values =>
      have hitems := itemBindings?_rename hρ futures items values
      cases rest with
      | none =>
        rw [Value.rename_list, bindings?, bindings?, hitems, List.length_map]
        split <;> rfl
      | some rest =>
        have hrest := bindings?_rename hρ futures rest (.list (values.drop items.length))
        rw [Value.rename_list, List.map_drop] at hrest
        rw [Value.rename_list]
        exact renameMatch_append hitems hrest
    | _ => cases rest <;> rfl
  | map _ entries =>
    cases v with
    | map values =>
      have hentries := entryBindings?_rename hρ futures entries (.map values)
      rw [Value.rename_map] at hentries ⊢
      exact hentries
    | record name values =>
      have hentries := entryBindings?_rename hρ futures entries (.record name values)
      rw [Value.rename_record] at hentries ⊢
      exact hentries
    | _ => rfl
termination_by structural p

theorem payloadBindings?_rename (hρ : Function.Injective ρ) (futures : FutureTable) (p : Option Pattern)
    (v : Option Value) : payloadBindings? (futures.rename ρ) p (v.map (Value.rename ρ)) =
      renameMatch ρ (payloadBindings? futures p v) := by
  cases p with
  | none => rfl
  | some p => cases v with
    | none => rfl
    | some v => exact bindings?_rename hρ futures p v
termination_by structural p

theorem itemBindings?_rename (hρ : Function.Injective ρ) (futures : FutureTable) (ps : List Pattern)
    (vs : List Value) : itemBindings? (futures.rename ρ) ps (vs.map (Value.rename ρ)) =
      renameMatch ρ (itemBindings? futures ps vs) := by
  cases ps with
  | nil => rfl
  | cons p ps => cases vs with
    | nil => rfl
    | cons v vs =>
      exact renameMatch_append (bindings?_rename hρ futures p v) (itemBindings?_rename hρ futures ps vs)
termination_by structural ps

theorem fieldBindings?_rename (hρ : Function.Injective ρ) (futures : FutureTable)
    (fields : List FieldPattern) (whole : Value) :
    fieldBindings? (futures.rename ρ) fields (whole.rename ρ) =
      renameMatch ρ (fieldBindings? futures fields whole) := by
  cases fields with
  | nil => rfl
  | cons field rest =>
    obtain ⟨name, _, pattern⟩ := field
    have hrest := fieldBindings?_rename hρ futures rest whole
    rw [fieldBindings?, fieldBindings?, whole.member?_rename]
    cases whole.member? name with
    | none => rfl
    | some v =>
      cases pattern with
      | none => exact renameMatch_append (a := some [(name, v)]) rfl hrest
      | some p => exact renameMatch_append (bindings?_rename hρ futures p v) hrest
termination_by structural fields

theorem entryBindings?_rename (hρ : Function.Injective ρ) (futures : FutureTable)
    (entries : List (String × Pattern)) (whole : Value) :
    entryBindings? (futures.rename ρ) entries (whole.rename ρ) =
      renameMatch ρ (entryBindings? futures entries whole) := by
  cases entries with
  | nil => rfl
  | cons entry rest =>
    obtain ⟨key, p⟩ := entry
    have hrest := entryBindings?_rename hρ futures rest whole
    rw [entryBindings?, entryBindings?, whole.member?_rename]
    cases whole.member? key with
    | none => rfl
    | some v => exact renameMatch_append (bindings?_rename hρ futures p v) hrest
termination_by structural entries

end

end Pattern

end StreamLang
