import StreamLang.Check.Program
import StreamLang.Eval
import StreamLang.Gateway
import StreamLang.Memo
import StreamLang.Options
import StreamLang.Pattern.Bindings
import StreamLang.Scheduler
import StreamLang.Task
import StreamLang.Value.Document

/-!
The state of a running program, over a provider of services, and the single changes that are made
to it.
-/

namespace StreamLang

/-- The bindings at the top of a module that is being run. -/
structure ModuleScope where
  name : String
  globals : List (String × Value)

/-- A request that was sent, and the future that waits for its answer. -/
structure Outstanding where
  request : RequestId
  future : FutureId
  op : ServiceOp

structure Interpreter (γ : Type) where
  options : Options
  schemas : SchemaTable
  pure : List FunctionId
  modules : Array ModuleScope
  /-- The module whose names are in scope. -/
  current : Nat
  scheduler : Scheduler TaskBody
  gateway : γ
  requests : List Outstanding
  nextRequest : RequestId
  memo : MemoCache FunctionId
  log : Array String
  /-- Values of the expressions at the top of the entry module. -/
  results : Array Value
  /-- How many calls are under way. -/
  depth : Nat
  /-- The line of the call that was last begun, or 0. -/
  line : Nat
  /-- How many slices of tasks were run. -/
  steps : Nat
  /-- How often the body of each function was run. -/
  evaluations : List (String × Nat)
  /-- The identity of what is made next. -/
  nextIdentity : Identity

namespace Interpreter

variable {γ : Type}

def start (checked : Checked) (options : Options) (gateway : γ) : Interpreter γ where
  options
  schemas := checked.schemas
  pure := checked.pure
  modules := #[]
  current := 0
  scheduler := .empty
  gateway
  requests := []
  nextRequest := 1
  memo := .empty
  log := #[]
  results := #[]
  depth := 0
  line := 0
  steps := 0
  evaluations := []
  nextIdentity := ⟨0, []⟩

/-- The value of a name at the top of a module. -/
def global? (s : Interpreter γ) (module : Nat) (name : String) : Option Value :=
  s.modules[module]?.bind fun scope => Keyed.get? name scope.globals

/-- The name of a module that is being run. -/
def moduleName (s : Interpreter γ) (module : Nat) : String :=
  (s.modules[module]?.map ModuleScope.name).getD ""

/-- Empties the log. -/
def clearLog (s : Interpreter γ) : Interpreter γ := { s with log := #[] }

end Interpreter

/-- Computations of the interpreter. -/
abbrev Run (γ α : Type) : Type := Eval (Interpreter γ) α

namespace Run

variable {γ : Type}

def freshIdentity : Run γ Identity :=
  modifyGet fun s => (s.nextIdentity, { s with nextIdentity := s.nextIdentity.next })

/-- A function that equals no other one. -/
def newFunction (c : Callable) : Run γ Value := return .function (← freshIdentity) c

/-- A stream that equals no other one. -/
def newStream (p : Pipeline) : Run γ Value := return .stream (← freshIdentity) p

/-- The value of a name: in the scope, at the top of the module, or among the builtins. -/
def lookup (name : String) (env : Env) : Run γ Value := do
  match env.lookup? name with
  | some v => return v
  | none =>
    let s ← get
    match s.global? s.current name with
    | some v => return v
    | none =>
      match Builtin.ofName? name with
      | some b => newFunction (.builtin b)
      | none =>
        if (Builtin.constantType? name).isSome then return .option none
        else Eval.fail (.undefinedVariable name)

def writeLog (line : String) : Run γ Unit := modify fun s => { s with log := s.log.push line }

def countEvaluation (name : String) : Run γ Unit :=
  modify fun s =>
    let count := (Keyed.get? name s.evaluations).getD 0
    { s with evaluations := Keyed.insert name (count + 1) s.evaluations }

def withScheduler {α : Type} (f : Scheduler TaskBody → α × Scheduler TaskBody) : Run γ α :=
  modifyGet fun s =>
    let r := f s.scheduler
    (r.1, { s with scheduler := r.2 })

/-- A task for an expression, in the current module. -/
def spawn (body : Expr) (env : Env) : Run γ FutureId := do
  let module := (← get).current
  withScheduler (·.spawn (.machine (.start body env module false)))

def spawnCombinator (c : Combinator) : Run γ FutureId := withScheduler (·.spawn (.combinator c))

def futureState? (id : FutureId) : Run γ (Option FutureState) :=
  return (← get).scheduler.futures.state? id

def markObserved (id : FutureId) : Run γ Unit :=
  withScheduler fun s => ((), s.markObserved id)

/-- The state of a future that is looked at. -/
def observe (id : FutureId) : Run γ (Option FutureState) := do
  markObserved id
  futureState? id

/-- What a pattern binds; a value that does not fit is a failure. -/
def destructure (pattern : Pattern) (v : Value) : Run γ (List (String × Value)) := do
  match pattern.bindings? (← get).scheduler.futures v with
  | some bindings => return bindings
  | none => Eval.fail (.patternMismatch v)

/-- Sends a request. Its future settles when the answer comes; a request that the provider refuses
has none. -/
def dispatch [Gateway γ] (op : ServiceOp) (args : List Json) : Run γ FutureId := do
  let id ← modifyGet fun s => (s.nextRequest, { s with nextRequest := s.nextRequest + 1 })
  let reply ← modifyGet fun s =>
    let r := Gateway.dispatch (γ := γ) ⟨id, op, args⟩ s.gateway
    (r.1, { s with gateway := r.2 })
  match reply with
  | .error message => Eval.fail (.gatewayFailure message)
  | .ok () =>
    let future ← withScheduler (·.createFuture)
    modify fun s => { s with requests := s.requests ++ [⟨id, future, op⟩] }
    return future

/-- What an answer is to the program. -/
def replyValue (op : ServiceOp) : Except String Json → Value
  | .error message => .err (.text message)
  | .ok document =>
    .ok (match op with
      | .trainModel => .model document
      | .predict => .prediction document
      | _ => .ofJson document)

/-- Settles the future of an answered request. Answers to no request are dropped. -/
def receive (c : Completion) : Run γ Unit :=
  modify fun s =>
    match s.requests.find? (·.request == c.id) with
    | none => s
    | some o =>
      { s with
        requests := s.requests.filter (·.request != c.id)
        scheduler := s.scheduler.resolve o.future (replyValue o.op c.reply) }

end Run

end StreamLang
