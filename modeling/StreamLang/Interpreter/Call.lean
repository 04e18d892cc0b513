import StreamLang.Builtin.Collection
import StreamLang.Builtin.Scalar
import StreamLang.Interpreter.Sequence

/-!
Calls. A call with too few arguments is a function that waits for the others. A saturated call of
an async function starts a task, and the result of a pure function may be remembered.
-/

namespace StreamLang

/-- The source the builtin describes, from as many arguments as it takes. -/
def SourceOp.source (op : SourceOp) (args : List Value) : Except Fault Source :=
  let self : Builtin := .source op
  match op, args with
  | .ofList, [l] => do return .list (← Argument.list self l)
  | .range, start :: stop :: more => do
    let start ← Argument.int self start
    let stop ← Argument.int self stop
    let step ← match more with
      | [] | [.void] => Except.ok 1
      | step :: _ => Argument.int self step
    if step == 0 then .error .zeroStep else return .range start stop step
  | .generate, [count, generator] => do
    return .generate (← Argument.int self count) generator
  | .infinite, [generator] => .ok (.infinite generator)
  | .empty, [] => .ok .empty
  | _, _ => .error (.unavailable self)

namespace Run

variable {γ : Type}

/-- A new future that is settled from the start. -/
def settledFuture (state : FutureState) : Run γ Value := do
  let id ← withScheduler (·.createFuture)
  withScheduler fun s => ((), s.settle id state)
  return .future id

/-- The future that an argument is. -/
def futureOf (op : FutureOp) (v : Value) : Run γ FutureId :=
  Eval.ofExcept (Argument.future (.future op) v)

/-- The builtins on futures. -/
def onFutures (op : FutureOp) (args : List Value) : Run γ Value :=
  match op, args with
  | .onError, [source, handler] => do
    let source ← futureOf op source
    return .future (← spawnCombinator (.onError source handler))
  | .onComplete, [source, handler] => do
    let source ← futureOf op source
    return .future (← spawnCombinator (.onComplete source handler))
  | .andThen, [source, handler] => do
    let source ← futureOf op source
    return .future (← spawnCombinator (.andThen source handler))
  | .all, [l] => do
    let items ← Eval.ofExcept (Argument.list (.future op) l)
    let sources ← Eval.ofExcept (Argument.futures (.future op) items)
    return .future (← spawnCombinator (.all sources []))
  | .resolved, [v] => settledFuture (.resolved v)
  | .failed, [v] => do settledFuture (.failed ⟨v, (← get).line⟩)
  | .state, [f] => do
    match ← futureState? (← futureOf op f) with
    | some state => return .text state.label
    | none => Eval.fail .unknownFuture
  | _, _ => Eval.fail (.unavailable (.future op))

/-- Runs a computation with the names of a module. -/
def inModule {α : Type} (module : Nat) (x : Run γ α) : Run γ α := do
  let previous := (← get).current
  modify fun s => { s with current := module }
  x.restoring fun s => { s with current := previous }

/-- Runs the body of a function one call deeper, if that is not too deep. -/
def deeper {α : Type} (x : Run γ α) : Run γ α := do
  modify fun s => { s with depth := s.depth + 1 }
  x.restoring fun s => { s with depth := s.depth - 1 }

/-- Numbers what is made inside a call, and the call itself as one. -/
def numbered {α : Type} (x : Run γ α) : Run γ α := do
  let id := (← get).nextIdentity
  modify fun s => { s with nextIdentity := id.inner }
  x.restoring fun s => { s with nextIdentity := id.next }

/-- The key under which a call is remembered: only calls of pure functions with a name have one. -/
def memoKey? (decl : FunctionDecl) (module : Nat) (args : List Value) :
    Run γ (Option (MemoKey FunctionId)) := do
  match decl.name with
  | none => return none
  | some name =>
    let s ← get
    let id : FunctionId := ⟨s.moduleName module, name⟩
    return if s.options.memoize && !decl.isAsync && s.pure.contains id then MemoKey.ofCall? id args
      else none

def remembered? (key : MemoKey FunctionId) : Run γ (Option Value) :=
  modifyGet fun s =>
    let r := s.memo.find key
    (r.1, { s with memo := r.2 })

def remember (key : MemoKey FunctionId) (v : Value) : Run γ Unit :=
  modify fun s => { s with memo := s.memo.insert key v }

end Run

namespace Recur

variable {γ : Type}

/-- One line for each element of a stream, or one line for all arguments. -/
def writeLog (r : Recur γ) (args : List Value) : Run γ Value := do
  match args with
  | [.stream _ p] => r.foldStream "log" p (fun _ v => Run.writeLog v.render) ()
  | args => Run.writeLog (" ".intercalate (args.map Value.render))
  return .void

/-- The arguments of a request; a stream is sent as the list of its elements. -/
def requestArgs (r : Recur γ) (op : ServiceOp) (args : List Value) : Run γ (List Json) :=
  args.mapM fun v =>
    match v with
    | .stream _ p => return (Value.list (← p.drain r.call r.fuel op.text)).toJson
    | v => return v.toJson

def callService [Gateway γ] (r : Recur γ) (op : ServiceOp) (args : List Value) : Run γ Value := do
  return .future (← Run.dispatch op (← r.requestArgs op args))

/-- A call with as many arguments as the builtin takes. -/
def callBuiltin [Gateway γ] (r : Recur γ) (b : Builtin) (args : List Value) : Run γ Value :=
  match b with
  | .sequence op => r.onSequence op args
  | .source op => do Run.newStream (.ofSource (← Eval.ofExcept (op.source args)))
  | .collection op => Eval.ofExcept (op.apply args)
  | .wrapper op => Eval.ofExcept (op.apply args)
  | .scalar op => Eval.ofExcept (op.apply args)
  | .log => r.writeLog args
  | .future op => Run.onFutures op args
  | .service op => r.callService op args

/-- The parameters with their arguments, each checked against its annotation. -/
def bindParams (r : Recur γ) : List Param → List Value → Run γ (List (String × Value))
  | p :: ps, v :: vs => do
    let line := (← get).line
    r.checkOptional p.ty v (if line = 0 then p.span.line else line)
    return (p.name, v) :: (← bindParams r ps vs)
  | _, _ => return []

/-- Runs the body of a function that is not async. -/
def runBody (r : Recur γ) (decl : FunctionDecl) (env : Env) : Run γ Value := do
  let s ← get
  if s.options.maxCallDepth ≤ s.depth then Eval.fail (.depthExceeded s.options.maxCallDepth)
  else
    if let some name := decl.name then Run.countEvaluation name
    let v ← (Run.deeper (r.eval decl.body env)).catchEarly
    r.checkOptional decl.ret v decl.span.line
    return v

def enterClosure (r : Recur γ) (decl : FunctionDecl) (env : Env) (args : List Value) :
    Run γ Value := do
  let env := env.extend (← r.bindParams decl.params args)
  if decl.isAsync then return .future (← Run.spawn decl.body env) else r.runBody decl env

/-- A call with as many arguments as the function has parameters. -/
def callClosure (r : Recur γ) (decl : FunctionDecl) (env : Env) (module : Nat)
    (args : List Value) : Run γ Value :=
  Run.numbered do
    match ← Run.memoKey? decl module args with
    | none => Run.inModule module (r.enterClosure decl env args)
    | some key =>
      match ← Run.remembered? key with
      | some v => return v
      | none =>
        let v ← Run.inModule module (r.enterClosure decl env args)
        Run.remember key v
        return v

def callCallable [Gateway γ] (r : Recur γ) : Callable → List Value → Run γ Value
  | .applied target bound, args => callCallable r target (bound ++ args)
  | .builtin b, args =>
    if args.length < b.arity.min && b.arity.curries then
      Run.newFunction (.applied (.builtin b) args)
    else if b.arity.accepts args.length then r.callBuiltin b args
    else Eval.fail (.builtinArity b args.length)
  | .closure decl env module, args =>
    if args.length < decl.arity then Run.newFunction (.applied (.closure decl env module) args)
    else if args.length = decl.arity then r.callClosure decl env module args
    else Eval.fail (.functionArity decl.displayName decl.arity args.length)

def callValue [Gateway γ] (r : Recur γ) (f : Value) (args : List Value) : Run γ Value :=
  match f with
  | .function _ c => r.callCallable c args
  | v => Eval.fail (.notCallable v.kind)

end Recur

end StreamLang
