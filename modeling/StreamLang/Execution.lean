import StreamLang.Interpreter.Machine

/-!
Running the modules of a program in order. Each item at the top of a module is a task of its own,
and the scheduler works until the future of that task settles; at the end it works until nothing
moves any more.
-/

namespace StreamLang

/-- How an execution ends. -/
inductive Ending
  | finished
  | failed (fault : Fault) (line : Nat)
  /-- The bound on its length was too small. -/
  | exhausted

namespace Run

variable {γ : Type}

/-- A `?` that reaches the top of a module is a failure. -/
def atTop {α : Type} (line : Nat) (x : Run γ α) : Run γ α := fun s =>
  match x.located line s with
  | .error (.early v line) s => .error (.fail (.unhandled v) line) s
  | r => r

/-- The provider fails. -/
def ofGateway {α : Type} (f : γ → Except String α × γ) : Run γ α := do
  let reply ← modifyGet fun s =>
    let r := f s.gateway
    (r.1, { s with gateway := r.2 })
  match reply with
  | .ok a => return a
  | .error message => Eval.fail (.gatewayFailure message)

/-- Counts a slice of a task, while there may be more. -/
def countStep : Run γ Unit := do
  modify fun s => { s with steps := s.steps + 1 }
  let s ← get
  if s.options.maxSchedulerSteps < s.steps then
    Eval.fail (.stepLimit s.options.maxSchedulerSteps)

/-- The functions and values a module imports, as they are bound in the modules run so far. -/
def importedGlobals (modules : Array ModuleScope) (imports : List ResolvedImport) :
    List (String × Value) :=
  imports.filterMap fun i =>
    if i.kind.isType then none
    else
      ((modules.find? (·.name == i.module)).bind fun scope =>
        Keyed.get? i.symbol scope.globals).map (i.localName, ·)

/-- The functions of a module, as values. -/
def functionGlobals (module : Nat) : List FunctionDecl → Run γ (List (String × Value))
  | [] => return []
  | d :: rest => do
    let f ← Run.newFunction (.closure d Env.empty module)
    return (d.displayName, f) :: (← functionGlobals module rest)

/-- Opens the scope of a module: its imports and its functions are bound from the start. -/
def load (u : ModuleUnit) : Run γ Nat := do
  let module := (← get).modules.size
  let imported := importedGlobals (← get).modules u.imports
  let functions ← functionGlobals module u.functions
  let scope : ModuleScope := ⟨u.name, Keyed.ofList (imported ++ functions)⟩
  modify fun s => { s with modules := s.modules.push scope }
  return module

/-- Binds names at the top of a module. -/
def bindGlobals (module : Nat) (bindings : List (String × Value)) : Run γ Unit :=
  modify fun s =>
    { s with
      modules := s.modules.modify module fun scope =>
        { scope with
          globals := bindings.foldl (fun m b => Keyed.insert b.1 b.2 m) scope.globals } }

end Run

namespace Recur

variable {γ : Type} [Gateway γ]

/-- One unit of progress: a slice of a task that is ready, or else an answer of the provider, or
else time for one that is still to come. False when there is none of these. -/
def step (r : Recur γ) : Run γ Bool := do
  match ← Run.withScheduler Scheduler.nextReady with
  | some task =>
    Run.countStep
    r.runTask task
    return true
  | none =>
    match ← Run.ofGateway Gateway.poll with
    | some c =>
      Run.receive c
      return true
    | none =>
      if 0 < Gateway.outstanding (← get).gateway then
        Run.ofGateway Gateway.wait
        return true
      else return false

/-- Works until a future settles, for the item on a line. -/
def settle (r : Recur γ) (line : Nat) (id : FutureId) : Nat → Run γ Value
  | 0 => throw .exhausted
  | fuel + 1 => do
    match ← Run.futureState? id with
    | some (.resolved v) =>
      Run.markObserved id
      return v
    | some (.failed f) =>
      Run.markObserved id
      Eval.failAt (.failedFuture f.message) (if f.line = 0 then line else f.line)
    | some .pending =>
      if ← r.step.located line then settle r line id fuel
      else Eval.failAt .neverResolves line
    | none => Eval.failAt .unknownFuture line

/-- Works until nothing moves. -/
def drain (r : Recur γ) : Nat → Run γ Unit
  | 0 => throw .exhausted
  | fuel + 1 => do
    if ← r.step then drain r fuel

/-- Evaluates an expression at the top of a module. -/
def runRoot (r : Recur γ) (line : Nat) (e : Expr) : Run γ Value := do
  let module := (← get).current
  let id ← Run.withScheduler (·.spawn (.machine (.start e Env.empty module true)))
  r.settle line id r.fuel

def runLet (r : Recur γ) (module line : Nat) (d : LetDecl) : Run γ Unit := do
  let v ← r.runRoot line d.value
  (r.checkOptional d.ty v line).atTop line
  let bindings ← (Run.destructure d.pattern v).atTop line
  Run.bindGlobals module bindings

/-- An expression that gives a future stands for its outcome. -/
def runExpr (r : Recur γ) (line : Nat) (e : Expr) : Run γ Value := do
  match ← r.runRoot line e with
  | .future id => r.settle line id r.fuel
  | v => return v

/-- Runs an item; only the entry module reports its values. -/
def runItem (r : Recur γ) (module : Nat) (isMain : Bool) (i : Item) : Run γ Unit := do
  modify fun s => { s with current := module }
  match i.kind with
  | .binding d => r.runLet module i.span.line d
  | .expr e =>
    let v ← r.runExpr i.span.line e
    if isMain then modify fun s => { s with results := s.results.push v }
  | _ => return ()

def runUnit (r : Recur γ) (isMain : Bool) (u : ModuleUnit) : Run γ Unit := do
  let module ← Run.load u
  u.program.items.forM (r.runItem module isMain)

/-- Runs modules in order; the last one is the entry. -/
def runUnits (r : Recur γ) : List ModuleUnit → Run γ Unit
  | [] => return ()
  | u :: rest => do
    r.runUnit rest.isEmpty u
    runUnits r rest

def runProgram (r : Recur γ) (units : List ModuleUnit) : Run γ Unit := do
  modify fun s => { s with results := #[] }
  r.runUnits units
  r.drain r.fuel

end Recur

namespace Interpreter

variable {γ : Type} [Gateway γ]

/-- Runs a program, once more on the state that earlier runs have left. -/
def execute (fuel : Nat) (units : List ModuleUnit) (s : Interpreter γ) : Ending × Interpreter γ :=
  match (Recur.ofFuel fuel).runProgram units s with
  | .ok () s => (.finished, s)
  | .error (.fail fault line) s => (.failed fault line, s)
  | .error (.early v line) s => (.failed (.unhandled v) line, s)
  | .error .exhausted s => (.exhausted, s)

end Interpreter

end StreamLang
