import StreamLang.Interpreter.Call
import StreamLang.Interpreter.Record
import StreamLang.Operator.Apply

/-!
Evaluation of expressions that need not wait. A failure has the line of the innermost expression
around it. Evaluation and calls need each other; a bound on how far they go down makes them end.
-/

namespace StreamLang

namespace Expr

/-- The parts of an expression that is evaluated from all of its parts, first to last. -/
def operands : Expr → List Expr
  | list _ items => items
  | tuple _ items => items
  | map _ entries => entries.map (·.2)
  | record _ _ fields => fields.map FieldInit.value
  | variant _ _ _ args => args
  | update _ target fields => target :: fields.map FieldInit.value
  | select _ target _ => [target]
  | index _ target i => [target, i]
  | call _ callee args => callee :: args
  | method _ receiver _ args => receiver :: args
  | binary _ _ lhs rhs => [lhs, rhs]
  | unary _ _ operand => [operand]
  | _ => []

end Expr

namespace Run

variable {γ : Type}

def truth (what : Condition) : Value → Run γ Bool
  | .bool b => return b
  | v => Eval.fail (.notBool what v.kind)

/-- The value inside a success; with a failure the function around ends. -/
def attempt (v : Value) (line : Nat) : Run γ Value :=
  match v with
  | .ok inner => return inner
  | .option (some inner) => return inner
  | .err _ => throw (.early v line)
  | .option none => throw (.early v line)
  | v => Eval.fail (.notAttemptable v.kind)

/-- The value of a future that is there already. -/
def awaitSettled (v : Value) (line : Nat) : Run γ Value := do
  match v with
  | .future id =>
    match ← observe id with
    | some (.resolved v) => return v
    | some (.failed f) =>
      Eval.failAt (.failedFuture f.message) (if f.line = 0 then line else f.line)
    | some .pending => Eval.fail .pendingAwait
    | none => Eval.failAt .unknownFuture line
  | v => Eval.fail (.notAwaitable v.kind)

/-- The left operand decides alone. -/
def decides (op : BinaryOp) (b : Bool) : Bool :=
  match op with
  | .and => !b
  | .or => b
  | _ => false

end Run

namespace Recur

variable {γ : Type}

/-- A function in a field of the receiver, or else the function of that name with the receiver in
front. -/
def callMethod (r : Recur γ) (name : String) (receiver : Value) (args : List Value) (env : Env) :
    Run γ Value := do
  let own : Option Value :=
    match receiver with
    | .record _ fields => fieldOf? name fields
    | _ => none
  match own with
  | some (.function id c) => r.call (.function id c) args
  | _ => r.call (← Run.lookup name env) (receiver :: args)

/-- The value of an expression from the values of its parts. -/
def combine (r : Recur γ) (e : Expr) (env : Env) (vs : List Value) : Run γ Value :=
  match e, vs with
  | .list _ _, vs => return .list vs
  | .tuple _ _, vs => return .tuple vs
  | .map _ entries, vs => return .map (Keyed.ofList ((entries.map (·.1)).zip vs))
  | .record _ name fields, vs => r.buildRecord name (fields.zip vs)
  | .variant _ enum variant _, vs => Run.buildVariant enum variant vs
  | .update _ _ fields, target :: vs => r.update target (fields.zip vs)
  | .select _ _ field, [target] => Eval.ofExcept (target.select field)
  | .index _ _ _, [target, i] => Eval.ofExcept (target.index i)
  | .call span _ _, callee :: args => do
    modify fun s => { s with line := span.line }
    r.call callee args
  | .method span _ name _, receiver :: args => do
    modify fun s => { s with line := span.line }
    r.callMethod name receiver args env
  | .binary _ op _ _, [a, b] => Eval.ofExcept (op.apply a b)
  | .unary _ op _, [v] => Eval.ofExcept (op.apply v)
  | _, _ => Eval.fail .notFromParts

/-- The scope behind a `let`: the annotation holds, and the pattern fits. -/
def bindLet (r : Recur γ) (span : Span) (pattern : Pattern) (ty : Option TypeExpr) (v : Value)
    (env : Env) : Run γ Env := do
  r.checkOptional ty v span.line
  return env.extend (← (Run.destructure pattern v).located span.line)

def evalOr (r : Recur γ) (e : Option Expr) (env : Env) : Run γ Value :=
  match e with
  | none => return .void
  | some e => r.eval e env

def evalBlock (r : Recur γ) (tail : Option Expr) : List Stmt → Env → Run γ Value
  | [], env => r.evalOr tail env
  | .bind span pattern ty value :: rest, env => do
    let env' ← r.bindLet span pattern ty (← r.eval value env) env
    evalBlock r tail rest env'
  | .expr e :: rest, env => do
    let _ ← r.eval e env
    evalBlock r tail rest env

/-- The guard of an arm holds. -/
def guardHolds (r : Recur γ) (guard : Option Expr) (env : Env) : Run γ Bool := do
  match guard with
  | none => return true
  | some e => Run.truth .guard (← r.eval e env)

/-- The body of the first arm whose pattern fits and whose guard holds, and its scope. -/
def firstArm (r : Recur γ) (v : Value) (env : Env) : List MatchArm → Run γ (Expr × Env)
  | [] => Eval.fail (.noArm v)
  | arm :: rest => do
    match arm.pattern.bindings? (← get).scheduler.futures v with
    | none => firstArm r v env rest
    | some bindings =>
      let env' := env.extend bindings
      if ← r.guardHolds arm.guard env' then return (arm.body, env')
      else firstArm r v env rest

/-- A future that is matched has been looked at. -/
def selectArm (r : Recur γ) (v : Value) (env : Env) (arms : List MatchArm) :
    Run γ (Expr × Env) := do
  if let .future id := v then Run.markObserved id
  r.firstArm v env arms

def evalLogical (r : Recur γ) (op : BinaryOp) (lhs rhs : Expr) (env : Env) : Run γ Value := do
  let a ← Run.truth .operand (← r.eval lhs env)
  if Run.decides op a then return .bool a
  else return .bool (← Run.truth .operand (← r.eval rhs env))

def evalParts (r : Recur γ) (e : Expr) (env : Env) : Run γ Value := do
  r.combine e env (← e.operands.mapM fun part => r.eval part env)

def evalNode (r : Recur γ) (e : Expr) (env : Env) : Run γ Value :=
  match e with
  | .literal _ l => return .ofLiteral l
  | .name _ n => Run.lookup n env
  | .branch _ test whenTrue whenFalse => do
    if ← Run.truth .branch (← r.eval test env) then r.eval whenTrue env
    else r.evalOr whenFalse env
  | .cases _ scrutinee arms => do
    let arm ← r.selectArm (← r.eval scrutinee env) env arms
    r.eval arm.1 arm.2
  | .block _ stmts tail => r.evalBlock tail stmts env
  | .closure _ decl => do Run.newFunction (.closure decl env (← get).current)
  | .async _ body => return .future (← Run.spawn body env)
  | .await span future => do Run.awaitSettled (← r.eval future env) span.line
  | .attempt span inner => do Run.attempt (← r.eval inner env) span.line
  | .binary span op lhs rhs =>
    if op.isLogical then r.evalLogical op lhs rhs env
    else r.evalParts (.binary span op lhs rhs) env
  | e => r.evalParts e env

end Recur

section

variable {γ : Type} [Gateway γ]

mutual

def evalWithin : Nat → Expr → Env → Run γ Value
  | 0, _, _ => throw .exhausted
  | fuel + 1, e, env =>
    (Recur.evalNode ⟨fuel, evalWithin fuel, callWithin fuel⟩ e env).located e.line

def callWithin : Nat → Value → List Value → Run γ Value
  | 0, _, _ => throw .exhausted
  | fuel + 1, f, args => Recur.callValue ⟨fuel, evalWithin fuel, callWithin fuel⟩ f args

end

/-- Evaluation and calls with a bound. -/
def Recur.ofFuel (fuel : Nat) : Recur γ := ⟨fuel, evalWithin fuel, callWithin fuel⟩

end

end StreamLang
