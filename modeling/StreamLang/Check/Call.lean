import StreamLang.Builtin
import StreamLang.Builtin.ResultType
import StreamLang.Check.Basic
import StreamLang.Check.Scope

/-!
Streams that visibly never end: those that come from `generate_infinite` through stages of which
none bounds them.
-/

namespace StreamLang.Check

/-- The builtin reads a stream to its end. -/
def isTerminal : Builtin → Bool
  | .sequence .collect | .sequence .reduce | .sequence .chunk => true
  | .sequence .forEach | .sequence .count | .log => true
  | _ => false

/-- The builtin of that name is a stage that does not bound a stream. -/
def isOpenStage (name : String) : Bool :=
  match Builtin.ofName? name with
  | some (.sequence .map) | some (.sequence .filter) => true
  | some (.sequence .flatMap) | some (.sequence .skip) => true
  | _ => false

def isInfiniteSource (name : String) : Bool :=
  Builtin.ofName? name == some (.source .infinite)

def isUnbounded (scopes : Scopes) : Expr → Bool
  | .name _ n => ((scopes.lookup? n).map Binding.unbounded).getD false
  | .call _ (.name _ n) [] => (scopes.lookup? n).isNone && isInfiniteSource n
  | .call _ (.name _ n) (source :: _) =>
    (scopes.lookup? n).isNone
      && (isInfiniteSource n || (isOpenStage n && isUnbounded scopes source))
  | .method _ receiver n _ => isOpenStage n && isUnbounded scopes receiver
  | _ => false

end StreamLang.Check

/-!
Calls: what a function or a builtin gives when it is applied to arguments of certain types.
-/

namespace StreamLang.Check

/-- Arguments against parameters, the first of which has the given number. -/
def expectArguments : Nat → List Ty → List Ty → List Expr → CheckM Unit
  | number, param :: params, arg :: args, e :: es => do
    expectType param arg e (.argument number)
    expectArguments (number + 1) params args es
  | _, _, _, _ => return ()

/-- A call of a value. With fewer arguments than parameters it gives the function of the others. -/
def apply (callee : Ty) (args : List Ty) (exprs : List Expr) (span : Span) : CheckM Ty := do
  match callee.base with
  | .function params ret =>
    if params.length < args.length then
      report (.argumentCount params.length args.length) span
      return .unknown
    else
      expectArguments 1 params args exprs
      if args.length < params.length then return .function (params.drop args.length) ret
      else return ret
  | .unknown => return .unknown
  | other =>
    report (.notCallable other) span
    return .unknown

/-- A call of a builtin. -/
def applyBuiltin (b : Builtin) (args : List Ty) (exprs : List Expr) (span : Span) : CheckM Ty := do
  if args.length < b.arity.min && b.arity.curries then
    return .function (List.replicate (b.arity.min - args.length) .unknown) .unknown
  if !b.arity.accepts args.length then
    report (.builtinArguments b args.length) span
    return .unknown
  if b.isSequence then
    match args.head? with
    | some first =>
      if first.element?.isNone then
        report (.notSequence b first) ((exprs.head?.map Expr.span).getD span)
    | none => pure ()
  if isTerminal b then
    match exprs.head? with
    | some source =>
      if isUnbounded (← get).scopes source then
        warn (.unboundedStream b) span
    | none => pure ()
  return b.resultType args

end StreamLang.Check
