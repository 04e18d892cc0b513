import StreamLang.Builtin.ResultType
import StreamLang.Modules

/-!
Which functions may be remembered by their arguments. A function is pure when its body, with the
lambdas written inside it, uses no effectful builtin, neither starts nor awaits anything, and
refers only to pure functions and to data of its module. Writing to the log is allowed.
-/

namespace StreamLang

/-- What a name of a module refers to. -/
inductive GlobalSymbol
  | function (id : FunctionId) (isAsync : Bool)
  | value (ty : Ty)

/-- What the names of a module refer to. -/
abbrev Globals : Type := List (String × GlobalSymbol)

namespace Purity

/-- What the body of a function does: the functions it refers to and whether it has an effect of
its own. `locals` holds every name bound so far anywhere in the body. -/
structure Summary where
  locals : List String
  calls : List FunctionId
  effectful : Bool

namespace Summary

def start : Summary := ⟨[], [], false⟩

def bind (s : Summary) (names : List String) : Summary := { s with locals := names ++ s.locals }

def taint (s : Summary) : Summary := { s with effectful := true }

def call (s : Summary) (id : FunctionId) : Summary := { s with calls := id :: s.calls }

end Summary

/-- A value of this type may hide an effect. -/
def isOpaque (ty : Ty) : Bool :=
  match ty.base with
  | .function _ _ | .unknown | .future _ | .stream _ => true
  | _ => false

/-- A builtin with this effect can be used in a pure function. -/
def isHarmless : Effect → Bool
  | .pure | .log => true
  | .async | .gateway => false

/-- The body refers to a name. -/
def refer (globals : Globals) (name : String) (s : Summary) : Summary :=
  if s.locals.contains name then s
  else match Keyed.get? name globals with
    | some (.function id isAsync) => if isAsync then s.taint else s.call id
    | some (.value ty) => if isOpaque ty then s.taint else s
    | none =>
      match Builtin.ofName? name with
      | some b => if isHarmless b.effect then s else s.taint
      | none => if (Builtin.constantType? name).isSome then s else s.taint

def stmtNames : Stmt → List String
  | .bind _ pattern _ _ => pattern.names
  | .expr _ => []

mutual

def summarize (globals : Globals) : Expr → Summary → Summary
  | .literal _ _, s => s
  | .name _ n, s => refer globals n s
  | .list _ items, s => summarizeAll globals items s
  | .tuple _ items, s => summarizeAll globals items s
  | .map _ entries, s => summarizeEntries globals entries s
  | .record _ _ fields, s => summarizeFields globals fields s
  | .variant _ _ _ args, s => summarizeAll globals args s
  | .update _ target fields, s => summarizeFields globals fields (summarize globals target s)
  | .select _ target _, s => summarize globals target s
  | .index _ target i, s => summarize globals i (summarize globals target s)
  | .call _ callee args, s => summarizeAll globals args (summarize globals callee s)
  | .method _ receiver name args, s =>
    summarizeAll globals args (summarize globals receiver (refer globals name s))
  | .binary _ _ lhs rhs, s => summarize globals rhs (summarize globals lhs s)
  | .unary _ _ operand, s => summarize globals operand s
  | .branch _ test whenTrue whenFalse, s =>
    summarizeOptional globals whenFalse
      (summarize globals whenTrue (summarize globals test s))
  | .cases _ scrutinee arms, s =>
    let bound := s.bind (arms.flatMap fun a => a.pattern.names)
    summarizeArms globals arms (summarize globals scrutinee bound)
  | .block _ stmts tail, s =>
    let bound := s.bind (stmts.flatMap stmtNames)
    summarizeOptional globals tail (summarizeStmts globals stmts bound)
  | .closure _ decl, s => summarizeFunction globals decl s
  | .async _ _, s => s.taint
  | .await _ _, s => s.taint
  | .attempt _ inner, s => summarize globals inner s

def summarizeOptional (globals : Globals) : Option Expr → Summary → Summary
  | none, s => s
  | some e, s => summarize globals e s

def summarizeAll (globals : Globals) : List Expr → Summary → Summary
  | [], s => s
  | e :: rest, s => summarizeAll globals rest (summarize globals e s)

def summarizeEntries (globals : Globals) : List (String × Expr) → Summary → Summary
  | [], s => s
  | (_, e) :: rest, s => summarizeEntries globals rest (summarize globals e s)

def summarizeFields (globals : Globals) : List FieldInit → Summary → Summary
  | [], s => s
  | ⟨_, _, e⟩ :: rest, s => summarizeFields globals rest (summarize globals e s)

def summarizeArms (globals : Globals) : List MatchArm → Summary → Summary
  | [], s => s
  | ⟨_, _, guard, e⟩ :: rest, s =>
    summarizeArms globals rest (summarize globals e (summarizeOptional globals guard s))

def summarizeStmts (globals : Globals) : List Stmt → Summary → Summary
  | [], s => s
  | .bind _ _ _ e :: rest, s => summarizeStmts globals rest (summarize globals e s)
  | .expr e :: rest, s => summarizeStmts globals rest (summarize globals e s)

def summarizeFunction (globals : Globals) : FunctionDecl → Summary → Summary
  | ⟨_, params, _, e, isAsync, _⟩, s =>
    let s := if isAsync then s.taint else s
    summarize globals e (s.bind (params.map Param.name))

end

/-- The named functions of a module with what they do. -/
def unitSummaries (globals : Globals) (u : ModuleUnit) : List (FunctionId × Summary) :=
  u.functions.map fun d =>
    (⟨u.name, d.displayName⟩, summarizeFunction globals d .start)

/-- Keeps the functions that refer only to functions of the list. -/
def prune (fs : List (FunctionId × Summary)) : List (FunctionId × Summary) :=
  fs.filter fun f => f.2.calls.all fun id => fs.any fun g => g.1 == id

/-- Prunes until nothing changes; each round but the last removes one function at least. -/
def pruneAll : Nat → List (FunctionId × Summary) → List (FunctionId × Summary)
  | 0, fs => fs
  | n + 1, fs => pruneAll n (prune fs)

/-- The pure functions among all functions of a program. -/
def pureFunctions (summaries : List (FunctionId × Summary)) : List FunctionId :=
  (pruneAll summaries.length (summaries.filter fun f => !f.2.effectful)).map (·.1)

end Purity

end StreamLang
