import StreamLang.Interpreter
import StreamLang.Stream.Cursor

/-!
The refinements of a type, checked on a value. A predicate is evaluated with the candidate as
`value`; the check goes on inside lists, sets, options and tuples.
-/

namespace StreamLang

/-- Evaluation and calls of one step less, and how many steps less that is at most. -/
structure Recur (γ : Type) where
  fuel : Nat
  eval : Expr → Env → Run γ Value
  call : Host (Interpreter γ)

namespace Recur

variable {γ : Type}

/-- The predicate of an alias holds on the value; an alias without a predicate holds on all. -/
def checkPredicate (r : Recur γ) (name : String) (v : Value) (line : Nat) : Run γ Unit := do
  let schema := (← get).schemas.typeAlias? name
  match schema.bind AliasSchema.predicate with
  | none => return ()
  | some predicate =>
    match ← (r.eval predicate (Env.empty.bind "value" v)).located line with
    | .bool true => return ()
    | _ => Eval.failAt (.refinementViolated v name) line

mutual

def checkRefinements (r : Recur γ) (line : Nat) : Ty → Value → Run γ Unit
  | .refined name base, v => do
    r.checkPredicate name v line
    checkRefinements r line base v
  | .list elem, .list items => items.forM (checkRefinements r line elem)
  | .list elem, .set items => items.forM (checkRefinements r line elem)
  | .set elem, .list items => items.forM (checkRefinements r line elem)
  | .set elem, .set items => items.forM (checkRefinements r line elem)
  | .option inner, .option (some v) => checkRefinements r line inner v
  | .tuple tys, .tuple items => checkItems r line tys items
  | _, _ => return ()
termination_by structural ty _ => ty

/-- Each type with the value in its place, while there are both. -/
def checkItems (r : Recur γ) (line : Nat) : List Ty → List Value → Run γ Unit
  | ty :: tys, v :: vs => do
    checkRefinements r line ty v
    checkItems r line tys vs
  | _, _ => return ()
termination_by structural tys _ => tys

end

/-- The refinements of a written type hold on the value. -/
def checkAnnotation (r : Recur γ) (ty : TypeExpr) (v : Value) (line : Nat) : Run γ Unit := do
  match (← get).schemas.resolve ty with
  | .error fault => Eval.failAt (.badType fault) line
  | .ok ty => r.checkRefinements line ty v

/-- The check of an annotation that may be absent. -/
def checkOptional (r : Recur γ) (ty : Option TypeExpr) (v : Value) (line : Nat) : Run γ Unit :=
  match ty with
  | none => return ()
  | some ty => r.checkAnnotation ty v line

end Recur

end StreamLang
