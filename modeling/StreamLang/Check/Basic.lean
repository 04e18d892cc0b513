import StreamLang.Check.Scope
import StreamLang.Check.Fault

/-!
The state of a check, and the judgements that do not look into expressions.
-/

namespace StreamLang.Check

/-- What the body around an expression allows. -/
structure Body where
  allowsAwait : Bool
  inGuard : Bool
deriving DecidableEq, Repr

/-- The body of a module. -/
def Body.module : Body := ⟨true, false⟩

structure State where
  schemas : SchemaTable
  scopes : Scopes
  findings : Array Diagnostic

/-- A check never stops at a problem; it reports it and goes on. -/
abbrev CheckM (α : Type) : Type := StateM State α

def report (fault : CheckFault) (span : Span) : CheckM Unit :=
  modify fun s => { s with findings := s.findings.push (.ofSpan .typing fault.message span) }

def warn (w : Warning) (span : Span) : CheckM Unit :=
  modify fun s => { s with findings := s.findings.push (.ofSpan .warning w.message span) }

def enterScope : CheckM Unit := modify fun s => { s with scopes := s.scopes.enter }

def exitScope : CheckM Unit := modify fun s => { s with scopes := s.scopes.exit }

def lookup? (name : String) : CheckM (Option Binding) := do return (← get).scopes.lookup? name

/-- Declares a name in the innermost scope; false when it is there already. -/
def declare (name : String) (b : Binding) : CheckM Bool := do
  let s ← get
  match s.scopes.declare? name b with
  | some scopes =>
    set { s with scopes }
    return true
  | none => return false

def recordSchema? (name : String) : CheckM (Option RecordSchema) := do
  return (← get).schemas.record? name

def enumSchema? (name : String) : CheckM (Option EnumSchema) := do
  return (← get).schemas.enum? name

/-- The meaning of a written type; what means nothing is reported there and stays unknown. -/
def resolveType (ty : TypeExpr) : CheckM Ty := do
  match (← get).schemas.resolve ty with
  | .ok t => return t
  | .error fault =>
    report (.writtenType fault) ty.span
    return .unknown

/-- The meaning of an optional written type, with nothing reported. -/
def resolveQuietly (ty : Option TypeExpr) : CheckM Ty := do
  let schemas := (← get).schemas
  match ty.map schemas.resolve with
  | some (.ok t) => return t
  | _ => return .unknown

/-- The constant an expression folds to where it stands. -/
def constantOf (e : Expr) : CheckM (Option Const) := do
  return Const.fold (← get).scopes.constant? e

def expectOperand (actual expected : Ty) (what : Operand) (span : Span) : CheckM Unit :=
  if expected.accepts actual then return () else report (.operand what expected actual) span

/-- Reports the refinements that a constant does not satisfy. -/
def expectRefinements (value : Const) (span : Span) : List AliasSchema → CheckM Unit
  | [] => return ()
  | a :: rest => do
    if Const.refinementHolds? a value (← get).scopes.globalConstant? == some false then
      report (.refinementFails value a.name) span
    expectRefinements value span rest

/-- A value of type `actual` is given where an `expected` is wanted. When the value is known, so
is whether it satisfies the refinements. -/
def expectType (expected actual : Ty) (e : Expr) (site : Site) : CheckM Unit := do
  if expected.accepts actual then
    match (← get).schemas.refinements expected with
    | [] => return ()
    | aliases =>
      match ← constantOf e with
      | some value => expectRefinements value e.span aliases
      | none => return ()
  else report (.mismatch site expected actual) e.span

def literalType : Literal → Ty
  | .int _ => .int
  | .float _ => .float
  | .text _ => .text
  | .bool _ => .bool
  | .void => .void

end StreamLang.Check
