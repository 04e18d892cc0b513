import StreamLang.Check.Expr
import StreamLang.Check.Purity
import StreamLang.Check.Schemas

/-!
The check of a whole program, module by module. A program with an error is never run.
-/

namespace StreamLang

/-- A program without errors: its types, its pure functions, and what it is warned of. -/
structure Checked where
  schemas : SchemaTable
  pure : List FunctionId
  warnings : List Diagnostic

namespace Check

/-- What a module offers under a name to those that import it. -/
structure Export where
  binding : Binding
  symbol : GlobalSymbol

abbrev Exports : Type := List (String × List (String × Export))

def findExport? (exports : Exports) (module symbol : String) : Option Export :=
  (Keyed.get? module exports).bind (Keyed.get? symbol)

/-- Declares the functions and values a module imports. -/
def declareImports (exports : Exports) : List ResolvedImport → Globals → CheckM Globals
  | [], globals => return globals
  | i :: rest, globals => do
    if i.kind.isType then declareImports exports rest globals
    else
      let e := (findExport? exports i.module i.symbol).getD ⟨.ofTy .unknown, .value .unknown⟩
      if !(← declare i.localName e.binding) then report (.declaredTwice i.localName) i.span
      declareImports exports rest (Keyed.insert i.localName e.symbol globals)

def resolveAllQuietly : List Param → CheckM (List Ty)
  | [] => return []
  | p :: rest => do
    let ty ← resolveQuietly p.ty
    let tys ← resolveAllQuietly rest
    return ty :: tys

/-- The type of a function before its body is known. -/
def signature (d : FunctionDecl) : CheckM Ty := do
  let params ← resolveAllQuietly d.params
  let ret ← resolveQuietly d.ret
  return functionType params ret d.isAsync

/-- Declares the functions of a module, so that they can refer to each other. -/
def declareFunctions (module : String) : List FunctionDecl → Globals → CheckM Globals
  | [], globals => return globals
  | d :: rest, globals => do
    let ty ← signature d
    if !(← declare d.displayName (.ofTy ty)) then report (.declaredTwice d.displayName) d.span
    let symbol : GlobalSymbol := .function ⟨module, d.displayName⟩ d.isAsync
    declareFunctions module rest (Keyed.insert d.displayName symbol globals)

/-- The predicates of the aliases a module declares are boolean expressions over `value`. -/
def checkPredicates : List Item → CheckM Unit
  | [] => return ()
  | i :: rest => do
    match (aliasDecl? i).bind fun d => d.predicate.map fun p => (d.name, p) with
    | none => pure ()
    | some (name, predicate) =>
      let base := (((← get).schemas.typeAlias? name).map AliasSchema.base).getD .unknown
      enterScope
      let _ ← declare "value" (.ofTy base)
      let ty ← infer ⟨false, false⟩ predicate
      exitScope
      if !Ty.bool.accepts ty then report (.predicateType name ty) predicate.span
    checkPredicates rest

/-- Checks the bodies of the functions; their types become exact. -/
def checkFunctions : List FunctionDecl → CheckM Unit
  | [] => return ()
  | d :: rest => do
    let ty ← inferFunction d
    modify fun s => { s with scopes := s.scopes.refineGlobal d.displayName (.ofTy ty) }
    checkFunctions rest

/-- What the names bound by a `let` refer to. -/
def bindGlobals (scopes : Scopes) (names : List String) (globals : Globals) : Globals :=
  names.foldl (fun g n =>
    Keyed.insert n (.value (((scopes.lookup? n).map Binding.ty).getD .unknown)) g) globals

/-- Checks the values and expressions of a module in the order of the text. -/
def checkValues : List Item → Globals → CheckM Globals
  | [], globals => return globals
  | i :: rest, globals => do
    match i.kind with
    | .binding d =>
      let ty ← infer .module d.value
      declareLet d.pattern d.ty d.value ty
      checkValues rest (bindGlobals (← get).scopes d.pattern.names globals)
    | .expr e =>
      let _ ← infer .module e
      checkValues rest globals
    | _ => checkValues rest globals

/-- What a module exports: the names of its exported items that stand for a value. -/
def exportsOf (scopes : Scopes) (globals : Globals) (p : Program) : List (String × Export) :=
  let names := (p.items.filter Item.exported).flatMap Item.declaredNames
  Keyed.ofList (names.filterMap fun n =>
    match scopes.lookup? n, Keyed.get? n globals with
    | some binding, some symbol => some (n, ⟨binding, symbol⟩)
    | _, _ => none)

/-- Checks one module; gives what its names refer to and what it exports. -/
def checkUnit (exports : Exports) (u : ModuleUnit) : CheckM (Globals × List (String × Export)) := do
  modify fun s => { s with scopes := .empty }
  let imported ← declareImports exports u.imports []
  let withFunctions ← declareFunctions u.name u.functions imported
  checkPredicates u.program.items
  checkFunctions u.functions
  let globals ← checkValues u.program.items withFunctions
  return (globals, exportsOf (← get).scopes globals u.program)

/-- Checks modules in order; `summaries` holds what the functions of those before do. -/
def checkUnits : List ModuleUnit → Exports → List (FunctionId × Purity.Summary) →
    CheckM (List (FunctionId × Purity.Summary))
  | [], _, summaries => return summaries
  | u :: rest, exports, summaries => do
    let r ← checkUnit exports u
    checkUnits rest (Keyed.insert u.name r.2 exports) (summaries ++ Purity.unitSummaries r.1 u)

/-- Checks a program, or gives everything that is wrong with it. When the declared types
themselves are wrong, nothing else is looked at. -/
def program (units : List ModuleUnit) : Except (List Diagnostic) Checked :=
  let c := collectSchemas units
  if c.faults.isEmpty then
    let r := (checkUnits units [] []).run ⟨c.table, .empty, #[]⟩
    let findings := r.2.findings.toList
    if Diagnostic.hasErrors findings then .error (Diagnostic.errors findings)
    else .ok ⟨c.table, Purity.pureFunctions r.1, Diagnostic.warnings findings⟩
  else .error (c.faults.map fun f => .ofSpan .typing f.1.message f.2)

end Check

/-- The modules a program needs, checked. -/
structure Accepted where
  units : List ModuleUnit
  checked : Checked

/-- Binds the imports of a program and checks it. -/
def accept (mainName : String) (main : Program) (provider : Provider) : Except Failure Accepted :=
  match Modules.resolve mainName main provider with
  | .error ds => .error (.typing ds)
  | .ok units =>
    match Check.program units with
    | .error ds => .error (.typing ds)
    | .ok checked => .ok ⟨units, checked⟩

end StreamLang
