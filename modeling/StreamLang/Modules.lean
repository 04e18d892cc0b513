import StreamLang.Diagnostic
import StreamLang.Keyed
import StreamLang.Program

/-!
The modules a program is made of. Starting from the entry module every import is bound to an
exported declaration, and the modules are put in an order in which each stands behind the modules
it imports. All problems are reported, each at its import.
-/

namespace StreamLang

/-- What kind of declaration a symbol is. -/
inductive SymbolKind
  | function
  | record
  | enum
  | typeAlias
  | value
deriving DecidableEq, Repr

namespace SymbolKind

def label : SymbolKind → String
  | function => "Function"
  | record => "Record"
  | enum => "Enum"
  | typeAlias => "Alias"
  | value => "Value"

def ofItem (i : Item) : SymbolKind :=
  match i.kind with
  | .function _ => function
  | .record _ => record
  | .enum _ => enum
  | .typeAlias _ => typeAlias
  | _ => value

def isType : SymbolKind → Bool
  | record | enum | typeAlias => true
  | function | value => false

end SymbolKind

/-- An import that was found: `symbol` of `module`, known here as `localName`. -/
structure ResolvedImport where
  localName : String
  module : String
  symbol : String
  kind : SymbolKind
  span : Span

structure ModuleUnit where
  name : String
  program : Program
  imports : List ResolvedImport

/-- A function that has a name, by the module that declares it. -/
structure FunctionId where
  module : String
  name : String
deriving DecidableEq, Hashable, Repr

/-- The functions a module declares. -/
def ModuleUnit.functions (u : ModuleUnit) : List FunctionDecl :=
  u.program.items.filterMap fun i =>
    match i.kind with
    | .function d => if d.name.isSome then some d else none
    | _ => none

/-- The modules that can be imported, by name. -/
abbrev Provider : Type := List (String × Program)

/-- Why an import is not bound. -/
inductive ImportFault
  | moduleNotFound (module : String)
  | symbolNotFound (module symbol : String)
  | notExported (module symbol : String)
  | cycle (module : String)
deriving DecidableEq, Repr

def ImportFault.message : ImportFault → String
  | moduleNotFound module => s!"module '{module}' not found"
  | symbolNotFound module symbol => s!"module '{module}' has no symbol '{symbol}'"
  | notExported module symbol => s!"symbol '{symbol}' is not exported by module '{module}'"
  | cycle module => s!"cyclic import of module '{module}'"

/-- A module's state in the walk: it is absent until the walk reaches it. -/
inductive Visit
  | inProgress
  | done
deriving DecidableEq, Repr

namespace Modules

/-- The walk so far: the modules met, those that are complete, and the problems. -/
structure Walk where
  visits : List (String × Visit)
  units : List ModuleUnit
  faults : List (ImportFault × Span)

namespace Walk

def start : Walk := ⟨[], [], []⟩

def visit? (w : Walk) (name : String) : Option Visit := Keyed.get? name w.visits

def mark (w : Walk) (name : String) (v : Visit) : Walk :=
  { w with visits := Keyed.insert name v w.visits }

def report (w : Walk) (fault : ImportFault) (span : Span) : Walk :=
  { w with faults := w.faults ++ [(fault, span)] }

def complete (w : Walk) (unit : ModuleUnit) : Walk :=
  { w.mark unit.name .done with units := w.units ++ [unit] }

end Walk

/-- The kind of an exported symbol. -/
def lookupExport (module : String) (program : Program) (symbol : String) :
    Except ImportFault SymbolKind :=
  match program.findExport? symbol with
  | some i => .ok (.ofItem i)
  | none =>
    if program.declares symbol then .error (.notExported module symbol)
    else .error (.symbolNotFound module symbol)

/-- Binds the names of one import; `found` holds the imports bound so far. -/
def bindNames (module : String) (target : Program) :
    List ImportName → Walk → List ResolvedImport → Walk × List ResolvedImport
  | [], w, found => (w, found)
  | n :: rest, w, found =>
    match lookupExport module target n.name with
    | .ok kind =>
      bindNames module target rest w (found ++ [⟨n.localName, module, n.name, kind, n.span⟩])
    | .error fault => bindNames module target rest (w.report fault n.span) found

/-- Binds the imports of a module, visiting with `visit` the modules not met before. -/
def bindImports (provider : Provider) (visit : String → Program → Walk → Walk) :
    List (ImportDecl × Span) → Walk → List ResolvedImport → Walk × List ResolvedImport
  | [], w, found => (w, found)
  | d :: rest, w, found =>
    let module := d.1.module
    match Keyed.get? module provider with
    | none => bindImports provider visit rest (w.report (.moduleNotFound module) d.2) found
    | some target =>
      match w.visit? module with
      | some .inProgress => bindImports provider visit rest (w.report (.cycle module) d.2) found
      | some .done =>
        let r := bindNames module target d.1.names w found
        bindImports provider visit rest r.1 r.2
      | none =>
        let r := bindNames module target d.1.names (visit module target w) found
        bindImports provider visit rest r.1 r.2

/-- Visits a module and, before it is complete, the modules it imports. Only modules of the
provider that were not met before are visited, so their number bounds the depth. -/
def visitWithin (provider : Provider) : Nat → String → Program → Walk → Walk
  | 0, _, _, w => w
  | depth + 1, name, program, w =>
    let r := bindImports provider (visitWithin provider depth) program.imports
      (w.mark name .inProgress) []
    r.1.complete ⟨name, program, r.2⟩

/-- The modules of a program, each behind those it imports and the entry module last, or all the
problems with its imports. -/
def resolve (mainName : String) (main : Program) (provider : Provider) :
    Except (List Diagnostic) (List ModuleUnit) :=
  let w := visitWithin provider (provider.length + 1) mainName main .start
  if w.faults.isEmpty then .ok w.units
  else .error (w.faults.map fun f => .ofSpan .typing f.1.message f.2)

end Modules

end StreamLang
