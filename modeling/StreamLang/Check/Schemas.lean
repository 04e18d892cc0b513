import StreamLang.Check.Fault
import StreamLang.Modules

/-!
The table of the types a program declares. All names are registered first; then aliases are
resolved, so that fields can name refinements, and after them records and enums.
-/

namespace StreamLang.Check

/-- The table so far and the problems found. -/
structure Collection where
  table : SchemaTable
  faults : List (CheckFault × Span)

namespace Collection

def report (c : Collection) (fault : CheckFault) (span : Span) : Collection :=
  { c with faults := c.faults ++ [(fault, span)] }

/-- Registers the name of a declared type, with nothing known behind it yet. -/
def register (c : Collection) (i : Item) : Collection :=
  let add (name : String) (table : SchemaTable) : Collection :=
    if c.table.isTypeName name then c.report (.typeDeclaredTwice name) i.span
    else { c with table }
  match i.kind with
  | .record d => add d.name { c.table with records := Keyed.insert d.name ⟨[]⟩ c.table.records }
  | .enum d => add d.name { c.table with enums := Keyed.insert d.name ⟨[]⟩ c.table.enums }
  | .typeAlias d =>
    let schema : AliasSchema := ⟨d.name, .unknown, d.predicate⟩
    add d.name { c.table with aliases := Keyed.insert d.name schema c.table.aliases }
  | _ => c

/-- The meaning of a written type; a problem is reported where the type is written. -/
def resolveType (c : Collection) (ty : TypeExpr) : Collection × Ty :=
  match c.table.resolve ty with
  | .ok t => (c, t)
  | .error fault => (c.report (.writtenType fault) ty.span, .unknown)

def setAlias (c : Collection) (name : String) (base : Ty) : Collection :=
  match c.table.typeAlias? name with
  | some a =>
    let aliases := Keyed.insert name { a with base } c.table.aliases
    { c with table := { c.table with aliases } }
  | none => c

/-- Resolves an alias as far as the table knows; what it does not know stays unknown. -/
def resolveAliasSilently (c : Collection) (d : AliasDecl) : Collection :=
  match c.table.resolve d.ty with
  | .ok t => c.setAlias d.name t
  | .error _ => c.setAlias d.name .unknown

def resolveAlias (c : Collection) (d : AliasDecl) : Collection :=
  let r := c.resolveType d.ty
  r.1.setAlias d.name r.2

/-- Resolves the fields of a record; `done` holds those already resolved and `seen` all names. -/
def resolveFields (record : String) :
    List FieldDecl → List String → List (String × Ty) → Collection → Collection × List (String × Ty)
  | [], _, done, c => (c, done)
  | f :: rest, seen, done, c =>
    if seen.contains f.name then
      resolveFields record rest seen done (c.report (.fieldDeclaredTwice f.name record) f.span)
    else
      let r := c.resolveType f.ty
      resolveFields record rest (f.name :: seen) (done ++ [(f.name, r.2)]) r.1

def resolveRecord (c : Collection) (d : RecordDecl) : Collection :=
  let r := resolveFields d.name d.fields [] [] c
  if Keyed.contains d.name r.1.table.records then
    let records := Keyed.insert d.name ⟨r.2⟩ r.1.table.records
    { r.1 with table := { r.1.table with records } }
  else r.1

def resolveTypes : List TypeExpr → Collection → Collection × List Ty
  | [], c => (c, [])
  | t :: rest, c =>
    let first := c.resolveType t
    let more := resolveTypes rest first.1
    (more.1, first.2 :: more.2)

def payloadType? : List Ty → Option Ty
  | [] => none
  | [t] => some t
  | ts => some (.tuple ts)

def resolveVariants (enum : String) :
    List VariantDecl → List String → List (String × Option Ty) → Collection →
      Collection × List (String × Option Ty)
  | [], _, done, c => (c, done)
  | v :: rest, seen, done, c =>
    if seen.contains v.name then
      resolveVariants enum rest seen done (c.report (.variantDeclaredTwice v.name enum) v.span)
    else
      let r := resolveTypes v.payload c
      resolveVariants enum rest (v.name :: seen) (done ++ [(v.name, payloadType? r.2)]) r.1

def resolveEnum (c : Collection) (d : EnumDecl) : Collection :=
  let r := resolveVariants d.name d.variants [] [] c
  if Keyed.contains d.name r.1.table.enums then
    let enums := Keyed.insert d.name ⟨r.2⟩ r.1.table.enums
    { r.1 with table := { r.1.table with enums } }
  else r.1

end Collection

def recordDecl? (i : Item) : Option RecordDecl :=
  match i.kind with
  | .record d => some d
  | _ => none

def enumDecl? (i : Item) : Option EnumDecl :=
  match i.kind with
  | .enum d => some d
  | _ => none

def aliasDecl? (i : Item) : Option AliasDecl :=
  match i.kind with
  | .typeAlias d => some d
  | _ => none

/-- Two silent rounds let an alias refer to one that is declared behind it. -/
def collectSchemas (units : List ModuleUnit) : Collection :=
  let items := units.flatMap (·.program.items)
  let aliases := items.filterMap aliasDecl?
  let registered := items.foldl Collection.register ⟨.empty, []⟩
  let once := aliases.foldl Collection.resolveAliasSilently registered
  let twice := aliases.foldl Collection.resolveAliasSilently once
  let withAliases := aliases.foldl Collection.resolveAlias twice
  let withRecords := (items.filterMap recordDecl?).foldl Collection.resolveRecord withAliases
  (items.filterMap enumDecl?).foldl Collection.resolveEnum withRecords

end StreamLang.Check
