import StreamLang.Expr

/-!
The declarations of a module.
-/

namespace StreamLang

structure FieldDecl where
  name : String
  ty : TypeExpr
  span : Span

structure RecordDecl where
  name : String
  fields : List FieldDecl

structure VariantDecl where
  name : String
  payload : List TypeExpr
  span : Span

structure EnumDecl where
  name : String
  variants : List VariantDecl

/-- A name for a type. A predicate speaks of the candidate as `value`. -/
structure AliasDecl where
  name : String
  ty : TypeExpr
  predicate : Option Expr

structure ImportName where
  name : String
  newName : Option String
  span : Span

/-- The name under which the importing module knows the symbol. -/
def ImportName.localName (n : ImportName) : String := n.newName.getD n.name

structure ImportDecl where
  names : List ImportName
  module : String

structure LetDecl where
  span : Span
  pattern : Pattern
  ty : Option TypeExpr
  value : Expr

inductive ItemKind
  | imports (decl : ImportDecl)
  | function (decl : FunctionDecl)
  | record (decl : RecordDecl)
  | enum (decl : EnumDecl)
  | typeAlias (decl : AliasDecl)
  | binding (decl : LetDecl)
  | expr (e : Expr)

structure Item where
  kind : ItemKind
  exported : Bool
  span : Span

namespace Item

def isImport (i : Item) : Bool :=
  match i.kind with
  | .imports _ => true
  | _ => false

/-- The names an item declares at the top of its module. -/
def declaredNames (i : Item) : List String :=
  match i.kind with
  | .imports d => d.names.map ImportName.localName
  | .function d => d.name.toList
  | .record d => [d.name]
  | .enum d => [d.name]
  | .typeAlias d => [d.name]
  | .binding d => d.pattern.names
  | .expr _ => []

end Item

structure Program where
  items : List Item

namespace Program

def imports (p : Program) : List (ImportDecl × Span) :=
  p.items.filterMap fun i =>
    match i.kind with
    | .imports d => some (d, i.span)
    | _ => none

/-- The exported item that declares a name. -/
def findExport? (p : Program) (name : String) : Option Item :=
  p.items.find? fun i => i.exported && i.declaredNames.contains name

/-- The program itself declares the name; an import does not count. -/
def declares (p : Program) (name : String) : Bool :=
  p.items.any fun i => !i.isImport && i.declaredNames.contains name

end Program

end StreamLang
