import StreamLang.Expr
import StreamLang.Keyed
import StreamLang.Ty

/-!
The declared shapes of records, enums and aliases, and the meaning of a written type over them.
-/

namespace StreamLang

structure RecordSchema where
  fields : List (String × Ty)

def RecordSchema.field? (s : RecordSchema) (name : String) : Option Ty :=
  (s.fields.find? (·.1 == name)).map (·.2)

/-- Each variant with the type of its payload; several payload types make up a tuple. -/
structure EnumSchema where
  variants : List (String × Option Ty)

def EnumSchema.variant? (s : EnumSchema) (name : String) : Option (Option Ty) :=
  (s.variants.find? (·.1 == name)).map (·.2)

structure AliasSchema where
  name : String
  base : Ty
  /-- A boolean expression over `value`. -/
  predicate : Option Expr

structure SchemaTable where
  records : List (String × RecordSchema)
  enums : List (String × EnumSchema)
  aliases : List (String × AliasSchema)

/-- Why a written type means nothing. -/
inductive TypeFault
  | unknownType (name : String)
  | noArguments (name : String)
  | argumentCount (name : String) (expected found : Nat)
deriving DecidableEq, Repr

def TypeFault.message : TypeFault → String
  | unknownType name => s!"unknown type '{name}'"
  | noArguments name => s!"type '{name}' takes no type arguments"
  | argumentCount name expected found =>
    s!"type '{name}' expects {expected} type argument(s), found {found}"

namespace SchemaTable

def empty : SchemaTable := ⟨[], [], []⟩

def record? (t : SchemaTable) (name : String) : Option RecordSchema := Keyed.get? name t.records

def enum? (t : SchemaTable) (name : String) : Option EnumSchema := Keyed.get? name t.enums

def typeAlias? (t : SchemaTable) (name : String) : Option AliasSchema := Keyed.get? name t.aliases

def isTypeName (t : SchemaTable) (name : String) : Bool :=
  Keyed.contains name t.records || Keyed.contains name t.enums || Keyed.contains name t.aliases

/-- How many arguments a type of this name takes. -/
def argumentCount (name : String) : Nat :=
  match name with
  | "List" | "Set" | "Option" | "Stream" | "Future" => 1
  | "Map" | "Result" => 2
  | _ => 0

/-- A declared name. A plain alias stands for its base, one with a predicate for a refinement. -/
def resolveDeclared (t : SchemaTable) (name : String) : Except TypeFault Ty :=
  if Keyed.contains name t.records then .ok (.record name)
  else if Keyed.contains name t.enums then .ok (.enum name)
  else match t.typeAlias? name with
    | some a => if a.predicate.isSome then .ok (.refined name a.base) else .ok a.base
    | none => .error (.unknownType name)

/-- A name applied to types. The built-in names come before the declared ones. -/
def resolveNamed (t : SchemaTable) (name : String) (args : List Ty) : Except TypeFault Ty :=
  if args.length ≠ argumentCount name then
    if argumentCount name = 0 then .error (.noArguments name)
    else .error (.argumentCount name (argumentCount name) args.length)
  else match name, args with
    | "Int", _ => .ok .int
    | "Float", _ => .ok .float
    | "Number", _ => .ok .float
    | "String", _ => .ok .text
    | "Bool", _ => .ok .bool
    | "Void", _ => .ok .void
    | "Any", _ => .ok .unknown
    | "Model", _ => .ok .model
    | "Prediction", _ => .ok .prediction
    | "List", [a] => .ok (.list a)
    | "Set", [a] => .ok (.set a)
    | "Option", [a] => .ok (.option a)
    | "Stream", [a] => .ok (.stream a)
    | "Future", [a] => .ok (.future a)
    | "Map", [k, v] => .ok (.map k v)
    | "Result", [a, e] => .ok (.result a e)
    | _, _ => t.resolveDeclared name

mutual

/-- The meaning of a written type. -/
def resolve (t : SchemaTable) : TypeExpr → Except TypeFault Ty
  | .tuple _ items => do return .tuple (← resolveAll t items)
  | .function _ params ret => do
    let ps ← resolveAll t params
    let r ← resolve t ret
    return .function ps r
  | .named _ name args => do t.resolveNamed name (← resolveAll t args)

def resolveAll (t : SchemaTable) : List TypeExpr → Except TypeFault (List Ty)
  | [] => .ok []
  | e :: rest => do
    let first ← resolve t e
    let more ← resolveAll t rest
    return first :: more

end

/-- The aliases whose predicates a value of the type must satisfy, outermost first. -/
def refinements (t : SchemaTable) : Ty → List AliasSchema
  | .refined name base => (t.typeAlias? name).toList ++ refinements t base
  | _ => []

end SchemaTable

end StreamLang
