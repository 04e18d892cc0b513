import StreamLang.Builtin
import StreamLang.Const
import StreamLang.Diagnostic

/-!
What can be wrong with a program before it runs, and the words in which it is reported.
-/

namespace StreamLang

/-- Where a value of a certain type is wanted. -/
inductive Site
  | field (name : String)
  | payload (enum variant : String)
  | argument (number : Nat)
  | returnValue
  | letBinding
deriving DecidableEq, Repr

def Site.text : Site → String
  | field name => s!"field '{name}'"
  | payload enum variant => s!"payload of '{enum}::{variant}'"
  | argument number => s!"argument {number}"
  | returnValue => "return value"
  | letBinding => "let binding"

/-- An operand that must be of one certain type. -/
inductive Operand
  | listIndex
  | textIndex
  | mapKey
  | binary (op : BinaryOp)
  | unary (op : UnaryOp)
  | condition
  | guard
deriving DecidableEq, Repr

def Operand.text : Operand → String
  | listIndex => "list index"
  | textIndex => "string index"
  | mapKey => "map key"
  | binary op => s!"operator `{op.text}`"
  | unary op => s!"operator `{op.text}`"
  | condition => "if condition"
  | guard => "match guard"

/-- A form of pattern that only values of one form of type can match. -/
inductive PatternForm
  | some
  | none
  | ok
  | err
  /-- A resolved, failed or pending future. -/
  | future
  | tuple
  | list
  | map
deriving DecidableEq, Repr

def PatternForm.text : PatternForm → String
  | some => "`Some`"
  | none => "`None`"
  | ok => "`Ok`"
  | err => "`Err`"
  | future => "future"
  | tuple => "tuple"
  | list => "list"
  | map => "map"

inductive CheckFault
  -- declarations
  | typeDeclaredTwice (name : String)
  | fieldDeclaredTwice (field record : String)
  | variantDeclaredTwice (variant enum : String)
  | writtenType (fault : TypeFault)
  | declaredTwice (name : String)
  | definedTwice (name : String)
  | parameterTwice (name : String)
  | predicateType (name : String) (found : Ty)
  -- values
  | mismatch (site : Site) (expected found : Ty)
  | refinementFails (value : Const) (name : String)
  | operand (what : Operand) (expected found : Ty)
  | tupleIndex (i : Int64) (found : Ty)
  | notIndexable (found : Ty)
  | negation (found : Ty)
  | comparison (lhs rhs : Ty)
  | addition (lhs rhs : Ty)
  | arithmetic (op : BinaryOp) (found : Ty)
  | notCallable (found : Ty)
  | argumentCount (expected found : Nat)
  | builtinArguments (b : Builtin) (found : Nat)
  | notSequence (b : Builtin) (found : Ty)
  -- records and enums
  | unknownRecord (name : String)
  | noField (record field : String)
  | fieldGivenTwice (field : String)
  | missingField (field record : String)
  | unknownEnum (name : String)
  | noVariant (enum variant : String)
  | noPayload (enum variant : String)
  | payloadCount (enum variant : String) (expected found : Nat)
  | updateOf (found : Ty)
  | noElement (tuple : Ty) (field : String)
  | noFields (found : Ty) (field : String)
  -- control
  | awaitInGuard
  | awaitOutsideAsync
  | awaitOf (found : Ty)
  | attemptOf (found : Ty)
  | noWildcardArm
  -- patterns
  | literalPattern (literal found : Ty)
  | formPattern (form : PatternForm) (found : Ty)
  | recordPattern (name : String) (found : Ty)
  | variantPattern (enum variant : String) (found : Ty)
  | payloadPattern (enum variant : String)
  | tuplePatternSize (expected found : Nat)
  | boundTwice (name : String)

def CheckFault.message : CheckFault → String
  | typeDeclaredTwice name => s!"type '{name}' is already declared"
  | fieldDeclaredTwice field record => s!"duplicate field '{field}' in record '{record}'"
  | variantDeclaredTwice variant enum => s!"duplicate variant '{variant}' in enum '{enum}'"
  | writtenType fault => fault.message
  | declaredTwice name => s!"'{name}' is already declared"
  | definedTwice name => s!"'{name}' is already defined in this scope"
  | parameterTwice name => s!"duplicate parameter '{name}'"
  | predicateType name found =>
    s!"refinement predicate of '{name}' must be Bool, found {found.render}"
  | mismatch site expected found =>
    s!"{site.text}: expected {expected.render}, found {found.render}"
  | refinementFails value name => s!"value {value.render} does not satisfy refinement '{name}'"
  | operand what expected found => s!"{what.text} expects {expected.render}, found {found.render}"
  | tupleIndex i found => s!"tuple index {i.toInt} out of range for {found.render}"
  | notIndexable found => s!"type {found.render} cannot be indexed"
  | negation found => s!"operator `-` expects a number, found {found.render}"
  | comparison lhs rhs => s!"cannot compare {lhs.render} with {rhs.render}"
  | addition lhs rhs => s!"operator `+` cannot be applied to {lhs.render} and {rhs.render}"
  | arithmetic op found =>
    s!"arithmetic operator `{op.text}` expects numbers, found {found.render}"
  | notCallable found => s!"value of type {found.render} is not callable"
  | argumentCount expected found => s!"function expects {expected} argument(s), found {found}"
  | builtinArguments b found => s!"'{b.name}' expects {b.arity.text} argument(s), found {found}"
  | notSequence b found => s!"'{b.name}' expects a List or Stream, found {found.render}"
  | unknownRecord name => s!"unknown record '{name}'"
  | noField record field => s!"record '{record}' has no field '{field}'"
  | fieldGivenTwice field => s!"field '{field}' is given more than once"
  | missingField field record => s!"missing field '{field}' in record '{record}'"
  | unknownEnum name => s!"unknown enum '{name}'"
  | noVariant enum variant => s!"enum '{enum}' has no variant '{variant}'"
  | noPayload enum variant => s!"variant '{enum}::{variant}' takes no payload"
  | payloadCount enum variant expected found =>
    s!"variant '{enum}::{variant}' expects {expected} payload value(s), found {found}"
  | updateOf found => s!"`with` expects a record, found {found.render}"
  | noElement tuple field => s!"tuple {tuple.render} has no element '{field}'"
  | noFields found field => s!"type {found.render} has no field '{field}'"
  | awaitInGuard => "await is not allowed in a match guard"
  | awaitOutsideAsync => "await is only allowed inside async functions and blocks"
  | awaitOf found => s!"await expects a Future, found {found.render}"
  | attemptOf found => s!"`?` expects a Result or Option, found {found.render}"
  | noWildcardArm => "match must end with a wildcard arm `_ =>`"
  | literalPattern literal found =>
    s!"pattern of type {literal.render} cannot match a value of type {found.render}"
  | formPattern form found => s!"{form.text} pattern cannot match a value of type {found.render}"
  | recordPattern name found =>
    s!"record pattern '{name}' cannot match a value of type {found.render}"
  | variantPattern enum variant found =>
    s!"variant pattern '{enum}::{variant}' cannot match a value of type {found.render}"
  | payloadPattern enum variant => s!"variant '{enum}::{variant}' carries no payload"
  | tuplePatternSize expected found =>
    s!"tuple pattern has {expected} element(s) but the value has {found}"
  | boundTwice name => s!"'{name}' is bound more than once in this pattern"

/-- What a program is warned of. -/
inductive Warning
  | unboundedStream (terminal : Builtin)
deriving DecidableEq, Repr

def Warning.message : Warning → String
  | unboundedStream terminal =>
    s!"unbounded stream from generate_infinite reaches `{terminal.name}` without `take`"

end StreamLang
