import StreamLang.Schema
import StreamLang.Value.Text

/-!
What can go wrong while a program runs, and how it is worded.
-/

namespace StreamLang

/-- A place where a truth value is wanted. -/
inductive Condition
  | branch
  | operand
  | guard
deriving DecidableEq, Repr

def Condition.phrase : Condition → String
  | branch => "if condition"
  | operand => "logical operand"
  | guard => "match guard"

/-- What a builtin wants of an argument. -/
inductive Wanted
  | sequence
  | int
  | text
  | list
  | map
  | future
  | number
  | option
  | result
  | optionOrResult
  | collection
deriving DecidableEq, Repr

def Wanted.phrase : Wanted → String
  | sequence => "a List, Set or Stream"
  | int => "an Int"
  | text => "a String"
  | list => "a List"
  | map => "a Map"
  | future => "a Future"
  | number => "a number"
  | option => "an Option"
  | result => "a Result"
  | optionOrResult => "an Option or Result"
  | collection => "a collection or String"

/-- What an index counts in. -/
inductive Indexed
  | list
  | tuple
  | text
deriving DecidableEq, Repr

def Indexed.phrase : Indexed → String
  | list => "List"
  | tuple => "Tuple"
  | text => "string"

inductive Fault
  | undefinedVariable (name : String)
  | patternMismatch (v : Value)
  | noArm (v : Value)
  | notBool (what : Condition) (found : Kind)
  | notAttemptable (found : Kind)
  | unhandled (v : Value)
  -- operators
  | overflow
  | divisionByZero
  | badOperand (op : UnaryOp) (found : Kind)
  | badOperands (op : BinaryOp) (left right : Kind)
  -- records, enums and access
  | unknownRecord (name : String)
  | missingField (record field : String)
  | noField (record field : String)
  | noVariant (enum variant : String)
  | notUpdatable (found : Kind)
  | keyNotFound (key : String)
  | noElement (length : Nat) (field : String)
  | notSelectable (found : Kind) (field : String)
  | outOfBounds (index : Int64) (target : Indexed) (length : Nat)
  | notIndexable (found index : Kind)
  -- calls
  | notCallable (found : Kind)
  | builtinArity (b : Builtin) (found : Nat)
  | functionArity (name : String) (arity found : Nat)
  | depthExceeded (limit : Nat)
  | refinementViolated (v : Value) (name : String)
  | badType (fault : TypeFault)
  | notFromParts
  | cannotSuspend
  | malformedFrame
  -- builtins
  | badArgument (b : Builtin) (wanted : Wanted) (found : Kind)
  | negativeCount (b : Builtin) (count : Int64)
  | notWhole (b : Builtin) (x : Binary64)
  | notInt (text : String)
  | notFloat (text : String)
  | negativeRoot
  | unwrapNone
  | unwrapErr (error : Value)
  | unavailable (b : Builtin)
  | notSequenceOp (op : SequenceOp)
  | zeroStep
  | chunkSize
  | predicateResult (found : Kind)
  | flatMapResult (found : Kind)
  | unboundedStream (terminal : String)
  -- futures, services and the scheduler
  | failedFuture (message : String)
  | unknownFuture
  | notAwaitable (found : Kind)
  | pendingAwait
  | gatewayFailure (message : String)
  | stepLimit (limit : Nat)
  | neverResolves

def Fault.message : Fault → String
  | undefinedVariable name => s!"undefined variable '{name}'"
  | patternMismatch v => "value " ++ v.repr ++ " does not match the pattern"
  | noArm v => "no match arm accepts " ++ v.repr
  | notBool what found => s!"{what.phrase} must be Bool, found {found.name}"
  | notAttemptable found => "`?` expects a Result or Option, found " ++ found.name
  | unhandled v => "unhandled " ++ v.repr ++ " at top level"
  | overflow => "integer overflow"
  | divisionByZero => "division by zero"
  | badOperand op found => s!"unsupported operand for '{op.text}': {found.name}"
  | badOperands op left right =>
    s!"unsupported operands for '{op.text}': {left.name} and {right.name}"
  | unknownRecord name => s!"unknown record '{name}'"
  | missingField record field => s!"missing field '{field}' in record '{record}'"
  | noField record field => s!"record '{record}' has no field '{field}'"
  | noVariant enum variant => s!"enum '{enum}' has no variant '{variant}'"
  | notUpdatable found => "`with` expects a record, found " ++ found.name
  | keyNotFound key => s!"key '{key}' not found"
  | noElement length field => s!"tuple of length {length} has no element '{field}'"
  | notSelectable found field => s!"value of type {found.name} has no field '{field}'"
  | outOfBounds index target length =>
    s!"index {index.toInt} out of bounds for {target.phrase} of length {length}"
  | notIndexable found index => s!"cannot index {found.name} with {index.name}"
  | notCallable found => s!"value of type {found.name} is not callable"
  | builtinArity b found => s!"'{b.name}' expects {b.arity.text} argument(s), found {found}"
  | functionArity name arity found =>
    s!"function '{name}' expects {arity} argument(s), found {found}"
  | depthExceeded limit => s!"maximum call depth of {limit} exceeded"
  | refinementViolated v name => "value " ++ v.repr ++ s!" does not satisfy refinement '{name}'"
  | badType fault => fault.message
  | notFromParts => "expression cannot be evaluated from its parts"
  | cannotSuspend => "expression cannot suspend"
  | malformedFrame => "malformed task frame"
  | badArgument b wanted found => s!"'{b.name}' expects {wanted.phrase}, found {found.name}"
  | negativeCount b count => s!"'{b.name}' expects a non-negative count, found {count.toInt}"
  | notWhole b x =>
    s!"'{b.name}' cannot convert " ++ Decimal.Layout.plain.write x ++ " to Int"
  | notInt text => "cannot convert '" ++ text ++ "' to Int"
  | notFloat text => "cannot convert '" ++ text ++ "' to Float"
  | negativeRoot => "'sqrt' of a negative number"
  | unwrapNone => "unwrap called on None"
  | unwrapErr error => "unwrap called on Err(" ++ error.repr ++ ")"
  | unavailable b => s!"builtin '{b.name}' is not available"
  | notSequenceOp op => s!"'{op.name}' is not a sequence operation"
  | zeroStep => "'stream_range' step must not be zero"
  | chunkSize => "'chunk' size must be positive"
  | predicateResult found => s!"filter predicate must return Bool, found {found.name}"
  | flatMapResult found => s!"flat_map callback must return a List or Stream, found {found.name}"
  | unboundedStream terminal =>
    "unbounded stream reaches `" ++ terminal ++ "` without a bounding `take`"
  | failedFuture message => message
  | unknownFuture => "unknown future"
  | notAwaitable found => s!"await expects a Future, found {found.name}"
  | pendingAwait => "await on a pending future outside an async task"
  | gatewayFailure message => "service gateway failure: " ++ message
  | stepLimit limit => s!"scheduler step limit of {limit} exceeded"
  | neverResolves => "future can never resolve"

end StreamLang
