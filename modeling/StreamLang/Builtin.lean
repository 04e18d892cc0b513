import StreamLang.Gateway

/-!
The builtin functions: their names, how many arguments they take, and what they do besides
computing a value.
-/

namespace StreamLang

/-- How many arguments a function takes. -/
structure Arity where
  min : Nat
  /-- Without a bound any larger number will do. -/
  max : Option Nat
deriving DecidableEq, Repr

namespace Arity

def exactly (n : Nat) : Arity := ⟨n, some n⟩

def between (min max : Nat) : Arity := ⟨min, some max⟩

def atLeast (n : Nat) : Arity := ⟨n, none⟩

def accepts (a : Arity) (count : Nat) : Bool :=
  a.min ≤ count && (a.max.map (fun m => decide (count ≤ m))).getD true

/-- Called with too few arguments the function waits for the others. -/
def curries (a : Arity) : Bool := a.max == some a.min && 1 < a.min

def text (a : Arity) : String :=
  match a.max with
  | none => s!"at least {a.min}"
  | some max => if max = a.min then toString max else s!"{a.min} to {max}"

end Arity

/-- What a call does besides computing a value. -/
inductive Effect
  | pure
  /-- Writes to the log. -/
  | log
  /-- Makes futures or looks at them. -/
  | async
  /-- Calls a service through the gateway. -/
  | gateway
deriving DecidableEq, Repr

def Effect.label : Effect → String
  | pure => "Pure"
  | log => "Log"
  | async => "Async"
  | gateway => "Gateway"

/-- Builtins on a list, a set or a stream. -/
inductive SequenceOp
  | map | filter | flatMap | take | skip | reduce | collect | chunk | count | first | forEach | sum
deriving DecidableEq, Repr

namespace SequenceOp

def all : List SequenceOp :=
  [map, filter, flatMap, take, skip, reduce, collect, chunk, count, first, forEach, sum]

def name : SequenceOp → String
  | map => "map" | filter => "filter" | flatMap => "flat_map" | take => "take" | skip => "skip"
  | reduce => "reduce" | collect => "collect" | chunk => "chunk" | count => "count"
  | first => "first" | forEach => "for_each" | sum => "sum"

def arity : SequenceOp → Nat
  | map | filter | flatMap | take | skip | chunk | forEach => 2
  | reduce => 3
  | collect | count | first | sum => 1

end SequenceOp

/-- Builtins that make a stream. -/
inductive SourceOp
  | ofList | range | generate | infinite | empty
deriving DecidableEq, Repr

namespace SourceOp

def all : List SourceOp := [ofList, range, generate, infinite, empty]

def name : SourceOp → String
  | ofList => "stream_of" | range => "stream_range" | generate => "stream_generate"
  | infinite => "generate_infinite" | empty => "stream_empty"

def arity : SourceOp → Arity
  | ofList | infinite => .exactly 1
  | range => .between 2 3
  | generate => .exactly 2
  | empty => .exactly 0

end SourceOp

/-- Builtins on lists, maps and sets. -/
inductive CollectionOp
  | len | append | concat | head | tail | nth | reverse | range | contains
  | merge | get | put | remove | keys | values | hasKey
  | set | insert | union
deriving DecidableEq, Repr

namespace CollectionOp

def all : List CollectionOp :=
  [len, append, concat, head, tail, nth, reverse, range, contains, merge, get, put, remove, keys,
    values, hasKey, set, insert, union]

def name : CollectionOp → String
  | len => "len" | append => "append" | concat => "concat" | head => "head" | tail => "tail"
  | nth => "nth" | reverse => "reverse" | range => "range" | contains => "contains"
  | merge => "merge" | get => "get" | put => "put" | remove => "remove" | keys => "keys"
  | values => "values" | hasKey => "has_key" | set => "set" | insert => "insert"
  | union => "union"

def arity : CollectionOp → Nat
  | len | head | tail | reverse | keys | values | set => 1
  | append | concat | nth | range | contains | merge | get | remove | hasKey | insert | union => 2
  | put => 3

end CollectionOp

/-- Builtins on options and results. Those that wrap a value have a second name, with a capital. -/
inductive WrapperOp
  | some | capitalSome | none | ok | capitalOk | err | capitalErr
  | unwrap | unwrapOr | isSome | isNone | isOk | isErr
deriving DecidableEq, Repr

namespace WrapperOp

def all : List WrapperOp :=
  [some, capitalSome, none, ok, capitalOk, err, capitalErr, unwrap, unwrapOr, isSome, isNone, isOk,
    isErr]

def name : WrapperOp → String
  | some => "some" | capitalSome => "Some" | none => "none" | ok => "ok" | capitalOk => "Ok"
  | err => "err" | capitalErr => "Err" | unwrap => "unwrap" | unwrapOr => "unwrap_or"
  | isSome => "is_some" | isNone => "is_none" | isOk => "is_ok" | isErr => "is_err"

def arity : WrapperOp → Nat
  | none => 0
  | unwrapOr => 2
  | _ => 1

end WrapperOp

/-- Builtins on texts and numbers. -/
inductive ScalarOp
  | toString | upper | lower | split | join | abs | min | max | sqrt | floor | toFloat | toInt
deriving DecidableEq, Repr

namespace ScalarOp

def all : List ScalarOp :=
  [toString, upper, lower, split, join, abs, min, max, sqrt, floor, toFloat, toInt]

def name : ScalarOp → String
  | toString => "to_string" | upper => "upper" | lower => "lower" | split => "split"
  | join => "join" | abs => "abs" | min => "min" | max => "max" | sqrt => "sqrt"
  | floor => "floor" | toFloat => "to_float" | toInt => "to_int"

def arity : ScalarOp → Nat
  | split | join | min | max => 2
  | _ => 1

end ScalarOp

/-- Builtins that make futures or look at them. -/
inductive FutureOp
  | onError | onComplete | andThen | all | resolved | failed | state
deriving DecidableEq, Repr

namespace FutureOp

def every : List FutureOp := [onError, onComplete, andThen, all, resolved, failed, state]

def name : FutureOp → String
  | onError => "on_error" | onComplete => "on_complete_future" | andThen => "then" | all => "all"
  | resolved => "resolved" | failed => "failed" | state => "future_state"

def arity : FutureOp → Nat
  | onError | onComplete | andThen => 2
  | all | resolved | failed | state => 1

end FutureOp

/-- How many arguments a service takes. -/
def ServiceOp.arity : ServiceOp → Arity
  | readFile | queryKnowledgeGraph => .exactly 1
  | writeFile | addEntity | trainModel | predict => .exactly 2
  | httpGet | ask | askBatch => .between 1 2
  | httpPost => .between 2 3
  | addRelation => .between 3 4

inductive Builtin
  | sequence (op : SequenceOp)
  | source (op : SourceOp)
  | collection (op : CollectionOp)
  | wrapper (op : WrapperOp)
  | scalar (op : ScalarOp)
  | log
  | future (op : FutureOp)
  | service (op : ServiceOp)
deriving DecidableEq, Repr

namespace Builtin

def all : List Builtin :=
  SequenceOp.all.map sequence ++ SourceOp.all.map source ++ CollectionOp.all.map collection
    ++ WrapperOp.all.map wrapper ++ ScalarOp.all.map scalar ++ [log] ++ FutureOp.every.map future
    ++ ServiceOp.all.map service

def name : Builtin → String
  | sequence op => op.name
  | source op => op.name
  | collection op => op.name
  | wrapper op => op.name
  | scalar op => op.name
  | log => "log"
  | future op => op.name
  | service op => op.text

def arity : Builtin → Arity
  | sequence op => .exactly op.arity
  | source op => op.arity
  | collection op => .exactly op.arity
  | wrapper op => .exactly op.arity
  | scalar op => .exactly op.arity
  | log => .atLeast 0
  | future op => .exactly op.arity
  | service op => op.arity

def effect : Builtin → Effect
  | log => .log
  | future _ => .async
  | service _ => .gateway
  | _ => .pure

/-- The first argument is a list, a stream or a set. -/
def isSequence : Builtin → Bool
  | sequence _ => true
  | _ => false

def ofName? (name : String) : Option Builtin := all.find? (·.name == name)

theorem name_of_ofName? {name : String} {b : Builtin} (h : ofName? name = some b) :
    b.name = name := by
  have := List.find?_some h
  simpa using this

end Builtin

end StreamLang
