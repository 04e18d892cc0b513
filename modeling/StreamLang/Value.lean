import StreamLang.Builtin
import StreamLang.Expr
import StreamLang.Json

/-!
The values of a running program. A map is kept in ascending order of its keys, a record in the
order of its declaration, a set in the order of insertion. Streams and functions have an identity,
by which alone they are compared.
-/

namespace StreamLang

/-- The number that a stream or a function has among those made in the same call, with the numbers of
that call and of the calls around it. -/
structure Identity where
  number : Nat
  call : List Nat
deriving DecidableEq, Repr

namespace Identity

/-- The one that follows in the same call. -/
def next (id : Identity) : Identity := ⟨id.number + 1, id.call⟩

/-- The first one in the call that has this number itself. -/
def inner (id : Identity) : Identity := ⟨0, id.number :: id.call⟩

/-- Outside of all calls the number is enough. -/
instance : Coe Nat Identity := ⟨fun number => ⟨number, []⟩⟩

end Identity

/-- The kinds of values; a success and a failure are of one kind. -/
inductive Kind
  | int | float | text | bool | void
  | list | map | set | record | enum | tuple | option | result
  | future | stream | function | model | prediction
deriving DecidableEq, Repr

def Kind.name : Kind → String
  | int => "Int" | float => "Float" | text => "String" | bool => "Bool" | void => "Void"
  | list => "List" | map => "Map" | set => "Set" | record => "Record" | enum => "Enum"
  | tuple => "Tuple" | option => "Option" | result => "Result" | future => "Future"
  | stream => "Stream" | function => "Function" | model => "Model" | prediction => "Prediction"

mutual

inductive Value
  | int (n : Int64)
  | float (x : Binary64)
  | text (s : String)
  | bool (b : Bool)
  | void
  | list (items : List Value)
  | map (entries : List (String × Value))
  | set (items : List Value)
  | record (name : String) (fields : List (String × Value))
  | enum (enum variant : String) (payload : Option Value)
  | tuple (items : List Value)
  | option (inner : Option Value)
  | ok (inner : Value)
  | err (error : Value)
  /-- A future, by its place in the table of futures. -/
  | future (id : Nat)
  | stream (identity : Identity) (pipeline : Pipeline)
  | function (identity : Identity) (callable : Callable)
  /-- What a service answers to the training of a model. -/
  | model (document : Json)
  /-- What a service answers to a question to a model. -/
  | prediction (document : Json)

/-- What can be called. -/
inductive Callable
  /-- A function with the bindings around it, innermost first, and the number of its module. -/
  | closure (decl : FunctionDecl) (env : List (List (String × Value))) (module : Nat)
  | builtin (b : Builtin)
  /-- A function with its first arguments. -/
  | applied (target : Callable) (args : List Value)

/-- Where the elements of a stream come from. -/
inductive Source
  | list (items : List Value)
  /-- From `start` in steps, which are not zero, up to but without `stop`. -/
  | range (start stop step : Int64)
  /-- What the generator gives for each number from 0 up to but without `count`. -/
  | generate (count : Int64) (generator : Value)
  /-- What the generator gives for every number from 0 on. -/
  | infinite (generator : Value)
  | empty

/-- What is done to each element on its way. -/
inductive Stage
  | map (f : Value)
  | filter (f : Value)
  | flatMap (f : Value)
  | take (n : Nat)
  | skip (n : Nat)

/-- A source and the stages behind it, first to last. -/
structure Pipeline where
  source : Source
  stages : List Stage

end

instance : Inhabited Value := ⟨.void⟩

/-- The bindings of a scope, innermost frame first. -/
abbrev Env : Type := List (List (String × Value))

namespace Value

def kind : Value → Kind
  | int _ => .int
  | float _ => .float
  | text _ => .text
  | bool _ => .bool
  | void => .void
  | list _ => .list
  | map _ => .map
  | set _ => .set
  | record _ _ => .record
  | enum _ _ _ => .enum
  | tuple _ => .tuple
  | option _ => .option
  | ok _ => .result
  | err _ => .result
  | future _ => .future
  | stream _ _ => .stream
  | function _ _ => .function
  | model _ => .model
  | prediction _ => .prediction

/-- The value as a floating-point number, if it is a number. -/
def toBinary64? : Value → Option Binary64
  | int n => some (Decimal.ofInt n.toInt)
  | float x => some x
  | _ => none

def toText? : Value → Option String
  | text s => some s
  | _ => none

def ofLiteral : Literal → Value
  | .int n => int n
  | .float x => float x
  | .text s => text s
  | .bool b => bool b
  | .void => void

mutual

/-- The value is made of data alone, so that it can be remembered or leave the program. -/
def isPlain : Value → Bool
  | int _ => true
  | float _ => true
  | text _ => true
  | bool _ => true
  | void => true
  | list items => allPlain items
  | map entries => allEntriesPlain entries
  | set items => allPlain items
  | record _ fields => allEntriesPlain fields
  | enum _ _ payload => optionPlain payload
  | tuple items => allPlain items
  | option inner => optionPlain inner
  | ok inner => isPlain inner
  | err error => isPlain error
  | future _ => false
  | stream _ _ => false
  | function _ _ => false
  | model _ => false
  | prediction _ => false

def optionPlain : Option Value → Bool
  | none => true
  | some v => isPlain v

def allPlain : List Value → Bool
  | [] => true
  | v :: rest => isPlain v && allPlain rest

def allEntriesPlain : List (String × Value) → Bool
  | [] => true
  | (_, v) :: rest => isPlain v && allEntriesPlain rest

end

end Value

/-- The field of a record, or the entry of a map. -/
def fieldOf? (name : String) (fields : List (String × Value)) : Option Value :=
  (fields.find? (·.1 == name)).map (·.2)

namespace Callable

/-- How many arguments saturate a call. -/
def arity : Callable → Nat
  | closure decl _ _ => decl.arity
  | builtin b => b.arity.min
  | applied target args => target.arity - args.length

def name : Callable → String
  | closure decl _ _ => decl.displayName
  | builtin b => b.name
  | applied target _ => target.name

end Callable

namespace Source

def isFinite : Source → Bool
  | infinite _ => false
  | _ => true

end Source

namespace Stage

def isTake : Stage → Bool
  | take _ => true
  | _ => false

end Stage

namespace Pipeline

def ofSource (source : Source) : Pipeline := ⟨source, []⟩

/-- The stream with one more stage at its end. -/
def withStage (p : Pipeline) (stage : Stage) : Pipeline := ⟨p.source, p.stages ++ [stage]⟩

/-- The shape of the stream bounds it: its source is finite, or some stage takes only so many. -/
def isBounded (p : Pipeline) : Bool := p.source.isFinite || p.stages.any Stage.isTake

end Pipeline

namespace Env

def empty : Env := []

/-- A new innermost frame; later bindings hide earlier ones. Nothing is pushed for no bindings. -/
def extend (env : Env) (bindings : List (String × Value)) : Env :=
  if bindings.isEmpty then env else bindings :: env

def bind (env : Env) (name : String) (v : Value) : Env := extend env [(name, v)]

def lookupFrame? (name : String) (bindings : List (String × Value)) : Option Value :=
  fieldOf? name bindings.reverse

def lookup? (env : Env) (name : String) : Option Value := env.findSome? (lookupFrame? name)

def depth (env : Env) : Nat := env.length

theorem lookup?_bind_self (env : Env) (name : String) (v : Value) :
    (env.bind name v).lookup? name = some v := by
  simp [bind, extend, lookup?, lookupFrame?, fieldOf?]

theorem lookup?_bind_of_ne {name other : String} (h : other ≠ name) (env : Env) (v : Value) :
    (env.bind name v).lookup? other = env.lookup? other := by
  simp [bind, extend, lookup?, lookupFrame?, fieldOf?, h.symm]

end Env

end StreamLang
