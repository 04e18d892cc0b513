import StreamLang.Builtin
import StreamLang.Ty

/-!
The type of what a builtin gives, from the types of its arguments.
-/

namespace StreamLang

namespace Ty

/-- The type of an argument, without refinements at the top. -/
def argument (args : List Ty) (i : Nat) : Ty := (args[i]?.map base).getD unknown

/-- What a callback gives. -/
def returned (callback : Ty) : Ty :=
  match callback.base with
  | function _ ret => ret
  | _ => unknown

def elementOf (t : Ty) : Ty := t.element?.getD unknown

/-- Streams stay streams; lists and sets become lists. -/
def sameShape (container elem : Ty) : Ty :=
  match container.base with
  | stream _ => stream elem
  | list _ | set _ => list elem
  | _ => unknown

/-- A set gives a list when items are left out of it. -/
def withoutSet : Ty → Ty
  | set e => list e
  | t => t

/-- What a service answers, or an error text. -/
def serviceResult (ok : Ty) : Ty := future (result ok text)

/-- The type of a number, if it is known which kind of number it is. -/
def numberType : Ty → Ty
  | int => int
  | float => float
  | _ => unknown

end Ty

open Ty

def SequenceOp.resultType (op : SequenceOp) (args : List Ty) : Ty :=
  let first := argument args 0
  let second := argument args 1
  match op with
  | map => first.sameShape second.returned
  | flatMap => first.sameShape second.returned.elementOf
  | filter | take | skip => first.withoutSet
  | reduce => second.join (argument args 2).returned
  | collect => .list first.elementOf
  | chunk => .list (.list first.elementOf)
  | count => .int
  | SequenceOp.first => .option first.elementOf
  | forEach => .void
  | sum => first.elementOf.numberType

def SourceOp.resultType (op : SourceOp) (args : List Ty) : Ty :=
  match op with
  | ofList => .stream (argument args 0).elementOf
  | range => .stream .int
  | generate => .stream (argument args 1).returned
  | infinite => .stream (argument args 0).returned
  | empty => .stream .unknown

def CollectionOp.resultType (op : CollectionOp) (args : List Ty) : Ty :=
  let first := argument args 0
  let second := argument args 1
  match op with
  | len => .int
  | head | nth => .option first.elementOf
  | append =>
    match first with
    | .list e => .list (e.join second)
    | _ => .list .unknown
  | concat | merge | union => first.join second
  | tail | reverse | remove => first
  | range => .list .int
  | contains | hasKey => .bool
  | get =>
    match first with
    | .map _ v => .option v
    | _ => .option .unknown
  | put =>
    match first with
    | .map k v => .map k (v.join (argument args 2))
    | _ => .map .text .unknown
  | keys => .list .text
  | values =>
    match first with
    | .map _ v => .list v
    | _ => .list .unknown
  | set => .set first.elementOf
  | insert =>
    match first with
    | .set e => .set (e.join second)
    | _ => .set .unknown

def WrapperOp.resultType (op : WrapperOp) (args : List Ty) : Ty :=
  let first := argument args 0
  let second := argument args 1
  match op with
  | some | capitalSome => .option first
  | none => .option .unknown
  | ok | capitalOk => .result first .unknown
  | err | capitalErr => .result .unknown first
  | unwrap =>
    match first with
    | .option t => t
    | .result t _ => t
    | _ => .unknown
  | unwrapOr =>
    match first with
    | .option t => t.join second
    | .result t _ => t.join second
    | _ => second
  | isSome | isNone | isOk | isErr => .bool

def ScalarOp.resultType (op : ScalarOp) (args : List Ty) : Ty :=
  match op with
  | toString | upper | lower | join => .text
  | split => .list .text
  | abs => (argument args 0).numberType
  | min | max => (argument args 0).join (argument args 1)
  | sqrt | toFloat => .float
  | floor | toInt => .int

def FutureOp.resultType (op : FutureOp) (args : List Ty) : Ty :=
  let first := argument args 0
  let second := argument args 1
  match op with
  | onError =>
    match first with
    | .future t => .future (t.join second.returned)
    | _ => .future .unknown
  | onComplete | andThen => .future second.returned
  | all =>
    match first.elementOf with
    | .future t => .future (.list t)
    | _ => .future (.list .unknown)
  | resolved => .future first
  | failed => .future .unknown
  | state => .text

def ServiceOp.resultType : ServiceOp → Ty
  | trainModel => serviceResult .model
  | predict => serviceResult .prediction
  | readFile | httpGet | httpPost | ask => serviceResult .text
  | writeFile => serviceResult .void
  | askBatch => serviceResult (.list .text)
  | addEntity | addRelation | queryKnowledgeGraph => serviceResult .unknown

namespace Builtin

def resultType (b : Builtin) (args : List Ty) : Ty :=
  match b with
  | sequence op => op.resultType args
  | source op => op.resultType args
  | collection op => op.resultType args
  | wrapper op => op.resultType args
  | scalar op => op.resultType args
  | log => .void
  | future op => op.resultType args
  | service op => op.resultType

/-- The type of a builtin name that is no function. -/
def constantType? (name : String) : Option Ty :=
  if name == "None" then Option.some (.option .unknown) else Option.none

end Builtin

end StreamLang
