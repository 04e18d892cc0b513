import StreamLang.Builtin.Argument
import StreamLang.Text.Case
import StreamLang.Text.Search
import StreamLang.Whole

/-!
The builtins on options and results.
-/

namespace StreamLang

namespace Value

def unwrap : Value → Except Fault Value
  | option (some v) => .ok v
  | ok v => .ok v
  | option none => .error .unwrapNone
  | err error => .error (.unwrapErr error)
  | v => Argument.bad (.wrapper .unwrap) .optionOrResult v

def unwrapOr (v fallback : Value) : Except Fault Value :=
  match v with
  | option (some inner) => .ok inner
  | ok inner => .ok inner
  | option none => .ok fallback
  | err _ => .ok fallback
  | v => Argument.bad (.wrapper .unwrapOr) .optionOrResult v

def isSome (b : Builtin) : Value → Except Fault Bool
  | option inner => .ok inner.isSome
  | v => Argument.bad b .option v

def isOk (b : Builtin) : Value → Except Fault Bool
  | ok _ => .ok true
  | err _ => .ok false
  | v => Argument.bad b .result v

end Value

/-- The builtin, applied to as many arguments as it takes. -/
def WrapperOp.apply (op : WrapperOp) (args : List Value) : Except Fault Value :=
  let self : Builtin := .wrapper op
  match op, args with
  | .some, [v] => .ok (.option (Option.some v))
  | .capitalSome, [v] => .ok (.option (Option.some v))
  | .none, [] => .ok (.option Option.none)
  | .ok, [v] => .ok (.ok v)
  | .capitalOk, [v] => .ok (.ok v)
  | .err, [v] => .ok (.err v)
  | .capitalErr, [v] => .ok (.err v)
  | .unwrap, [v] => v.unwrap
  | .unwrapOr, [v, fallback] => v.unwrapOr fallback
  | .isSome, [v] => do return .bool (← v.isSome self)
  | .isNone, [v] => do return .bool (!(← v.isSome self))
  | .isOk, [v] => do return .bool (← v.isOk self)
  | .isErr, [v] => do return .bool (!(← v.isOk self))
  | _, _ => .error (.unavailable self)

end StreamLang

/-!
The builtins on texts and numbers.
-/

namespace StreamLang

namespace Value

def abs : Value → Except Fault Value
  | int n =>
    match Whole.abs? n with
    | some m => .ok (int m)
    | none => .error .overflow
  | float x => .ok (float x.abs)
  | v => Argument.bad (.scalar .abs) .number v

/-- The smaller of two values, or the larger one. Of equal ones the first is the smaller. -/
def extreme (op : ScalarOp) (a b : Value) : Except Fault Value :=
  let pick (ordered : Bool) : Value := if ordered == (op == .min) then a else b
  match a, b with
  | int x, int y => .ok (pick (x ≤ y))
  | text x, text y => .ok (pick (!decide (y < x)))
  | a, b => do
    let x ← Argument.number (.scalar op) a
    let y ← Argument.number (.scalar op) b
    return pick (x.le y)

def sqrt (v : Value) : Except Fault Value := do
  let x ← Argument.number (.scalar .sqrt) v
  if Binary64.zero.le x then return float x.sqrt else .error .negativeRoot

/-- A number as an integer, rounded in a given way. The bound above the integers becomes the
largest of them. -/
def toWhole (b : Builtin) (round : Decimal.Binary → Int) (v : Value) : Except Fault Value := do
  let x ← Argument.number b v
  match (Decimal.Binary.ofBinary64? x).map round with
  | none => .error (.notWhole b x)
  | some n =>
    if Int64.minValue.toInt ≤ n ∧ n ≤ Int64.maxValue.toInt + 1 then
      return int (if Int64.maxValue.toInt < n then Int64.maxValue else Int64.ofInt n)
    else .error (.notWhole b x)

def floor : Value → Except Fault Value
  | int n => .ok (int n)
  | v => toWhole (.scalar .floor) Decimal.Binary.floor v

def toInt : Value → Except Fault Value
  | int n => .ok (int n)
  | text s =>
    match Whole.readInt? (Text.trimChars s.toList) with
    | some n => .ok (int n)
    | none => .error (.notInt s)
  | v => toWhole (.scalar .toInt) Decimal.Binary.truncate v

def toFloat : Value → Except Fault Value
  | text s =>
    match Decimal.readFloat? (Text.trim s) with
    | some x => .ok (float x)
    | none => .error (.notFloat s)
  | v => do return float (← Argument.number (.scalar .toFloat) v)

end Value

/-- The builtin, applied to as many arguments as it takes. -/
def ScalarOp.apply (op : ScalarOp) (args : List Value) : Except Fault Value :=
  let self : Builtin := .scalar op
  match op, args with
  | .toString, [v] => .ok (.text v.render)
  | .upper, [v] => do return .text (Text.upper (← Argument.text self v))
  | .lower, [v] => do return .text (Text.lower (← Argument.text self v))
  | .split, [v, sep] => do
    let s ← Argument.text self v
    return .list ((Text.split s (← Argument.text self sep)).map .text)
  | .join, [l, sep] => do
    let items ← Argument.list self l
    return .text ((← Argument.text self sep).intercalate (items.map Value.render))
  | .abs, [v] => v.abs
  | .min, [a, b] => Value.extreme op a b
  | .max, [a, b] => Value.extreme op a b
  | .sqrt, [v] => v.sqrt
  | .floor, [v] => v.floor
  | .toFloat, [v] => v.toFloat
  | .toInt, [v] => v.toInt
  | _, _ => .error (.unavailable self)

end StreamLang
