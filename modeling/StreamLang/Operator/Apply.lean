import StreamLang.Fault
import StreamLang.Value.Equality
import StreamLang.Whole

/-!
What the operators compute. Arithmetic on two integers is checked, and everything else with numbers
happens in floating point.
-/

namespace StreamLang

namespace BinaryOp

def unsupported (op : BinaryOp) (a b : Value) : Fault := .badOperands op a.kind b.kind

/-- Two numbers as floating-point numbers. -/
def floats (op : BinaryOp) (a b : Value) : Except Fault (Binary64 × Binary64) :=
  match a.toBinary64?, b.toBinary64? with
  | some x, some y => .ok (x, y)
  | _, _ => .error (op.unsupported a b)

/-- Addition, subtraction or multiplication, given on integers and on floating-point numbers. -/
def arithmetic (op : BinaryOp) (onInts : Int64 → Int64 → Option Int64)
    (onFloats : Binary64 → Binary64 → Binary64) (a b : Value) : Except Fault Value :=
  match a, b with
  | .int x, .int y =>
    match onInts x y with
    | some n => .ok (.int n)
    | none => .error .overflow
  | a, b => (op.floats a b).map fun p => .float (onFloats p.1 p.2)

/-- Division or remainder; the divisor is not zero. -/
def division (op : BinaryOp) (onInts : Int64 → Int64 → Option Int64)
    (onFloats : Binary64 → Binary64 → Binary64) (a b : Value) : Except Fault Value :=
  match a, b with
  | .int x, .int y =>
    if y == 0 then .error .divisionByZero
    else match onInts x y with
      | some n => .ok (.int n)
      | none => .error .overflow
  | a, b => do
    let p ← op.floats a b
    if p.2.isZero then .error .divisionByZero else .ok (.float (onFloats p.1 p.2))

/-- The order of two values; there is none with what is no number. -/
def ordering (op : BinaryOp) (a b : Value) : Except Fault (Option Ordering) :=
  match a, b with
  | .int x, .int y => .ok (some (compare x.toInt y.toInt))
  | .text x, .text y => .ok (some (compareOfLessAndEq x y))
  | a, b => (op.floats a b).map fun p => p.1.compare? p.2

/-- A comparison holds when there is an order and it is one of the wanted ones. -/
def comparison (op : BinaryOp) (wanted : Ordering → Bool) (a b : Value) : Except Fault Value :=
  (op.ordering a b).map fun o => .bool ((o.map wanted).getD false)

def logical (op : BinaryOp) (onBools : Bool → Bool → Bool) (a b : Value) : Except Fault Value :=
  match a, b with
  | .bool x, .bool y => .ok (.bool (onBools x y))
  | a, b => .error (op.unsupported a b)

def apply (op : BinaryOp) (a b : Value) : Except Fault Value :=
  match op with
  | add =>
    match a, b with
    | .text x, .text y => .ok (.text (x ++ y))
    | a, b => add.arithmetic Whole.add? Binary64.add a b
  | sub => sub.arithmetic Whole.sub? Binary64.sub a b
  | mul => mul.arithmetic Whole.mul? Binary64.mul a b
  | div => div.division Whole.div? Binary64.div a b
  | mod => mod.division Whole.rem? Decimal.remainder a b
  | eq => .ok (.bool (a.equals b))
  | ne => .ok (.bool (!a.equals b))
  | lt => lt.comparison (· == .lt) a b
  | le => le.comparison (· != .gt) a b
  | gt => gt.comparison (· == .gt) a b
  | ge => ge.comparison (· != .lt) a b
  | and => and.logical (· && ·) a b
  | or => or.logical (· || ·) a b

end BinaryOp

namespace UnaryOp

def apply (op : UnaryOp) (a : Value) : Except Fault Value :=
  match op, a with
  | not, .bool b => .ok (.bool (!b))
  | neg, .int n =>
    match Whole.neg? n with
    | some m => .ok (.int m)
    | none => .error .overflow
  | neg, .float x => .ok (.float x.neg)
  | op, a => .error (.badOperand op a.kind)

end UnaryOp

end StreamLang
