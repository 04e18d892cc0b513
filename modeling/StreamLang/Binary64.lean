/-!
Floating-point numbers of 64 bits, known by their bits. What is no number has a sign as well: an
operation on it gives it on, and an operation that has no result gives the negative one.
-/

namespace StreamLang

structure Binary64 where
  bits : UInt64
deriving DecidableEq, Inhabited, Repr

namespace Binary64

def ofFloat (x : Float) : Binary64 := ⟨x.toBits⟩

/-- The number itself; the sign of what is no number is lost. -/
def toFloat (a : Binary64) : Float := Float.ofBits a.bits

/-- The bit of the sign. -/
def signBit : UInt64 := 0x8000000000000000

def zero : Binary64 := ⟨0⟩

def infinity : Binary64 := ⟨0x7ff0000000000000⟩

/-- What is no number. -/
def nan : Binary64 := ⟨0x7ff8000000000000⟩

def isNegative (a : Binary64) : Bool := a.bits &&& signBit != 0

def abs (a : Binary64) : Binary64 := ⟨a.bits &&& ~~~signBit⟩

def neg (a : Binary64) : Binary64 := ⟨a.bits ^^^ signBit⟩

def isNaN (a : Binary64) : Bool := decide (infinity.bits < a.abs.bits)

def isFinite (a : Binary64) : Bool := decide (a.abs.bits < infinity.bits)

/-- What an operation gives that has no number for its result: the first operand that is no number
either, and else the negative one. -/
def undefined (a b : Binary64) : Binary64 :=
  if a.isNaN then a else if b.isNaN then b else nan.neg

def lift (op : Float → Float → Float) (a b : Binary64) : Binary64 :=
  let r := op a.toFloat b.toFloat
  if r.isNaN then undefined a b else ofFloat r

def add : Binary64 → Binary64 → Binary64 := lift (· + ·)

def sub : Binary64 → Binary64 → Binary64 := lift (· - ·)

def mul : Binary64 → Binary64 → Binary64 := lift (· * ·)

def div : Binary64 → Binary64 → Binary64 := lift (· / ·)

/-- The square root of a number that is not negative. -/
def sqrt (a : Binary64) : Binary64 := ofFloat a.toFloat.sqrt

/-- The place of a number in ascending order, counted from the zeros, which share one. -/
def rank (a : Binary64) : Int :=
  if a.isNegative then -(a.abs.bits.toNat : Int) else a.abs.bits.toNat

def areNumbers (a b : Binary64) : Bool := !a.isNaN && !b.isNaN

/-- Equality as numbers: the zeros are equal, and what is no number equals nothing. -/
def equals (a b : Binary64) : Bool := areNumbers a b && a.rank == b.rank

def le (a b : Binary64) : Bool := areNumbers a b && decide (a.rank ≤ b.rank)

/-- Either of the zeros. -/
def isZero (a : Binary64) : Bool := a.abs.bits == 0

/-- The order of two numbers; none with what is no number. -/
def compare? (a b : Binary64) : Option Ordering :=
  if areNumbers a b then some (compare a.rank b.rank) else none

theorem equals_self (a : Binary64) : a.equals a = !a.isNaN := by
  simp [equals, areNumbers]

theorem equals_comm (a b : Binary64) : a.equals b = b.equals a := by
  have h : (a.rank == b.rank) = (b.rank == a.rank) := BEq.comm
  simp only [equals, areNumbers, Bool.and_comm (!a.isNaN), h]

theorem equals_trans {a b c : Binary64} (h : a.equals b = true) (h' : b.equals c = true) :
    a.equals c = true := by
  simp only [equals, areNumbers, Bool.and_eq_true, beq_iff_eq] at h h' ⊢
  exact ⟨⟨h.1.1, h'.1.2⟩, h.2.trans h'.2⟩

end Binary64

end StreamLang
