import StreamLang.Decimal.Read

/-!
Integers of 64 bits. An operation whose exact result does not fit has no result; division drops
the fraction and the remainder has the sign of the dividend.
-/

namespace StreamLang.Whole

/-- The integer as 64 bits, if it fits. -/
def ofInt? (n : Int) : Option Int64 :=
  if Int64.minValue.toInt ≤ n ∧ n ≤ Int64.maxValue.toInt then some (Int64.ofInt n) else none

def add? (a b : Int64) : Option Int64 := ofInt? (a.toInt + b.toInt)

def sub? (a b : Int64) : Option Int64 := ofInt? (a.toInt - b.toInt)

def mul? (a b : Int64) : Option Int64 := ofInt? (a.toInt * b.toInt)

def div? (a b : Int64) : Option Int64 :=
  if b.toInt = 0 then none else ofInt? (a.toInt.tdiv b.toInt)

/-- The remainder that belongs to a quotient which does not fit has no result either. -/
def rem? (a b : Int64) : Option Int64 :=
  if b.toInt = 0 then none
  else (ofInt? (a.toInt.tdiv b.toInt)).bind fun _ => ofInt? (a.toInt.tmod b.toInt)

def neg? (a : Int64) : Option Int64 := ofInt? (-a.toInt)

def abs? (a : Int64) : Option Int64 := ofInt? a.toInt.natAbs

/-- A count written in digits alone, if it fits in 64 bits without a sign. -/
def readNat? (cs : List Char) : Option Nat :=
  if cs.isEmpty || !cs.all Char.isDigit then none
  else if Decimal.natOfDigits cs < Decimal.pow2 64 then some (Decimal.natOfDigits cs) else none

/-- An integer written in digits, behind a sign if wanted. -/
def readInt? (cs : List Char) : Option Int64 :=
  let neg := cs.head? == some '-'
  let digits := if neg || cs.head? == some '+' then cs.drop 1 else cs
  if digits.isEmpty || !digits.all Char.isDigit then none
  else ofInt? (if neg then -(Decimal.natOfDigits digits : Int) else Decimal.natOfDigits digits)

theorem toInt_of_ofInt? {n : Int} {k : Int64} (h : ofInt? n = some k) : k.toInt = n := by
  unfold ofInt? at h
  split at h
  · rename_i hn
    cases h
    rw [Int64.toInt_minValue, Int64.toInt_maxValue] at hn
    exact Int64.toInt_ofInt_of_le hn.1 (by omega)
  · cases h

end StreamLang.Whole
