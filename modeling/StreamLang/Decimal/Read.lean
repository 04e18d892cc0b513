import StreamLang.Decimal.Binary

/-!
Reading a floating-point number from decimal text. The result is the number nearest to the decimal,
ties to the even coefficient.
-/

namespace StreamLang.Decimal

def digitValue (c : Char) : Nat := c.toNat - '0'.toNat

def natOfDigits (cs : List Char) : Nat := cs.foldl (fun n c => 10 * n + digitValue c) 0

/-- The number nearest to `coeff * 10 ^ exp`. Exponents far outside the range of the numbers are
cut short before a power of ten is computed. -/
def ofDecimal (neg : Bool) (coeff : Nat) (exp : Int) : Binary64 :=
  let size : Int := (Nat.toDigits 10 coeff).length
  if coeff == 0 || exp + size < -400 then nearest neg 0 1
  else if 400 < exp + size then nearest neg (pow10 400) 1
  else if 0 ≤ exp then nearest neg (coeff * pow10 exp.toNat) 1
  else nearest neg coeff (pow10 (-exp).toNat)

/-- The signed digits that end an exponent; nothing else may follow. -/
def readExponent? (cs : List Char) : Option Int :=
  let neg := cs.head? == some '-'
  let digits := if neg || cs.head? == some '+' then cs.drop 1 else cs
  if digits.isEmpty || !digits.all Char.isDigit then none
  else some (if neg then -(natOfDigits digits : Int) else natOfDigits digits)

/-- Decimal text in its parts: the digits before and behind the point, and the exponent. -/
structure Numeral where
  whole : List Char
  fracs : List Char
  exp : Int

/-- Digits with an optional point, at least one digit in all, and an optional exponent. -/
def readNumeral? (cs : List Char) : Option Numeral :=
  let whole := cs.takeWhile Char.isDigit
  let afterWhole := cs.dropWhile Char.isDigit
  let hasPoint := afterWhole.head? == some '.'
  let fracs := if hasPoint then (afterWhole.drop 1).takeWhile Char.isDigit else []
  let rest := if hasPoint then (afterWhole.drop 1).dropWhile Char.isDigit else afterWhole
  if whole.isEmpty && fracs.isEmpty then none
  else match rest with
    | [] => some ⟨whole, fracs, 0⟩
    | c :: more =>
      if c == 'e' || c == 'E' then (readExponent? more).map fun e => ⟨whole, fracs, e⟩ else none

/-- The number nearest to decimal text that has no sign; the sign is given apart. -/
def readUnsigned? (neg : Bool) (cs : List Char) : Option Binary64 :=
  (readNumeral? cs).map fun t =>
    ofDecimal neg (natOfDigits (t.whole ++ t.fracs)) (t.exp - t.fracs.length)

/-- A number as a person may type it: also `.5`, `5.`, `+1`, `1e3`, `inf`, `infinity` and `nan` in
any case. -/
def readFloat? (s : String) : Option Binary64 :=
  let cs := s.toList
  let neg := cs.head? == some '-'
  let body := if neg || cs.head? == some '+' then cs.drop 1 else cs
  let word := body.map Char.toLower
  if word == "inf".toList || word == "infinity".toList then
    some (if neg then Binary64.infinity.neg else Binary64.infinity)
  else if word == "nan".toList then
    some (if neg then Binary64.nan.neg else Binary64.nan)
  else readUnsigned? neg body

end StreamLang.Decimal
