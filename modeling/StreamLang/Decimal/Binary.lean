import StreamLang.Binary64

/-!
The exact value of a binary floating-point number, as a sign, a whole coefficient and a power of
two, and the way back: the number nearest to a given fraction.
-/

namespace StreamLang.Decimal

/-- Two to the power of `k`. -/
def pow2 (k : Nat) : Nat := Nat.pow 2 k

/-- Ten to the power of `k`. -/
def pow10 (k : Nat) : Nat := Nat.pow 10 k

/-- A finite number: its magnitude is `coeff * 2 ^ exp`. -/
structure Binary where
  neg : Bool
  coeff : Nat
  exp : Int
deriving DecidableEq, Repr

namespace Binary

/-- `none` for the infinities and for what is not a number. -/
def ofBinary64? (x : Binary64) : Option Binary :=
  let bits := x.bits.toNat
  let neg := decide (pow2 63 ≤ bits)
  let field : Nat := bits / pow2 52 % pow2 11
  let frac : Nat := bits % pow2 52
  if field == 2047 then none
  else if field == 0 then some ⟨neg, frac, -1074⟩
  else some ⟨neg, frac + pow2 52, (field : Int) - 1075⟩

/-- The magnitude as a fraction. -/
def ratio (b : Binary) : Nat × Nat :=
  if 0 ≤ b.exp then (b.coeff * pow2 b.exp.toNat, 1) else (b.coeff, pow2 (-b.exp).toNat)

/-- The magnitude without its fractional part. -/
def whole (b : Binary) : Nat := b.ratio.1 / b.ratio.2

/-- The number as an integer, its fractional part dropped. -/
def truncate (b : Binary) : Int := if b.neg then -b.whole else b.whole

/-- The largest integer that is not above the number. -/
def floor (b : Binary) : Int :=
  if b.neg && b.ratio.1 % b.ratio.2 != 0 then b.truncate - 1 else b.truncate

end Binary

/-- The nearest whole number to `num / den`, a tie going to the even one. -/
def roundEven (num den : Nat) : Nat :=
  let q := num / den
  let twice := 2 * (num % den)
  if twice < den then q
  else if den < twice then q + 1
  else if q % 2 == 0 then q else q + 1

/-- The exponent of the binary grid on which `num / den` has 53 bits, not below the smallest one. -/
def gridExponent (num den : Nat) : Int :=
  let guess : Int := (num.log2 : Int) - den.log2 - 52
  let tooWide := if 0 ≤ guess then num < den * pow2 (guess.toNat + 52)
    else num * pow2 (-guess).toNat < den * pow2 52
  max (if tooWide then guess - 1 else guess) (-1074)

/-- The floating-point number nearest to `num / den`, ties to the even coefficient. -/
def nearest (neg : Bool) (num den : Nat) : Binary64 :=
  let sign := if neg then pow2 63 else 0
  if num == 0 then ⟨UInt64.ofNat sign⟩
  else
    let e := gridExponent num den
    let q := if 0 ≤ e then roundEven num (den * pow2 e.toNat)
      else roundEven (num * pow2 (-e).toNat) den
    let bits := if q < pow2 52 then q else (e + 1075).toNat * pow2 52 + (q - pow2 52)
    ⟨UInt64.ofNat (sign + min bits (2047 * pow2 52))⟩

/-- The floating-point number nearest to an integer. -/
def ofInt (n : Int) : Binary64 := nearest (decide (n < 0)) n.natAbs 1

/-- The remainder of truncated division, which has the sign of the dividend and is exact. -/
def remainder (x y : Binary64) : Binary64 :=
  match Binary.ofBinary64? x with
  | none => Binary64.undefined x y
  | some a =>
    match Binary.ofBinary64? y with
    | none => if y.isNaN then Binary64.undefined x y else x
    | some b =>
      if b.coeff == 0 then Binary64.undefined x y
      else
        let e := min a.exp b.exp
        let r := a.coeff * pow2 (a.exp - e).toNat % (b.coeff * pow2 (b.exp - e).toNat)
        if 0 ≤ e then nearest a.neg (r * pow2 e.toNat) 1 else nearest a.neg r (pow2 (-e).toNat)

end StreamLang.Decimal
