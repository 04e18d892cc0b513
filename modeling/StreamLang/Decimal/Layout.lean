import StreamLang.Decimal.Binary

/-!
The shortest decimal that reads back as a given floating-point number. Among the decimals with the
fewest digits that lie in the interval of reals rounding to the number, the nearest is taken; an
exact tie between two goes where the layout that asks for the digits says.
-/

namespace StreamLang.Decimal

/-- Where the digits fall when two decimals are equally near. -/
inductive Tie
  | awayFromZero
  | toEven
deriving DecidableEq, Repr

/-- The decimal `digits * 10 ^ exp`. -/
structure Digits where
  digits : Nat
  exp : Int
deriving DecidableEq, Repr

/-- The reals that round to `coeff * 2 ^ exp`, as fractions over a common denominator. -/
structure Interval where
  low : Nat
  mid : Nat
  high : Nat
  den : Nat
  closed : Bool

/-- The gap below a power of two is half the gap above it; an even coefficient owns the ends. -/
def Binary.interval (b : Binary) : Interval :=
  let below := if b.coeff == pow2 52 && b.exp != -1074 then 1 else 2
  let scale := pow2 b.exp.toNat
  { low := (4 * b.coeff - below) * scale
    mid := 4 * b.coeff * scale
    high := (4 * b.coeff + 2) * scale
    den := 4 * pow2 (-b.exp).toNat
    closed := b.coeff % 2 == 0 }

/-- The interval holds `num / den` times the interval's own denominator. -/
def Interval.holds (i : Interval) (num den : Nat) : Bool :=
  if i.closed then i.low * den ≤ num && num ≤ i.high * den
  else i.low * den < num && num < i.high * den

/-- The number of digits before the point of `num / den`, or minus the zeros after it. -/
def magnitude (num den : Nat) : Int :=
  if den ≤ num then (Nat.toDigits 10 (num / den)).length
  else 1 - (((List.range 400).find? fun k => den ≤ num * pow10 k).getD 400 : Nat)

/-- The decimal on the grid of step `10 ^ step` that the interval holds, if there is one. -/
def Interval.onGrid? (i : Interval) (tie : Tie) (step : Int) : Option Digits :=
  let up := pow10 step.toNat
  let down := pow10 (-step).toNat
  -- a grid point `d` stands for the fraction `d * up / down`
  let unit := i.den * up
  let d := i.mid * down / unit
  let rest := i.mid * down % unit
  let lowIn := i.holds (d * unit) down
  let highIn := i.holds ((d + 1) * unit) down
  let takeHigh :=
    if unit < 2 * rest then true
    else if 2 * rest < unit then false
    else match tie with
      | .awayFromZero => true
      | .toEven => d % 2 == 1
  if lowIn && highIn then some ⟨if takeHigh then d + 1 else d, step⟩
  else if lowIn then some ⟨d, step⟩
  else if highIn then some ⟨d + 1, step⟩
  else none

/-- Zeros at the end of the digits move into the exponent. -/
def Digits.stripZeros : Nat → Digits → Digits
  | 0, d => d
  | fuel + 1, d =>
    if d.digits != 0 && d.digits % 10 == 0 then stripZeros fuel ⟨d.digits / 10, d.exp + 1⟩ else d

/-- Seventeen digits always suffice. -/
def Binary.shortest (b : Binary) (tie : Tie) : Digits :=
  let i := b.interval
  let top := magnitude i.mid i.den
  let found := (List.range 17).findSome? fun (n : Nat) => i.onGrid? tie (top - 1 - n)
  (found.getD ⟨0, 0⟩).stripZeros 20

end StreamLang.Decimal

/-!
The three ways in which a number is written: inside a shown value, as plain decimal text, and in a
JSON document. They share the shortest digits and differ in what a layout records.
-/

namespace StreamLang.Decimal

/-- How the digits of a number are laid out. -/
structure Layout where
  /-- Positional notation is used while the number of digits before the point is in this range,
  and always when there is no range. -/
  positional : Option (Int × Int)
  /-- What follows a whole number in positional notation. -/
  wholeEnd : String
  /-- What stands before a positive exponent. -/
  plus : String
  tie : Tie
  nan : String
  infinity : String
  negInfinity : String

namespace Layout

/-- Numbers inside a shown value: `1.0`, `1e16`, `1e-5`. -/
def shown : Layout := ⟨some (-3, 16), ".0", "", .awayFromZero, "NaN", "inf", "-inf"⟩

/-- Numbers written out in full: `1`, `0.0000001`. -/
def plain : Layout := ⟨none, "", "", .awayFromZero, "NaN", "inf", "-inf"⟩

/-- Numbers of a JSON document: `1.0`, `1e+16`; what is not finite is `null`. -/
def json : Layout := ⟨some (-4, 16), ".0", "+", .toEven, "null", "null", "null"⟩

end Layout

def zeros (n : Int) : String := String.ofList (List.replicate n.toNat '0')

/-- The digits with a point among them, `point` of them before it. -/
def positionalText (digits : List Char) (point : Int) (wholeEnd : String) : String :=
  let size : Int := digits.length
  if point ≤ 0 then "0." ++ zeros (-point) ++ String.ofList digits
  else if size ≤ point then String.ofList digits ++ zeros (point - size) ++ wholeEnd
  else String.ofList (digits.take point.toNat) ++ "." ++ String.ofList (digits.drop point.toNat)

/-- One digit, the others after a point, and the exponent. -/
def exponentText (digits : List Char) (point : Int) (plus : String) : String :=
  let e := point - 1
  let lead := String.ofList (digits.take 1)
  let tail := if digits.length ≤ 1 then "" else "." ++ String.ofList (digits.drop 1)
  lead ++ tail ++ "e" ++ (if 0 ≤ e then plus else "") ++ toString e

def Layout.magnitudeText (l : Layout) (b : Binary) : String :=
  if b.coeff == 0 then "0" ++ l.wholeEnd
  else
    let d := b.shortest l.tie
    let digits := Nat.toDigits 10 d.digits
    let point := (digits.length : Int) + d.exp
    match l.positional with
    | none => positionalText digits point l.wholeEnd
    | some range =>
      if range.1 ≤ point && point ≤ range.2 then positionalText digits point l.wholeEnd
      else exponentText digits point l.plus

def Layout.write (l : Layout) (x : Binary64) : String :=
  match Binary.ofBinary64? x with
  | some b => (if b.neg then "-" else "") ++ l.magnitudeText b
  | none => if x.isNaN then l.nan else if x.isNegative then l.negInfinity else l.infinity

end StreamLang.Decimal
