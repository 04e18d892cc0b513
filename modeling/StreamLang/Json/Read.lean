import StreamLang.Json
import StreamLang.Decimal.Read

/-!
Reading a JSON document. A number without point and exponent that fits in 64 bits, with or without
a sign, is a whole number. Every other number is computed in floating point: its leading digits, as
many as fit in 64 bits, are rounded, and then scaled by a power of ten. So it is the nearest number
while the digits fit in 53 bits and the power is exact, and may be off in the last place otherwise.
-/

namespace StreamLang.Json

def skipBlanks (cs : List Char) : List Char :=
  cs.dropWhile fun c => c == ' ' || c == '\t' || c == '\n' || c == '\r'

def hexValue? (c : Char) : Option Nat :=
  if c.isDigit then some (c.toNat - '0'.toNat)
  else if 'a' ≤ c && c ≤ 'f' then some (c.toNat - 'a'.toNat + 10)
  else if 'A' ≤ c && c ≤ 'F' then some (c.toNat - 'A'.toNat + 10)
  else none

/-- Four hexadecimal digits. -/
def readHex? (cs : List Char) : Option (Nat × List Char) :=
  let digits := (cs.take 4).filterMap hexValue?
  if digits.length == 4 then some (digits.foldl (fun n d => 16 * n + d) 0, cs.drop 4) else none

/-- The character of a `\u` escape; a pair of surrogates is one character. -/
def readUnicode? (cs : List Char) : Option (Char × List Char) := do
  let high ← readHex? cs
  if 0xd800 ≤ high.1 && high.1 < 0xdc00 then
    if high.2.take 2 == ['\\', 'u'] then
      let low ← readHex? (high.2.drop 2)
      if 0xdc00 ≤ low.1 && low.1 < 0xe000 then
        some (Char.ofNat (0x10000 + (high.1 - 0xd800) * 0x400 + (low.1 - 0xdc00)), low.2)
      else none
    else none
  else if 0xdc00 ≤ high.1 && high.1 < 0xe000 then none
  else some (Char.ofNat high.1, high.2)

/-- The character behind a backslash. -/
def readEscape? : List Char → Option (Char × List Char)
  | [] => none
  | c :: rest =>
    if c == '"' || c == '\\' || c == '/' then some (c, rest)
    else if c == 'b' then some ('\x08', rest)
    else if c == 'f' then some ('\x0c', rest)
    else if c == 'n' then some ('\n', rest)
    else if c == 'r' then some ('\r', rest)
    else if c == 't' then some ('\t', rest)
    else if c == 'u' then readUnicode? rest
    else none

/-- The contents of a string up to its closing quote; `acc` holds them backwards. -/
def readString? : Nat → List Char → List Char → Option (String × List Char)
  | 0, _, _ => none
  | _, _, [] => none
  | fuel + 1, acc, c :: rest =>
    if c == '"' then some (String.ofList acc.reverse, rest)
    else if c == '\\' then do
      let e ← readEscape? rest
      readString? fuel (e.1 :: acc) e.2
    else if c.toNat < 0x20 then none
    else readString? fuel (c :: acc) rest

def isNumberChar (c : Char) : Bool :=
  c.isDigit || c == '-' || c == '+' || c == '.' || c == 'e' || c == 'E'

/-- Digits are put behind a coefficient while it fits in 64 bits; what is left over follows. -/
def appendDigits (coeff : Nat) : List Char → Nat × List Char
  | [] => (coeff, [])
  | c :: rest =>
    let next := 10 * coeff + Decimal.digitValue c
    if next < Decimal.pow2 64 then appendDigits next rest else (coeff, c :: rest)

/-- A number times a power of ten; there is none beyond the finite ones. No more than two divisions
are needed before nothing is left of a coefficient. -/
def scale? (x : Binary64) (exp : Int) : Option Binary64 :=
  let ten (k : Nat) : Binary64 := Decimal.nearest false (Decimal.pow10 k) 1
  if 0 ≤ exp then
    let y := if x.isZero then x else x.mul (ten (min exp.toNat 309))
    if y.isFinite then some y else none
  else
    let k := (-exp).toNat
    some (if k ≤ 308 then x.div (ten k) else (x.div (ten 308)).div (ten (min (k - 308) 308)))

/-- The digits after the point lower the power of ten, the leftover ones before it raise it. -/
def ofNumeral? (neg : Bool) (t : Decimal.Numeral) : Option Binary64 :=
  let first := appendDigits 0 t.whole
  let all := appendDigits first.1 t.fracs
  let taken := t.fracs.length - all.2.length
  scale? (Decimal.nearest neg all.1 1) (t.exp + first.2.length - taken)

/-- Minus zero is no whole number. -/
def ofNumberText? (cs : List Char) : Option Json :=
  let neg := cs.head? == some '-'
  let digits := if neg then cs.drop 1 else cs
  let n := Decimal.natOfDigits digits
  if digits.isEmpty || !(digits.head?.any Char.isDigit) then none
  else if digits.all Char.isDigit && !neg && n < Decimal.pow2 64 then some (int n)
  else if digits.all Char.isDigit && neg && n != 0 && n ≤ Decimal.pow2 63 then some (int (-n))
  else (((Decimal.readNumeral? digits).bind (ofNumeral? neg)).bind Number.ofFloat?).map number

mutual

/-- A document and what follows it. -/
def readValue? : Nat → List Char → Option (Json × List Char)
  | 0, _ => none
  | fuel + 1, cs =>
    match skipBlanks cs with
    | [] => none
    | c :: rest =>
      if c == '"' then (readString? (rest.length + 1) [] rest).map fun r => (text r.1, r.2)
      else if c == '[' then
        (readItems? fuel [] (skipBlanks rest)).map fun r => (array r.1, r.2)
      else if c == '\x7b' then
        (readMembers? fuel [] (skipBlanks rest)).map fun r => (ofMembers r.1, r.2)
      else if c.isAlpha then
        let word := String.ofList ((c :: rest).takeWhile Char.isAlpha)
        let after := (c :: rest).dropWhile Char.isAlpha
        if word == "null" then some (null, after)
        else if word == "true" then some (bool true, after)
        else if word == "false" then some (bool false, after)
        else none
      else
        (ofNumberText? ((c :: rest).takeWhile isNumberChar)).map fun n =>
          (n, (c :: rest).dropWhile isNumberChar)

/-- The items of an array behind its bracket; `acc` holds those already read, backwards. -/
def readItems? : Nat → List Json → List Char → Option (List Json × List Char)
  | 0, _, _ => none
  | fuel + 1, acc, cs =>
    if acc.isEmpty && cs.head? == some ']' then some ([], cs.drop 1)
    else do
      let item ← readValue? fuel cs
      let after := skipBlanks item.2
      if after.head? == some ',' then readItems? fuel (item.1 :: acc) (skipBlanks (after.drop 1))
      else if after.head? == some ']' then some ((item.1 :: acc).reverse, after.drop 1)
      else none

/-- The members of an object behind its brace, likewise. -/
def readMembers? : Nat → List (String × Json) → List Char →
    Option (List (String × Json) × List Char)
  | 0, _, _ => none
  | fuel + 1, acc, cs =>
    if acc.isEmpty && cs.head? == some '\x7d' then some ([], cs.drop 1)
    else if cs.head? == some '"' then do
      let key ← readString? (cs.length + 1) [] (cs.drop 1)
      let after := skipBlanks key.2
      if after.head? == some ':' then
        let value ← readValue? fuel (after.drop 1)
        let next := skipBlanks value.2
        if next.head? == some ',' then
          readMembers? fuel ((key.1, value.1) :: acc) (skipBlanks (next.drop 1))
        else if next.head? == some '\x7d' then
          some (((key.1, value.1) :: acc).reverse, next.drop 1)
        else none
      else none
    else none

end

/-- The document that is the whole text. -/
def read? (s : String) : Option Json :=
  match readValue? (2 * s.length + 2) s.toList with
  | some r => if (skipBlanks r.2).isEmpty then some r.1 else none
  | none => none

end StreamLang.Json
