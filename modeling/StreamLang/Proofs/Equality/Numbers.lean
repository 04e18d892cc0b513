import Mathlib.Data.Nat.Bitwise
import StreamLang.Decimal.Binary

/-! An integer and a floating-point number are compared after the integer has been rounded. Integers of
at most 53 bits are floating-point numbers, different ones for different integers; among larger ones
a floating-point number can stand for two. -/

namespace StreamLang

/-- The numbers that may stand in a value. -/
structure Numbers where
  int : Int64 → Prop
  float : Binary64 → Prop

namespace Numbers

/-- No floating-point number is the nearest one to two of the integers. -/
def Apart (N : Numbers) : Prop :=
  ∀ m n x, N.int m → N.int n → N.float x → (Decimal.ofInt m.toInt).equals x = true →
    (Decimal.ofInt n.toInt).equals x = true → m = n

/-- All integers, and no other numbers. -/
def integers : Numbers := ⟨fun _ => True, fun _ => False⟩

theorem integers_apart : integers.Apart := fun _ _ _ _ _ h => h.elim

end Numbers

/-! The rank of a number, from its bits -/

namespace Binary64

variable {m : Nat} {neg : Bool}

theorem toNat_abs_bits (a : Binary64) : a.abs.bits.toNat = a.bits.toNat % 2 ^ 63 := by
  have hmask : (~~~signBit).toNat = 2 ^ 63 - 1 := by decide
  rw [abs, UInt64.toNat_and, hmask, Nat.and_two_pow_sub_one_eq_mod]

theorem isNegative_iff (a : Binary64) : a.isNegative = true ↔ 2 ^ 63 ≤ a.bits.toNat := by
  have hbit : signBit.toNat = 2 ^ 63 := by decide
  have hlt : a.bits.toNat < 2 ^ 64 := a.bits.toNat_lt
  have htest : a.bits.toNat.testBit 63 = decide (2 ^ 63 ≤ a.bits.toNat) := by
    rw [Nat.testBit_eq_decide_div_mod_eq, decide_eq_decide]
    omega
  rw [isNegative, bne_iff_ne, ne_eq, ← UInt64.toNat_inj, UInt64.toNat_and, hbit, Nat.and_two_pow,
    htest]
  simp

/-- The rank of the number with this sign and these other bits. -/
theorem rank_of_bits (hm : m < 2 ^ 63) :
    rank ⟨UInt64.ofNat ((if neg then 2 ^ 63 else 0) + m)⟩ = if neg then -(m : Int) else m := by
  have hbits : (UInt64.ofNat ((if neg then 2 ^ 63 else 0) + m)).toNat =
      (if neg then 2 ^ 63 else 0) + m := by
    rw [UInt64.toNat_ofNat']
    refine Nat.mod_eq_of_lt ?_
    split <;> omega
  have hneg : isNegative ⟨UInt64.ofNat ((if neg then 2 ^ 63 else 0) + m)⟩ = neg := by
    rw [Bool.eq_iff_iff, isNegative_iff, hbits]
    cases neg
    · simp; omega
    · simp
  rw [rank, hneg, toNat_abs_bits, hbits]
  cases neg <;> simp <;> omega

end Binary64

namespace Decimal

variable {a b : Nat} {m n : Int}

theorem pow2_eq (k : Nat) : pow2 k = 2 ^ k := rfl

theorem roundEven_one (a : Nat) : roundEven a 1 = a := by
  simp [roundEven, Nat.mod_one]

/-- The bits of the number that is the natural number `a`: the place of its first bit, and then the
others from the left. -/
def normalBits (a : Nat) : Nat := if a = 0 then 0 else (a.log2 + 1022) * 2 ^ 52 + a * 2 ^ (52 - a.log2)

theorem shifted_bounds (ha : a ≠ 0) (hlt : a < 2 ^ 53) :
    2 ^ 52 ≤ a * 2 ^ (52 - a.log2) ∧ a * 2 ^ (52 - a.log2) < 2 ^ 53 := by
  have hlog : a.log2 ≤ 52 := Nat.lt_succ_iff.1 ((Nat.log2_lt ha).2 hlt)
  have hle : 2 ^ a.log2 ≤ a := (Nat.le_log2 ha).1 le_rfl
  have hgt : a < 2 ^ (a.log2 + 1) := (Nat.log2_lt ha).1 (Nat.lt_succ_self _)
  constructor
  · calc 2 ^ 52 = 2 ^ a.log2 * 2 ^ (52 - a.log2) := by rw [← Nat.pow_add]; congr 1; omega
      _ ≤ _ := Nat.mul_le_mul_right _ hle
  · calc a * 2 ^ (52 - a.log2) < 2 ^ (a.log2 + 1) * 2 ^ (52 - a.log2) :=
        Nat.mul_lt_mul_of_pos_right hgt (Nat.two_pow_pos _)
      _ = 2 ^ 53 := by rw [← Nat.pow_add]; congr 1; omega

theorem normalBits_lt (hlt : a < 2 ^ 53) : normalBits a < 2 ^ 63 := by
  unfold normalBits
  split
  · exact Nat.two_pow_pos _
  case isFalse ha =>
    have hlog : a.log2 ≤ 52 := Nat.lt_succ_iff.1 ((Nat.log2_lt ha).2 hlt)
    have := (shifted_bounds ha hlt).2
    omega

theorem normalBits_inj (ha : a < 2 ^ 53) (hb : b < 2 ^ 53) (h : normalBits a = normalBits b) : a = b := by
  unfold normalBits at h
  split at h <;> split at h
  case isTrue.isTrue ha0 hb0 => rw [ha0, hb0]
  case isTrue.isFalse hb0 => have := (shifted_bounds hb0 hb).1; omega
  case isFalse.isTrue ha0 _ => have := (shifted_bounds ha0 ha).1; omega
  case isFalse.isFalse ha0 hb0 =>
    have hlow := shifted_bounds ha0 ha
    have hlow' := shifted_bounds hb0 hb
    have hlog : a.log2 = b.log2 := by omega
    rw [hlog] at h
    exact Nat.eq_of_mul_eq_mul_right (Nat.two_pow_pos _) (Nat.add_left_cancel h)

theorem gridExponent_one (ha : a ≠ 0) (hlt : a < 2 ^ 53) :
    gridExponent a 1 = (a.log2 : Int) - 52 := by
  have hlog : a.log2 ≤ 52 := Nat.lt_succ_iff.1 ((Nat.log2_lt ha).2 hlt)
  have hshift := (shifted_bounds ha hlt).1
  have hone : Nat.log2 1 = 0 := by decide
  have hwide : ¬(if 0 ≤ (a.log2 : Int) - (0 : Nat) - 52
      then a < 1 * pow2 (((a.log2 : Int) - (0 : Nat) - 52).toNat + 52)
      else a * pow2 (-((a.log2 : Int) - (0 : Nat) - 52)).toNat < 1 * pow2 52) := by
    split
    case isTrue h =>
      have h52 : a.log2 = 52 := by omega
      rw [h52] at hshift ⊢
      simpa [pow2] using hshift
    case isFalse h =>
      have hsub : (-((a.log2 : Int) - (0 : Nat) - 52)).toNat = 52 - a.log2 := by omega
      rw [hsub, one_mul, Nat.not_lt]
      exact hshift
  rw [gridExponent, hone, if_neg hwide]
  omega

theorem nearest_one (neg : Bool) (hlt : a < 2 ^ 53) :
    nearest neg a 1 = ⟨UInt64.ofNat ((if neg then 2 ^ 63 else 0) + normalBits a)⟩ := by
  by_cases ha : a = 0
  · rw [ha]
    cases neg <;> rfl
  have hlog : a.log2 ≤ 52 := Nat.lt_succ_iff.1 ((Nat.log2_lt ha).2 hlt)
  obtain ⟨hlow, hhigh⟩ := shifted_bounds ha hlt
  have hcoeff : (if 0 ≤ (a.log2 : Int) - 52 then roundEven a (1 * pow2 ((a.log2 : Int) - 52).toNat)
      else roundEven (a * pow2 (-((a.log2 : Int) - 52)).toNat) 1) = a * 2 ^ (52 - a.log2) := by
    split
    case isTrue h =>
      have h52 : a.log2 = 52 := by omega
      simp [h52, pow2, roundEven_one]
    case isFalse h =>
      have hsub : (-((a.log2 : Int) - 52)).toNat = 52 - a.log2 := by omega
      rw [hsub, roundEven_one]
      rfl
  have hfull : ¬a * 2 ^ (52 - a.log2) < pow2 52 := Nat.not_lt.2 hlow
  have hfield : ((a.log2 : Int) - 52 + 1075).toNat = a.log2 + 1023 := by omega
  have hbits : min ((a.log2 + 1023) * 2 ^ 52 + (a * 2 ^ (52 - a.log2) - 2 ^ 52)) (2047 * 2 ^ 52) =
      normalBits a := by
    rw [normalBits, if_neg ha]
    omega
  simp only [nearest, gridExponent_one ha hlt, hcoeff, hfield, beq_iff_eq, ha, if_false]
  rw [if_neg hfull]
  simp only [pow2_eq, hbits]

theorem rank_ofInt (h : n.natAbs < 2 ^ 53) :
    (ofInt n).rank = if n < 0 then -(normalBits n.natAbs : Int) else normalBits n.natAbs := by
  rw [ofInt, nearest_one _ h, Binary64.rank_of_bits (normalBits_lt h)]
  simp only [decide_eq_true_eq]

theorem rank_ofInt_inj (hm : m.natAbs < 2 ^ 53) (hn : n.natAbs < 2 ^ 53)
    (h : (ofInt m).rank = (ofInt n).rank) : m = n := by
  rw [rank_ofInt hm, rank_ofInt hn] at h
  have hinj := normalBits_inj hm hn
  have hzero : ∀ {a : Nat}, a < 2 ^ 53 → normalBits a = 0 → a = 0 :=
    fun ha h0 => normalBits_inj ha (Nat.two_pow_pos _) h0
  have hm0 := hzero hm
  have hn0 := hzero hn
  split at h <;> split at h <;> omega

end Decimal

/-- Integers of at most 53 bits, and all floating-point numbers. -/
def Numbers.exact : Numbers := ⟨fun n => n.toInt.natAbs < 2 ^ 53, fun _ => True⟩

theorem Numbers.exact_apart : exact.Apart := by
  intro m n x hm hn _ h h'
  have hrank : (Decimal.ofInt m.toInt).rank = (Decimal.ofInt n.toInt).rank := by
    simp only [Binary64.equals, Bool.and_eq_true, beq_iff_eq] at h h'
    rw [h.2, h'.2]
  exact Int64.toInt_inj.1 (Decimal.rank_ofInt_inj hm hn hrank)

end StreamLang
