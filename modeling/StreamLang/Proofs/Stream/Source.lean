import Mathlib.Tactic.Ring
import StreamLang.Proofs.Stream.Yields

/-! A source yields its elements. The next number of a range stays inside 64 bits because it stops at
the limit of its direction, and a number at that limit is never before the end. -/

namespace StreamLang

open Eval (Delivers)

variable {σ : Type} {host : Host σ} {ok : σ → Prop}

namespace Cursor

theorem Pulls.of_source {source source' : SourceCursor} {v? : Option Value}
    (h : Delivers ok (fun _ => source.next host) (v?, source')) :
    Pulls host ok ⟨source, []⟩ (v?, ⟨source', []⟩) := by
  apply Delivers.step
  simp only [pull]
  exact h.bind (.pure _)

theorem yields_items (vs : List Value) : Yields host ok ⟨.items vs, []⟩ vs := by
  induction vs with
  | nil => exact .done (.of_source (.pure _))
  | cons v vs ih => exact .next (.of_source (.pure _)) ih

theorem yields_done : Yields host ok ⟨.done, []⟩ [] := .done (.of_source (.pure _))

end Cursor

/-- A number beyond 64 bits is replaced by the limit it passed. -/
def clamp (n : Int) : Int := max (-2 ^ 63) (min (2 ^ 63 - 1) n)

theorem SourceCursor.toInt_saturatingAdd (a b : Int64) :
    (saturatingAdd a b).toInt = clamp (a.toInt + b.toInt) := by
  unfold saturatingAdd clamp
  simp only [Int64.toInt_minValue, Int64.toInt_maxValue]
  split
  · simp only [Int64.toInt_minValue]; omega
  · split
    · simp only [Int64.toInt_maxValue]; omega
    · rw [Int64.toInt_ofInt_of_le (by omega) (by omega)]
      omega

namespace Source

/-- The test of a range cursor is the one on mathematical integers. -/
theorem before_iff (next stop step : Int64) :
    (if 0 < step then next < stop else stop < next) ↔
      Before stop.toInt step.toInt next.toInt := by
  simp only [Before, Int64.lt_iff_toInt_lt, Int64.toInt_zero]

/-- Along a range only the limit in its own direction can be passed. -/
theorem before_clamp_iff {start stop step : Int64} (k : Nat) :
    Before stop.toInt step.toInt (clamp (start.toInt + k * step.toInt)) ↔
      Before stop.toInt step.toInt (start.toInt + k * step.toInt) := by
  have hstart := start.le_toInt
  have hstart' := start.toInt_lt
  have hstop := stop.le_toInt
  have hstop' := stop.toInt_lt
  unfold Before clamp
  split
  · rename_i hpos
    have hk : 0 ≤ (k : Int) * step.toInt := Int.mul_nonneg (by omega) (by omega)
    omega
  · rename_i hneg
    have hk : (k : Int) * step.toInt ≤ 0 := Int.mul_nonpos_of_nonneg_of_nonpos (by omega) (by omega)
    omega

/-- A number before the end lies between the two ends, and so inside 64 bits. -/
theorem Before.clamp_eq {start stop step : Int64} {k : Nat}
    (h : Before stop.toInt step.toInt (start.toInt + k * step.toInt)) :
    clamp (start.toInt + k * step.toInt) = start.toInt + k * step.toInt := by
  have hstart := start.le_toInt
  have hstart' := start.toInt_lt
  have hstop := stop.le_toInt
  have hstop' := stop.toInt_lt
  unfold Before at h
  unfold clamp
  split at h
  · rename_i hpos
    have hk : 0 ≤ (k : Int) * step.toInt := Int.mul_nonneg (by omega) (by omega)
    omega
  · rename_i hneg
    have hk : (k : Int) * step.toInt ≤ 0 := Int.mul_nonpos_of_nonneg_of_nonpos (by omega) (by omega)
    omega

end Source

namespace Cursor

open SourceCursor (toInt_saturatingAdd)

/-- The `m` numbers from the `k`-th on are still to come. -/
theorem yields_range_from {start stop step : Int64} (m k : Nat) (next : Int64)
    (hnext : next.toInt = clamp (start.toInt + k * step.toInt))
    (inside : ∀ j < m, Source.Before stop.toInt step.toInt (start.toInt + (k + j : Nat) * step.toInt))
    (outside : ¬ Source.Before stop.toInt step.toInt (start.toInt + (k + m : Nat) * step.toInt)) :
    Yields host ok ⟨.range next stop step, []⟩
      ((List.range' k m).map fun (j : Nat) => .int (Int64.ofInt (start.toInt + j * step.toInt))) := by
  induction m generalizing k next with
  | zero =>
    have hstop : ¬ (if 0 < step then next < stop else stop < next) := by
      rw [Source.before_iff, hnext, Source.before_clamp_iff]
      exact outside
    have hend : Delivers ok (fun _ => SourceCursor.next host (.range next stop step))
        (none, .range next stop step) := by
      simp only [SourceCursor.next, hstop]
      exact .pure _
    exact .done (.of_source hend)
  | succ m ih =>
    have hk : Source.Before stop.toInt step.toInt (start.toInt + k * step.toInt) :=
      inside 0 (by omega)
    have hgo : if 0 < step then next < stop else stop < next := by
      rw [Source.before_iff, hnext, Source.before_clamp_iff]
      exact hk
    have hval : next.toInt = start.toInt + k * step.toInt := by rw [hnext, hk.clamp_eq]
    have hsum : next.toInt + step.toInt = start.toInt + (k + 1 : Nat) * step.toInt := by
      rw [hval]; push_cast; ring
    have hrest := ih (k + 1) (SourceCursor.saturatingAdd next step)
      (by rw [toInt_saturatingAdd, hsum])
      (fun j hj => by
        have h := inside (j + 1) (by omega)
        rwa [show k + (j + 1) = k + 1 + j by omega] at h)
      (by rwa [show k + 1 + m = k + (m + 1) by omega])
    rw [List.range'_succ, List.map_cons, ← hval, Int64.ofInt_toInt]
    refine .next (.of_source ?_) hrest
    simp only [SourceCursor.next, hgo]
    exact .pure _

/-- The values for the numbers from `k` up to the count are still to come. -/
theorem yields_generate_from {count : Int64} {g : Value} {vs : List Value} (m k : Nat)
    (hk : k + m = count.toInt.toNat)
    (made : List.Forall₂ (fun (i : Nat) v => host.Answers ok g (.int (Int64.ofNat i)) (· = v))
      (List.range' k m) vs) :
    Yields host ok ⟨.generate (Int64.ofNat k) (some count) g, []⟩ vs := by
  have hcount := count.toInt_lt
  induction m generalizing k vs with
  | zero =>
    cases made
    have hle : count ≤ Int64.ofNat k := by
      rw [Int64.le_iff_toInt_le, Int64.toInt_ofNat_of_lt (by omega)]
      omega
    have hend : Delivers ok
        (fun _ => SourceCursor.next host (.generate (Int64.ofNat k) (some count) g))
        (none, .generate (Int64.ofNat k) (some count) g) := by
      simp only [SourceCursor.next, hle, Option.map_some, decide_true, Option.getD_some, if_true]
      exact .pure _
    exact .done (.of_source hend)
  | succ m ih =>
    rw [List.range'_succ] at made
    cases made with
    | cons hv hrest =>
      have hlt : ¬ count ≤ Int64.ofNat k := by
        rw [Int64.le_iff_toInt_le, Int64.toInt_ofNat_of_lt (by omega)]
        omega
      have hsucc : Int64.ofNat k + 1 = Int64.ofNat (k + 1) := by
        rw [Int64.ofNat_add]; rfl
      refine .next (.of_source ?_) (ih (k + 1) (by omega) hrest)
      simp only [SourceCursor.next, hlt, Option.map_some, decide_false, Option.getD_some,
        Bool.false_eq_true, if_false, hsucc]
      exact hv.delivers.bind (.pure _)

/-- A source yields its elements. -/
theorem yields_source {source : Source} {vs : List Value} (h : source.Materialises host ok vs) :
    Yields host ok ⟨.ofSource source, []⟩ vs := by
  cases h with
  | list vs => exact yields_items vs
  | @range start stop step n _ inside outside =>
    rw [List.range_eq_range']
    refine yields_range_from n 0 _ ?_ (by simpa using inside) (by simpa using outside)
    have hlo := start.le_toInt
    have hhi := start.toInt_lt
    simp only [clamp, Nat.cast_zero, zero_mul, add_zero]
    omega
  | @generate count g vs made =>
    rw [List.range_eq_range'] at made
    exact yields_generate_from _ 0 (by omega) made
  | empty => exact yields_done

end Cursor

end StreamLang
