import StreamLang.Proofs.Bound.Meaning
import StreamLang.Proofs.Stream.Fusion

/-! A range of numbers is exact up to the limits of 64 bits: its elements are the sums of the start and
the multiples of the step as long as these come before the end, and at a limit nothing is repeated or
left out. -/

namespace StreamLang

open Eval (Arrives)

namespace Source

section Before

variable {start stop step : Int}

instance (n : Int) : Decidable (Before stop step n) :=
  inferInstanceAs (Decidable (if 0 < step then n < stop else stop < n))

/-- Whoever stands before the end has come there over numbers before the end. -/
theorem Before.of_le {j k : Nat} (h : Before stop step (start + k * step)) (hjk : j ≤ k) :
    Before stop step (start + j * step) := by
  unfold Before at h ⊢
  have hcast : (j : Int) ≤ k := Int.ofNat_le.2 hjk
  split at h
  · rename_i hpos
    have hmul : (j : Int) * step ≤ k * step := Int.mul_le_mul_of_nonneg_right hcast (by omega)
    rw [if_pos hpos]
    omega
  · rename_i hneg
    have hmul : (k : Int) * step ≤ j * step := Int.mul_le_mul_of_nonpos_right hcast (by omega)
    rw [if_neg hneg]
    omega

/-- In steps of one there are as many numbers before the end as the two ends are apart. -/
theorem before_one_iff (k : Int) : Before stop 1 (start + k * 1) ↔ k < stop - start := by
  unfold Before
  rw [if_pos (by decide)]
  omega

end Before

/-- The list has in the place `k` the mathematical integer `start + k * step`, if this comes before
the end in the direction of the step, and ends where it does not. -/
def Lists (start stop step : Int64) (ns : List Int64) : Prop :=
  ∀ k : Nat, ns[k]?.map Int64.toInt =
    if Before stop.toInt step.toInt (start.toInt + k * step.toInt) then
      some (start.toInt + k * step.toInt) else none

variable {start stop step : Int64} {n : Nat}

/-- None of the sums before the end is beyond 64 bits. -/
theorem lists_range (inside : ∀ k < n, Before stop.toInt step.toInt (start.toInt + k * step.toInt))
    (outside : ¬ Before stop.toInt step.toInt (start.toInt + n * step.toInt)) :
    Lists start stop step
      ((List.range n).map fun (k : Nat) => Int64.ofInt (start.toInt + k * step.toInt)) := by
  intro k
  rw [List.getElem?_map]
  by_cases hk : k < n
  · have hbefore := inside k hk
    have hclamp := hbefore.clamp_eq
    unfold clamp at hclamp
    rw [List.getElem?_range hk, if_pos hbefore, Option.map_some, Option.map_some,
      Int64.toInt_ofInt_of_le (by omega) (by omega)]
  · have hbehind : ¬ Before stop.toInt step.toInt (start.toInt + k * step.toInt) :=
      fun h => outside (h.of_le (by omega))
    rw [List.getElem?_eq_none (by simpa using hk), if_neg hbehind, Option.map_none, Option.map_none]

/-- The numbers of a range are determined by its ends and its step. -/
theorem Lists.unique {ms ns : List Int64} (hm : Lists start stop step ms)
    (hn : Lists start stop step ns) : ms = ns := by
  refine List.ext_getElem? fun k => ?_
  have h := (hm k).trans (hn k).symm
  exact Option.map_injective (fun _ _ => Int64.toInt_inj.1) h

/-- The builtin on lists counts in steps of one. -/
theorem exists_lists_of_one (start stop : Int64) :
    ∃ ns, Lists start stop 1 ns ∧ Value.range start stop = ns.map .int := by
  refine ⟨_, lists_range (n := (stop.toInt - start.toInt).toNat) ?_ ?_, ?_⟩
  · intro k hk
    rw [Int64.toInt_one, before_one_iff]
    omega
  · rw [Int64.toInt_one, before_one_iff]
    omega
  · simp [Value.range]

end Source

/-- A range of 64-bit numbers comes to an end, without a failure, a call or a change of the state. It
gives the mathematical integers from the start on in equal steps that come before the end, in their
order and each once. In steps of one this is the list of the builtin `range`. -/
theorem range_drains_to_its_numbers {σ : Type} (host : Host σ) (start stop step : Int64)
    (hstep : step ≠ 0) :
    ∃ ns, Source.Lists start stop step ns ∧
      (∀ terminal s, Arrives
        (fun fuel => Pipeline.drain host fuel terminal ⟨.range start stop step, []⟩) s
        (.ok (ns.map .int) s)) ∧
      (step = 1 → CollectionOp.apply .range [.int start, .int stop] =
        .ok (.list (ns.map .int))) := by
  have hout := Source.exists_outside start.toInt stop.toInt step.toInt fun h0 =>
    hstep (Int64.toInt_inj.1 (by simpa using h0))
  have inside : ∀ k < Nat.find hout,
      Source.Before stop.toInt step.toInt (start.toInt + k * step.toInt) :=
    fun k hk => not_not.1 (Nat.find_min hout hk)
  have outside := Nat.find_spec hout
  have hlists := Source.lists_range inside outside
  refine ⟨_, hlists, fun terminal s => ?_, ?_⟩
  · have hrange : Pipeline.Materialises host (· = s) ⟨.range start stop step, []⟩ _ :=
      .mk (.range (Nat.find hout) hstep inside outside) (.nil _)
    obtain ⟨n, hn⟩ := hrange.drain terminal
    refine ⟨n, fun fuel hle => ?_⟩
    obtain ⟨_, rfl, hdrain⟩ := hn fuel hle s rfl
    rw [hdrain, List.map_map]
    rfl
  · rintro rfl
    obtain ⟨ms, hms, heager⟩ := Source.exists_lists_of_one start stop
    rw [hlists.unique hms, ← heager]
    rfl

/-- The step behind the last of these numbers leads beyond 64 bits. -/
theorem three_wide_steps_drain :
    (9223372036854775807 : Int64) ≠ 0 ∧
    ∃ ns, Source.Lists (-9223372036854775808) 9223372036854775807 9223372036854775807 ns ∧
      (∀ terminal s, Arrives
        (fun fuel => Pipeline.drain (callWithin (γ := StockGateway) 4) fuel terminal
          ⟨.range (-9223372036854775808) 9223372036854775807 9223372036854775807, []⟩) s
        (.ok (ns.map .int) s)) ∧
      ((9223372036854775807 : Int64) = 1 →
        CollectionOp.apply .range [.int (-9223372036854775808), .int 9223372036854775807] =
          .ok (.list (ns.map .int))) :=
  ⟨by decide, range_drains_to_its_numbers _ _ _ _ (by decide)⟩

/-- They are the least number, minus one, and the last number but one. -/
example : Source.Lists (-9223372036854775808) 9223372036854775807 9223372036854775807
    [-9223372036854775808, -1, 9223372036854775806] :=
  Source.lists_range (n := 3) (by decide) (by decide)

end StreamLang
