import StreamLang.Proofs.Stream.Congruence

/-! A `take` at the end pulls no further than the elements it lets through. Draining a stream with a
trailing `take` is pulling the traversal of the stream itself so many times, whatever the source,
the stages, the host and the terminal are. -/

namespace StreamLang

open Eval (Below Grows Arrives Complete)

variable {σ : Type} {host : Host σ}

/-- What up to so many pulls give, from first to last. -/
def Cursor.firsts (host : Host σ) (fuel : Nat) : Nat → Cursor → Eval σ (List Value)
  | 0, _ => return []
  | n + 1, c => do
    let (v?, c) ← c.pull host fuel
    match v? with
    | none => return []
    | some v => return v :: (← firsts host fuel n c)

namespace Cursor

theorem firsts_grows (n : Nat) (c : Cursor) : Grows fun fuel => c.firsts host fuel n := by
  induction n generalizing c with
  | zero => exact .const _
  | succ n ih =>
    refine c.pull_grows.bind fun (v?, d) => ?_
    cases v? with
    | none => exact .const _
    | some v => exact (ih d).bind fun _ => .const _

/-- Collects the elements, the last one first. -/
abbrev gather (host : Host σ) (fuel : Nat) (c : Cursor) (seen : List Value) :
    Eval σ (List Value) :=
  c.fold host (fun vs v => return v :: vs) fuel seen

/-- The elements of so many pulls, the last one first, in front of those seen before. -/
abbrev gatherFirsts (host : Host σ) (fuel n : Nat) (c : Cursor) (seen : List Value) :
    Eval σ (List Value) :=
  c.firsts host fuel n >>= fun vs => return vs.reverse ++ seen

/-- Each element costs a turn of the loop, and each pull a step for the `take`. -/
theorem gather_take_succ (fuel n : Nat) (c : Cursor) (seen : List Value) :
    (c.push (.take (n + 1))).gather host (fuel + 2) seen = c.pull host fuel >>= fun p =>
      match p.1 with
      | none => pure seen
      | some v => (p.2.push (.take n)).gather host (fuel + 1) (v :: seen) := by
  obtain ⟨source, before⟩ := c
  rw [gather, fold, push, pull, bind_assoc]
  refine bind_congr fun p => ?_
  obtain ⟨v?, d⟩ := p
  cases v? <;> rfl

theorem gatherFirsts_succ (fuel n : Nat) (c : Cursor) (seen : List Value) :
    c.gatherFirsts host fuel (n + 1) seen = c.pull host fuel >>= fun p =>
      match p.1 with
      | none => pure seen
      | some v => p.2.gatherFirsts host fuel n (v :: seen) := by
  rw [gatherFirsts, firsts, bind_assoc]
  refine bind_congr fun p => ?_
  obtain ⟨v?, d⟩ := p
  cases v? with
  | none => rfl
  | some v =>
    simp only [bind_assoc, pure_bind, List.reverse_cons, List.append_assoc, List.singleton_append]

/-- Where the loop ends within its bound, the pulls by themselves have done so too. -/
theorem gather_take_below (fuel n : Nat) (c : Cursor) (seen : List Value) :
    ((c.push (.take n)).gather host fuel seen).Below (c.gatherFirsts host fuel n seen) := by
  induction n generalizing fuel c seen with
  | zero =>
    match fuel with
    | 0 | 1 => exact .exhausted _
    | fuel + 2 => exact .refl _
  | succ n ih =>
    match fuel with
    | 0 | 1 => exact .exhausted _
    | fuel + 2 =>
      rw [gather_take_succ, gatherFirsts_succ]
      refine .bind (c.pull_grows (by omega)) fun (v?, d) => ?_
      cases v? with
      | none => exact .refl _
      | some v =>
        have hmore : (d.firsts host (fuel + 1) n).Below (d.firsts host (fuel + 2) n) :=
          d.firsts_grows n (Nat.le_succ (fuel + 1))
        exact (ih (fuel + 1) d (v :: seen)).trans (.bind_left hmore _)

/-- Whatever the pulls come to within a bound, the loop comes to within some larger one. When a pull
runs out of its bound, this is the one that leaves the same bound to that pull. -/
theorem exists_gather_take_eq (fuel n : Nat) (c : Cursor) (seen : List Value) (s : σ) :
    ∃ larger ≥ fuel + 2,
      (c.push (.take n)).gather host larger seen s = c.gatherFirsts host fuel n seen s := by
  induction n generalizing c seen s with
  | zero => exact ⟨fuel + 2, Nat.le_refl _, rfl⟩
  | succ n ih =>
    cases hpull : c.pull host fuel s with
    | error u s' =>
      refine ⟨fuel + 2, Nat.le_refl _, ?_⟩
      rw [gather_take_succ, gatherFirsts_succ, Eval.bind_of_error hpull, Eval.bind_of_error hpull]
    | ok p s' =>
      obtain ⟨v?, d⟩ := p
      cases v? with
      | none =>
        refine ⟨fuel + 2, Nat.le_refl _, ?_⟩
        rw [gather_take_succ, gatherFirsts_succ, Eval.bind_of_ok hpull, Eval.bind_of_ok hpull]
      | some v =>
        obtain ⟨larger, hle, heq⟩ := ih d (v :: seen) s'
        obtain ⟨k, rfl⟩ : ∃ k, larger = k + 1 := ⟨larger - 1, by omega⟩
        have hlater : c.pull host k s = .ok (some v, d) s' :=
          (c.pull_grows (by omega)).eq_of_complete hpull (Eval.complete_ok _ _)
        refine ⟨k + 2, by omega, ?_⟩
        rw [gather_take_succ, gatherFirsts_succ, Eval.bind_of_ok hlater, Eval.bind_of_ok hpull]
        exact heq

end Cursor

namespace Pipeline

/-- With a trailing `take` no stage before it knows of the terminal. -/
theorem drain_take (p : Pipeline) (n fuel : Nat) (terminal : String) :
    (p.withStage (.take n)).drain host fuel terminal =
      ((p.cursor none).push (.take n)).gather host fuel [] >>= fun vs => return vs.reverse := by
  have hbounded : (p.withStage (.take n)).isBounded = true := by
    simp [isBounded, withStage, Stage.isTake]
  rw [drain, boundedCursor, if_pos hbounded, cursor_withStage]
  rfl

theorem gatherFirsts_reverse (p : Pipeline) (n fuel : Nat) :
    (p.cursor none).gatherFirsts host fuel n [] >>= (fun vs => return vs.reverse) =
      (p.cursor none).firsts host fuel n := by
  simp only [Cursor.gatherFirsts, bind_assoc, pure_bind, List.append_nil, List.reverse_reverse,
    bind_pure]

theorem drain_take_below (p : Pipeline) (n fuel : Nat) (terminal : String) :
    ((p.withStage (.take n)).drain host fuel terminal).Below
      ((p.cursor none).firsts host fuel n) := by
  rw [drain_take, ← gatherFirsts_reverse]
  exact .bind_left (Cursor.gather_take_below fuel n _ []) _

theorem exists_drain_take_eq (host : Host σ) (p : Pipeline) (n fuel : Nat) (terminal : String)
    (s : σ) :
    ∃ larger ≥ fuel, (p.withStage (.take n)).drain host larger terminal s =
      (p.cursor none).firsts host fuel n s := by
  obtain ⟨larger, hle, heq⟩ := Cursor.exists_gather_take_eq fuel n (p.cursor none) [] s
  refine ⟨larger, by omega, ?_⟩
  rw [drain_take, ← gatherFirsts_reverse]
  exact Eval.bind_of_same heq _

/-- Draining the stream with a trailing `take` and pulling its own traversal so many times end in the same
way, one when the other does: with the same elements or the same failure, in the same state, and
after the same calls with the same results. Where they do not end, what the pulls have come to
within a bound the drain comes to as well. -/
theorem drain_take_eq_firsts (host : Host σ) (p : Pipeline) (n : Nat) (terminal : String) (s : σ) :
    (∀ r, Complete r →
      (Arrives (fun fuel => (p.withStage (.take n)).drain host.recorded fuel terminal) (s, []) r ↔
        Arrives (fun fuel => (p.cursor none).firsts host.recorded fuel n) (s, []) r)) ∧
    ∀ fuel, ∃ larger ≥ fuel,
      (p.withStage (.take n)).drain host.recorded larger terminal (s, []) =
        (p.cursor none).firsts host.recorded fuel n (s, []) := by
  refine ⟨fun r hr => ⟨?_, ?_⟩, fun fuel => exists_drain_take_eq _ p n fuel terminal (s, [])⟩
  · rintro ⟨m, hm⟩
    have hend := hm m (Nat.le_refl m)
    exact ((p.cursor none).firsts_grows n).arrives
      ((p.drain_take_below n m terminal).eq_of_complete hend hr) hr
  · rintro ⟨m, hm⟩
    obtain ⟨larger, hle, heq⟩ := exists_drain_take_eq host.recorded p n m terminal (s, [])
    exact ((p.withStage (.take n)).drain_grows terminal).arrives (heq.trans (hm m (Nat.le_refl m))) hr

end Pipeline

/-- Gives back what it is asked about, and counts the calls. -/
def echo : Host Nat := fun _ args n => .ok (args.headD .void) (n + 1)

/-- The numbers from zero on, each of which goes through one more call. -/
def echoed : Pipeline := ⟨.infinite .void, [.map .void]⟩

/-- Two elements of an endless stream cost four calls. -/
def twoEchoed : EStateM.Result Unwind (Nat × List (Host.Call Nat)) (List Value) :=
  .ok [.int 0, .int 1] (4, [⟨.void, [.int 1], .ok (.int 1) 4⟩, ⟨.void, [.int 1], .ok (.int 1) 3⟩,
    ⟨.void, [.int 0], .ok (.int 0) 2⟩, ⟨.void, [.int 0], .ok (.int 0) 1⟩])

theorem two_echoed_are_drained :
    Complete twoEchoed ∧
    Arrives (fun fuel => (echoed.withStage (.take 2)).drain echo.recorded fuel "collect") (0, [])
      twoEchoed := by
  have hcomplete : Complete twoEchoed := Eval.complete_ok _ _
  have hfirsts : Arrives (fun fuel => (echoed.cursor none).firsts echo.recorded fuel 2) (0, [])
      twoEchoed :=
    ((echoed.cursor none).firsts_grows 2).arrives (n := 2) rfl hcomplete
  exact ⟨hcomplete,
    ((Pipeline.drain_take_eq_firsts echo echoed 2 "collect" 0).1 twoEchoed hcomplete).2 hfirsts⟩

end StreamLang
