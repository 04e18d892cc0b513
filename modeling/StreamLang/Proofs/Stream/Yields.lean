import Mathlib.Data.List.Forall2
import StreamLang.Proofs.Delivers
import StreamLang.Stream.Cursor

/-! The elements of a stream when its whole sequence is built before each stage. Nothing here pulls:
a callback is asked about every element, and a stage turns one list into the next. -/

namespace StreamLang

variable {σ : Type}

/-- Asked about an element in a state of the class `ok`, the callback answers with a good value. -/
def Host.Answers (host : Host σ) (ok : σ → Prop) (f v : Value) (good : Value → Prop) : Prop :=
  ∀ s, ok s → ∃ w s', host f [v] s = .ok w s' ∧ good w ∧ ok s'

namespace Value

/-- The value is a list or a set of these items. -/
def HasItems (us : List Value) (w : Value) : Prop := w = .list us ∨ w = .set us

/-- The value is a stream of this kind, whatever its identity. -/
def HasPipeline (p : Pipeline) (w : Value) : Prop := ∃ id, w = .stream id p

end Value

theorem InnerCursor.ofValue_of_hasItems {us : List Value} (t : Option String) {w : Value}
    (hw : w.HasItems us) : ofValue t w = .ok (.items us) := by
  rcases hw with rfl | rfl <;> rfl

/-- A number comes before the end of a range, in the direction of its step. -/
def Source.Before (stop step n : Int) : Prop := if 0 < step then n < stop else stop < n

inductive Source.Materialises (host : Host σ) (ok : σ → Prop) : Source → List Value → Prop
  | list (vs : List Value) : Materialises host ok (.list vs) vs
  | range {start stop step : Int64} (n : Nat) (hstep : step ≠ 0)
      (inside : ∀ k < n, Before stop.toInt step.toInt (start.toInt + k * step.toInt))
      (outside : ¬ Before stop.toInt step.toInt (start.toInt + n * step.toInt)) :
      Materialises host ok (.range start stop step)
        ((List.range n).map fun (k : Nat) => .int (Int64.ofInt (start.toInt + k * step.toInt)))
  | generate {count : Int64} {g : Value} {vs : List Value}
      (made : List.Forall₂ (fun (i : Nat) v => host.Answers ok g (.int (Int64.ofNat i)) (· = v))
        (List.range count.toInt.toNat) vs) :
      Materialises host ok (.generate count g) vs
  | empty : Materialises host ok .empty []

mutual

inductive Pipeline.Materialises (host : Host σ) (ok : σ → Prop) : Pipeline → List Value → Prop
  | mk {source : Source} {stages : List Stage} {us vs : List Value} :
      source.Materialises host ok us → Stage.TurnAll host ok stages us vs →
      Pipeline.Materialises host ok ⟨source, stages⟩ vs

/-- The stages turn the first list into the last, one after the other. -/
inductive Stage.TurnAll (host : Host σ) (ok : σ → Prop) :
    List Stage → List Value → List Value → Prop
  | nil (vs : List Value) : Stage.TurnAll host ok [] vs vs
  | cons {stage : Stage} {rest : List Stage} {us vs ws : List Value} :
      Stage.Turns host ok stage us vs → Stage.TurnAll host ok rest vs ws →
      Stage.TurnAll host ok (stage :: rest) us ws

inductive Stage.Turns (host : Host σ) (ok : σ → Prop) : Stage → List Value → List Value → Prop
  | map {f : Value} {vs ws : List Value} :
      List.Forall₂ (fun v w => host.Answers ok f v (· = w)) vs ws → Stage.Turns host ok (.map f) vs ws
  | filter {f : Value} {vs : List Value} (keep : Value → Bool) :
      (∀ v ∈ vs, host.Answers ok f v (· = .bool (keep v))) →
      Stage.Turns host ok (.filter f) vs (vs.filter keep)
  | flatMapNil {f : Value} : Stage.Turns host ok (.flatMap f) [] []
  | flatMapItems {f v : Value} {us vs ws : List Value} :
      host.Answers ok f v (Value.HasItems us) → Stage.Turns host ok (.flatMap f) vs ws →
      Stage.Turns host ok (.flatMap f) (v :: vs) (us ++ ws)
  | flatMapStream {f v : Value} {p : Pipeline} {us vs ws : List Value} :
      host.Answers ok f v (Value.HasPipeline p) → Pipeline.Materialises host ok p us →
      Stage.Turns host ok (.flatMap f) vs ws → Stage.Turns host ok (.flatMap f) (v :: vs) (us ++ ws)
  | take (n : Nat) (vs : List Value) : Stage.Turns host ok (.take n) vs (vs.take n)
  | skip (n : Nat) (vs : List Value) : Stage.Turns host ok (.skip n) vs (vs.drop n)

end

/-- The source ends, and its generator answers about each index there is. -/
def Source.Total (host : Host σ) (ok : σ → Prop) : Source → Prop
  | .list _ => True
  | .range _ _ step => step ≠ 0
  | .generate count g => ∀ i < count.toInt.toNat,
      ∃ w, host.Answers ok g (.int (Int64.ofNat i)) (· = w)
  | .infinite _ => False
  | .empty => True

mutual

/-- A finite source and stages whose callbacks are total functions of the elements that come to
them. -/
inductive Pipeline.Total (host : Host σ) (ok : σ → Prop) : Pipeline → Prop
  | mk {source : Source} {stages : List Stage} :
      source.Total host ok →
      (∀ us, source.Materialises host ok us → Stage.TotalAll host ok stages us) →
      Pipeline.Total host ok ⟨source, stages⟩

/-- Each stage is total on what the stages before it make of the list. -/
inductive Stage.TotalAll (host : Host σ) (ok : σ → Prop) : List Stage → List Value → Prop
  | nil (vs : List Value) : Stage.TotalAll host ok [] vs
  | cons {stage : Stage} {rest : List Stage} {us : List Value} :
      Stage.Total host ok stage us →
      (∀ vs, Stage.Turns host ok stage us vs → Stage.TotalAll host ok rest vs) →
      Stage.TotalAll host ok (stage :: rest) us

inductive Stage.Total (host : Host σ) (ok : σ → Prop) : Stage → List Value → Prop
  | map {f : Value} {vs : List Value} :
      (∀ v ∈ vs, ∃ w, host.Answers ok f v (· = w)) → Stage.Total host ok (.map f) vs
  | filter {f : Value} {vs : List Value} :
      (∀ v ∈ vs, ∃ b, host.Answers ok f v (· = .bool b)) → Stage.Total host ok (.filter f) vs
  | flatMap {f : Value} {vs : List Value} :
      (∀ v ∈ vs, Stage.Spreads host ok f v) → Stage.Total host ok (.flatMap f) vs
  | take (n : Nat) (vs : List Value) : Stage.Total host ok (.take n) vs
  | skip (n : Nat) (vs : List Value) : Stage.Total host ok (.skip n) vs

/-- A callback of `flat_map` gives items or again such a stream, nested to a finite depth. -/
inductive Stage.Spreads (host : Host σ) (ok : σ → Prop) : Value → Value → Prop
  | items {f v : Value} {us : List Value} :
      host.Answers ok f v (Value.HasItems us) → Stage.Spreads host ok f v
  | stream {f v : Value} {p : Pipeline} :
      host.Answers ok f v (Value.HasPipeline p) → Pipeline.Total host ok p → Stage.Spreads host ok f v

end

end StreamLang

/-! What a traversal yields when it is pulled until the end. A stage in front of a traversal works on
one element at a time, with a count or a parked inner traversal as its only memory; it yields what
the stage makes of the whole sequence behind it. -/

namespace StreamLang

open Eval (Delivers)

variable {σ : Type} {host : Host σ} {ok : σ → Prop}

theorem Host.Answers.bind {β : Type} {f v : Value} {good : Value → Prop}
    {k : Nat → Value → Eval σ β} {b : β} (h : host.Answers ok f v good) (k' : Nat → Eval σ β)
    (hk : ∀ fuel w, good w → k fuel w = k' fuel) (hb : Delivers ok k' b) :
    Delivers ok (fun fuel => host f [v] >>= k fuel) b := by
  obtain ⟨n, hn⟩ := hb
  refine ⟨n, fun fuel hle s hs => ?_⟩
  obtain ⟨w, s₁, he, hw, hs₁⟩ := h s hs
  obtain ⟨s₂, hs₂, h₂⟩ := hn fuel hle s₁ hs₁
  exact ⟨s₂, hs₂, (Eval.bind_of_ok he).trans (by rw [hk fuel w hw, h₂])⟩

theorem Host.Answers.delivers {f v w : Value} (h : host.Answers ok f v (· = w)) :
    Delivers ok (fun _ => host f [v]) w := by
  refine ⟨0, fun _ _ s hs => ?_⟩
  obtain ⟨_, s', he, rfl, hs'⟩ := h s hs
  exact ⟨s', hs', he⟩

namespace Cursor

/-- The next pull gives `r`. -/
def Pulls (host : Host σ) (ok : σ → Prop) (c : Cursor) (r : Option Value × Cursor) : Prop :=
  Delivers ok (fun fuel => c.pull host fuel) r

/-- Pulling gives these elements and then nothing. What a further pull gives is left open. -/
inductive Yields (host : Host σ) (ok : σ → Prop) : Cursor → List Value → Prop
  | done {c c' : Cursor} : c.Pulls host ok (none, c') → Yields host ok c []
  | next {c c' : Cursor} {v : Value} {vs : List Value} :
      c.Pulls host ok (some v, c') → Yields host ok c' vs → Yields host ok c (v :: vs)

/-- A traversal that turns into another one before it gives anything yields the same. -/
theorem Yields.retry {c d : Cursor} {vs : List Value} (h : d.Yields host ok vs)
    (hcd : ∀ r, d.Pulls host ok r → c.Pulls host ok r) : c.Yields host ok vs := by
  cases h with
  | done h => exact .done (hcd _ h)
  | next h rest => exact .next (hcd _ h) rest

/-! A pull of a traversal with one more stage in front unfolds by computation to a pull of the
traversal behind it, followed by the work of the stage. -/

section Pull

variable {c c' : Cursor} {v : Value} {r : Option Value × Cursor}

theorem Pulls.map_none {f : Value} (h : c.Pulls host ok (none, c')) :
    (c.push (.map f)).Pulls host ok (none, c'.push (.map f)) := by
  obtain ⟨source, before⟩ := c
  apply Delivers.step
  exact h.bind (.pure _)

theorem Pulls.map_some {f w : Value} (h : c.Pulls host ok (some v, c'))
    (hw : host.Answers ok f v (· = w)) :
    (c.push (.map f)).Pulls host ok (some w, c'.push (.map f)) := by
  obtain ⟨source, before⟩ := c
  apply Delivers.step
  refine h.bind ?_
  exact hw.delivers.bind (.pure _)

theorem Pulls.filter_none {f : Value} (h : c.Pulls host ok (none, c')) :
    (c.push (.filter f)).Pulls host ok (none, c'.push (.filter f)) := by
  obtain ⟨source, before⟩ := c
  apply Delivers.step
  exact h.bind (.pure _)

theorem Pulls.filter_kept {f : Value} (h : c.Pulls host ok (some v, c'))
    (hf : host.Answers ok f v (· = .bool true)) :
    (c.push (.filter f)).Pulls host ok (some v, c'.push (.filter f)) := by
  obtain ⟨source, before⟩ := c
  apply Delivers.step
  refine h.bind ?_
  exact hf.delivers.bind (.pure _)

theorem Pulls.filter_dropped {f : Value} (h : c.Pulls host ok (some v, c'))
    (hf : host.Answers ok f v (· = .bool false))
    (hr : (c'.push (.filter f)).Pulls host ok r) : (c.push (.filter f)).Pulls host ok r := by
  obtain ⟨source, before⟩ := c
  apply Delivers.step
  refine h.bind ?_
  exact hf.delivers.bind hr

theorem Pulls.take_zero : (c.push (.take 0)).Pulls host ok (none, c.push (.take 0)) := by
  apply Delivers.step
  exact .pure _

theorem Pulls.take_succ {n : Nat} {v? : Option Value} (h : c.Pulls host ok (v?, c')) :
    (c.push (.take (n + 1))).Pulls host ok (v?, c'.push (.take n)) := by
  obtain ⟨source, before⟩ := c
  apply Delivers.step
  exact h.bind (.pure _)

theorem Pulls.skip_zero {v? : Option Value} (h : c.Pulls host ok (v?, c')) :
    (c.push (.skip 0)).Pulls host ok (v?, c'.push (.skip 0)) := by
  obtain ⟨source, before⟩ := c
  apply Delivers.step
  exact h.bind (.pure _)

theorem Pulls.skip_none {n : Nat} (h : c.Pulls host ok (none, c')) :
    (c.push (.skip (n + 1))).Pulls host ok (none, c'.push (.skip 0)) := by
  obtain ⟨source, before⟩ := c
  apply Delivers.step
  exact h.bind (.pure _)

theorem Pulls.skip_some {n : Nat} (h : c.Pulls host ok (some v, c'))
    (hr : (c'.push (.skip n)).Pulls host ok r) : (c.push (.skip (n + 1))).Pulls host ok r := by
  obtain ⟨source, before⟩ := c
  apply Delivers.step
  refine h.bind ?_
  exact hr

theorem Pulls.flatMap_none {f : Value} {t : Option String} (h : c.Pulls host ok (none, c')) :
    (c.push (.flatMap f none t)).Pulls host ok (none, c'.push (.flatMap f none t)) := by
  obtain ⟨source, before⟩ := c
  apply Delivers.step
  exact h.bind (.pure _)

/-- The callback opens an inner traversal, and the stage goes on with that. -/
theorem Pulls.flatMap_some {f : Value} {t : Option String} {inner : InnerCursor}
    {good : Value → Prop} (h : c.Pulls host ok (some v, c')) (hf : host.Answers ok f v good)
    (hin : ∀ w, good w → InnerCursor.ofValue t w = .ok inner)
    (hr : (c'.push (.flatMap f (some inner) t)).Pulls host ok r) :
    (c.push (.flatMap f none t)).Pulls host ok r := by
  obtain ⟨source, before⟩ := c
  apply Delivers.step
  refine h.bind ?_
  exact hf.bind _ (fun fuel w hw => by rw [hin w hw]; rfl) hr

theorem Pulls.flatMap_items_nil {f : Value} {t : Option String}
    (hr : (c.push (.flatMap f none t)).Pulls host ok r) :
    (c.push (.flatMap f (some (.items [])) t)).Pulls host ok r := by
  apply Delivers.step
  exact hr

theorem Pulls.flatMap_items_cons {f : Value} {t : Option String} {rest : List Value} :
    (c.push (.flatMap f (some (.items (v :: rest))) t)).Pulls host ok
      (some v, c.push (.flatMap f (some (.items rest)) t)) := by
  apply Delivers.step
  exact .pure _

theorem Pulls.flatMap_stream_some {f : Value} {t : Option String} {inner inner' : Cursor}
    (h : inner.Pulls host ok (some v, inner')) :
    (c.push (.flatMap f (some (.stream inner)) t)).Pulls host ok
      (some v, c.push (.flatMap f (some (.stream inner')) t)) := by
  apply Delivers.step
  refine h.bind ?_
  exact .pure _

theorem Pulls.flatMap_stream_none {f : Value} {t : Option String} {inner inner' : Cursor}
    (h : inner.Pulls host ok (none, inner'))
    (hr : (c.push (.flatMap f none t)).Pulls host ok r) :
    (c.push (.flatMap f (some (.stream inner)) t)).Pulls host ok r := by
  apply Delivers.step
  refine h.bind ?_
  exact hr

end Pull

section Stages

variable {c : Cursor} {us vs ws : List Value}

theorem Yields.map {f : Value} (h : c.Yields host ok vs)
    (hf : List.Forall₂ (fun v w => host.Answers ok f v (· = w)) vs ws) :
    (c.push (.map f)).Yields host ok ws := by
  induction h generalizing ws with
  | done h =>
    cases hf
    exact .done h.map_none
  | next h _ ih =>
    cases hf with
    | cons hw hrest => exact .next (h.map_some hw) (ih hrest)

theorem Yields.filter {f : Value} (keep : Value → Bool) (h : c.Yields host ok vs)
    (hf : ∀ v ∈ vs, host.Answers ok f v (· = .bool (keep v))) :
    (c.push (.filter f)).Yields host ok (vs.filter keep) := by
  induction h with
  | done h => exact .done h.filter_none
  | @next c c' v vs h _ ih =>
    have hv := hf v (by simp)
    have hrest := ih fun w hw => hf w (by simp [hw])
    cases hk : keep v with
    | true =>
      rw [hk] at hv
      rw [List.filter_cons_of_pos hk]
      exact .next (h.filter_kept hv) hrest
    | false =>
      rw [hk] at hv
      rw [List.filter_cons_of_neg (by simp [hk])]
      exact hrest.retry fun r hr => h.filter_dropped hv hr

theorem Yields.take (n : Nat) (h : c.Yields host ok vs) :
    (c.push (.take n)).Yields host ok (vs.take n) := by
  induction n generalizing c vs with
  | zero => exact .done Pulls.take_zero
  | succ n ih =>
    cases h with
    | done h => exact .done h.take_succ
    | next h rest => exact .next h.take_succ (ih rest)

theorem Yields.skip_zero (h : c.Yields host ok vs) : (c.push (.skip 0)).Yields host ok vs := by
  induction h with
  | done h => exact .done h.skip_zero
  | next h _ ih => exact .next h.skip_zero ih

theorem Yields.skip (n : Nat) (h : c.Yields host ok vs) :
    (c.push (.skip n)).Yields host ok (vs.drop n) := by
  induction n generalizing c vs with
  | zero => exact h.skip_zero
  | succ n ih =>
    cases h with
    | done h => exact .done h.skip_none
    | next h rest => exact (ih rest).retry fun r hr => h.skip_some hr

theorem Yields.flatMap_items {f : Value} {t : Option String} (us : List Value)
    (h : (c.push (.flatMap f none t)).Yields host ok ws) :
    (c.push (.flatMap f (some (.items us)) t)).Yields host ok (us ++ ws) := by
  induction us with
  | nil => exact h.retry fun r hr => hr.flatMap_items_nil
  | cons u us ih => exact .next Pulls.flatMap_items_cons ih

/-- The inner traversal is pulled to its end before the stage asks for the next element. -/
theorem Yields.flatMap_stream {f : Value} {t : Option String} {inner : Cursor}
    (hin : inner.Yields host ok us) (h : (c.push (.flatMap f none t)).Yields host ok ws) :
    (c.push (.flatMap f (some (.stream inner)) t)).Yields host ok (us ++ ws) := by
  induction hin with
  | done hi => exact h.retry fun r hr => hi.flatMap_stream_none hr
  | next hi _ ih => exact .next hi.flatMap_stream_some ih

end Stages

end Cursor

end StreamLang
