import Mathlib.Data.List.Induction
import StreamLang.Proofs.Delivers
import StreamLang.Stream.Cursor

/-! A traversal with the terminals of its `flat_map` stages taken out does all that the traversal itself
does. A terminal only adds refusals. -/

namespace StreamLang

variable {σ : Type} {host : Host σ}

/-- The failure of an operation that meets a stream without a bound. -/
abbrev Unwind.refusal (terminal : String) : Unwind := .fail (.unboundedStream terminal) 0

/-- The second traversal is the first without its terminals. -/
inductive Cursor.Freed : Cursor → Cursor → Prop
  | source (source : SourceCursor) : Freed ⟨source, []⟩ ⟨source, []⟩
  | stage {source source' : SourceCursor} {before before' : List StageCursor} {stage : StageCursor} :
      (∀ f inner t, stage ≠ .flatMap f inner t) → Freed ⟨source, before⟩ ⟨source', before'⟩ →
      Freed ⟨source, stage :: before⟩ ⟨source', stage :: before'⟩
  | flatMap {source source' : SourceCursor} {before before' : List StageCursor} (f : Value)
      (rest : Option (List Value)) (t : Option String) : Freed ⟨source, before⟩ ⟨source', before'⟩ →
      Freed ⟨source, .flatMap f (rest.map .items) t :: before⟩
        ⟨source', .flatMap f (rest.map .items) none :: before'⟩
  | flatMapStream {source source' : SourceCursor} {before before' : List StageCursor} (f : Value)
      {inner inner' : Cursor} (t : Option String) : Freed inner inner' →
      Freed ⟨source, before⟩ ⟨source', before'⟩ →
      Freed ⟨source, .flatMap f (some (.stream inner)) t :: before⟩
        ⟨source', .flatMap f (some (.stream inner')) none :: before'⟩

/-- A stream is a source with stages put behind it one by one. -/
theorem Pipeline.inductionOn {P : Pipeline → Prop} (source : ∀ source, P (ofSource source))
    (stage : ∀ p stage, P p → P (p.withStage stage)) (p : Pipeline) : P p := by
  obtain ⟨src, stages⟩ := p
  induction stages using List.reverseRecOn with
  | nil => exact source src
  | append_singleton stages last ih => exact stage ⟨src, stages⟩ last ih

namespace Cursor

theorem freed_cursor (p : Pipeline) (t : Option String) : Freed (p.cursor t) (p.cursor none) := by
  induction p using Pipeline.inductionOn generalizing t with
  | source source => exact .source _
  | stage p stage ih =>
    rw [Pipeline.cursor_withStage, Pipeline.cursor_withStage]
    have hbefore := ih (if stage.isTake then none else t)
    cases stage with
    | map f | filter f | take n | skip n => exact .stage (by simp [StageCursor.ofStage]) hbefore
    | flatMap f => exact .flatMap f none t hbefore

/-- The second computation gives each element that the first gives, and in the same state. -/
def Follows (x y : Eval σ (Option Value × Cursor)) : Prop :=
  ∀ s v? d s', x s = .ok (v?, d) s' → ∃ d', y s = .ok (v?, d') s' ∧ Freed d d'

namespace Follows

theorem pure {d d' : Cursor} (v? : Option Value) (h : Freed d d') :
    Follows (Pure.pure (v?, d) : Eval σ _) (Pure.pure (v?, d')) := by
  rintro s _ _ _ ⟨⟩
  exact ⟨d', rfl, h⟩

theorem throw {u : Unwind} (y : Eval σ (Option Value × Cursor)) : Follows (MonadExcept.throw u) y := by
  rintro s _ _ _ ⟨⟩

theorem bind {α : Type} (x : Eval σ α) {k k' : α → Eval σ (Option Value × Cursor)}
    (h : ∀ a, Follows (k a) (k' a)) : Follows (x >>= k) (x >>= k') := by
  intro s v? d s' hx
  obtain ⟨a, s₁, hx₁, hk⟩ := Eval.bind_eq_ok hx
  obtain ⟨d', hd, hfreed⟩ := h a _ _ _ _ hk
  exact ⟨d', (Eval.bind_of_ok hx₁).trans hd, hfreed⟩

theorem bind_pull {x y : Eval σ (Option Value × Cursor)}
    {k k' : Option Value × Cursor → Eval σ (Option Value × Cursor)} (h : Follows x y)
    (hk : ∀ v? d d', Freed d d' → Follows (k (v?, d)) (k' (v?, d'))) :
    Follows (x >>= k) (y >>= k') := by
  intro s v? d s' hx
  obtain ⟨⟨u?, e⟩, s₁, hx₁, hkx⟩ := Eval.bind_eq_ok hx
  obtain ⟨e', hy, hfreed⟩ := h _ _ _ _ hx₁
  obtain ⟨d', hd, hlast⟩ := hk u? e e' hfreed _ _ _ _ hkx
  exact ⟨d', (Eval.bind_of_ok hy).trans hd, hlast⟩

end Follows

theorem Freed.push {c d : Cursor} {x : StageCursor} (hx : ∀ f inner t, x ≠ .flatMap f inner t)
    (h : Freed c d) : Freed (c.push x) (d.push x) := by
  obtain ⟨source, before⟩ := c
  obtain ⟨source', before'⟩ := d
  exact .stage hx h

theorem Freed.push_flatMap {c d : Cursor} (f : Value) (rest : Option (List Value))
    (t : Option String) (h : Freed c d) :
    Freed (c.push (.flatMap f (rest.map .items) t)) (d.push (.flatMap f (rest.map .items) none)) := by
  obtain ⟨source, before⟩ := c
  obtain ⟨source', before'⟩ := d
  exact .flatMap f rest t h

theorem Freed.push_flatMapStream {c d inner inner' : Cursor} (f : Value) (t : Option String)
    (hinner : Freed inner inner') (h : Freed c d) :
    Freed (c.push (.flatMap f (some (.stream inner)) t))
      (d.push (.flatMap f (some (.stream inner')) none)) := by
  obtain ⟨source, before⟩ := c
  obtain ⟨source', before'⟩ := d
  exact .flatMapStream f t hinner h

/-- What is opened with a terminal is opened without one too. -/
theorem Freed.push_ofValue {c d : Cursor} {f w : Value} {t : Option String} {inner : InnerCursor}
    (h : Freed c d) (hopen : InnerCursor.ofValue t w = .ok inner) :
    ∃ inner', InnerCursor.ofValue none w = .ok inner' ∧
      Freed (c.push (.flatMap f (some inner) t)) (d.push (.flatMap f (some inner') none)) := by
  cases w <;> try cases hopen
  case list us => exact ⟨_, rfl, h.push_flatMap f (some us) t⟩
  case set us => exact ⟨_, rfl, h.push_flatMap f (some us) t⟩
  case stream id p =>
    refine ⟨_, rfl, ?_⟩
    cases t with
    | none =>
      cases hopen
      exact (freed_cursor p none).push_flatMapStream f none h
    | some t =>
      rw [InnerCursor.ofValue, Pipeline.boundedCursor] at hopen
      split at hopen <;> cases hopen
      exact (freed_cursor p (some t)).push_flatMapStream f (some t) h

theorem Freed.pull (fuel : Nat) {c c' : Cursor} (h : Freed c c') :
    Follows (c.pull host fuel) (c'.pull host fuel) := by
  induction fuel generalizing c c' with
  | zero => exact .throw _
  | succ fuel ih =>
    obtain ⟨source, stages⟩ := c
    cases h with
    | source =>
      refine .bind _ fun (v?, source) => ?_
      exact .pure v? (.source source)
    | @stage _ source' before before' x hx h =>
      cases x with
      | flatMap f inner t => exact absurd rfl (hx f inner t)
      | map f =>
        refine .bind_pull (ih h) fun v? d d' hd => ?_
        cases v? with
        | none => exact .pure _ (hd.push hx)
        | some v => exact .bind _ fun w => .pure _ (hd.push hx)
      | filter f =>
        refine .bind_pull (ih h) fun v? d d' hd => ?_
        cases v? with
        | none => exact .pure _ (hd.push hx)
        | some v =>
          refine .bind _ fun verdict => ?_
          split
          · exact .pure _ (hd.push hx)
          · exact ih (hd.push hx)
          · exact .throw _
      | take n => cases n with
        | zero => exact .pure _ (.stage hx h)
        | succ n => exact .bind_pull (ih h) fun v? d d' hd => .pure _ (hd.push (by simp))
      | skip n => cases n with
        | zero => exact .bind_pull (ih h) fun v? d d' hd => .pure _ (hd.push hx)
        | succ n =>
          refine .bind_pull (ih h) fun v? d d' hd => ?_
          cases v? with
          | none => exact .pure _ (hd.push (by simp))
          | some v => exact ih (hd.push (by simp))
    | @flatMap _ source' before before' f rest t h =>
      match rest with
      | none =>
        refine .bind_pull (ih h) fun v? d d' hd => ?_
        cases v? with
        | none => exact .pure _ (hd.push_flatMap f none t)
        | some v =>
          refine .bind _ fun w => ?_
          cases hopen : InnerCursor.ofValue t w with
          | error fault => exact .throw _
          | ok inner =>
            obtain ⟨inner', hfree, hpush⟩ := hd.push_ofValue (f := f) hopen
            rw [hfree]
            exact ih hpush
      | some [] => exact ih (.flatMap f none t h)
      | some (v :: rest) => exact .pure _ (.flatMap f (some rest) t h)
    | @flatMapStream _ source' before before' f inner inner' t hinner h =>
      refine .bind_pull (ih hinner) fun v? d d' hd => ?_
      cases v? with
      | none => exact ih (.flatMap f none t h)
      | some v => exact .pure _ (.flatMapStream f t hd h)

end Cursor

end StreamLang
