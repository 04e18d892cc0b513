import StreamLang.Proofs.Stream.Freed
import StreamLang.Proofs.Stream.Congruence

/-! Which stream a refusal is about. The operation looks at the shape of the stream it was given and at
the shapes of the inner streams that no later `take` caps, and at no others. The host and its
callbacks are arbitrary here; what they answered is in the record of the run. -/

namespace StreamLang

variable {σ α β : Type}

namespace Pipeline

/-- The callback is that of a `flat_map` without a later `take`. -/
def Uncapped (p : Pipeline) (f : Value) : Prop :=
  ∃ before after, p.stages = before ++ .flatMap f :: after ∧ ∀ n, .take n ∉ after

/-- The stream itself, and each stream that a recorded call gave to a `flat_map` of such a stream
without a later `take`. -/
inductive Exposes (calls : List (Host.Call σ)) (p : Pipeline) : Pipeline → Prop
  | self : Exposes calls p p
  | inner {q r : Pipeline} {f v : Value} {id : Identity} {s : σ} : Exposes calls p q →
      q.Uncapped f → ⟨f, [v], .ok (.stream id r) s⟩ ∈ calls → Exposes calls p r

/-- If a `flat_map` with this callback knows of a terminal, it is that of the operation, and an exposed
stream has the stage. -/
def Watches (p : Pipeline) (terminal : String) (calls : List (Host.Call σ)) (f : Value)
    (t : Option String) : Prop :=
  ∀ u, t = some u → u = terminal ∧ ∃ q, p.Exposes calls q ∧ q.Uncapped f

/-- A call of the run gave no value, or some exposed stream has no bound in its shape. -/
def Blamed (p : Pipeline) (calls : List (Host.Call σ)) : Prop :=
  (∃ call ∈ calls, ¬ call.Returned) ∨ ∃ q, p.Exposes calls q ∧ q.isBounded = false

variable {calls more : List (Host.Call σ)} {p q : Pipeline}

theorem Exposes.mono (hle : calls ⊆ more) (h : p.Exposes calls q) : p.Exposes more q := by
  induction h with
  | self => exact .self
  | inner _ huncapped hmem ih => exact .inner ih huncapped (hle hmem)

theorem Watches.mono {terminal : String} {f : Value} {t : Option String} (hle : calls ⊆ more)
    (h : p.Watches terminal calls f t) : p.Watches terminal more f t := by
  intro u hu
  obtain ⟨hterminal, q, hq, huncapped⟩ := h u hu
  exact ⟨hterminal, q, hq.mono hle, huncapped⟩

theorem not_uncapped_take (q : Pipeline) (n : Nat) (f : Value) :
    ¬ (q.withStage (.take n)).Uncapped f := by
  rintro ⟨before, after, hstages, hafter⟩
  rcases List.eq_nil_or_concat after with rfl | ⟨init, last, rfl⟩
  · cases (List.append_inj' hstages rfl).2
  · rw [withStage, List.concat_eq_append, ← List.cons_append, ← List.append_assoc] at hstages
    cases (List.append_inj' hstages rfl).2
    exact hafter n (by simp)

/-- Behind a trailing `take` no inner stream can be refused. -/
theorem Exposes.eq_of_take {n : Nat} (h : (p.withStage (.take n)).Exposes calls q) :
    q = p.withStage (.take n) := by
  induction h with
  | self => rfl
  | inner _ huncapped _ ih =>
    subst ih
    exact absurd huncapped (p.not_uncapped_take n _)

end Pipeline

/-- In the traversal and in those parked in it, each `flat_map` with a terminal has that of the operation,
and its callback is that of an exposed stream. -/
inductive Cursor.Exposed (p : Pipeline) (terminal : String) (calls : List (Host.Call σ)) :
    Cursor → Prop
  | source (source : SourceCursor) : Exposed p terminal calls ⟨source, []⟩
  | stage {source : SourceCursor} {before : List StageCursor} {stage : StageCursor} :
      (∀ f inner t, stage ≠ .flatMap f inner t) → Exposed p terminal calls ⟨source, before⟩ →
      Exposed p terminal calls ⟨source, stage :: before⟩
  | flatMap {source : SourceCursor} {before : List StageCursor} {f : Value}
      {inner : Option InnerCursor} {t : Option String} : p.Watches terminal calls f t →
      (∀ d, inner = some (.stream d) → Exposed p terminal calls d) →
      Exposed p terminal calls ⟨source, before⟩ →
      Exposed p terminal calls ⟨source, .flatMap f inner t :: before⟩

namespace Cursor.Exposed

variable {p : Pipeline} {terminal : String} {calls more : List (Host.Call σ)} {c : Cursor}

theorem mono (hle : calls ⊆ more) (h : c.Exposed p terminal calls) : c.Exposed p terminal more := by
  induction h with
  | source source => exact .source source
  | stage hx _ ih => exact .stage hx ih
  | flatMap ht _ _ ihInner ih => exact .flatMap (ht.mono hle) ihInner ih

theorem push {x : StageCursor} (hx : ∀ f inner t, x ≠ .flatMap f inner t)
    (h : c.Exposed p terminal calls) : (c.push x).Exposed p terminal calls := by
  obtain ⟨source, before⟩ := c
  exact .stage hx h

theorem push_flatMap {f : Value} {inner : Option InnerCursor} {t : Option String}
    (ht : p.Watches terminal calls f t)
    (hinner : ∀ d, inner = some (.stream d) → Exposed p terminal calls d)
    (h : c.Exposed p terminal calls) : (c.push (.flatMap f inner t)).Exposed p terminal calls := by
  obtain ⟨source, before⟩ := c
  exact .flatMap ht hinner h

end Cursor.Exposed

namespace Pipeline

variable {p q : Pipeline} {terminal : String} {calls : List (Host.Call σ)}

theorem Uncapped.withStage {f : Value} {stage : Stage} (h : q.Uncapped f)
    (hstage : stage.isTake = false) : (q.withStage stage).Uncapped f := by
  obtain ⟨before, after, hstages, hafter⟩ := h
  refine ⟨before, after ++ [stage], by simp [Pipeline.withStage, hstages], fun n hn => ?_⟩
  rcases List.mem_append.mp hn with hn | hn
  · exact hafter n hn
  · cases List.mem_singleton.mp hn
    cases hstage

theorem cursor_exposed (t : Option String) (ht : ∀ u, t = some u → u = terminal ∧
      ∀ f, q.Uncapped f → ∃ r, p.Exposes calls r ∧ r.Uncapped f) :
    (q.cursor t).Exposed p terminal calls := by
  induction q using Pipeline.inductionOn generalizing t with
  | source source => exact .source _
  | stage q stage ih =>
    rw [cursor_withStage]
    have hbefore : (q.cursor (if stage.isTake then none else t)).Exposed p terminal calls := by
      refine ih _ fun u hu => ?_
      cases htake : stage.isTake with
      | true => simp [htake] at hu
      | false =>
        rw [htake] at hu
        exact ⟨(ht u hu).1, fun f hf => (ht u hu).2 f (hf.withStage htake)⟩
    cases stage with
    | map f | filter f | take n | skip n => exact hbefore.push (by simp [StageCursor.ofStage])
    | flatMap f =>
      refine hbefore.push_flatMap (fun u hu => ⟨(ht u hu).1, (ht u hu).2 f ?_⟩) ?_
      · exact ⟨q.stages, [], rfl, fun n => List.not_mem_nil⟩
      · rintro d ⟨⟩

theorem Exposes.cursor (h : p.Exposes calls q) :
    (q.cursor (some terminal)).Exposed p terminal calls := by
  refine cursor_exposed _ ?_
  rintro u ⟨⟩
  exact ⟨rfl, fun f hf => ⟨q, h, hf⟩⟩

end Pipeline

/-! The run -/

/-- From this state the computation adds to the record. If it gives a value, this is as `good` says;
and if it refuses, there is something to blame. -/
def Eval.Accounts (p : Pipeline) (terminal : String) (x : Eval (σ × List (Host.Call σ)) α)
    (s : σ × List (Host.Call σ)) (good : α → List (Host.Call σ) → Prop) : Prop :=
  match x s with
  | .ok a s' => s.2 ⊆ s'.2 ∧ good a s'.2
  | .error u s' => u = .refusal terminal → p.Blamed s'.2

namespace Eval.Accounts

variable {p : Pipeline} {terminal : String} {s : σ × List (Host.Call σ)}
  {good : α → List (Host.Call σ) → Prop} {good' : β → List (Host.Call σ) → Prop}

theorem pure {a : α} (h : good a s.2) : Accounts p terminal (Pure.pure a) s good :=
  ⟨List.Subset.refl _, h⟩

theorem throw {u : Unwind} (h : u = .refusal terminal → p.Blamed s.2) :
    Accounts p terminal (MonadExcept.throw u : Eval _ α) s good :=
  h

theorem bind {x : Eval (σ × List (Host.Call σ)) α} {f : α → Eval (σ × List (Host.Call σ)) β}
    (hx : Accounts p terminal x s good)
    (hf : ∀ a s', s.2 ⊆ s'.2 → good a s'.2 → Accounts p terminal (f a) s' good') :
    Accounts p terminal (x >>= f) s good' := by
  unfold Accounts at hx ⊢
  cases h : x s with
  | ok a s' =>
    rw [h] at hx
    rw [bind_of_ok h]
    have hlater := hf a s' hx.1 hx.2
    unfold Accounts at hlater
    split at hlater
    · exact ⟨List.Subset.trans hx.1 hlater.1, hlater.2⟩
    · exact hlater
  | error u s' =>
    rw [h] at hx
    rwa [bind_of_error h]

theorem call (host : Host σ) (f : Value) (args : List Value) :
    Accounts p terminal (host.recorded f args) s
      fun w calls => ∃ s', ⟨f, args, .ok w s'⟩ ∈ calls := by
  unfold Accounts Host.recorded
  cases hcall : host f args s.1 with
  | ok w s' => exact ⟨List.subset_cons_self _ _, s', List.mem_cons_self⟩
  | error u s' =>
    rintro -
    refine .inl ⟨_, List.mem_cons_self, ?_⟩
    rintro ⟨v, s₁, ⟨⟩⟩

theorem refused {x : Eval (σ × List (Host.Call σ)) α} (h : Accounts p terminal x s good)
    {s' : σ × List (Host.Call σ)} (hx : x s = .error (.refusal terminal) s') : p.Blamed s'.2 := by
  unfold Accounts at h
  rw [hx] at h
  exact h rfl

end Eval.Accounts

open Eval (Accounts)

variable {p : Pipeline} {terminal : String} {s : σ × List (Host.Call σ)}

/-- What can be parked in such a traversal. -/
def InnerCursor.Exposed (p : Pipeline) (terminal : String) (inner : InnerCursor)
    (calls : List (Host.Call σ)) : Prop :=
  ∀ d, inner = .stream d → d.Exposed p terminal calls

/-- What a callback of `flat_map` gave is opened, or it is an exposed stream without a bound. -/
theorem InnerCursor.accounts_ofValue {f v w : Value} {t : Option String}
    (ht : p.Watches terminal s.2 f t)
    (hcall : ∃ s', ⟨f, [v], .ok w s'⟩ ∈ s.2) :
    Accounts p terminal (Eval.ofExcept (ofValue t w)) s (Exposed p terminal) := by
  have hitems (us : List Value) : Accounts p terminal (Eval.ofExcept (.ok (.items us))) s
      (Exposed p terminal) := by
    refine .pure ?_
    rintro d ⟨⟩
  have hrefused (found : Kind) : Accounts p terminal (Eval.ofExcept (.error (.flatMapResult found))) s
      (Exposed p terminal) := by
    refine .throw ?_
    rintro ⟨⟩
  cases w with
  | list us => exact hitems us
  | set us => exact hitems us
  | stream id r =>
    cases t with
    | none =>
      refine .pure ?_
      rintro d ⟨⟩
      refine Pipeline.cursor_exposed none ?_
      rintro u ⟨⟩
    | some u =>
      obtain ⟨rfl, q, hq, huncapped⟩ := ht u rfl
      obtain ⟨s', hmem⟩ := hcall
      have hr : p.Exposes s.2 r := .inner hq huncapped hmem
      rw [ofValue, Pipeline.boundedCursor]
      cases hbounded : r.isBounded with
      | false => exact .throw fun _ => .inr ⟨r, hr, hbounded⟩
      | true =>
        refine .pure ?_
        rintro d ⟨⟩
        exact hr.cursor
  | _ => exact hrefused _

namespace Cursor

theorem accounts_next (host : Host σ) (source : SourceCursor) :
    Accounts p terminal (source.next host.recorded) s fun _ _ => True := by
  cases source with
  | items rest => cases rest <;> (rw [SourceCursor.next]; exact .pure trivial)
  | range next stop step =>
    rw [SourceCursor.next]
    split <;> split <;> exact .pure trivial
  | generate index count g =>
    rw [SourceCursor.next]
    split
    · exact .pure trivial
    · refine (Accounts.call host g _).bind fun _ _ _ _ => ?_
      exact .pure trivial
  | done =>
    rw [SourceCursor.next]
    exact .pure trivial

theorem Exposed.pull (host : Host σ) (fuel : Nat) {c : Cursor} (h : c.Exposed p terminal s.2) :
    Accounts p terminal (c.pull host.recorded fuel) s
      fun r calls => r.2.Exposed p terminal calls := by
  induction fuel generalizing c s with
  | zero => exact .throw nofun
  | succ fuel ih =>
    obtain ⟨source, stages⟩ := c
    cases h with
    | source => exact (accounts_next host source).bind fun _ _ _ _ => .pure (.source _)
    | @stage _ before x hx h =>
      cases x with
      | flatMap f inner t => exact absurd rfl (hx f inner t)
      | map f =>
        refine (ih h).bind fun (v?, d) s₁ _ hd => ?_
        cases v? with
        | none => exact .pure (hd.push hx)
        | some v =>
          exact (Accounts.call host f _).bind fun w s₂ hle _ => .pure ((hd.mono hle).push hx)
      | filter f =>
        refine (ih h).bind fun (v?, d) s₁ _ hd => ?_
        cases v? with
        | none => exact .pure (hd.push hx)
        | some v =>
          refine (Accounts.call host f _).bind fun verdict s₂ hle _ => ?_
          split
          · exact .pure ((hd.mono hle).push hx)
          · exact ih ((hd.mono hle).push hx)
          · exact .throw nofun
      | take n => cases n with
        | zero => exact .pure (.stage hx h)
        | succ n => exact (ih h).bind fun _ _ _ hd => .pure (hd.push nofun)
      | skip n => cases n with
        | zero => exact (ih h).bind fun _ _ _ hd => .pure (hd.push hx)
        | succ n =>
          refine (ih h).bind fun (v?, d) s₁ _ hd => ?_
          cases v? with
          | none => exact .pure (hd.push nofun)
          | some v => exact ih (hd.push nofun)
    | @flatMap _ before f inner t ht hinner h =>
      match inner with
      | none =>
        refine (ih h).bind fun (v?, d) s₁ hle hd => ?_
        have ht₁ := ht.mono hle
        cases v? with
        | none => exact .pure (hd.push_flatMap ht₁ nofun)
        | some v =>
          refine (Accounts.call host f _).bind fun w s₂ hle₂ hcall => ?_
          have ht₂ := ht₁.mono hle₂
          refine (InnerCursor.accounts_ofValue ht₂ hcall).bind fun inner s₃ hle₃ hinner => ?_
          refine ih ((hd.mono (List.Subset.trans hle₂ hle₃)).push_flatMap (ht₂.mono hle₃) ?_)
          rintro e ⟨⟩
          exact hinner e rfl
      | some (.items []) => exact ih (.flatMap ht nofun h)
      | some (.items (v :: rest)) => exact .pure (.flatMap ht nofun h)
      | some (.stream d) =>
        refine (ih (hinner d rfl)).bind fun (v?, d') s₁ hle hd => ?_
        have ht₁ := ht.mono hle
        cases v? with
        | none => exact ih (.flatMap ht₁ nofun (h.mono hle))
        | some v =>
          refine .pure (.flatMap ht₁ ?_ (h.mono hle))
          rintro e ⟨⟩
          exact hd

theorem Exposed.fold (host : Host σ) {step : β → Value → Eval (σ × List (Host.Call σ)) β}
    (next : β → Value → β) (hstep : ∀ acc v, step acc v = pure (next acc v)) (fuel : Nat)
    {c : Cursor} (acc : β) (h : c.Exposed p terminal s.2) :
    Accounts p terminal (c.fold host.recorded step fuel acc) s fun _ _ => True := by
  induction fuel generalizing c acc s with
  | zero => exact .throw nofun
  | succ fuel ih =>
    rw [fold]
    refine (h.pull host fuel).bind fun (v?, d) s₁ _ hd => ?_
    cases v? with
    | none => exact .pure trivial
    | some v =>
      simp only [hstep, pure_bind]
      exact ih _ hd

end Cursor

/-- Whatever the host and the callbacks do: if draining a stream ends in a refusal and the calls of the run
have all given values, the stream itself or an inner stream of a `flat_map` without a later `take`
has no bound in its shape. -/
theorem Pipeline.drain_accounts (host : Host σ) (p : Pipeline) (fuel : Nat) (terminal : String)
    (s : σ × List (Host.Call σ)) :
    Accounts p terminal (p.drain host.recorded fuel terminal) s fun _ _ => True := by
  rw [drain, boundedCursor]
  cases hbounded : p.isBounded with
  | false => exact .throw fun _ => .inr ⟨p, .self, hbounded⟩
  | true =>
    have hp : (p.cursor (some terminal)).Exposed p terminal s.2 := Exposes.self.cursor
    refine (hp.fold host (fun vs v => v :: vs) (fun _ _ => rfl) fuel []).bind fun vs s' _ _ => ?_
    exact .pure trivial

end StreamLang
