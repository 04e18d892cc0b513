import Mathlib.Order.FixedPoints
import StreamLang.Proofs.Stream.Congruence
import StreamLang.Proofs.Stream.Freed
import StreamLang.Proofs.Stream.Yields
import StreamLang.Proofs.Stream.Source

/-! One pull of a traversal: it is over, gives an element, refuses an inner stream that has no bound, or
fails as a callback did. What each stage makes of a pull of the traversal behind it is said once here,
for whatever is to be known of the traversals that are left. -/

namespace StreamLang

open Eval (Arrives)

variable {σ : Type}

/-- If the callback gives a value for the element, it is a good one. -/
def Host.Promises (host : Host σ) (ok : σ → Prop) (f v : Value) (good : Value → Prop) : Prop :=
  ∀ s w s', ok s → host f [v] s = .ok w s' → good w ∧ ok s'

/-- Some call ends with this failure. -/
def Host.Fails (host : Host σ) (u : Unwind) (s' : σ) : Prop :=
  ∃ f args s, host f args s = .error u s'

/-- A pull in this state ends. Its element is a good one, and what it leaves behind an element is as `next`
says. It fails by a refusal, or as a callback did. -/
inductive Cursor.Pulled (host : Host σ) (ok : σ → Prop) (good : Value → Prop) (terminal : String)
    (next : Cursor → Prop) (c : Cursor) (s : σ) : Prop
  | ended {c' : Cursor} {s' : σ} :
      Arrives (fun fuel => c.pull host fuel) s (.ok (none, c') s') → ok s' →
      Pulled host ok good terminal next c s
  | element {c' : Cursor} {v : Value} {s' : σ} :
      Arrives (fun fuel => c.pull host fuel) s (.ok (some v, c') s') → ok s' → good v → next c' →
      Pulled host ok good terminal next c s
  | refused {s' : σ} :
      Arrives (fun fuel => c.pull host fuel) s (.error (.refusal terminal) s') →
      Pulled host ok good terminal next c s
  | failed {u : Unwind} {s' : σ} :
      Arrives (fun fuel => c.pull host fuel) s (.error u s') → host.Fails u s' →
      Pulled host ok good terminal next c s

namespace Cursor.Pulled

variable {host : Host σ} {ok : σ → Prop} {good good' : Value → Prop} {terminal : String}
  {next next' : Cursor → Prop} {c : Cursor} {s : σ} {f : Value} {t : Option String}

theorem imp (h : Pulled host ok good terminal next c s) (himp : ∀ d, next d → next' d) :
    Pulled host ok good terminal next' c s := by
  cases h with
  | ended ha hs => exact .ended ha hs
  | element ha hs hv hd => exact .element ha hs hv (himp _ hd)
  | refused ha => exact .refused ha
  | failed ha hu => exact .failed ha hu

/-- The traversal turns into another one before it gives anything. -/
theorem retry {d : Cursor} {s' : σ} (h : Pulled host ok good terminal next d s')
    (hretry : ∀ r, Arrives (fun fuel => d.pull host fuel) s' r →
      Arrives (fun fuel => c.pull host fuel) s r) : Pulled host ok good terminal next c s := by
  cases h with
  | ended ha hs => exact .ended (hretry _ ha) hs
  | element ha hs hv hd => exact .element (hretry _ ha) hs hv hd
  | refused ha => exact .refused (hretry _ ha)
  | failed ha hu => exact .failed (hretry _ ha) hu

/-! What each stage does with a pull of the traversal behind it. -/

theorem map (h : Pulled host ok good terminal next c s) (hf : ∀ v, good v → host.Promises ok f v good')
    (hnext : ∀ d, next d → next' (d.push (.map f))) :
    Pulled host ok good' terminal next' (c.push (.map f)) s := by
  obtain ⟨source, before⟩ := c
  cases h with
  | ended ha hs => exact .ended (.step (ha.bind (.of_eq rfl))) hs
  | @element d v s₁ ha hs hv hd =>
    cases hw : host f [v] s₁ with
    | ok w s₂ =>
      obtain ⟨hgood, hs₂⟩ := hf v hv s₁ w s₂ hs hw
      exact .element (.step (ha.bind (.of_eq (Eval.bind_of_ok hw)))) hs₂ hgood (hnext d hd)
    | error u s₂ =>
      exact .failed (.step (ha.bind (.of_eq (Eval.bind_of_error hw)))) ⟨f, [v], s₁, hw⟩
  | refused ha => exact .refused (.step ha.bind_error)
  | failed ha hu => exact .failed (.step ha.bind_error) hu

theorem take_zero (hs : ok s) : Pulled host ok good terminal next' (c.push (.take 0)) s :=
  .ended (.step (.of_eq rfl)) hs

theorem take_succ {n : Nat} (h : Pulled host ok good terminal next c s)
    (hnext : ∀ d, next d → next' (d.push (.take n))) :
    Pulled host ok good terminal next' (c.push (.take (n + 1))) s := by
  obtain ⟨source, before⟩ := c
  cases h with
  | ended ha hs => exact .ended (.step (ha.bind (.of_eq rfl))) hs
  | element ha hs hv hd => exact .element (.step (ha.bind (.of_eq rfl))) hs hv (hnext _ hd)
  | refused ha => exact .refused (.step ha.bind_error)
  | failed ha hu => exact .failed (.step ha.bind_error) hu

theorem skip_zero (h : Pulled host ok good terminal next c s)
    (hnext : ∀ d, next d → next' (d.push (.skip 0))) :
    Pulled host ok good terminal next' (c.push (.skip 0)) s := by
  obtain ⟨source, before⟩ := c
  cases h with
  | ended ha hs => exact .ended (.step (ha.bind (.of_eq rfl))) hs
  | element ha hs hv hd => exact .element (.step (ha.bind (.of_eq rfl))) hs hv (hnext _ hd)
  | refused ha => exact .refused (.step ha.bind_error)
  | failed ha hu => exact .failed (.step ha.bind_error) hu

theorem skip_succ {n : Nat} (h : Pulled host ok good terminal next c s)
    (hnext : ∀ d s', next d → ok s' → Pulled host ok good terminal next' (d.push (.skip n)) s') :
    Pulled host ok good terminal next' (c.push (.skip (n + 1))) s := by
  obtain ⟨source, before⟩ := c
  cases h with
  | ended ha hs => exact .ended (.step (ha.bind (.of_eq rfl))) hs
  | element ha hs hv hd => exact (hnext _ _ hd hs).retry fun r hr => .step (ha.bind hr)
  | refused ha => exact .refused (.step ha.bind_error)
  | failed ha hu => exact .failed (.step ha.bind_error) hu

/-- The callback is asked about the element; it gives something to open, or something to refuse. -/
theorem flatMap_none (h : Pulled host ok good terminal next c s)
    (hnext : ∀ d v s' w s'', next d → good v → ok s' → host f [v] s' = .ok w s'' →
      InnerCursor.ofValue t w = .error (.unboundedStream terminal) ∨
        ∃ inner, InnerCursor.ofValue t w = .ok inner ∧
          Pulled host ok good' terminal next' (d.push (.flatMap f (some inner) t)) s'') :
    Pulled host ok good' terminal next' (c.push (.flatMap f none t)) s := by
  obtain ⟨source, before⟩ := c
  cases h with
  | ended ha hs => exact .ended (.step (ha.bind (.of_eq rfl))) hs
  | @element d v s₁ ha hs hv hd =>
    cases hw : host f [v] s₁ with
    | ok w s₂ =>
      obtain hrefused | ⟨inner, hopen, hinner⟩ := hnext d v s₁ w s₂ hd hv hs hw
      · refine .refused (.step (ha.bind (r := .error (.refusal terminal) s₂)
          ⟨0, fun fuel _ => (Eval.bind_of_ok hw).trans ?_⟩))
        rw [hrefused]
        rfl
      · refine hinner.retry fun r hr => .step (ha.bind ?_)
        obtain ⟨n, hn⟩ := hr
        refine ⟨n, fun fuel hle => (Eval.bind_of_ok hw).trans ?_⟩
        rw [hopen]
        exact hn fuel hle
    | error u s₂ =>
      exact .failed (.step (ha.bind ⟨0, fun _ _ => Eval.bind_of_error hw⟩)) ⟨f, [v], s₁, hw⟩
  | refused ha => exact .refused (.step ha.bind_error)
  | failed ha hu => exact .failed (.step ha.bind_error) hu

theorem flatMap_nil (h : Pulled host ok good terminal next' (c.push (.flatMap f none t)) s) :
    Pulled host ok good terminal next' (c.push (.flatMap f (some (.items [])) t)) s :=
  h.retry fun _ hr => .step hr

theorem flatMap_cons {u : Value} {us : List Value} (hs : ok s) (hu : good u)
    (hnext : next' (c.push (.flatMap f (some (.items us)) t))) :
    Pulled host ok good terminal next' (c.push (.flatMap f (some (.items (u :: us))) t)) s :=
  .element (.step (.of_eq rfl)) hs hu hnext

/-- The parked inner traversal is pulled first, and when it is over the stage goes on. -/
theorem flatMap_stream {inner : Cursor} (h : Pulled host ok good terminal next inner s)
    (hnext : ∀ d, next d → next' (c.push (.flatMap f (some (.stream d)) t)))
    (hover : ∀ d s', Arrives (fun fuel => inner.pull host fuel) s (.ok (none, d) s') → ok s' →
      Pulled host ok good terminal next' (c.push (.flatMap f none t)) s') :
    Pulled host ok good terminal next' (c.push (.flatMap f (some (.stream inner)) t)) s := by
  cases h with
  | ended ha hs => exact (hover _ _ ha hs).retry fun r hr => .step (ha.bind hr)
  | element ha hs hv hd => exact .element (.step (ha.bind (.of_eq rfl))) hs hv (hnext _ hd)
  | refused ha => exact .refused (.step ha.bind_error)
  | failed ha hu => exact .failed (.step ha.bind_error) hu

end Cursor.Pulled

end StreamLang

/-! Traversals of which every pull ends, and traversals of which in addition some pull is the last. Both
are fixed points of one step, the pull: the greatest and the least. The state may change between two
pulls, as long as it stays in the class. -/

namespace StreamLang

open Eval (Arrives)

variable {σ : Type} {host : Host σ} {ok : σ → Prop} {good good' : Value → Prop} {terminal : String}

namespace Cursor

/-- Whenever it is made, one pull is as it should be and leaves what is as `next` says. -/
def pulledWith (host : Host σ) (ok : σ → Prop) (good : Value → Prop) (terminal : String) :
    (Cursor → Prop) →o (Cursor → Prop) where
  toFun next c := ∀ s, ok s → Pulled host ok good terminal next c s
  monotone' _ _ h _ hc s hs := (hc s hs).imp h

/-- Every pull ends, and so does every pull after it. -/
def Lively (host : Host σ) (ok : σ → Prop) (good : Value → Prop) (terminal : String) :
    Cursor → Prop :=
  (pulledWith host ok good terminal).gfp

/-- Every pull ends, and after finitely many there is nothing left. -/
def Finite (host : Host σ) (ok : σ → Prop) (good : Value → Prop) (terminal : String) :
    Cursor → Prop :=
  (pulledWith host ok good terminal).lfp

variable {c : Cursor} {s : σ} {f : Value} {t : Option String}

theorem Lively.pulled (h : c.Lively host ok good terminal) (hs : ok s) :
    Pulled host ok good terminal (Lively host ok good terminal) c s := by
  rw [Lively, ← OrderHom.map_gfp] at h
  exact h s hs

/-- What every pull keeps makes a traversal lively. -/
theorem lively_of_pulled {I : Cursor → Prop}
    (hI : ∀ d s, I d → ok s → Pulled host ok good terminal I d s) (h : I c) : c.Lively host ok good terminal :=
  (pulledWith host ok good terminal).le_gfp (fun d hd s hs => hI d s hd hs) c h

theorem Finite.intro (h : ∀ s, ok s → Pulled host ok good terminal (Finite host ok good terminal) c s) :
    c.Finite host ok good terminal := by
  rw [Finite, ← OrderHom.map_lfp]
  exact h

theorem Finite.pulled (h : c.Finite host ok good terminal) (hs : ok s) :
    Pulled host ok good terminal (Finite host ok good terminal) c s := by
  rw [Finite, ← OrderHom.map_lfp] at h
  exact h s hs

theorem Finite.lively (h : c.Finite host ok good terminal) : c.Lively host ok good terminal :=
  (pulledWith host ok good terminal).lfp_le_gfp c h

/-- Induction on the pulls that are left. -/
theorem Finite.inductionOn {P : Cursor → Prop} (h : c.Finite host ok good terminal)
    (step : ∀ d, (∀ s, ok s → Pulled host ok good terminal
      (fun e => e.Finite host ok good terminal ∧ P e) d s) → P d) : P c := by
  have hle : (pulledWith host ok good terminal).lfp ≤ fun d => d.Finite host ok good terminal ∧ P d := by
    refine OrderHom.lfp_le _ fun d hd => ⟨.intro fun s hs => ?_, step d hd⟩
    exact (hd s hs).imp fun e he => he.1
  exact (hle c h).2

/-! Stages -/

theorem Lively.map (h : c.Lively host ok good terminal) (hf : ∀ v, good v → host.Promises ok f v good') :
    (c.push (.map f)).Lively host ok good' terminal := by
  refine lively_of_pulled (I := fun d => ∃ c, d = c.push (.map f) ∧ c.Lively host ok good terminal) ?_
    ⟨c, rfl, h⟩
  rintro _ s ⟨c, rfl, hc⟩ hs
  exact (hc.pulled hs).map hf fun d hd => ⟨d, rfl, hd⟩

theorem Lively.take (h : c.Lively host ok good terminal) (n : Nat) :
    (c.push (.take n)).Lively host ok good terminal := by
  refine lively_of_pulled
    (I := fun d => ∃ c n, d = c.push (.take n) ∧ c.Lively host ok good terminal) ?_ ⟨c, n, rfl, h⟩
  rintro _ s ⟨c, n, rfl, hc⟩ hs
  cases n with
  | zero => exact .take_zero hs
  | succ n => exact (hc.pulled hs).take_succ fun d hd => ⟨d, n, rfl, hd⟩

theorem Lively.skip (h : c.Lively host ok good terminal) (n : Nat) :
    (c.push (.skip n)).Lively host ok good terminal := by
  refine lively_of_pulled
    (I := fun d => ∃ c n, d = c.push (.skip n) ∧ c.Lively host ok good terminal) ?_ ⟨c, n, rfl, h⟩
  rintro _ s ⟨c, n, rfl, hc⟩ hs
  induction n generalizing c s with
  | zero => exact (hc.pulled hs).skip_zero fun d hd => ⟨d, 0, rfl, hd⟩
  | succ n ih => exact (hc.pulled hs).skip_succ fun d s' hd hs' => ih s' d hd hs'

/-- What the callback of a `flat_map` gives for a good element can be opened or is refused. What was opened is
as `fit` says in the state that is left. -/
def Opens (host : Host σ) (ok : σ → Prop) (good : Value → Prop) (terminal : String)
    (t : Option String) (f : Value) (fit : InnerCursor → σ → Prop) : Prop :=
  ∀ v s w s', good v → ok s → host f [v] s = .ok w s' → ok s' ∧
    (InnerCursor.ofValue t w = .error (.unboundedStream terminal) ∨
      ∃ inner, InnerCursor.ofValue t w = .ok inner ∧ fit inner s')

/-- There is an element in what was opened, all its elements are good, and it is lively. -/
def Starts (host : Host σ) (ok : σ → Prop) (good : Value → Prop) (terminal : String)
    (inner : InnerCursor) (s : σ) : Prop :=
  match inner with
  | .items us => us ≠ [] ∧ ∀ u ∈ us, good u
  | .stream d => d.Lively host ok good terminal ∧
      ∀ d' s', ¬ Arrives (fun fuel => d.pull host fuel) s (.ok (none, d') s')

/-- The elements that are left in what was opened are good, and pulling them ends. -/
def Parked (host : Host σ) (ok : σ → Prop) (good : Value → Prop) (terminal : String)
    (inner : InnerCursor) : Prop :=
  match inner with
  | .items us => ∀ u ∈ us, good u
  | .stream d => d.Lively host ok good terminal

/-- What was opened runs out, and all its elements are good. -/
def RunsOut (host : Host σ) (ok : σ → Prop) (good : Value → Prop) (terminal : String)
    (inner : InnerCursor) : Prop :=
  match inner with
  | .items us => ∀ u ∈ us, good u
  | .stream d => d.Finite host ok good terminal

/-- Without an element in each inner sequence the stage could open one after the other for ever. -/
theorem Lively.flatMap (h : c.Lively host ok good terminal)
    (hf : Opens host ok good terminal t f (Starts host ok good' terminal)) :
    (c.push (.flatMap f none t)).Lively host ok good' terminal := by
  let I : Cursor → Prop := fun d => ∃ (c : Cursor) (inner : Option InnerCursor),
    d = c.push (.flatMap f inner t) ∧ c.Lively host ok good terminal ∧
    ∀ parked, inner = some parked → Parked host ok good' terminal parked
  have hnone : ∀ (c : Cursor) (s : σ), c.Lively host ok good terminal → ok s →
      Pulled host ok good' terminal I (c.push (.flatMap f none t)) s := by
    intro c s hc hs
    refine (hc.pulled hs).flatMap_none fun d v s' w s'' hd hv hs' hw => ?_
    obtain ⟨hs'', hrefused | ⟨inner, hopen, hstarts⟩⟩ := hf v s' w s'' hv hs' hw
    · exact .inl hrefused
    · refine .inr ⟨inner, hopen, ?_⟩
      match inner, hstarts with
      | .items [], ⟨hne, _⟩ => exact absurd rfl hne
      | .items (u :: us), ⟨_, hus⟩ =>
        obtain ⟨hu, hus⟩ := List.forall_mem_cons.mp hus
        refine .flatMap_cons hs'' hu ⟨d, _, rfl, hd, ?_⟩
        rintro _ ⟨⟩
        exact hus
      | .stream e, ⟨he, hmore⟩ =>
        refine (he.pulled hs'').flatMap_stream (fun e' he' => ⟨d, _, rfl, hd, ?_⟩)
          fun e' u hover _ => absurd hover (hmore e' u)
        rintro _ ⟨⟩
        exact he'
  refine lively_of_pulled (I := I) ?_ ⟨c, none, rfl, h, nofun⟩
  rintro _ s ⟨c, inner, rfl, hc, hinner⟩ hs
  match inner with
  | none => exact hnone c s hc hs
  | some (.items []) => exact (hnone c s hc hs).flatMap_nil
  | some (.items (u :: us)) =>
    obtain ⟨hu, hus⟩ := List.forall_mem_cons.mp (hinner _ rfl)
    refine .flatMap_cons hs hu ⟨c, _, rfl, hc, ?_⟩
    rintro _ ⟨⟩
    exact hus
  | some (.stream e) =>
    have he : e.Lively host ok good' terminal := hinner _ rfl
    refine (he.pulled hs).flatMap_stream (fun e' he' => ⟨c, _, rfl, hc, ?_⟩)
      fun _ s' _ hs' => hnone c s' hc hs'
    rintro _ ⟨⟩
    exact he'

theorem Finite.map (h : c.Finite host ok good terminal) (hf : ∀ v, good v → host.Promises ok f v good') :
    (c.push (.map f)).Finite host ok good' terminal :=
  Finite.inductionOn (P := fun d => (d.push (.map f)).Finite host ok good' terminal) h fun _ hd =>
    .intro fun s hs => (hd s hs).map hf fun _ he => he.2

/-- The stage itself is the bound, so nothing is asked of what stands behind it but that pulls end. -/
theorem Lively.take_finite (h : c.Lively host ok good terminal) (n : Nat) :
    (c.push (.take n)).Finite host ok good terminal := by
  induction n generalizing c with
  | zero => exact .intro fun s hs => .take_zero hs
  | succ n ih => exact .intro fun s hs => (h.pulled hs).take_succ fun d hd => ih hd

theorem Finite.skip (h : c.Finite host ok good terminal) (n : Nat) :
    (c.push (.skip n)).Finite host ok good terminal := by
  induction n generalizing c with
  | zero =>
    exact Finite.inductionOn (P := fun d => (d.push (.skip 0)).Finite host ok good terminal) h fun _ hd =>
      .intro fun s hs => (hd s hs).skip_zero fun _ he => he.2
  | succ n ih =>
    exact .intro fun s hs => (h.pulled hs).skip_succ fun _ s' hd hs' => (ih hd).pulled hs'

theorem Finite.flatMap_inner (h : (c.push (.flatMap f none t)).Finite host ok good terminal)
    {inner : InnerCursor} (hinner : RunsOut host ok good terminal inner) :
    (c.push (.flatMap f (some inner) t)).Finite host ok good terminal := by
  cases inner with
  | items us =>
    induction us with
    | nil => exact .intro fun s hs => (h.pulled hs).flatMap_nil
    | cons u us ih =>
      obtain ⟨hu, hus⟩ := List.forall_mem_cons.mp hinner
      exact .intro fun s hs => .flatMap_cons hs hu (ih hus)
  | stream e =>
    refine Finite.inductionOn
      (P := fun d => (c.push (.flatMap f (some (.stream d)) t)).Finite host ok good terminal) hinner
      fun _ hd => .intro fun s hs => ?_
    exact (hd s hs).flatMap_stream (fun _ he => he.2) fun _ s' _ hs' => h.pulled hs'

theorem Finite.flatMap (h : c.Finite host ok good terminal)
    (hf : Opens host ok good terminal t f fun inner _ => RunsOut host ok good' terminal inner) :
    (c.push (.flatMap f none t)).Finite host ok good' terminal := by
  refine Finite.inductionOn
    (P := fun d => (d.push (.flatMap f none t)).Finite host ok good' terminal) h
    fun d hd => .intro fun s hs => (hd s hs).flatMap_none fun e v s' w s'' he hv hs' hw => ?_
  obtain ⟨hs'', hrefused | ⟨inner, hopen, hout⟩⟩ := hf v s' w s'' hv hs' hw
  · exact .inl hrefused
  · exact .inr ⟨inner, hopen, (he.2.flatMap_inner hout).pulled hs''⟩

end Cursor

/-! Sources -/

/-- What the source still has to give is good, and its steps go somewhere. Of a generator this is asked at
every number it can come to. -/
def SourceCursor.Flows (host : Host σ) (ok : σ → Prop) (good : Value → Prop) : SourceCursor → Prop
  | .items rest => ∀ v ∈ rest, good v
  | .range next stop step => step ≠ 0 ∧ ∀ n : Int64,
      (if 0 < step then next ≤ n ∧ n < stop else stop < n ∧ n ≤ next) → good (.int n)
  | .generate index count g => ∀ n : Int64,
      (∀ m ∈ count, index ≤ n ∧ n < m) → host.Promises ok g (.int n) good
  | .done => True

/-- The source has an end. -/
def SourceCursor.Ends : SourceCursor → Prop
  | .generate _ none _ => False
  | _ => True

/-- How many elements can be to come, where there is an end. -/
def SourceCursor.remaining : SourceCursor → Nat
  | .items rest => rest.length
  | .range next stop step =>
    (if 0 < step then stop.toInt - next.toInt else next.toInt - stop.toInt).toNat
  | .generate index count _ => (count.map fun n => (n.toInt - index.toInt).toNat).getD 0
  | .done => 0

namespace SourceCursor

/-- A step towards the end, even one that stops at the limit of the 64 bits. -/
theorem remaining_range_lt {next stop step : Int64} (hstep : step ≠ 0)
    (h : if 0 < step then next < stop else stop < next) :
    (range (saturatingAdd next step) stop step).remaining < (range next stop step).remaining := by
  have hne : step.toInt ≠ 0 := fun h0 => hstep (Int64.toInt_inj.mp h0)
  have hlo := stop.le_toInt
  have hhi := stop.toInt_lt
  simp only [Int64.lt_iff_toInt_lt, Int64.toInt_zero] at h
  simp only [remaining, toInt_saturatingAdd, clamp, Int64.lt_iff_toInt_lt, Int64.toInt_zero]
  split at h <;> rename_i hpos <;> simp only [hpos, if_true, if_false] <;> omega

/-- Below a count the next number does not overflow. -/
theorem toInt_succ {index count : Int64} (h : index < count) :
    (index + 1).toInt = index.toInt + 1 := by
  have hlo := index.le_toInt
  have hhi := count.toInt_lt
  rw [Int64.lt_iff_toInt_lt] at h
  rw [Int64.toInt_add, Int64.toInt_one, Int.bmod_eq_of_le] <;> omega

theorem le_succ {index count : Int64} (h : index < count) : index ≤ index + 1 := by
  rw [Int64.le_iff_toInt_le, toInt_succ h]
  omega

theorem remaining_generate_lt {index count : Int64} {g : Value} (h : index < count) :
    (generate (index + 1) (some count) g).remaining <
      (generate index (some count) g).remaining := by
  have hsucc := toInt_succ h
  rw [Int64.lt_iff_toInt_lt] at h
  simp only [remaining, Option.map_some, Option.getD_some, hsucc]
  omega

/-- Below the count, or without one, the number that comes next is one the generator answers about. -/
theorem Flows.generate_next {index : Int64} {count : Option Int64} {g : Value}
    (h : (generate index count g).Flows host ok good) (hbelow : ∀ m ∈ count, index < m) :
    (generate (index + 1) count g).Flows host ok good := by
  refine fun n hn => h n fun m hm => ?_
  obtain ⟨hle, hlt⟩ := hn m hm
  exact ⟨Int64.le_trans (le_succ (hbelow m hm)) hle, hlt⟩

/-- Also where it stops at the limit of the 64 bits, a step never turns back. -/
theorem le_saturatingAdd {next step : Int64} (h : 0 < step) : next ≤ saturatingAdd next step := by
  have hhi := next.toInt_lt
  simp only [Int64.lt_iff_toInt_lt, Int64.toInt_zero] at h
  simp only [Int64.le_iff_toInt_le, toInt_saturatingAdd, clamp]
  omega

theorem saturatingAdd_le {next step : Int64} (h : ¬ 0 < step) : saturatingAdd next step ≤ next := by
  have hlo := next.le_toInt
  simp only [Int64.lt_iff_toInt_lt, Int64.toInt_zero] at h
  simp only [Int64.le_iff_toInt_le, toInt_saturatingAdd, clamp]
  omega

theorem Flows.range_next {next stop step : Int64}
    (h : (range next stop step).Flows host ok good) :
    (range (saturatingAdd next step) stop step).Flows host ok good := by
  obtain ⟨hstep, hgood⟩ := h
  refine ⟨hstep, fun n hn => hgood n ?_⟩
  by_cases hpos : 0 < step
  · rw [if_pos hpos] at hn ⊢
    exact ⟨Int64.le_trans (le_saturatingAdd hpos) hn.1, hn.2⟩
  · rw [if_neg hpos] at hn ⊢
    exact ⟨hn.1, Int64.le_trans hn.2 (saturatingAdd_le hpos)⟩

end SourceCursor

namespace Cursor

/-- One pull of a source: with each element there is less to come, where there is an end. -/
theorem pulled_source {source : SourceCursor} (h : source.Flows host ok good)
    {next : Cursor → Prop} {s : σ} (hs : ok s)
    (hnext : ∀ source' : SourceCursor, source'.Flows host ok good →
      (source.Ends → source'.Ends ∧ source'.remaining < source.remaining) → next ⟨source', []⟩) :
    Pulled host ok good terminal next ⟨source, []⟩ s := by
  have hover : ∀ source', source.next host s = .ok (none, source') s →
      Pulled host ok good terminal next ⟨source, []⟩ s := fun source' hend =>
    .ended (.step (.of_eq (Eval.bind_of_ok hend))) hs
  have helement : ∀ v s' source', source.next host s = .ok (some v, source') s' → ok s' → good v →
      next ⟨source', []⟩ → Pulled host ok good terminal next ⟨source, []⟩ s :=
    fun v s' source' hv hs' hgood hmore =>
      .element (.step (.of_eq (Eval.bind_of_ok hv))) hs' hgood hmore
  cases source with
  | items rest => cases rest with
    | nil => exact hover _ rfl
    | cons v rest =>
      obtain ⟨hv, hrest⟩ := List.forall_mem_cons.mp h
      exact helement _ _ _ rfl hs hv (hnext _ hrest fun _ => ⟨trivial, Nat.lt_succ_self _⟩)
  | range first stop step =>
    by_cases hmore : if 0 < step then first < stop else stop < first
    · refine helement (.int first) s (.range (SourceCursor.saturatingAdd first step) stop step)
        (by simp only [SourceCursor.next, hmore]; rfl) hs (h.2 first ?_)
        (hnext _ h.range_next fun _ => ⟨trivial, SourceCursor.remaining_range_lt h.1 hmore⟩)
      split_ifs at hmore ⊢
      · exact ⟨Int64.le_refl first, hmore⟩
      · exact ⟨hmore, Int64.le_refl first⟩
    · exact hover (.range first stop step) (by simp only [SourceCursor.next, hmore]; rfl)
  | generate index count g =>
    by_cases hout : (count.map fun n => decide (n ≤ index)).getD false = true
    · exact hover (.generate index count g) (by rw [SourceCursor.next, if_pos hout]; rfl)
    · have hbelow : ∀ m ∈ count, index < m := by
        rintro m rfl
        simpa using hout
      cases hv : host g [.int index] s with
      | ok v s' =>
        obtain ⟨hgood, hs'⟩ :=
          h index (fun m hm => ⟨Int64.le_refl index, hbelow m hm⟩) s v s' hs hv
        refine helement v s' (.generate (index + 1) count g) ?_ hs' hgood
          (hnext _ (h.generate_next hbelow) ?_)
        · rw [SourceCursor.next, if_neg hout]
          exact Eval.bind_of_ok hv
        · intro hends
          cases count with
          | none => exact hends.elim
          | some count => exact ⟨trivial, SourceCursor.remaining_generate_lt (hbelow count rfl)⟩
      | error u s' =>
        refine .failed (.step (.of_eq (Eval.bind_of_error ?_))) ⟨g, _, s, hv⟩
        rw [SourceCursor.next, if_neg hout]
        exact Eval.bind_of_error hv
  | done => exact hover _ rfl

theorem lively_source {source : SourceCursor} (h : source.Flows host ok good) :
    Lively host ok good terminal ⟨source, []⟩ := by
  refine lively_of_pulled
    (I := fun d => ∃ source : SourceCursor, d = ⟨source, []⟩ ∧ source.Flows host ok good) ?_
    ⟨source, rfl, h⟩
  rintro _ s ⟨source, rfl, hflows⟩ hs
  exact pulled_source hflows hs fun source' h' _ => ⟨source', rfl, h'⟩

theorem finite_source {source : SourceCursor} (h : source.Flows host ok good)
    (hends : source.Ends) : Finite host ok good terminal ⟨source, []⟩ := by
  induction hn : source.remaining using Nat.strong_induction_on generalizing source with
  | _ n ih =>
    subst hn
    refine .intro fun s hs => pulled_source h hs fun source' h' hless => ?_
    obtain ⟨hends', hlt⟩ := hless hends
    exact ih _ hlt h' hends' rfl

end Cursor

end StreamLang
