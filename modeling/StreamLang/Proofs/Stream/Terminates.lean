import StreamLang.Proofs.Stream.Lively
import StreamLang.Proofs.Stream.Refusal

/-! Operations that pull until the end come to an end. The stages of a stream are `map`, `take`, `skip`
and `flat_map` here, the callbacks that are asked in the run give values, and what a `flat_map` callback
gives is not empty: with a stage that drops what it likes, one pull of an endless source need not end. -/

namespace StreamLang

open Eval (Arrives)

variable {σ : Type} {host : Host σ} {ok : σ → Prop} {good good' : Value → Prop} {terminal : String}

/-- There is an element in the stream when it is opened in this state. -/
def Pipeline.StartsAt (host : Host σ) (p : Pipeline) (s : σ) : Prop :=
  ∃ v c s', Arrives (fun fuel => (p.cursor none).pull host fuel) s (.ok (some v, c) s')

mutual

/-- A stream of good elements that drops elements only by their number. What is good is said stage by stage:
a callback is asked about the good elements of the stage before it, and what it gives for them is good
behind it. For no element it need give a value. -/
inductive Pipeline.Flows (host : Host σ) (ok : σ → Prop) : (Value → Prop) → Pipeline → Prop
  | source {source : Source} {good : Value → Prop} :
      (SourceCursor.ofSource source).Flows host ok good →
      Pipeline.Flows host ok good (.ofSource source)
  | map {p : Pipeline} {f : Value} {good good' : Value → Prop} : Pipeline.Flows host ok good p →
      (∀ v, good v → host.Promises ok f v good') → Pipeline.Flows host ok good' (p.withStage (.map f))
  | flatMap {p : Pipeline} {f : Value} {good good' : Value → Prop} : Pipeline.Flows host ok good p →
      (∀ v s w s', good v → ok s → host f [v] s = .ok w s' → Stage.Feeds host ok good' w s') →
      Pipeline.Flows host ok good' (p.withStage (.flatMap f))
  | take {p : Pipeline} {good : Value → Prop} (n : Nat) : Pipeline.Flows host ok good p →
      Pipeline.Flows host ok good (p.withStage (.take n))
  | skip {p : Pipeline} {good : Value → Prop} (n : Nat) : Pipeline.Flows host ok good p →
      Pipeline.Flows host ok good (p.withStage (.skip n))

/-- A callback of `flat_map` gave good items or again such a stream, and something is in it. -/
inductive Stage.Feeds (host : Host σ) (ok : σ → Prop) : (Value → Prop) → Value → σ → Prop
  | items {w : Value} {u : Value} {us : List Value} {s : σ} {good : Value → Prop} :
      w.HasItems (u :: us) → (∀ v ∈ u :: us, good v) → ok s → Stage.Feeds host ok good w s
  | stream {id : Identity} {p : Pipeline} {s : σ} {good : Value → Prop} :
      Pipeline.Flows host ok good p → p.StartsAt host s → ok s →
      Stage.Feeds host ok good (.stream id p) s

end

/-- Without a terminal the traversal does what it does with one, so that it is not over at once either. -/
theorem Pipeline.StartsAt.not_over {p : Pipeline} {s s' : σ} (h : p.StartsAt host s)
    (t : Option String) (d : Cursor) :
    ¬ Arrives (fun fuel => (p.cursor t).pull host fuel) s (.ok (none, d) s') := by
  rintro ⟨n, hover⟩
  obtain ⟨v, c, s₁, hstarts⟩ := h
  obtain ⟨d', hnone, -⟩ := (Cursor.freed_cursor p t).pull n _ _ _ _ (hover n (Nat.le_refl n))
  cases hstarts.unique ((p.cursor none).pull_grows.arrives hnone (Eval.complete_ok _ _))

/-- Without a terminal, or with the one of the operation. -/
def Known (terminal : String) (t : Option String) : Prop := t = none ∨ t = some terminal

/-- The stage keeps what is wanted of the traversal behind it. As a bound it asks of that traversal only
that pulls end. -/
structure Stage.Keeps (host : Host σ) (ok : σ → Prop) (good good' : Value → Prop)
    (terminal : String) (stage : Stage) : Prop where
  lively : ∀ (c : Cursor) (t : Option String), Known terminal t → c.Lively host ok good terminal →
    (c.push (.ofStage t stage)).Lively host ok good' terminal
  finite : ∀ c : Cursor, c.Finite host ok good terminal →
    (c.push (.ofStage (some terminal) stage)).Finite host ok good' terminal
  bound : stage.isTake = true → ∀ c : Cursor, c.Lively host ok good terminal →
    (c.push (.ofStage (some terminal) stage)).Finite host ok good' terminal

/-- The traversals of the stream are lively, and the one with the terminal is finite if the shape of the
stream bounds it. -/
structure Pipeline.Keeps (host : Host σ) (ok : σ → Prop) (good : Value → Prop) (terminal : String)
    (p : Pipeline) : Prop where
  lively : ∀ t, Known terminal t → (p.cursor t).Lively host ok good terminal
  finite : p.isBounded = true → (p.cursor (some terminal)).Finite host ok good terminal

/-- What a callback of `flat_map` gave is refused with the terminal, or is fit to be parked. -/
def Stage.Fed (host : Host σ) (ok : σ → Prop) (good : Value → Prop) (terminal : String)
    (w : Value) (s : σ) : Prop :=
  ok s ∧ ∀ t, Known terminal t →
    InnerCursor.ofValue t w = .error (.unboundedStream terminal) ∨
      ∃ inner, InnerCursor.ofValue t w = .ok inner ∧ Cursor.Starts host ok good terminal inner s ∧
        (t = some terminal → Cursor.RunsOut host ok good terminal inner)

theorem Pipeline.Keeps.of_source {source : Source}
    (h : (SourceCursor.ofSource source).Flows host ok good) :
    (Pipeline.ofSource source).Keeps host ok good terminal := by
  refine ⟨fun _ _ => Cursor.lively_source h, fun hbounded => Cursor.finite_source h ?_⟩
  cases source with
  | infinite g => cases hbounded
  | _ => trivial

theorem Pipeline.Keeps.withStage {p : Pipeline} {stage : Stage}
    (hp : p.Keeps host ok good terminal) (hstage : stage.Keeps host ok good good' terminal) :
    (p.withStage stage).Keeps host ok good' terminal := by
  refine ⟨fun t ht => ?_, fun hbounded => ?_⟩
  · rw [cursor_withStage]
    refine hstage.lively _ t ht (hp.lively _ ?_)
    split
    · exact .inl rfl
    · exact ht
  · rw [cursor_withStage]
    cases htake : stage.isTake with
    | true => exact hstage.bound htake _ (hp.lively none (.inl rfl))
    | false =>
      refine hstage.finite _ (hp.finite ?_)
      simpa [isBounded, Pipeline.withStage, htake] using hbounded

theorem Stage.Keeps.of_map {f : Value} (hf : ∀ v, good v → host.Promises ok f v good') :
    Keeps host ok good good' terminal (.map f) :=
  ⟨fun _ _ _ hc => hc.map hf, fun _ hc => hc.map hf, nofun⟩

theorem Stage.Keeps.of_take (n : Nat) : Keeps host ok good good terminal (.take n) :=
  ⟨fun _ _ _ hc => hc.take n, fun _ hc => hc.lively.take_finite n, fun _ _ hc => hc.take_finite n⟩

theorem Stage.Keeps.of_skip (n : Nat) : Keeps host ok good good terminal (.skip n) :=
  ⟨fun _ _ _ hc => hc.skip n, fun _ hc => hc.skip n, nofun⟩

theorem Stage.Fed.of_items {w u : Value} {us : List Value} {s : σ} (hw : w.HasItems (u :: us))
    (hgood : ∀ v ∈ u :: us, good v) (hs : ok s) : Fed host ok good terminal w s :=
  ⟨hs, fun t _ => .inr ⟨.items (u :: us), InnerCursor.ofValue_of_hasItems t hw,
    ⟨List.cons_ne_nil u us, hgood⟩, fun _ => hgood⟩⟩

theorem Stage.Fed.of_stream {id : Identity} {p : Pipeline} {s : σ}
    (h : p.Keeps host ok good terminal) (hstarts : p.StartsAt host s) (hs : ok s) :
    Fed host ok good terminal (.stream id p) s := by
  refine ⟨hs, ?_⟩
  rintro t (rfl | rfl)
  · exact .inr ⟨_, rfl, ⟨h.lively none (.inl rfl), fun d s' => hstarts.not_over none d⟩, nofun⟩
  · rw [InnerCursor.ofValue, Pipeline.boundedCursor]
    cases hbounded : p.isBounded with
    | false => exact .inl rfl
    | true =>
      exact .inr ⟨_, rfl, ⟨h.lively _ (.inr rfl), fun d s' => hstarts.not_over _ d⟩,
        fun _ => h.finite hbounded⟩

theorem Stage.Keeps.of_flatMap {f : Value}
    (hf : ∀ v s w s', good v → ok s → host f [v] s = .ok w s' → Fed host ok good' terminal w s') :
    Keeps host ok good good' terminal (.flatMap f) where
  lively c t ht hc := by
    refine hc.flatMap fun v s w s' hv hs hw => ?_
    obtain ⟨hs', hopen⟩ := hf v s w s' hv hs hw
    refine ⟨hs', (hopen t ht).imp id ?_⟩
    rintro ⟨inner, hinner, hstarts, -⟩
    exact ⟨inner, hinner, hstarts⟩
  finite c hc := by
    refine hc.flatMap fun v s w s' hv hs hw => ?_
    obtain ⟨hs', hopen⟩ := hf v s w s' hv hs hw
    refine ⟨hs', (hopen _ (.inr rfl)).imp id ?_⟩
    rintro ⟨inner, hinner, -, hout⟩
    exact ⟨inner, hinner, hout rfl⟩
  bound := nofun

/-- The induction is on how deep the streams are nested. -/
theorem Pipeline.Flows.keeps {p : Pipeline} (h : p.Flows host ok good) :
    p.Keeps host ok good terminal := by
  induction h using Pipeline.Flows.rec
    (motive_2 := fun good w s _ => Stage.Fed host ok good terminal w s) with
  | source h => exact .of_source h
  | map _ hf ih => exact ih.withStage (.of_map hf)
  | flatMap _ _ ih ihFed => exact ih.withStage (.of_flatMap ihFed)
  | take n _ ih => exact ih.withStage (.of_take n)
  | skip n _ ih => exact ih.withStage (.of_skip n)
  | items hw hgood hs => exact .of_items hw hgood hs
  | stream _ hstarts hs ih => exact .of_stream ih hstarts hs

/-- The computation comes to a value or to a refusal, or fails as a callback did. -/
inductive Settles {α : Type} (host : Host σ) (terminal : String) (x : Nat → Eval σ α) (s : σ) : Prop
  | value {a : α} {s' : σ} : Arrives x s (.ok a s') → Settles host terminal x s
  | refused {s' : σ} : Arrives x s (.error (.refusal terminal) s') → Settles host terminal x s
  | failed {u : Unwind} {s' : σ} : Arrives x s (.error u s') → host.Fails u s' →
      Settles host terminal x s

/-- The loop over a traversal that runs out comes to its end. -/
theorem Cursor.Finite.fold {β : Type} (step : β → Value → Eval σ β) (next : β → Value → β)
    (hstep : ∀ acc v, step acc v = pure (next acc v)) {c : Cursor}
    (h : c.Finite host ok good terminal) (acc : β) {s : σ} (hs : ok s) :
    Settles host terminal (fun fuel => c.fold host step fuel acc) s := by
  refine Cursor.Finite.inductionOn (P := fun d => ∀ acc s, ok s →
    Settles host terminal (fun fuel => d.fold host step fuel acc) s) h (fun d hd acc s hs => ?_)
    acc s hs
  cases hd s hs with
  | ended ha hs' => exact .value (.step (ha.bind (.of_eq rfl)))
  | @element e v s₁ ha hs' _ he =>
    have hmore : ∀ r, Arrives (fun fuel => e.fold host step fuel (next acc v)) s₁ r →
        Arrives (fun fuel => d.fold host step fuel acc) s r := fun r hr =>
      .step (ha.bind (by simpa only [hstep, pure_bind] using hr))
    cases he.2 (next acc v) s₁ hs' with
    | value hb => exact .value (hmore _ hb)
    | refused hb => exact .refused (hmore _ hb)
    | failed hb hu => exact .failed (hmore _ hb) hu
  | refused ha => exact .refused (.step ha.bind_error)
  | failed ha hu => exact .failed (.step ha.bind_error) hu

theorem Pipeline.Flows.drain {p : Pipeline} (h : p.Flows host ok good) (terminal : String) {s : σ}
    (hs : ok s) : Settles host terminal (fun fuel => p.drain host fuel terminal) s := by
  cases hbounded : p.isBounded with
  | false =>
    refine .refused (⟨0, fun fuel _ => ?_⟩ : Arrives _ s (.error (.refusal terminal) s))
    simp only [Pipeline.drain, boundedCursor, hbounded]
    rfl
  | true =>
    simp only [Pipeline.drain, boundedCursor, hbounded, if_true]
    cases (h.keeps.finite hbounded).fold (fun vs v => return v :: vs) (fun vs v => v :: vs)
      (fun _ _ => rfl) [] hs with
    | value ha => exact .value (ha.bind (.of_eq rfl))
    | refused ha => exact .refused ha.bind_error
    | failed ha hu => exact .failed ha.bind_error hu

/-! The run with its record -/

namespace Host.Call

/-- The state without the record. -/
def detach {α : Type} : EStateM.Result Unwind (σ × List (Host.Call σ)) α → EStateM.Result Unwind σ α
  | .ok a s => .ok a s.1
  | .error u s => .error u s.1

theorem detach_attach {α : Type} (calls : List (Host.Call σ)) (r : EStateM.Result Unwind σ α) :
    detach (attach calls r) = r := by
  cases r <;> rfl

/-- The record that is left. -/
def made {α : Type} : EStateM.Result Unwind (σ × List (Host.Call σ)) α → List (Host.Call σ)
  | .ok _ s => s.2
  | .error _ s => s.2

end Host.Call

open Host.Call (attach detach made)

/-- A run arrives where it does with a record. -/
theorem Eval.Recorded.detach {α : Type} {x : Nat → Eval σ α}
    {y : Nat → Eval (σ × List (Host.Call σ)) α} (h : ∀ fuel, (x fuel).Recorded (y fuel))
    {s : σ} {calls : List (Host.Call σ)} {r : EStateM.Result Unwind (σ × List (Host.Call σ)) α}
    (hy : Arrives y (s, calls) r) : Arrives x s (Host.Call.detach r) := by
  obtain ⟨n, hn⟩ := hy
  refine ⟨n, fun fuel hle => ?_⟩
  obtain ⟨more, hmore⟩ := h fuel s calls
  rw [← hn fuel hle, hmore, Host.Call.detach_attach]

theorem Host.recorded_eq_ok {f w : Value} {args : List Value} {s s' : σ × List (Host.Call σ)}
    (h : host.recorded f args s = .ok w s') : host f args s.1 = .ok w s'.1 := by
  rw [Host.recorded] at h
  cases hcall : host f args s.1 with
  | ok v s₁ =>
    rw [hcall] at h
    cases h
    rfl
  | error u s₁ =>
    rw [hcall] at h
    cases h

/-- A call that fails is in the record of the run it ends. -/
theorem Host.Fails.recorded {u : Unwind} {s' : σ × List (Host.Call σ)}
    (h : host.recorded.Fails u s') : ∃ call ∈ s'.2, ¬ call.Returned := by
  obtain ⟨f, args, s, h⟩ := h
  rw [Host.recorded] at h
  cases hcall : host f args s.1 with
  | ok v s₁ =>
    rw [hcall] at h
    cases h
  | error u s₁ =>
    rw [hcall] at h
    cases h
    refine ⟨_, List.mem_cons_self, ?_⟩
    rintro ⟨v, s₂, ⟨⟩⟩

theorem Host.Promises.recorded {f v : Value} (h : host.Promises ok f v good) :
    host.recorded.Promises (fun s => ok s.1) f v good :=
  fun s w s' hs hw => h s.1 w s'.1 hs (Host.recorded_eq_ok hw)

theorem SourceCursor.Flows.recorded {source : SourceCursor} (h : source.Flows host ok good) :
    source.Flows host.recorded (fun s => ok s.1) good := by
  cases source with
  | generate _ _ g => exact fun n hn => (h n hn).recorded
  | items _ => exact h
  | range _ _ _ => exact h
  | done => trivial

theorem Pipeline.StartsAt.recorded {p : Pipeline} {s : σ} (h : p.StartsAt host s)
    (calls : List (Host.Call σ)) : p.StartsAt host.recorded (s, calls) := by
  obtain ⟨v, c, s', n, hn⟩ := h
  obtain ⟨more, hmore⟩ := (p.cursor none).pull_recorded host n s calls
  have hpull : (p.cursor none).pull host n s = .ok (some v, c) s' := hn n (Nat.le_refl n)
  rw [hpull] at hmore
  exact ⟨v, c, _, (p.cursor none).pull_grows.arrives hmore (Eval.complete_ok _ _)⟩

theorem Pipeline.Flows.recorded {p : Pipeline} (h : p.Flows host ok good) :
    p.Flows host.recorded (fun s => ok s.1) good := by
  induction h using Pipeline.Flows.rec
    (motive_2 := fun good w s _ => ∀ calls : List (Host.Call σ),
      Stage.Feeds host.recorded (fun s => ok s.1) good w (s, calls)) with
  | source h => exact .source h.recorded
  | map _ hf ih => exact .map ih fun v hv => (hf v hv).recorded
  | flatMap _ _ ih ihFeeds =>
    exact .flatMap ih fun v s w s' hv hs hw =>
      ihFeeds v s.1 w s'.1 hv hs (Host.recorded_eq_ok hw) s'.2
  | take n _ ih => exact .take n ih
  | skip n _ ih => exact .skip n ih
  | items hw hgood hs calls => exact .items hw hgood hs
  | stream _ hstarts hs ih calls => exact .stream ih (hstarts.recorded calls) hs

/-- The callbacks are total on what they are asked about: where draining the stream comes to an end, each
call of the run gave a value. -/
def Pipeline.Answered (host : Host σ) (p : Pipeline) (terminal : String) (s : σ) : Prop :=
  ∀ r, Arrives (fun fuel => p.drain host.recorded fuel terminal) (s, []) r →
    ∀ call ∈ made r, call.Returned

theorem Pipeline.isBounded_eq_false {p : Pipeline} (h : p.isBounded = false) :
    (∃ g, p.source = .infinite g) ∧ ∀ n, .take n ∉ p.stages := by
  obtain ⟨source, stages⟩ := p
  simp only [isBounded, Bool.or_eq_false_iff, List.any_eq_false] at h
  refine ⟨?_, fun n hn => h.2 _ hn rfl⟩
  cases source <;> cases h.1
  exact ⟨_, rfl⟩

/-- Draining the stream ends, with a list or with the refusal. It is refused only if the stream itself has an
endless source and no `take`, or an inner stream has that a `flat_map` without a later `take` got in
this run. -/
theorem Pipeline.drain_terminates {p : Pipeline} (h : p.Flows host ok good) (terminal : String)
    {s : σ} (hs : ok s) (hcalls : p.Answered host terminal s) :
    (∃ vs s', Arrives (fun fuel => p.drain host fuel terminal) s (.ok vs s')) ∨
    ∃ fault s' calls q,
      fault.message = "unbounded stream reaches `" ++ terminal ++ "` without a bounding `take`" ∧
      Arrives (fun fuel => p.drain host fuel terminal) s (.error (.fail fault 0) s') ∧
      Arrives (fun fuel => p.drain host.recorded fuel terminal) (s, [])
        (.error (.fail fault 0) (s', calls)) ∧
      p.Exposes calls q ∧ (∃ g, q.source = .infinite g) ∧ ∀ n, .take n ∉ q.stages := by
  have hplain := fun fuel => p.drain_recorded host fuel terminal
  cases h.recorded.drain terminal (s := (s, [])) hs with
  | @value vs s' hvs => exact .inl ⟨vs, s'.1, Eval.Recorded.detach hplain hvs⟩
  | @refused s' hrefused =>
    have hblamed : p.Blamed s'.2 := by
      obtain ⟨n, hn⟩ := hrefused
      exact (p.drain_accounts host n terminal (s, [])).refused (hn n (Nat.le_refl n))
    rcases hblamed with ⟨call, hmem, hfailed⟩ | ⟨q, hq, hbounded⟩
    · exact absurd (hcalls _ hrefused call hmem) hfailed
    · exact .inr ⟨.unboundedStream terminal, s'.1, s'.2, q, rfl,
        Eval.Recorded.detach hplain hrefused, hrefused, hq, isBounded_eq_false hbounded⟩
  | failed ha hu =>
    obtain ⟨call, hmem, hfailed⟩ := hu.recorded
    exact absurd (hcalls _ ha call hmem) hfailed

/-- A callback that is a stream gives this stream, a text adds one to a number and fails on the last number
there is and on anything else, and each other callback gives back what it is asked about. -/
def streaming : Host Nat := fun f args n =>
  match f, args with
  | .stream id p, _ => .ok (.stream id p) (n + 1)
  | .text _, [.int k] =>
    if k = Int64.maxValue then .error (.fail .overflow 0) n else .ok (.int (k + 1)) (n + 1)
  | .text _, _ => .error (.fail (.noArm (args.headD .void)) 0) n
  | _, _ => .ok (args.headD .void) (n + 1)

/-- For each number the endless stream of all numbers and one, of which two are skipped and three taken. -/
def endlessInEndless : Pipeline :=
  Pipeline.withStage (Pipeline.withStage (Pipeline.withStage (.ofSource (.infinite .void))
    (.flatMap (.stream ⟨0, []⟩
      (Pipeline.withStage (.ofSource (.infinite .void)) (.map (.text "one more")))))) (.skip 2))
    (.take 3)

instance {α : Type} (r : EStateM.Result Unwind σ α) : Decidable (∃ a s, r = .ok a s) :=
  match r with
  | .ok a s => .isTrue ⟨a, s, rfl⟩
  | .error _ _ => .isFalse nofun

instance (call : Host.Call σ) : Decidable call.Returned :=
  inferInstanceAs (Decidable (∃ v s, call.outcome = .ok v s))

theorem endlessInEndless_answered : endlessInEndless.Answered streaming "collect" 0 := by
  intro r hr
  have hrun : ∃ vs s, endlessInEndless.drain streaming.recorded 12 "collect" (0, []) = .ok vs s := by
    decide +kernel
  have hcalls : ∀ call ∈ made (endlessInEndless.drain streaming.recorded 12 "collect" (0, [])),
      call.Returned := by decide +kernel
  obtain ⟨vs, s, hrun⟩ := hrun
  rw [hrun] at hcalls
  rwa [hr.unique ((endlessInEndless.drain_grows "collect").arrives hrun (Eval.complete_ok vs s))]

theorem endlessInEndless_is_drained :
    endlessInEndless.Flows streaming (fun _ => True) (fun _ => True) ∧
    endlessInEndless.Answered streaming "collect" 0 ∧
    ∃ vs n, Arrives (fun fuel => endlessInEndless.drain streaming fuel "collect") 0 (.ok vs n) := by
  have hany : ∀ f v, streaming.Promises (fun _ => True) f v fun _ => True :=
    fun f v s w s' _ _ => ⟨trivial, trivial⟩
  have hstarts : ∀ n, (Pipeline.withStage (.ofSource (.infinite .void))
      (.map (.text "one more"))).StartsAt streaming n := fun n =>
    ⟨.int 1, _, _, (Pipeline.cursor _ none).pull_grows.arrives (n := 2) rfl (Eval.complete_ok _ _)⟩
  have hflows : endlessInEndless.Flows streaming (fun _ => True) fun _ => True := by
    have hnumbers : (Pipeline.ofSource (.infinite .void)).Flows streaming (fun _ => True)
        fun _ => True := .source fun n _ => hany _ _
    refine .take 3 (.skip 2 (.flatMap hnumbers fun v s w s' _ _ hw => ?_))
    cases hw
    exact .stream (.map hnumbers fun v _ => hany _ _) (hstarts _) trivial
  refine ⟨hflows, endlessInEndless_answered, ?_⟩
  rcases Pipeline.drain_terminates hflows "collect" (s := 0) trivial endlessInEndless_answered with
    hdrained | ⟨_, _, _, q, -, -, -, hq, -, hunbounded⟩
  · exact hdrained
  · rw [endlessInEndless] at hq
    rw [hq.eq_of_take] at hunbounded
    exact absurd (List.mem_append_right _ (List.mem_singleton_self _)) (hunbounded 3)

end StreamLang
