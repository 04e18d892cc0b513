import StreamLang.Proofs.Delivers

/-! One computation is below another when it ends in the same way as the other, or runs out of its
bound first. Larger bounds give computations that are above. -/

namespace StreamLang

namespace Eval

variable {σ α β : Type}

/-- Wherever `x` does not run out of its bound, `y` does the same. -/
def Below (x y : Eval σ α) : Prop :=
  ∀ s, y s = x s ∨ ∃ s', x s = .error .exhausted s'

namespace Below

theorem refl (x : Eval σ α) : x.Below x := fun _ => .inl rfl

theorem trans {x y z : Eval σ α} (hxy : x.Below y) (hyz : y.Below z) : x.Below z := by
  intro s
  rcases hxy s with h | h
  · rcases hyz s with hz | ⟨s', hz⟩
    · exact .inl (hz.trans h)
    · exact .inr ⟨s', h ▸ hz⟩
  · exact .inr h

theorem exhausted (y : Eval σ α) : Below (throw .exhausted) y := fun s => .inr ⟨s, rfl⟩

theorem bind {x y : Eval σ α} {f g : α → Eval σ β} (hx : x.Below y)
    (hf : ∀ a, (f a).Below (g a)) : (x >>= f).Below (y >>= g) := by
  intro s
  rcases hx s with h | ⟨s', h⟩
  · cases hs : x s with
    | ok a s' =>
      rw [bind_of_ok hs, bind_of_ok (h.trans hs)]
      exact hf a s'
    | error u s' =>
      rw [bind_of_error hs, bind_of_error (h.trans hs)]
      exact .inl rfl
  · exact .inr ⟨s', bind_of_error h⟩

/-- The last part of the computation does not depend on the bound. -/
theorem bind_left {x y : Eval σ α} (hx : x.Below y) (f : α → Eval σ β) :
    (x >>= f).Below (y >>= f) :=
  .bind hx fun _ => .refl _

theorem located {x y : Eval σ α} (h : x.Below y) (line : Nat) :
    (x.located line).Below (y.located line) := by
  intro s
  rcases h s with hs | ⟨s', hs⟩
  · exact .inl (by simp only [Eval.located, hs])
  · exact .inr ⟨s', by simp only [Eval.located, hs, Unwind.locate]⟩

theorem restoring {x y : Eval σ α} (h : x.Below y) (restore : σ → σ) :
    (x.restoring restore).Below (y.restoring restore) := by
  intro s
  rcases h s with hs | ⟨s', hs⟩
  · exact .inl (by simp only [Eval.restoring, hs])
  · exact .inr ⟨restore s', by simp only [Eval.restoring, hs]⟩

theorem catchEarly {x y : Eval σ Value} (h : x.Below y) : x.catchEarly.Below y.catchEarly := by
  intro s
  rcases h s with hs | ⟨s', hs⟩
  · exact .inl (by simp only [Eval.catchEarly, hs])
  · exact .inr ⟨s', by simp only [Eval.catchEarly, hs]⟩

theorem mapM {ι : Type} {f g : ι → Eval σ α} (h : ∀ i, (f i).Below (g i)) (is : List ι) :
    (is.mapM f).Below (is.mapM g) := by
  induction is with
  | nil => exact .refl _
  | cons i is ih =>
    rw [List.mapM_cons, List.mapM_cons]
    exact .bind (h i) fun a => .bind_left ih _

theorem foldlM {ι : Type} {f g : α → ι → Eval σ α} (h : ∀ a i, (f a i).Below (g a i))
    (is : List ι) (a : α) : (is.foldlM f a).Below (is.foldlM g a) := by
  induction is generalizing a with
  | nil => exact .refl _
  | cons i is ih =>
    rw [List.foldlM_cons, List.foldlM_cons]
    exact .bind (h a i) ih

theorem forM {ι : Type} {f g : ι → Eval σ PUnit} (h : ∀ i, (f i).Below (g i)) (is : List ι) :
    (is.forM f).Below (is.forM g) := by
  induction is with
  | nil => exact .refl _
  | cons i is ih => exact .bind (h i) fun _ => ih

end Below

end Eval

end StreamLang

/-! What a computation comes to, whatever its bound: the way it ends, without the line of a failure,
and the state it leaves. A family of computations that grows with the bound has such a meaning as a
whole, and the meaning of a sequence of families is the sequence of their meanings. Where the line
counts, it is said from one state where the family arrives. -/

namespace StreamLang

/-- How a computation ends without a value, lines left out. -/
inductive Stop
  /-- A `?` met a failure. -/
  | early (v : Value)
  | failed (message : String)
  /-- It awaits a future that is still pending. -/
  | waiting

/-- Undefined where no bound is enough. -/
abbrev Meaning (σ α : Type) : Type := ExceptT Stop (StateT σ Option) α

namespace Unwind

def stop? : Unwind → Option Stop
  | fail .pendingAwait _ => some .waiting
  | fail fault _ => some (.failed fault.message)
  | early v _ => some (.early v)
  | exhausted => none

@[simp] theorem stop?_locate (line : Nat) (u : Unwind) : (u.locate line).stop? = u.stop? := by
  cases u with
  | fail fault inner => cases inner <;> cases fault <;> rfl
  | early v inner => rfl
  | exhausted => rfl

end Unwind

namespace Meaning

variable {σ α β : Type}

theorem bind_of_ok {m : Meaning σ α} {f : α → Meaning σ β} {s s' : σ} {a : α}
    (h : m s = some (.ok a, s')) : (m >>= f) s = f a s' := by
  show (m s).bind _ = _
  rw [h]
  rfl

theorem bind_of_error {m : Meaning σ α} {f : α → Meaning σ β} {s s' : σ} {stop : Stop}
    (h : m s = some (.error stop, s')) : (m >>= f) s = some (.error stop, s') := by
  show (m s).bind _ = _
  rw [h]
  rfl

theorem bind_of_none {m : Meaning σ α} {f : α → Meaning σ β} {s : σ} (h : m s = none) :
    (m >>= f) s = none := by
  show (m s).bind _ = _
  rw [h]
  rfl

/-- What follows has to agree only on the values that may come. -/
theorem bind_congr_of_ok {m : Meaning σ α} {f g : α → Meaning σ β}
    (h : ∀ s a s', m s = some (.ok a, s') → f a = g a) : m >>= f = m >>= g := by
  funext s
  rcases hm : m s with _ | ⟨a | a, s'⟩
  · rw [bind_of_none hm, bind_of_none hm]
  · rw [bind_of_error hm, bind_of_error hm]
  · rw [bind_of_ok hm, bind_of_ok hm, h s a s' hm]

theorem bind_eq_some_iff {m : Meaning σ α} {f : α → Meaning σ β} {s : σ}
    {r : Except Stop β × σ} :
    (m >>= f) s = some r ↔ (∃ a s', m s = some (.ok a, s') ∧ f a s' = some r) ∨
      ∃ stop s', m s = some (.error stop, s') ∧ r = (.error stop, s') := by
  rcases h : m s with _ | ⟨a | a, s'⟩
  · rw [bind_of_none h]
    simp
  · rw [bind_of_error h]
    simp [and_assoc, eq_comm]
  · rw [bind_of_ok h]
    simp [and_assoc]

end Meaning

namespace Eval

variable {σ α β : Type}

def meaning (x : Eval σ α) : Meaning σ α := fun s =>
  match x s with
  | .ok a s' => some (.ok a, s')
  | .error u s' => u.stop?.map fun stop => (.error stop, s')

theorem meaning_of_ok {x : Eval σ α} {s s' : σ} {a : α} (h : x s = .ok a s') :
    x.meaning s = some (.ok a, s') := by
  simp only [meaning, h]

theorem meaning_of_error {x : Eval σ α} {s s' : σ} {u : Unwind} (h : x s = .error u s') :
    x.meaning s = u.stop?.map fun stop => (.error stop, s') := by
  simp only [meaning, h]

theorem ok_of_meaning {x : Eval σ α} {s s' : σ} {a : α} (h : x.meaning s = some (.ok a, s')) :
    x s = .ok a s' := by
  cases hx : x s with
  | ok b s₁ =>
    rw [meaning_of_ok hx] at h
    cases h
    rfl
  | error u s₁ =>
    rw [meaning_of_error hx] at h
    cases hu : u.stop? <;> simp [hu] at h

@[simp] theorem meaning_pure (a : α) : (pure a : Eval σ α).meaning = pure a := rfl

@[simp] theorem meaning_bind (x : Eval σ α) (f : α → Eval σ β) :
    (x >>= f).meaning = x.meaning >>= fun a => (f a).meaning := by
  funext s
  cases h : x s with
  | ok a s' =>
    rw [Meaning.bind_of_ok (meaning_of_ok h), meaning, bind_of_ok h]
    rfl
  | error u s' =>
    rw [meaning_of_error (bind_of_error h)]
    cases hu : u.stop? with
    | none => rw [Meaning.bind_of_none (by rw [meaning_of_error h, hu]; rfl)]; rfl
    | some stop => rw [Meaning.bind_of_error (by rw [meaning_of_error h, hu]; rfl)]; rfl

@[simp] theorem meaning_located (line : Nat) (x : Eval σ α) :
    (x.located line).meaning = x.meaning := by
  funext s
  cases h : x s with
  | ok a s' => simp only [meaning, located, h]
  | error u s' => simp only [meaning, located, h, Unwind.stop?_locate]

/-- What is below another computation comes to the same, where it comes to anything. -/
theorem Below.meaning {x y : Eval σ α} (h : x.Below y) {s : σ} {r : Except Stop α × σ}
    (hr : x.meaning s = some r) : y.meaning s = some r := by
  rcases h s with hs | ⟨s', hs⟩
  · rw [Eval.meaning, hs]
    exact hr
  · rw [meaning_of_error hs] at hr
    exact absurd hr (by simp [Unwind.stop?])

/-- The larger the bound, the further the computation comes. -/
def Grows (x : Nat → Eval σ α) : Prop := ∀ ⦃m n : Nat⦄, m ≤ n → (x m).Below (x n)

/-- Within some bound the computation ends in that way. -/
def Ends (x : Nat → Eval σ α) (s : σ) (o : Except Stop α) (s' : σ) : Prop :=
  ∃ n, (x n).meaning s = some (o, s')

open Classical in
/-- What a growing family comes to. -/
noncomputable def limit (x : Nat → Eval σ α) : Meaning σ α := fun s =>
  if h : ∃ r n, (x n).meaning s = some r then some h.choose else none

theorem Grows.const (x : Eval σ α) : Grows fun _ => x := fun _ _ _ => .refl x

theorem Grows.bind {x : Nat → Eval σ α} {f : Nat → α → Eval σ β} (hx : Grows x)
    (hf : ∀ a, Grows fun n => f n a) : Grows fun n => x n >>= f n :=
  fun _ _ h => .bind (hx h) fun a => hf a h

theorem Grows.located {x : Nat → Eval σ α} (hx : Grows x) (line : Nat) :
    Grows fun n => (x n).located line :=
  fun _ _ h => .located (hx h) line

namespace Grows

variable {x y : Nat → Eval σ α}

theorem meaning_unique (hx : Grows x) {m n : Nat} {s : σ} {r r' : Except Stop α × σ}
    (hm : (x m).meaning s = some r) (hn : (x n).meaning s = some r') : r = r' := by
  have h := (hx (Nat.le_max_left m n)).meaning hm
  rw [(hx (Nat.le_max_right m n)).meaning hn] at h
  exact (Option.some.inj h).symm

theorem limit_eq_some_iff (hx : Grows x) {s : σ} {r : Except Stop α × σ} :
    limit x s = some r ↔ ∃ n, (x n).meaning s = some r := by
  by_cases h : ∃ r n, (x n).meaning s = some r
  · obtain ⟨m, hm⟩ := h.choose_spec
    rw [limit, dif_pos h, Option.some_inj]
    constructor
    · rintro rfl
      exact ⟨m, hm⟩
    · rintro ⟨n, hn⟩
      exact hx.meaning_unique hm hn
  · rw [limit, dif_neg h]
    constructor
    · rintro ⟨⟩
    · rintro ⟨n, hn⟩
      exact absurd ⟨r, n, hn⟩ h

theorem limit_iff_ends (hx : Grows x) {s s' : σ} {o : Except Stop α} :
    limit x s = some (o, s') ↔ Ends x s o s' :=
  limit_eq_some_iff hx

theorem limit_const (x : Eval σ α) : limit (fun _ => x) = x.meaning := by
  funext s
  refine Option.ext fun r => ?_
  rw [limit_eq_some_iff (Grows.const x)]
  exact ⟨fun ⟨_, h⟩ => h, fun h => ⟨0, h⟩⟩

/-- Families that overtake each other come to the same. -/
theorem limit_eq_of_below (hx : Grows x) (hy : Grows y) (hxy : ∀ n, ∃ m, (x n).Below (y m))
    (hyx : ∀ n, ∃ m, (y n).Below (x m)) : limit x = limit y := by
  funext s
  refine Option.ext fun r => ?_
  rw [limit_eq_some_iff hx, hy.limit_eq_some_iff]
  constructor
  · rintro ⟨n, hn⟩
    obtain ⟨m, hm⟩ := hxy n
    exact ⟨m, hm.meaning hn⟩
  · rintro ⟨n, hn⟩
    obtain ⟨m, hm⟩ := hyx n
    exact ⟨m, hm.meaning hn⟩

theorem limit_succ (hx : Grows x) : limit (fun n => x (n + 1)) = limit x :=
  limit_eq_of_below (fun _ _ h => hx (Nat.succ_le_succ h)) hx (fun n => ⟨n + 1, .refl _⟩)
    fun n => ⟨n, hx (Nat.le_succ n)⟩

theorem limit_bind {f : Nat → α → Eval σ β} (hx : Grows x) (hf : ∀ a, Grows fun n => f n a) :
    limit (fun n => x n >>= f n) = limit x >>= fun a => limit fun n => f n a := by
  funext s
  refine Option.ext fun r => ?_
  rw [limit_eq_some_iff (hx.bind hf), Meaning.bind_eq_some_iff]
  constructor
  · rintro ⟨n, hn⟩
    rw [meaning_bind, Meaning.bind_eq_some_iff] at hn
    obtain ⟨a, s', ha, hr⟩ | ⟨stop, s', hs, rfl⟩ := hn
    · exact .inl ⟨a, s', (limit_eq_some_iff hx).2 ⟨n, ha⟩, (limit_eq_some_iff (hf a)).2 ⟨n, hr⟩⟩
    · exact .inr ⟨stop, s', (limit_eq_some_iff hx).2 ⟨n, hs⟩, rfl⟩
  · rintro (⟨a, s', ha, hr⟩ | ⟨stop, s', hs, rfl⟩)
    · obtain ⟨m, hm⟩ := (limit_eq_some_iff hx).1 ha
      obtain ⟨n, hn⟩ := (limit_eq_some_iff (hf a)).1 hr
      refine ⟨max m n, ?_⟩
      rw [meaning_bind, Meaning.bind_eq_some_iff]
      exact .inl ⟨a, s', (hx (Nat.le_max_left m n)).meaning hm,
        (hf a (Nat.le_max_right m n)).meaning hn⟩
    · obtain ⟨n, hn⟩ := (limit_eq_some_iff hx).1 hs
      refine ⟨n, ?_⟩
      rw [meaning_bind, Meaning.bind_eq_some_iff]
      exact .inr ⟨stop, s', hn, rfl⟩

/-- What follows does not depend on the bound. -/
theorem limit_bind_left (hx : Grows x) (f : α → Eval σ β) :
    limit (fun n => x n >>= f) = limit x >>= fun a => (f a).meaning := by
  rw [hx.limit_bind fun a => .const (f a)]
  exact bind_congr fun a => limit_const (f a)

/-- What comes first does not depend on the bound. -/
theorem limit_bind_right (x : Eval σ α) {f : Nat → α → Eval σ β}
    (hf : ∀ a, Grows fun n => f n a) :
    limit (fun n => x >>= f n) = x.meaning >>= fun a => limit fun n => f n a := by
  rw [limit_bind (.const x) hf, limit_const]

theorem limit_located (hx : Grows x) (line : Nat) :
    limit (fun n => (x n).located line) = limit x := by
  funext s
  refine Option.ext fun r => ?_
  rw [limit_eq_some_iff (hx.located line), limit_eq_some_iff hx]
  simp only [meaning_located]

end Grows

end Eval

end StreamLang

/-! Where a computation with a bound arrives from one state: the way it ends within every bound that
is large enough, the state it leaves included. It need not arrive anywhere. -/

namespace StreamLang.Eval

variable {σ α β : Type}

/-- Within every large enough bound the computation ends in this way. -/
def Arrives (x : Nat → Eval σ α) (s : σ) (r : EStateM.Result Unwind σ α) : Prop :=
  ∃ n, ∀ fuel ≥ n, x fuel s = r

/-- The computation did not run out of its bound. -/
def Complete (r : EStateM.Result Unwind σ α) : Prop := ∀ s, r ≠ .error .exhausted s

namespace Arrives

variable {x : Nat → Eval σ α} {f : Nat → α → Eval σ β} {s s' : σ} {a : α}

theorem of_eq {x : Eval σ α} {r : EStateM.Result Unwind σ α} (h : x s = r) :
    Arrives (fun _ => x) s r :=
  ⟨0, fun _ _ => h⟩

theorem unique {r r' : EStateM.Result Unwind σ α} (h : Arrives x s r) (h' : Arrives x s r') :
    r = r' := by
  obtain ⟨m, hm⟩ := h
  obtain ⟨n, hn⟩ := h'
  exact (hm (max m n) (by omega)).symm.trans (hn (max m n) (by omega))

theorem bind {r : EStateM.Result Unwind σ β} (hx : Arrives x s (.ok a s'))
    (hf : Arrives (fun fuel => f fuel a) s' r) : Arrives (fun fuel => x fuel >>= f fuel) s r := by
  obtain ⟨m, hm⟩ := hx
  obtain ⟨n, hn⟩ := hf
  exact ⟨max m n, fun fuel hle => (bind_of_ok (hm fuel (by omega))).trans (hn fuel (by omega))⟩

theorem bind_error {u : Unwind} (hx : Arrives x s (.error u s')) :
    Arrives (fun fuel => x fuel >>= f fuel) s (.error u s') := by
  obtain ⟨m, hm⟩ := hx
  exact ⟨m, fun fuel hle => bind_of_error (hm fuel hle)⟩

/-- One step of the bound may be used up. -/
theorem step {r : EStateM.Result Unwind σ α} (h : Arrives (fun fuel => x (fuel + 1)) s r) :
    Arrives x s r := by
  obtain ⟨n, hn⟩ := h
  refine ⟨n + 1, fun fuel hle => ?_⟩
  obtain ⟨k, rfl⟩ : ∃ k, fuel = k + 1 := ⟨fuel - 1, by omega⟩
  exact hn k (by omega)

/-- A larger bound from the start makes no difference. -/
theorem later {r : EStateM.Result Unwind σ α}
    (h : Arrives x s r) : Arrives (fun n => x (n + 1)) s r := by
  obtain ⟨n, hn⟩ := h
  exact ⟨n, fun fuel hle => hn (fuel + 1) (by omega)⟩

end Arrives

theorem complete_ok (a : α) (s : σ) : Complete (.ok a s : EStateM.Result Unwind σ α) := by
  rintro _ ⟨⟩

/-- What ends below without running out of its bound ends above in the same way. -/
theorem Below.eq_of_complete {x y : Eval σ α} (h : x.Below y) {s : σ}
    {r : EStateM.Result Unwind σ α} (hx : x s = r) (hr : Complete r) : y s = r := by
  rcases h s with hs | ⟨s', hs⟩
  · exact hs.trans hx
  · exact absurd (hx.symm.trans hs) (hr s')

/-- What a growing family ends with once, it ends with for good. -/
theorem Grows.arrives {x : Nat → Eval σ α} (hx : Grows x) {n : Nat} {s : σ}
    {r : EStateM.Result Unwind σ α} (hn : x n s = r) (hr : Complete r) : Arrives x s r :=
  ⟨n, fun _ hle => (hx hle).eq_of_complete hn hr⟩

/-- A sequence arrives by way of its first part. -/
theorem Arrives.bind_cases {x : Nat → Eval σ α} {f : Nat → α → Eval σ β} {s : σ}
    {r : EStateM.Result Unwind σ β} (hx : Grows x) (h : Arrives (fun n => x n >>= f n) s r)
    (hr : Complete r) :
    (∃ a s', Arrives x s (.ok a s') ∧ Arrives (fun n => f n a) s' r) ∨
      ∃ u s', Arrives x s (.error u s') ∧ r = .error u s' := by
  obtain ⟨n, hn⟩ := h
  cases hfirst : x n s with
  | ok a s' =>
    have hcomplete : Complete (.ok a s' : EStateM.Result Unwind σ α) := complete_ok a s'
    refine .inl ⟨a, s', hx.arrives hfirst hcomplete, n, fun fuel hle => ?_⟩
    have hlater := (hx hle).eq_of_complete hfirst hcomplete
    exact (bind_of_ok hlater).symm.trans (hn fuel hle)
  | error u s' =>
    have hends : r = .error u s' := (hn n (Nat.le_refl n)).symm.trans (bind_of_error hfirst)
    refine .inr ⟨u, s', hx.arrives hfirst ?_, hends⟩
    rintro s₁ ⟨⟩
    exact hr s' hends

end StreamLang.Eval
