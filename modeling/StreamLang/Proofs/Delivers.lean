import StreamLang.Eval

/-! A computation with a bound delivers a value when every large enough bound makes it end with that
value. It is asked only in the states of a class `ok`, and must leave a state of the class, so that
what delivers can be put in sequence. -/

namespace StreamLang

namespace Eval

variable {σ α β : Type}

theorem get_bind_apply (f : σ → Eval σ α) (s : σ) : (get >>= f) s = f s s := rfl

theorem modify_apply (f : σ → σ) (s : σ) : (modify f : Eval σ PUnit) s = .ok ⟨⟩ (f s) := rfl

theorem modifyGet_apply (f : σ → α × σ) (s : σ) :
    (modifyGet f : Eval σ α) s = .ok (f s).1 (f s).2 := rfl

theorem fail_apply (fault : Fault) (s : σ) :
    (fail fault : Eval σ α) s = .error (.fail fault 0) s := rfl

theorem bind_of_ok {x : Eval σ α} {f : α → Eval σ β} {s s' : σ} {a : α} (h : x s = .ok a s') :
    (x >>= f) s = f a s' := by
  show EStateM.bind x f s = _
  simp only [EStateM.bind, h]

theorem bind_of_error {x : Eval σ α} {f : α → Eval σ β} {s s' : σ} {u : Unwind}
    (h : x s = .error u s') : (x >>= f) s = .error u s' := by
  show EStateM.bind x f s = _
  simp only [EStateM.bind, h]

/-- What comes first ends in the same way. -/
theorem bind_of_same {x y : Eval σ α} {s t : σ} (h : x s = y t) (f : α → Eval σ β) :
    (x >>= f) s = (y >>= f) t := by
  show EStateM.bind x f s = EStateM.bind y f t
  simp only [EStateM.bind, h]

theorem bind_eq_ok {x : Eval σ α} {f : α → Eval σ β} {s s' : σ} {b : β}
    (h : (x >>= f) s = .ok b s') : ∃ a s₁, x s = .ok a s₁ ∧ f a s₁ = .ok b s' := by
  cases hx : x s with
  | ok a s₁ => exact ⟨a, s₁, rfl, by rwa [bind_of_ok hx] at h⟩
  | error u s₁ => rw [bind_of_error hx] at h; cases h

theorem bind_eq_error {x : Eval σ α} {f : α → Eval σ β} {s t : σ} {u : Unwind}
    (h : (x >>= f) s = .error u t) :
    x s = .error u t ∨ ∃ a s₁, x s = .ok a s₁ ∧ f a s₁ = .error u t := by
  cases hx : x s with
  | ok a s₁ => exact .inr ⟨a, s₁, rfl, by rwa [bind_of_ok hx] at h⟩
  | error u' s₁ =>
    rw [bind_of_error hx] at h
    cases h
    exact .inl rfl

def Delivers (ok : σ → Prop) (x : Nat → Eval σ α) (a : α) : Prop :=
  ∃ n, ∀ fuel, n ≤ fuel → ∀ s, ok s → ∃ s', ok s' ∧ x fuel s = .ok a s'

namespace Delivers

variable {ok : σ → Prop}

theorem pure (a : α) : Delivers ok (fun _ => Pure.pure a) a :=
  ⟨0, fun _ _ s hs => ⟨s, hs, rfl⟩⟩

theorem bind {x : Nat → Eval σ α} {f : Nat → α → Eval σ β} {a : α} {b : β}
    (hx : Delivers ok x a) (hf : Delivers ok (fun fuel => f fuel a) b) :
    Delivers ok (fun fuel => x fuel >>= f fuel) b := by
  obtain ⟨m, hm⟩ := hx
  obtain ⟨n, hn⟩ := hf
  refine ⟨max m n, fun fuel hle s hs => ?_⟩
  obtain ⟨s₁, hs₁, h₁⟩ := hm fuel (by omega) s hs
  obtain ⟨s₂, hs₂, h₂⟩ := hn fuel (by omega) s₁ hs₁
  exact ⟨s₂, hs₂, (bind_of_ok h₁).trans h₂⟩

/-- One step of the bound may be used up. -/
theorem step {x : Nat → Eval σ α} {a : α} (h : Delivers ok (fun fuel => x (fuel + 1)) a) :
    Delivers ok x a := by
  obtain ⟨n, hn⟩ := h
  refine ⟨n + 1, fun fuel hle s hs => ?_⟩
  obtain ⟨k, rfl⟩ : ∃ k, fuel = k + 1 := ⟨fuel - 1, by omega⟩
  exact hn k (by omega) s hs

/-- The value is the only one, as long as there is a state to start from. -/
theorem unique {x : Nat → Eval σ α} {a b : α} {s : σ} (hs : ok s) (ha : Delivers ok x a)
    (hb : Delivers ok x b) : a = b := by
  obtain ⟨m, hm⟩ := ha
  obtain ⟨n, hn⟩ := hb
  obtain ⟨s₁, -, h₁⟩ := hm (max m n) (by omega) s hs
  obtain ⟨s₂, -, h₂⟩ := hn (max m n) (by omega) s hs
  rw [h₁] at h₂
  exact (EStateM.Result.ok.inj h₂).1

end Delivers

end Eval

end StreamLang
