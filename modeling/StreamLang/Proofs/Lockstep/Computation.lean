import StreamLang.Proofs.Delivers
import StreamLang.Proofs.Lockstep.Permit

/-! Two computations in lockstep. From related states they end in the same way, in related states;
only after an unwinding of the first that is excused nothing is asked of the second. What may occur
in the values they give, and how much the lines of their failures matter, is up to the terms. -/

namespace StreamLang

/-- The terms on which two computations keep step. -/
structure Terms where
  permit : Permit
  /-- The lines of failures are compared. -/
  lines : Prop
  excused : Unwind → Prop
  not_excused_early : ∀ v line, ¬ excused (.early v line)
  excused_locate : ∀ u line, excused u → excused (u.locate line)

namespace Terms

variable (T : Terms)

/-- Lines that count as the same. -/
def SameLine (line line' : Nat) : Prop := T.lines → line = line'

inductive Unwinds : Unwind → Unwind → Prop
  | fail (fault : Fault) {line line' : Nat} (h : T.SameLine line line') :
    Unwinds (.fail fault line) (.fail fault line')
  | early {v : Value} {line line' : Nat} (hv : v.Permitted T.permit) (h : T.SameLine line line') :
    Unwinds (.early v line) (.early v line')
  | exhausted : Unwinds .exhausted .exhausted

/-- The ends of two computations, in related states with related values. -/
inductive Ends {σ α β : Type} (R : σ → σ → Prop) (V : α → β → Prop) :
    EStateM.Result Unwind σ α → EStateM.Result Unwind σ β → Prop
  | value {a : α} {b : β} {s t : σ} (h : V a b) (hs : R s t) : Ends R V (.ok a s) (.ok b t)
  | unwinding {u w : Unwind} {s t : σ} (h : T.Unwinds u w) (hs : R s t) :
    Ends R V (.error u s) (.error w t)
  | excused {u : Unwind} {s : σ} {r : EStateM.Result Unwind σ β} (h : T.excused u) :
    Ends R V (.error u s) r

/-- The first bound may be smaller, if it is excused to run out of it. -/
def Bounds (m n : Nat) : Prop := m = n ∨ T.excused .exhausted ∧ m ≤ n

variable {T}

theorem Bounds.step {m n : Nat} (h : T.Bounds (m + 1) n) : ∃ k, n = k + 1 ∧ T.Bounds m k := by
  obtain rfl | ⟨hT, hle⟩ := h
  · exact ⟨m, rfl, .inl rfl⟩
  · exact ⟨n - 1, by omega, .inr ⟨hT, by omega⟩⟩

theorem SameLine.refl (line : Nat) : T.SameLine line line := fun _ => rfl

theorem Unwinds.eq (hT : T.lines) {u w : Unwind} (h : T.Unwinds u w) : u = w := by
  cases h with
  | fail fault hline => rw [hline hT]
  | early hv hline => rw [hline hT]
  | exhausted => rfl

theorem Unwinds.locate {u w : Unwind} {line line' : Nat} (h : T.Unwinds u w)
    (hline : T.SameLine line line') : T.Unwinds (u.locate line) (w.locate line') := by
  cases h with
  | @fail fault inner inner' h =>
    have hlocate : ∀ outer inner, Unwind.locate outer (.fail fault inner) =
        .fail fault (if inner = 0 then outer else inner) := by
      intro outer inner
      cases inner <;> rfl
    rw [hlocate, hlocate]
    exact .fail fault fun hT => by rw [h hT, hline hT]
  | early hv h => exact .early hv h
  | exhausted => exact .exhausted

end Terms

namespace Eval

variable {σ α β α' β' : Type} {T : Terms} {R R' : σ → σ → Prop} {V : α → β → Prop}
  {W : α' → β' → Prop}

/-- From related states the two computations end alike. -/
def Lockstep (T : Terms) (R : σ → σ → Prop) (V : α → β → Prop) (x : Eval σ α) (y : Eval σ β) :
    Prop :=
  ∀ s t, R s t → T.Ends R V (x s) (y t)

/-- The two computations keep step, and give the same value, which has the property `P`. -/
abbrev Agree (T : Terms) (R : σ → σ → Prop) (P : α → Prop) (x y : Eval σ α) : Prop :=
  Lockstep T R (fun a b => a = b ∧ P a) x y

namespace Lockstep

theorem pure {a : α} {b : β} (h : V a b) : Lockstep T R V (Pure.pure a) (Pure.pure b) :=
  fun _ _ hs => .value h hs

theorem throw {u w : Unwind} (h : T.Unwinds u w) :
    Lockstep T R V (MonadExcept.throw u) (MonadExcept.throw w) :=
  fun _ _ hs => .unwinding h hs

theorem throw_excused {u : Unwind} (h : T.excused u) (y : Eval σ β) :
    Lockstep T R V (MonadExcept.throw u) y :=
  fun _ _ _ => .excused h

/-- The first computation has run out of its bound. -/
theorem exhausted {y : Nat → Eval σ β} (hy : y 0 = MonadExcept.throw .exhausted) {n : Nat}
    (h : T.Bounds 0 n) : Lockstep T R V (MonadExcept.throw .exhausted : Eval σ α) (y n) := by
  obtain rfl | ⟨hT, -⟩ := h
  · rw [hy]
    exact .throw .exhausted
  · exact .throw_excused hT _

theorem failAt (fault : Fault) {line line' : Nat} (h : T.SameLine line line') :
    Lockstep T R V (Eval.failAt fault line) (Eval.failAt fault line') :=
  .throw (.fail fault h)

theorem fail (fault : Fault) : Lockstep T R V (Eval.fail fault) (Eval.fail fault) :=
  .failAt fault (.refl 0)

theorem bind {x : Eval σ α} {y : Eval σ β} {f : α → Eval σ α'} {g : β → Eval σ β'}
    (hx : Lockstep T R V x y) (hf : ∀ a b, V a b → Lockstep T R W (f a) (g b)) :
    Lockstep T R W (x >>= f) (y >>= g) := by
  intro s t hs
  cases hx' : x s with
  | ok a s' =>
    have h := hx s t hs
    rw [hx'] at h
    cases hy : y t with
    | ok b t' =>
      rw [hy] at h
      cases h with
      | value hab hs' =>
        rw [bind_of_ok hx', bind_of_ok hy]
        exact hf a b hab s' t' hs'
    | error w t' =>
      rw [hy] at h
      cases h
  | error u s' =>
    rw [bind_of_error hx']
    have h := hx s t hs
    rw [hx'] at h
    cases hy : y t with
    | ok b t' =>
      rw [hy] at h
      cases h with
      | excused hu => exact .excused hu
    | error w t' =>
      rw [hy] at h
      rw [bind_of_error hy]
      cases h with
      | unwinding hu hs' => exact .unwinding hu hs'
      | excused hu => exact .excused hu

theorem weaken {V' : α → β → Prop} {x : Eval σ α} {y : Eval σ β} (h : Lockstep T R V x y)
    (hV : ∀ a b, V a b → V' a b) : Lockstep T R V' x y := by
  intro s t hs
  have h := h s t hs
  generalize x s = r, y t = r' at h ⊢
  cases h with
  | value hab hs' => exact .value (hV _ _ hab) hs'
  | unwinding hu hs' => exact .unwinding hu hs'
  | excused hu => exact .excused hu

theorem get_bind {f : σ → Eval σ α} {g : σ → Eval σ β}
    (h : ∀ s t, R s t → Lockstep T R V (f s) (g t)) : Lockstep T R V (get >>= f) (get >>= g) :=
  fun s t hs => h s t hs s t hs

theorem modifyGet {f : σ → α × σ} {g : σ → β × σ}
    (h : ∀ s t, R s t → V (f s).1 (g t).1 ∧ R (f s).2 (g t).2) :
    Lockstep T R V (MonadStateOf.modifyGet f : Eval σ α) (MonadStateOf.modifyGet g : Eval σ β) :=
  fun s t hs => .value (h s t hs).1 (h s t hs).2

theorem modify {f g : σ → σ} (h : ∀ s t, R s t → R (f s) (g t)) :
    Agree T R (fun _ => True) (modify f : Eval σ PUnit) (modify g : Eval σ PUnit) :=
  .modifyGet fun s t hs => ⟨⟨rfl, trivial⟩, h s t hs⟩

theorem located {x : Eval σ α} {y : Eval σ β} (h : Lockstep T R V x y) {line line' : Nat}
    (hline : T.SameLine line line') : Lockstep T R V (x.located line) (y.located line') := by
  intro s t hs
  have h := h s t hs
  unfold Eval.located
  generalize x s = r, y t = r' at h ⊢
  cases h with
  | value hab hs' => exact .value hab hs'
  | unwinding hu hs' => exact .unwinding (hu.locate hline) hs'
  | excused hu => exact .excused (T.excused_locate _ _ hu)

/-- The computations, between a change of the states and the change back. -/
theorem restoring {x : Eval σ α} {y : Eval σ β} (h : Lockstep T R' V x y) {f g : σ → σ}
    (hleave : ∀ s t, R' s t → R (f s) (g t)) {s t : σ} (hs : R' s t) :
    T.Ends R V (x.restoring f s) (y.restoring g t) := by
  have h := h s t hs
  unfold Eval.restoring
  generalize x s = r, y t = r' at h ⊢
  cases h with
  | value hab hs' => exact .value hab (hleave _ _ hs')
  | unwinding hu hs' => exact .unwinding hu (hleave _ _ hs')
  | excused hu => exact .excused hu

end Lockstep

namespace Agree

variable {P : α → Prop} {Q : α' → Prop}

theorem pure {a : α} (h : P a) : Agree T R P (Pure.pure a) (Pure.pure a) :=
  Lockstep.pure ⟨rfl, h⟩

theorem ofExcept {r : Except Fault α} (h : Except.All P r) :
    Agree T R P (Eval.ofExcept r) (Eval.ofExcept r) := by
  cases r with
  | ok a => exact .pure (h a rfl)
  | error fault => exact .fail fault

theorem bind {x y : Eval σ α} {f g : α → Eval σ α'} (hx : Agree T R P x y)
    (hf : ∀ a, P a → Agree T R Q (f a) (g a)) : Agree T R Q (x >>= f) (y >>= g) := by
  refine Lockstep.bind hx ?_
  rintro a _ ⟨rfl, ha⟩
  exact hf a ha

theorem get_bind {f g : σ → Eval σ α} (h : ∀ s t, R s t → Agree T R P (f s) (g t)) :
    Agree T R P (get >>= f) (get >>= g) :=
  Lockstep.get_bind h

theorem modifyGet {f g : σ → α × σ}
    (h : ∀ s t, R s t → (f s).1 = (g t).1 ∧ P (f s).1 ∧ R (f s).2 (g t).2) :
    Agree T R P (MonadStateOf.modifyGet f : Eval σ α) (MonadStateOf.modifyGet g : Eval σ α) :=
  Lockstep.modifyGet fun s t hs => ⟨⟨(h s t hs).1, (h s t hs).2.1⟩, (h s t hs).2.2⟩

theorem catchEarly {x y : Eval σ Value} (h : Agree T R (Value.Permitted T.permit) x y) :
    Agree T R (Value.Permitted T.permit) x.catchEarly y.catchEarly := by
  intro s t hs
  have h := h s t hs
  unfold Eval.catchEarly
  generalize x s = r, y t = r' at h ⊢
  cases h with
  | value hab hs' => exact .value hab hs'
  | unwinding hu hs' => cases hu with
    | fail fault hline => exact .unwinding (.fail fault hline) hs'
    | early hv _ => exact .value ⟨rfl, hv⟩ hs'
    | exhausted => exact .unwinding .exhausted hs'
  | @excused u s' _ hu => cases u with
    | early v line => exact absurd hu (T.not_excused_early v line)
    | fail fault line => exact .excused hu
    | exhausted => exact .excused hu

theorem mapM {ι : Type} {f g : ι → Eval σ α} {is : List ι}
    (h : ∀ i ∈ is, Agree T R P (f i) (g i)) :
    Agree T R (fun as => ∀ a ∈ as, P a) (is.mapM f) (is.mapM g) := by
  induction is with
  | nil => exact .pure (List.forall_mem_nil _)
  | cons i is ih =>
    rw [List.mapM_cons, List.mapM_cons]
    refine .bind (h i (.head _)) fun a ha => ?_
    refine .bind (ih fun j hj => h j (.tail _ hj)) fun as has => ?_
    exact .pure (List.forall_mem_cons.2 ⟨ha, has⟩)

theorem foldlM {ι : Type} {f g : α → ι → Eval σ α} {is : List ι}
    (h : ∀ a, P a → ∀ i ∈ is, Agree T R P (f a i) (g a i)) {a : α} (ha : P a) :
    Agree T R P (is.foldlM f a) (is.foldlM g a) := by
  induction is generalizing a with
  | nil => exact .pure ha
  | cons i is ih =>
    rw [List.foldlM_cons, List.foldlM_cons]
    exact .bind (h a ha i (.head _)) fun b hb => ih (fun c hc j hj => h c hc j (.tail _ hj)) hb

theorem forM {ι : Type} {f g : ι → Eval σ PUnit} {is : List ι}
    (h : ∀ i ∈ is, Agree T R (fun _ => True) (f i) (g i)) :
    Agree T R (fun _ => True) (is.forM f) (is.forM g) := by
  induction is with
  | nil => exact .pure trivial
  | cons i is ih => exact .bind (h i (.head _)) fun _ _ => ih fun j hj => h j (.tail _ hj)

end Agree

end Eval

end StreamLang
