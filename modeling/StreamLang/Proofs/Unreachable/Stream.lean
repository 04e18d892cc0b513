import StreamLang.Proofs.Contents.Scope
import StreamLang.Proofs.Unreachable.Secure

/-! Pulling elements through a stream is secure when the calls of its callbacks are. -/

namespace StreamLang

variable {γ : Type}

/-- Calls of a function that fits, with arguments that fit, are secure. -/
def Host.Secure (host host' : Host (Interpreter γ)) : Prop :=
  ∀ {n f args}, Value.Fits n f → AllFit n args →
    Run.Secure n Value.Fits (host f args) (host' f args)

/-- A pull gives an element, if there is one, and the rest of the traversal; both fit. -/
def PulledFits {κ : Type} (values : κ → List Value) (n : Nat) (pulled : Option Value × κ) : Prop :=
  (∀ v, pulled.1 = some v → v.Fits n) ∧ AllFit n (values pulled.2)

section

variable {κ : Type} {values : κ → List Value} {c : κ} {m n : Nat}

theorem PulledFits.none (hc : AllFit m (values c)) (h : m ≤ n) :
    PulledFits values n (Option.none, c) := by
  refine ⟨?_, hc.mono h⟩
  rintro v ⟨⟩

theorem PulledFits.some {v : Value} (hv : v.Fits m) (hc : AllFit m (values c)) (h : m ≤ n) :
    PulledFits values n (Option.some v, c) := by
  refine ⟨?_, hc.mono h⟩
  rintro w ⟨⟩
  exact hv.mono h

end

theorem Pipeline.boundedCursor_mild (p : Pipeline) (terminal : String) :
    Except.Mild (p.boundedCursor terminal) := by
  rw [boundedCursor]
  split
  · exact .ok _
  · exact .error rfl

theorem InnerCursor.ofValue_mild (terminal : Option String) (v : Value) :
    Except.Mild (ofValue terminal v) := by
  cases v with
  | list | set => exact .ok _
  | stream identity p =>
    cases terminal with
    | none => exact .ok _
    | some t => exact .map (p.boundedCursor_mild t) _
  | _ => exact .error rfl

variable {host host' : Host (Interpreter γ)} (hhost : host.Secure host')
include hhost

theorem SourceCursor.next_secure {n : Nat} {source : SourceCursor} (h : AllFit n source.values) :
    Run.Secure n (PulledFits SourceCursor.values) (source.next host) (source.next host') := by
  cases source with
  | items rest =>
    cases rest with
    | nil => exact .pure fun _ => .none h
    | cons v rest =>
      exact .pure fun _ => .some (h v (.head _)) (AllEvery.of_subset h (List.subset_cons_self v rest))
  | range next stop step =>
    rw [SourceCursor.next, SourceCursor.next]
    have hmore : ∀ next', Run.Secure n (PulledFits SourceCursor.values)
        (pure (some (Value.int next), .range next' stop step) : Run γ _)
        (pure (some (Value.int next), .range next' stop step)) :=
      fun _ => .pure fun _ => .some (Value.every_int _) AllEvery.nil
    have hover : Run.Secure n (PulledFits SourceCursor.values)
        (pure (none, .range next stop step) : Run γ _) (pure (none, .range next stop step)) :=
      .pure fun _ => .none AllEvery.nil
    split
    · split
      · exact hmore _
      · exact hover
    · split
      · exact hmore _
      · exact hover
  | generate index count generator =>
    rw [SourceCursor.next, SourceCursor.next]
    split
    · exact .pure fun _ => .none h
    · refine .bind (hhost (h generator (.head _)) (AllEvery.one (Value.every_int _)))
        fun m hm v hv => .pure fun _ => .some hv (h.mono hm)
  | done => exact .pure fun _ => .none h

namespace Cursor

theorem pull_secure (fuel : Nat) : ∀ {n : Nat} {c : Cursor}, AllFit n c.values →
    Run.Secure n (PulledFits Cursor.values) (c.pull host fuel) (c.pull host' fuel) := by
  induction fuel with
  | zero => exact fun _ => .exhausted
  | succ fuel ih =>
    intro n c hc
    obtain ⟨source, stages⟩ := c
    obtain ⟨hsource, hstages⟩ := every_mk.1 hc
    cases stages with
    | nil =>
      rw [pull, pull]
      refine .bind (SourceCursor.next_secure hhost hsource) fun _ _ p hp => .pure fun _ hm => ?_
      exact ⟨fun v hv => (hp.1 v hv).mono hm,
        (every_mk.2 ⟨hp.2, List.forall_mem_nil _⟩).mono hm⟩
    | cons stage before =>
      obtain ⟨hstage, hbefore⟩ := List.forall_mem_cons.1 hstages
      have hrest : AllFit n (Cursor.mk source before).values := every_mk.2 ⟨hsource, hbefore⟩
      cases stage with
      | map f =>
        rw [pull, pull]
        refine .bind (ih hrest) fun m hm p hp => ?_
        obtain ⟨v?, c⟩ := p
        have hf := (hstage f (.head _)).mono hm
        have hpush := push_every (.map f) hp.2 (AllEvery.one hf)
        cases v? with
        | none => exact .pure fun _ => .none hpush
        | some v =>
          exact .bind (hhost hf (AllEvery.one (hp.1 v rfl))) fun _ hk w hw =>
            .pure fun _ => .some hw (hpush.mono hk)
      | filter f =>
        rw [pull, pull]
        refine .bind (ih hrest) fun m hm p hp => ?_
        obtain ⟨v?, c⟩ := p
        have hf := (hstage f (.head _)).mono hm
        have hpush := push_every (.filter f) hp.2 (AllEvery.one hf)
        cases v? with
        | none => exact .pure fun _ => .none hpush
        | some v =>
          refine .bind (hhost hf (AllEvery.one (hp.1 v rfl))) fun _ hk verdict _ => ?_
          cases verdict with
          | bool b => cases b with
            | true => exact .pure fun _ => .some ((hp.1 v rfl).mono hk) (hpush.mono hk)
            | false => exact ih (hpush.mono hk)
          | _ => exact .fail rfl
      | take remaining =>
        cases remaining with
        | zero => exact .pure fun _ => .none hc
        | succ remaining =>
          rw [pull, pull]
          refine .bind (ih hrest) fun m _ p hp => .pure fun _ hm => ?_
          exact ⟨fun v hv => (hp.1 v hv).mono hm,
            (push_every (.take remaining) hp.2 AllEvery.nil).mono hm⟩
      | skip remaining =>
        cases remaining with
        | zero =>
          rw [pull, pull]
          refine .bind (ih hrest) fun m _ p hp => .pure fun _ hm => ?_
          exact ⟨fun v hv => (hp.1 v hv).mono hm,
            (push_every (.skip 0) hp.2 AllEvery.nil).mono hm⟩
        | succ remaining =>
          rw [pull, pull]
          refine .bind (ih hrest) fun m _ p hp => ?_
          obtain ⟨v?, c⟩ := p
          cases v? with
          | none =>
            exact .pure fun _ => .none (push_every (.skip 0) hp.2 AllEvery.nil)
          | some v => exact ih (push_every (.skip remaining) hp.2 AllEvery.nil)
      | flatMap f inner t =>
        cases inner with
        | none =>
          rw [pull, pull]
          refine .bind (ih hrest) fun m hm p hp => ?_
          obtain ⟨v?, c⟩ := p
          have hf := (hstage f (.head _)).mono hm
          cases v? with
          | none =>
            exact .pure fun _ =>
              .none (push_every (.flatMap f none t) hp.2 (AllEvery.one hf))
          | some v =>
            refine .bind (hhost hf (AllEvery.one (hp.1 v rfl))) fun k hk w hw => ?_
            refine .bind (.ofExcept (fun _ hl => InnerCursor.ofValue_every t (hw.mono hl))
              (InnerCursor.ofValue_mild t w)) fun l hl inner hinner => ?_
            have hkl := Nat.le_trans hk hl
            exact ih (push_every (.flatMap f (some inner) t) (hp.2.mono hkl)
              (.cons (hf.mono hkl) hinner))
        | some inner =>
          obtain ⟨hf, hinner⟩ := List.forall_mem_cons.1 hstage
          have hagain : AllFit n (Cursor.mk source (.flatMap f none t :: before)).values :=
            every_mk.2 ⟨hsource, List.forall_mem_cons.2 ⟨AllEvery.one hf, hbefore⟩⟩
          cases inner with
          | items rest => cases rest with
            | nil => exact ih hagain
            | cons v rest =>
              have hleft : AllFit n rest :=
                AllEvery.of_subset hinner (List.subset_cons_self v rest)
              exact .pure fun _ => .some (hinner v (.head _)) (every_mk.2
                ⟨hsource, List.forall_mem_cons.2 ⟨AllEvery.cons hf hleft, hbefore⟩⟩)
          | stream inner =>
            rw [pull, pull]
            refine .bind (ih hinner) fun m hm p hp => ?_
            obtain ⟨v?, inner⟩ := p
            cases v? with
            | none => exact ih (hagain.mono hm)
            | some v =>
              have hstages' : ∀ stage ∈ before, AllFit m stage.values :=
                fun stage hs => (hbefore stage hs).mono hm
              exact .pure fun _ => .some (hp.1 v rfl) (every_mk.2 ⟨hsource.mono hm,
                List.forall_mem_cons.2 ⟨AllEvery.cons (hf.mono hm) hp.2, hstages'⟩⟩)

theorem fold_secure {β : Type} {P : Nat → β → Prop} (hP : Run.Growing P) {n : Nat}
    {step step' : β → Value → Run γ β}
    (hstep : ∀ m, n ≤ m → ∀ acc v, P m acc → v.Fits m →
      Run.Secure m P (step acc v) (step' acc v)) (fuel : Nat) :
    ∀ {m : Nat}, n ≤ m → ∀ {c : Cursor} {acc : β}, AllFit m c.values → P m acc →
      Run.Secure m P (c.fold host step fuel acc) (c.fold host' step' fuel acc) := by
  induction fuel with
  | zero => exact fun _ _ _ _ _ => .exhausted
  | succ fuel ih =>
    intro m hm c acc hc hacc
    rw [fold, fold]
    refine .bind (pull_secure hhost fuel hc) fun k hk p hp => ?_
    have hnk := Nat.le_trans hm hk
    obtain ⟨v?, c⟩ := p
    cases v? with
    | none => exact .pure fun _ hl => hP.mono (Nat.le_trans hk hl) hacc
    | some v =>
      refine .bind (hstep k hnk acc v (hP.mono hk hacc) (hp.1 v rfl)) fun l hl acc' hacc' => ?_
      exact ih (Nat.le_trans hnk hl) (hp.2.mono hl) hacc'

end Cursor

theorem Pipeline.drain_secure {n : Nat} (fuel : Nat) (terminal : String) {p : Pipeline}
    (hp : AllFit n p.values) :
    Run.Secure n AllFit (p.drain host fuel terminal) (p.drain host' fuel terminal) := by
  refine .bind (.ofExcept (fun _ hm => p.boundedCursor_every (hp.mono hm) terminal)
    (p.boundedCursor_mild terminal)) fun m _ c hc => ?_
  have hpush : ∀ k, m ≤ k → ∀ (vs : List Value) (v : Value), AllFit k vs → v.Fits k →
      Run.Secure k AllFit (pure (v :: vs) : Run γ _) (pure (v :: vs)) :=
    fun _ _ vs v hvs hv => .pure fun _ hl => (AllEvery.cons hv hvs).mono hl
  refine .bind (Cursor.fold_secure hhost Run.growing_allFit hpush fuel (Nat.le_refl m) hc
    AllEvery.nil) fun _ _ reversed hreversed => ?_
  exact .pure fun _ hl => (hreversed.reverse).mono hl

end StreamLang
