import StreamLang.Proofs.Bound.Meaning
import StreamLang.Proofs.Delivers
import StreamLang.Stream.Cursor

/-! Two traversals of one stream, with two hosts. A relation between computations that has a rule for
each way to make them up holds of two pulls as soon as it holds of the calls of the two hosts. Two
such relations follow: one of a bound and a larger one, and one of a host and its record. -/

namespace StreamLang

/-- A relation between computations that give values of the same kind. -/
abbrev Eval.Relation (σ τ : Type) : Type 1 := ∀ {α : Type}, Eval σ α → Eval τ α → Prop

/-- A relation with a rule for each way to make up a computation. -/
structure Eval.Congruence {σ τ : Type} (J : Eval.Relation σ τ) : Prop where
  pure : ∀ {α : Type} (a : α), J (Pure.pure a) (Pure.pure a)
  fail : ∀ {α : Type} (fault : Fault), J (Eval.fail fault : Eval σ α) (Eval.fail fault)
  exhausted : ∀ {α : Type}, J (throw .exhausted : Eval σ α) (throw .exhausted)
  bind : ∀ {α β : Type} {x : Eval σ α} {y : Eval τ α} {f : α → Eval σ β} {g : α → Eval τ β},
    J x y → (∀ a, J (f a) (g a)) → J (x >>= f) (y >>= g)

namespace Eval.Congruence

variable {σ τ α β : Type} {J : Eval.Relation σ τ}

/-- The bounds are the same, or the smaller one is that of the first computation and its running out
is related to everything. -/
def Bounds (J : Eval.Relation σ τ) (m n : Nat) : Prop :=
  m = n ∨ m ≤ n ∧ ∀ {α : Type} (y : Eval τ α), J (throw .exhausted) y

theorem Bounds.pred {m n : Nat} (h : Bounds J (m + 1) n) : ∃ k, n = k + 1 ∧ Bounds J m k := by
  rcases h with rfl | ⟨hle, hout⟩
  · exact ⟨m, rfl, .inl rfl⟩
  · exact ⟨n - 1, by omega, .inr ⟨by omega, hout⟩⟩

variable (hJ : Congruence J)
include hJ

theorem ofExcept (r : Except Fault α) : J (Eval.ofExcept r : Eval σ α) (Eval.ofExcept r) := by
  cases r with
  | ok a => exact hJ.pure a
  | error fault => exact hJ.fail fault

variable {host : Host σ} {host' : Host τ} (hcall : ∀ f args, J (host f args) (host' f args))
include hcall

theorem next (source : SourceCursor) : J (source.next host) (source.next host') := by
  cases source with
  | items rest => cases rest <;> exact hJ.pure _
  | range next stop step =>
    rw [SourceCursor.next, SourceCursor.next]
    split <;> split <;> exact hJ.pure _
  | generate index count g =>
    rw [SourceCursor.next, SourceCursor.next]
    split
    · exact hJ.pure _
    · exact hJ.bind (hcall g _) fun _ => hJ.pure _
  | done => exact hJ.pure _

theorem pull {m n : Nat} (hbound : Bounds J m n) (c : Cursor) :
    J (c.pull host m) (c.pull host' n) := by
  induction m generalizing n c with
  | zero =>
    rcases hbound with rfl | ⟨-, hout⟩
    · exact hJ.exhausted
    · exact hout _
  | succ m ih =>
    obtain ⟨n, rfl, hpred⟩ := hbound.pred
    have hrest := fun d => ih hpred d
    obtain ⟨source, stages⟩ := c
    unfold Cursor.pull
    cases stages with
    | nil => exact hJ.bind (hJ.next hcall source) fun _ => hJ.pure _
    | cons stage before => cases stage with
      | map f =>
        refine hJ.bind (hrest _) fun (v?, c) => ?_
        cases v? with
        | none => exact hJ.pure _
        | some v => exact hJ.bind (hcall f _) fun _ => hJ.pure _
      | filter f =>
        refine hJ.bind (hrest _) fun (v?, c) => ?_
        cases v? with
        | none => exact hJ.pure _
        | some v =>
          refine hJ.bind (hcall f _) fun verdict => ?_
          split
          · exact hJ.pure _
          · exact hrest _
          · exact hJ.fail _
      | take k => cases k with
        | zero => exact hJ.pure _
        | succ k => exact hJ.bind (hrest _) fun _ => hJ.pure _
      | skip k => cases k with
        | zero => exact hJ.bind (hrest _) fun _ => hJ.pure _
        | succ k =>
          refine hJ.bind (hrest _) fun (v?, c) => ?_
          cases v? with
          | none => exact hJ.pure _
          | some v => exact hrest _
      | flatMap f inner t => cases inner with
        | none =>
          refine hJ.bind (hrest _) fun (v?, c) => ?_
          cases v? with
          | none => exact hJ.pure _
          | some v =>
            exact hJ.bind (hcall f _) fun w => hJ.bind (hJ.ofExcept _) fun inner => hrest _
        | some inner => cases inner with
          | items rest => cases rest with
            | nil => exact hrest _
            | cons v rest => exact hJ.pure _
          | stream d =>
            refine hJ.bind (hrest d) fun (v?, d) => ?_
            cases v? with
            | none => exact hrest _
            | some v => exact hJ.pure _

theorem fold {step : β → Value → Eval σ β} {step' : β → Value → Eval τ β}
    (hstep : ∀ acc v, J (step acc v) (step' acc v)) {m n : Nat} (hbound : Bounds J m n)
    (c : Cursor) (acc : β) : J (c.fold host step m acc) (c.fold host' step' n acc) := by
  induction m generalizing n c acc with
  | zero =>
    rcases hbound with rfl | ⟨-, hout⟩
    · exact hJ.exhausted
    · exact hout _
  | succ m ih =>
    obtain ⟨n, rfl, hpred⟩ := hbound.pred
    refine hJ.bind (hJ.pull hcall hpred c) fun (v?, d) => ?_
    cases v? with
    | none => exact hJ.pure _
    | some v => exact hJ.bind (hstep acc v) fun acc => ih hpred d acc

theorem drain {m n : Nat} (hbound : Bounds J m n) (terminal : String) (p : Pipeline) :
    J (p.drain host m terminal) (p.drain host' n terminal) :=
  hJ.bind (hJ.ofExcept _) fun c =>
    hJ.bind (hJ.fold hcall (fun _ _ => hJ.pure _) hbound c []) fun _ => hJ.pure _

end Eval.Congruence

end StreamLang

/-! A pull that ends within a bound ends in the same way within every larger one, whatever the host
does. So do the operations that pull until the end. -/

namespace StreamLang

namespace Eval

variable {σ : Type}

theorem Below.congruence : Congruence fun {_} (x y : Eval σ _) => x.Below y where
  pure _ := .refl _
  fail _ := .refl _
  exhausted := .refl _
  bind := .bind

theorem Below.bounds {m n : Nat} (h : m ≤ n) :
    Congruence.Bounds (fun {_} (x y : Eval σ _) => x.Below y) m n :=
  .inr ⟨h, Below.exhausted⟩

end Eval

open Eval (Below Grows)

variable {σ β : Type} {host : Host σ}

theorem Cursor.pull_grows (c : Cursor) : Grows fun fuel => c.pull host fuel :=
  fun _ _ h => Below.congruence.pull (fun _ _ => .refl _) (Below.bounds h) c

theorem Pipeline.drain_grows (p : Pipeline) (terminal : String) :
    Grows fun fuel => p.drain host fuel terminal :=
  fun _ _ h => Below.congruence.drain (fun _ _ => .refl _) (Below.bounds h) terminal p

end StreamLang

/-! A host that writes down its calls: the function, the arguments and how the call ended, the state
it left included. The record is beside the state and changes nothing else, so that a law about all
hosts tells also which calls are made and in which order. -/

namespace StreamLang

variable {σ α β : Type}

/-- One call of a host. -/
structure Host.Call (σ : Type) where
  function : Value
  args : List Value
  outcome : EStateM.Result Unwind σ Value

namespace Host.Call

/-- The call gave a value. -/
def Returned (call : Host.Call σ) : Prop := ∃ v s, call.outcome = .ok v s

/-- The same end, with a record of calls beside the state. -/
def attach (calls : List (Host.Call σ)) :
    EStateM.Result Unwind σ α → EStateM.Result Unwind (σ × List (Host.Call σ)) α
  | .ok a s => .ok a (s, calls)
  | .error u s => .error u (s, calls)

end Host.Call

open Host.Call (attach)

/-- The host with a record of its calls, the latest first. -/
def Host.recorded (host : Host σ) : Host (σ × List (Host.Call σ)) := fun f args s =>
  attach (⟨f, args, host f args s.1⟩ :: s.2) (host f args s.1)

namespace Eval

/-- The second computation does what the first does, and adds to the record. -/
def Recorded (x : Eval σ α) (y : Eval (σ × List (Host.Call σ)) α) : Prop :=
  ∀ s calls, ∃ more, y (s, calls) = attach (more ++ calls) (x s)

theorem Recorded.bind {x : Eval σ α} {y : Eval (σ × List (Host.Call σ)) α} {f : α → Eval σ β}
    {g : α → Eval (σ × List (Host.Call σ)) β} (hx : x.Recorded y) (hf : ∀ a, (f a).Recorded (g a)) :
    (x >>= f).Recorded (y >>= g) := by
  intro s calls
  obtain ⟨more, hy⟩ := hx s calls
  cases h : x s with
  | ok a s' =>
    rw [h] at hy
    obtain ⟨later, hg⟩ := hf a s' (more ++ calls)
    refine ⟨later ++ more, ?_⟩
    rw [bind_of_ok h, bind_of_ok hy, hg, List.append_assoc]
  | error u s' =>
    rw [h] at hy
    refine ⟨more, ?_⟩
    rw [bind_of_error h, bind_of_error hy]
    rfl

theorem Recorded.congruence : Congruence fun {_} (x : Eval σ _) y => x.Recorded y where
  pure _ := fun _ _ => ⟨[], rfl⟩
  fail _ := fun _ _ => ⟨[], rfl⟩
  exhausted := fun _ _ => ⟨[], rfl⟩
  bind := .bind

end Eval

open Eval (Recorded)

variable (host : Host σ)

theorem Host.call_recorded (f : Value) (args : List Value) :
    Recorded (host f args) (host.recorded f args) :=
  fun s _ => ⟨[⟨f, args, host f args s⟩], rfl⟩

theorem Cursor.pull_recorded (fuel : Nat) (c : Cursor) :
    Recorded (c.pull host fuel) (c.pull host.recorded fuel) :=
  Recorded.congruence.pull host.call_recorded (.inl rfl) c

theorem Pipeline.drain_recorded (fuel : Nat) (terminal : String) (p : Pipeline) :
    Recorded (p.drain host fuel terminal) (p.drain host.recorded fuel terminal) :=
  Recorded.congruence.drain host.call_recorded (.inl rfl) terminal p

end StreamLang
