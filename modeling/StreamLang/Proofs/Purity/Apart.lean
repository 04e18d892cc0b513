import StreamLang.Proofs.Keeps
import StreamLang.Proofs.Lockstep.Evaluator
import StreamLang.Proofs.Purity.Inert

/-! Two runs whose futures, tasks and services differ. Confined code among inert values keeps step in
them, so it ends in the same way whatever these are, and leaves them as they are. -/

namespace StreamLang

variable {γ : Type}

namespace Interpreter

/-- The same state with other futures, tasks and services. -/
def withOutside (s : Interpreter γ) (o : Outside γ) : Interpreter γ :=
  { s with
    scheduler := o.scheduler, gateway := o.gateway, requests := o.requests
    nextRequest := o.nextRequest }

@[simp] theorem withOutside_outside (s : Interpreter γ) : s.withOutside s.outside = s := rfl

/-- What pure code may come upon in a state is inert. The names that are good in a module stand for
inert values; so do remembered results; and the predicates of aliases are confined. -/
structure Inert (good : Nat → String → Prop) (s : Interpreter γ) : Prop where
  global : ∀ m n v, good m n → s.global? m n = some v → v.Inert good
  fallback : ∀ m n b, good m n → s.global? m n = none → Builtin.ofName? n = some b →
    Purity.isHarmless b.effect = true
  remembered : ∀ (key : MemoKey FunctionId) v, s.memo.entries[key]? = some v → v.Inert good
  predicate : ∀ name a p, s.schemas.typeAlias? name = some a → a.predicate = some p →
    ∀ m, p.Confined (good m) ["value"]

/-- Only modules, remembered results and schemas matter. -/
theorem Inert.of_eq {good : Nat → String → Prop} {s t : Interpreter γ} (hs : s.Inert good)
    (hmodules : t.modules = s.modules) (hmemo : t.memo.entries = s.memo.entries)
    (hschemas : t.schemas = s.schemas) : t.Inert good where
  global m n v hn h := by
    rw [global?, hmodules] at h
    exact hs.global m n v hn h
  fallback m n b hn h := by
    rw [global?, hmodules] at h
    exact hs.fallback m n b hn h
  remembered key v h := by
    rw [hmemo] at h
    exact hs.remembered key v h
  predicate name a p h := by
    rw [hschemas] at h
    exact hs.predicate name a p h

end Interpreter

/-- The end of a computation, with other futures, tasks and services. -/
def endWithOutside {α : Type} (r : EStateM.Result Unwind (Interpreter γ) α) (o : Outside γ) :
    EStateM.Result Unwind (Interpreter γ) α :=
  match r with
  | .ok a s => .ok a (s.withOutside o)
  | .error u s => .error u (s.withOutside o)

namespace Pairing

variable {α : Type} {good : Nat → String → Prop} {o : Outside γ} {m : Nat}

/-- An inert state, and the same state with other futures, tasks and services. -/
def apart (good : Nat → String → Prop) (o : Outside γ) : Pairing γ where
  terms :=
    { permit := .inert good
      lines := True
      excused := fun _ => False
      not_excused_early := fun _ _ => id
      excused_locate := fun _ _ => id }
  regime := .confined good
  Place := Nat
  module m := m
  inModule _ module := module
  deeper m := m
  recurs _ _ := True
  state m s t := s.Inert good ∧ s.current = m ∧ t = s.withOutside o

/-- A change of the state that has nothing to do with the rest of the state. -/
theorem apart_modifyGet {P : α → Prop} {f : Interpreter γ → α × Interpreter γ}
    (hsame : ∀ s, f (s.withOutside o) = ((f s).1, (f s).2.withOutside o))
    (hf : ∀ s, s.Inert good → P (f s).1 ∧ (f s).2.Inert good ∧ (f s).2.current = s.current) :
    (apart good o).Steady m P (modifyGet f : Run γ α) := by
  refine .modifyGet ?_
  rintro s _ ⟨hs, rfl, rfl⟩
  obtain ⟨hP, hs', hcurrent⟩ := hf s hs
  rw [hsame]
  exact ⟨rfl, hP, hs', hcurrent, rfl⟩

theorem apart_modify {f : Interpreter γ → Interpreter γ}
    (hsame : ∀ s, f (s.withOutside o) = (f s).withOutside o)
    (hf : ∀ s, s.Inert good → (f s).Inert good) (hcurrent : ∀ s, (f s).current = s.current) :
    (apart good o).Steady m (fun _ => True) (modify f : Run γ PUnit) :=
  apart_modifyGet (fun s => by rw [hsame]) fun s hs => ⟨trivial, hf s hs, hcurrent s⟩

theorem apart_aligned : (apart good o).Aligned where
  current := by
    rintro m s _ ⟨_, hm, rfl⟩
    exact ⟨hm, hm⟩
  depth := by
    rintro m s _ ⟨_, _, rfl⟩
    rfl
  line := by
    rintro m s _ ⟨_, _, rfl⟩ _
    rfl
  identity := by
    rintro m s _ ⟨_, _, rfl⟩
    rfl
  module_inModule _ _ := rfl
  module_deeper _ := rfl
  enterModule := by
    rintro m s _ ⟨hs, _, rfl⟩ module
    exact ⟨hs.of_eq rfl rfl rfl, rfl, rfl⟩
  leaveModule := by
    rintro m module s _ ⟨hs, _, rfl⟩
    exact ⟨hs.of_eq rfl rfl rfl, rfl, rfl⟩
  enterCall := by
    rintro m _ _ s _ _ _ ⟨hs, hm, rfl⟩
    exact ⟨hs.of_eq rfl rfl rfl, hm, rfl⟩
  leaveCall := by
    rintro m s _ ⟨hs, hm, rfl⟩
    exact ⟨hs.of_eq rfl rfl rfl, hm, rfl⟩
  setLine := by
    rintro m s _ ⟨hs, hm, rfl⟩ line
    exact ⟨hs.of_eq rfl rfl rfl, hm, rfl⟩
  setIdentity := by
    rintro m s _ ⟨hs, hm, rfl⟩ id
    exact ⟨hs.of_eq rfl rfl rfl, hm, rfl⟩

theorem apart_lookup {name : String} {env : Env} (hname : name ∈ env.names ∨ good m name)
    (henv : AllPermitted (.inert good) env.values) :
    (apart good o).Steady m (Value.Inert good) (Run.lookup name env) := by
  unfold Run.lookup
  cases hv : env.lookup? name with
  | some v => exact .pure (Env.lookup?_permitted henv hv)
  | none =>
    have hgood : good m name := hname.resolve_left (Env.not_mem_names hv)
    refine .get_bind ?_
    rintro s _ ⟨hs, rfl, rfl⟩
    have hglobals : (s.withOutside o).global? (s.withOutside o).current name =
        s.global? s.current name := rfl
    rw [hglobals]
    cases hglobal : s.global? s.current name with
    | some v => exact .pure (hs.global s.current name v hgood hglobal)
    | none =>
      dsimp only
      cases hb : Builtin.ofName? name with
      | some b =>
        have hharmless := hs.fallback s.current name b hgood hglobal hb
        exact apart_aligned.newFunction (c := .builtin b) hharmless (List.forall_mem_nil _)
      | none =>
        dsimp only
        split
        · exact .pure (Value.permitted_option.2 (by rintro v ⟨⟩))
        · exact .fail _

theorem apart_memoKey? (decl : FunctionDecl) (module : Nat) (args : List Value) :
    (apart good o).Steady m (fun _ => True) (Run.memoKey? decl module args) := by
  unfold Run.memoKey?
  cases decl.name with
  | none => exact .pure trivial
  | some name =>
    refine .get_bind ?_
    rintro s _ ⟨_, rfl, rfl⟩
    exact .pure trivial

theorem apart_remembered? (key : MemoKey FunctionId) :
    (apart good o).Steady m (fun found => ∀ v, found = some v → v.Inert good)
      (Run.remembered? key) := by
  refine apart_modifyGet (fun _ => rfl) fun s hs => ?_
  dsimp only
  cases h : s.memo.entries[key]? with
  | some w =>
    rw [MemoCache.find, h]
    refine ⟨?_, hs.of_eq rfl rfl rfl, rfl⟩
    rintro v ⟨⟩
    exact hs.remembered key w h
  | none =>
    rw [MemoCache.find, h]
    refine ⟨?_, hs.of_eq rfl rfl rfl, rfl⟩
    rintro v ⟨⟩

theorem apart_remember (key : MemoKey FunctionId) {v : Value} (hv : v.Inert good) :
    (apart good o).Steady m (fun _ => True) (Run.remember key v) := by
  refine apart_modify (fun _ => rfl) (fun s hs => ?_) fun _ => rfl
  refine ⟨hs.global, hs.fallback, fun key' w h => ?_, hs.predicate⟩
  rw [MemoCache.insert, Std.HashMap.getElem?_insert] at h
  split at h
  · cases h
    exact hv
  · exact hs.remembered key' w h

theorem apart_lawful [Gateway γ] (good : Nat → String → Prop) (o : Outside γ) :
    (apart good o).Lawful where
  toAligned := apart_aligned
  ofFuel _ := trivial
  limit := by
    rintro m s _ ⟨_, _, rfl⟩
    rfl
  schemas := by
    rintro m s _ ⟨_, _, rfl⟩
    rfl
  predicate := by
    rintro m s _ name schema p ⟨hs, _, rfl⟩ hschema hp
    exact hs.predicate name schema p hschema hp m
  futures _ hfuture := hfuture.elim
  lookup := apart_lookup
  writeLog _ := apart_modify (fun _ => rfl) (fun _ hs => hs.of_eq rfl rfl rfl) fun _ => rfl
  countEvaluation _ := apart_modify (fun _ => rfl) (fun _ hs => hs.of_eq rfl rfl rfl) fun _ => rfl
  markObserved hfuture := hfuture.elim
  settledFuture heffects := heffects.elim
  spawn heffects := heffects.elim
  spawnCombinator heffects := heffects.elim
  dispatch heffects := heffects.elim
  callClosure _ _ _ _ _ henter := apart_aligned.callClosure_of_memo henter
    (apart_memoKey? _ _ _) apart_remembered? fun key _ hv => apart_remember key hv

/-- What keeps step ends in the same way whatever the futures, tasks and services are. -/
theorem apart_ends {P : α → Prop} {x : Run γ α} (hx : (apart good o).Steady m P x)
    {s : Interpreter γ} (hs : s.Inert good) (hm : s.current = m) :
    x (s.withOutside o) = endWithOutside (x s) o := by
  have h := hx s _ ⟨hs, hm, rfl⟩
  generalize x s = r, x (s.withOutside o) = r' at h ⊢
  cases h with
  | value hab hs' =>
    obtain ⟨rfl, _⟩ := hab
    obtain ⟨_, _, rfl⟩ := hs'
    rfl
  | unwinding hu hs' =>
    obtain ⟨_, _, rfl⟩ := hs'
    have hsame := hu.eq trivial
    subst hsame
    rfl
  | excused hu => exact hu.elim

/-- What keeps step leaves an inert state. -/
theorem apart_kept {P : α → Prop} {x : Run γ α} (hx : (apart good o).Steady m P x)
    {s : Interpreter γ} (hs : s.Inert good) (hm : s.current = m) : (endState (x s)).Inert good := by
  have h := hx s _ ⟨hs, hm, rfl⟩
  generalize x s = r, x (s.withOutside o) = r' at h
  cases h with
  | value _ hs' => exact hs'.1
  | unwinding _ hs' => exact hs'.1
  | excused hu => exact hu.elim

/-- So it leaves them as they are. -/
theorem outside_eq_of_apart {x : Run γ α} {s : Interpreter γ}
    (h : x (s.withOutside s.outside) = endWithOutside (x s) s.outside) :
    (endState (x s)).outside = s.outside := by
  rw [Interpreter.withOutside_outside] at h
  rw [h]
  cases x s <;> rfl

end Pairing

end StreamLang
