import StreamLang.Proofs.Record.Shape
import StreamLang.Proofs.Renaming.Run

/-! A state from which some identities were given out without use is the state before with other identities:
with those that were still to come there given later numbers. The other identities, and with them all that
the state keeps, stay as they are. -/

namespace StreamLang

/-! Identities still to come -/

namespace Identity

/-- The number with those of the calls around, from the inside out. -/
def path (id : Identity) : List Nat := id.number :: id.call

/-- The identity may still be given out when `start` is next: it has its number in the same call or a later
one, or was made inside such a call. -/
def Coming (start id : Identity) : Prop :=
  ∃ inside n, id.path = inside ++ n :: start.call ∧ start.number ≤ n

variable {start id : Identity}

theorem coming_self (start : Identity) : start.Coming start := ⟨[], start.number, rfl, Nat.le_refl _⟩

theorem Coming.next (h : start.Coming id) : start.Coming id.next := by
  obtain ⟨inside, n, hpath, hn⟩ := h
  cases inside with
  | nil =>
    obtain ⟨rfl, hcall⟩ := List.cons.inj hpath
    exact ⟨[], id.number + 1, congrArg _ hcall, Nat.le_succ_of_le hn⟩
  | cons m inside =>
    obtain ⟨rfl, hcall⟩ := List.cons.inj hpath
    exact ⟨(id.number + 1) :: inside, n, congrArg _ hcall, hn⟩

theorem Coming.inner (h : start.Coming id) : start.Coming id.inner := by
  obtain ⟨inside, n, hpath, hn⟩ := h
  exact ⟨0 :: inside, n, congrArg (0 :: ·) hpath, hn⟩

/-- What is still to come is made in the same call or inside of it. -/
theorem Coming.length_le (h : start.Coming id) : start.call.length ≤ id.call.length := by
  obtain ⟨inside, n, hpath, -⟩ := h
  have hlength := congrArg List.length hpath
  rw [path, List.length_append, List.length_cons, List.length_cons] at hlength
  omega

theorem Coming.number_le (h : start.Coming id) (hcall : id.call = start.call) :
    start.number ≤ id.number := by
  obtain ⟨inside, n, hpath, hn⟩ := h
  have hlength := congrArg List.length hpath
  rw [path, hcall, List.length_append, List.length_cons, List.length_cons] at hlength
  obtain rfl : inside = [] := List.length_eq_zero_iff.1 (by omega)
  rw [(List.cons.inj hpath).1]
  exact hn

/-- The identity that follows after so many others in the same call. -/
def skip (id : Identity) (n : Nat) : Identity := ⟨id.number + n, id.call⟩

/-! Other numbers in one call -/

/-- The path with another number for what was made in the call, which may be a call itself. -/
def renumberPath (call : List Nat) (f : Nat → Nat) : List Nat → List Nat
  | [] => []
  | n :: outer => if outer = call then f n :: outer else n :: renumberPath call f outer

section

variable (call : List Nat) (f : Nat → Nat)

/-- No call of this depth has another number. -/
theorem renumberPath_of_length_le {path : List Nat} (h : path.length ≤ call.length) :
    renumberPath call f path = path := by
  induction path with
  | nil => rfl
  | cons n outer ih =>
    have hlt : outer.length < call.length := h
    have hne : outer ≠ call := fun heq => absurd (congrArg List.length heq) (Nat.ne_of_lt hlt)
    rw [renumberPath, if_neg hne, ih (Nat.le_of_lt hlt)]

theorem length_renumberPath (path : List Nat) : (renumberPath call f path).length = path.length := by
  induction path with
  | nil => rfl
  | cons n outer ih =>
    rw [renumberPath]
    split
    · rfl
    · exact congrArg (· + 1) ih

theorem renumberPath_eq_call {path : List Nat} : renumberPath call f path = call ↔ path = call := by
  constructor
  · intro h
    have hlength := length_renumberPath call f path
    rw [h] at hlength
    rw [← renumberPath_of_length_le call f (Nat.le_of_eq hlength.symm), h]
  · rintro rfl
    exact renumberPath_of_length_le path f (Nat.le_refl _)

variable {call f}

theorem renumberPath_leftInverse {g : Nat → Nat} (h : Function.LeftInverse g f) :
    Function.LeftInverse (renumberPath call g) (renumberPath call f) := by
  intro path
  induction path with
  | nil => rfl
  | cons n outer ih =>
    by_cases hcall : outer = call
    · rw [renumberPath, if_pos hcall, renumberPath, if_pos hcall, h]
    · have hcall' := mt (renumberPath_eq_call call f).1 hcall
      rw [renumberPath, if_neg hcall, renumberPath, if_neg hcall', ih]

theorem renumberPath_eq_self {path : List Nat}
    (h : ∀ inside n, path = inside ++ n :: call → f n = n) : renumberPath call f path = path := by
  induction path with
  | nil => rfl
  | cons n outer ih =>
    rw [renumberPath]
    split
    case isTrue hcall => rw [h [] n (congrArg (n :: ·) hcall)]
    case isFalse => rw [ih fun inside m hpath => h (n :: inside) m (congrArg (n :: ·) hpath)]

end

/-- The identity, with other numbers for what is made in the call. -/
def renumber (call : List Nat) (f : Nat → Nat) (id : Identity) : Identity :=
  if id.call = call then ⟨f id.number, id.call⟩ else ⟨id.number, renumberPath call f id.call⟩

theorem path_renumber (call : List Nat) (f : Nat → Nat) (id : Identity) :
    (id.renumber call f).path = renumberPath call f id.path := by
  rw [renumber, path, path, renumberPath]
  split <;> rfl

theorem path_injective : Function.Injective path := by
  rintro ⟨n, call⟩ ⟨m, call'⟩ h
  obtain ⟨rfl, rfl⟩ := List.cons.inj h
  rfl

theorem renumber_injective {f : Nat → Nat} {call : List Nat} {g : Nat → Nat} (h : Function.LeftInverse g f) :
    Function.Injective (renumber call f) := by
  intro id id' heq
  have hpath := congrArg path heq
  rw [path_renumber, path_renumber] at hpath
  exact path_injective ((renumberPath_leftInverse h).injective hpath)

/-- Later numbers for what is still to come in a call. -/
def delay (start k n : Nat) : Nat := if n < start then n else n + k

theorem delay_of_le {start n : Nat} (k : Nat) (h : start ≤ n) : delay start k n = n + k :=
  if_neg (Nat.not_lt.2 h)

theorem delay_leftInverse (start k : Nat) :
    Function.LeftInverse (fun n => if n < start then n else n - k) (delay start k) := by
  intro n
  rcases Nat.lt_or_ge n start with hn | hn
  · rw [delay, if_pos hn]
    exact if_pos hn
  · rw [delay_of_le k hn]
    exact (if_neg (by omega)).trans (Nat.add_sub_cancel n k)

/-- Of the identities that are still to come, each is given out `k` numbers later in the call. -/
def shift (start : Identity) (k : Nat) : Renaming where
  map := renumber start.call (delay start.number k)
  injective := renumber_injective (delay_leftInverse start.number k)
  Coming := start.Coming
  coming_next := Coming.next
  coming_inner := Coming.inner
  map_next {id} h := by
    rw [renumber, renumber, Identity.next]
    dsimp only
    split
    case isTrue hcall =>
      have hn := h.number_le hcall
      rw [delay_of_le k hn, delay_of_le k (Nat.le_succ_of_le hn), Identity.next, Nat.add_right_comm]
    case isFalse => rfl
  map_inner {id} h := by
    have hne : id.inner.call ≠ start.call := by
      intro hcall
      have hlength := congrArg List.length hcall
      have hle := h.length_le
      rw [Identity.inner, List.length_cons] at hlength
      omega
    rw [renumber, if_neg hne]
    exact congrArg (Identity.mk 0) (path_renumber _ _ id).symm

theorem shift_self (start : Identity) (k : Nat) : (start.shift k).map start = start.skip k := by
  exact (if_pos rfl).trans (congrArg (Identity.mk · start.call) (delay_of_le k (Nat.le_refl _)))

theorem shift_of_not_coming (k : Nat) (h : ¬ start.Coming id) : (start.shift k).map id = id := by
  refine path_injective ((path_renumber _ _ id).trans ?_)
  refine renumberPath_eq_self fun inside n hpath => if_pos ?_
  exact Nat.lt_of_not_le fun hn => h ⟨inside, n, hpath, hn⟩

end Identity

/-! Identities in values -/

/-- The identity of a stream or a function. -/
def Value.identity? : Value → Option Identity
  | stream id _ => some id
  | function id _ => some id
  | _ => none

/-- The streams and the functions in the value, however deep, have identities of this kind. -/
inductive Value.AllIdentities (ok : Identity → Prop) : Value → Prop
  | mk {v : Value} (self : ∀ id, v.identity? = some id → ok id)
    (parts : ∀ w ∈ v.parts, AllIdentities ok w) : AllIdentities ok v

theorem Value.allIdentities_of_no_parts {ok : Identity → Prop} {v : Value} (h : v.identity? = none)
    (hp : v.parts = []) : v.AllIdentities ok := by
  refine .mk (fun id hid => ?_) fun w hw => ?_
  · rw [h] at hid
    cases hid
  · rw [hp] at hw
    cases hw

section

variable {ρ : Identity → Identity}

theorem map_eq_self {α : Type} {f : α → α} {as : List α} (h : ∀ a ∈ as, f a = a) : as.map f = as :=
  (List.map_congr_left h).trans (List.map_id' as)

theorem Value.renameEntry_eq_self {ι : Type} {entries : List (ι × Value)}
    (h : ∀ v ∈ entries.map (·.2), v.rename ρ = v) : entries.map (renameEntry ρ) = entries :=
  map_eq_self fun e he => Prod.ext rfl (h e.2 (List.mem_map_of_mem he))

theorem Env.rename_eq_self {env : Env} (h : ∀ v ∈ env.values, v.rename ρ = v) : env.rename ρ = env :=
  map_eq_self fun frame hframe =>
    Value.renameEntry_eq_self fun v hv => h v (List.mem_flatMap.2 ⟨frame, hframe, hv⟩)

theorem Callable.rename_eq_self : ∀ {c : Callable}, (∀ v ∈ c.values, v.rename ρ = v) → c.rename ρ = c
  | .closure decl env module, h => by rw [rename_closure, Env.rename_eq_self h]
  | .builtin _, _ => rfl
  | .applied target args, h => by
    obtain ⟨htarget, hargs⟩ := List.forall_mem_append.1 h
    rw [rename_applied, rename_eq_self htarget, map_eq_self hargs]

theorem Pipeline.rename_eq_self {p : Pipeline} (h : ∀ v ∈ p.values, v.rename ρ = v) : p.rename ρ = p := by
  obtain ⟨source, stages⟩ := p
  obtain ⟨hsource, hstages⟩ := List.forall_mem_append.1 h
  have hsource' : source.rename ρ = source := by
    cases source with
    | list items => exact (Source.rename_list items).trans (congrArg _ (map_eq_self hsource))
    | generate count generator => exact congrArg _ (hsource generator (.head _))
    | infinite generator => exact congrArg _ (hsource generator (.head _))
    | _ => rfl
  have hstages' : stages.map (Stage.rename ρ) = stages := by
    refine map_eq_self fun stage hstage => ?_
    have hvalues : ∀ v ∈ stage.values, v.rename ρ = v :=
      fun v hv => hstages v (List.mem_flatMap.2 ⟨stage, hstage, hv⟩)
    cases stage with
    | map f => exact congrArg _ (hvalues f (.head _))
    | filter f => exact congrArg _ (hvalues f (.head _))
    | flatMap f => exact congrArg _ (hvalues f (.head _))
    | _ => rfl
  rw [rename_mk, hsource', hstages']

theorem Value.rename_eq_self {v : Value} (h : v.AllIdentities fun id => ρ id = id) : v.rename ρ = v := by
  induction h with
  | @mk v self _ ih =>
    cases v with
    | list items => exact (rename_list items).trans (congrArg list (map_eq_self ih))
    | set items => exact (rename_set items).trans (congrArg set (map_eq_self ih))
    | tuple items => exact (rename_tuple items).trans (congrArg tuple (map_eq_self ih))
    | map entries => exact (rename_map entries).trans (congrArg map (renameEntry_eq_self ih))
    | record name fields =>
      exact (rename_record name fields).trans (congrArg (record name) (renameEntry_eq_self ih))
    | enum e w payload => cases payload with
      | none => rfl
      | some v => rw [rename_enum, Option.map_some, ih v (.head _)]
    | option inner => cases inner with
      | none => rfl
      | some v => rw [rename_option, Option.map_some, ih v (.head _)]
    | ok inner => rw [rename_ok, ih inner (.head _)]
    | err error => rw [rename_err, ih error (.head _)]
    | stream id p => rw [rename_stream, self id rfl, Pipeline.rename_eq_self ih]
    | function id c => rw [rename_function, self id rfl, Callable.rename_eq_self ih]
    | _ => rfl

theorem TaskFrame.rename_eq_self {frame : TaskFrame} (h : ∀ v ∈ frame.values, v.rename ρ = v) :
    frame.rename ρ = frame := by
  cases frame with
  | operand e env done =>
    obtain ⟨hdone, henv⟩ := List.forall_mem_append.1 h
    rw [rename, Env.rename_eq_self henv, map_eq_self hdone]
  | eval | branch | arms | logic | block => rw [rename, Env.rename_eq_self h]
  | _ => rfl

theorem TaskBody.rename_eq_self {body : TaskBody} (h : ∀ v ∈ body.values, v.rename ρ = v) :
    body.rename ρ = body := by
  cases body with
  | machine m =>
    have hstack : m.stack.map (TaskFrame.rename ρ) = m.stack :=
      map_eq_self fun frame hframe =>
        frame.rename_eq_self fun v hv => h v (List.mem_flatMap.2 ⟨frame, hframe, hv⟩)
    rw [rename, hstack]
  | combinator c => cases c with
    | all sources values => exact congrArg (combinator ∘ .all sources) (map_eq_self h)
    | onError source handler => exact congrArg (combinator ∘ .onError source) (h handler (.head _))
    | onComplete source handler => exact congrArg (combinator ∘ .onComplete source) (h handler (.head _))
    | andThen source handler => exact congrArg (combinator ∘ .andThen source) (h handler (.head _))
    | forward => rfl

end

/-! Identities in states -/

namespace Interpreter

variable {γ : Type} {s : Interpreter γ}

section

variable {ρ : Identity → Identity} (h : ∀ v, s.Holds v → v.rename ρ = v)
include h

theorem rename_modules_eq_self : s.modules.map (ModuleScope.rename ρ) = s.modules := by
  refine (Array.map_congr_left fun scope hscope => ?_).trans (Array.map_id' s.modules)
  obtain ⟨name, globals⟩ := scope
  refine congrArg (ModuleScope.mk name) (Value.renameEntry_eq_self fun v hv => h v ?_)
  obtain ⟨e, he, rfl⟩ := List.mem_map.1 hv
  exact .global hscope he

theorem rename_results_eq_self : s.results.map (Value.rename ρ) = s.results :=
  (Array.map_congr_left fun v hv => h v (.result hv)).trans (Array.map_id' s.results)

theorem rename_futures_eq_self : s.scheduler.futures.rename ρ = s.scheduler.futures := by
  refine congrArg FutureTable.mk ((Array.map_congr_left fun slot hslot => ?_).trans (Array.map_id' _))
  obtain ⟨id, hid, rfl⟩ := Array.getElem_of_mem hslot
  have hslot? : s.scheduler.futures.state? id = some s.scheduler.futures.slots[id].state :=
    congrArg (Option.map _) (Array.getElem?_eq_getElem hid)
  generalize s.scheduler.futures.slots[id] = slot at hslot? ⊢
  obtain ⟨state, waiters, observed⟩ := slot
  refine congrArg (FutureSlot.mk · waiters observed) ?_
  cases state with
  | pending => rfl
  | resolved v => exact congrArg FutureState.resolved (h v (.resolved hslot?))
  | failed f =>
    exact congrArg (fun error => FutureState.failed ⟨error, f.line⟩) (h f.error (.failed hslot?))

theorem scheduler_renamed_self : s.scheduler.Renamed ρ s.scheduler := by
  refine ⟨(rename_futures_eq_self h).symm, fun id => ?_, rfl, rfl⟩
  cases htask : s.scheduler.tasks[id]? with
  | none => rfl
  | some task =>
    have hbody := TaskBody.rename_eq_self fun v hv => h v (.task htask hv)
    exact congrArg some (congrArg (fun body => { task with body }) hbody).symm

theorem memo_renamed_self : s.memo.Renamed ρ s.memo := by
  refine ⟨fun key => ?_, rfl, rfl⟩
  cases hv : s.memo.entries[key]? with
  | none => rfl
  | some v => exact congrArg some (h v (.memo hv)).symm

/-- Other identities for none of the values that the state keeps. -/
theorem renamed_self : s.Renamed ρ { s with nextIdentity := ρ s.nextIdentity } := by
  have hrenamed := Renamed.mk (scheduler_renamed_self h) (memo_renamed_self h)
  rw [rename_modules_eq_self h, rename_results_eq_self h] at hrenamed
  exact hrenamed

end

/-- No identity in the value is still to come. -/
def Knows (s : Interpreter γ) (v : Value) : Prop := v.AllIdentities fun id => ¬ s.nextIdentity.Coming id

/-- The state, but that so many identities have been given out. -/
def skip (s : Interpreter γ) (n : Nat) : Interpreter γ :=
  { s with nextIdentity := s.nextIdentity.skip n }

theorem skip_skip (s : Interpreter γ) (m n : Nat) : (s.skip m).skip n = s.skip (m + n) := by
  simp only [skip, Identity.skip, Nat.add_assoc]

theorem Knows.rename_shift {v : Value} (h : s.Knows v) (k : Nat) :
    v.rename (s.nextIdentity.shift k).map = v := by
  refine Value.rename_eq_self ?_
  induction h with
  | mk self _ ih => exact .mk (fun id hid => Identity.shift_of_not_coming k (self id hid)) ih

/-- When no identity that is still to come is kept anywhere, the later numbers change nothing else. -/
theorem twins_skip (h : ∀ v, s.Holds v → s.Knows v) (k : Nat) :
    (s.nextIdentity.shift k).Twins s (s.skip k) := by
  have hrenamed := renamed_self fun v hv => (h v hv).rename_shift k
  rw [Identity.shift_self] at hrenamed
  exact ⟨Identity.coming_self _, hrenamed⟩

/-- At the start nothing is kept. -/
theorem not_holds_start (checked : Checked) (options : Options) (gateway : γ) (nextIdentity : Identity)
    (v : Value) : ¬ { start checked options gateway with nextIdentity }.Holds v := by
  intro h
  cases h with
  | global hscope => exact absurd hscope (Array.not_mem_empty _)
  | memo hv => exact Option.some_ne_none _ (hv.symm.trans Std.HashMap.getElem?_empty)
  | result hv => exact absurd hv (Array.not_mem_empty _)
  | resolved hv => cases hv
  | failed hf => cases hf
  | task htask => exact Option.some_ne_none _ (htask.symm.trans Std.HashMap.getElem?_empty)

end Interpreter

end StreamLang
