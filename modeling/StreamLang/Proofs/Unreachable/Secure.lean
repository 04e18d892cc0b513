import StreamLang.Proofs.Unreachable.Fits

/-! Two computations of which the second is to stop where the first would make a mistake. They are
secure when from every sound state they end alike, in a sound state, and not with an internal fault.
What they are told of values is told for the futures there were at the beginning, and what they
promise is promised for those there are at the end. -/

namespace StreamLang

variable {γ α β : Type}

namespace Interpreter

/-- How many futures there are. -/
abbrev width (s : Interpreter γ) : Nat := s.scheduler.width

/-- The values that are kept fit, and the code that is kept is in place. -/
structure Sound (s : Interpreter γ) : Prop where
  predicates : s.schemas.Placed
  globals : ∀ scope ∈ s.modules, EntriesFit s.width scope.globals
  memo : ∀ (key : MemoKey FunctionId) v, s.memo.entries[key]? = some v → v.Fits s.width
  scheduler : s.scheduler.Sound

/-- A sound state with at least `n` futures. -/
structure Ready (n : Nat) (s : Interpreter γ) : Prop where
  sound : s.Sound
  width : n ≤ s.width

/-- Nothing that is kept changes. -/
structure SameKept (s t : Interpreter γ) : Prop where
  schemas : t.schemas = s.schemas
  modules : t.modules = s.modules
  memo : t.memo.entries = s.memo.entries
  scheduler : t.scheduler = s.scheduler

theorem Sound.of_same {s t : Interpreter γ} (hs : s.Sound) (h : s.SameKept t) : t.Sound where
  predicates := by
    rw [h.schemas]
    exact hs.predicates
  globals := by
    rw [h.modules, width, h.scheduler]
    exact hs.globals
  memo := by
    rw [h.memo, width, h.scheduler]
    exact hs.memo
  scheduler := by
    rw [h.scheduler]
    exact hs.scheduler

theorem Ready.of_same {n : Nat} {s t : Interpreter γ} (hs : s.Ready n) (h : s.SameKept t) :
    t.Ready n where
  sound := hs.sound.of_same h
  width := by
    rw [Interpreter.width, h.scheduler]
    exact hs.width

theorem Ready.self {n : Nat} {s : Interpreter γ} (hs : s.Ready n) : s.Ready s.width :=
  ⟨hs.sound, Nat.le_refl _⟩

theorem Ready.mono {m n : Nat} {s : Interpreter γ} (hs : s.Ready n) (h : m ≤ n) : s.Ready m :=
  ⟨hs.sound, Nat.le_trans h hs.width⟩

/-- The futures and tasks change, and the futures do not become fewer. -/
theorem Sound.withScheduler {s : Interpreter γ} (hs : s.Sound) {scheduler : Scheduler TaskBody}
    (h : scheduler.Sound) (hwidth : s.width ≤ scheduler.width) :
    ({ s with scheduler } : Interpreter γ).Sound where
  predicates := hs.predicates
  globals scope hscope := (hs.globals scope hscope).mono hwidth
  memo key v hv := (hs.memo key v hv).mono hwidth
  scheduler := h

end Interpreter

namespace Run

/-- It ends in a sound state with no fewer futures, with a value that has the property or without an
internal fault. -/
def Ends (n : Nat) (P : Nat → α → Prop) : EStateM.Result Unwind (Interpreter γ) α → Prop
  | .ok a t => t.Ready n ∧ P t.width a
  | .error u t => t.Ready n ∧ u.Fits t.width

/-- From every sound state with at least `n` futures the two computations end alike, and well. -/
def Secure (n : Nat) (P : Nat → α → Prop) (x y : Run γ α) : Prop :=
  ∀ s, s.Ready n → y s = x s ∧ Ends s.width P (x s)

/-- Where nothing is promised of the value. -/
abbrev Anything (_ : Nat) (_ : α) : Prop := True

/-- What holds among some futures holds among more. -/
structure Growing (P : Nat → α → Prop) : Prop where
  mono : ∀ {m n a}, m ≤ n → P m a → P n a

theorem growing_fits : Growing Value.Fits := ⟨fun h hv => hv.mono h⟩

theorem growing_allFit : Growing AllFit := ⟨fun h hvs => hvs.mono h⟩

theorem growing_anything : Growing (Anything (α := α)) := ⟨fun _ _ => trivial⟩

variable {n : Nat} {P : Nat → α → Prop} {Q : Nat → β → Prop}

theorem Ends.weaken {m : Nat} {P' : Nat → α → Prop} {r : EStateM.Result Unwind (Interpreter γ) α}
    (h : Ends n P r) (hm : m ≤ n) (hP : ∀ k a, m ≤ k → P k a → P' k a) : Ends m P' r := by
  cases r with
  | ok a t => exact ⟨h.1.mono hm, hP _ a (Nat.le_trans hm h.1.width) h.2⟩
  | error u t => exact ⟨h.1.mono hm, h.2⟩

namespace Secure

theorem mono {m : Nat} {x y : Run γ α} (h : Secure n P x y) (hm : n ≤ m) : Secure m P x y :=
  fun s hs => h s (hs.mono hm)

theorem weaken {P' : Nat → α → Prop} {x y : Run γ α} (h : Secure n P x y)
    (hP : ∀ m a, n ≤ m → P m a → P' m a) : Secure n P' x y :=
  fun s hs => ⟨(h s hs).1, (h s hs).2.weaken (Nat.le_refl _) fun m a hm =>
    hP m a (Nat.le_trans hs.width hm)⟩

theorem pure {a : α} (h : ∀ m, n ≤ m → P m a) :
    Secure n P (Pure.pure a : Run γ α) (Pure.pure a) :=
  fun s hs => ⟨rfl, hs.self, h s.width hs.width⟩

theorem throw {u : Unwind} (h : ∀ m, n ≤ m → u.Fits m) :
    Secure n P (MonadExcept.throw u : Run γ α) (MonadExcept.throw u) :=
  fun s hs => ⟨rfl, hs.self, h s.width hs.width⟩

theorem failAt {fault : Fault} (h : fault.isInternal = false) (line : Nat) :
    Secure n P (Eval.failAt fault line : Run γ α) (Eval.failAt fault line) :=
  throw fun _ _ => Bool.eq_false_iff.1 h

theorem fail {fault : Fault} (h : fault.isInternal = false) :
    Secure n P (Eval.fail fault : Run γ α) (Eval.fail fault) :=
  failAt h 0

theorem exhausted : Secure n P (MonadExcept.throw .exhausted : Run γ α)
    (MonadExcept.throw .exhausted) :=
  throw fun _ _ => trivial

theorem ofExcept {r : Except Fault α} (h : ∀ m, n ≤ m → Except.All (P m) r)
    (hr : Except.Mild r) : Secure n P (Eval.ofExcept r : Run γ α) (Eval.ofExcept r) := by
  cases r with
  | ok a => exact .pure fun m hm => h m hm a rfl
  | error fault => exact .fail (by simpa using hr fault rfl)

theorem bind {x y : Run γ α} {f g : α → Run γ β} (hx : Secure n P x y)
    (hf : ∀ m, n ≤ m → ∀ a, P m a → Secure m Q (f a) (g a)) :
    Secure n Q (x >>= f) (y >>= g) := by
  intro s hs
  obtain ⟨hsame, hends⟩ := hx s hs
  cases hx' : x s with
  | ok a t =>
    rw [hx'] at hsame hends
    obtain ⟨ht, ha⟩ := hends
    rw [Eval.bind_of_ok hx', Eval.bind_of_ok hsame]
    obtain ⟨hsame', hends'⟩ := hf t.width (Nat.le_trans hs.width ht.width) a ha t ht.self
    exact ⟨hsame', hends'.weaken ht.width fun _ _ _ h => h⟩
  | error u t =>
    rw [hx'] at hsame hends
    rw [Eval.bind_of_error hx', Eval.bind_of_error hsame]
    exact ⟨rfl, hends⟩

/-- What is read from the state is known to be sound. -/
theorem get_bind {f g : Interpreter γ → Run γ α}
    (h : ∀ s, s.Ready n → Secure s.width P (f s) (g s)) :
    Secure n P (get >>= f) (get >>= g) :=
  fun s hs => h s hs s hs.self

theorem modifyGet {f : Interpreter γ → α × Interpreter γ}
    (h : ∀ s, s.Ready n → (f s).2.Ready s.width ∧ P (f s).2.width (f s).1) :
    Secure n P (MonadStateOf.modifyGet f : Run γ α) (MonadStateOf.modifyGet f) :=
  fun s hs => ⟨rfl, h s hs⟩

/-- The change leaves alone what is kept. -/
theorem modify_same {f : Interpreter γ → Interpreter γ} (h : ∀ s, Interpreter.SameKept s (f s)) :
    Secure n Anything (modify f : Run γ PUnit) (modify f) :=
  fun s hs => ⟨rfl, hs.self.of_same (h s), trivial⟩

theorem modify {f : Interpreter γ → Interpreter γ}
    (h : ∀ s, s.Ready n → (f s).Ready s.width) :
    Secure n Anything (modify f : Run γ PUnit) (modify f) :=
  fun s hs => ⟨rfl, h s hs, trivial⟩

theorem located {x y : Run γ α} (h : Secure n P x y) (line : Nat) :
    Secure n P (x.located line) (y.located line) := by
  intro s hs
  obtain ⟨hsame, hends⟩ := h s hs
  unfold Eval.located
  rw [hsame]
  cases hx : x s with
  | ok a t =>
    rw [hx] at hends
    exact ⟨rfl, hends⟩
  | error u t =>
    rw [hx] at hends
    refine ⟨rfl, hends.1, ?_⟩
    cases u with
    | fail fault inner => cases inner <;> exact hends.2
    | _ => exact hends.2

/-- What is put back at the end leaves alone what is kept. -/
theorem restoring {x y : Run γ α} {restore : Interpreter γ → Interpreter γ} (h : Secure n P x y)
    (hrestore : ∀ s, Interpreter.SameKept s (restore s)) :
    Secure n P (x.restoring restore) (y.restoring restore) := by
  have hwidth : ∀ s, (restore s).width = s.width := fun s => by
    rw [Interpreter.width, (hrestore s).scheduler]
  intro s hs
  obtain ⟨hsame, hends⟩ := h s hs
  unfold Eval.restoring
  rw [hsame]
  cases hx : x s with
  | ok a t =>
    rw [hx] at hends
    refine ⟨rfl, hends.1.of_same (hrestore t), ?_⟩
    rw [hwidth]
    exact hends.2
  | error u t =>
    rw [hx] at hends
    refine ⟨rfl, hends.1.of_same (hrestore t), ?_⟩
    rw [hwidth]
    exact hends.2

theorem catchEarly {x y : Run γ Value} (h : Secure n Value.Fits x y) :
    Secure n Value.Fits x.catchEarly y.catchEarly := by
  intro s hs
  obtain ⟨hsame, hends⟩ := h s hs
  unfold Eval.catchEarly
  rw [hsame]
  cases hx : x s with
  | ok a t =>
    rw [hx] at hends
    exact ⟨rfl, hends⟩
  | error u t =>
    rw [hx] at hends
    cases u <;> exact ⟨rfl, hends⟩

section

variable {ι : Type}

theorem mapM (hP : Growing P) {f g : ι → Run γ α} {is : List ι}
    (h : ∀ i ∈ is, Secure n P (f i) (g i)) :
    Secure n (fun m as => as.length = is.length ∧ ∀ a ∈ as, P m a) (is.mapM f) (is.mapM g) := by
  induction is generalizing n with
  | nil => exact .pure fun _ _ => ⟨rfl, List.forall_mem_nil _⟩
  | cons i is ih =>
    rw [List.mapM_cons, List.mapM_cons]
    refine .bind (h i (.head _)) fun m hm a ha => ?_
    refine .bind (ih fun j hj => (h j (.tail _ hj)).mono hm) fun k hk as has => ?_
    refine .pure fun k' hk' => ⟨by rw [List.length_cons, has.1, List.length_cons], ?_⟩
    exact List.forall_mem_cons.2
      ⟨hP.mono (Nat.le_trans hk hk') ha, fun b hb => hP.mono hk' (has.2 b hb)⟩

theorem foldlM (hP : Growing P) {f g : α → ι → Run γ α} {is : List ι}
    (h : ∀ m, n ≤ m → ∀ a, P m a → ∀ i ∈ is, Secure m P (f a i) (g a i)) {a : α} (ha : P n a) :
    Secure n P (is.foldlM f a) (is.foldlM g a) := by
  induction is generalizing n a with
  | nil => exact .pure fun _ hm => hP.mono hm ha
  | cons i is ih =>
    rw [List.foldlM_cons, List.foldlM_cons]
    refine .bind (h n (Nat.le_refl n) a ha i (.head _)) fun m hm b hb => ?_
    exact ih (fun k hk c hc j hj => h k (Nat.le_trans hm hk) c hc j (.tail _ hj)) hb

theorem forM {f g : ι → Run γ PUnit} {is : List ι}
    (h : ∀ i ∈ is, Secure n Anything (f i) (g i)) :
    Secure n Anything (is.forM f) (is.forM g) := by
  induction is generalizing n with
  | nil => exact .pure fun _ _ => trivial
  | cons i is ih =>
    exact .bind (h i (.head _)) fun m hm _ _ => ih fun j hj => (h j (.tail _ hj)).mono hm

end

end Secure

-- what the evaluator does to a state

theorem withScheduler_secure {f : Scheduler TaskBody → α × Scheduler TaskBody}
    (h : ∀ s : Scheduler TaskBody, s.Sound → n ≤ s.width →
      (f s).2.Sound ∧ s.width ≤ (f s).2.width ∧ P (f s).2.width (f s).1) :
    Secure n P (withScheduler (γ := γ) f) (withScheduler f) :=
  .modifyGet fun s hs => by
    obtain ⟨hsound, hwidth, hP⟩ := h s.scheduler hs.sound.scheduler hs.width
    exact ⟨⟨hs.sound.withScheduler hsound hwidth, hwidth⟩, hP⟩

theorem freshIdentity_secure : Secure n Anything (freshIdentity (γ := γ)) freshIdentity :=
  .modifyGet fun _ hs => ⟨hs.self.of_same ⟨rfl, rfl, rfl, rfl⟩, trivial⟩

theorem newFunction_secure {c : Callable} (hc : c.Placed) (hvalues : AllFit n c.values) :
    Secure n Value.Fits (newFunction (γ := γ) c) (newFunction c) :=
  .bind freshIdentity_secure fun _ hm _ _ => .pure fun _ hk =>
    Value.every_function.2 ⟨hc, hvalues.mono (Nat.le_trans hm hk)⟩

theorem newStream_secure {p : Pipeline} (hp : AllFit n p.values) :
    Secure n Value.Fits (newStream (γ := γ) p) (newStream p) :=
  .bind freshIdentity_secure fun _ hm _ _ => .pure fun _ hk =>
    Value.every_stream.2 (hp.mono (Nat.le_trans hm hk))

theorem lookup_secure (name : String) {env : Env} (henv : AllFit n env.values) :
    Secure n Value.Fits (lookup (γ := γ) name env) (lookup name env) := by
  unfold lookup
  cases hlocal : env.lookup? name with
  | some v => exact .pure fun _ hm => (Env.lookup?_every henv hlocal).mono hm
  | none =>
    refine .get_bind fun s hs => ?_
    cases hglobal : s.global? s.current name with
    | some v =>
      obtain ⟨scope, hscope, hv⟩ := Option.bind_eq_some_iff.1 hglobal
      have hfits :=
        hs.sound.globals scope (Array.mem_of_getElem? hscope) _ (Keyed.mem_of_get? hv)
      exact .pure fun _ hm => hfits.mono hm
    | none =>
      cases Builtin.ofName? name with
      | some b => exact newFunction_secure (c := .builtin b) trivial AllEvery.nil
      | none =>
        dsimp only
        split
        · refine .pure fun _ _ => Value.every_option.2 ?_
          rintro v ⟨⟩
        · exact .fail rfl

theorem writeLog_secure (line : String) :
    Secure n Anything (writeLog (γ := γ) line) (writeLog line) :=
  .modify_same fun _ => ⟨rfl, rfl, rfl, rfl⟩

theorem countEvaluation_secure (name : String) :
    Secure n Anything (countEvaluation (γ := γ) name) (countEvaluation name) :=
  .modify_same fun _ => ⟨rfl, rfl, rfl, rfl⟩

/-- A future that the program is given. -/
abbrev Known (n : Nat) (id : FutureId) : Prop := id < n

theorem spawnBody_secure {body : TaskBody} (hbody : body.Fits n) :
    Secure n Known (withScheduler (γ := γ) (·.spawn body)) (withScheduler (·.spawn body)) :=
  withScheduler_secure fun s hs hn => by
    refine ⟨hs.spawn (TaskBody.Fits.mono hn hbody), ?_, ?_⟩
    · rw [Scheduler.width_spawn]
      exact Nat.le_succ _
    · rw [Scheduler.width_spawn]
      exact Nat.lt_succ_self _

theorem spawn_secure {body : Expr} {env : Env} (hbody : body.Placed true)
    (henv : AllFit n env.values) : Secure n Known (spawn (γ := γ) body env) (spawn body env) :=
  .get_bind fun _ hs => spawnBody_secure
    (List.forall_mem_singleton.2 ⟨hbody, henv.mono hs.width⟩)

theorem spawnCombinator_secure {c : Combinator} (hc : c.Fits n) :
    Secure n Known (spawnCombinator (γ := γ) c) (spawnCombinator c) :=
  spawnBody_secure (show TaskBody.Fits n (.combinator c) from hc)

theorem createFuture_secure :
    Secure n Known (withScheduler (γ := γ) (·.createFuture)) (withScheduler (·.createFuture)) :=
  withScheduler_secure fun _ hs _ => by
    refine ⟨hs.createFuture, ?_, ?_⟩
    · rw [Scheduler.width_createFuture]
      exact Nat.le_succ _
    · rw [Scheduler.width_createFuture]
      exact Nat.lt_succ_self _

theorem settle_secure {state : FutureState} (hstate : state.Every (Value.Within n))
    (id : FutureId) : Secure n Anything (withScheduler (γ := γ) fun s => ((), s.settle id state))
      (withScheduler fun s => ((), s.settle id state)) :=
  withScheduler_secure fun _ hs hn =>
    ⟨hs.settle state (hstate.mono hn) id, Nat.le_of_eq (Scheduler.width_settle id state).symm,
      trivial⟩

theorem markObserved_secure (id : FutureId) :
    Secure n Anything (markObserved (γ := γ) id) (markObserved id) :=
  withScheduler_secure fun _ hs _ =>
    ⟨hs.markObserved id, Nat.le_of_eq (Scheduler.width_markObserved id).symm, trivial⟩

/-- The state of a future there is. -/
def Observed (n : Nat) (found : Option FutureState) : Prop :=
  ∃ state, found = some state ∧ state.Every (Value.Within n)

theorem futureState?_secure {id : FutureId} (hid : id < n) :
    Secure n Observed (futureState? (γ := γ) id) (futureState? id) := by
  refine .get_bind fun s hs => .pure fun m hm => ?_
  cases hstate : s.scheduler.futures.state? id with
  | none => exact absurd hid (Nat.not_lt.2 (Nat.le_trans hs.width
      (FutureTable.state?_eq_none_iff.1 hstate)))
  | some state =>
    exact ⟨state, rfl, (hs.sound.scheduler.futures id state hstate).mono hm⟩

theorem observe_secure {id : FutureId} (hid : id < n) :
    Secure n Observed (observe (γ := γ) id) (observe id) :=
  .bind (markObserved_secure id) fun _ hm _ _ => futureState?_secure (Nat.lt_of_lt_of_le hid hm)

theorem destructure_secure (pattern : Pattern) {v : Value} (hv : v.Fits n) :
    Secure n EntriesFit (destructure (γ := γ) pattern v) (destructure pattern v) := by
  refine .get_bind fun s hs => ?_
  have hmatch := pattern.bindings?_every hs.sound.scheduler.futures v (hv.mono hs.width)
  cases hb : pattern.bindings? s.scheduler.futures v with
  | none => exact .fail rfl
  | some bindings => exact .pure fun _ hm => (hmatch bindings hb).mono hm

theorem dispatch_secure [Gateway γ] (op : ServiceOp) (args : List Json) :
    Secure n Known (dispatch (γ := γ) op args) (dispatch op args) := by
  refine .bind (.modifyGet (P := Anything) fun _ hs =>
    ⟨hs.self.of_same ⟨rfl, rfl, rfl, rfl⟩, trivial⟩) fun _ _ id _ => ?_
  refine .bind (.modifyGet (P := Anything) fun _ hs =>
    ⟨hs.self.of_same ⟨rfl, rfl, rfl, rfl⟩, trivial⟩) fun _ _ reply _ => ?_
  cases reply with
  | error message => exact .fail rfl
  | ok _ =>
    refine .bind createFuture_secure fun _ _ future hfuture => ?_
    refine .bind (.modify_same fun _ => ⟨rfl, rfl, rfl, rfl⟩) fun _ hm _ _ => ?_
    exact .pure fun _ hk => Nat.lt_of_lt_of_le hfuture (Nat.le_trans hm hk)

theorem settledFuture_secure (state : FutureState) (hstate : state.Every (Value.Within n)) :
    Secure n Value.Fits (settledFuture (γ := γ) state) (settledFuture state) := by
  refine .bind createFuture_secure fun _ hm id hid => ?_
  refine .bind (settle_secure (hstate.mono hm) id) fun _ hk _ _ => .pure fun _ hl => ?_
  exact Value.every_future.2 (Nat.lt_of_lt_of_le hid (Nat.le_trans hk hl))

theorem inModule_secure (module : Nat) {x y : Run γ α} (h : Secure n P x y) :
    Secure n P (inModule module x) (inModule module y) :=
  .get_bind fun _ hs => .bind (.modify_same fun _ => ⟨rfl, rfl, rfl, rfl⟩) fun _ hm _ _ =>
    .restoring (h.mono (Nat.le_trans hs.width hm)) fun _ => ⟨rfl, rfl, rfl, rfl⟩

theorem deeper_secure {x y : Run γ α} (h : Secure n P x y) :
    Secure n P (deeper x) (deeper y) :=
  .bind (.modify_same fun _ => ⟨rfl, rfl, rfl, rfl⟩) fun _ hm _ _ =>
    .restoring (h.mono hm) fun _ => ⟨rfl, rfl, rfl, rfl⟩

theorem numbered_secure {x y : Run γ α} (h : Secure n P x y) :
    Secure n P (numbered x) (numbered y) :=
  .get_bind fun _ hs => .bind (.modify_same fun _ => ⟨rfl, rfl, rfl, rfl⟩) fun _ hm _ _ =>
    .restoring (h.mono (Nat.le_trans hs.width hm)) fun _ => ⟨rfl, rfl, rfl, rfl⟩

theorem memoKey?_secure (decl : FunctionDecl) (module : Nat) (args : List Value) :
    Secure n Anything (memoKey? (γ := γ) decl module args) (memoKey? decl module args) := by
  unfold memoKey?
  cases decl.name with
  | none => exact .pure fun _ _ => trivial
  | some name => exact .get_bind fun _ _ => .pure fun _ _ => trivial

theorem remembered?_secure (key : MemoKey FunctionId) :
    Secure n (fun m found => ∀ v, found = some v → v.Fits m) (remembered? (γ := γ) key)
      (remembered? key) := by
  refine .modifyGet fun s hs => ?_
  cases hfound : s.memo.entries[key]? with
  | none =>
    simp only [MemoCache.find, hfound]
    refine ⟨hs.self.of_same ⟨rfl, rfl, rfl, rfl⟩, ?_⟩
    rintro v ⟨⟩
  | some v =>
    simp only [MemoCache.find, hfound]
    refine ⟨hs.self.of_same ⟨rfl, rfl, rfl, rfl⟩, ?_⟩
    rintro w ⟨⟩
    exact hs.sound.memo key v hfound

theorem remember_secure (key : MemoKey FunctionId) {v : Value} (hv : v.Fits n) :
    Secure n Anything (remember (γ := γ) key v) (remember key v) := by
  refine .modify fun s hs => ⟨⟨hs.sound.predicates, hs.sound.globals, fun other w hw => ?_,
    hs.sound.scheduler⟩, Nat.le_refl _⟩
  simp only [MemoCache.insert, Std.HashMap.getElem?_insert] at hw
  split at hw
  · cases hw
    exact hv.mono hs.width
  · exact hs.sound.memo other w hw

end Run

end StreamLang
