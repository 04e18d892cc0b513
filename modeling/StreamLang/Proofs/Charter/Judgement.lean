import StreamLang.Proofs.Charter.Basic

/-! Computations under a charter. From every state as the charter says the computation leads to such a
state again, however it ends. Beside it stands a second computation, which may stop where the first
would break the charter; the two are to do the same. -/

namespace StreamLang

variable {γ α β : Type}

/-- An early end gives a value as the charter says. -/
def Unwind.Under (C : Charter) : Unwind → Prop
  | early v _ => C.Fine v
  | _ => True

namespace Run

/-- The state is as the charter says, with the names of the module; nothing more is loaded, and no
future is lost. -/
structure Stays (C : Charter) (due : FutureId → Value → Prop) (m : Nat) (l : Loaded) (n : Nat)
    (t : Interpreter γ) : Prop where
  state : C.State due t
  current : t.current = m
  loaded : t.loaded = l
  grown : n ≤ t.scheduler.futures.size

/-- It ends as the charter says, and a value has the property. -/
def Ended (C : Charter) (due : FutureId → Value → Prop) (m : Nat) (l : Loaded) (n : Nat)
    (P : α → Prop) :
    EStateM.Result Unwind (Interpreter γ) α → Prop
  | .ok a t => Stays C due m l n t ∧ P a
  | .error u t => Stays C due m l n t ∧ u.Under C

/-- With the names of the module, and from every state as the charter says, the two computations end
alike, and as it says. -/
def Under (C : Charter) (due : FutureId → Value → Prop) (m : Nat) (P : α → Prop) (x y : Run γ α) :
    Prop :=
  ∀ s, C.State due s → s.current = m →
    y s = x s ∧ Ended C due m s.loaded s.scheduler.futures.size P (x s)

/-- Where nothing is asked of the value. -/
abbrev Whatever (_ : α) : Prop := True

variable {C : Charter} {due : FutureId → Value → Prop} {m : Nat} {P : α → Prop} {Q : β → Prop}

theorem Ended.mono {l : Loaded} {k n : Nat} (h : k ≤ n) {x : EStateM.Result Unwind (Interpreter γ) α}
    (hx : Ended C due m l n P x) : Ended C due m l k P x := by
  have hmono : ∀ t : Interpreter γ, Stays C due m l n t → Stays C due m l k t :=
    fun t ht => ⟨ht.state, ht.current, ht.loaded, Nat.le_trans h ht.grown⟩
  cases x with
  | ok a t => exact ⟨hmono t hx.1, hx.2⟩
  | error u t => exact ⟨hmono t hx.1, hx.2⟩

namespace Under

theorem weaken {P' : α → Prop} {x y : Run γ α} (h : Under C due m P x y) (hP : ∀ a, P a → P' a) :
    Under C due m P' x y := by
  intro s hs hm
  obtain ⟨hsame, hends⟩ := h s hs hm
  refine ⟨hsame, ?_⟩
  cases hx : x s with
  | ok a t =>
    rw [hx] at hends
    exact ⟨hends.1, hP a hends.2⟩
  | error u t =>
    rw [hx] at hends
    exact hends

theorem pure {a : α} (h : P a) : Under C due m P (Pure.pure a : Run γ α) (Pure.pure a) :=
  fun _ hs hm => ⟨rfl, ⟨hs, hm, rfl, Nat.le_refl _⟩, h⟩

theorem throw {u : Unwind} (h : u.Under C) :
    Under C due m P (MonadExcept.throw u : Run γ α) (MonadExcept.throw u) :=
  fun _ hs hm => ⟨rfl, ⟨hs, hm, rfl, Nat.le_refl _⟩, h⟩

theorem failAt (fault : Fault) (line : Nat) :
    Under C due m P (Eval.failAt fault line : Run γ α) (Eval.failAt fault line) :=
  throw trivial

theorem fail (fault : Fault) : Under C due m P (Eval.fail fault : Run γ α) (Eval.fail fault) :=
  failAt fault 0

theorem exhausted : Under C due m P (MonadExcept.throw .exhausted : Run γ α)
    (MonadExcept.throw .exhausted) :=
  throw trivial

theorem ofExcept {r : Except Fault α} (h : Except.All P r) :
    Under C due m P (Eval.ofExcept r : Run γ α) (Eval.ofExcept r) := by
  cases r with
  | ok a => exact .pure (h a rfl)
  | error fault => exact .fail fault

theorem bind {x y : Run γ α} {f g : α → Run γ β} (hx : Under C due m P x y)
    (hf : ∀ a, P a → Under C due m Q (f a) (g a)) : Under C due m Q (x >>= f) (y >>= g) := by
  intro s hs hm
  obtain ⟨hsame, hends⟩ := hx s hs hm
  cases hx' : x s with
  | ok a t =>
    rw [hx'] at hsame hends
    rw [Eval.bind_of_ok hx', Eval.bind_of_ok hsame]
    obtain ⟨hsame', hends'⟩ := hf a hends.2 t hends.1.state hends.1.current
    rw [hends.1.loaded] at hends'
    exact ⟨hsame', hends'.mono hends.1.grown⟩
  | error u t =>
    rw [hx'] at hsame hends
    rw [Eval.bind_of_error hx', Eval.bind_of_error hsame]
    exact ⟨rfl, hends⟩

/-- What is read from the state is as the charter says. -/
theorem get_bind {f g : Interpreter γ → Run γ α}
    (h : ∀ s, C.State due s → s.current = m → Under C due m P (f s) (g s)) :
    Under C due m P (get >>= f) (get >>= g) :=
  fun s hs hm => h s hs hm s hs hm

theorem modifyGet {f : Interpreter γ → α × Interpreter γ}
    (h : ∀ s, C.State due s → Stays C due s.current s.loaded s.scheduler.futures.size (f s).2 ∧ P (f s).1) :
    Under C due m P (MonadStateOf.modifyGet f : Run γ α) (MonadStateOf.modifyGet f) := by
  rintro s hs rfl
  exact ⟨rfl, h s hs⟩

theorem modify {f : Interpreter γ → Interpreter γ}
    (h : ∀ s, C.State due s → Stays C due s.current s.loaded s.scheduler.futures.size (f s)) :
    Under C due m Whatever (modify f : Run γ PUnit) (modify f) := by
  rintro s hs rfl
  exact ⟨rfl, h s hs, trivial⟩

theorem located {x y : Run γ α} (h : Under C due m P x y) (line : Nat) :
    Under C due m P (x.located line) (y.located line) := by
  intro s hs hm
  obtain ⟨hsame, hends⟩ := h s hs hm
  unfold Eval.located
  rw [hsame]
  cases hx : x s with
  | ok a t =>
    rw [hx] at hends
    exact ⟨rfl, hends⟩
  | error u t =>
    rw [hx] at hends
    refine ⟨rfl, hends.1, ?_⟩
    cases u with
    | fail fault inner => cases inner <;> exact hends.2
    | _ => exact hends.2

/-- At the end the state is led back to the module from which it came. -/
theorem restoring {k : Nat} {x y : Run γ α} (h : Under C due k P x y)
    (restore : Interpreter γ → Interpreter γ)
    (hrestore : ∀ l n s, Stays C due k l n s → Stays C due m l n (restore s)) :
    ∀ s, C.State due s → s.current = k →
      y.restoring restore s = x.restoring restore s ∧
        Ended C due m s.loaded s.scheduler.futures.size P (x.restoring restore s) := by
  intro s hs hk
  obtain ⟨hsame, hends⟩ := h s hs hk
  unfold Eval.restoring
  rw [hsame]
  cases hx : x s with
  | ok a t =>
    rw [hx] at hends
    exact ⟨rfl, hrestore _ _ t hends.1, hends.2⟩
  | error u t =>
    rw [hx] at hends
    exact ⟨rfl, hrestore _ _ t hends.1, hends.2⟩

theorem catchEarly {x y : Run γ Value} (h : Under C due m C.Fine x y) :
    Under C due m C.Fine x.catchEarly y.catchEarly := by
  intro s hs hm
  obtain ⟨hsame, hends⟩ := h s hs hm
  unfold Eval.catchEarly
  rw [hsame]
  cases hx : x s with
  | ok a t =>
    rw [hx] at hends
    exact ⟨rfl, hends⟩
  | error u t =>
    rw [hx] at hends
    cases u <;> exact ⟨rfl, hends⟩

theorem atTop {x y : Run γ α} (h : Under C due m P x y) (line : Nat) :
    Under C due m P (Run.atTop line x) (Run.atTop line y) := by
  intro s hs hm
  obtain ⟨hsame, hends⟩ := h.located line s hs hm
  unfold Run.atTop
  rw [hsame]
  cases hx : x.located line s with
  | ok a t =>
    rw [hx] at hends
    exact ⟨rfl, hends⟩
  | error u t =>
    rw [hx] at hends
    cases u <;> exact ⟨rfl, hends.1, trivial⟩

section

variable {ι : Type}

/-- The results stand to the items, one by one, as each does to its own. -/
theorem mapM {R : ι → α → Prop} {f g : ι → Run γ α} {is : List ι}
    (h : ∀ i ∈ is, Under C due m (R i) (f i) (g i)) :
    Under C due m (List.Forall₂ R is) (is.mapM f) (is.mapM g) := by
  induction is with
  | nil => exact .pure .nil
  | cons i is ih =>
    rw [List.mapM_cons, List.mapM_cons]
    refine .bind (h i (.head _)) fun a ha => ?_
    exact .bind (ih fun j hj => h j (.tail _ hj)) fun as has => .pure (.cons ha has)

theorem mapM_all {f g : ι → Run γ α} {is : List ι} (h : ∀ i ∈ is, Under C due m P (f i) (g i)) :
    Under C due m (fun as => ∀ a ∈ as, P a) (is.mapM f) (is.mapM g) := by
  induction is with
  | nil => exact .pure (List.forall_mem_nil _)
  | cons i is ih =>
    rw [List.mapM_cons, List.mapM_cons]
    refine .bind (h i (.head _)) fun a ha => ?_
    exact .bind (ih fun j hj => h j (.tail _ hj)) fun as has =>
      .pure (List.forall_mem_cons.2 ⟨ha, has⟩)

theorem foldlM {f g : α → ι → Run γ α} {is : List ι}
    (h : ∀ a, P a → ∀ i ∈ is, Under C due m P (f a i) (g a i)) {a : α} (ha : P a) :
    Under C due m P (is.foldlM f a) (is.foldlM g a) := by
  induction is generalizing a with
  | nil => exact .pure ha
  | cons i is ih =>
    rw [List.foldlM_cons, List.foldlM_cons]
    exact .bind (h a ha i (.head _)) fun b hb =>
      ih (fun c hc j hj => h c hc j (.tail _ hj)) hb

theorem forM {f g : ι → Run γ PUnit} {is : List ι}
    (h : ∀ i ∈ is, Under C due m Whatever (f i) (g i)) :
    Under C due m Whatever (is.forM f) (is.forM g) := by
  induction is with
  | nil => exact .pure trivial
  | cons i is ih => exact .bind (h i (.head _)) fun _ _ => ih fun j hj => h j (.tail _ hj)

end

end Under

-- what the evaluator does to a state

/-- Nothing changes of what is kept. -/
theorem Stays.of_same {s t : Interpreter γ} (hs : C.State due s) (hloaded : t.loaded = s.loaded)
    (hmemo : t.memo.entries = s.memo.entries) (hresults : t.results = s.results)
    (hscheduler : t.scheduler = s.scheduler) (hrequests : t.requests = s.requests)
    (hcurrent : t.current = m) : Stays C due m s.loaded s.scheduler.futures.size t :=
  ⟨hs.of_same hloaded hmemo hresults hscheduler hrequests, hcurrent, hloaded,
    Nat.le_of_eq (by rw [hscheduler])⟩

/-- The change leaves alone what is kept. -/
theorem modify_same_under {f : Interpreter γ → Interpreter γ}
    (hloaded : ∀ s, (f s).loaded = s.loaded) (hmemo : ∀ s, (f s).memo.entries = s.memo.entries)
    (hresults : ∀ s, (f s).results = s.results)
    (hscheduler : ∀ s, (f s).scheduler = s.scheduler)
    (hrequests : ∀ s, (f s).requests = s.requests) (hcurrent : ∀ s, (f s).current = s.current) :
    Under C due m Whatever (modify f : Run γ PUnit) (modify f) :=
  .modify fun s hs => .of_same hs (hloaded s) (hmemo s) (hresults s) (hscheduler s) (hrequests s)
    (hcurrent s)

theorem withScheduler_under {f : Scheduler TaskBody → α × Scheduler TaskBody}
    (h : ∀ s : Scheduler TaskBody, C.Scheduler due s → C.Scheduler due (f s).2 ∧
      s.futures.size ≤ (f s).2.futures.size ∧ P (f s).1) :
    Under C due m P (withScheduler (γ := γ) f) (withScheduler f) := by
  refine .modifyGet fun s hs => ?_
  obtain ⟨hscheduler, hgrown, hvalue⟩ := h s.scheduler hs.scheduler
  exact ⟨⟨hs.withScheduler hscheduler hgrown, rfl, rfl, hgrown⟩, hvalue⟩

theorem freshIdentity_under : Under C due m Whatever (freshIdentity (γ := γ)) freshIdentity :=
  .modifyGet fun _ hs => ⟨.of_same hs rfl rfl rfl rfl rfl rfl, trivial⟩

theorem newFunction_under {c : Callable} (hc : C.Admits c) (hvalues : C.AllFine c.values) :
    Under C due m C.Fine (newFunction (γ := γ) c) (newFunction c) :=
  .bind freshIdentity_under fun _ _ => .pure (Value.every_function.2 ⟨hc, hvalues⟩)

theorem newStream_under {p : Pipeline} (hp : C.AllFine p.values) :
    Under C due m C.Fine (newStream (γ := γ) p) (newStream p) :=
  .bind freshIdentity_under fun _ _ => .pure (Value.every_stream.2 hp)

theorem lookup_under (name : String) {env : Env} (henv : C.AllFine env.values) :
    Under C due m C.Fine (lookup (γ := γ) name env) (lookup name env) := by
  unfold lookup
  cases hlocal : env.lookup? name with
  | some v => exact .pure (Env.lookup?_every henv hlocal)
  | none =>
    refine .get_bind fun s hs _ => ?_
    cases hglobal : s.global? s.current name with
    | some v =>
      obtain ⟨scope, hscope, hv⟩ := Option.bind_eq_some_iff.1 hglobal
      exact .pure (hs.globals scope (Array.mem_of_getElem? hscope) _ (Keyed.mem_of_get? hv))
    | none =>
      cases Builtin.ofName? name with
      | some b => exact newFunction_under (c := .builtin b) trivial AllEvery.nil
      | none =>
        dsimp only
        split
        · refine .pure (Value.every_option.2 ?_)
          rintro v ⟨⟩
        · exact .fail _

theorem writeLog_under (line : String) :
    Under C due m Whatever (writeLog (γ := γ) line) (writeLog line) :=
  modify_same_under (fun _ => rfl) (fun _ => rfl) (fun _ => rfl) (fun _ => rfl) (fun _ => rfl)
    fun _ => rfl

theorem countEvaluation_under (name : String) :
    Under C due m Whatever (countEvaluation (γ := γ) name) (countEvaluation name) :=
  modify_same_under (fun _ => rfl) (fun _ => rfl) (fun _ => rfl) (fun _ => rfl) (fun _ => rfl)
    fun _ => rfl

theorem setLine_under (line : Nat) :
    Under C due m Whatever (modify fun s => { s with line } : Run γ PUnit)
      (modify fun s => { s with line }) :=
  modify_same_under (fun _ => rfl) (fun _ => rfl) (fun _ => rfl) (fun _ => rfl) (fun _ => rfl)
    fun _ => rfl

theorem spawnBody_under {body : TaskBody} (hbody : ∀ Q : Value → Prop, (∀ v, Q v) → C.Body Q body) :
    Under C due m Whatever (withScheduler (γ := γ) (·.spawn body)) (withScheduler (·.spawn body)) :=
  withScheduler_under fun s hs =>
    ⟨hs.spawn (hbody _ (hs.fresh _ (Nat.le_refl _))), by simp [Scheduler.spawn], trivial⟩

/-- A task that begins with code, and may come to anything. -/
theorem spawn_under {body : Expr} {env : Env} (hbody : C.code m env body)
    (henv : C.AllFine env.values) :
    Under C due m Whatever (spawn (γ := γ) body env) (spawn body env) :=
  .get_bind fun s _ hm => spawnBody_under fun Q hQ =>
    ⟨.inr hQ, by rw [hm]; exact ⟨⟨hbody, henv⟩, fun w _ _ => hQ w⟩⟩

theorem spawnCombinator_under {c : Combinator} (hc : C.AllFine c.values) :
    Under C due m Whatever (spawnCombinator (γ := γ) c) (spawnCombinator c) :=
  spawnBody_under fun _ hQ => ⟨hQ, hc⟩

theorem markObserved_under (id : FutureId) :
    Under C due m Whatever (markObserved (γ := γ) id) (markObserved id) :=
  withScheduler_under fun _ hs =>
    ⟨hs.markObserved id, Nat.le_of_eq (FutureTable.size_markObserved _ _).symm, trivial⟩

theorem futureState?_under (id : FutureId) :
    Under C due m (fun found => ∀ state, found = some state → C.Settles due id state)
      (futureState? (γ := γ) id) (futureState? id) :=
  .get_bind fun _ hs _ => .pure fun state hstate => hs.scheduler.futures id state hstate

theorem observe_under (id : FutureId) :
    Under C due m (fun found => ∀ state, found = some state → C.Settles due id state)
      (observe (γ := γ) id) (observe id) :=
  .bind (markObserved_under id) fun _ _ => futureState?_under id

theorem matches_fine {s : Interpreter γ} (hs : C.State due s) {pattern : Pattern} {v : Value}
    (hv : C.Fine v) {bindings : List (String × Value)}
    (h : pattern.bindings? s.scheduler.futures v = some bindings) : C.EntriesFine bindings := by
  refine pattern.bindings?_every (fun id state hstate => ?_) v hv bindings h
  have hsettles := hs.scheduler.futures id state hstate
  cases state with
  | pending => trivial
  | resolved w => exact hsettles.1
  | failed f => exact hsettles

theorem destructure_under (pattern : Pattern) {v : Value} (hv : C.Fine v) :
    Under C due m (fun bindings => C.EntriesFine bindings ∧ pattern.Matches v bindings)
      (destructure (γ := γ) pattern v) (destructure pattern v) := by
  refine .get_bind fun s hs _ => ?_
  cases hb : pattern.bindings? s.scheduler.futures v with
  | none => exact .fail _
  | some bindings => exact .pure ⟨matches_fine hs hv hb, _, hb⟩

theorem dispatch_under [Gateway γ] (op : ServiceOp) (args : List Json) :
    Under C due m Whatever (dispatch (γ := γ) op args) (dispatch op args) := by
  rintro s hs rfl
  refine ⟨rfl, ?_⟩
  cases hreply : Gateway.dispatch ⟨s.nextRequest, op, args⟩ s.gateway with
  | mk reply gateway => cases reply with
    | error message =>
      rw [dispatch_of_error hreply]
      exact ⟨.of_same hs rfl rfl rfl rfl rfl rfl, trivial⟩
    | ok _ =>
      rw [dispatch_of_ok hreply]
      have hgrown : s.scheduler.futures.size < s.scheduler.createFuture.2.futures.size := by
        simp [Scheduler.createFuture]
      have hs' := hs.withScheduler hs.scheduler.createFuture (Nat.le_of_lt hgrown)
      refine ⟨⟨⟨hs.loaded, hs.globals, hs.memo, hs.results, hs'.scheduler, fun o ho => ?_⟩, rfl, rfl,
        Nat.le_of_lt hgrown⟩, trivial⟩
      rcases List.mem_append.1 ho with ho | ho
      · exact hs'.requests o ho
      · obtain rfl := List.mem_singleton.1 ho
        exact ⟨hgrown, hs.scheduler.fresh _ (Nat.le_refl _)⟩

/-- A future that is settled when it is made. -/
theorem settledFuture_under (state : FutureState) (hstate : ∀ id, (∀ v, due id v) →
    C.Settles due id state) : Under C due m C.Fine (settledFuture (γ := γ) state) (settledFuture state) := by
  rintro s hs rfl
  have hgrown : s.scheduler.futures.size ≤
      (s.scheduler.createFuture.2.settle s.scheduler.futures.size state).futures.size := by
    rw [Scheduler.size_settle]
    simp [Scheduler.createFuture]
  have hsettled := hs.scheduler.createFuture.settle
    (hstate _ (hs.scheduler.fresh _ (Nat.le_refl _)))
  exact ⟨rfl, ⟨hs.withScheduler hsettled hgrown, rfl, rfl, hgrown⟩, Value.every_future.2 trivial⟩

theorem inModule_under (k : Nat) {x y : Run γ α} (h : Under C due k P x y) :
    Under C due m P (inModule k x) (inModule k y) := by
  rintro s hs rfl
  refine h.restoring (fun t => { t with current := s.current }) (fun l n t ht => ?_)
    { s with current := k } (hs.of_same rfl rfl rfl rfl rfl) rfl
  exact ⟨ht.state.of_same rfl rfl rfl rfl rfl, rfl, ht.loaded, ht.grown⟩

theorem deeper_under {x y : Run γ α} (h : Under C due m P x y) :
    Under C due m P (deeper x) (deeper y) := by
  intro s hs hm
  refine h.restoring (fun t => { t with depth := t.depth - 1 }) (fun l n t ht => ?_)
    { s with depth := s.depth + 1 } (hs.of_same rfl rfl rfl rfl rfl) hm
  exact ⟨ht.state.of_same rfl rfl rfl rfl rfl, ht.current, ht.loaded, ht.grown⟩

theorem numbered_under {x y : Run γ α} (h : Under C due m P x y) :
    Under C due m P (numbered x) (numbered y) := by
  intro s hs hm
  refine h.restoring (fun t => { t with nextIdentity := s.nextIdentity.next }) (fun l n t ht => ?_)
    { s with nextIdentity := s.nextIdentity.inner } (hs.of_same rfl rfl rfl rfl rfl) hm
  exact ⟨ht.state.of_same rfl rfl rfl rfl rfl, ht.current, ht.loaded, ht.grown⟩

theorem memoKey?_under (decl : FunctionDecl) (k : Nat) (args : List Value) :
    Under C due m Whatever (memoKey? (γ := γ) decl k args) (memoKey? decl k args) := by
  unfold memoKey?
  cases decl.name with
  | none => exact .pure trivial
  | some name => exact .get_bind fun _ _ _ => .pure trivial

theorem remembered?_under (key : MemoKey FunctionId) :
    Under C due m (fun found => ∀ v, found = some v → C.Fine v) (remembered? (γ := γ) key)
      (remembered? key) := by
  refine .modifyGet fun s hs => ?_
  cases hfound : s.memo.entries[key]? with
  | none =>
    simp only [MemoCache.find, hfound]
    refine ⟨.of_same hs rfl rfl rfl rfl rfl rfl, ?_⟩
    rintro v ⟨⟩
  | some v =>
    simp only [MemoCache.find, hfound]
    refine ⟨.of_same hs rfl rfl rfl rfl rfl rfl, ?_⟩
    rintro w ⟨⟩
    exact hs.memo key v hfound

theorem remember_under (key : MemoKey FunctionId) {v : Value} (hv : C.Fine v) :
    Under C due m Whatever (remember (γ := γ) key v) (remember key v) := by
  refine .modify fun s hs => ⟨⟨hs.loaded, hs.globals, fun other w hw => ?_, hs.results,
    hs.scheduler, hs.requests⟩, rfl, rfl, Nat.le_refl _⟩
  simp only [MemoCache.insert, Std.HashMap.getElem?_insert] at hw
  split at hw
  · cases hw
    exact hv
  · exact hs.memo other w hw

theorem truth_under (what : Condition) (v : Value) :
    Under C due m Whatever (truth (γ := γ) what v) (truth what v) := by
  cases v with
  | bool b => exact .pure trivial
  | _ => exact .fail _

theorem attempt_under {v : Value} (hv : C.Fine v) (line : Nat) :
    Under C due m C.Fine (attempt (γ := γ) v line) (attempt v line) := by
  cases v with
  | ok inner => exact .pure (Value.every_ok.1 hv)
  | option inner => cases inner with
    | some inner => exact .pure (Value.every_option.1 hv inner rfl)
    | none => exact .throw hv
  | err error => exact .throw hv
  | _ => exact .fail _

end Run

end StreamLang

/-! Pulling elements through a stream keeps to a charter when the calls of its callbacks do. -/

namespace StreamLang

variable {γ : Type} (C : Charter)

/-- Calls with a function and arguments as the charter says, in whatever module. -/
def Host.Under (due : FutureId → Value → Prop) (host host' : Host (Interpreter γ)) : Prop :=
  ∀ {m f args}, C.Fine f → C.AllFine args → Run.Under C due m C.Fine (host f args) (host' f args)

/-- A pull gives an element, if there is one, and the rest of the traversal. -/
def Charter.Pulled {κ : Type} (values : κ → List Value) (pulled : Option Value × κ) : Prop :=
  (∀ v, pulled.1 = some v → C.Fine v) ∧ C.AllFine (values pulled.2)

variable {C}

namespace Charter.Pulled

variable {κ : Type} {values : κ → List Value} {c : κ}

theorem none (hc : C.AllFine (values c)) : C.Pulled values (Option.none, c) := by
  refine ⟨?_, hc⟩
  rintro v ⟨⟩

theorem some {v : Value} (hv : C.Fine v) (hc : C.AllFine (values c)) :
    C.Pulled values (Option.some v, c) := by
  refine ⟨?_, hc⟩
  rintro w ⟨⟩
  exact hv

end Charter.Pulled

variable {m : Nat} {host host' : Host (Interpreter γ)} (hhost : Host.Under C due host host')
include hhost

theorem SourceCursor.next_under {source : SourceCursor} (h : C.AllFine source.values) :
    Run.Under C due m (C.Pulled SourceCursor.values) (source.next host) (source.next host') := by
  cases source with
  | items rest =>
    cases rest with
    | nil => exact .pure (.none h)
    | cons v rest =>
      exact .pure (.some (h v (.head _)) (AllEvery.of_subset h (List.subset_cons_self v rest)))
  | range next stop step =>
    rw [SourceCursor.next, SourceCursor.next]
    have hmore : ∀ next', Run.Under C due m (C.Pulled SourceCursor.values)
        (pure (some (Value.int next), .range next' stop step) : Run γ _)
        (pure (some (Value.int next), .range next' stop step)) :=
      fun _ => .pure (.some (Value.every_int _) AllEvery.nil)
    have hover : Run.Under C due m (C.Pulled SourceCursor.values)
        (pure (none, .range next stop step) : Run γ _) (pure (none, .range next stop step)) :=
      .pure (.none AllEvery.nil)
    split
    · split
      · exact hmore _
      · exact hover
    · split
      · exact hmore _
      · exact hover
  | generate index count generator =>
    rw [SourceCursor.next, SourceCursor.next]
    split
    · exact .pure (.none h)
    · exact .bind (hhost (h generator (.head _)) (AllEvery.one (Value.every_int _)))
        fun v hv => .pure (.some hv h)
  | done => exact .pure (.none h)

namespace Cursor

theorem pull_under (fuel : Nat) : ∀ {c : Cursor}, C.AllFine c.values →
    Run.Under C due m (C.Pulled Cursor.values) (c.pull host fuel) (c.pull host' fuel) := by
  induction fuel with
  | zero => exact fun _ => .exhausted
  | succ fuel ih =>
    intro c hc
    obtain ⟨source, stages⟩ := c
    obtain ⟨hsource, hstages⟩ := every_mk.1 hc
    cases stages with
    | nil =>
      rw [pull, pull]
      exact .bind (SourceCursor.next_under hhost hsource) fun p hp =>
        .pure ⟨hp.1, every_mk.2 ⟨hp.2, List.forall_mem_nil _⟩⟩
    | cons stage before =>
      obtain ⟨hstage, hbefore⟩ := List.forall_mem_cons.1 hstages
      have hrest : C.AllFine (Cursor.mk source before).values := every_mk.2 ⟨hsource, hbefore⟩
      cases stage with
      | map f =>
        rw [pull, pull]
        refine .bind (ih hrest) fun p hp => ?_
        obtain ⟨v?, c⟩ := p
        have hf := hstage f (.head _)
        have hpush := push_every (.map f) hp.2 (AllEvery.one hf)
        cases v? with
        | none => exact .pure (.none hpush)
        | some v =>
          exact .bind (hhost hf (AllEvery.one (hp.1 v rfl))) fun w hw => .pure (.some hw hpush)
      | filter f =>
        rw [pull, pull]
        refine .bind (ih hrest) fun p hp => ?_
        obtain ⟨v?, c⟩ := p
        have hf := hstage f (.head _)
        have hpush := push_every (.filter f) hp.2 (AllEvery.one hf)
        cases v? with
        | none => exact .pure (.none hpush)
        | some v =>
          refine .bind (hhost hf (AllEvery.one (hp.1 v rfl))) fun verdict _ => ?_
          cases verdict with
          | bool b => cases b with
            | true => exact .pure (.some (hp.1 v rfl) hpush)
            | false => exact ih hpush
          | _ => exact .fail _
      | take remaining =>
        cases remaining with
        | zero => exact .pure (.none hc)
        | succ remaining =>
          rw [pull, pull]
          exact .bind (ih hrest) fun p hp =>
            .pure ⟨hp.1, push_every (.take remaining) hp.2 AllEvery.nil⟩
      | skip remaining =>
        cases remaining with
        | zero =>
          rw [pull, pull]
          exact .bind (ih hrest) fun p hp => .pure ⟨hp.1, push_every (.skip 0) hp.2 AllEvery.nil⟩
        | succ remaining =>
          rw [pull, pull]
          refine .bind (ih hrest) fun p hp => ?_
          obtain ⟨v?, c⟩ := p
          cases v? with
          | none => exact .pure (.none (push_every (.skip 0) hp.2 AllEvery.nil))
          | some v => exact ih (push_every (.skip remaining) hp.2 AllEvery.nil)
      | flatMap f inner t =>
        cases inner with
        | none =>
          rw [pull, pull]
          refine .bind (ih hrest) fun p hp => ?_
          obtain ⟨v?, c⟩ := p
          have hf := hstage f (.head _)
          cases v? with
          | none => exact .pure (.none (push_every (.flatMap f none t) hp.2 (AllEvery.one hf)))
          | some v =>
            refine .bind (hhost hf (AllEvery.one (hp.1 v rfl))) fun w hw => ?_
            refine .bind (.ofExcept (InnerCursor.ofValue_every t hw)) fun inner hinner => ?_
            exact ih (push_every (.flatMap f (some inner) t) hp.2 (.cons hf hinner))
        | some inner =>
          obtain ⟨hf, hinner⟩ := List.forall_mem_cons.1 hstage
          have hagain : C.AllFine (Cursor.mk source (.flatMap f none t :: before)).values :=
            every_mk.2 ⟨hsource, List.forall_mem_cons.2 ⟨AllEvery.one hf, hbefore⟩⟩
          cases inner with
          | items rest => cases rest with
            | nil => exact ih hagain
            | cons v rest =>
              have hleft : C.AllFine rest :=
                AllEvery.of_subset hinner (List.subset_cons_self v rest)
              exact .pure (.some (hinner v (.head _)) (every_mk.2
                ⟨hsource, List.forall_mem_cons.2 ⟨AllEvery.cons hf hleft, hbefore⟩⟩))
          | stream inner =>
            rw [pull, pull]
            refine .bind (ih hinner) fun p hp => ?_
            obtain ⟨v?, inner⟩ := p
            cases v? with
            | none => exact ih hagain
            | some v =>
              exact .pure (.some (hp.1 v rfl) (every_mk.2 ⟨hsource,
                List.forall_mem_cons.2 ⟨AllEvery.cons hf hp.2, hbefore⟩⟩))

theorem fold_under {β : Type} {P : β → Prop} {step step' : β → Value → Run γ β}
    (hstep : ∀ acc v, P acc → C.Fine v → Run.Under C due m P (step acc v) (step' acc v)) (fuel : Nat) :
    ∀ {c : Cursor} {acc : β}, C.AllFine c.values → P acc →
      Run.Under C due m P (c.fold host step fuel acc) (c.fold host' step' fuel acc) := by
  induction fuel with
  | zero => exact fun _ _ => .exhausted
  | succ fuel ih =>
    intro c acc hc hacc
    rw [fold, fold]
    refine .bind (pull_under hhost fuel hc) fun p hp => ?_
    obtain ⟨v?, c⟩ := p
    cases v? with
    | none => exact .pure hacc
    | some v => exact .bind (hstep acc v hacc (hp.1 v rfl)) fun acc' hacc' => ih hp.2 hacc'

end Cursor

theorem Pipeline.drain_under (fuel : Nat) (terminal : String) {p : Pipeline}
    (hp : C.AllFine p.values) :
    Run.Under C due m C.AllFine (p.drain host fuel terminal) (p.drain host' fuel terminal) := by
  refine .bind (.ofExcept (p.boundedCursor_every hp terminal)) fun c hc => ?_
  refine .bind (Cursor.fold_under hhost (P := C.AllFine)
    (fun vs v hvs hv => .pure (AllEvery.cons hv hvs)) fuel hc AllEvery.nil) fun reversed hreversed => ?_
  exact .pure hreversed.reverse

end StreamLang
