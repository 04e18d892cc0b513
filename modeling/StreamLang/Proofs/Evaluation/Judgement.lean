import StreamLang.Proofs.Alias.Rounds
import StreamLang.Proofs.Evaluation.Hopeful
import StreamLang.Proofs.Unreachable.Placed

/-! Judgements on computations, by what a computation is made of. Evaluation is made of readings and
changes of the state that leave the declared types alone, of faults, of the early ends of `?`, and
of these one after the other, so that a judgement with a rule for each of them holds of all
evaluation. -/

namespace StreamLang

namespace Expr

/-- The expressions directly inside one that are evaluated as part of it. The bodies of closures and
`async` blocks are not. -/
def within : Expr → List Expr
  | branch _ test whenTrue whenFalse => test :: whenTrue :: whenFalse.toList
  | cases _ scrutinee arms => scrutinee :: arms.flatMap fun arm => arm.guard.toList ++ [arm.body]
  | block _ stmts tail => stmts.map Stmt.inner ++ tail.toList
  | await _ future => [future]
  | attempt _ inner => [inner]
  | e => e.operands

/-- The expression has a `?` of its own, which is not in a closure or an `async` block inside it. -/
inductive Attempts : Expr → Prop
  | here {span : Span} {inner : Expr} : Attempts (.attempt span inner)
  | within {e part : Expr} (hpart : part ∈ e.within) (h : Attempts part) : Attempts e

theorem not_attempts_of_within {e : Expr} (hnot : ∀ span inner, e ≠ .attempt span inner)
    (h : ∀ part ∈ e.within, ¬ part.Attempts) : ¬ e.Attempts := by
  intro he
  cases he with
  | here => exact hnot _ _ rfl
  | within hpart hattempts => exact h _ hpart hattempts

theorem mem_within_of_operands {e part : Expr} (h : part ∈ e.operands) : part ∈ e.within := by
  cases e with
  | branch | cases | block | await | attempt => cases h
  | _ => exact h

end Expr

/-- What a `?` gives back: a failure. -/
def Value.isFailure : Value → Bool
  | err _ => true
  | option none => true
  | _ => false

variable {γ : Type}

/-- A judgement with a rule for each way to make up a computation. Its index says whether the computation
may end early; of the predicates of the declared types `P` is known. -/
structure Run.Judgement (P : Expr → Prop) (J : Prop → ∀ {α : Type}, Run γ α → Prop) : Prop where
  pure : ∀ {early : Prop} {α : Type} (a : α), J early (Pure.pure a)
  failAt : ∀ {early : Prop} {α : Type} {fault : Fault} {line : Nat}, fault.isVerdict = false →
    J early (Eval.failAt fault line : Run γ α)
  exhausted : ∀ {early : Prop} {α : Type}, J early (throw .exhausted : Run γ α)
  early : ∀ {early : Prop} {α : Type} {v : Value}, early → v.isFailure = true → ∀ line,
    J early (throw (.early v line) : Run γ α)
  /-- What comes after is asked for values that the first computation can give. -/
  bind_of_ok : ∀ {early : Prop} {α β : Type} {x : Run γ α} {f : α → Run γ β}, J early x →
    (∀ s a t, x s = .ok a t → J early (f a)) → J early (x >>= f)
  get_bind : ∀ {early : Prop} {α : Type} {f : Interpreter γ → Run γ α},
    (∀ s, s.schemas.Predicates P → J early (f s)) → J early (get >>= f)
  modifyGet : ∀ {early : Prop} {α : Type} {f : Interpreter γ → α × Interpreter γ},
    (∀ s, (f s).2.schemas = s.schemas) → J early (modifyGet f : Run γ α)
  located : ∀ {early : Prop} {α : Type} {x : Run γ α}, J early x → ∀ line, J early (x.located line)
  restoring : ∀ {early : Prop} {α : Type} {x : Run γ α} {restore : Interpreter γ → Interpreter γ},
    J early x → (∀ s, (restore s).schemas = s.schemas) → J early (x.restoring restore)
  /-- An early end is caught. -/
  catchEarly : ∀ {early early' : Prop} {x : Run γ Value}, J early x → J early' x.catchEarly
  mono : ∀ {early early' : Prop} {α : Type} {x : Run γ α}, J early x → (early → early') → J early' x
  /-- No predicate ends the check of it early. -/
  predicate : ∀ {early : Prop} {e : Expr} {x : Run γ Value}, P e → J e.Attempts x → J early x

namespace Run.Judgement

variable {P : Expr → Prop} {J : Prop → ∀ {α : Type}, Run γ α → Prop} (hJ : Judgement P J)
  {early : Prop} {α β ι : Type}
include hJ

theorem bind {x : Run γ α} {f : α → Run γ β} (hx : J early x) (hf : ∀ a, J early (f a)) :
    J early (x >>= f) :=
  hJ.bind_of_ok hx fun _ a _ _ => hf a

theorem fail {fault : Fault} (h : fault.isVerdict = false) : J early (Eval.fail fault : Run γ α) :=
  hJ.failAt h

theorem ofExcept {x : Except Fault α} (h : Except.Hopeful x) : J early (Eval.ofExcept x : Run γ α) := by
  cases x with
  | ok a => exact hJ.pure a
  | error fault => exact hJ.fail (Fault.isVerdict_eq_false.2 (Except.Hopeful.error_iff.1 h))

theorem modify {f : Interpreter γ → Interpreter γ} (h : ∀ s, (f s).schemas = s.schemas) :
    J early (modify f : Run γ PUnit) :=
  hJ.modifyGet h

theorem withScheduler (f : Scheduler TaskBody → α × Scheduler TaskBody) :
    J early (Run.withScheduler f : Run γ α) :=
  hJ.modifyGet fun _ => rfl

theorem forM {is : List ι} {f : ι → Run γ PUnit} (h : ∀ i ∈ is, J early (f i)) :
    J early (is.forM f) := by
  induction is with
  | nil => exact hJ.pure _
  | cons i is ih =>
    obtain ⟨hi, his⟩ := List.forall_mem_cons.1 h
    exact hJ.bind hi fun _ => ih his

theorem mapM {is : List ι} {f : ι → Run γ α} (h : ∀ i ∈ is, J early (f i)) :
    J early (is.mapM f) := by
  induction is with
  | nil => exact hJ.pure _
  | cons i is ih =>
    obtain ⟨hi, his⟩ := List.forall_mem_cons.1 h
    rw [List.mapM_cons]
    exact hJ.bind hi fun _ => hJ.bind (ih his) fun _ => hJ.pure _

theorem foldlM {f : β → ι → Run γ β} (h : ∀ b i, J early (f b i)) (is : List ι) (b : β) :
    J early (is.foldlM f b) := by
  induction is generalizing b with
  | nil => exact hJ.pure _
  | cons i is ih =>
    rw [List.foldlM_cons]
    exact hJ.bind (h b i) fun b => ih b

theorem truth (what : Condition) (v : Value) :
    J early (Run.truth (γ := γ) what v) := by
  cases v with
  | bool b => exact hJ.pure _
  | _ => exact hJ.fail rfl

theorem attempt (h : early) (v : Value) (line : Nat) :
    J early (Run.attempt (γ := γ) v line) := by
  cases v with
  | ok inner => exact hJ.pure _
  | err error => exact hJ.early h rfl line
  | option inner => cases inner with
    | some inner => exact hJ.pure _
    | none => exact hJ.early h rfl line
  | _ => exact hJ.fail rfl

theorem newFunction (c : Callable) : J early (Run.newFunction (γ := γ) c) :=
  hJ.bind (hJ.modifyGet fun _ => rfl) fun _ => hJ.pure _

theorem newStream (p : Pipeline) : J early (Run.newStream (γ := γ) p) :=
  hJ.bind (hJ.modifyGet fun _ => rfl) fun _ => hJ.pure _

theorem lookup (name : String) (env : Env) :
    J early (Run.lookup (γ := γ) name env) := by
  unfold Run.lookup
  split
  · exact hJ.pure _
  · refine hJ.get_bind fun s hs => ?_
    split
    · exact hJ.pure _
    · split
      · exact hJ.newFunction _
      · split
        · exact hJ.pure _
        · exact hJ.fail rfl

theorem spawn (body : Expr) (env : Env) : J early (Run.spawn (γ := γ) body env) :=
  hJ.get_bind fun _ _ => hJ.withScheduler _

theorem futureState? (id : FutureId) :
    J early (Run.futureState? (γ := γ) id) :=
  hJ.get_bind fun _ _ => hJ.pure _

theorem observe (id : FutureId) : J early (Run.observe (γ := γ) id) :=
  hJ.bind (hJ.withScheduler _) fun _ => hJ.futureState? id

theorem awaitSettled (v : Value) (line : Nat) :
    J early (Run.awaitSettled (γ := γ) v line) := by
  cases v with
  | future id =>
    refine hJ.bind (hJ.observe id) fun state? => ?_
    split
    · exact hJ.pure _
    · exact hJ.failAt rfl
    · exact hJ.fail rfl
    · exact hJ.failAt rfl
  | _ => exact hJ.fail rfl

theorem destructure (pattern : Pattern) (v : Value) :
    J early (Run.destructure (γ := γ) pattern v) := by
  refine hJ.get_bind fun s _ => ?_
  split
  · exact hJ.pure _
  · exact hJ.fail rfl

theorem settledFuture (state : FutureState) :
    J early (Run.settledFuture (γ := γ) state) :=
  hJ.bind (hJ.withScheduler _) fun _ => hJ.bind (hJ.withScheduler _) fun _ => hJ.pure _

theorem futureOf (op : FutureOp) (v : Value) : J early (Run.futureOf (γ := γ) op v) :=
  hJ.ofExcept (Argument.future_hopeful _ v)

theorem onFutures (op : FutureOp) (args : List Value) :
    J early (Run.onFutures (γ := γ) op args) := by
  unfold Run.onFutures
  split
  · exact hJ.bind (hJ.futureOf _ _) fun _ => hJ.bind (hJ.withScheduler _) fun _ => hJ.pure _
  · exact hJ.bind (hJ.futureOf _ _) fun _ => hJ.bind (hJ.withScheduler _) fun _ => hJ.pure _
  · exact hJ.bind (hJ.futureOf _ _) fun _ => hJ.bind (hJ.withScheduler _) fun _ => hJ.pure _
  · exact hJ.bind (hJ.ofExcept (Argument.list_hopeful _ _)) fun _ =>
      hJ.bind (hJ.ofExcept (Argument.futures_hopeful _ _)) fun _ =>
      hJ.bind (hJ.withScheduler _) fun _ => hJ.pure _
  · exact hJ.settledFuture _
  · exact hJ.get_bind fun _ _ => hJ.settledFuture _
  · refine hJ.bind (hJ.futureOf _ _) fun id => hJ.bind (hJ.futureState? id) fun state? => ?_
    split
    · exact hJ.pure _
    · exact hJ.fail rfl
  · exact hJ.fail rfl

theorem dispatch [Gateway γ] (op : ServiceOp) (args : List Json) :
    J early (Run.dispatch (γ := γ) op args) := by
  refine hJ.bind (hJ.modifyGet fun _ => rfl) fun id => hJ.bind (hJ.modifyGet fun _ => rfl) fun reply => ?_
  split
  · exact hJ.fail rfl
  · exact hJ.bind (hJ.withScheduler _) fun _ => hJ.bind (hJ.modify fun _ => rfl) fun _ => hJ.pure _

theorem buildVariant (enum variant : String) (args : List Value) :
    J early (Run.buildVariant (γ := γ) enum variant args) := by
  refine hJ.get_bind fun s _ => ?_
  dsimp only
  split
  · exact hJ.pure _
  · exact hJ.fail rfl

-- streams

variable {host : Host (Interpreter γ)} (hcall : ∀ f args, J early (host f args))
include hcall

theorem next (source : SourceCursor) : J early (source.next host) := by
  unfold SourceCursor.next
  split
  · exact hJ.pure _
  · exact hJ.pure _
  · split
    · split
      · exact hJ.pure _
      · exact hJ.pure _
    · split
      · exact hJ.pure _
      · exact hJ.pure _
  · split
    · exact hJ.pure _
    · exact hJ.bind (hcall _ _) fun _ => hJ.pure _
  · exact hJ.pure _

theorem pull (fuel : Nat) (c : Cursor) : J early (c.pull host fuel) := by
  induction fuel generalizing c with
  | zero => exact hJ.exhausted
  | succ fuel ih =>
    obtain ⟨source, stages⟩ := c
    unfold Cursor.pull
    dsimp only
    split
    · exact hJ.bind (hJ.next hcall source) fun _ => hJ.pure _
    · refine hJ.bind (ih _) fun (v?, c) => ?_
      cases v? with
      | none => exact hJ.pure _
      | some v => exact hJ.bind (hcall _ _) fun _ => hJ.pure _
    · refine hJ.bind (ih _) fun (v?, c) => ?_
      cases v? with
      | none => exact hJ.pure _
      | some v =>
        refine hJ.bind (hcall _ _) fun verdict => ?_
        split
        · exact hJ.pure _
        · exact ih _
        · exact hJ.fail rfl
    · exact hJ.pure _
    · exact hJ.bind (ih _) fun _ => hJ.pure _
    · exact hJ.bind (ih _) fun _ => hJ.pure _
    · refine hJ.bind (ih _) fun (v?, c) => ?_
      cases v? with
      | none => exact hJ.pure _
      | some _ => exact ih _
    · refine hJ.bind (ih _) fun (v?, c) => ?_
      cases v? with
      | none => exact hJ.pure _
      | some v =>
        refine hJ.bind (hcall _ _) fun w => ?_
        exact hJ.bind (hJ.ofExcept (InnerCursor.ofValue_hopeful _ _)) fun _ => ih _
    · exact ih _
    · exact hJ.pure _
    · refine hJ.bind (ih _) fun (v?, inner) => ?_
      cases v? with
      | none => exact ih _
      | some v => exact hJ.pure _

theorem fold {step : β → Value → Run γ β} (hstep : ∀ b v, J early (step b v))
    (fuel : Nat) (c : Cursor) (b : β) : J early (c.fold host step fuel b) := by
  induction fuel generalizing c b with
  | zero => exact hJ.exhausted
  | succ fuel ih =>
    refine hJ.bind (hJ.pull hcall fuel c) fun (v?, c) => ?_
    cases v? with
    | none => exact hJ.pure _
    | some v => exact hJ.bind (hstep b v) fun _ => ih _ _

theorem drain (fuel : Nat) (terminal : String) (p : Pipeline) :
    J early (p.drain host fuel terminal) :=
  hJ.bind (hJ.ofExcept (Pipeline.boundedCursor_hopeful _ _)) fun c =>
    hJ.bind (hJ.fold hcall (fun _ _ => hJ.pure _) fuel c []) fun _ => hJ.pure _

end Run.Judgement

end StreamLang
