import StreamLang.Interpreter.Expr
import StreamLang.Proofs.Delivers
import StreamLang.Proofs.Renaming.State

/-! Computations on values with other identities, from states with other identities. They end in the same
way, with what they give and in the state they end in with the other identities: pulls through a stream,
when calls of functions do, and the single changes that the evaluator makes to a state. -/

namespace StreamLang

def Unwind.rename (ρ : Identity → Identity) : Unwind → Unwind
  | fail fault line => fail (fault.rename ρ) line
  | early v line => early (v.rename ρ) line
  | exhausted => exhausted

theorem Unwind.locate_rename {ρ : Identity → Identity} (line : Nat) (u : Unwind) :
    (u.rename ρ).locate line = (u.locate line).rename ρ := by
  cases u with
  | fail fault inner => cases inner <;> rfl
  | _ => rfl

/-- The second computation ended as the first did, with other identities; `f` gives them to a value. -/
inductive Eval.Mirrored {σ α β : Type} (ρ : Identity → Identity) (R : σ → σ → Prop) (f : α → β) :
    EStateM.Result Unwind σ α → EStateM.Result Unwind σ β → Prop
  | value (a : α) {s t : σ} (h : R s t) : Mirrored ρ R f (.ok a s) (.ok (f a) t)
  | unwinding (u : Unwind) {s t : σ} (h : R s t) : Mirrored ρ R f (.error u s) (.error (u.rename ρ) t)

/-- From related states, the second computation ends as the first does, with other identities. -/
def Eval.Mirrors {σ α β : Type} (ρ : Identity → Identity) (R : σ → σ → Prop) (f : α → β)
    (x : Eval σ α) (y : Eval σ β) : Prop :=
  ∀ s t, R s t → Mirrored ρ R f (x s) (y t)

namespace Eval.Mirrors

variable {σ ι κ α β α' β' : Type} {ρ : Identity → Identity} {R R' : σ → σ → Prop} {f : α → β}
  {g : α' → β'}

theorem pure (a : α) : Mirrors ρ R f (Pure.pure a) (Pure.pure (f a)) := fun _ _ hs => .value a hs

theorem pure_of_eq {a : α} {b : β} (h : b = f a) : Mirrors ρ R f (Pure.pure a) (Pure.pure b) := by
  subst h
  exact pure a

theorem throw (u : Unwind) :
    Mirrors ρ R f (MonadExcept.throw u) (MonadExcept.throw (u.rename ρ)) :=
  fun _ _ hs => .unwinding u hs

theorem fail (fault : Fault) : Mirrors ρ R f (Eval.fail fault) (Eval.fail (fault.rename ρ)) :=
  .throw (.fail fault 0)

theorem failAt (fault : Fault) (line : Nat) :
    Mirrors ρ R f (Eval.failAt fault line) (Eval.failAt (fault.rename ρ) line) :=
  .throw (.fail fault line)

theorem ofExcept {x : Except Fault α} {y : Except Fault β} (h : y = Except.rename ρ f x) :
    Mirrors ρ R f (Eval.ofExcept x) (Eval.ofExcept y) := by
  subst h
  cases x with
  | ok a => exact .pure a
  | error fault => exact .fail fault

theorem bind {x : Eval σ α} {y : Eval σ β} {k : α → Eval σ α'} {k' : β → Eval σ β'}
    (hx : Mirrors ρ R f x y) (hk : ∀ a, Mirrors ρ R g (k a) (k' (f a))) :
    Mirrors ρ R g (x >>= k) (y >>= k') := by
  intro s t hs
  have h := hx s t hs
  cases hx' : x s with
  | ok a s' =>
    rw [hx'] at h
    rw [bind_of_ok hx']
    cases hy : y t with
    | ok b t' =>
      rw [hy] at h
      rw [bind_of_ok hy]
      cases h with
      | value _ hs' => exact hk a s' t' hs'
    | error w t' =>
      rw [hy] at h
      cases h
  | error u s' =>
    rw [hx'] at h
    rw [bind_of_error hx']
    cases hy : y t with
    | ok b t' =>
      rw [hy] at h
      cases h
    | error w t' =>
      rw [hy] at h
      rw [bind_of_error hy]
      cases h with
      | unwinding _ hs' => exact .unwinding u hs'

theorem get_bind {k : σ → Eval σ α} {k' : σ → Eval σ β}
    (h : ∀ s t, R s t → Mirrors ρ R f (k s) (k' t)) : Mirrors ρ R f (get >>= k) (get >>= k') :=
  fun s t hs => h s t hs s t hs

theorem modifyGet {k : σ → α × σ} {k' : σ → β × σ}
    (h : ∀ s t, R s t → (k' t).1 = f (k s).1 ∧ R (k s).2 (k' t).2) :
    Mirrors ρ R f (MonadStateOf.modifyGet k : Eval σ α) (MonadStateOf.modifyGet k' : Eval σ β) := by
  intro s t hs
  obtain ⟨hvalue, hstate⟩ := h s t hs
  have hend : (MonadStateOf.modifyGet k' : Eval σ β) t = .ok (f (k s).1) (k' t).2 := by
    rw [← hvalue]
    rfl
  rw [hend]
  exact .value _ hstate

theorem modify {k k' : σ → σ} (h : ∀ s t, R s t → R (k s) (k' t)) :
    Mirrors ρ R id (modify k : Eval σ PUnit) (modify k' : Eval σ PUnit) :=
  .modifyGet fun s t hs => ⟨rfl, h s t hs⟩

theorem located {x : Eval σ α} {y : Eval σ β} (h : Mirrors ρ R f x y) (line : Nat) :
    Mirrors ρ R f (x.located line) (y.located line) := by
  intro s t hs
  have h := h s t hs
  unfold Eval.located
  generalize x s = r, y t = r' at h ⊢
  cases h with
  | value a hs' => exact .value a hs'
  | unwinding u hs' =>
    dsimp only
    rw [Unwind.locate_rename]
    exact .unwinding _ hs'

/-- The computations, between a change of the states and the change back. -/
theorem restoring {x : Eval σ α} {y : Eval σ β} (h : Mirrors ρ R' f x y) {k k' : σ → σ}
    (hleave : ∀ s t, R' s t → R (k s) (k' t)) {s t : σ} (hs : R' s t) :
    Mirrored ρ R f (x.restoring k s) (y.restoring k' t) := by
  have h := h s t hs
  unfold Eval.restoring
  generalize x s = r, y t = r' at h ⊢
  cases h with
  | value a hs' => exact .value a (hleave _ _ hs')
  | unwinding u hs' => exact .unwinding u (hleave _ _ hs')

theorem catchEarly {x y : Eval σ Value} (h : Mirrors ρ R (Value.rename ρ) x y) :
    Mirrors ρ R (Value.rename ρ) x.catchEarly y.catchEarly := by
  intro s t hs
  have h := h s t hs
  unfold Eval.catchEarly
  generalize x s = r, y t = r' at h ⊢
  cases h with
  | value a hs' => exact .value a hs'
  | unwinding u hs' => cases u with
    | fail fault line => exact .unwinding (.fail fault line) hs'
    | early v line => exact .value v hs'
    | exhausted => exact .unwinding .exhausted hs'

theorem mapM {e : ι → κ} {k : ι → Eval σ α} {k' : κ → Eval σ β} {is : List ι}
    (h : ∀ i ∈ is, Mirrors ρ R f (k i) (k' (e i))) :
    Mirrors ρ R (List.map f) (is.mapM k) ((is.map e).mapM k') := by
  induction is with
  | nil => exact .pure []
  | cons i is ih =>
    rw [List.map_cons, List.mapM_cons, List.mapM_cons]
    refine .bind (h i (.head _)) fun a => ?_
    exact .bind (ih fun j hj => h j (.tail _ hj)) fun as => .pure (a :: as)

theorem foldlM {e : ι → κ} {k : α → ι → Eval σ α} {k' : β → κ → Eval σ β} {is : List ι}
    (h : ∀ a, ∀ i ∈ is, Mirrors ρ R f (k a i) (k' (f a) (e i))) (a : α) :
    Mirrors ρ R f (is.foldlM k a) ((is.map e).foldlM k' (f a)) := by
  induction is generalizing a with
  | nil => exact .pure a
  | cons i is ih =>
    rw [List.map_cons, List.foldlM_cons, List.foldlM_cons]
    exact .bind (h a i (.head _)) fun b => ih (fun c j hj => h c j (.tail _ hj)) b

theorem forM {e : ι → κ} {k : ι → Eval σ PUnit} {k' : κ → Eval σ PUnit} {is : List ι}
    (h : ∀ i ∈ is, Mirrors ρ R id (k i) (k' (e i))) :
    Mirrors ρ R id (is.forM k) ((is.map e).forM k') := by
  induction is with
  | nil => exact .pure PUnit.unit
  | cons i is ih => exact .bind (h i (.head _)) fun _ => ih fun j hj => h j (.tail _ hj)

end Eval.Mirrors

/-! Streams -/

section

variable {σ : Type}

section

variable (ρ : Identity → Identity)

def SourceCursor.rename : SourceCursor → SourceCursor
  | items rest => items (rest.map (Value.rename ρ))
  | range next stop step => range next stop step
  | generate index count generator => generate index count (generator.rename ρ)
  | done => done

mutual

def StageCursor.rename : StageCursor → StageCursor
  | .map f => .map (f.rename ρ)
  | .filter f => .filter (f.rename ρ)
  | .flatMap f inner terminal => .flatMap (f.rename ρ) (InnerCursor.renameOption inner) terminal
  | .take n => .take n
  | .skip n => .skip n

def InnerCursor.renameOption : Option InnerCursor → Option InnerCursor
  | none => none
  | some inner => some (InnerCursor.rename inner)

def InnerCursor.rename : InnerCursor → InnerCursor
  | .items rest => .items (rest.map (Value.rename ρ))
  | .stream c => .stream (Cursor.rename c)

def StageCursor.renameAll : List StageCursor → List StageCursor
  | [] => []
  | stage :: rest => StageCursor.rename stage :: StageCursor.renameAll rest

def Cursor.rename : Cursor → Cursor
  | ⟨source, stages⟩ => ⟨source.rename ρ, StageCursor.renameAll stages⟩

end

end

variable {ρ : Identity → Identity}

theorem StageCursor.renameAll_eq (stages : List StageCursor) :
    renameAll ρ stages = stages.map (rename ρ) := by
  induction stages with
  | nil => rfl
  | cons stage rest ih => rw [renameAll, ih, List.map_cons]

theorem Stage.isTake_rename (stage : Stage) : (stage.rename ρ).isTake = stage.isTake := by
  cases stage <;> rfl

theorem Stage.any_isTake_rename (stages : List Stage) :
    (stages.map (Stage.rename ρ)).any Stage.isTake = stages.any Stage.isTake := by
  rw [List.any_map]
  exact congrArg (List.any stages) (funext Stage.isTake_rename)

theorem StageCursor.ofStages_rename (terminal : Option String) (stages : List Stage) :
    ofStages terminal (stages.map (Stage.rename ρ)) = (ofStages terminal stages).map (rename ρ) := by
  have hstage (terminal : Option String) (stage : Stage) :
      ofStage terminal (stage.rename ρ) = (ofStage terminal stage).rename ρ := by cases stage <;> rfl
  induction stages with
  | nil => rfl
  | cons stage later ih =>
    rw [List.map_cons, ofStages, ofStages, ih, hstage, Stage.any_isTake_rename, List.map_cons]

namespace Pipeline

variable (p : Pipeline)

theorem cursor_rename (terminal : Option String) :
    (p.rename ρ).cursor terminal = (p.cursor terminal).rename ρ := by
  have hsource : SourceCursor.ofSource (p.source.rename ρ) = (SourceCursor.ofSource p.source).rename ρ := by
    cases p.source with
    | list items => rw [Source.rename_list]; rfl
    | _ => rfl
  rw [cursor, cursor, source_rename, stages_rename, StageCursor.ofStages_rename, hsource,
    ← List.map_reverse, Cursor.rename, StageCursor.renameAll_eq]

theorem isBounded_rename : (p.rename ρ).isBounded = p.isBounded := by
  rw [isBounded, isBounded, source_rename, stages_rename, Stage.any_isTake_rename]
  cases p.source <;> rfl

theorem boundedCursor_rename (terminal : String) :
    (p.rename ρ).boundedCursor terminal = Except.rename ρ (Cursor.rename ρ) (p.boundedCursor terminal) := by
  rw [boundedCursor, boundedCursor, isBounded_rename, cursor_rename]
  split <;> rfl

end Pipeline

theorem InnerCursor.ofValue_rename (terminal : Option String) (v : Value) :
    ofValue terminal (v.rename ρ) = Except.rename ρ (rename ρ) (ofValue terminal v) := by
  cases v with
  | list items => rw [Value.rename_list]; rfl
  | set items => rw [Value.rename_set]; rfl
  | stream id p =>
    rw [Value.rename_stream]
    cases terminal with
    | none => exact congrArg (fun c => Except.ok (InnerCursor.stream c)) (p.cursor_rename none)
    | some t =>
      rw [ofValue, ofValue, p.boundedCursor_rename]
      cases p.boundedCursor t <;> rfl
  | _ => rfl

/-- What a pull gave, with other identities. -/
def renamePulled (ρ : Identity → Identity) {κ : Type} (rest : κ → κ) (pulled : Option Value × κ) :
    Option Value × κ :=
  (pulled.1.map (Value.rename ρ), rest pulled.2)

/-- Calls of functions with other identities do what the calls of the functions do. -/
def Host.Mirrors (ρ : Identity → Identity) (R : σ → σ → Prop) (host : Host σ) : Prop :=
  ∀ f args, Eval.Mirrors ρ R (Value.rename ρ) (host f args)
    (host (f.rename ρ) (args.map (Value.rename ρ)))

variable {R : σ → σ → Prop} {host : Host σ}

theorem SourceCursor.next_mirrors (hhost : host.Mirrors ρ R) (source : SourceCursor) :
    Eval.Mirrors ρ R (renamePulled ρ (rename ρ)) (source.next host) ((source.rename ρ).next host) := by
  cases source with
  | items rest => cases rest <;> exact .pure _
  | range next stop step =>
    rw [rename, SourceCursor.next]
    split <;> split <;> exact .pure _
  | generate index count generator =>
    rw [rename, SourceCursor.next, SourceCursor.next]
    split
    · exact .pure (none, _)
    · exact .bind (hhost generator [.int index]) fun v => .pure (some v, _)
  | done => exact .pure _

namespace Cursor

theorem pull_mirrors (hhost : host.Mirrors ρ R) (fuel : Nat) (c : Cursor) :
    Eval.Mirrors ρ R (renamePulled ρ (rename ρ)) (c.pull host fuel) ((c.rename ρ).pull host fuel) := by
  induction fuel generalizing c with
  | zero => exact .throw .exhausted
  | succ fuel ih =>
    obtain ⟨source, stages⟩ := c
    cases stages with
    | nil =>
      exact .bind (source.next_mirrors hhost) fun pulled => .pure (pulled.1, Cursor.mk pulled.2 [])
    | cons stage before =>
      have hbefore := ih ⟨source, before⟩
      -- an element, if there is one, and the rest of the traversal with one stage more
      have hgiven (v? : Option Value) (source' : SourceCursor) (rest : List StageCursor)
          (stage : StageCursor) : Eval.Mirrors ρ R (renamePulled ρ (rename ρ))
            (pure (v?, ⟨source', stage :: rest⟩)) (pure (v?.map (Value.rename ρ),
              Cursor.mk (source'.rename ρ) (stage.rename ρ :: StageCursor.renameAll ρ rest))) := .pure _
      cases stage with
      | map f =>
        refine .bind hbefore fun pulled => ?_
        obtain ⟨v?, source', rest⟩ := pulled
        cases v? with
        | none => exact hgiven none source' rest (.map f)
        | some v => exact .bind (hhost f [v]) fun w => hgiven (some w) source' rest (.map f)
      | filter f =>
        refine .bind hbefore fun pulled => ?_
        obtain ⟨v?, source', rest⟩ := pulled
        cases v? with
        | none => exact hgiven none source' rest (.filter f)
        | some v =>
          refine .bind (hhost f [v]) fun verdict => ?_
          cases verdict with
          | bool b => cases b with
            | true => exact hgiven (some v) source' rest (.filter f)
            | false => exact ih ⟨source', .filter f :: rest⟩
          | _ => exact .fail _
      | take n => cases n with
        | zero => exact hgiven none source before (.take 0)
        | succ n =>
          refine .bind hbefore fun pulled => ?_
          obtain ⟨v?, source', rest⟩ := pulled
          exact hgiven v? source' rest (.take n)
      | skip n => cases n with
        | zero =>
          refine .bind hbefore fun pulled => ?_
          obtain ⟨v?, source', rest⟩ := pulled
          exact hgiven v? source' rest (.skip 0)
        | succ n =>
          refine .bind hbefore fun pulled => ?_
          obtain ⟨v?, source', rest⟩ := pulled
          cases v? with
          | none => exact hgiven none source' rest (.skip 0)
          | some v => exact ih ⟨source', .skip n :: rest⟩
      | flatMap f inner t => cases inner with
        | none =>
          refine .bind hbefore fun pulled => ?_
          obtain ⟨v?, source', rest⟩ := pulled
          cases v? with
          | none => exact hgiven none source' rest (.flatMap f none t)
          | some v =>
            refine .bind (hhost f [v]) fun w => ?_
            refine .bind (.ofExcept (InnerCursor.ofValue_rename t w)) fun inner => ?_
            exact ih ⟨source', .flatMap f (some inner) t :: rest⟩
        | some inner => cases inner with
          | items rest => cases rest with
            | nil => exact ih ⟨source, .flatMap f none t :: before⟩
            | cons v rest => exact hgiven (some v) source before (.flatMap f (some (.items rest)) t)
          | stream d =>
            refine .bind (ih d) fun pulled => ?_
            obtain ⟨v?, d⟩ := pulled
            cases v? with
            | none => exact ih ⟨source, .flatMap f none t :: before⟩
            | some v => exact hgiven (some v) source before (.flatMap f (some (.stream d)) t)

theorem fold_mirrors {β : Type} {g : β → β} (hhost : host.Mirrors ρ R) {step step' : β → Value → Eval σ β}
    (hstep : ∀ acc v, Eval.Mirrors ρ R g (step acc v) (step' (g acc) (v.rename ρ))) (fuel : Nat)
    (c : Cursor) (acc : β) :
    Eval.Mirrors ρ R g (c.fold host step fuel acc) ((c.rename ρ).fold host step' fuel (g acc)) := by
  induction fuel generalizing c acc with
  | zero => exact .throw .exhausted
  | succ fuel ih =>
    refine .bind (pull_mirrors hhost fuel c) fun pulled => ?_
    obtain ⟨v?, d⟩ := pulled
    cases v? with
    | none => exact .pure acc
    | some v => exact .bind (hstep acc v) fun acc => ih d acc

end Cursor

theorem Pipeline.drain_mirrors (hhost : host.Mirrors ρ R) (fuel : Nat) (terminal : String) (p : Pipeline) :
    Eval.Mirrors ρ R (List.map (Value.rename ρ)) (p.drain host fuel terminal)
      ((p.rename ρ).drain host fuel terminal) := by
  refine .bind (.ofExcept (p.boundedCursor_rename terminal)) fun c => ?_
  refine .bind (c.fold_mirrors (g := List.map (Value.rename ρ)) hhost
    (fun vs v => .pure (v :: vs)) fuel []) fun reversed => ?_
  exact .pure_of_eq List.map_reverse.symm

end

/-! Changes of a state -/

/-- The second state is the first one with other identities, and what is given out next is still to come. -/
def Renaming.Twins {γ : Type} (ρ : Renaming) (s t : Interpreter γ) : Prop :=
  ρ.Coming s.nextIdentity ∧ s.Renamed ρ.map t

variable {γ α β : Type} (ρ : Renaming)

namespace Run

/-- The second computation does what the first does, with other identities. -/
abbrev Mirrors (f : α → β) (x : Run γ α) (y : Run γ β) : Prop := Eval.Mirrors ρ.map ρ.Twins f x y

theorem freshIdentity_mirrors : Mirrors ρ ρ.map (freshIdentity : Run γ Identity) freshIdentity := by
  refine .modifyGet fun s t hs => ?_
  obtain ⟨hcoming, ⟨hscheduler, hmemo⟩⟩ := hs
  refine ⟨rfl, ρ.coming_next hcoming, ?_⟩
  dsimp only
  rw [← ρ.map_next hcoming]
  exact .mk hscheduler hmemo

theorem newFunction_mirrors (c : Callable) :
    Mirrors ρ (Value.rename ρ.map) (newFunction c : Run γ Value) (newFunction (c.rename ρ.map)) :=
  .bind (freshIdentity_mirrors ρ) fun _ => .pure _

theorem newStream_mirrors (p : Pipeline) :
    Mirrors ρ (Value.rename ρ.map) (newStream p : Run γ Value) (newStream (p.rename ρ.map)) :=
  .bind (freshIdentity_mirrors ρ) fun _ => .pure _

/-- A change that goes along with the other identities. -/
theorem modify_mirrors {k : Interpreter γ → Interpreter γ}
    (hnext : ∀ s, (k s).nextIdentity = s.nextIdentity)
    (hk : ∀ s t, s.Renamed ρ.map t → (k s).Renamed ρ.map (k t)) :
    Mirrors ρ id (modify k : Run γ PUnit) (modify k) := by
  refine .modify fun s t hs => ⟨?_, hk s t hs.2⟩
  rw [hnext]
  exact hs.1

theorem setLine_mirrors (line : Nat) :
    Mirrors ρ id (modify fun s => { s with line } : Run γ PUnit) (modify fun s => { s with line }) :=
  modify_mirrors ρ (fun _ => rfl) fun _ _ ⟨hscheduler, hmemo⟩ => .mk hscheduler hmemo

theorem writeLog_mirrors (line : String) : Mirrors ρ id (writeLog line : Run γ Unit) (writeLog line) :=
  modify_mirrors ρ (fun _ => rfl) fun _ _ ⟨hscheduler, hmemo⟩ => .mk hscheduler hmemo

theorem countEvaluation_mirrors (name : String) :
    Mirrors ρ id (countEvaluation name : Run γ Unit) (countEvaluation name) :=
  modify_mirrors ρ (fun _ => rfl) fun _ _ ⟨hscheduler, hmemo⟩ => .mk hscheduler hmemo

theorem lookup_mirrors (name : String) (env : Env) :
    Mirrors ρ (Value.rename ρ.map) (lookup name env : Run γ Value) (lookup name (env.rename ρ.map)) := by
  unfold lookup
  rw [env.lookup?_rename]
  cases env.lookup? name with
  | some v => exact .pure v
  | none =>
    refine .get_bind fun s t ⟨_, hs⟩ => ?_
    have hglobal := hs.global? s.current name
    obtain ⟨-, -⟩ := hs
    dsimp only [Option.map_none] at hglobal ⊢
    rw [hglobal]
    cases s.global? s.current name with
    | some v => exact .pure v
    | none =>
      dsimp only [Option.map_none]
      split
      · exact newFunction_mirrors ρ _
      · split
        · exact .pure (Value.option none)
        · exact .fail _

/-! Futures and tasks -/

theorem withScheduler_mirrors {f : α → β} {k : Scheduler TaskBody → α × Scheduler TaskBody}
    {k' : Scheduler TaskBody → β × Scheduler TaskBody}
    (h : ∀ s t : Scheduler TaskBody, s.Renamed ρ.map t →
      (k' t).1 = f (k s).1 ∧ (k s).2.Renamed ρ.map (k' t).2) :
    Mirrors ρ f (withScheduler k : Run γ α) (withScheduler k') := by
  refine .modifyGet fun s t ⟨hcoming, hs⟩ => ?_
  obtain ⟨hscheduler, hmemo⟩ := hs
  obtain ⟨hvalue, hrest⟩ := h _ _ hscheduler
  exact ⟨hvalue, hcoming, .mk hrest hmemo⟩

theorem spawn_mirrors (body : Expr) (env : Env) :
    Mirrors ρ id (spawn body env : Run γ FutureId) (spawn body (env.rename ρ.map)) := by
  refine .get_bind fun s t ⟨_, hs⟩ => ?_
  obtain ⟨-, -⟩ := hs
  exact withScheduler_mirrors ρ fun _ _ h => h.spawn (.machine (.start body env s.current false))

theorem spawnCombinator_mirrors (c : Combinator) :
    Mirrors ρ id (spawnCombinator c : Run γ FutureId) (spawnCombinator (c.rename ρ.map)) :=
  withScheduler_mirrors ρ fun _ _ h => h.spawn (.combinator c)

theorem futureState?_mirrors (id : FutureId) : Mirrors ρ (Option.map (FutureState.rename ρ.map))
    (futureState? id : Run γ (Option FutureState)) (futureState? id) := by
  refine .get_bind fun s t ⟨_, hs⟩ => ?_
  obtain ⟨hscheduler, -⟩ := hs
  dsimp only
  rw [hscheduler.futures, FutureTable.state?_rename]
  exact .pure _

theorem markObserved_mirrors (future : FutureId) :
    Mirrors ρ id (markObserved future : Run γ Unit) (markObserved future) :=
  withScheduler_mirrors ρ fun _ _ h => ⟨rfl, h.markObserved future⟩

theorem observe_mirrors (id : FutureId) : Mirrors ρ (Option.map (FutureState.rename ρ.map))
    (observe id : Run γ (Option FutureState)) (observe id) :=
  .bind (markObserved_mirrors ρ id) fun _ => futureState?_mirrors ρ id

theorem settledFuture_mirrors (state : FutureState) : Mirrors ρ (Value.rename ρ.map)
    (settledFuture state : Run γ Value) (settledFuture (state.rename ρ.map)) := by
  refine .bind (f := id) (withScheduler_mirrors ρ fun _ _ h => ?_) fun future => ?_
  · exact ⟨h.createFuture.1.symm, h.createFuture.2⟩
  · refine .bind (f := id) (withScheduler_mirrors ρ fun _ _ h => ⟨rfl, h.settle future state⟩) ?_
    exact fun _ => .pure (Value.future future)

theorem destructure_mirrors (pattern : Pattern) (v : Value) :
    Mirrors ρ (List.map (Value.renameEntry ρ.map)) (destructure pattern v : Run γ _)
      (destructure pattern (v.rename ρ.map)) := by
  refine .get_bind fun s t ⟨_, hs⟩ => ?_
  obtain ⟨hscheduler, -⟩ := hs
  dsimp only
  rw [hscheduler.futures, pattern.bindings?_rename ρ.injective]
  cases pattern.bindings? s.scheduler.futures v with
  | none => exact .fail (.patternMismatch v)
  | some bindings => exact .pure bindings

theorem dispatch_mirrors [Gateway γ] (op : ServiceOp) (args : List Json) :
    Mirrors ρ id (dispatch op args : Run γ FutureId) (dispatch op args) := by
  refine .bind (f := id) (.modifyGet fun s t ⟨hcoming, hs⟩ => ?_) fun request => ?_
  · obtain ⟨hscheduler, hmemo⟩ := hs
    exact ⟨rfl, hcoming, .mk hscheduler hmemo⟩
  refine .bind (f := id) (.modifyGet fun s t ⟨hcoming, hs⟩ => ?_) fun reply => ?_
  · obtain ⟨hscheduler, hmemo⟩ := hs
    exact ⟨rfl, hcoming, .mk hscheduler hmemo⟩
  cases reply with
  | error message => exact .fail _
  | ok answer =>
    refine .bind (f := id) (withScheduler_mirrors ρ fun _ _ h => ?_) fun future => ?_
    · exact ⟨h.createFuture.1.symm, h.createFuture.2⟩
    refine .bind (f := id) (modify_mirrors ρ (fun _ => rfl) ?_) fun _ => .pure future
    exact fun _ _ ⟨hscheduler, hmemo⟩ => .mk hscheduler hmemo

/-! Calls -/

theorem inModule_mirrors {f : α → β} {x : Run γ α} {y : Run γ β} (h : Mirrors ρ f x y) (module : Nat) :
    Mirrors ρ f (inModule module x) (inModule module y) := by
  intro s t ⟨hcoming, hs⟩
  have henter : ρ.Twins { s with current := module } { t with current := module } := by
    obtain ⟨hscheduler, hmemo⟩ := hs
    exact ⟨hcoming, .mk hscheduler hmemo⟩
  have hcurrent : t.current = s.current := by
    obtain ⟨-, -⟩ := hs
    rfl
  refine Eval.Mirrors.restoring h (fun s' t' ⟨hcoming', hs'⟩ => ?_) henter
  rw [hcurrent]
  obtain ⟨hscheduler, hmemo⟩ := hs'
  exact ⟨hcoming', .mk hscheduler hmemo⟩

theorem deeper_mirrors {f : α → β} {x : Run γ α} {y : Run γ β} (h : Mirrors ρ f x y) :
    Mirrors ρ f (deeper x) (deeper y) := by
  intro s t ⟨hcoming, hs⟩
  have henter : ρ.Twins { s with depth := s.depth + 1 } { t with depth := t.depth + 1 } := by
    obtain ⟨hscheduler, hmemo⟩ := hs
    exact ⟨hcoming, .mk hscheduler hmemo⟩
  refine Eval.Mirrors.restoring h (fun s' t' ⟨hcoming', hs'⟩ => ?_) henter
  obtain ⟨hscheduler, hmemo⟩ := hs'
  exact ⟨hcoming', .mk hscheduler hmemo⟩

/-- What is made inside a call is numbered alike, and so is what comes after it. -/
theorem numbered_mirrors {f : α → β} {x : Run γ α} {y : Run γ β} (h : Mirrors ρ f x y) :
    Mirrors ρ f (numbered x) (numbered y) := by
  intro s t ⟨hcoming, hs⟩
  have henter : ρ.Twins { s with nextIdentity := s.nextIdentity.inner }
      { t with nextIdentity := t.nextIdentity.inner } := by
    obtain ⟨hscheduler, hmemo⟩ := hs
    refine ⟨ρ.coming_inner hcoming, ?_⟩
    dsimp only
    rw [← ρ.map_inner hcoming]
    exact .mk hscheduler hmemo
  have hnext : t.nextIdentity.next = ρ.map s.nextIdentity.next := by
    obtain ⟨-, -⟩ := hs
    exact (ρ.map_next hcoming).symm
  refine Eval.Mirrors.restoring h (fun s' t' ⟨_, hs'⟩ => ?_) henter
  rw [hnext]
  obtain ⟨hscheduler, hmemo⟩ := hs'
  exact ⟨ρ.coming_next hcoming, .mk hscheduler hmemo⟩

theorem memoKey?_mirrors (decl : FunctionDecl) (module : Nat) (args : List Value) :
    Mirrors ρ id (memoKey? decl module args : Run γ _)
      (memoKey? decl module (args.map (Value.rename ρ.map))) := by
  have hkey (id : FunctionId) :
      MemoKey.ofCall? id (args.map (Value.rename ρ.map)) = MemoKey.ofCall? id args := by
    rw [MemoKey.ofCall?, MemoKey.ofCall?, ← Value.renameAll_eq, Value.codes?_renameAll,
      Value.length_renameAll]
  unfold memoKey?
  cases decl.name with
  | none => exact .pure none
  | some name =>
    refine .get_bind fun s t ⟨_, hs⟩ => ?_
    have hname := hs.moduleName module
    obtain ⟨-, -⟩ := hs
    dsimp only at hname ⊢
    rw [hname, hkey]
    exact .pure _

theorem remembered?_mirrors (key : MemoKey FunctionId) :
    Mirrors ρ (Option.map (Value.rename ρ.map)) (remembered? key : Run γ (Option Value))
      (remembered? key) := by
  refine .modifyGet fun s t ⟨hcoming, hs⟩ => ?_
  obtain ⟨hscheduler, hmemo⟩ := hs
  obtain ⟨hfound, hrest⟩ := hmemo.find key
  exact ⟨hfound, hcoming, .mk hscheduler hrest⟩

theorem remember_mirrors (key : MemoKey FunctionId) (v : Value) :
    Mirrors ρ id (remember key v : Run γ Unit) (remember key (v.rename ρ.map)) := by
  refine .modify fun s t ⟨hcoming, hs⟩ => ?_
  obtain ⟨hscheduler, hmemo⟩ := hs
  exact ⟨hcoming, .mk hscheduler (hmemo.insert key v)⟩

end Run

end StreamLang
