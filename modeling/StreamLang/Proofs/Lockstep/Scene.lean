import StreamLang.Proofs.Lockstep.Pairing

/-! Evaluation keeps step in one place. What an expression does to a state is made of a few single
changes and of the calls that it makes. When these keep step in two runs, so does the evaluation, of
all code that may be evaluated there. -/

namespace StreamLang

/-- Two runs in one place: the terms on which they keep step, the states that belong together, and
the code that may be evaluated, in the scope of the names bound around it. -/
structure Scene (γ : Type) where
  terms : Terms
  state : Interpreter γ → Interpreter γ → Prop
  code : List String → Expr → Prop
  /-- Futures, tasks and services may be used. -/
  effects : Prop

variable {γ : Type}

namespace Scene

variable {α : Type}

abbrev Agree (S : Scene γ) (P : α → Prop) (x y : Run γ α) : Prop :=
  Eval.Agree S.terms S.state P x y

/-- The computation keeps step with itself. -/
abbrev Steady (S : Scene γ) (P : α → Prop) (x : Run γ α) : Prop := S.Agree P x x

abbrev Permits (S : Scene γ) (v : Value) : Prop := v.Permitted S.terms.permit

abbrev PermitsAll (S : Scene γ) (vs : List Value) : Prop := AllPermitted S.terms.permit vs

/-- What code is made of may be evaluated where the code may. -/
structure Composed (S : Scene γ) : Prop where
  future : S.effects → S.terms.permit.future
  builtin : ∀ {b : Builtin}, S.terms.permit.builtin b →
    Purity.isHarmless b.effect = true ∨ S.effects
  operands : ∀ {bound e}, S.code bound e → ∀ part ∈ e.operands, S.code bound part
  methodName : ∀ {bound span receiver name args},
    S.code bound (.method span receiver name args) → S.code bound (.name span name)
  branch : ∀ {bound span test whenTrue whenFalse},
    S.code bound (.branch span test whenTrue whenFalse) →
      S.code bound test ∧ S.code bound whenTrue ∧ ∀ e, whenFalse = some e → S.code bound e
  cases : ∀ {bound span scrutinee arms}, S.code bound (.cases span scrutinee arms) →
    S.code bound scrutinee ∧ ∀ arm ∈ arms,
      (∀ e, arm.guard = some e → S.code (arm.pattern.names ++ bound) e) ∧
        S.code (arm.pattern.names ++ bound) arm.body
  block : ∀ {bound span stmts tail}, S.code bound (.block span stmts tail) →
    BlockHolds S.code tail bound stmts
  attempt : ∀ {bound span inner}, S.code bound (.attempt span inner) → S.code bound inner
  async : ∀ {bound span body}, S.code bound (.async span body) → S.effects
  await : ∀ {bound span future}, S.code bound (.await span future) →
    S.effects ∧ S.code bound future

/-- The single changes that the evaluator makes to a state keep step. -/
structure Lawful [Gateway γ] (S : Scene γ) : Prop extends S.Composed where
  line : ∀ {s t}, S.state s t → S.terms.SameLine s.line t.line
  schemas : ∀ {s t}, S.state s t → t.schemas = s.schemas
  predicate : ∀ {s t name schema p}, S.state s t → s.schemas.typeAlias? name = some schema →
    schema.predicate = some p → S.code ["value"] p
  futures : ∀ {s t}, S.state s t → S.terms.SameFutures s.scheduler.futures t.scheduler.futures
  lookup : ∀ {span name} {env : Env}, S.code env.names (.name span name) →
    S.PermitsAll env.values → S.Steady S.Permits (Run.lookup name env)
  setLine : ∀ line, S.Steady (fun _ => True) (modify fun s => { s with line } : Run γ PUnit)
  newFunction : ∀ {c : Callable}, c.Admitted S.terms.permit → S.PermitsAll c.values →
    S.Steady S.Permits (Run.newFunction c)
  newStream : ∀ {p : Pipeline}, S.PermitsAll p.values → S.Steady S.Permits (Run.newStream p)
  /-- A function that the code makes belongs to the module that is being run. -/
  closure : ∀ {span decl} {env : Env}, S.code env.names (.closure span decl) →
    S.PermitsAll env.values → S.Steady S.Permits
      (do Run.newFunction (.closure decl env (← get).current))
  /-- So does a task that it starts. -/
  spawn : ∀ {span body} {env : Env}, S.code env.names (.async span body) →
    S.PermitsAll env.values → S.Steady (fun _ => True) (Run.spawn body env)
  writeLog : ∀ line, S.Steady (fun _ => True) (Run.writeLog line)
  markObserved : S.terms.permit.future → ∀ id, S.Steady (fun _ => True) (Run.markObserved id)
  settledFuture : S.effects → ∀ {state state'}, S.terms.SameState state state' →
    state.isPending = false →
    S.Agree S.Permits (Run.settledFuture state) (Run.settledFuture state')
  spawnCombinator : S.effects → ∀ {c}, c.Permitted S.terms.permit →
    S.Steady (fun _ => True) (Run.spawnCombinator c)
  dispatch : S.effects → ∀ op args, S.Steady (fun _ => True) (Run.dispatch op args)

namespace Lawful

variable [Gateway γ] {S : Scene γ} (hS : S.Lawful)
include hS

theorem destructure (pattern : Pattern) {v : Value} (hv : S.Permits v) :
    S.Steady (fun bindings =>
        bindings.map (·.1) = pattern.names ∧ EntriesPermitted S.terms.permit bindings)
      (Run.destructure pattern v) := by
  refine .get_bind fun s t hs => ?_
  have h := pattern.bindings?_same (hS.futures hs) v hv
  rw [h.same]
  cases hb : pattern.bindings? s.scheduler.futures v with
  | none => exact .fail _
  | some bindings => exact .pure ⟨h.names _ hb, h.permitted _ hb⟩

/-- The state of a future that is looked at. -/
theorem observe (hfuture : S.terms.permit.future) (id : FutureId) :
    Eval.Lockstep S.terms S.state (Option.Rel S.terms.SameState) (Run.observe (γ := γ) id)
      (Run.observe id) := by
  refine .bind (hS.markObserved hfuture id) fun _ _ _ => .get_bind fun s t hs => ?_
  exact .pure (hS.futures hs hfuture id)

end Lawful

end Scene

/-- In the scene, evaluation and calls of one step less keep step. -/
structure Recur.InStep (S : Scene γ) (r r' : Recur γ) : Prop where
  bounds : S.terms.Bounds r.fuel r'.fuel
  eval : ∀ {e} {env : Env}, S.code env.names e → S.PermitsAll env.values →
    S.Agree S.Permits (r.eval e env) (r'.eval e env)
  call : r.call.Lockstep S.terms S.state r'.call

variable [Gateway γ]

namespace Run

variable {T : Terms} {R : Interpreter γ → Interpreter γ → Prop}

omit [Gateway γ] in
theorem truth_agree (what : Condition) (v : Value) :
    Eval.Agree T R (fun _ => True) (Run.truth (γ := γ) what v) (Run.truth what v) := by
  cases v with
  | bool b => exact .pure trivial
  | _ => exact .fail _

omit [Gateway γ] in
theorem attempt_agree {v : Value} (hv : v.Permitted T.permit) (line : Nat) :
    Eval.Agree T R (Value.Permitted T.permit) (Run.attempt (γ := γ) v line)
      (Run.attempt v line) := by
  cases v with
  | ok inner => exact .pure (Value.permitted_ok.1 hv)
  | option inner => cases inner with
    | some inner => exact .pure (Value.permitted_option.1 hv inner rfl)
    | none => exact .throw (.early hv (.refl line))
  | err error => exact .throw (.early hv (.refl line))
  | _ => exact .fail _

end Run

namespace Recur.InStep

variable {S : Scene γ} {r r' : Recur γ}

-- refinements

theorem checkPredicate (hS : S.Lawful) (h : r.InStep S r') (name : String) {v : Value}
    (hv : S.Permits v) {line line' : Nat} (hline : S.terms.SameLine line line') :
    S.Agree (fun _ => True) (r.checkPredicate name v line) (r'.checkPredicate name v line') := by
  refine .get_bind fun s t hs => ?_
  dsimp only
  rw [hS.schemas hs]
  cases hp : (s.schemas.typeAlias? name).bind AliasSchema.predicate with
  | none => exact .pure trivial
  | some predicate =>
    obtain ⟨a, ha, hpredicate⟩ := Option.bind_eq_some_iff.1 hp
    have hcode : S.code (Env.empty.bind "value" v).names predicate :=
      hS.predicate hs ha hpredicate
    have hbound : S.PermitsAll (Env.empty.bind "value" v).values :=
      .cons hv (List.forall_mem_nil _)
    refine .bind (.located (h.eval hcode hbound) hline) fun w _ => ?_
    cases w with
    | bool b => cases b with
      | true => exact .pure trivial
      | false => exact .failAt _ hline
    | _ => exact .failAt _ hline

mutual

theorem checkRefinements (hS : S.Lawful) (h : r.InStep S r') {line line' : Nat}
    (hline : S.terms.SameLine line line') (ty : Ty) (v : Value) (hv : S.Permits v) :
    S.Agree (fun _ => True) (r.checkRefinements line ty v) (r'.checkRefinements line' ty v) := by
  cases ty with
  | refined name base =>
    rw [Recur.checkRefinements, Recur.checkRefinements]
    exact .bind (h.checkPredicate hS name hv hline) fun _ _ =>
      h.checkRefinements hS hline base v hv
  | list elem =>
    cases v with
    | list items =>
      exact .forM fun w hw => h.checkRefinements hS hline elem w (Value.permitted_list.1 hv w hw)
    | set items =>
      exact .forM fun w hw => h.checkRefinements hS hline elem w (Value.permitted_set.1 hv w hw)
    | _ => exact .pure trivial
  | set elem =>
    cases v with
    | list items =>
      exact .forM fun w hw => h.checkRefinements hS hline elem w (Value.permitted_list.1 hv w hw)
    | set items =>
      exact .forM fun w hw => h.checkRefinements hS hline elem w (Value.permitted_set.1 hv w hw)
    | _ => exact .pure trivial
  | option inner =>
    cases v with
    | option w => cases w with
      | none => exact .pure trivial
      | some w => exact h.checkRefinements hS hline inner w (Value.permitted_option.1 hv w rfl)
    | _ => exact .pure trivial
  | tuple tys =>
    cases v with
    | tuple items => exact h.checkItems hS hline tys items (Value.permitted_tuple.1 hv)
    | _ => exact .pure trivial
  | _ => exact .pure trivial
termination_by structural ty

theorem checkItems (hS : S.Lawful) (h : r.InStep S r') {line line' : Nat}
    (hline : S.terms.SameLine line line') (tys : List Ty) (vs : List Value)
    (hvs : ∀ v ∈ vs, S.Permits v) :
    S.Agree (fun _ => True) (r.checkItems line tys vs) (r'.checkItems line' tys vs) := by
  cases tys with
  | nil => exact .pure trivial
  | cons ty tys => cases vs with
    | nil => exact .pure trivial
    | cons v vs =>
      obtain ⟨hv, hrest⟩ := List.forall_mem_cons.1 hvs
      rw [Recur.checkItems, Recur.checkItems]
      exact .bind (h.checkRefinements hS hline ty v hv) fun _ _ =>
        h.checkItems hS hline tys vs hrest
termination_by structural tys

end

variable (hS : S.Lawful) (h : r.InStep S r')
include hS h

theorem checkOptional (ty : Option TypeExpr) {v : Value} (hv : S.Permits v) {line line' : Nat}
    (hline : S.terms.SameLine line line') :
    S.Agree (fun _ => True) (r.checkOptional ty v line) (r'.checkOptional ty v line') := by
  cases ty with
  | none => exact .pure trivial
  | some ty =>
    refine .get_bind fun s t hs => ?_
    rw [hS.schemas hs]
    cases s.schemas.resolve ty with
    | error fault => exact .failAt _ hline
    | ok ty => exact h.checkRefinements hS hline ty v hv

-- records

theorem declaredFields (name : String) {given : List (FieldInit × Value)}
    (hgiven : ∀ g ∈ given, S.Permits g.2) (fields : List (String × Ty)) :
    S.Agree (EntriesPermitted S.terms.permit) (r.declaredFields name given fields)
      (r'.declaredFields name given fields) := by
  induction fields with
  | nil => exact .pure (List.forall_mem_nil _)
  | cons field rest ih =>
    rw [Recur.declaredFields, Recur.declaredFields]
    cases hg : given.find? (·.1.name == field.1) with
    | none => exact .fail _
    | some g =>
      have hpermitted := hgiven g (List.mem_of_find?_eq_some hg)
      refine .bind (h.checkRefinements hS (.refl _) _ _ hpermitted) fun _ _ => ?_
      exact .bind ih fun fields hfields => .pure (List.forall_mem_cons.2 ⟨hpermitted, hfields⟩)

theorem buildRecord (name : String) {given : List (FieldInit × Value)}
    (hgiven : ∀ g ∈ given, S.Permits g.2) :
    S.Agree S.Permits (r.buildRecord name given) (r'.buildRecord name given) := by
  refine .get_bind fun s t hs => ?_
  rw [hS.schemas hs]
  cases s.schemas.record? name with
  | none => exact .fail _
  | some schema =>
    refine .bind (h.declaredFields hS name hgiven schema.fields) fun fields hfields => ?_
    split
    · exact .fail _
    · exact .pure (Value.permitted_record.2 hfields)

theorem updateFields (name : String) {updates : List (FieldInit × Value)}
    (hupdates : ∀ u ∈ updates, S.Permits u.2) {fields : List (String × Value)}
    (hfields : EntriesPermitted S.terms.permit fields) :
    S.Agree (EntriesPermitted S.terms.permit) (r.updateFields name updates fields)
      (r'.updateFields name updates fields) := by
  induction updates generalizing fields with
  | nil => exact .pure hfields
  | cons u rest ih =>
    obtain ⟨hu, hrest⟩ := List.forall_mem_cons.1 hupdates
    have hset := setField_permitted u.1.name hu hfields
    rw [Recur.updateFields, Recur.updateFields]
    split
    · exact .fail _
    · refine .get_bind fun s t hs => ?_
      rw [hS.schemas hs]
      cases (s.schemas.record? name).bind (·.field? u.1.name) with
      | none => exact ih hrest hset
      | some ty =>
        exact .bind (h.checkRefinements hS (.refl _) ty _ hu) fun _ _ => ih hrest hset

theorem update {target : Value} (htarget : S.Permits target)
    {updates : List (FieldInit × Value)} (hupdates : ∀ u ∈ updates, S.Permits u.2) :
    S.Agree S.Permits (r.update target updates) (r'.update target updates) := by
  cases target with
  | record name fields =>
    refine .bind (h.updateFields hS name hupdates (Value.permitted_record.1 htarget)) ?_
    exact fun fields hfields => .pure (Value.permitted_record.2 hfields)
  | map entries =>
    have hentries := foldl_insert_permitted hupdates (Value.permitted_map.1 htarget)
    exact .pure (Value.permitted_map.2 hentries)
  | _ => exact .fail _

-- sequences

omit hS

omit [Gateway γ] in
theorem passes {f v : Value} (hf : S.Permits f) (hv : S.Permits v) :
    S.Agree (fun _ => True) (r.passes f v) (r'.passes f v) := by
  refine .bind (h.call f [v] hf (List.forall_mem_singleton.2 hv)) fun verdict _ => ?_
  cases verdict with
  | bool b => exact .pure trivial
  | _ => exact .fail _

omit [Gateway γ] in
theorem spread {f v : Value} (hf : S.Permits f) (hv : S.Permits v) :
    S.Agree S.PermitsAll (r.spread f v) (r'.spread f v) := by
  refine .bind (h.call f [v] hf (List.forall_mem_singleton.2 hv)) fun w hw => ?_
  cases w with
  | list items => exact .pure (Value.permitted_list.1 hw)
  | set items => exact .pure (Value.permitted_set.1 hw)
  | stream identity p => exact p.drain_lockstep h.call h.bounds _ (Value.permitted_stream.1 hw)
  | _ => exact .fail _

omit [Gateway γ] in
theorem foldStream {β : Type} {P : β → Prop} (terminal : String) {p : Pipeline}
    (hp : S.PermitsAll p.values) {step step' : β → Value → Run γ β}
    (hstep : ∀ acc v, P acc → S.Permits v → S.Agree P (step acc v) (step' acc v)) {start : β}
    (hstart : P start) :
    S.Agree P (r.foldStream terminal p step start) (r'.foldStream terminal p step' start) :=
  .bind (.ofExcept (p.boundedCursor_permitted hp terminal)) fun _ hc =>
    Cursor.fold_lockstep h.call hstep h.bounds hc hstart

omit [Gateway γ] in
theorem onItems (op : SequenceOp) {items args : List Value} (hitems : S.PermitsAll items)
    (hargs : S.PermitsAll args) :
    S.Agree S.Permits (r.onItems op items args) (r'.onItems op items args) := by
  unfold Recur.onItems
  split
  · have hf := hargs _ (.head _)
    refine .bind (.mapM fun v hv => h.call _ [v] hf (List.forall_mem_singleton.2 (hitems v hv))) ?_
    exact fun vs hvs => .pure (Value.permitted_list.2 hvs)
  · have hf := hargs _ (.head _)
    refine .bind (.foldlM (P := S.PermitsAll) (fun kept hkept v hv => ?_)
      (List.forall_mem_nil _)) ?_
    · refine .bind (h.passes hf (hitems v hv)) fun b _ => .pure ?_
      split
      · exact .cons (hitems v hv) hkept
      · exact hkept
    · exact fun kept hkept =>
        .pure (Value.permitted_list.2 fun v hv => hkept v (List.mem_reverse.1 hv))
  · have hf := hargs _ (.head _)
    refine .bind (.mapM fun v hv => h.spread hf (hitems v hv)) fun parts hparts => ?_
    refine .pure (Value.permitted_list.2 fun v hv => ?_)
    obtain ⟨part, hpart, hmem⟩ := List.mem_flatten.1 hv
    exact hparts part hpart v hmem
  · refine .bind (.ofExcept (.of_true _)) fun n _ => .pure (Value.permitted_list.2 fun v hv => ?_)
    exact hitems v (List.mem_of_mem_take hv)
  · refine .bind (.ofExcept (.of_true _)) fun n _ => .pure (Value.permitted_list.2 fun v hv => ?_)
    exact hitems v (List.mem_of_mem_drop hv)
  · have hf := hargs _ (.tail _ (.head _))
    refine .foldlM (fun acc hacc v hv => ?_) (hargs _ (.head _))
    exact h.call _ [acc, v] hf (.cons hacc (List.forall_mem_singleton.2 (hitems v hv)))
  · exact .pure (Value.permitted_list.2 hitems)
  · refine .bind (.ofExcept (.of_true _)) fun size _ => ?_
    split
    · exact .fail _
    · exact .pure (Value.permitted_list.2 (Value.chunks_permitted size hitems))
  · exact .pure (Value.permitted_int _)
  · exact .pure (Value.permitted_option.2 fun v hv => hitems v (List.mem_of_head? hv))
  · have hf := hargs _ (.head _)
    refine .bind (.forM fun v hv => ?_) fun _ _ => .pure Value.permitted_void
    exact .bind (h.call _ [v] hf (List.forall_mem_singleton.2 (hitems v hv))) fun _ _ =>
      .pure trivial
  · exact .ofExcept (Value.sum_permitted items)
  · exact .fail _

include hS

theorem onStream (op : SequenceOp) {p : Pipeline} {args : List Value}
    (hp : S.PermitsAll p.values) (hargs : S.PermitsAll args) :
    S.Agree S.Permits (r.onStream op p args) (r'.onStream op p args) := by
  unfold Recur.onStream
  split
  · exact hS.newStream (p.withStage_permitted hp hargs)
  · exact hS.newStream (p.withStage_permitted hp hargs)
  · exact hS.newStream (p.withStage_permitted hp hargs)
  · refine .bind (.ofExcept (.of_true _)) fun n _ => ?_
    exact hS.newStream (p.withStage_permitted hp (List.forall_mem_nil _))
  · refine .bind (.ofExcept (.of_true _)) fun n _ => ?_
    exact hS.newStream (p.withStage_permitted hp (List.forall_mem_nil _))
  · refine .bind (Cursor.pull_lockstep h.call h.bounds (p.cursor_permitted hp none)) ?_
    exact fun pulled hpulled => .pure (Value.permitted_option.2 hpulled.1)
  · have hf := hargs _ (.tail _ (.head _))
    refine h.foldStream _ hp (fun acc v hacc hv => ?_) (hargs _ (.head _))
    exact h.call _ [acc, v] hf (.cons hacc (List.forall_mem_singleton.2 hv))
  · have hf := hargs _ (.head _)
    refine .bind (h.foldStream (P := fun _ => True) _ hp (fun _ v _ hv => ?_) trivial) ?_
    · exact .bind (h.call _ [v] hf (List.forall_mem_singleton.2 hv)) fun _ _ => .pure trivial
    · exact fun _ _ => .pure Value.permitted_void
  · refine .bind (h.foldStream (P := fun _ => True) _ hp (fun _ _ _ _ => .pure trivial) trivial) ?_
    exact fun _ _ => .pure (Value.permitted_int _)
  · exact .bind (p.drain_lockstep h.call h.bounds _ hp) fun items hitems =>
      h.onItems _ hitems hargs

theorem onSequence (op : SequenceOp) {args : List Value} (hargs : S.PermitsAll args) :
    S.Agree S.Permits (r.onSequence op args) (r'.onSequence op args) := by
  unfold Recur.onSequence
  split
  · obtain ⟨hself, hrest⟩ := List.forall_mem_cons.1 hargs
    exact h.onItems op (Value.permitted_list.1 hself) hrest
  · obtain ⟨hself, hrest⟩ := List.forall_mem_cons.1 hargs
    exact h.onItems op (Value.permitted_set.1 hself) hrest
  · obtain ⟨hself, hrest⟩ := List.forall_mem_cons.1 hargs
    exact h.onStream hS op (Value.permitted_stream.1 hself) hrest
  · exact .fail _
  · exact .fail _

-- calls

theorem writeLog {args : List Value} (hargs : S.PermitsAll args) :
    S.Agree S.Permits (r.writeLog args) (r'.writeLog args) := by
  unfold Recur.writeLog
  split
  · have hp := Value.permitted_stream.1 (hargs _ (.head _))
    refine .bind (h.foldStream (P := fun _ => True) _ hp (fun _ v _ _ => hS.writeLog _) trivial) ?_
    exact fun _ _ => .pure Value.permitted_void
  · exact .bind (hS.writeLog _) fun _ _ => .pure Value.permitted_void

omit hS in
omit [Gateway γ] in
theorem requestArgs (op : ServiceOp) {args : List Value} (hargs : S.PermitsAll args) :
    S.Agree (fun _ => True) (r.requestArgs op args) (r'.requestArgs op args) := by
  refine (Eval.Agree.mapM (P := fun _ => True) fun v hv => ?_).weaken ?_
  · cases v with
    | stream identity p =>
      have hp := Value.permitted_stream.1 (hargs _ hv)
      exact .bind (p.drain_lockstep h.call h.bounds _ hp) fun _ _ => .pure trivial
    | _ => exact .pure trivial
  · exact fun _ _ hab => ⟨hab.1, trivial⟩

theorem callService (heffects : S.effects) (op : ServiceOp) {args : List Value}
    (hargs : S.PermitsAll args) :
    S.Agree S.Permits (r.callService op args) (r'.callService op args) := by
  refine .bind (h.requestArgs op hargs) fun documents _ => ?_
  refine .bind (hS.dispatch heffects _ documents) fun id _ => .pure ?_
  exact Value.permitted_future.2 (hS.future heffects)

omit h in
theorem onFutures (heffects : S.effects) (op : FutureOp) {args : List Value}
    (hargs : S.PermitsAll args) : S.Steady S.Permits (Run.onFutures (γ := γ) op args) := by
  have hfuture := hS.future heffects
  have hspawned : ∀ c : Combinator, c.Permitted S.terms.permit →
      S.Steady S.Permits (do return Value.future (← Run.spawnCombinator c)) := fun c hc =>
    .bind (hS.spawnCombinator heffects hc) fun id _ => .pure (Value.permitted_future.2 hfuture)
  unfold Run.onFutures
  split
  · exact .bind (.ofExcept (.of_true _)) fun _ _ => hspawned _ (hargs _ (.tail _ (.head _)))
  · exact .bind (.ofExcept (.of_true _)) fun _ _ => hspawned _ (hargs _ (.tail _ (.head _)))
  · exact .bind (.ofExcept (.of_true _)) fun _ _ => hspawned _ (hargs _ (.tail _ (.head _)))
  · refine .bind (.ofExcept (.of_true _)) fun items _ => .bind (.ofExcept (.of_true _)) ?_
    exact fun sources _ => hspawned _ (List.forall_mem_nil _)
  · exact hS.settledFuture heffects (.resolved (hargs _ (.head _))) rfl
  · refine .get_bind fun s t hs => ?_
    exact hS.settledFuture heffects (.failed (hargs _ (.head _)) (hS.line hs)) rfl
  · refine .bind (.ofExcept (.of_true _)) fun id _ => .get_bind fun s t hs => ?_
    have hstate := hS.futures hs hfuture id
    generalize s.scheduler.futures.state? id = a, t.scheduler.futures.state? id = b at hstate ⊢
    cases hstate with
    | none => exact .fail _
    | some hstate => cases hstate <;> exact .pure (Value.permitted_text _)
  · exact .fail _

theorem callBuiltin {b : Builtin} (hb : S.terms.permit.builtin b) {args : List Value}
    (hargs : S.PermitsAll args) :
    S.Agree S.Permits (r.callBuiltin b args) (r'.callBuiltin b args) := by
  cases b with
  | sequence op => exact h.onSequence hS op hargs
  | source op =>
    refine .bind (.ofExcept (op.source_permitted hargs)) fun source hsource => ?_
    exact hS.newStream (AllPermitted.append hsource (List.forall_mem_nil _))
  | collection op => exact .ofExcept (op.apply_permitted hargs)
  | wrapper op => exact .ofExcept (op.apply_permitted hargs)
  | scalar op => exact .ofExcept (op.apply_permitted hargs)
  | log => exact h.writeLog hS hargs
  | future op =>
    refine onFutures hS ((hS.builtin hb).resolve_left ?_) op hargs
    rintro ⟨⟩
  | service op =>
    refine h.callService hS ((hS.builtin hb).resolve_left ?_) op hargs
    rintro ⟨⟩

/-- As many parameters as arguments: each parameter is bound. -/
theorem bindParams {params : List Param} {args : List Value} (hlen : args.length = params.length)
    (hargs : S.PermitsAll args) :
    S.Agree (fun bindings =>
        bindings.map (·.1) = params.map Param.name ∧ EntriesPermitted S.terms.permit bindings)
      (r.bindParams params args) (r'.bindParams params args) := by
  induction params generalizing args with
  | nil => exact .pure ⟨rfl, List.forall_mem_nil _⟩
  | cons p ps ih =>
    cases args with
    | nil => cases hlen
    | cons v vs =>
      obtain ⟨hv, hvs⟩ := List.forall_mem_cons.1 hargs
      rw [Recur.bindParams, Recur.bindParams]
      refine .get_bind fun s t hs => ?_
      have hline : S.terms.SameLine (if s.line = 0 then p.span.line else s.line)
          (if t.line = 0 then p.span.line else t.line) := fun hT => by rw [hS.line hs hT]
      refine .bind (h.checkOptional hS _ hv hline) fun _ _ => ?_
      refine .bind (ih (Nat.succ.inj hlen) hvs) fun bindings hbindings => .pure ⟨?_, ?_⟩
      · rw [List.map_cons, List.map_cons, hbindings.1]
      · exact List.forall_mem_cons.2 ⟨hv, hbindings.2⟩

section

-- saturated calls of closures keep step
variable (hclosure : ∀ {decl : FunctionDecl} {env : Env} {module : Nat} {args : List Value},
  S.terms.permit.closure decl env module → S.PermitsAll env.values → S.PermitsAll args →
  args.length = decl.arity →
  S.Agree S.Permits (r.callClosure decl env module args) (r'.callClosure decl env module args))
include hclosure

theorem callCallable : ∀ {c : Callable} {args : List Value}, c.Admitted S.terms.permit →
    S.PermitsAll c.values → S.PermitsAll args →
    S.Agree S.Permits (r.callCallable c args) (r'.callCallable c args)
  | .applied target bound, args, hc, hvalues, hargs => by
    obtain ⟨htarget, hbound⟩ := List.forall_mem_append.1 hvalues
    rw [Recur.callCallable, Recur.callCallable]
    exact callCallable hc htarget (AllPermitted.append hbound hargs)
  | .builtin b, args, hc, hvalues, hargs => by
    rw [Recur.callCallable, Recur.callCallable]
    split
    · exact hS.newFunction hc hargs
    · split
      · exact h.callBuiltin hS hc hargs
      · exact .fail _
  | .closure decl env module, args, hc, hvalues, hargs => by
    rw [Recur.callCallable, Recur.callCallable]
    split
    · exact hS.newFunction hc (AllPermitted.append hvalues hargs)
    · split
      · rename_i hlen
        exact hclosure hc hvalues hargs hlen
      · exact .fail _

theorem callValue : Host.Lockstep S.terms S.state r.callValue r'.callValue := by
  intro f args hf hargs
  cases f with
  | function identity c =>
    obtain ⟨hc, hvalues⟩ := Value.permitted_function.1 hf
    exact h.callCallable hS hclosure hc hvalues hargs
  | _ => exact .fail _

end

end Recur.InStep

end StreamLang
