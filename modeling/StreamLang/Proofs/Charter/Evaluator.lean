import StreamLang.Proofs.Charter.Judgement

/-! Evaluation keeps to a charter. Code that may be evaluated in a scope gives what it may give there,
and so does a call of a function that may stand in a value. -/

namespace StreamLang

/-- A field that is replaced keeps its place. -/
theorem setField_names (name : String) (v : Value) (fields : List (String × Value)) :
    (setField name v fields).map (·.1) = fields.map (·.1) := by
  induction fields with
  | nil => rfl
  | cons entry rest ih =>
    rw [setField]
    split
    · rename_i hname
      simp only [List.map_cons, hname]
    · simp only [List.map_cons, ih]

variable {γ : Type} {C : Charter} {due : FutureId → Value → Prop}

/-- Evaluation and calls of one step less keep to the charter. -/
structure Recur.Obeys (C : Charter) (due : FutureId → Value → Prop) (r r' : Recur γ) : Prop where
  fuel : r'.fuel = r.fuel
  eval : ∀ {m env e}, C.code m env e → C.AllFine (Env.values env) →
    Run.Under C due m (fun v => C.Fine v ∧ C.gives m env e v) (r.eval e env) (r'.eval e env)
  call : Host.Under C due r.call r'.call
  combined : ∀ {s t env e vs v}, C.State due s → C.code s.current env e → e.isFromParts = true →
    List.Forall₂ (C.gives s.current env) e.operands vs → r.combine e env vs s = .ok v t →
    C.gives s.current env e v

namespace Run

variable {α : Type} {m : Nat}

/-- A property that the value of the first computation has as well. -/
theorem Under.also {P Q : α → Prop} {x y : Run γ α} (h : Under C due m P x y)
    (hQ : ∀ s t a, C.State due s → s.current = m → x s = .ok a t → Q a) :
    Under C due m (fun a => P a ∧ Q a) x y := by
  intro s hs hm
  obtain ⟨hsame, hends⟩ := h s hs hm
  refine ⟨hsame, ?_⟩
  cases hx : x s with
  | ok a t =>
    rw [hx] at hends
    exact ⟨hends.1, hends.2, hQ s t a hs hm hx⟩
  | error u t =>
    rw [hx] at hends
    exact hends

theorem awaitSettled_under (v : Value) (line : Nat) :
    Under C due m C.Fine (awaitSettled (γ := γ) v line) (awaitSettled v line) := by
  cases v with
  | future id =>
    refine .bind (observe_under id) fun found hfound => ?_
    cases found with
    | none => exact .failAt _ _
    | some state => cases state with
      | pending => exact .fail _
      | resolved w => exact .pure (hfound _ rfl).1
      | failed f => exact .failAt _ _
  | _ => exact .fail _

end Run

namespace Recur.Obeys

variable {r r' : Recur γ} {m : Nat}

section

variable (h : r.Obeys C due r')
include h

-- sequences

theorem callOne {f v : Value} (hf : C.Fine f) (hv : C.Fine v) :
    Run.Under C due m C.Fine (r.call f [v]) (r'.call f [v]) :=
  h.call hf (AllEvery.one hv)

theorem passes {f v : Value} (hf : C.Fine f) (hv : C.Fine v) :
    Run.Under C due m Run.Whatever (r.passes f v) (r'.passes f v) := by
  refine .bind (h.callOne hf hv) fun verdict _ => ?_
  cases verdict with
  | bool b => exact .pure trivial
  | _ => exact .fail _

theorem drain (terminal : String) {p : Pipeline} (hp : C.AllFine p.values) :
    Run.Under C due m C.AllFine (p.drain r.call r.fuel terminal) (p.drain r'.call r'.fuel terminal) := by
  rw [h.fuel]
  exact p.drain_under h.call r.fuel terminal hp

theorem spread {f v : Value} (hf : C.Fine f) (hv : C.Fine v) :
    Run.Under C due m C.AllFine (r.spread f v) (r'.spread f v) := by
  refine .bind (h.callOne hf hv) fun w hw => ?_
  cases w with
  | list items => exact .pure (Value.every_list.1 hw)
  | set items => exact .pure (Value.every_set.1 hw)
  | stream identity p => exact h.drain _ (Value.every_stream.1 hw)
  | _ => exact .fail _

theorem foldStream {β : Type} {P : β → Prop} (terminal : String) {p : Pipeline}
    (hp : C.AllFine p.values) {step step' : β → Value → Run γ β}
    (hstep : ∀ acc v, P acc → C.Fine v → Run.Under C due m P (step acc v) (step' acc v)) {start : β}
    (hstart : P start) :
    Run.Under C due m P (r.foldStream terminal p step start) (r'.foldStream terminal p step' start) := by
  unfold Recur.foldStream
  rw [h.fuel]
  exact .bind (.ofExcept (p.boundedCursor_every hp terminal)) fun c hc =>
    Cursor.fold_under h.call hstep r.fuel hc hstart

omit h in
theorem countOf (op : SequenceOp) (v : Value) :
    Run.Under C due m Run.Whatever (Recur.countOf (γ := γ) op v) (Recur.countOf op v) :=
  .ofExcept (.of_true _)

/-- Whatever arguments follow the sequence. -/
theorem onItems (op : SequenceOp) {items args : List Value} (hitems : C.AllFine items)
    (hargs : C.AllFine args) :
    Run.Under C due m C.Fine (r.onItems op items args) (r'.onItems op items args) := by
  unfold Recur.onItems
  split
  · have hf := hargs _ (.head _)
    exact .bind (.mapM_all fun v hv => h.callOne hf (hitems v hv)) fun _ hvs =>
      .pure (Value.every_list.2 hvs)
  · have hf := hargs _ (.head _)
    refine .bind (.foldlM (P := C.AllFine) (fun kept hkept v hv => ?_) AllEvery.nil)
      fun kept hkept => .pure (Value.every_list.2 hkept.reverse)
    refine .bind (h.passes hf (hitems v hv)) fun b _ => .pure ?_
    split
    · exact AllEvery.cons (hitems v hv) hkept
    · exact hkept
  · have hf := hargs _ (.head _)
    refine .bind (.mapM_all (P := C.AllFine) fun v hv => h.spread hf (hitems v hv))
      fun parts hparts => .pure (Value.every_list.2 fun v hv => ?_)
    obtain ⟨part, hpart, hmem⟩ := List.mem_flatten.1 hv
    exact hparts part hpart v hmem
  · exact .bind (countOf .take _) fun _ _ => .pure (Value.every_list.2 fun v hv =>
      hitems v (List.mem_of_mem_take hv))
  · exact .bind (countOf .skip _) fun _ _ => .pure (Value.every_list.2 fun v hv =>
      hitems v (List.mem_of_mem_drop hv))
  · have hf := hargs _ (.tail _ (.head _))
    exact .foldlM (fun acc hacc v hv => h.call hf (.cons hacc (.one (hitems v hv))))
      (hargs _ (.head _))
  · exact .pure (Value.every_list.2 hitems)
  · refine .bind (countOf .chunk _) fun count _ => ?_
    split
    · exact .fail _
    · exact .pure (Value.every_list.2 (Value.chunks_every count hitems))
  · exact .pure (Value.every_int _)
  · exact .pure (Value.every_option.2 fun v hv => hitems v (List.mem_of_head? hv))
  · have hf := hargs _ (.head _)
    refine .bind (.forM fun v hv => ?_) fun _ _ => .pure Value.every_void
    exact .bind (h.callOne hf (hitems v hv)) fun _ _ => .pure trivial
  · exact .ofExcept (Value.sum_every items)
  · exact .fail _

omit h in
theorem withStage {p : Pipeline} {stage : Stage} (hp : C.AllFine p.values)
    (hstage : C.AllFine stage.values) :
    Run.Under C due m C.Fine (Run.newStream (γ := γ) (p.withStage stage))
      (Run.newStream (p.withStage stage)) :=
  Run.newStream_under (Pipeline.withStage_every hp hstage)

theorem onStream (op : SequenceOp) {p : Pipeline} {args : List Value} (hp : C.AllFine p.values)
    (hargs : C.AllFine args) :
    Run.Under C due m C.Fine (r.onStream op p args) (r'.onStream op p args) := by
  have hdrained : Run.Under C due m C.Fine
      (do r.onItems op (← p.drain r.call r.fuel op.name) args)
      (do r'.onItems op (← p.drain r'.call r'.fuel op.name) args) :=
    .bind (h.drain op.name hp) fun items hitems => h.onItems op hitems hargs
  unfold Recur.onStream
  split
  · exact withStage hp hargs
  · exact withStage hp hargs
  · exact withStage hp hargs
  · exact .bind (countOf _ _) fun _ _ => withStage hp AllEvery.nil
  · exact .bind (countOf _ _) fun _ _ => withStage hp AllEvery.nil
  · rw [h.fuel]
    refine .bind (Cursor.pull_under h.call r.fuel (p.cursor_every hp none)) fun pulled hp => ?_
    exact .pure (Value.every_option.2 fun v hv => hp.1 v hv)
  · have hf := hargs _ (.tail _ (.head _))
    exact h.foldStream _ hp (fun acc v hacc hv => h.call hf (.cons hacc (.one hv)))
      (hargs _ (.head _))
  · have hf := hargs _ (.head _)
    refine .bind (h.foldStream (P := Run.Whatever) _ hp (fun _ v _ hv => ?_) trivial)
      fun _ _ => .pure Value.every_void
    exact .bind (h.callOne hf hv) fun _ _ => .pure trivial
  · exact .bind (h.foldStream (P := Run.Whatever) _ hp (fun _ _ _ _ => .pure trivial) trivial)
      fun _ _ => .pure (Value.every_int _)
  · exact hdrained

theorem onSequence (op : SequenceOp) {args : List Value} (hargs : C.AllFine args) :
    Run.Under C due m C.Fine (r.onSequence op args) (r'.onSequence op args) := by
  unfold Recur.onSequence
  split
  · obtain ⟨hself, hrest⟩ := List.forall_mem_cons.1 hargs
    exact h.onItems op (Value.every_list.1 hself) hrest
  · obtain ⟨hself, hrest⟩ := List.forall_mem_cons.1 hargs
    exact h.onItems op (Value.every_set.1 hself) hrest
  · obtain ⟨hself, hrest⟩ := List.forall_mem_cons.1 hargs
    exact h.onStream op (Value.every_stream.1 hself) hrest
  · exact .ofExcept (.error _)
  · exact .fail _

-- builtins

theorem writeLog {args : List Value} (hargs : C.AllFine args) :
    Run.Under C due m C.Fine (r.writeLog args) (r'.writeLog args) := by
  unfold Recur.writeLog
  split
  · have hp := Value.every_stream.1 (hargs _ (.head _))
    exact .bind (h.foldStream (P := Run.Whatever) _ hp
      (fun _ v _ _ => Run.writeLog_under v.render) trivial) fun _ _ => .pure Value.every_void
  · exact .bind (Run.writeLog_under _) fun _ _ => .pure Value.every_void

theorem requestArgs (op : ServiceOp) {args : List Value} (hargs : C.AllFine args) :
    Run.Under C due m Run.Whatever (r.requestArgs op args) (r'.requestArgs op args) := by
  refine (Run.Under.mapM_all (P := Run.Whatever) fun v hv => ?_).weaken fun _ _ => trivial
  cases v with
  | stream identity p =>
    exact .bind (h.drain _ (Value.every_stream.1 (hargs _ hv))) fun _ _ => .pure trivial
  | _ => exact .pure trivial

theorem callService [Gateway γ] (op : ServiceOp) {args : List Value} (hargs : C.AllFine args) :
    Run.Under C due m C.Fine (r.callService op args) (r'.callService op args) :=
  .bind (h.requestArgs op hargs) fun documents _ =>
    .bind (Run.dispatch_under op documents) fun _ _ => .pure (Value.every_future.2 trivial)

omit h in
theorem futureOf (op : FutureOp) (v : Value) :
    Run.Under C due m Run.Whatever (Run.futureOf (γ := γ) op v) (Run.futureOf op v) :=
  .ofExcept (.of_true _)

omit h in
theorem spawned {c : Combinator} (hc : C.AllFine c.values) :
    Run.Under C due m C.Fine (do return Value.future (← Run.spawnCombinator (γ := γ) c))
      (do return Value.future (← Run.spawnCombinator c)) :=
  .bind (Run.spawnCombinator_under hc) fun _ _ => .pure (Value.every_future.2 trivial)

omit h in
theorem onFutures (op : FutureOp) {args : List Value} (hargs : C.AllFine args) :
    Run.Under C due m C.Fine (Run.onFutures (γ := γ) op args) (Run.onFutures op args) := by
  unfold Run.onFutures
  split
  · exact .bind (futureOf _ _) fun id _ =>
      spawned (c := .onError id _) (AllEvery.one (hargs _ (.tail _ (.head _))))
  · exact .bind (futureOf _ _) fun id _ =>
      spawned (c := .onComplete id _) (AllEvery.one (hargs _ (.tail _ (.head _))))
  · exact .bind (futureOf _ _) fun id _ =>
      spawned (c := .andThen id _) (AllEvery.one (hargs _ (.tail _ (.head _))))
  · exact .bind (.ofExcept (.of_true _)) fun _ _ => .bind (.ofExcept (.of_true _)) fun ids _ =>
      spawned (c := .all ids []) AllEvery.nil
  · exact Run.settledFuture_under (.resolved _) fun _ hfree => ⟨hargs _ (.head _), hfree _⟩
  · exact .get_bind fun s _ _ =>
      Run.settledFuture_under (.failed ⟨_, s.line⟩) fun _ _ => hargs _ (.head _)
  · refine .bind (futureOf _ _) fun id _ => .bind (Run.futureState?_under id) fun found _ => ?_
    cases found with
    | none => exact .fail _
    | some state => exact .pure (Value.every_text _)
  · exact .fail _

theorem callBuiltin [Gateway γ] (b : Builtin) {args : List Value} (hargs : C.AllFine args) :
    Run.Under C due m C.Fine (r.callBuiltin b args) (r'.callBuiltin b args) := by
  cases b with
  | sequence op => exact h.onSequence op hargs
  | source op =>
    exact .bind (.ofExcept (op.source_every hargs)) fun source hsource =>
      Run.newStream_under (AllEvery.append hsource AllEvery.nil)
  | collection op => exact .ofExcept (op.apply_every hargs)
  | wrapper op => exact .ofExcept (op.apply_every hargs)
  | scalar op => exact .ofExcept (op.apply_every hargs)
  | log => exact h.writeLog hargs
  | future op => exact onFutures op hargs
  | service op => exact h.callService op hargs

-- parts of expressions

theorem callMethod (name : String) {receiver : Value} {args : List Value} {env : Env}
    (hreceiver : C.Fine receiver) (hargs : C.AllFine args) (henv : C.AllFine env.values) :
    Run.Under C due m C.Fine (r.callMethod name receiver args env)
      (r'.callMethod name receiver args env) := by
  have hlookup : Run.Under C due m C.Fine
      (Run.lookup name env >>= fun f => r.call f (receiver :: args))
      (Run.lookup name env >>= fun f => r'.call f (receiver :: args)) :=
    .bind (Run.lookup_under name henv) fun f hf => h.call hf (.cons hreceiver hargs)
  cases receiver with
  | record record fields =>
    unfold Recur.callMethod
    dsimp only
    split
    · rename_i id c hfield
      exact h.call (Value.fieldOf?_every (Value.every_record.1 hreceiver).2 name _ hfield) hargs
    · exact hlookup
  | _ => exact hlookup

omit h in
theorem buildVariant (enum variant : String) {args : List Value} (hargs : C.AllFine args) :
    Run.Under C due m C.Fine (Run.buildVariant (γ := γ) enum variant args)
      (Run.buildVariant enum variant args) := by
  refine .get_bind fun s _ _ => ?_
  dsimp only
  split
  · exact .pure (Value.every_enum.2 (Run.variantPayload_every hargs))
  · exact .fail _

theorem evalOr {e : Option Expr} {env : Env} (he : ∀ e', e = some e' → C.code m env e')
    (henv : C.AllFine env.values) :
    Run.Under C due m C.Fine (r.evalOr e env) (r'.evalOr e env) := by
  cases e with
  | none => exact .pure Value.every_void
  | some e => exact (h.eval (he e rfl) henv).weaken fun _ => And.left

theorem guardHolds {guard : Option Expr} {env : Env}
    (hguard : ∀ e, guard = some e → C.code m env e) (henv : C.AllFine env.values) :
    Run.Under C due m Run.Whatever (r.guardHolds guard env) (r'.guardHolds guard env) := by
  cases guard with
  | none => exact .pure trivial
  | some e => exact .bind (h.eval (hguard e rfl) henv) fun v _ => Run.truth_under _ v

theorem firstArm {v : Value} {env : Env} {arms : List MatchArm} (hv : C.Fine v)
    (harms : C.Arms m env arms) (henv : C.AllFine env.values) :
    Run.Under C due m (fun taken => C.code m taken.2 taken.1 ∧ C.AllFine (Env.values taken.2))
      (r.firstArm v env arms) (r'.firstArm v env arms) := by
  induction arms with
  | nil => exact .fail _
  | cons arm rest ih =>
    have hrest : C.Arms m env rest := fun arm harm => harms arm (.tail _ harm)
    refine .get_bind fun s hs _ => ?_
    cases hb : arm.pattern.bindings? s.scheduler.futures v with
    | none => exact ih hrest
    | some bindings =>
      obtain ⟨hguard, hbody⟩ := harms arm (.head _) v bindings ⟨_, hb⟩
      have hvalues := Env.extend_every henv (Run.matches_fine hs hv hb)
      refine .bind (h.guardHolds hguard hvalues) fun holds _ => ?_
      cases holds with
      | true => exact .pure ⟨hbody, hvalues⟩
      | false => exact ih hrest

theorem selectArm {v : Value} {env : Env} {arms : List MatchArm} (hv : C.Fine v)
    (harms : C.Arms m env arms) (henv : C.AllFine env.values) :
    Run.Under C due m (fun taken => C.code m taken.2 taken.1 ∧ C.AllFine (Env.values taken.2))
      (r.selectArm v env arms) (r'.selectArm v env arms) := by
  have hfirst := h.firstArm hv harms henv
  cases v with
  | future id => exact .bind (Run.markObserved_under id) fun _ _ => hfirst
  | _ => exact hfirst

theorem evalLogical (op : BinaryOp) {lhs rhs : Expr} {env : Env} (hlhs : C.code m env lhs)
    (hrhs : C.code m env rhs) (henv : C.AllFine env.values) :
    Run.Under C due m C.Fine (r.evalLogical op lhs rhs env) (r'.evalLogical op lhs rhs env) := by
  refine .bind (h.eval hlhs henv) fun v _ => .bind (Run.truth_under _ v) fun a _ => ?_
  split
  · exact .pure (Value.every_bool a)
  · refine .bind (h.eval hrhs henv) fun w _ => ?_
    exact .bind (Run.truth_under _ w) fun b _ => .pure (Value.every_bool b)

end

variable [Gateway γ]

-- refinements

theorem checkPredicate (hC : C.Lawful γ) (h : r.Obeys C due r') (name : String) {v : Value}
    (hv : C.Fine v) (line : Nat) :
    Run.Under C due m Run.Whatever (r.checkPredicate name v line) (r'.checkPredicate name v line) := by
  refine .get_bind fun s hs _ => ?_
  dsimp only
  cases hp : (s.schemas.typeAlias? name).bind AliasSchema.predicate with
  | none => exact .pure trivial
  | some predicate =>
    obtain ⟨a, ha, hpredicate⟩ := Option.bind_eq_some_iff.1 hp
    have hcode := hC.predicate hs.loaded ha hpredicate m v
    have hbound : C.AllFine (Env.empty.bind "value" v).values := AllEvery.one hv
    refine .bind (.located (h.eval hcode hbound) line) fun w _ => ?_
    cases w with
    | bool b => cases b with
      | true => exact .pure trivial
      | false => exact .failAt _ line
    | _ => exact .failAt _ line

mutual

theorem checkRefinements (hC : C.Lawful γ) (h : r.Obeys C due r') (line : Nat) (ty : Ty) (v : Value)
    (hv : C.Fine v) :
    Run.Under C due m Run.Whatever (r.checkRefinements line ty v) (r'.checkRefinements line ty v) := by
  cases ty with
  | refined name base =>
    rw [Recur.checkRefinements, Recur.checkRefinements]
    exact .bind (h.checkPredicate hC name hv line) fun _ _ =>
      h.checkRefinements hC line base v hv
  | list elem =>
    cases v with
    | list items =>
      exact .forM fun w hw => h.checkRefinements hC line elem w (Value.every_list.1 hv w hw)
    | set items =>
      exact .forM fun w hw => h.checkRefinements hC line elem w (Value.every_set.1 hv w hw)
    | _ => exact .pure trivial
  | set elem =>
    cases v with
    | list items =>
      exact .forM fun w hw => h.checkRefinements hC line elem w (Value.every_list.1 hv w hw)
    | set items =>
      exact .forM fun w hw => h.checkRefinements hC line elem w (Value.every_set.1 hv w hw)
    | _ => exact .pure trivial
  | option inner =>
    cases v with
    | option w => cases w with
      | none => exact .pure trivial
      | some w => exact h.checkRefinements hC line inner w (Value.every_option.1 hv w rfl)
    | _ => exact .pure trivial
  | tuple tys =>
    cases v with
    | tuple items => exact h.checkItems hC line tys items (Value.every_tuple.1 hv)
    | _ => exact .pure trivial
  | _ => exact .pure trivial
termination_by structural ty

theorem checkItems (hC : C.Lawful γ) (h : r.Obeys C due r') (line : Nat) (tys : List Ty)
    (vs : List Value) (hvs : C.AllFine vs) :
    Run.Under C due m Run.Whatever (r.checkItems line tys vs) (r'.checkItems line tys vs) := by
  cases tys with
  | nil => exact .pure trivial
  | cons ty tys => cases vs with
    | nil => exact .pure trivial
    | cons v vs =>
      obtain ⟨hv, hrest⟩ := List.forall_mem_cons.1 hvs
      rw [Recur.checkItems, Recur.checkItems]
      exact .bind (h.checkRefinements hC line ty v hv) fun _ _ =>
        h.checkItems hC line tys vs hrest
termination_by structural tys

end

variable (hC : C.Lawful γ) (h : r.Obeys C due r')
include hC h

theorem checkOptional (ty : Option TypeExpr) {v : Value} (hv : C.Fine v) (line : Nat) :
    Run.Under C due m Run.Whatever (r.checkOptional ty v line) (r'.checkOptional ty v line) := by
  cases ty with
  | none => exact .pure trivial
  | some ty =>
    refine .get_bind fun s _ _ => ?_
    cases s.schemas.resolve ty with
    | error fault => exact .failAt _ line
    | ok ty => exact h.checkRefinements hC line ty v hv

-- records

/-- The fields of a declaration come in its order. -/
theorem declaredFields (name : String) {given : List (FieldInit × Value)}
    (hgiven : ∀ g ∈ given, C.Fine g.2) (fields : List (String × Ty)) :
    Run.Under C due m (fun found => C.EntriesFine found ∧ found.map (·.1) = fields.map (·.1))
      (r.declaredFields name given fields) (r'.declaredFields name given fields) := by
  induction fields with
  | nil => exact .pure ⟨List.forall_mem_nil _, rfl⟩
  | cons field rest ih =>
    rw [Recur.declaredFields, Recur.declaredFields]
    cases hg : given.find? (·.1.name == field.1) with
    | none => exact .fail _
    | some g =>
      have hfine := hgiven g (List.mem_of_find?_eq_some hg)
      refine .bind (h.checkRefinements hC _ _ _ hfine) fun _ _ => ?_
      refine .bind ih fun found hfound => .pure ⟨List.forall_mem_cons.2 ⟨hfine, hfound.1⟩, ?_⟩
      rw [List.map_cons, List.map_cons, hfound.2]

theorem buildRecord (name : String) {given : List (FieldInit × Value)}
    (hgiven : ∀ g ∈ given, C.Fine g.2) :
    Run.Under C due m C.Fine (r.buildRecord name given) (r'.buildRecord name given) := by
  refine .get_bind fun s hs _ => ?_
  cases hschema : s.schemas.record? name with
  | none => exact .fail _
  | some schema =>
    refine .bind (h.declaredFields hC name hgiven schema.fields) fun fields hfields => ?_
    split
    · exact .fail _
    · refine .pure (Value.every_record.2 ⟨?_, hfields.1⟩)
      have hshape := hC.declared hs.loaded hschema
      rwa [← hfields.2] at hshape

/-- The names of the fields stay, and so does their order. -/
theorem updateFields (name : String) {updates : List (FieldInit × Value)}
    (hupdates : ∀ u ∈ updates, C.Fine u.2) {fields : List (String × Value)}
    (hfields : C.EntriesFine fields) :
    Run.Under C due m (fun found => C.EntriesFine found ∧ found.map (·.1) = fields.map (·.1))
      (r.updateFields name updates fields) (r'.updateFields name updates fields) := by
  induction updates generalizing fields with
  | nil => exact .pure ⟨hfields, rfl⟩
  | cons u rest ih =>
    obtain ⟨hu, hrest⟩ := List.forall_mem_cons.1 hupdates
    have hgo : Run.Under C due m (fun found => C.EntriesFine found ∧ found.map (·.1) = fields.map (·.1))
        (r.updateFields name rest (setField u.1.name u.2 fields))
        (r'.updateFields name rest (setField u.1.name u.2 fields)) :=
      (ih hrest (setField_every u.1.name hu hfields)).weaken fun found hfound =>
        ⟨hfound.1, hfound.2.trans (setField_names _ _ _)⟩
    rw [Recur.updateFields, Recur.updateFields]
    split
    · exact .fail _
    · refine .get_bind fun s _ _ => ?_
      cases (s.schemas.record? name).bind (·.field? u.1.name) with
      | none => exact hgo
      | some ty => exact .bind (h.checkRefinements hC _ ty _ hu) fun _ _ => hgo

theorem update {target : Value} (htarget : C.Fine target) {updates : List (FieldInit × Value)}
    (hupdates : ∀ u ∈ updates, C.Fine u.2) :
    Run.Under C due m C.Fine (r.update target updates) (r'.update target updates) := by
  cases target with
  | record name fields =>
    obtain ⟨hshape, hfields⟩ := Value.every_record.1 htarget
    refine .bind (h.updateFields hC name hupdates hfields) fun found hfound =>
      .pure (Value.every_record.2 ⟨?_, hfound.1⟩)
    change C.shape name (found.map (·.1))
    rw [hfound.2]
    exact hshape
  | map entries =>
    exact .pure (Value.every_map.2 (foldl_insert_every hupdates (Value.every_map.1 htarget)))
  | _ => exact .fail _

-- calls

/-- The parameters are bound under their names. -/
theorem bindParams (params : List Param) {args : List Value} (hlen : args.length = params.length)
    (hargs : C.AllFine args) :
    Run.Under C due m (fun bindings => C.EntriesFine bindings ∧
        bindings.map (·.1) = params.map Param.name)
      (r.bindParams params args) (r'.bindParams params args) := by
  induction params generalizing args with
  | nil => exact .pure ⟨List.forall_mem_nil _, rfl⟩
  | cons p ps ih =>
    cases args with
    | nil => cases hlen
    | cons v vs =>
      obtain ⟨hv, hvs⟩ := List.forall_mem_cons.1 hargs
      rw [Recur.bindParams, Recur.bindParams]
      refine .get_bind fun s _ _ => .bind (h.checkOptional hC p.ty hv _) fun _ _ => ?_
      refine .bind (ih (Nat.succ.inj hlen) hvs) fun bindings hbindings =>
        .pure ⟨List.forall_mem_cons.2 ⟨hv, hbindings.1⟩, ?_⟩
      rw [List.map_cons, List.map_cons, hbindings.2]

theorem runBody {decl : FunctionDecl} {env : Env} (hbody : C.code m env decl.body)
    (henv : C.AllFine env.values) :
    Run.Under C due m C.Fine (r.runBody decl env) (r'.runBody decl env) := by
  refine .get_bind fun s _ _ => ?_
  split
  · exact .fail _
  · have hrest : Run.Under C due m C.Fine
        (do
          let v ← (Run.deeper (r.eval decl.body env)).catchEarly
          r.checkOptional decl.ret v decl.span.line
          return v)
        (do
          let v ← (Run.deeper (r'.eval decl.body env)).catchEarly
          r'.checkOptional decl.ret v decl.span.line
          return v) := by
      have hdeeper := Run.deeper_under ((h.eval hbody henv).weaken fun _ => And.left)
      refine .bind (.catchEarly hdeeper) fun v hv => ?_
      exact .bind (h.checkOptional hC decl.ret hv _) fun _ _ => .pure hv
    cases decl.name with
    | none => exact hrest
    | some name => exact .bind (Run.countEvaluation_under name) fun _ _ => hrest

theorem enterClosure {decl : FunctionDecl} {env : Env} {args : List Value}
    (hdecl : C.closure decl env m) (henv : C.AllFine env.values)
    (hlen : args.length = decl.params.length) (hargs : C.AllFine args) :
    Run.Under C due m C.Fine (r.enterClosure decl env args) (r'.enterClosure decl env args) := by
  refine .bind (h.bindParams hC decl.params hlen hargs) fun bindings hbindings => ?_
  have hbody := hC.enter hdecl hbindings.2
  have hvalues := Env.extend_every henv hbindings.1
  cases decl.isAsync with
  | true =>
    exact .bind (Run.spawn_under hbody hvalues) fun _ _ => .pure (Value.every_future.2 trivial)
  | false => exact h.runBody hC hbody hvalues

theorem callClosure {decl : FunctionDecl} {env : Env} {k : Nat} {args : List Value}
    (hdecl : C.closure decl env k) (henv : C.AllFine env.values)
    (hlen : args.length = decl.params.length) (hargs : C.AllFine args) :
    Run.Under C due m C.Fine (r.callClosure decl env k args) (r'.callClosure decl env k args) := by
  have hcall := Run.inModule_under (m := m) k (h.enterClosure hC hdecl henv hlen hargs)
  refine Run.numbered_under (.bind (Run.memoKey?_under decl k args) fun key? _ => ?_)
  cases key? with
  | none => exact hcall
  | some key =>
    refine .bind (Run.remembered?_under key) fun found hfound => ?_
    cases found with
    | some v => exact .pure (hfound v rfl)
    | none =>
      refine .bind hcall fun v hv => ?_
      exact .bind (Run.remember_under key hv) fun _ _ => .pure hv

theorem callCallable : ∀ {c : Callable} {args : List Value}, C.Admits c → C.AllFine c.values →
    C.AllFine args → Run.Under C due m C.Fine (r.callCallable c args) (r'.callCallable c args)
  | .applied target bound, args, hc, hvalues, hargs => by
    obtain ⟨htarget, hbound⟩ := List.forall_mem_append.1 hvalues
    rw [Recur.callCallable, Recur.callCallable]
    exact callCallable hc htarget (AllEvery.append hbound hargs)
  | .builtin b, args, hc, hvalues, hargs => by
    rw [Recur.callCallable, Recur.callCallable]
    split
    · exact Run.newFunction_under hc hargs
    · split
      · exact h.callBuiltin b hargs
      · exact .fail _
  | .closure decl env k, args, hc, hvalues, hargs => by
    rw [Recur.callCallable, Recur.callCallable]
    split
    · exact Run.newFunction_under hc (AllEvery.append hvalues hargs)
    · split
      · exact h.callClosure hC hc hvalues ‹_› hargs
      · exact .fail _

theorem callValue : Host.Under C due r.callValue r'.callValue := by
  intro m f args hf hargs
  cases f with
  | function identity c =>
    obtain ⟨hc, hvalues⟩ := Value.every_function.1 hf
    exact h.callCallable hC hc hvalues hargs
  | _ => exact .fail _

-- expressions

theorem combine (e : Expr) {env : Env} (henv : C.AllFine env.values) {vs : List Value}
    (hvs : C.AllFine vs) :
    Run.Under C due m C.Fine (r.combine e env vs) (r'.combine e env vs) := by
  have hzip : ∀ (fields : List FieldInit) {ws : List Value}, C.AllFine ws →
      ∀ g ∈ fields.zip ws, C.Fine g.2 :=
    fun _ _ hws g hg => hws g.2 (List.of_mem_zip hg).2
  unfold Recur.combine
  split
  · exact .pure (Value.every_list.2 hvs)
  · exact .pure (Value.every_tuple.2 hvs)
  · exact .pure (Value.every_map.2 (Keyed.forall_foldl_insert (List.forall_mem_nil _)
      fun entry hentry => hvs entry.2 (List.of_mem_zip hentry).2))
  · exact h.buildRecord hC _ (hzip _ hvs)
  · exact buildVariant _ _ hvs
  · obtain ⟨htarget, hrest⟩ := List.forall_mem_cons.1 hvs
    exact h.update hC htarget (hzip _ hrest)
  · exact .ofExcept (Value.select_every (hvs _ (.head _)) _)
  · exact .ofExcept (Value.index_every (hvs _ (.head _)) _)
  · obtain ⟨hcallee, hargs⟩ := List.forall_mem_cons.1 hvs
    exact .bind (Run.setLine_under _) fun _ _ => h.call hcallee hargs
  · obtain ⟨hreceiver, hargs⟩ := List.forall_mem_cons.1 hvs
    exact .bind (Run.setLine_under _) fun _ _ => h.callMethod _ hreceiver hargs henv
  · exact .ofExcept (BinaryOp.apply_every _ _ _)
  · exact .ofExcept (UnaryOp.apply_every _ _)
  · exact .fail _

/-- The expression gives what it may give for values of its parts. -/
theorem combineGiven {e : Expr} (hfrom : e.isFromParts = true) {env : Env}
    (he : C.code m env e) (henv : C.AllFine env.values) {vs : List Value} (hvs : C.AllFine vs)
    (hgiven : List.Forall₂ (C.gives m env) e.operands vs) :
    Run.Under C due m (fun v => C.Fine v ∧ C.gives m env e v) (r.combine e env vs)
      (r'.combine e env vs) := by
  refine (h.combine hC e henv hvs).also ?_
  rintro s t v hs rfl hv
  exact h.combined hs he hfrom hgiven hv

theorem bindLet (span : Span) (pattern : Pattern) (ty : Option TypeExpr) {v : Value} {env : Env}
    (hv : C.Fine v) (henv : C.AllFine env.values) :
    Run.Under C due m (fun env' => C.AllFine (Env.values env') ∧
        ∃ bindings, pattern.Matches v bindings ∧ env' = env.extend bindings)
      (r.bindLet span pattern ty v env) (r'.bindLet span pattern ty v env) := by
  refine .bind (h.checkOptional hC ty hv span.line) fun _ _ => ?_
  refine .bind (.located (Run.destructure_under pattern hv) span.line) fun bindings hb => ?_
  exact .pure ⟨Env.extend_every henv hb.1, bindings, hb.2, rfl⟩

theorem evalBlock {tail : Option Expr} {stmts : List Stmt} {env : Env}
    (hblock : C.block m env tail stmts) (henv : C.AllFine env.values) :
    Run.Under C due m C.Fine (r.evalBlock tail stmts env) (r'.evalBlock tail stmts env) := by
  induction stmts generalizing env with
  | nil =>
    refine h.evalOr (fun e he => ?_) henv
    rw [he] at hblock
    exact hC.tail hblock
  | cons stmt rest ih =>
    cases stmt with
    | bind span pattern ty value =>
      obtain ⟨hvalue, hrest⟩ := hC.bind hblock
      refine .bind (h.eval hvalue henv) fun v hv => ?_
      refine .bind (h.bindLet hC span pattern ty hv.1 henv) fun env' henv' => ?_
      obtain ⟨hvalues, bindings, hmatches, rfl⟩ := henv'
      exact ih (hrest v bindings hv.2 hmatches) hvalues
    | expr e =>
      obtain ⟨he, hrest⟩ := hC.expr hblock
      exact .bind (h.eval he henv) fun _ _ => ih hrest henv

/-- The values of the parts are what the parts may give. -/
theorem evalOperands {e : Expr} (hfrom : e.isFromParts = true) {env : Env} (he : C.code m env e)
    (henv : C.AllFine env.values) :
    Run.Under C due m (fun vs => C.AllFine vs ∧ List.Forall₂ (C.gives m env) e.operands vs)
      (e.operands.mapM fun part => r.eval part env)
      (e.operands.mapM fun part => r'.eval part env) := by
  refine (Run.Under.mapM fun part hpart => h.eval (hC.parts he hfrom part hpart) henv).weaken
    fun vs hvs => ?_
  obtain ⟨hfine, hgiven⟩ := (List.forall₂_and_left vs e.operands).1 hvs.flip
  exact ⟨hfine, hgiven.flip⟩

theorem evalParts {e : Expr} (hfrom : e.isFromParts = true) {env : Env} (he : C.code m env e)
    (henv : C.AllFine env.values) :
    Run.Under C due m (fun v => C.Fine v ∧ C.gives m env e v) (r.evalParts e env)
      (r'.evalParts e env) :=
  .bind (h.evalOperands hC hfrom he henv) fun _ hvs => h.combineGiven hC hfrom he henv hvs.1 hvs.2

/-- Of other nodes than names and what is made from parts it does not matter what they give. -/
theorem evalOther {e : Expr} (hname : ∀ span n, e ≠ .name span n) (hfrom : e.isFromParts = false)
    {env : Env} (he : C.code m env e) (henv : C.AllFine env.values) :
    Run.Under C due m C.Fine (r.evalNode e env) (r'.evalNode e env) := by
  cases e with
  | literal span l => cases l <;> exact .pure (by simp [Value.ofLiteral])
  | name span n => exact absurd rfl (hname span n)
  | branch span test whenTrue whenFalse =>
    obtain ⟨htest, htrue, hfalse⟩ := hC.branch he
    refine .bind (h.eval htest henv) fun v _ => .bind (Run.truth_under _ v) fun b _ => ?_
    split
    · exact (h.eval htrue henv).weaken fun _ => And.left
    · exact h.evalOr hfalse henv
  | cases span scrutinee arms =>
    obtain ⟨hscrutinee, harms⟩ := hC.cases he
    refine .bind (h.eval hscrutinee henv) fun v hv => ?_
    exact .bind (h.selectArm hv.1 harms henv) fun taken htaken =>
      (h.eval htaken.1 htaken.2).weaken fun _ => And.left
  | block span stmts tail => exact h.evalBlock hC (hC.ofBlock he) henv
  | closure span decl =>
    refine .get_bind fun s _ hm => Run.newFunction_under (c := .closure decl env s.current) ?_ henv
    rw [hm]
    exact hC.ofClosure he
  | async span body =>
    exact .bind (Run.spawn_under (hC.async he) henv) fun _ _ =>
      .pure (Value.every_future.2 trivial)
  | await span future =>
    exact .bind (h.eval (hC.await he) henv) fun v _ => Run.awaitSettled_under v _
  | attempt span inner =>
    exact .bind (h.eval (hC.attempt he) henv) fun v hv => Run.attempt_under hv.1 _
  | binary span op lhs rhs =>
    have hop : op.isLogical = true := by simpa [Expr.isFromParts] using hfrom
    obtain ⟨hlhs, hrhs⟩ := hC.logical he hop
    rw [Recur.evalNode, Recur.evalNode, if_pos hop, if_pos hop]
    exact h.evalLogical op hlhs hrhs henv
  | _ => cases hfrom

theorem evalNode {e : Expr} {env : Env} (he : C.code m env e) (henv : C.AllFine env.values) :
    Run.Under C due m (fun v => C.Fine v ∧ C.gives m env e v) (r.evalNode e env)
      (r'.evalNode e env) := by
  cases hfrom : e.isFromParts with
  | true =>
    rw [Expr.evalNode_of_isFromParts hfrom, Expr.evalNode_of_isFromParts hfrom]
    exact h.evalParts hC hfrom he henv
  | false =>
    by_cases hname : ∃ span n, e = .name span n
    · obtain ⟨span, n, rfl⟩ := hname
      refine (Run.lookup_under n henv).also ?_
      rintro s t v hs rfl hv
      exact hC.name hs he hv
    · have hname' : ∀ span n, e ≠ .name span n := fun span n heq => hname ⟨span, n, heq⟩
      exact (h.evalOther hC hname' hfrom he henv).weaken fun v hv =>
        ⟨hv, hC.others hname' hfrom v⟩

end Recur.Obeys

end StreamLang
