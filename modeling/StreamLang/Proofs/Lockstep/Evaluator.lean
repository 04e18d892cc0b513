import StreamLang.Proofs.Lockstep.Scene

/-! Evaluation keeps step. In a lawful scene, permitted code among permitted values ends alike in
both runs, as long as calls do. In a lawful pairing the calls of permitted functions do so too, and
with that all of evaluation, with any bounds. -/

namespace StreamLang

variable {γ : Type} [Gateway γ]

namespace Recur.InStep

variable {S : Scene γ} {r r' : Recur γ} (hS : S.Lawful) (h : r.InStep S r')
include hS h

theorem callMethod {span : Span} {name : String} {receiver : Value} {args : List Value} {env : Env}
    (hname : S.code env.names (.name span name)) (hreceiver : S.Permits receiver)
    (hargs : S.PermitsAll args) (henv : S.PermitsAll env.values) :
    S.Agree S.Permits (r.callMethod name receiver args env)
      (r'.callMethod name receiver args env) := by
  have hlookup : S.Agree S.Permits
      (Run.lookup name env >>= fun f => r.call f (receiver :: args))
      (Run.lookup name env >>= fun f => r'.call f (receiver :: args)) :=
    .bind (hS.lookup hname henv) fun f hf => h.call f _ hf (.cons hreceiver hargs)
  cases receiver with
  | record record fields =>
    unfold Recur.callMethod
    dsimp only
    split
    · rename_i id c hfield
      have hpermitted := Value.fieldOf?_permitted (Value.permitted_record.1 hreceiver) name
      exact h.call _ args (hpermitted _ hfield) hargs
    · exact hlookup
  | _ => exact hlookup

omit h in
theorem buildVariant (enum variant : String) {args : List Value} (hargs : S.PermitsAll args) :
    S.Steady S.Permits (Run.buildVariant enum variant args) := by
  refine .get_bind fun s t hs => ?_
  rw [hS.schemas hs]
  dsimp only
  split
  · exact .pure (Value.permitted_enum.2 (Run.variantPayload_permitted hargs))
  · exact .fail _

theorem combine {e : Expr} {env : Env} (he : S.code env.names e)
    (henv : S.PermitsAll env.values) {vs : List Value} (hvs : S.PermitsAll vs) :
    S.Agree S.Permits (r.combine e env vs) (r'.combine e env vs) := by
  have hzip : ∀ (fields : List FieldInit) {ws : List Value}, S.PermitsAll ws →
      ∀ g ∈ fields.zip ws, S.Permits g.2 :=
    fun _ _ hws g hg => hws g.2 (List.of_mem_zip hg).2
  unfold Recur.combine
  split
  · exact .pure (Value.permitted_list.2 hvs)
  · exact .pure (Value.permitted_tuple.2 hvs)
  · refine .pure (Value.permitted_map.2 (Keyed.forall_foldl_insert (List.forall_mem_nil _) ?_))
    exact fun entry hentry => hvs entry.2 (List.of_mem_zip hentry).2
  · exact h.buildRecord hS _ (hzip _ hvs)
  · exact buildVariant hS _ _ hvs
  · obtain ⟨htarget, hrest⟩ := List.forall_mem_cons.1 hvs
    exact h.update hS htarget (hzip _ hrest)
  · exact .ofExcept (Value.select_permitted (hvs _ (.head _)) _)
  · exact .ofExcept (Value.index_permitted (hvs _ (.head _)) _)
  · obtain ⟨hcallee, hargs⟩ := List.forall_mem_cons.1 hvs
    exact .bind (hS.setLine _) fun _ _ => h.call _ _ hcallee hargs
  · obtain ⟨hreceiver, hargs⟩ := List.forall_mem_cons.1 hvs
    have hname := hS.methodName he
    exact .bind (hS.setLine _) fun _ _ => h.callMethod hS hname hreceiver hargs henv
  · exact .ofExcept (BinaryOp.apply_permitted _ _ _)
  · exact .ofExcept (UnaryOp.apply_permitted _ _)
  · exact .fail _

theorem bindLet (span : Span) (pattern : Pattern) (ty : Option TypeExpr) {v : Value} {env : Env}
    (hv : S.Permits v) (henv : S.PermitsAll env.values) :
    S.Agree (fun env' : Env =>
        env'.names = pattern.names ++ env.names ∧ S.PermitsAll env'.values)
      (r.bindLet span pattern ty v env) (r'.bindLet span pattern ty v env) := by
  refine .bind (h.checkOptional hS ty hv (.refl span.line)) fun _ _ => ?_
  refine .bind (.located (hS.destructure pattern hv) (.refl span.line)) fun bindings hbindings => ?_
  refine .pure ⟨?_, ?_⟩
  · rw [Env.names_extend, hbindings.1]
  · exact Env.extend_permitted henv hbindings.2

omit hS

omit [Gateway γ] in
theorem evalOr {e : Option Expr} {env : Env}
    (he : ∀ e', e = some e' → S.code env.names e') (henv : S.PermitsAll env.values) :
    S.Agree S.Permits (r.evalOr e env) (r'.evalOr e env) := by
  cases e with
  | none => exact .pure Value.permitted_void
  | some e => exact h.eval (he e rfl) henv

omit [Gateway γ] in
theorem guardHolds {guard : Option Expr} {env : Env}
    (hguard : ∀ e, guard = some e → S.code env.names e)
    (henv : S.PermitsAll env.values) :
    S.Agree (fun _ => True) (r.guardHolds guard env) (r'.guardHolds guard env) := by
  cases guard with
  | none => exact .pure trivial
  | some e => exact .bind (h.eval (hguard e rfl) henv) fun _ _ => Run.truth_agree _ _

omit [Gateway γ] in
theorem evalLogical (op : BinaryOp) {lhs rhs : Expr} {env : Env}
    (hlhs : S.code env.names lhs) (hrhs : S.code env.names rhs)
    (henv : S.PermitsAll env.values) :
    S.Agree S.Permits (r.evalLogical op lhs rhs env) (r'.evalLogical op lhs rhs env) := by
  refine .bind (h.eval hlhs henv) fun v _ => .bind (Run.truth_agree _ v) fun a _ => ?_
  split
  · exact .pure (Value.permitted_bool a)
  · refine .bind (h.eval hrhs henv) fun w _ => .bind (Run.truth_agree _ w) fun b _ => ?_
    exact .pure (Value.permitted_bool b)

include hS

theorem evalBlock {tail : Option Expr} {stmts : List Stmt} {env : Env}
    (hblock : BlockHolds (S.code) tail env.names stmts) (henv : S.PermitsAll env.values) :
    S.Agree S.Permits (r.evalBlock tail stmts env) (r'.evalBlock tail stmts env) := by
  induction stmts generalizing env with
  | nil => exact h.evalOr hblock henv
  | cons stmt rest ih =>
    cases stmt with
    | bind span pattern ty value =>
      refine .bind (h.eval hblock.1 henv) fun v hv => ?_
      refine .bind (h.bindLet hS span pattern ty hv henv) fun env' henv' => ih ?_ henv'.2
      rw [henv'.1]
      exact hblock.2
    | expr e => exact .bind (h.eval hblock.1 henv) fun _ _ => ih hblock.2 henv

/-- The arm that is taken is permitted in the scope it is taken in. -/
theorem firstArm {v : Value} {env : Env} {arms : List MatchArm} (hv : S.Permits v)
    (harms : ∀ arm ∈ arms,
      (∀ e, arm.guard = some e → S.code (arm.pattern.names ++ env.names) e) ∧
        S.code (arm.pattern.names ++ env.names) arm.body)
    (henv : S.PermitsAll env.values) :
    S.Agree
      (fun taken => S.code (Env.names taken.2) taken.1 ∧
        S.PermitsAll (Env.values taken.2))
      (r.firstArm v env arms) (r'.firstArm v env arms) := by
  induction arms with
  | nil => exact .fail _
  | cons arm rest ih =>
    obtain ⟨⟨hguard, hbody⟩, hrest⟩ := List.forall_mem_cons.1 harms
    refine .get_bind fun s t hs => ?_
    have hmatch := arm.pattern.bindings?_same (hS.futures hs) v hv
    rw [hmatch.same]
    cases hb : arm.pattern.bindings? s.scheduler.futures v with
    | none => exact ih hrest
    | some bindings =>
      have hnames : (env.extend bindings).names = arm.pattern.names ++ env.names := by
        rw [Env.names_extend, hmatch.names _ hb]
      have hvalues := Env.extend_permitted henv (hmatch.permitted _ hb)
      rw [← hnames] at hguard hbody
      refine .bind (h.guardHolds hguard hvalues) fun holds _ => ?_
      cases holds with
      | true => exact .pure ⟨hbody, hvalues⟩
      | false => exact ih hrest

theorem selectArm {v : Value} {env : Env} {arms : List MatchArm} (hv : S.Permits v)
    (harms : ∀ arm ∈ arms,
      (∀ e, arm.guard = some e → S.code (arm.pattern.names ++ env.names) e) ∧
        S.code (arm.pattern.names ++ env.names) arm.body)
    (henv : S.PermitsAll env.values) :
    S.Agree
      (fun taken => S.code (Env.names taken.2) taken.1 ∧
        S.PermitsAll (Env.values taken.2))
      (r.selectArm v env arms) (r'.selectArm v env arms) := by
  have hfirst := h.firstArm hS hv harms henv
  cases v with
  | future id =>
    exact .bind (hS.markObserved (Value.permitted_future.1 hv) id) fun _ _ => hfirst
  | _ => exact hfirst

theorem evalParts {e : Expr} {env : Env} (he : S.code env.names e)
    (henv : S.PermitsAll env.values) :
    S.Agree S.Permits (r.evalParts e env) (r'.evalParts e env) :=
  .bind (.mapM fun part hpart => h.eval (hS.operands he part hpart) henv) fun _ hvs =>
    h.combine hS he henv hvs

omit h in
theorem awaitSettled (hfuture : S.terms.permit.future) {v : Value} (line : Nat) :
    S.Steady S.Permits (Run.awaitSettled (γ := γ) v line) := by
  cases v with
  | future id =>
    refine Eval.Lockstep.bind (hS.observe hfuture id) fun a b hab => ?_
    cases hab with
    | none => exact .failAt _ (.refl line)
    | some hstate => cases hstate with
      | pending => exact .fail _
      | resolved hv => exact Eval.Agree.pure hv
      | failed he hline =>
        refine .failAt _ fun hT => ?_
        rw [hline hT]
  | _ => exact .fail _

theorem evalNode {e : Expr} {env : Env} (he : S.code env.names e)
    (henv : S.PermitsAll env.values) :
    S.Agree S.Permits (r.evalNode e env) (r'.evalNode e env) := by
  cases e with
  | literal span l => cases l <;> exact .pure (by simp [Value.ofLiteral])
  | name span n => exact hS.lookup he henv
  | branch span test whenTrue whenFalse =>
    obtain ⟨htest, htrue, hfalse⟩ := hS.branch he
    refine .bind (h.eval htest henv) fun v _ => .bind (Run.truth_agree _ v) fun b _ => ?_
    split
    · exact h.eval htrue henv
    · exact h.evalOr hfalse henv
  | cases span scrutinee arms =>
    obtain ⟨hscrutinee, harms⟩ := hS.cases he
    refine .bind (h.eval hscrutinee henv) fun v hv => ?_
    exact .bind (h.selectArm hS hv harms henv) fun taken htaken => h.eval htaken.1 htaken.2
  | block span stmts tail => exact h.evalBlock hS (hS.block he) henv
  | closure span decl => exact hS.closure he henv
  | async span body =>
    refine .bind (hS.spawn he henv) fun id _ => .pure ?_
    exact Value.permitted_future.2 (hS.future (hS.async he))
  | await span future =>
    obtain ⟨heffects, hfuture⟩ := hS.await he
    exact .bind (h.eval hfuture henv) fun _ _ =>
      awaitSettled hS (hS.future heffects) span.line
  | attempt span inner =>
    exact .bind (h.eval (hS.attempt he) henv) fun v hv => Run.attempt_agree hv _
  | binary span op lhs rhs =>
    rw [Recur.evalNode, Recur.evalNode]
    have hparts := hS.operands he
    split
    · exact h.evalLogical op (hparts lhs (.head _)) (hparts rhs (.tail _ (.head _))) henv
    · exact h.evalParts hS he henv
  | _ => exact h.evalParts hS he henv

end Recur.InStep

/-- Where the two runs of a pairing are at a place. -/
abbrev Pairing.scene (L : Pairing γ) (m : L.Place) : Scene γ where
  terms := L.terms
  state := L.state m
  code := L.regime.expr (L.module m)
  effects := L.regime.effects

theorem Pairing.Lawful.scene {L : Pairing γ} (hL : L.Lawful) {m : L.Place} :
    (L.scene m).Lawful where
  future := L.regime.future
  builtin := L.regime.builtin
  operands := L.regime.operands
  methodName := L.regime.methodName
  branch := L.regime.branch
  cases := L.regime.cases
  block := L.regime.block
  attempt := L.regime.attempt
  async he := (L.regime.async he).1
  await := L.regime.await
  line := hL.line
  schemas := hL.schemas
  predicate := hL.predicate
  futures := hL.futures
  lookup := hL.lookup
  setLine := hL.setLine_steady
  newFunction := hL.newFunction
  newStream := hL.newStream
  closure he henv := by
    refine .get_bind fun s t hs => ?_
    obtain ⟨hm, hm'⟩ := hL.current hs
    rw [hm, hm']
    exact hL.newFunction (L.regime.closure he _ rfl) henv
  spawn he henv := hL.spawn (L.regime.async he).1 (L.regime.async he).2 henv
  writeLog := hL.writeLog
  markObserved hfuture := hL.markObserved hfuture
  settledFuture heffects := hL.settledFuture heffects
  spawnCombinator heffects := hL.spawnCombinator heffects
  dispatch heffects _ args := hL.dispatch heffects args

/-- Evaluation and calls of one step less keep step. -/
structure Recur.Lockstep (L : Pairing γ) (r r' : Recur γ) : Prop where
  bounds : L.terms.Bounds r.fuel r'.fuel
  recurs : L.recurs r r'
  eval : ∀ {m e} {env : Env}, L.Allows m env.names e → L.PermitsAll env.values →
    L.Agree m L.Permits (r.eval e env) (r'.eval e env)
  call : ∀ {m}, r.call.Lockstep L.terms (L.state m) r'.call

namespace Recur.Lockstep

variable {L : Pairing γ} {r r' : Recur γ} {m : L.Place}

omit [Gateway γ] in
theorem inStep (h : r.Lockstep L r') (m : L.Place) : r.InStep (L.scene m) r' :=
  ⟨h.bounds, h.eval, h.call⟩

variable (hL : L.Lawful) (h : r.Lockstep L r')
include hL h

theorem runBody {decl : FunctionDecl} {env : Env} (hbody : L.Allows m env.names decl.body)
    (henv : L.PermitsAll env.values) :
    L.Agree m L.Permits (r.runBody decl env) (r'.runBody decl env) := by
  have hbody' : L.Allows (L.deeper m) env.names decl.body := by
    rw [Pairing.Allows, hL.module_deeper]
    exact hbody
  refine .get_bind fun s t hs => ?_
  rw [hL.depth hs, hL.limit hs]
  split
  case isTrue => exact .fail _
  case isFalse hroom =>
    have hrest : L.Agree m L.Permits
        (do
          let v ← (Run.deeper (r.eval decl.body env)).catchEarly
          r.checkOptional decl.ret v decl.span.line
          return v)
        (do
          let v ← (Run.deeper (r'.eval decl.body env)).catchEarly
          r'.checkOptional decl.ret v decl.span.line
          return v) := by
      have hdeeper := hL.deeper hs (Nat.lt_of_not_le hroom) (h.eval hbody' henv)
      refine .bind (.catchEarly hdeeper) fun v hv => ?_
      exact .bind ((h.inStep m).checkOptional hL.scene decl.ret hv (.refl _)) fun _ _ => .pure hv
    cases decl.name with
    | none => exact hrest
    | some name => exact .bind (hL.countEvaluation name) fun _ _ => hrest

theorem enterClosure {decl : FunctionDecl} {env : Env} {args : List Value}
    (hdecl : L.terms.permit.closure decl env (L.module m)) (henv : L.PermitsAll env.values)
    (hlen : args.length = decl.arity) (hargs : L.PermitsAll args) :
    L.Agree m L.Permits (r.enterClosure decl env args) (r'.enterClosure decl env args) := by
  obtain ⟨hasync, hbody⟩ := L.regime.enter hdecl
  refine .bind ((h.inStep m).bindParams hL.scene hlen hargs) fun bindings hbindings => ?_
  have hvalues := Env.extend_permitted henv hbindings.2
  rw [← hbindings.1, ← Env.names_extend] at hbody
  cases hdeclAsync : decl.isAsync with
  | true =>
    have heffects := hasync hdeclAsync
    refine .bind (hL.spawn heffects hbody hvalues) fun id _ => .pure ?_
    exact Value.permitted_future.2 (L.regime.future heffects)
  | false => exact h.runBody hL hbody hvalues

theorem callClosure {decl : FunctionDecl} {env : Env} {module : Nat} {args : List Value}
    (hdecl : L.terms.permit.closure decl env module) (henv : L.PermitsAll env.values)
    (hlen : args.length = decl.arity) (hargs : L.PermitsAll args) :
    L.Agree m L.Permits (r.callClosure decl env module args)
      (r'.callClosure decl env module args) := by
  have hdecl' : L.terms.permit.closure decl env (L.module (L.inModule m module)) := by
    rwa [hL.module_inModule]
  have henter := h.enterClosure hL hdecl' henv hlen hargs
  exact hL.callClosure h.recurs hdecl henv hargs hlen henter

theorem callValue : Host.Lockstep L.terms (L.state m) r.callValue r'.callValue :=
  (h.inStep m).callValue hL.scene fun hdecl henv hargs hlen =>
    h.callClosure hL hdecl henv hlen hargs

end Recur.Lockstep

/-- With any bounds, permitted code and permitted functions keep step. -/
theorem Recur.ofFuel_lockstep {L : Pairing γ} (hL : L.Lawful) {n n' : Nat}
    (hbounds : L.terms.Bounds n n') : (ofFuel n).Lockstep L (ofFuel n') := by
  induction n generalizing n' with
  | zero =>
    refine ⟨hbounds, hL.ofFuel hbounds, fun {m e env} _ _ => ?_, fun {m} f args _ _ => ?_⟩
    · exact .exhausted (y := fun n => evalWithin n e env) rfl hbounds
    · exact .exhausted (y := fun n => callWithin n f args) rfl hbounds
  | succ n ih =>
    obtain ⟨k, rfl, hbelow⟩ := hbounds.step
    have h := ih hbelow
    refine ⟨hbounds, hL.ofFuel hbounds, fun {m e env} he henv => ?_, h.callValue hL⟩
    exact .located ((h.inStep m).evalNode hL.scene he henv) (.refl e.line)

end StreamLang
