import StreamLang.Interpreter.Expr
import StreamLang.Proofs.Lockstep.Scope
import StreamLang.Proofs.Lockstep.Stream

/-! Pairs of runs. A pairing says which states of two runs belong together, which code they may
evaluate and on which terms they keep step. It is lawful when the single changes that the evaluator
makes to a state keep step. -/

namespace StreamLang

/-- The code of a block holds: each statement in the scope of the names bound before it. -/
def BlockHolds (holds : List String → Expr → Prop) (tail : Option Expr) :
    List String → List Stmt → Prop
  | bound, [] => ∀ e, tail = some e → holds bound e
  | bound, .bind _ pattern _ e :: rest =>
    holds bound e ∧ BlockHolds holds tail (pattern.names ++ bound) rest
  | bound, .expr e :: rest => holds bound e ∧ BlockHolds holds tail bound rest

/-- The code that may be evaluated in a module, in the scope of the names bound around it. What
permitted code is made of is permitted too, and so are the functions it makes. -/
structure Regime (p : Permit) where
  expr : Nat → List String → Expr → Prop
  /-- Futures, tasks and services may be used. -/
  effects : Prop
  future : effects → p.future
  operands : ∀ {m bound e}, expr m bound e → ∀ part ∈ e.operands, expr m bound part
  methodName : ∀ {m bound span receiver name args},
    expr m bound (.method span receiver name args) → expr m bound (.name span name)
  branch : ∀ {m bound span test whenTrue whenFalse},
    expr m bound (.branch span test whenTrue whenFalse) →
      expr m bound test ∧ expr m bound whenTrue ∧ ∀ e, whenFalse = some e → expr m bound e
  cases : ∀ {m bound span scrutinee arms}, expr m bound (.cases span scrutinee arms) →
    expr m bound scrutinee ∧ ∀ arm ∈ arms,
      (∀ e, arm.guard = some e → expr m (arm.pattern.names ++ bound) e) ∧
        expr m (arm.pattern.names ++ bound) arm.body
  block : ∀ {m bound span stmts tail}, expr m bound (.block span stmts tail) →
    BlockHolds (expr m) tail bound stmts
  attempt : ∀ {m bound span inner}, expr m bound (.attempt span inner) → expr m bound inner
  async : ∀ {m bound span body}, expr m bound (.async span body) → effects ∧ expr m bound body
  await : ∀ {m bound span future}, expr m bound (.await span future) →
    effects ∧ expr m bound future
  closure : ∀ {m bound span decl}, expr m bound (.closure span decl) →
    ∀ env : Env, env.names = bound → p.closure decl env m
  enter : ∀ {m decl env}, p.closure decl env m → (decl.isAsync = true → effects) ∧
    expr m (decl.params.map Param.name ++ env.names) decl.body
  builtin : ∀ {b : Builtin}, p.builtin b → Purity.isHarmless b.effect = true ∨ effects

def Combinator.Permitted (p : Permit) : Combinator → Prop
  | onError _ handler => handler.Permitted p
  | onComplete _ handler => handler.Permitted p
  | andThen _ handler => handler.Permitted p
  | all _ values => AllPermitted p values
  | forward _ => True

structure Pairing (γ : Type) where
  terms : Terms
  regime : Regime terms.permit
  /-- Where the runs are: in a module, in calls so and so deep. -/
  Place : Type
  module : Place → Nat
  inModule : Place → Nat → Place
  deeper : Place → Place
  /-- States of the two runs, both at the place. -/
  state : Place → Interpreter γ → Interpreter γ → Prop
  /-- The two evaluators. -/
  recurs : Recur γ → Recur γ → Prop

variable {γ α : Type}

/-- Calls keep step when both runs remember the same. -/
theorem Recur.callClosure_agree {T : Terms} {R : Interpreter γ → Interpreter γ → Prop}
    {r r' : Recur γ} {decl : FunctionDecl} {env : Env} {module : Nat} {args : List Value}
    (hnumbered : ∀ {x y : Run γ Value}, Eval.Agree T R (Value.Permitted T.permit) x y →
      Eval.Agree T R (Value.Permitted T.permit) (Run.numbered x) (Run.numbered y))
    (hcall : Eval.Agree T R (Value.Permitted T.permit)
      (Run.inModule module (r.enterClosure decl env args))
      (Run.inModule module (r'.enterClosure decl env args)))
    (hkey : Eval.Agree T R (fun _ => True) (Run.memoKey? decl module args)
      (Run.memoKey? decl module args))
    (hfound : ∀ key, Eval.Agree T R (fun found => ∀ v, found = some v → v.Permitted T.permit)
      (Run.remembered? key) (Run.remembered? key))
    (hremember : ∀ key v, v.Permitted T.permit →
      Eval.Agree T R (fun _ => True) (Run.remember key v) (Run.remember key v)) :
    Eval.Agree T R (Value.Permitted T.permit) (r.callClosure decl env module args)
      (r'.callClosure decl env module args) := by
  refine hnumbered (.bind hkey fun key? _ => ?_)
  cases key? with
  | none => exact hcall
  | some key =>
    refine .bind (hfound key) fun found hfound => ?_
    cases found with
    | some v => exact .pure (hfound v rfl)
    | none => exact .bind hcall fun v hv => .bind (hremember key v hv) fun _ _ => .pure hv

namespace Pairing

/-- At the place, the two computations keep step and give the same value, which has the property. -/
abbrev Agree (L : Pairing γ) (m : L.Place) (P : α → Prop) (x y : Run γ α) : Prop :=
  Eval.Agree L.terms (L.state m) P x y

/-- The computation keeps step with itself. -/
abbrev Steady (L : Pairing γ) (m : L.Place) (P : α → Prop) (x : Run γ α) : Prop := L.Agree m P x x

abbrev Permits (L : Pairing γ) (v : Value) : Prop := v.Permitted L.terms.permit

abbrev PermitsAll (L : Pairing γ) (vs : List Value) : Prop := AllPermitted L.terms.permit vs

/-- At the place, the code may be evaluated, in the scope of the names. -/
abbrev Allows (L : Pairing γ) (m : L.Place) (bound : List String) (e : Expr) : Prop :=
  L.regime.expr (L.module m) bound e

/-- In paired states both runs are at the same place, and stay so when they move on together. -/
structure Aligned (L : Pairing γ) : Prop where
  module_inModule : ∀ m module, L.module (L.inModule m module) = module
  module_deeper : ∀ m, L.module (L.deeper m) = L.module m
  current : ∀ {m s t}, L.state m s t → s.current = L.module m ∧ t.current = L.module m
  depth : ∀ {m s t}, L.state m s t → t.depth = s.depth
  line : ∀ {m s t}, L.state m s t → L.terms.SameLine s.line t.line
  identity : ∀ {m s t}, L.state m s t → t.nextIdentity = s.nextIdentity
  enterModule : ∀ {m s t}, L.state m s t → ∀ module,
    L.state (L.inModule m module) { s with current := module } { t with current := module }
  leaveModule : ∀ {m module s t}, L.state (L.inModule m module) s t →
    L.state m { s with current := L.module m } { t with current := L.module m }
  /-- One call deeper, from a place where there is room for one more. -/
  enterCall : ∀ {m s t s' t'}, L.state m s t → s.depth < s.options.maxCallDepth →
    L.state m s' t' →
    L.state (L.deeper m) { s' with depth := s'.depth + 1 } { t' with depth := t'.depth + 1 }
  leaveCall : ∀ {m s t}, L.state (L.deeper m) s t →
    L.state m { s with depth := s.depth - 1 } { t with depth := t.depth - 1 }
  setLine : ∀ {m s t}, L.state m s t → ∀ line, L.state m { s with line } { t with line }
  setIdentity : ∀ {m s t}, L.state m s t → ∀ nextIdentity,
    L.state m { s with nextIdentity } { t with nextIdentity }

namespace Aligned

variable {L : Pairing γ} (hL : L.Aligned) {m : L.Place}
include hL

theorem setLine_steady (line : Nat) :
    L.Steady m (fun _ => True) (modify fun s => { s with line } : Run γ PUnit) :=
  .modify fun _ _ hs => hL.setLine hs line

theorem fresh : L.Steady m (fun _ => True) Run.freshIdentity := by
  refine .modifyGet fun s t hs => ?_
  rw [hL.identity hs]
  exact ⟨rfl, trivial, hL.setIdentity hs _⟩

theorem newFunction {c : Callable} (hc : c.Admitted L.terms.permit)
    (hvalues : L.PermitsAll c.values) : L.Steady m L.Permits (Run.newFunction c) :=
  .bind hL.fresh fun _ _ => .pure (Value.permitted_function.2 ⟨hc, hvalues⟩)

theorem newStream {p : Pipeline} (hp : L.PermitsAll p.values) :
    L.Steady m L.Permits (Run.newStream p) :=
  .bind hL.fresh fun _ _ => .pure (Value.permitted_stream.2 hp)

theorem inModule {module : Nat} {V : α → α → Prop} {x y : Run γ α}
    (h : Eval.Lockstep L.terms (L.state (L.inModule m module)) V x y) :
    Eval.Lockstep L.terms (L.state m) V (Run.inModule module x) (Run.inModule module y) := by
  intro s t hs
  obtain ⟨hm, hm'⟩ := hL.current hs
  refine Eval.Lockstep.restoring h (fun s' t' hs' => ?_) (hL.enterModule hs module)
  rw [hm, hm']
  exact hL.leaveModule hs'

/-- There is room for the call in some states at the place, and so in all of them. -/
theorem deeper {P : α → Prop} {x y : Run γ α} {s t : Interpreter γ} (hs : L.state m s t)
    (hroom : s.depth < s.options.maxCallDepth) (h : L.Agree (L.deeper m) P x y) :
    L.Agree m P (Run.deeper x) (Run.deeper y) := by
  intro s' t' hs'
  have henter := hL.enterCall hs hroom hs'
  exact Eval.Lockstep.restoring h (fun _ _ hs'' => hL.leaveCall hs'') henter

theorem numbered {P : α → Prop} {x y : Run γ α} (h : L.Agree m P x y) :
    L.Agree m P (Run.numbered x) (Run.numbered y) := by
  intro s t hs
  have henter : L.state m { s with nextIdentity := s.nextIdentity.inner }
      { t with nextIdentity := t.nextIdentity.inner } := by
    rw [hL.identity hs]
    exact hL.setIdentity hs _
  refine Eval.Lockstep.restoring h (fun s' t' hs' => ?_) henter
  rw [hL.identity hs]
  exact hL.setIdentity hs' _

theorem callClosure_of_memo {r r' : Recur γ} {decl : FunctionDecl} {env : Env} {module : Nat}
    {args : List Value}
    (henter : L.Agree (L.inModule m module) L.Permits (r.enterClosure decl env args)
      (r'.enterClosure decl env args))
    (hkey : L.Steady m (fun _ => True) (Run.memoKey? decl module args))
    (hfound : ∀ key, L.Steady m (fun found => ∀ v, found = some v → L.Permits v)
      (Run.remembered? key))
    (hremember : ∀ key v, L.Permits v → L.Steady m (fun _ => True) (Run.remember key v)) :
    L.Agree m L.Permits (r.callClosure decl env module args)
      (r'.callClosure decl env module args) :=
  Recur.callClosure_agree hL.numbered (hL.inModule henter) hkey hfound hremember

end Aligned

/-- The single changes that the evaluator makes to a state keep step. -/
structure Lawful [Gateway γ] (L : Pairing γ) : Prop extends L.Aligned where
  ofFuel : ∀ {n n'}, L.terms.Bounds n n' → L.recurs (Recur.ofFuel n) (Recur.ofFuel n')
  limit : ∀ {m s t}, L.state m s t → t.options.maxCallDepth = s.options.maxCallDepth
  schemas : ∀ {m s t}, L.state m s t → t.schemas = s.schemas
  predicate : ∀ {m s t name schema p}, L.state m s t → s.schemas.typeAlias? name = some schema →
    schema.predicate = some p → L.Allows m ["value"] p
  futures : ∀ {m s t}, L.state m s t →
    L.terms.SameFutures s.scheduler.futures t.scheduler.futures
  lookup : ∀ {m span name} {env : Env}, L.Allows m env.names (.name span name) →
    L.PermitsAll env.values → L.Steady m L.Permits (Run.lookup name env)
  writeLog : ∀ {m} line, L.Steady m (fun _ => True) (Run.writeLog line)
  countEvaluation : ∀ {m} name, L.Steady m (fun _ => True) (Run.countEvaluation name)
  markObserved : L.terms.permit.future → ∀ {m} id,
    L.Steady m (fun _ => True) (Run.markObserved id)
  settledFuture : L.regime.effects → ∀ {m state state'}, L.terms.SameState state state' →
    state.isPending = false →
    L.Agree m L.Permits (Run.settledFuture state) (Run.settledFuture state')
  spawn : L.regime.effects → ∀ {m body} {env : Env}, L.Allows m env.names body →
    L.PermitsAll env.values → L.Steady m (fun _ => True) (Run.spawn body env)
  spawnCombinator : L.regime.effects → ∀ {m c}, c.Permitted L.terms.permit →
    L.Steady m (fun _ => True) (Run.spawnCombinator c)
  dispatch : L.regime.effects → ∀ {m op} args, L.Steady m (fun _ => True) (Run.dispatch op args)
  /-- A call may be remembered. -/
  callClosure : ∀ {m r r' decl env module args}, L.recurs r r' →
    L.terms.permit.closure decl env module → L.PermitsAll env.values → L.PermitsAll args →
    args.length = decl.arity →
    L.Agree (L.inModule m module) L.Permits (r.enterClosure decl env args)
      (r'.enterClosure decl env args) →
    L.Agree m L.Permits (r.callClosure decl env module args) (r'.callClosure decl env module args)

end Pairing

end StreamLang
