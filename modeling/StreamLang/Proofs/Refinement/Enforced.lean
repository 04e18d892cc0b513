import Mathlib.Logic.Relation
import StreamLang.Execution
import StreamLang.Gateway.Stock
import StreamLang.Proofs.Keeps
import StreamLang.Proofs.Running

/-! The places where a value is bound under a written type, and what a refinement means there: when
the computation goes on, every predicate of the chain was evaluated on the value and gave true, and
a value on which one gives anything else ends in the failure of the refinement. The result of an
async function is no such place. -/

namespace StreamLang

open Eval (bind_of_ok bind_of_error bind_eq_ok)

variable {γ : Type}

def Interpreter.predicate? (s : Interpreter γ) (name : String) : Option Expr :=
  (s.schemas.typeAlias? name).bind AliasSchema.predicate

namespace Recur

variable {r : Recur γ} {α : Type}

/-- From the state on, the predicates of the chain are evaluated on the value, the outermost first,
and each of them gives true. -/
def Upholds (r : Recur γ) (v : Value) : Ty → Interpreter γ → Prop
  | .refined name base, s =>
    match s.predicate? name with
    | none => Upholds r v base s
    | some p => ∃ s₁, r.eval p (Env.empty.bind "value" v) s = .ok (.bool true) s₁ ∧
      Upholds r v base s₁
  | _, _ => True

/-- The predicate of the alias `n`, which is in the chain, is the first to give something else than
true; that is in `s'`. -/
def Violates (r : Recur γ) (v : Value) (n : String) (s' : Interpreter γ) :
    Ty → Interpreter γ → Prop
  | .refined name base, s =>
    match s.predicate? name with
    | none => Violates r v n s' base s
    | some p =>
      n = name ∧ (∃ w, w ≠ .bool true ∧ r.eval p (Env.empty.bind "value" v) s = .ok w s') ∨
      ∃ s₁, r.eval p (Env.empty.bind "value" v) s = .ok (.bool true) s₁ ∧
        Violates r v n s' base s₁
  | _, _ => False

/-- What the chain of `t` means for a computation that binds `v` under it in `s`. -/
structure Enforced (r : Recur γ) (v : Value) (t : Ty) (line : Nat) (s : Interpreter γ)
    (out : EStateM.Result Unwind (Interpreter γ) α) : Prop where
  upheld : ∀ a s', out = .ok a s' → r.Upholds v t s
  refused : ∀ n s', r.Violates v n s' t s → out = .error (.fail (.refinementViolated v n) line) s'

section

variable {v : Value} {name : String} {line : Nat} {s s' : Interpreter γ}

theorem checkPredicate_of_none (h : s.predicate? name = none) :
    r.checkPredicate name v line s = .ok ⟨⟩ s := by
  show (match s.predicate? name with | none => _ | some p => _ : Run γ Unit) s = _
  rw [h]
  rfl

theorem checkPredicate_of_true {p : Expr} (h : s.predicate? name = some p)
    (hv : r.eval p (Env.empty.bind "value" v) s = .ok (.bool true) s') :
    r.checkPredicate name v line s = .ok ⟨⟩ s' := by
  show (match s.predicate? name with | none => _ | some p => _ : Run γ Unit) s = _
  rw [h]
  have hlocated : (r.eval p (Env.empty.bind "value" v)).located line s = .ok (.bool true) s' := by
    rw [Eval.located, hv]
  exact (bind_of_ok hlocated).trans rfl

theorem checkPredicate_of_ne_true {p : Expr} {w : Value} (h : s.predicate? name = some p)
    (hv : r.eval p (Env.empty.bind "value" v) s = .ok w s') (hw : w ≠ .bool true) :
    r.checkPredicate name v line s = .error (.fail (.refinementViolated v name) line) s' := by
  show (match s.predicate? name with | none => _ | some p => _ : Run γ Unit) s = _
  rw [h]
  have hlocated : (r.eval p (Env.empty.bind "value" v)).located line s = .ok w s' := by
    rw [Eval.located, hv]
  refine (bind_of_ok hlocated).trans ?_
  split
  · exact absurd rfl hw
  · rfl

theorem checkPredicate_of_error {p : Expr} {u : Unwind} (h : s.predicate? name = some p)
    (hv : r.eval p (Env.empty.bind "value" v) s = .error u s') :
    r.checkPredicate name v line s = .error (u.locate line) s' := by
  show (match s.predicate? name with | none => _ | some p => _ : Run γ Unit) s = _
  rw [h]
  refine bind_of_error ?_
  rw [Eval.located, hv]

/-- A check that succeeds has found the chain upheld. -/
theorem upholds_of_checkRefinements (t : Ty) (s : Interpreter γ)
    (h : r.checkRefinements line t v s = .ok ⟨⟩ s') : r.Upholds v t s := by
  cases t with
  | refined name base =>
    obtain ⟨⟨⟩, s₁, hp, hbase⟩ := bind_eq_ok h
    rw [Upholds]
    cases hpred : s.predicate? name with
    | none =>
      rw [checkPredicate_of_none hpred] at hp
      cases hp
      exact upholds_of_checkRefinements base s hbase
    | some p =>
      cases hv : r.eval p (Env.empty.bind "value" v) s with
      | error u s₂ =>
        rw [checkPredicate_of_error hpred hv] at hp
        cases hp
      | ok w s₂ =>
        by_cases hw : w = .bool true
        · subst hw
          rw [checkPredicate_of_true hpred hv] at hp
          cases hp
          exact ⟨s₁, hv, upholds_of_checkRefinements base s₁ hbase⟩
        · rw [checkPredicate_of_ne_true hpred hv hw] at hp
          cases hp
  | _ => trivial
termination_by structural t

/-- A violation of the chain ends the check. -/
theorem checkRefinements_of_violates {n : String} (t : Ty) (s : Interpreter γ)
    (h : r.Violates v n s' t s) :
    r.checkRefinements line t v s = .error (.fail (.refinementViolated v n) line) s' := by
  cases t with
  | refined name base =>
    rw [Violates] at h
    rw [checkRefinements]
    cases hpred : s.predicate? name with
    | none =>
      rw [hpred] at h
      exact (bind_of_ok (checkPredicate_of_none hpred)).trans (checkRefinements_of_violates base s h)
    | some p =>
      rw [hpred] at h
      obtain ⟨rfl, w, hw, hv⟩ | ⟨s₁, hv, hbase⟩ := h
      · exact bind_of_error (checkPredicate_of_ne_true hpred hv hw)
      · exact (bind_of_ok (checkPredicate_of_true hpred hv)).trans
          (checkRefinements_of_violates base s₁ hbase)
  | _ => cases h
termination_by structural t

theorem enforced_checkRefinements (t : Ty) :
    r.Enforced v t line s (r.checkRefinements line t v s) where
  upheld := fun _ _ h => upholds_of_checkRefinements t s h
  refused := fun _ _ h => checkRefinements_of_violates t s h

theorem enforced_checkOptional {ty : TypeExpr} {t : Ty} (h : s.schemas.resolve ty = .ok t) :
    r.Enforced v t line s (r.checkOptional (some ty) v line s) := by
  have heq : r.checkOptional (some ty) v line s = r.checkRefinements line t v s := by
    refine (bind_of_ok (x := get) (a := s) rfl).trans ?_
    rw [h]
  rw [heq]
  exact enforced_checkRefinements t

namespace Enforced

variable {t : Ty} {β : Type} {x : Run γ α} {s₁ s₂ : Interpreter γ}

theorem bind {k : α → Run γ β} (h : r.Enforced v t line s₁ (x s)) :
    r.Enforced v t line s₁ ((x >>= k) s) where
  upheld := fun b s' hb => by
    obtain ⟨a, s₂, ha, -⟩ := bind_eq_ok hb
    exact h.upheld a s₂ ha
  refused := fun n s' hn => bind_of_error (h.refused n s' hn)

/-- What comes before does not matter. -/
theorem after {k : α → Run γ β} {a : α} (hx : x s = .ok a s₂)
    (h : r.Enforced v t line s₁ (k a s₂)) : r.Enforced v t line s₁ ((x >>= k) s) := by
  rw [bind_of_ok hx]
  exact h

theorem atTop (h : r.Enforced v t line s₁ (x s)) :
    r.Enforced v t line s₁ (Run.atTop line x s) where
  upheld := fun a s' ha => by
    cases hx : x s with
    | ok b s₂ => exact h.upheld b s₂ hx
    | error u s₂ =>
      rw [Run.atTop, Eval.located, hx] at ha
      cases u with
      | fail fault inner => cases inner <;> cases ha
      | early w inner => cases ha
      | exhausted => cases ha
  refused := fun n s' hn => by
    rw [Run.atTop, Eval.located, h.refused n s' hn]
    cases line <;> rfl

end Enforced

/-- The parameters before are bound, and then this one is checked. -/
theorem enforced_bindParams {p : Param} {ty : TypeExpr} {t : Ty} {s₁ : Interpreter γ}
    (hp : p.ty = some ty) (ht : s₁.schemas.resolve ty = .ok t) (ps' : List Param)
    (vs' : List Value) : ∀ (ps : List Param) (vs : List Value) (s : Interpreter γ)
    (bindings : List (String × Value)), vs.length = ps.length →
    r.bindParams ps vs s = .ok bindings s₁ →
    r.Enforced v t (if s₁.line = 0 then p.span.line else s₁.line) s₁
      (r.bindParams (ps ++ p :: ps') (vs ++ v :: vs') s)
  | [], [], s, _, _, h => by
    cases h
    refine .after (a := s₁) rfl (.bind ?_)
    rw [hp]
    exact enforced_checkOptional ht
  | q :: ps, w :: vs, s, _, hlength, h => by
    obtain ⟨⟨⟩, s₂, hcheck, h⟩ := bind_eq_ok (x := r.checkOptional q.ty w _) h
    obtain ⟨bindings, s₃, hbefore, h⟩ := bind_eq_ok h
    cases h
    exact .after (a := s) rfl (.after (x := r.checkOptional q.ty w _) hcheck (.bind
      (enforced_bindParams hp ht ps' vs' ps vs s₂ bindings (Nat.succ.inj hlength) hbefore)))

theorem enforced_declaredFields {name field : String} {given : List (FieldInit × Value)}
    {g : FieldInit × Value} {t : Ty} {s₁ : Interpreter γ}
    (hg : given.find? (·.1.name == field) = some g) (fields' : List (String × Ty)) :
    ∀ (fields : List (String × Ty)) (s : Interpreter γ) (done : List (String × Value)),
      r.declaredFields name given fields s = .ok done s₁ →
      r.Enforced g.2 t g.1.span.line s₁
        (r.declaredFields name given (fields ++ (field, t) :: fields') s)
  | [], s, _, h => by
    cases h
    rw [List.nil_append, declaredFields, hg]
    exact .bind (enforced_checkRefinements t)
  | (other, ty) :: fields, s, done, h => by
    rw [declaredFields] at h
    rw [List.cons_append, declaredFields]
    cases hother : given.find? (·.1.name == other) with
    | none =>
      rw [hother] at h
      cases h
    | some o =>
      rw [hother] at h
      obtain ⟨⟨⟩, s₂, hcheck, h⟩ := bind_eq_ok h
      obtain ⟨done, s₃, hbefore, h⟩ := bind_eq_ok h
      cases h
      exact .after hcheck (.bind (enforced_declaredFields hg fields' fields s₂ done hbefore))

theorem enforced_updateFields {name : String} {u : FieldInit × Value} {t : Ty}
    {s₁ : Interpreter γ} {done : List (String × Value)} (hu : (fieldOf? u.1.name done).isSome)
    (ht : (s₁.schemas.record? name).bind (·.field? u.1.name) = some t)
    (updates' : List (FieldInit × Value)) :
    ∀ (updates : List (FieldInit × Value)) (fields : List (String × Value)) (s : Interpreter γ),
      r.updateFields name updates fields s = .ok done s₁ →
      r.Enforced u.2 t u.1.span.line s₁
        (r.updateFields name (updates ++ u :: updates') fields s)
  | [], _, _, h => by
    cases h
    have hnone : ¬ (fieldOf? u.1.name done).isNone = true := by
      rw [Option.isNone_iff_eq_none, ← Option.not_isSome_iff_eq_none]
      exact not_not_intro hu
    rw [List.nil_append, updateFields, if_neg hnone]
    refine .after (a := s₁) rfl ?_
    rw [ht]
    exact .bind (enforced_checkRefinements t)
  | q :: updates, fields, s, h => by
    rw [updateFields] at h
    rw [List.cons_append, updateFields]
    split at h
    · cases h
    · rename_i hq
      rw [if_neg hq]
      obtain ⟨a, s₂, hget, h⟩ := bind_eq_ok h
      refine .after hget ?_
      cases hold : (a.schemas.record? name).bind (·.field? q.1.name) with
      | none =>
        rw [hold] at h
        exact enforced_updateFields hu ht updates' updates _ s₂ h
      | some old =>
        rw [hold] at h
        obtain ⟨⟨⟩, s₃, hcheck, h⟩ := bind_eq_ok h
        exact .after hcheck (enforced_updateFields hu ht updates' updates _ s₃ h)

end

section

variable [Gateway γ]

/-- `x` in `s` binds `v` under `t`. In `s₁` the value is there, and a violation is reported for the
line. -/
inductive Binds (r : Recur γ) : {α : Type} → (x : Run γ α) → (s : Interpreter γ) → (v : Value) →
    (t : Ty) → (line : Nat) → (s₁ : Interpreter γ) → Prop
  | letInBlock {span pattern ty e rest tail env s v t s₁} (he : r.eval e env s = .ok v s₁)
      (ht : s₁.schemas.resolve ty = .ok t) :
      Binds r (r.evalBlock tail (.bind span pattern (some ty) e :: rest) env) s v t span.line s₁
  | letInTask {e env next index span pattern ty v s t}
      (hlet : e.letAt index = .ok (span, pattern, some ty)) (ht : s.schemas.resolve ty = .ok t) :
      Binds r (r.stepFrame (.block e env next (.bind index)) v) s v t span.line s
  | letAtTop {module line d ty s v t s₁} (he : r.runRoot line d.value s = .ok v s₁)
      (hd : d.ty = some ty) (ht : s₁.schemas.resolve ty = .ok t) :
      Binds r (r.runLet module line d) s v t line s₁
  /-- Of any function. The arguments before it are bound already. -/
  | parameter {decl env ps p ps' vs v vs' bindings ty s t s₁} (hparams : decl.params = ps ++ p :: ps')
      (hlength : vs.length = ps.length) (hbefore : r.bindParams ps vs s = .ok bindings s₁)
      (hp : p.ty = some ty) (ht : s₁.schemas.resolve ty = .ok t) :
      Binds r (r.enterClosure decl env (vs ++ v :: vs')) s v t
        (if s₁.line = 0 then p.span.line else s₁.line) s₁
  /-- Of a function that is not async, also when a `?` ends it. -/
  | result {decl env ty s v t s₁} (hdepth : s.depth < s.options.maxCallDepth)
      (hbody : (do
        if let some name := decl.name then Run.countEvaluation name
        (Run.deeper (r.eval decl.body env)).catchEarly : Run γ Value) s = .ok v s₁)
      (hret : decl.ret = some ty) (ht : s₁.schemas.resolve ty = .ok t) :
      Binds r (r.runBody decl env) s v t decl.span.line s₁
  | field {name given schema fields fields' field done g s t s₁}
      (hschema : s.schemas.record? name = some schema)
      (hfields : schema.fields = fields ++ (field, t) :: fields')
      (hbefore : r.declaredFields name given fields s = .ok done s₁)
      (hg : given.find? (·.1.name == field) = some g) :
      Binds r (r.buildRecord name given) s g.2 t g.1.span.line s₁
  | replacement {name fields updates u updates' done s t s₁}
      (hbefore : r.updateFields name updates fields s = .ok done s₁)
      (hu : (fieldOf? u.1.name done).isSome)
      (ht : (s₁.schemas.record? name).bind (·.field? u.1.name) = some t) :
      Binds r (r.update (.record name fields) (updates ++ u :: updates')) s u.2 t u.1.span.line s₁

theorem binds_enforced {r : Recur γ} {x : Run γ α} {v : Value} {t : Ty} {line : Nat}
    {s₁ : Interpreter γ} (h : r.Binds x s v t line s₁) : r.Enforced v t line s₁ (x s) := by
  cases h with
  | letInBlock he ht => exact .after he (.bind (.bind (enforced_checkOptional ht)))
  | letInTask hlet ht =>
    rw [stepFrame, hlet]
    exact .after rfl (.bind (.bind (enforced_checkOptional ht)))
  | letAtTop he hd ht =>
    refine .after he (.bind (.atTop ?_))
    rw [hd]
    exact enforced_checkOptional ht
  | parameter hparams hlength hbefore hp ht =>
    rw [enterClosure, hparams]
    exact .bind (enforced_bindParams hp ht _ _ _ _ _ _ hlength hbefore)
  | @result decl env ty s v t s₁ hdepth hbody hret ht =>
    rw [runBody]
    refine .after (a := s) rfl ?_
    rw [if_neg (Nat.not_le.2 hdepth)]
    cases hname : decl.name with
    | none =>
      rw [hname] at hbody
      refine .after hbody (.bind ?_)
      rw [hret]
      exact enforced_checkOptional ht
    | some name =>
      rw [hname] at hbody
      obtain ⟨⟨⟩, s₂, hcount, hbody⟩ := bind_eq_ok hbody
      refine .after hcount (.after hbody (.bind ?_))
      rw [hret]
      exact enforced_checkOptional ht
  | field hschema hfields hbefore hg =>
    rw [buildRecord]
    refine .after (a := s) rfl ?_
    rw [hschema]
    dsimp only
    rw [hfields]
    exact .bind (enforced_declaredFields hg _ _ _ _ hbefore)
  | replacement hbefore hu ht => exact .bind (enforced_updateFields hu ht _ _ _ _ hbefore)

end

end Recur

/-- `type Percent = Int where value <= 100;` -/
def percent : AliasDecl :=
  ⟨"Percent", .named .none "Int" [],
    some (.binary .none .le (.name .none "value") (.literal .none (.int 100)))⟩

/-- `fn scaled(x: Int) -> Percent { x * 100 }`, or the same as an async function. -/
def scaled (isAsync : Bool) : FunctionDecl :=
  ⟨some "scaled", [⟨"x", some (.named .none "Int" []), .none⟩], some (.named .none "Percent" []),
    .binary .none .mul (.name .none "x") (.literal .none (.int 100)), isAsync, .none⟩

/-- The program reports what `scaled(5)` gives, or what its future resolves to. -/
def percentUnit (isAsync : Bool) : ModuleUnit :=
  let call : Expr := .call .none (.name .none "scaled") [.literal .none (.int 5)]
  ⟨"main", ⟨[⟨.typeAlias percent, false, .none⟩, ⟨.function (scaled isAsync), false, .none⟩,
    ⟨.expr (if isAsync then .await .none call else call), false, .none⟩]⟩, []⟩

def percentChecked (isAsync : Bool) : Checked :=
  ⟨(Check.collectSchemas [percentUnit isAsync]).table,
    if isAsync then [] else [⟨"main", "scaled"⟩], []⟩

def percentState (isAsync : Bool) : Interpreter StockGateway :=
  Interpreter.start (percentChecked isAsync) .default (.null [])

theorem scaled_refused :
    (Recur.ofFuel 5).Binds ((Recur.ofFuel 5).runBody (scaled false) (Env.empty.bind "x" (.int 5)))
        (percentState false) (.int 500) (.refined "Percent" .int) 0
        { percentState false with evaluations := [("scaled", 1)] } ∧
      (Recur.ofFuel 5).runBody (scaled false) (Env.empty.bind "x" (.int 5)) (percentState false) =
        .error (.fail (.refinementViolated (.int 500) "Percent") 0)
          { percentState false with evaluations := [("scaled", 1)] } := by
  have hbinds : (Recur.ofFuel 5).Binds
      ((Recur.ofFuel 5).runBody (scaled false) (Env.empty.bind "x" (.int 5)))
      (percentState false) (.int 500) (.refined "Percent" .int) 0
      { percentState false with evaluations := [("scaled", 1)] } :=
    .result (by decide) rfl rfl rfl
  refine ⟨hbinds, (Recur.binds_enforced hbinds).refused "Percent" _ ?_⟩
  exact .inl ⟨rfl, .bool false, nofun, rfl⟩

/-- The call of the async function: its task, and the state after its only slice. -/
def scaledTask : Task TaskBody :=
  ⟨0, 0, .running, .machine (.start (scaled true).body (Env.empty.bind "x" (.int 5)) 0 false)⟩

def scaledLater : Interpreter StockGateway :=
  endState ((do
    let _ ← (Recur.ofFuel 9).enterClosure (scaled true) Env.empty [.int 5]
    (Recur.ofFuel 9).runTask scaledTask : Run StockGateway Unit) (percentState true))

/-- The result of an async function is not checked: the future of the call resolves to a percentage
of 500. -/
theorem async_result_unchecked :
    Check.program [percentUnit true] = .ok (percentChecked true) ∧
      (Recur.ofFuel 9).enterClosure (scaled true) Env.empty [.int 5] (percentState true) =
        .ok (.future 0)
          { percentState true with
            scheduler := ((percentState true).scheduler.spawn scaledTask.body).2 } ∧
      scaledLater.scheduler.futures.state? 0 = some (.resolved (.int 500)) ∧
      (Recur.ofFuel 9).Violates (.int 500) "Percent" scaledLater (.refined "Percent" .int)
        scaledLater := by
  refine ⟨rfl, rfl, rfl, .inl ⟨rfl, .bool false, nofun, rfl⟩⟩

end StreamLang

/-! The positions of a value that its type describes. A check that succeeds was made at each of them
that is reached through lists, sets, options and tuples. It stops at maps and results, whatever their
types say about what is in them. -/

namespace StreamLang

open Eval (bind_eq_ok)

/-- From a value to a part of it, each with the type that describes it, where the check of refinements
goes on. -/
inductive Ty.Descends : Ty × Value → Ty × Value → Prop
  | base {name t v} : Descends (.refined name t, v) (t, v)
  | element {t u v w items} (ht : t = .list u ∨ t = .set u) (hv : v = .list items ∨ v = .set items)
      (hw : w ∈ items) : Descends (t, v) (u, w)
  | payload {t v} : Descends (.option t, .option (some v)) (t, v)
  | item {ts vs u w} (h : (u, w) ∈ ts.zip vs) : Descends (.tuple ts, .tuple vs) (u, w)

/-- From a value to a part of it that its type describes. -/
inductive Ty.Describes : Ty × Value → Ty × Value → Prop
  | checked {p q} (h : Descends p q) : Describes p q
  | mapValue {k t entries key v} (h : (key, v) ∈ entries) :
    Describes (.map k t, .map entries) (t, v)
  | okPayload {t e v} : Describes (.result t e, .ok v) (t, v)
  | errPayload {t e v} : Describes (.result t e, .err v) (e, v)

variable {γ α : Type}

/-- The same program is run, and at the same place. -/
def Interpreter.Beside (s t : Interpreter γ) : Prop := t.loaded = s.loaded ∧ t.standing = s.standing

namespace Recur

section

variable {r : Recur γ} {Q : Interpreter γ → Prop} {line : Nat} {s s' : Interpreter γ}

/-- In a sequence of computations that succeeds, each succeeds from a state that those before it
leave. -/
theorem ok_of_forM {f : α → Run γ PUnit} {a : α} :
    ∀ {as : List α} {s : Interpreter γ}, (∀ b ∈ as, Run.Keeps Q (f b)) → Q s →
      as.forM f s = .ok ⟨⟩ s' → a ∈ as → ∃ s₁ s₂, Q s₁ ∧ f a s₁ = .ok ⟨⟩ s₂
  | b :: as, s, hkeeps, hs, h, ha => by
    obtain ⟨hb, hrest⟩ := List.forall_mem_cons.1 hkeeps
    obtain ⟨⟨⟩, s₁, hfirst, h⟩ := bind_eq_ok h
    rcases List.mem_cons.1 ha with rfl | ha
    · exact ⟨s, s₁, hs, hfirst⟩
    · exact ok_of_forM hrest (hb.of_ok hs hfirst) h ha

variable (hkeeps : ∀ t v, Run.Keeps Q (r.checkRefinements line t v))
  (hpredicate : ∀ name v, Run.Keeps Q (r.checkPredicate name v line))
include hkeeps

theorem ok_of_checkItems {u : Ty} {w : Value} : ∀ {ts : List Ty} {vs : List Value}
    {s : Interpreter γ}, Q s → r.checkItems line ts vs s = .ok ⟨⟩ s' → (u, w) ∈ ts.zip vs →
      ∃ s₁ s₂, Q s₁ ∧ r.checkRefinements line u w s₁ = .ok ⟨⟩ s₂
  | t :: ts, v :: vs, s, hs, h, hmem => by
    obtain ⟨⟨⟩, s₁, hfirst, h⟩ := bind_eq_ok h
    rcases List.mem_cons.1 hmem with heq | hmem
    · obtain ⟨rfl, rfl⟩ := Prod.mk.inj heq
      exact ⟨s, s₁, hs, hfirst⟩
    · exact ok_of_checkItems ((hkeeps t v).of_ok hs hfirst) h hmem

include hpredicate

/-- One step down: the check of the part succeeded on the way. -/
theorem ok_of_descends {p q : Ty × Value} (h : Ty.Descends p q) (hs : Q s)
    (hcheck : r.checkRefinements line p.1 p.2 s = .ok ⟨⟩ s') :
    ∃ s₁ s₂, Q s₁ ∧ r.checkRefinements line q.1 q.2 s₁ = .ok ⟨⟩ s₂ := by
  cases h with
  | @base name t v =>
    obtain ⟨⟨⟩, s₁, hp, hbase⟩ := bind_eq_ok hcheck
    exact ⟨s₁, s', (hpredicate name v).of_ok hs hp, hbase⟩
  | element ht hv hw =>
    rcases ht with rfl | rfl <;> rcases hv with rfl | rfl <;>
      exact ok_of_forM (fun v _ => hkeeps _ v) hs hcheck hw
  | payload => exact ⟨s, s', hs, hcheck⟩
  | item h => exact ok_of_checkItems hkeeps hs hcheck h

theorem ok_of_reached {p q : Ty × Value} (h : Relation.ReflTransGen Ty.Descends p q) (hs : Q s)
    (hcheck : r.checkRefinements line p.1 p.2 s = .ok ⟨⟩ s') :
    ∃ s₁ s₂, Q s₁ ∧ r.checkRefinements line q.1 q.2 s₁ = .ok ⟨⟩ s₂ := by
  induction h with
  | refl => exact ⟨s, s', hs, hcheck⟩
  | tail _ hlast ih =>
    obtain ⟨s₁, s₂, hs₁, hcheck⟩ := ih
    exact ok_of_descends hkeeps hpredicate hlast hs₁ hcheck

end

section

variable [Gateway γ] {fuel : Nat}

omit [Gateway γ] in
/-- What keeps step with itself leaves the program and the place as they are. -/
theorem keeps_beside {x : Run γ α} {V : α → α → Prop} (hV : ∀ a b, V a b → a = b)
    (s : Interpreter γ)
    (hx : ∀ p, Eval.Lockstep (Pairing.diagonal γ False fun t => t.loaded = s.loaded).terms
      ((Pairing.diagonal γ False fun t => t.loaded = s.loaded).state p) V x x) :
    Run.Keeps s.Beside x := by
  refine Run.keeps_of_endState fun t ht => ?_
  obtain ⟨-, hloaded, hstanding⟩ := Pairing.diagonal_same hV (hx t.standing) ht.1
  exact ⟨hloaded, hstanding.trans ht.2⟩

theorem loaded_lawful (s : Interpreter γ) :
    (Pairing.diagonal γ False fun t => t.loaded = s.loaded).Lawful :=
  Pairing.diagonal_lawful (Interpreter.kept_of_loaded fun ht h => h.trans ht)

theorem loaded_inStep (fuel : Nat) (s : Interpreter γ) (p : Standing) :
    (ofFuel fuel).InStep ((Pairing.diagonal γ False fun t => t.loaded = s.loaded).scene p)
      (ofFuel fuel) :=
  (ofFuel_lockstep (loaded_lawful s) (.inl rfl)).inStep p

theorem checkRefinements_beside (s : Interpreter γ) (line : Nat) (t : Ty) (v : Value) :
    Run.Keeps s.Beside ((ofFuel fuel).checkRefinements line t v) :=
  keeps_beside (fun _ _ h => h.1) s fun p =>
    (loaded_inStep fuel s p).checkRefinements (loaded_lawful s).scene (.refl line) t v
      v.permitted_all

theorem checkPredicate_beside (s : Interpreter γ) (line : Nat) (name : String) (v : Value) :
    Run.Keeps s.Beside ((ofFuel fuel).checkPredicate name v line) :=
  keeps_beside (fun _ _ h => h.1) s fun p =>
    (loaded_inStep fuel s p).checkPredicate (loaded_lawful s).scene name v.permitted_all (.refl line)

theorem checked_at_every_position {line : Nat} {t u : Ty} {v w : Value} {s s' : Interpreter γ}
    (hcheck : (ofFuel fuel).checkRefinements line t v s = .ok ⟨⟩ s')
    (hposition : Relation.ReflTransGen Ty.Descends (t, v) (u, w)) :
    ∃ s₁, s.Beside s₁ ∧ (ofFuel fuel).Upholds w u s₁ := by
  obtain ⟨s₁, s₂, hs₁, hcheck⟩ := ok_of_reached (checkRefinements_beside s line)
    (fun name v => checkPredicate_beside s line name v) hposition ⟨rfl, rfl⟩ hcheck
  exact ⟨s₁, hs₁, upholds_of_checkRefinements u s₁ hcheck⟩

end

end Recur

/-- `List<(Option<Percent>, String)>` -/
def percentRows : Ty := .list (.tuple [.option (.refined "Percent" .int), .text])

theorem row_checked :
    ∃ s₁, (percentState false).Beside s₁ ∧
      (Recur.ofFuel 5).Upholds (.int 7) (.refined "Percent" .int) s₁ := by
  have hcheck : (Recur.ofFuel 5).checkRefinements 3 percentRows
      (.list [.tuple [.option none, .text "a"], .tuple [.option (some (.int 7)), .text "b"]])
      (percentState false) = .ok ⟨⟩ (percentState false) := rfl
  refine Recur.checked_at_every_position hcheck
    (.head (.element (.inl rfl) (.inl rfl) (.tail _ (.head _)))
      (.head (.item (u := .option (.refined "Percent" .int)) (.head _)) (.single .payload)))

/-- The checks of a map and of a result succeed on what breaks the refinement. -/
theorem map_and_result_unchecked :
    (Ty.Describes (.map .text (.refined "Percent" .int), .map [("a", .int 500)])
        (.refined "Percent" .int, .int 500) ∧
      (Recur.ofFuel 5).checkRefinements 3 (.map .text (.refined "Percent" .int))
        (.map [("a", .int 500)]) (percentState false) = .ok ⟨⟩ (percentState false)) ∧
    (Ty.Describes (.result (.refined "Percent" .int) (.refined "Percent" .int), .ok (.int 500))
        (.refined "Percent" .int, .int 500) ∧
      (Recur.ofFuel 5).checkRefinements 3
        (.result (.refined "Percent" .int) (.refined "Percent" .int)) (.ok (.int 500))
        (percentState false) = .ok ⟨⟩ (percentState false)) ∧
    (Recur.ofFuel 5).Violates (.int 500) "Percent" (percentState false) (.refined "Percent" .int)
      (percentState false) :=
  ⟨⟨.mapValue (.head _), rfl⟩, ⟨.okPayload, rfl⟩, .inl ⟨rfl, .bool false, nofun, rfl⟩⟩

end StreamLang
