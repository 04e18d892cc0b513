import StreamLang.Check.Purity
import StreamLang.Proofs.Lockstep.Pairing

/-! Code and values that cannot reach a future, a task or a service. Code is confined when it awaits
and starts nothing, and all names in it are bound around it or are good ones of its module. A value
is inert when no future is inside it and all code inside it is confined. -/

namespace StreamLang

namespace Expr

mutual

/-- `bound` holds the names that are bound around the expression. -/
def Confined (good : String → Prop) : List String → Expr → Prop
  | _, .literal _ _ => True
  | bound, .name _ n => n ∈ bound ∨ good n
  | bound, .list _ items => AllConfined good bound items
  | bound, .tuple _ items => AllConfined good bound items
  | bound, .map _ entries => EntriesConfined good bound entries
  | bound, .record _ _ fields => FieldsConfined good bound fields
  | bound, .variant _ _ _ args => AllConfined good bound args
  | bound, .update _ target fields => Confined good bound target ∧ FieldsConfined good bound fields
  | bound, .select _ target _ => Confined good bound target
  | bound, .index _ target i => Confined good bound target ∧ Confined good bound i
  | bound, .call _ callee args => Confined good bound callee ∧ AllConfined good bound args
  | bound, .method _ receiver m args =>
    (m ∈ bound ∨ good m) ∧ Confined good bound receiver ∧ AllConfined good bound args
  | bound, .binary _ _ lhs rhs => Confined good bound lhs ∧ Confined good bound rhs
  | bound, .unary _ _ operand => Confined good bound operand
  | bound, .branch _ test whenTrue whenFalse =>
    Confined good bound test ∧ Confined good bound whenTrue ∧ OptionConfined good bound whenFalse
  | bound, .cases _ scrutinee arms => Confined good bound scrutinee ∧ ArmsConfined good bound arms
  | bound, .block _ stmts tail =>
    StmtsConfined good bound stmts ∧
      OptionConfined good (stmts.foldl (fun b stmt => Purity.stmtNames stmt ++ b) bound) tail
  | bound, .closure _ decl => DeclConfined good bound decl
  | _, .async _ _ => False
  | _, .await _ _ => False
  | bound, .attempt _ inner => Confined good bound inner

def OptionConfined (good : String → Prop) : List String → Option Expr → Prop
  | _, none => True
  | bound, some e => Confined good bound e

def AllConfined (good : String → Prop) : List String → List Expr → Prop
  | _, [] => True
  | bound, e :: rest => Confined good bound e ∧ AllConfined good bound rest

def EntriesConfined (good : String → Prop) : List String → List (String × Expr) → Prop
  | _, [] => True
  | bound, (_, e) :: rest => Confined good bound e ∧ EntriesConfined good bound rest

def FieldsConfined (good : String → Prop) : List String → List FieldInit → Prop
  | _, [] => True
  | bound, ⟨_, _, e⟩ :: rest => Confined good bound e ∧ FieldsConfined good bound rest

def ArmsConfined (good : String → Prop) : List String → List MatchArm → Prop
  | _, [] => True
  | bound, ⟨_, pattern, guard, body⟩ :: rest =>
    OptionConfined good (pattern.names ++ bound) guard ∧
      Confined good (pattern.names ++ bound) body ∧ ArmsConfined good bound rest

/-- A `let` binds its names from the next statement on. -/
def StmtsConfined (good : String → Prop) : List String → List Stmt → Prop
  | _, [] => True
  | bound, .bind _ pattern _ e :: rest =>
    Confined good bound e ∧ StmtsConfined good (pattern.names ++ bound) rest
  | bound, .expr e :: rest => Confined good bound e ∧ StmtsConfined good bound rest

def DeclConfined (good : String → Prop) : List String → FunctionDecl → Prop
  | bound, ⟨_, params, _, body, isAsync, _⟩ =>
    isAsync = false ∧ Confined good (params.map Param.name ++ bound) body

end

theorem allConfined_iff {good : String → Prop} {bound : List String} {es : List Expr} :
    AllConfined good bound es ↔ ∀ e ∈ es, e.Confined good bound := by
  induction es with
  | nil => simp [AllConfined]
  | cons e es ih => simp [AllConfined, ih]

theorem entriesConfined_iff {good : String → Prop} {bound : List String}
    {entries : List (String × Expr)} :
    EntriesConfined good bound entries ↔ ∀ e ∈ entries.map (·.2), e.Confined good bound := by
  induction entries with
  | nil => simp [EntriesConfined]
  | cons entry rest ih => simp [EntriesConfined, ih]

theorem fieldsConfined_iff {good : String → Prop} {bound : List String}
    {fields : List FieldInit} :
    FieldsConfined good bound fields ↔
      ∀ e ∈ fields.map FieldInit.value, e.Confined good bound := by
  induction fields with
  | nil => simp [FieldsConfined]
  | cons field rest ih =>
    rw [List.map_cons, List.forall_mem_cons, ← ih]
    obtain ⟨_, _, e⟩ := field
    exact Iff.rfl

/-- The parts of confined code are confined. -/
theorem operands_confined {good : String → Prop} {bound : List String} {e : Expr}
    (h : e.Confined good bound) : ∀ part ∈ e.operands, part.Confined good bound := by
  have hnone : ∀ part ∈ ([] : List Expr), part.Confined good bound := List.forall_mem_nil _
  cases e with
  | list _ items => exact allConfined_iff.1 h
  | tuple _ items => exact allConfined_iff.1 h
  | map _ entries => exact entriesConfined_iff.1 h
  | record _ _ fields => exact fieldsConfined_iff.1 h
  | variant _ _ _ args => exact allConfined_iff.1 h
  | update _ target fields => exact List.forall_mem_cons.2 ⟨h.1, fieldsConfined_iff.1 h.2⟩
  | select _ target _ => exact List.forall_mem_singleton.2 h
  | index _ target i => exact List.forall_mem_cons.2 ⟨h.1, List.forall_mem_singleton.2 h.2⟩
  | call _ callee args => exact List.forall_mem_cons.2 ⟨h.1, allConfined_iff.1 h.2⟩
  | method _ receiver _ args => exact List.forall_mem_cons.2 ⟨h.2.1, allConfined_iff.1 h.2.2⟩
  | binary _ _ lhs rhs => exact List.forall_mem_cons.2 ⟨h.1, List.forall_mem_singleton.2 h.2⟩
  | unary _ _ operand => exact List.forall_mem_singleton.2 h
  | _ => exact hnone

theorem armsConfined_iff {good : String → Prop} {bound : List String} {arms : List MatchArm} :
    ArmsConfined good bound arms ↔ ∀ arm ∈ arms,
      OptionConfined good (arm.pattern.names ++ bound) arm.guard ∧
        arm.body.Confined good (arm.pattern.names ++ bound) := by
  induction arms with
  | nil => simp [ArmsConfined]
  | cons arm rest ih =>
    rw [List.forall_mem_cons, ← ih, and_assoc]
    obtain ⟨_, pattern, guard, body⟩ := arm
    exact Iff.rfl

theorem optionConfined_iff {good : String → Prop} {bound : List String} {e : Option Expr} :
    OptionConfined good bound e ↔ ∀ e', e = some e' → e'.Confined good bound := by
  cases e with
  | none =>
    refine ⟨?_, fun _ => trivial⟩
    rintro _ e' ⟨⟩
  | some e =>
    refine ⟨?_, fun h => h e rfl⟩
    rintro h e' ⟨⟩
    exact h

/-- A confined block, statement by statement. -/
theorem blockHolds_of_confined {good : String → Prop} {tail : Option Expr} {stmts : List Stmt}
    {bound : List String} (hstmts : StmtsConfined good bound stmts)
    (htail : OptionConfined good (stmts.foldl (fun b stmt => Purity.stmtNames stmt ++ b) bound)
      tail) : BlockHolds (fun bound e => e.Confined good bound) tail bound stmts := by
  induction stmts generalizing bound with
  | nil => exact optionConfined_iff.1 htail
  | cons stmt rest ih => cases stmt with
    | bind span pattern ty value => exact ⟨hstmts.1, ih hstmts.2 htail⟩
    | expr e => exact ⟨hstmts.1, ih hstmts.2 htail⟩

end Expr

/-- No futures, only builtins without effects, and confined code. -/
def Permit.inert (good : Nat → String → Prop) : Permit where
  future := False
  builtin b := Purity.isHarmless b.effect = true
  closure decl env module := Expr.DeclConfined (good module) env.names decl

def Value.Inert (good : Nat → String → Prop) (v : Value) : Prop := v.Permitted (.inert good)

/-- Confined code, which has no effects. -/
def Regime.confined (good : Nat → String → Prop) : Regime (.inert good) where
  expr m bound e := e.Confined (good m) bound
  effects := False
  future := id
  operands := Expr.operands_confined
  methodName h := h.1
  branch h := ⟨h.1, h.2.1, Expr.optionConfined_iff.1 h.2.2⟩
  cases h := ⟨h.1, fun arm harm =>
    have harms := Expr.armsConfined_iff.1 h.2 arm harm
    ⟨Expr.optionConfined_iff.1 harms.1, harms.2⟩⟩
  block h := Expr.blockHolds_of_confined h.1 h.2
  attempt h := h
  async h := h.elim
  await h := h.elim
  closure := by
    rintro m bound span decl h env rfl
    exact h
  enter := by
    rintro m ⟨name, params, ret, body, isAsync, span⟩ env ⟨rfl, hbody⟩
    exact ⟨fun h => (Bool.false_ne_true h).elim, hbody⟩
  builtin := .inl

end StreamLang
