import StreamLang.Proofs.Lockstep.Diagonal
import StreamLang.Proofs.Unreachable.Placed

/-! Code that depends on the module that is being run through its names alone. It makes no functions
and starts no tasks, which would belong to the module. What it calls is run with the names of other
modules, in the same way wherever the call is made. -/

namespace StreamLang

namespace Expr

mutual

/-- Code that makes no functions and starts and awaits no tasks. The names in it are bound around it
or are good ones. -/
inductive Bare (good : String → Prop) : List String → Expr → Prop
  | literal {bound : List String} (span : Span) (l : Literal) : Bare good bound (.literal span l)
  | name {bound : List String} {name : String} (span : Span) (h : name ∈ bound ∨ good name) :
    Bare good bound (.name span name)
  | parts {bound : List String} {e : Expr} (h : e.isFromParts = true)
      (hmethod : ∀ span receiver name args, e = .method span receiver name args →
        name ∈ bound ∨ good name)
      (hparts : ∀ part ∈ e.operands, Bare good bound part) : Bare good bound e
  | logical {bound : List String} {span : Span} {op : BinaryOp} {lhs rhs : Expr}
      (h : op.isLogical = true) (hlhs : Bare good bound lhs) (hrhs : Bare good bound rhs) :
    Bare good bound (.binary span op lhs rhs)
  | branch {bound : List String} {span : Span} {test whenTrue : Expr} {whenFalse : Option Expr}
      (htest : Bare good bound test) (htrue : Bare good bound whenTrue)
      (hfalse : ∀ e, whenFalse = some e → Bare good bound e) :
    Bare good bound (.branch span test whenTrue whenFalse)
  | cases {bound : List String} {span : Span} {scrutinee : Expr} {arms : List MatchArm}
      (hscrutinee : Bare good bound scrutinee)
      (hguards : ∀ arm ∈ arms, ∀ e, arm.guard = some e → Bare good (arm.pattern.names ++ bound) e)
      (hbodies : ∀ arm ∈ arms, Bare good (arm.pattern.names ++ bound) arm.body) :
    Bare good bound (.cases span scrutinee arms)
  | block {bound : List String} {span : Span} {stmts : List Stmt} {tail : Option Expr}
      (h : BareBlock good tail bound stmts) : Bare good bound (.block span stmts tail)
  | attempt {bound : List String} {span : Span} {inner : Expr} (h : Bare good bound inner) :
    Bare good bound (.attempt span inner)

/-- Of a block: each statement in the scope of the names bound before it. -/
inductive BareBlock (good : String → Prop) : Option Expr → List String → List Stmt → Prop
  | nil {tail : Option Expr} {bound : List String}
      (h : ∀ e, tail = some e → Bare good bound e) : BareBlock good tail bound []
  | bind {tail : Option Expr} {bound : List String} {span : Span} {pattern : Pattern}
      {ty : Option TypeExpr} {e : Expr} {rest : List Stmt} (h : Bare good bound e)
      (hrest : BareBlock good tail (pattern.names ++ bound) rest) :
    BareBlock good tail bound (.bind span pattern ty e :: rest)
  | expr {tail : Option Expr} {bound : List String} {e : Expr} {rest : List Stmt}
      (h : Bare good bound e) (hrest : BareBlock good tail bound rest) :
    BareBlock good tail bound (.expr e :: rest)

end

end Expr

namespace Expr.Bare

variable {good : String → Prop} {bound : List String}

theorem operands {e : Expr} (h : Bare good bound e) :
    ∀ part ∈ e.operands, Bare good bound part := by
  cases h with
  | parts _ _ hparts => exact hparts
  | logical _ hlhs hrhs => exact List.forall_mem_cons.2 ⟨hlhs, List.forall_mem_singleton.2 hrhs⟩
  | _ => exact List.forall_mem_nil _

theorem of_name {span : Span} {name : String} (h : Bare good bound (.name span name)) :
    name ∈ bound ∨ good name := by
  cases h with
  | name _ h => exact h
  | parts h => cases h

theorem of_branch {span : Span} {test whenTrue : Expr} {whenFalse : Option Expr}
    (h : Bare good bound (.branch span test whenTrue whenFalse)) :
    Bare good bound test ∧ Bare good bound whenTrue ∧
      ∀ e, whenFalse = some e → Bare good bound e := by
  cases h with
  | branch htest htrue hfalse => exact ⟨htest, htrue, hfalse⟩
  | parts h => cases h

theorem of_cases {span : Span} {scrutinee : Expr} {arms : List MatchArm}
    (h : Bare good bound (.cases span scrutinee arms)) :
    Bare good bound scrutinee ∧ ∀ arm ∈ arms,
      (∀ e, arm.guard = some e → Bare good (arm.pattern.names ++ bound) e) ∧
        Bare good (arm.pattern.names ++ bound) arm.body := by
  cases h with
  | cases hscrutinee hguards hbodies =>
    exact ⟨hscrutinee, fun arm harm => ⟨hguards arm harm, hbodies arm harm⟩⟩
  | parts h => cases h

theorem of_block {span : Span} {stmts : List Stmt} {tail : Option Expr}
    (h : Bare good bound (.block span stmts tail)) : BlockHolds (Bare good) tail bound stmts := by
  cases h with
  | parts h => cases h
  | block h =>
    clear span
    induction stmts generalizing bound with
    | nil =>
      cases h with
      | nil h => exact h
    | cons stmt rest ih =>
      cases h with
      | bind h hrest => exact ⟨h, ih hrest⟩
      | expr h hrest => exact ⟨h, ih hrest⟩

theorem of_attempt {span : Span} {inner : Expr} (h : Bare good bound (.attempt span inner)) :
    Bare good bound inner := by
  cases h with
  | attempt h => exact h
  | parts h => cases h

theorem methodName {span : Span} {receiver : Expr} {name : String} {args : List Expr}
    (h : Bare good bound (.method span receiver name args)) :
    Bare good bound (.name span name) := by
  cases h with
  | parts _ hmethod _ => exact .name span (hmethod span receiver name args rfl)

theorem not_closure {span : Span} {decl : FunctionDecl} :
    ¬ Bare good bound (.closure span decl) := by
  rintro (_ | _ | ⟨h⟩)
  cases h

theorem not_async {span : Span} {body : Expr} : ¬ Bare good bound (.async span body) := by
  rintro (_ | _ | ⟨h⟩)
  cases h

theorem not_await {span : Span} {future : Expr} : ¬ Bare good bound (.await span future) := by
  rintro (_ | _ | ⟨h⟩)
  cases h

end Expr.Bare

variable {γ α : Type}

namespace Interpreter

theorem global?_of_loaded {s t : Interpreter γ} (h : t.loaded = s.loaded) (m : Nat) (n : String) :
    t.global? m n = s.global? m n := by
  have hmodules : t.modules = s.modules := congrArg Loaded.modules h
  rw [global?, hmodules]
  rfl

/-- The predicates of all aliases are bare, and the names in them stand for the same in the two
modules. -/
def SameNames (s : Interpreter γ) (m m' : Nat) : Prop :=
  ∀ name schema p, s.schemas.typeAlias? name = some schema → schema.predicate = some p →
    p.Bare (fun n => s.global? m n = s.global? m' n) ["value"]

end Interpreter

/-- A call leaves the program that is being run as it is. -/
theorem Recur.loaded_enterClosure [Gateway γ] (fuel : Nat) {decl : FunctionDecl} (env : Env)
    {args : List Value} (hlen : args.length = decl.arity) (s : Interpreter γ) :
    (endState ((ofFuel fuel).enterClosure decl env args s)).loaded = s.loaded := by
  have hL : (Pairing.diagonal γ False fun t => t.loaded = s.loaded).Lawful :=
    Pairing.diagonal_lawful (Interpreter.kept_of_loaded fun ht hloaded => hloaded.trans ht)
  have hrun : (Pairing.diagonal γ False fun t => t.loaded = s.loaded).Steady s.standing
      (Value.Permitted .all) ((ofFuel fuel).enterClosure decl env args) :=
    (ofFuel_lockstep hL (n := fuel) (.inl rfl)).enterClosure hL trivial
      (Value.frames_permitted_all env) hlen (Value.items_permitted_all args)
  exact (Pairing.diagonal_same (fun _ _ h => h.1) hrun rfl).2.1

end StreamLang
