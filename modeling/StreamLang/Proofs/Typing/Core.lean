import StreamLang.Proofs.Folding.Agreement
import StreamLang.Proofs.Typing.Operators

/-! The core fragment of expressions, and when the checker gives one of these a type that holds. -/

namespace StreamLang

open Check

namespace Expr

/-- The names that are there behind the statements. -/
def letNames (names : List String) (stmts : List Stmt) : List String :=
  stmts.foldl (fun names stmt => Purity.stmtNames stmt ++ names) names

mutual

/-- The expression is made of literals, the given names, operators, `if`, blocks with plain `let`s,
and tuples and their elements. -/
def Core (names : List String) : Expr → Prop
  | .literal _ _ => True
  | .name _ n => n ∈ names
  | .tuple _ items => CoreAll names items
  | .select _ target _ => Core names target
  | .index _ target i => Core names target ∧ Core names i
  | .binary _ _ lhs rhs => Core names lhs ∧ Core names rhs
  | .unary _ _ operand => Core names operand
  | .branch _ test whenTrue whenFalse =>
    Core names test ∧ Core names whenTrue ∧ CoreOr names whenFalse
  | .block _ stmts tail => CoreStmts names stmts ∧ CoreOr (letNames names stmts) tail
  | _ => False

def CoreOr (names : List String) : Option Expr → Prop
  | none => True
  | some e => Core names e

def CoreAll (names : List String) : List Expr → Prop
  | [] => True
  | e :: rest => Core names e ∧ CoreAll names rest

def CoreStmts (names : List String) : List Stmt → Prop
  | [] => True
  | .bind _ (.bind _ n) none value :: rest => Core names value ∧ CoreStmts (n :: names) rest
  | .expr e :: rest => Core names e ∧ CoreStmts names rest
  | _ => False

end

theorem core_of_consulted {scope : String → Option Const} {names : List String} {e part : Expr}
    (h : e.Core names) (hpart : part ∈ e.consulted scope) : part.Core names := by
  cases e with
  | unary => exact List.mem_singleton.1 hpart ▸ h
  | binary =>
    rcases List.mem_cons.1 hpart with rfl | hpart
    · exact h.1
    · split at hpart
      · cases hpart
      · exact List.mem_singleton.1 hpart ▸ h.2
  | branch span test whenTrue whenFalse =>
    rcases List.mem_cons.1 hpart with rfl | hpart
    · exact h.1
    · split at hpart
      · exact List.mem_singleton.1 hpart ▸ h.2.1
      · cases whenFalse with
        | none => cases hpart
        | some e => exact List.mem_singleton.1 hpart ▸ h.2.2
      · cases hpart
  | block span stmts tail =>
    cases stmts with
    | nil => cases tail with
      | none => cases hpart
      | some e => exact List.mem_singleton.1 hpart ▸ h.2
    | cons => cases hpart
  | list | call => cases h
  | _ => cases hpart

theorem core_of_reaches {scope : String → Option Const} {names : List String} {e sub : Expr}
    (h : e.Core names) (hreach : e.Reaches scope sub) : sub.Core names := by
  induction hreach with
  | refl => exact h
  | part hpart _ ih => exact ih (core_of_consulted h hpart)

end Expr

section

variable (body : Body)

mutual

/-- Checked from the state on, the expression is given a type that holds: an `if` without `else`
gives nothing in its branch either, the join of two branches is above the types of both, and neither
an index nor what a `let` binds folds to something else than it evaluates to. -/
def Firm : Expr → State → Prop
  | .tuple _ items, s => FirmAll items s
  | .select _ target _, s => Firm target s
  | .index _ target i, s =>
    Firm target s ∧ Firm i (infer body target s).2 ∧ ¬ i.Strays s.scopes.constant?
  | .binary _ _ lhs rhs, s => Firm lhs s ∧ Firm rhs (infer body lhs s).2
  | .unary _ _ operand, s => Firm operand s
  | .branch _ test whenTrue whenFalse, s =>
    Firm test s ∧ Firm whenTrue (infer body test s).2 ∧
      FirmElse (infer body whenTrue (infer body test s).2).1 whenFalse
        (infer body whenTrue (infer body test s).2).2
  | .block _ stmts tail, s =>
    FirmStmts stmts (enterScope s).2 ∧ FirmOr tail (inferStmts body stmts (enterScope s).2).2
  | _, _ => True

/-- The type of the other branch is given. -/
def FirmElse (whenTrue : Ty) : Option Expr → State → Prop
  | none, _ => whenTrue.Below .void
  | some e, s => Firm e s ∧ whenTrue.Below (whenTrue.join (infer body e s).1) ∧
      (infer body e s).1.Below (whenTrue.join (infer body e s).1)

def FirmOr : Option Expr → State → Prop
  | none, _ => True
  | some e, s => Firm e s

def FirmAll : List Expr → State → Prop
  | [], _ => True
  | e :: rest, s => Firm e s ∧ FirmAll rest (infer body e s).2

def FirmStmts : List Stmt → State → Prop
  | [], _ => True
  | .bind span pattern ty value :: rest, s =>
    Firm value s ∧ ¬ value.Strays s.scopes.constant? ∧
      FirmStmts rest (inferStmts body [.bind span pattern ty value] s).2
  | .expr e :: rest, s => Firm e s ∧ FirmStmts rest (infer body e s).2

end

end

variable {body : Body}

theorem scopes_infer (body : Body) (e : Expr) (s : State) :
    (infer body e s).2.scopes = s.scopes := by
  obtain ⟨new, h⟩ := infer_adds body e s
  rw [h.state]

namespace Check

variable {s : State} {span : Span}

theorem nameType_of_lookup? {n : String} {b : Binding} (h : s.scopes.lookup? n = some b) :
    nameType n s = (b.ty, s) := by
  have hbind (f : Option Binding → CheckM Ty) : (lookup? n >>= f) s = f (some b) s := by
    rw [← h]
    rfl
  exact hbind _

theorem expectOperand_of_clean {actual expected : Ty} {what : Operand}
    (h : (expectOperand actual expected what span s).2.Clean) :
    (expectOperand actual expected what span s).2 = s := by
  unfold expectOperand at h ⊢
  split
  · rfl
  · rename_i hnot
    rw [if_neg hnot] at h
    exact (Assures.report _ _ s h).2.elim

/-- The name is known with the type and the constant of its value. -/
theorem declareLet_of_clean {n : String} {value : Expr} {ty : Ty}
    (h : (declareLet (.bind span n) none value ty s).2.Clean) :
    ∃ unbounded scopes, s.scopes.declare? n
        ⟨ty, Const.fold s.scopes.constant? value, unbounded⟩ = some scopes ∧
      (declareLet (.bind span n) none value ty s).2.scopes = scopes := by
  refine ⟨isUnbounded s.scopes value, ?_⟩
  generalize hb : (⟨ty, Const.fold s.scopes.constant? value, isUnbounded s.scopes value⟩ : Binding)
    = b
  have hbind : declareLet (.bind span n) none value ty s =
      (declare n b >>= fun declared => if !declared then report (.definedTwice n) span
        else pure ()) s := by
    rw [← hb]
    rfl
  have hdeclare (f : Bool → CheckM Unit) :
      (declare n b >>= f) s = f (declare n b s).1 (declare n b s).2 := rfl
  rw [hbind, hdeclare, declare_apply] at h ⊢
  cases hscopes : s.scopes.declare? n b with
  | some scopes => exact ⟨scopes, rfl, rfl⟩
  | none =>
    rw [hscopes] at h
    exact (Assures.report _ _ s h).2.elim

/-- The type of what may be left out. -/
def inferOr (body : Body) : Option Expr → CheckM Ty
  | none => pure .void
  | some e => infer body e

theorem inferOr_adds (body : Body) (e : Option Expr) : Adds (inferOr body e) := by
  cases e with
  | none => exact .pure _
  | some e => exact infer_adds body e

theorem binaryType_logical {op : BinaryOp} {l r : Ty} {lspan rspan : Span}
    (h : op.isLogical = true) : (binaryType op l r lspan rspan span s).1 = .bool := by
  unfold binaryType
  rw [if_pos h]
  rfl

theorem infer_block (body : Body) (span : Span) (stmts : List Stmt) (tail : Option Expr)
    (s : State) :
    (infer body (.block span stmts tail) s).1 =
        (inferOr body tail (inferStmts body stmts (enterScope s).2).2).1 ∧
      ((infer body (.block span stmts tail) s).2.Clean →
        (inferOr body tail (inferStmts body stmts (enterScope s).2).2).2.Clean) := by
  cases tail <;> exact ⟨rfl, id⟩

/-- The type of a branch, once that of the part behind the test is known. -/
def elseType (body : Body) (whenTrue : Ty) : Option Expr → CheckM Ty
  | none => pure .void
  | some e => return whenTrue.join (← infer body e)

theorem elseType_adds (body : Body) (whenTrue : Ty) (whenFalse : Option Expr) :
    Adds (elseType body whenTrue whenFalse) := by
  cases whenFalse with
  | none => exact .pure _
  | some e => exact .bind (infer_adds body e) fun _ => .pure _

theorem infer_branch {test whenTrue : Expr} {whenFalse : Option Expr}
    (h : (infer body (.branch span test whenTrue whenFalse) s).2.Clean) :
    infer body (.branch span test whenTrue whenFalse) s =
      elseType body (infer body whenTrue (infer body test s).2).1 whenFalse
        (infer body whenTrue (infer body test s).2).2 := by
  generalize htest : (expectOperand (infer body test s).1 .bool .condition test.span
    (infer body test s).2).2 = u
  have hbranch : infer body (.branch span test whenTrue whenFalse) s =
      elseType body (infer body whenTrue u).1 whenFalse (infer body whenTrue u).2 := by
    rw [← htest]
    cases whenFalse <;> rfl
  rw [hbranch] at h ⊢
  have hu := ((infer_adds body whenTrue).quiet u ((elseType_adds _ _ _).quiet _ h).1).1
  rw [← htest] at hu
  rw [← htest, expectOperand_of_clean hu]

end Check

end StreamLang
