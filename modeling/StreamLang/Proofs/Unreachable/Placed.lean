import StreamLang.Proofs.Machine.Agreement

/-! Code whose `await`s are in place: no guard of an arm waits, and a function that is not async
waits nowhere. Every match in it ends with an arm that takes any value. Code in which nothing waits
is left to the evaluator as a whole; of the rest the machine of a task does every `await` itself. -/

namespace StreamLang

namespace Expr

/-- The expression is evaluated from all of its parts. -/
def isFromParts : Expr → Bool
  | list _ _ => true
  | tuple _ _ => true
  | map _ _ => true
  | record _ _ _ => true
  | variant _ _ _ _ => true
  | update _ _ _ => true
  | select _ _ _ => true
  | index _ _ _ => true
  | call _ _ _ => true
  | method _ _ _ _ => true
  | binary _ op _ _ => !op.isLogical
  | unary _ _ _ => true
  | _ => false

def isAwait : Expr → Bool
  | await _ _ => true
  | _ => false

end Expr

/-- The last arm takes any value. -/
def EndsOpen (arms : List MatchArm) : Prop :=
  ∃ arm, arms.getLast? = some arm ∧ arm.pattern.isWildcard = true ∧ arm.guard = none

/-- The `await`s of the code are in place, when the body around it allows them or not. -/
inductive Expr.Placed : Bool → Expr → Prop
  | literal {allowed : Bool} (span : Span) (l : Literal) : Placed allowed (.literal span l)
  | name {allowed : Bool} (span : Span) (name : String) : Placed allowed (.name span name)
  | parts {allowed : Bool} {e : Expr} (h : e.isFromParts = true)
      (hparts : ∀ part ∈ e.operands, Placed allowed part) : Placed allowed e
  | logical {allowed : Bool} {span : Span} {op : BinaryOp} {lhs rhs : Expr}
      (h : op.isLogical = true) (hlhs : Placed allowed lhs) (hrhs : Placed allowed rhs) :
    Placed allowed (.binary span op lhs rhs)
  | branch {allowed : Bool} {span : Span} {test whenTrue : Expr} {whenFalse : Option Expr}
      (htest : Placed allowed test) (htrue : Placed allowed whenTrue)
      (hfalse : ∀ e, whenFalse = some e → Placed allowed e) :
    Placed allowed (.branch span test whenTrue whenFalse)
  | cases {allowed : Bool} {span : Span} {scrutinee : Expr} {arms : List MatchArm}
      (hscrutinee : Placed allowed scrutinee)
      (hguards : ∀ arm ∈ arms, ∀ e, arm.guard = some e → Placed false e)
      (hbodies : ∀ arm ∈ arms, Placed allowed arm.body) (hopen : EndsOpen arms) :
    Placed allowed (.cases span scrutinee arms)
  | block {allowed : Bool} {span : Span} {stmts : List Stmt} {tail : Option Expr}
      (hstmts : ∀ stmt ∈ stmts, Placed allowed stmt.inner)
      (htail : ∀ e, tail = some e → Placed allowed e) : Placed allowed (.block span stmts tail)
  | closure {allowed : Bool} {decl : FunctionDecl} (span : Span)
      (hbody : Placed decl.isAsync decl.body) : Placed allowed (.closure span decl)
  | async {allowed : Bool} {body : Expr} (span : Span) (hbody : Placed true body) :
    Placed allowed (.async span body)
  | await {future : Expr} (span : Span) (hfuture : Placed true future) :
    Placed true (.await span future)
  | attempt {allowed : Bool} {inner : Expr} (span : Span) (hinner : Placed allowed inner) :
    Placed allowed (.attempt span inner)

namespace Expr

section

variable {γ : Type} {e : Expr} (h : e.isFromParts = true)
include h

theorem evalNode_of_isFromParts (r : Recur γ) (env : Env) :
    r.evalNode e env = r.evalParts e env := by
  cases e with
  | binary span op lhs rhs =>
    have hop : op.isLogical = false := by simpa [isFromParts] using h
    rw [Recur.evalNode, hop]
    rfl
  | literal | name | branch | cases | block | closure | async | await | attempt => cases h
  | _ => rfl

theorem ofExpr_of_isFromParts (env : Env) : FrameStep.ofExpr e env = FrameStep.ofParts e env := by
  cases e with
  | binary span op lhs rhs =>
    have hop : op.isLogical = false := by simpa [isFromParts] using h
    rw [FrameStep.ofExpr, hop]
    rfl
  | literal | name | branch | cases | block | closure | async | await | attempt => cases h
  | _ => rfl

theorem suspends_of_isFromParts : e.suspends = e.operands.any suspends := by
  cases e with
  | list _ items => exact anySuspends_eq items
  | tuple _ items => exact anySuspends_eq items
  | map _ entries => exact anyEntrySuspends_eq entries
  | record _ _ fields => exact anyFieldSuspends_eq fields
  | variant _ _ _ args => exact anySuspends_eq args
  | update _ target fields => rw [suspends, anyFieldSuspends_eq, operands, List.any_cons]
  | call _ callee args => rw [suspends, anySuspends_eq, operands, List.any_cons]
  | method _ receiver _ args => rw [suspends, anySuspends_eq, operands, List.any_cons]
  | select | index | unary | binary => simp [suspends, operands]
  | literal | name | branch | cases | block | closure | async | await | attempt => cases h

end

theorem anyArmSuspends_eq (arms : List MatchArm) : anyArmSuspends arms =
    arms.any fun arm => optionSuspends arm.guard || arm.body.suspends := by
  induction arms with
  | nil => rfl
  | cons arm rest ih =>
    obtain ⟨span, pattern, guard, body⟩ := arm
    rw [anyArmSuspends, ih, List.any_cons]

theorem anyStmtSuspends_eq (stmts : List Stmt) :
    anyStmtSuspends stmts = stmts.any fun stmt => stmt.inner.suspends := by
  induction stmts with
  | nil => rfl
  | cons stmt rest ih => cases stmt <;> rw [anyStmtSuspends, ih, List.any_cons] <;> rfl

namespace Placed

/-- Where no `await` is allowed, nothing waits. -/
theorem not_suspends {allowed : Bool} {e : Expr} (h : Placed allowed e)
    (hallowed : allowed = false) : e.suspends = false := by
  have hoption : ∀ {o : Option Expr}, (∀ e, o = some e → e.suspends = false) →
      optionSuspends o = false := by
    intro o ho
    cases o with
    | none => rfl
    | some e => exact ho e rfl
  induction h with
  | literal => rfl
  | name => rfl
  | closure => rfl
  | async => rfl
  | await => cases hallowed
  | parts hparts _ ih =>
    rw [suspends_of_isFromParts hparts, List.any_eq_false]
    exact fun part hpart => by simp [ih part hpart hallowed]
  | logical _ _ _ ihl ihr => simp [suspends, ihl hallowed, ihr hallowed]
  | branch _ _ _ iht ihtrue ihfalse =>
    simp [suspends, iht hallowed, ihtrue hallowed, hoption fun e he => ihfalse e he hallowed]
  | cases _ _ _ _ ihs ihg ihb =>
    rw [suspends, ihs hallowed, anyArmSuspends_eq, Bool.false_or, List.any_eq_false]
    intro arm harm
    simp [hoption fun e he => ihg arm harm e he rfl, ihb arm harm hallowed]
  | block _ _ ihs iht =>
    rw [suspends, hoption fun e he => iht e he hallowed, anyStmtSuspends_eq, Bool.or_false,
      List.any_eq_false]
    intro stmt hstmt
    simp [ihs stmt hstmt hallowed]
  | attempt _ _ ih => exact ih hallowed

/-- Code in place that waits nowhere is in place where no `await` is allowed. -/
theorem of_not_suspends {allowed : Bool} {e : Expr} (h : Placed allowed e)
    (hwaits : e.suspends = false) : Placed false e := by
  induction h with
  | literal span l => exact .literal span l
  | name span name => exact .name span name
  | closure span hbody => exact .closure span hbody
  | async span hbody => exact .async span hbody
  | await => cases hwaits
  | parts hparts _ ih =>
    rw [suspends_of_isFromParts hparts, List.any_eq_false] at hwaits
    exact .parts hparts fun part hpart => ih part hpart (by simpa using hwaits part hpart)
  | logical hop _ _ ihl ihr =>
    simp only [suspends, Bool.or_eq_false_iff] at hwaits
    exact .logical hop (ihl hwaits.1) (ihr hwaits.2)
  | branch _ _ _ iht ihtrue ihfalse =>
    simp only [suspends, Bool.or_eq_false_iff] at hwaits
    refine .branch (iht hwaits.1.1) (ihtrue hwaits.1.2) fun e he => ihfalse e he ?_
    subst he
    exact hwaits.2
  | cases _ hguards _ hopen ihs _ ihb =>
    simp only [suspends, anyArmSuspends_eq, Bool.or_eq_false_iff, List.any_eq_false] at hwaits
    refine .cases (ihs hwaits.1) hguards (fun arm harm => ihb arm harm ?_) hopen
    have := hwaits.2 arm harm
    simp_all
  | block _ _ ihs iht =>
    simp only [suspends, anyStmtSuspends_eq, Bool.or_eq_false_iff, List.any_eq_false] at hwaits
    refine .block (fun stmt hstmt => ihs stmt hstmt ?_) fun e he => iht e he ?_
    · simpa using hwaits.1 stmt hstmt
    · subst he
      exact hwaits.2
  | attempt span _ ih => exact .attempt span (ih hwaits)

/-- What is left of a block in place is in place. -/
theorem of_statements {allowed : Bool} {e : Expr} (h : Placed allowed e) {next : Nat}
    {left : List Stmt × Option Expr} (hleft : e.statements next = .ok left) :
    (∀ stmt ∈ left.1, Placed allowed stmt.inner) ∧ ∀ e', left.2 = some e' → Placed allowed e' := by
  obtain ⟨span, stmts, rfl, hdrop⟩ := statements_eq_ok hleft
  cases h with
  | parts hfrom _ => cases hfrom
  | block hstmts htail =>
    refine ⟨fun stmt hmem => hstmts stmt ?_, htail⟩
    rw [← hdrop] at hmem
    exact List.mem_of_mem_drop hmem

end Placed

/-- An expression that may wait has a first part, so that the machine can begin with it. -/
theorem ofExpr_of_suspends {e : Expr} (h : e.suspends = true) (env : Env) :
    ∃ step, FrameStep.ofExpr e env = .ok step := by
  cases hparts : e.isFromParts with
  | true =>
    rw [ofExpr_of_isFromParts hparts, FrameStep.ofParts]
    rw [suspends_of_isFromParts hparts] at h
    cases hops : e.operands with
    | nil =>
      rw [hops] at h
      cases h
    | cons first rest => exact ⟨_, rfl⟩
  | false =>
    cases e with
    | literal | name | closure | async => cases h
    | binary span op lhs rhs =>
      have hop : op.isLogical = true := by simpa [isFromParts] using hparts
      exact ⟨_, if_pos hop⟩
    | branch | cases | block | await | attempt => exact ⟨_, rfl⟩
    | _ => cases hparts

end Expr

end StreamLang
