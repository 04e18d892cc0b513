import Mathlib.Tactic.Basic
import StreamLang.Check.Expr

/-! Judgements that change nothing but the list of findings, to which they add. What was found before plays
no part in a check. -/

namespace StreamLang.Check

/-- No error has been found. -/
def State.Clean (s : State) : Prop := ∀ d ∈ s.findings, d.isError = false

variable {α β : Type}

/-- From the state on, whatever has been found before it, the computation gives the same value, comes to
these scopes and adds these findings. -/
def ResultsIn (x : CheckM α) (s : State) (scopes : Scopes) (new : Array Diagnostic) : Prop :=
  ∀ found, x { s with findings := found } =
    ((x s).1, { s with scopes, findings := found ++ new })

namespace ResultsIn

variable {x : CheckM α} {f : α → CheckM β} {s : State} {mid scopes : Scopes}
  {new more : Array Diagnostic}

theorem state (h : ResultsIn x s scopes new) :
    (x s).2 = { s with scopes, findings := s.findings ++ new } :=
  congrArg Prod.snd (h s.findings)

theorem value (h : ResultsIn x s scopes new) (found : Array Diagnostic) :
    (x { s with findings := found }).1 = (x s).1 := by rw [h found]

theorem pure (a : α) : ResultsIn (Pure.pure a) s s.scopes #[] := by
  intro found
  rw [Array.append_empty]
  rfl

theorem bind (hx : ResultsIn x s mid new) (hf : ResultsIn (f (x s).1) (x s).2 scopes more) :
    ResultsIn (x >>= f) s scopes (new ++ more) := by
  intro found
  have hbind : (x >>= f) { s with findings := found } =
      f (x { s with findings := found }).1 (x { s with findings := found }).2 := rfl
  have hend : f (x s).1 { s with scopes := mid, findings := found ++ new } =
      ((f (x s).1 (x s).2).1, { s with scopes, findings := found ++ new ++ more }) := by
    have hrest := hf (found ++ new)
    rwa [show (x s).2.schemas = s.schemas by rw [hx.state],
      show (x s).2.scopes = mid by rw [hx.state]] at hrest
  rw [hbind, hx found, ← Array.append_assoc]
  exact hend

theorem get_bind {f : State → CheckM α} (hf : ResultsIn (f s) s scopes new)
    (hblind : ∀ found, f { s with findings := found } = f s) :
    ResultsIn (get >>= f) s scopes new := by
  intro found
  have hbind : (get >>= f) { s with findings := found } =
      f { s with findings := found } { s with findings := found } := rfl
  rw [hbind, hblind]
  exact hf found

end ResultsIn

theorem report_resultsIn (fault : CheckFault) (span : Span) (s : State) :
    ResultsIn (report fault span) s s.scopes #[.ofSpan .typing fault.message span] := by
  intro found
  rw [← Array.push_eq_append]
  rfl

/-- The computation adds findings, and changes nothing else. -/
def Adds (x : CheckM α) : Prop := ∀ s, ∃ new, ResultsIn x s s.scopes new

namespace Adds

theorem pure (a : α) : Adds (Pure.pure a : CheckM α) := fun _ => ⟨_, .pure a⟩

theorem bind {x : CheckM α} {f : α → CheckM β} (hx : Adds x) (hf : ∀ a, Adds (f a)) :
    Adds (x >>= f) := by
  intro s
  obtain ⟨new, hmid⟩ := hx s
  obtain ⟨more, hend⟩ := hf (x s).1 (x s).2
  have hscopes : (x s).2.scopes = s.scopes := by rw [hmid.state]
  rw [hscopes] at hend
  exact ⟨_, hmid.bind hend⟩

theorem get_bind {f : State → CheckM α}
    (hblind : ∀ s found, f { s with findings := found } = f s) (hf : ∀ s, Adds (f s)) :
    Adds (get >>= f) := by
  intro s
  obtain ⟨new, hend⟩ := hf s s
  exact ⟨new, hend.get_bind (hblind s)⟩

theorem report (fault : CheckFault) (span : Span) : Adds (report fault span) :=
  fun s => ⟨_, report_resultsIn fault span s⟩

theorem warn (w : Warning) (span : Span) : Adds (warn w span) :=
  fun _ => ⟨#[_], fun _ => by rw [← Array.push_eq_append]; rfl⟩

theorem reported (fault : CheckFault) (span : Span) (a : α) :
    Adds (do Check.report fault span; return a) :=
  .bind (report fault span) fun _ => .pure a

/-- A problem may be reported before the check goes on. -/
theorem reportIf {c : Prop} [Decidable c] (fault : CheckFault) (span : Span)
    {f : PUnit → CheckM α} (hf : Adds (f ())) :
    Adds (if c then Check.report fault span >>= f else f ()) := by
  split
  · exact .bind (report fault span) fun _ => hf
  · exact hf

end Adds

theorem lookup?_adds (name : String) : Adds (lookup? name) := .get_bind (fun _ _ => rfl) fun _ => .pure _

theorem recordSchema?_adds (name : String) : Adds (recordSchema? name) :=
  .get_bind (fun _ _ => rfl) fun _ => .pure _

theorem enumSchema?_adds (name : String) : Adds (enumSchema? name) :=
  .get_bind (fun _ _ => rfl) fun _ => .pure _

theorem resolveType_adds (ty : TypeExpr) : Adds (resolveType ty) := by
  refine .get_bind (fun _ _ => rfl) fun s => ?_
  cases s.schemas.resolve ty with
  | ok t => exact .pure t
  | error fault => exact .reported _ _ _

theorem resolveQuietly_adds (ty : Option TypeExpr) : Adds (resolveQuietly ty) := by
  refine .get_bind (fun _ _ => rfl) fun s => ?_
  dsimp only
  split <;> exact .pure _

theorem constantOf_adds (e : Expr) : Adds (constantOf e) := .get_bind (fun _ _ => rfl) fun _ => .pure _

theorem expectOperand_adds (actual expected : Ty) (what : Operand) (span : Span) :
    Adds (expectOperand actual expected what span) := by
  unfold expectOperand
  split
  · exact .pure ()
  · exact .report _ _

theorem expectRefinements_adds (value : Const) (span : Span) (aliases : List AliasSchema) :
    Adds (expectRefinements value span aliases) := by
  induction aliases with
  | nil => exact .pure ()
  | cons a rest ih => exact .get_bind (fun _ _ => rfl) fun s => .reportIf _ _ ih

theorem expectType_adds (expected actual : Ty) (e : Expr) (site : Site) :
    Adds (expectType expected actual e site) := by
  unfold expectType
  split
  · refine .get_bind (fun _ _ => rfl) fun s => ?_
    split
    · exact .pure ()
    · refine .bind (constantOf_adds e) fun value => ?_
      cases value with
      | some value => exact expectRefinements_adds value e.span _
      | none => exact .pure ()
  · exact .report _ _

-- calls

theorem expectArguments_adds : ∀ (number : Nat) (params args : List Ty) (exprs : List Expr),
    Adds (expectArguments number params args exprs)
  | number, param :: params, arg :: args, e :: es =>
    .bind (expectType_adds param arg e _) fun _ => expectArguments_adds (number + 1) params args es
  | _, [], _, _ => .pure ()
  | _, _ :: _, [], _ => .pure ()
  | _, _ :: _, _ :: _, [] => .pure ()

theorem apply_adds (callee : Ty) (args : List Ty) (exprs : List Expr) (span : Span) :
    Adds (apply callee args exprs span) := by
  unfold apply
  split
  · split
    · exact .reported _ _ _
    · refine .bind (expectArguments_adds 1 _ _ _) fun _ => ?_
      split <;> exact .pure _
  · exact .pure _
  · exact .reported _ _ _

theorem applyBuiltin_adds (b : Builtin) (args : List Ty) (exprs : List Expr) (span : Span) :
    Adds (applyBuiltin b args exprs span) := by
  unfold applyBuiltin
  dsimp only
  -- the last judgement is the same after each of those on the first argument
  generalize hlast : (if isTerminal b = true then (_ : CheckM Ty) else _) = last
  have hend : Adds last := by
    rw [← hlast]
    split
    · split
      · refine .get_bind (fun _ _ => rfl) fun s => ?_
        split
        · exact .bind (.warn _ _) fun _ => .pure _
        · exact .pure _
      · exact .pure _
    · exact .pure _
  split
  · exact .pure _
  · split
    · exact .reported _ _ _
    · split
      · split
        · exact .reportIf _ _ hend
        · exact hend
      · exact hend

theorem markedType_adds (m : Marker) (ty : Ty) (span : Span) :
    Adds (markedType m ty span) := by
  unfold markedType
  split
  case h_7 => exact .reported _ _ _
  all_goals exact .pure _

-- the judgements on an expression whose parts are known

theorem nameType_adds (name : String) : Adds (nameType name) := by
  refine .bind (lookup?_adds name) fun b => ?_
  cases b <;> exact .pure _

theorem binaryType_adds (op : BinaryOp) (lhs rhs : Ty) (lhsSpan rhsSpan span : Span) :
    Adds (binaryType op lhs rhs lhsSpan rhsSpan span) := by
  unfold binaryType
  split
  · exact .bind (expectOperand_adds _ _ _ _) fun _ =>
      .bind (expectOperand_adds _ _ _ _) fun _ => .pure _
  split
  · exact .pure _
  split
  · exact .reportIf _ _ (.pure _)
  split
  · split
    · exact .pure _
    · exact .reported _ _ _
  split
  · exact .reported _ _ _
  split
  · exact .reported _ _ _
  split <;> exact .pure _

theorem unaryType_adds (op : UnaryOp) (operand : Ty) (span : Span) :
    Adds (unaryType op operand span) := by
  cases op with
  | not => exact .bind (expectOperand_adds _ _ _ _) fun _ => .pure _
  | neg =>
    unfold unaryType
    dsimp only
    split
    · exact .pure _
    · exact .reported _ _ _

theorem indexType_adds (target key : Ty) (index : Expr) (span : Span) :
    Adds (indexType target key index span) := by
  have hexpect : ∀ expected what (ty : Ty),
      Adds (do expectOperand key expected what index.span; return ty) :=
    fun _ _ _ => .bind (expectOperand_adds _ _ _ _) fun _ => .pure _
  unfold indexType
  split
  · exact hexpect _ _ _
  · exact hexpect _ _ _
  · exact hexpect _ _ _
  · refine .bind (constantOf_adds index) fun constant => ?_
    split
    · split
      · exact .pure _
      · exact .reported _ _ _
    · exact .pure _
  · exact .pure _
  · exact .reported _ _ _

theorem selectType_adds (target : Ty) (field : String) (span : Span) :
    Adds (selectType target field span) := by
  unfold selectType
  split
  · refine .bind (recordSchema?_adds _) fun schema => ?_
    split
    · exact .pure _
    · exact .reported _ _ _
  · split
    · exact .pure _
    · exact .reported _ _ _
  · exact .pure _
  · exact .pure _
  · exact .reported _ _ _

theorem awaitedType_adds (future : Ty) (span : Span) : Adds (awaitedType future span) := by
  unfold awaitedType
  split
  · exact .pure _
  · exact .pure _
  · exact .reported _ _ _

theorem attemptedType_adds (inner : Ty) (span : Span) :
    Adds (attemptedType inner span) := by
  unfold attemptedType
  split
  · exact .pure _
  · exact .pure _
  · exact .pure _
  · exact .reported _ _ _

theorem eachItem_adds (site : Site) : ∀ (tys args : List Ty) (exprs : List Expr),
    Adds (expectPayload.eachItem site tys args exprs)
  | t :: ts, a :: as, e :: es =>
    .bind (expectType_adds t a e site) fun _ => eachItem_adds site ts as es
  | [], _, _ => .pure ()
  | _ :: _, [], _ => .pure ()
  | _ :: _, _ :: _, [] => .pure ()

theorem expectPayload_adds (enum variant : String) (declared : Option Ty) (args : List Ty)
    (exprs : List Expr) (span : Span) :
    Adds (expectPayload enum variant declared args exprs span) := by
  unfold expectPayload
  dsimp only
  split
  · exact .pure ()
  · exact .report _ _
  · exact expectType_adds _ _ _ _
  · split
    · exact eachItem_adds _ _ _ _
    · exact .report _ _
  · exact .report _ _

theorem variantType_adds (enum variant : String) (args : List Ty) (exprs : List Expr)
    (span : Span) : Adds (variantType enum variant args exprs span) := by
  refine .bind (enumSchema?_adds enum) fun schema => ?_
  cases schema with
  | none => exact .reported _ _ _
  | some schema =>
    dsimp only
    split
    · exact .reported _ _ _
    · exact .bind (expectPayload_adds _ _ _ _ _ _) fun _ => .pure _

theorem expectDistinct_adds (fields : List FieldInit) (seen : List String) :
    Adds (expectDistinct fields seen) := by
  induction fields generalizing seen with
  | nil => exact .pure ()
  | cons f rest ih =>
    obtain ⟨name, span, value⟩ := f
    exact .reportIf _ _ (f := fun _ => expectDistinct rest (name :: seen)) (ih _)

theorem expectComplete_adds (record : String) (span : Span) (given : List String)
    (fields : List (String × Ty)) : Adds (expectComplete record span given fields) := by
  induction fields with
  | nil => exact .pure ()
  | cons f rest ih => exact .reportIf _ _ (f := fun _ => expectComplete record span given rest) ih

theorem methodType_adds (receiver : Ty) (receiverExpr : Expr) (method : String) (args : List Ty)
    (exprs : List Expr) (span : Span) :
    Adds (methodType receiver receiverExpr method args exprs span) := by
  unfold methodType
  dsimp only
  generalize hnamed : (lookup? method >>= _ : CheckM Ty) = named
  have hfunction : Adds named := by
    rw [← hnamed]
    refine .bind (lookup?_adds method) fun found => ?_
    split
    · exact apply_adds _ _ _ _
    · split
      · exact applyBuiltin_adds _ _ _ _
      · exact .pure _
  split
  · refine .bind (recordSchema?_adds _) fun _ => .bind (.pure _) fun field => ?_
    cases field with
    | some ty => exact apply_adds _ _ _ _
    | none => exact hfunction
  · exact hfunction

theorem expectReturn_adds (written : Option TypeExpr) (body : Ty) (e : Expr) :
    Adds (expectReturn written body e) := by
  cases written with
  | none => exact .pure _
  | some w =>
    exact .bind (resolveType_adds w) fun _ => .bind (expectType_adds _ _ _ _) fun _ => .pure _

end StreamLang.Check
