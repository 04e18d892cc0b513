import StreamLang.Gateway.Stock
import StreamLang.Proofs.Alias.Rounds
import StreamLang.Proofs.Checker.Declares
import StreamLang.Proofs.Contents.Builtins
import StreamLang.Proofs.Unreachable.Run

/-! What a check that finds no error assures. A finding is never taken back, so that where no error
is found in the end, none was found on the way either. -/

namespace StreamLang.Check

/-- If no error has been found at the end, then none had been found before, and `p` is so. -/
def Assures {α : Type} (p : Prop) (x : CheckM α) : Prop := ∀ s, (x s).2.Clean → s.Clean ∧ p

variable {α β : Type} {p q : Prop}

namespace Assures

theorem imp {x : CheckM α} (h : Assures p x) (hpq : p → q) : Assures q x :=
  fun s hs => ⟨(h s hs).1, hpq (h s hs).2⟩

theorem quiet {x : CheckM α} (h : Assures p x) : Assures True x := h.imp fun _ => trivial

theorem pure (a : α) : Assures True (Pure.pure a : CheckM α) := fun _ hs => ⟨hs, trivial⟩

theorem bind {x : CheckM α} {f : α → CheckM β} (hx : Assures p x) (hf : ∀ a, Assures q (f a)) :
    Assures (p ∧ q) (x >>= f) := by
  intro s hs
  obtain ⟨hmid, hq⟩ := hf (x s).1 (x s).2 hs
  obtain ⟨hbefore, hp⟩ := hx s hmid
  exact ⟨hbefore, hp, hq⟩

/-- What is assured comes of what is done first. -/
theorem first {x : CheckM α} {f : α → CheckM β} (hx : Assures p x) (hf : ∀ a, Assures True (f a)) :
    Assures p (x >>= f) :=
  (bind hx hf).imp And.left

/-- What is assured comes of what is done then. -/
theorem next {x : CheckM α} {f : α → CheckM β} (hx : Assures True x) (hf : ∀ a, Assures p (f a)) :
    Assures p (x >>= f) :=
  (bind hx hf).imp And.right

theorem get_bind {f : State → CheckM α} (hf : ∀ s, Assures p (f s)) : Assures p (get >>= f) :=
  fun s hs => hf s s hs

theorem modify {f : State → State} (h : ∀ s, (f s).findings = s.findings) :
    Assures True (modify f : CheckM PUnit) :=
  fun s hs => ⟨fun d hd => hs d (by rwa [← h s] at hd), trivial⟩

/-- Where a problem is reported, no more is to be shown. -/
theorem report (fault : CheckFault) (span : Span) : Assures False (report fault span) :=
  fun _ hs => nomatch (hs _ Array.mem_push_self : true = false)

theorem reported (fault : CheckFault) (span : Span) (a : α) :
    Assures True (do Check.report fault span; return a) :=
  .next (report fault span).quiet fun _ => .pure a

/-- Where the check goes on without a problem, there was no reason to report one. -/
theorem reportUnless {c : Prop} [Decidable c] (fault : CheckFault) (span : Span)
    {f : PUnit → CheckM α} (hf : Assures p (f ())) :
    Assures (¬c ∧ p) (if c then Check.report fault span >>= f else f ()) := by
  split
  · exact .first ((report fault span).imp False.elim) fun _ => hf.quiet
  · exact hf.imp fun hp => ⟨‹_›, hp⟩

/-- A problem may be reported before the check goes on. -/
theorem reportIf {c : Prop} [Decidable c] (fault : CheckFault) (span : Span)
    {f : PUnit → CheckM α} (hf : Assures p (f ())) :
    Assures p (if c then Check.report fault span >>= f else f ()) :=
  (reportUnless fault span hf).imp And.right

theorem warn (w : Warning) (span : Span) : Assures True (warn w span) :=
  fun _ hs => ⟨fun d hd => hs d (Array.mem_push_of_mem _ hd), trivial⟩

end Assures

/-- Findings are never taken back. -/
theorem Adds.quiet {x : CheckM α} (h : Adds x) : Assures True x := by
  intro s hs
  obtain ⟨new, hend⟩ := h s
  rw [hend.state] at hs
  exact ⟨hs.of_append, trivial⟩

theorem Declares.quiet {ok : Binding → Prop} {names : List String} {x : CheckM α}
    (h : Declares ok names x) : Assures True x := by
  intro s hs
  obtain ⟨scope, new, hend, -⟩ := h s
  rw [hend.state] at hs
  exact ⟨hs.of_append, trivial⟩

theorem enterScope_quiet : Assures True enterScope := .modify fun _ => rfl

theorem exitScope_quiet : Assures True exitScope := .modify fun _ => rfl

theorem declare_quiet (name : String) (b : Binding) : Assures True (declare name b) := by
  intro s hs
  rw [declare_apply] at hs
  cases hscopes : s.scopes.declare? name b <;> rw [hscopes] at hs <;> exact ⟨hs, trivial⟩

end StreamLang.Check

/-! In a program that is found to be without errors all code is in place: that of the items and of
the functions of each module, and that of the predicates of aliases. -/

namespace StreamLang

namespace Check

/-- An `await` may stand here. -/
def Body.awaits (body : Body) : Bool := body.allowsAwait && !body.inGuard

theorem endsOpen_of_exhaustive {arms : List MatchArm}
    (h : (arms.getLast?.map fun a => a.pattern.isWildcard && a.guard.isNone).getD false = true) :
    EndsOpen arms := by
  cases hlast : arms.getLast? with
  | none =>
    rw [hlast] at h
    cases h
  | some arm =>
    rw [hlast] at h
    simp only [Option.map_some, Option.getD_some, Bool.and_eq_true, Option.isNone_iff_eq_none] at h
    exact ⟨arm, hlast, h⟩

mutual

/-- The checks of an expression assure that its code is in place. -/
theorem infer_assures (body : Body) :
    ∀ e : Expr, Assures (e.Placed body.awaits) (infer body e)
  | .literal span value => (Assures.pure _).imp fun _ => .literal span value
  | .name span name => (nameType_adds name).quiet.imp fun _ => .name span name
  | .list span items =>
    .first ((inferAll_assures body items).imp fun h => .parts rfl h) fun _ => .pure _
  | .tuple span items =>
    .first ((inferAll_assures body items).imp fun h => .parts rfl h) fun _ => .pure _
  | .map span entries =>
    .first ((inferEntries_assures body entries).imp fun h => .parts rfl (List.forall_mem_map.2 h))
      fun _ => .pure _
  | .record span name fields => by
    have hparts : (∀ f ∈ fields, f.value.Placed body.awaits) →
        (Expr.record span name fields).Placed body.awaits :=
      fun h => .parts rfl (List.forall_mem_map.2 h)
    rw [infer]
    refine .next (recordSchema?_adds name).quiet fun schema => ?_
    cases schema with
    | none =>
      exact .first ((inferFields_assures body name none fields).imp hparts) fun _ => .reported _ _ _
    | some schema =>
      refine .next (expectDistinct_adds fields []).quiet fun _ => ?_
      exact .first ((inferFields_assures body name _ fields).imp hparts) fun _ =>
        .next (expectComplete_adds _ _ _ _).quiet fun _ => .pure _
  | .variant span enum variant args =>
    .first ((inferAll_assures body args).imp fun h => .parts rfl h) fun _ =>
      (variantType_adds _ _ _ _ _).quiet
  | .update span target fields => by
    have hparts : target.Placed body.awaits ∧ (∀ f ∈ fields, f.value.Placed body.awaits) →
        (Expr.update span target fields).Placed body.awaits :=
      fun h => .parts rfl (List.forall_mem_cons.2 ⟨h.1, List.forall_mem_map.2 h.2⟩)
    rw [infer]
    refine (Assures.bind (infer_assures body target) fun ty => ?_).imp hparts
    split
    · exact .next (recordSchema?_adds _).quiet fun _ =>
        .first (inferFields_assures body _ _ fields) fun _ => .pure _
    · exact .first (inferFieldValues_assures body fields) fun _ => .pure _
    · exact .first (inferFieldValues_assures body fields) fun _ => .pure _
    · exact .first ((Assures.report _ _).imp False.elim) fun _ => .pure _
  | .select span target field =>
    .first ((infer_assures body target).imp fun h => .parts rfl (List.forall_mem_singleton.2 h))
      fun _ => (selectType_adds _ _ _).quiet
  | .index span target i =>
    (Assures.bind (infer_assures body target) fun _ =>
      .first (infer_assures body i) fun _ => (indexType_adds _ _ _ _).quiet).imp fun h =>
        .parts rfl (List.forall_mem_cons.2 ⟨h.1, List.forall_mem_singleton.2 h.2⟩)
  | .call span callee args => by
    have hcallee := infer_assures body callee
    have hargs := inferAll_assures body args
    have hparts : callee.Placed body.awaits ∧ (∀ e ∈ args, e.Placed body.awaits) →
        (Expr.call span callee args).Placed body.awaits :=
      fun h => .parts rfl (List.forall_mem_cons.2 h)
    have hfunction : Assures ((Expr.call span callee args).Placed body.awaits) (do
        let ty ← infer body callee
        let tys ← inferAll body args
        apply ty tys args span) :=
      (Assures.bind hcallee fun _ => .first hargs fun _ => (apply_adds _ _ _ _).quiet).imp hparts
    cases callee with
    | name nameSpan n =>
      -- a builtin that is called by its name is not looked up, so that only the arguments are left
      have hbuiltin : ∀ b, Assures ((Expr.call span (.name nameSpan n) args).Placed body.awaits) (do
          let tys ← inferAll body args
          applyBuiltin b tys args span) :=
        fun b => .first (hargs.imp fun h => hparts ⟨.name nameSpan n, h⟩) fun _ =>
          (applyBuiltin_adds b _ _ _).quiet
      rw [infer]
      refine .next (lookup?_adds n).quiet fun found => ?_
      cases found with
      | some b => exact hfunction
      | none => cases hb : Builtin.ofName? n with
        | some b => exact hbuiltin b
        | none => exact hfunction
    | _ => exact hfunction
  | .method span receiver name args =>
    (Assures.bind (infer_assures body receiver) fun _ =>
      .first (inferAll_assures body args) fun _ => (methodType_adds _ _ _ _ _ _).quiet).imp fun h =>
        .parts rfl (List.forall_mem_cons.2 h)
  | .binary span op lhs rhs => by
    rw [infer]
    refine (Assures.bind (infer_assures body lhs) fun _ =>
      .first (infer_assures body rhs) fun _ => (binaryType_adds _ _ _ _ _ _).quiet).imp fun h => ?_
    cases hop : op.isLogical with
    | true => exact .logical hop h.1 h.2
    | false =>
      exact .parts (by simp [Expr.isFromParts, hop])
        (List.forall_mem_cons.2 ⟨h.1, List.forall_mem_singleton.2 h.2⟩)
  | .unary span op operand =>
    .first ((infer_assures body operand).imp fun h => .parts rfl (List.forall_mem_singleton.2 h))
      fun _ => (unaryType_adds _ _ _).quiet
  | .branch span test whenTrue none =>
    (Assures.bind (infer_assures body test) fun _ => .next (expectOperand_adds _ _ _ _).quiet fun _ =>
      .first (infer_assures body whenTrue) fun _ => .pure _).imp fun h =>
        .branch h.1 h.2 (by rintro e ⟨⟩)
  | .branch span test whenTrue (some whenFalse) =>
    (Assures.bind (infer_assures body test) fun _ => .next (expectOperand_adds _ _ _ _).quiet fun _ =>
      .bind (infer_assures body whenTrue) fun _ =>
        .first (infer_assures body whenFalse) fun _ => .pure _).imp fun h =>
          .branch h.1 h.2.1 (by rintro e ⟨⟩; exact h.2.2)
  | .cases span scrutinee arms => by
    rw [infer]
    dsimp only
    refine (Assures.bind (infer_assures body scrutinee) fun ty => .reportUnless _ _
      (.first (inferArms_assures body ty arms) fun _ => .pure _)).imp fun h => ?_
    obtain ⟨hscrutinee, hopen, harms⟩ := h
    exact .cases hscrutinee (fun arm harm => (harms arm harm).1) (fun arm harm => (harms arm harm).2)
      (endsOpen_of_exhaustive (by simpa using hopen))
  | .block span stmts none =>
    (Assures.next enterScope_quiet fun _ => .first (inferStmts_assures body stmts) fun _ =>
      .next exitScope_quiet fun _ => .pure _).imp fun h => .block h (by rintro e ⟨⟩)
  | .block span stmts (some tail) =>
    (Assures.next enterScope_quiet fun _ => .bind (inferStmts_assures body stmts) fun _ =>
      .first (infer_assures body tail) fun _ => .next exitScope_quiet fun _ => .pure _).imp fun h =>
        .block h.1 (by rintro e ⟨⟩; exact h.2)
  | .closure span decl => (inferFunction_assures decl).imp fun h => .closure span h
  | .async span inner =>
    .first ((infer_assures ⟨true, false⟩ inner).imp fun h => .async span h) fun _ => .pure _
  | .await span future => by
    have hinner : Assures (future.Placed body.awaits) (do
        let ty ← infer body future
        awaitedType ty span) :=
      .first (infer_assures body future) fun _ => (awaitedType_adds _ _).quiet
    rw [infer]
    dsimp only
    split
    · exact .first ((Assures.report _ _).imp False.elim) fun _ => hinner.quiet
    · refine (Assures.reportUnless _ _ hinner).imp fun h => ?_
      have hawaits : body.awaits = true := by simp_all [Body.awaits]
      rw [hawaits] at h ⊢
      exact .await span h.2
  | .attempt span inner =>
    .first ((infer_assures body inner).imp fun h => .attempt span h) fun _ =>
      (attemptedType_adds _ _).quiet
termination_by structural e => e

theorem inferAll_assures (body : Body) :
    ∀ es : List Expr, Assures (∀ e ∈ es, e.Placed body.awaits) (inferAll body es)
  | [] => (Assures.pure _).imp fun _ => List.forall_mem_nil _
  | e :: rest =>
    (Assures.bind (infer_assures body e) fun _ =>
      .first (inferAll_assures body rest) fun _ => .pure _).imp List.forall_mem_cons.2
termination_by structural es => es

theorem inferEntries_assures (body : Body) : ∀ entries : List (String × Expr),
    Assures (∀ entry ∈ entries, entry.2.Placed body.awaits) (inferEntries body entries)
  | [] => (Assures.pure _).imp fun _ => List.forall_mem_nil _
  | (_, e) :: rest =>
    (Assures.bind (infer_assures body e) fun _ =>
      .first (inferEntries_assures body rest) fun _ => .pure _).imp fun h =>
        List.forall_mem_cons.2 h
termination_by structural entries => entries

theorem inferFieldValues_assures (body : Body) : ∀ fields : List FieldInit,
    Assures (∀ f ∈ fields, f.value.Placed body.awaits) (inferFieldValues body fields)
  | [] => (Assures.pure _).imp fun _ => List.forall_mem_nil _
  | ⟨_, _, e⟩ :: rest =>
    (Assures.bind (infer_assures body e) fun _ =>
      .first (inferFieldValues_assures body rest) fun _ => .pure _).imp fun h =>
        List.forall_mem_cons.2 h
termination_by structural fields => fields

theorem inferFields_assures (body : Body) (record : String) (schema : Option RecordSchema) :
    ∀ fields : List FieldInit,
      Assures (∀ f ∈ fields, f.value.Placed body.awaits) (inferFields body record schema fields)
  | [] => (Assures.pure _).imp fun _ => List.forall_mem_nil _
  | ⟨name, span, e⟩ :: rest => by
    have hrest := inferFields_assures body record schema rest
    rw [inferFields]
    refine (Assures.bind (q := ∀ f ∈ rest, f.value.Placed body.awaits) (infer_assures body e)
      fun ty => ?_).imp fun h => List.forall_mem_cons.2 h
    dsimp only
    split
    · exact hrest
    · split
      · exact .next (expectType_adds _ _ _ _).quiet fun _ => hrest
      · exact .next (Assures.report _ _).quiet fun _ => hrest
termination_by structural fields => fields

theorem inferArms_assures (body : Body) (scrutinee : Ty) : ∀ arms : List MatchArm,
    Assures (∀ arm ∈ arms, (∀ e, arm.guard = some e → e.Placed false) ∧
      arm.body.Placed body.awaits) (inferArms body scrutinee arms)
  | [] => (Assures.pure _).imp fun _ => List.forall_mem_nil _
  | ⟨_, pattern, none, e⟩ :: rest =>
    (Assures.next enterScope_quiet fun _ => .next (bindPattern_declares _ _ _).quiet fun _ =>
      .bind (infer_assures body e) fun _ => .next exitScope_quiet fun _ =>
        .first (inferArms_assures body scrutinee rest) fun _ => .pure _).imp fun h =>
          List.forall_mem_cons.2 ⟨⟨by rintro e ⟨⟩, h.1⟩, h.2⟩
  | ⟨_, pattern, some guard, e⟩ :: rest => by
    have hguard : Body.awaits { body with inGuard := true } = false := by simp [Body.awaits]
    refine (Assures.next enterScope_quiet fun _ => .next (bindPattern_declares _ _ _).quiet fun _ =>
      .bind (infer_assures { body with inGuard := true } guard) fun _ =>
        .next (expectOperand_adds _ _ _ _).quiet fun _ => .bind (infer_assures body e) fun _ =>
          .next exitScope_quiet fun _ =>
            .first (inferArms_assures body scrutinee rest) fun _ => .pure _).imp fun h => ?_
    rw [hguard] at h
    exact List.forall_mem_cons.2 ⟨⟨by rintro e ⟨⟩; exact h.1, h.2.1⟩, h.2.2⟩
termination_by structural arms => arms

theorem inferStmts_assures (body : Body) : ∀ stmts : List Stmt,
    Assures (∀ stmt ∈ stmts, stmt.inner.Placed body.awaits) (inferStmts body stmts)
  | [] => (Assures.pure _).imp fun _ => List.forall_mem_nil _
  | .bind _ _ _ value :: rest =>
    (Assures.bind (infer_assures body value) fun _ =>
      .next (declareLet_declares _ _ _ _).quiet fun _ => inferStmts_assures body rest).imp fun h =>
        List.forall_mem_cons.2 h
  | .expr e :: rest =>
    (Assures.bind (infer_assures body e) fun _ => inferStmts_assures body rest).imp fun h =>
      List.forall_mem_cons.2 h
termination_by structural stmts => stmts

theorem inferFunction_assures :
    ∀ d : FunctionDecl, Assures (d.body.Placed d.isAsync) (inferFunction d)
  | ⟨name, params, ret, e, isAsync, span⟩ => by
    have hbody : Body.awaits ⟨isAsync, false⟩ = isAsync := by simp [Body.awaits]
    refine .next enterScope_quiet fun _ => .next (declareParams_declares params).quiet fun _ => ?_
    refine .first ?_ fun _ => .next (expectReturn_adds _ _ _).quiet fun _ =>
      .next exitScope_quiet fun _ => .pure _
    have h := infer_assures ⟨isAsync, false⟩ e
    rw [hbody] at h
    exact h
termination_by structural d => d

end

-- modules

theorem checkPredicates_assures (items : List Item) :
    Assures (∀ i ∈ items, i.kind.PredicatePlaced) (checkPredicates items) := by
  induction items with
  | nil => exact (Assures.pure ()).imp fun _ => List.forall_mem_nil _
  | cons i rest ih =>
    have hnone : i.kind.PredicatePlaced →
        Assures (∀ j ∈ i :: rest, j.kind.PredicatePlaced) (checkPredicates rest) :=
      fun hi => ih.imp fun hrest => List.forall_mem_cons.2 ⟨hi, hrest⟩
    obtain ⟨kind, exported, span⟩ := i
    cases kind with
    | typeAlias d =>
      cases hp : d.predicate with
      | none =>
        unfold checkPredicates
        simp only [aliasDecl?, Option.bind_some, hp, Option.map_none]
        exact hnone (by rintro p h; rw [hp] at h; cases h)
      | some predicate =>
        have hplaced : predicate.Placed false →
            (ItemKind.typeAlias d).PredicatePlaced := by
          rintro h p hsome
          rw [hp] at hsome
          cases hsome
          exact h
        unfold checkPredicates
        simp only [aliasDecl?, Option.bind_some, hp, Option.map_some]
        refine .get_bind fun s => .next enterScope_quiet fun _ => ?_
        refine .next (declare_quiet _ _) fun _ => ?_
        have hpredicate := infer_assures ⟨false, false⟩ predicate
        refine (Assures.bind hpredicate fun ty => .next exitScope_quiet fun _ =>
          .reportIf _ _ ih).imp fun h => ?_
        exact List.forall_mem_cons.2 ⟨hplaced h.1, h.2⟩
    | _ => exact hnone trivial

theorem checkFunctions_assures (decls : List FunctionDecl) :
    Assures (∀ d ∈ decls, d.body.Placed d.isAsync) (checkFunctions decls) := by
  induction decls with
  | nil => exact (Assures.pure ()).imp fun _ => List.forall_mem_nil _
  | cons d rest ih =>
    have hrest : ∀ ty, Assures (∀ d ∈ rest, d.body.Placed d.isAsync) (do
        modify fun s : State => { s with scopes := s.scopes.refineGlobal d.displayName (.ofTy ty) }
        checkFunctions rest) :=
      fun _ => .next (.modify fun _ => rfl) fun _ => ih
    exact (Assures.bind (inferFunction_assures d) hrest).imp fun h => List.forall_mem_cons.2 h

theorem checkValues_assures (items : List Item) (globals : Globals) :
    Assures (∀ i ∈ items, i.kind.Placed) (checkValues items globals) := by
  induction items generalizing globals with
  | nil => exact (Assures.pure _).imp fun _ => List.forall_mem_nil _
  | cons i rest ih =>
    obtain ⟨kind, exported, span⟩ := i
    cases kind with
    | binding d =>
      exact (Assures.bind (infer_assures .module d.value) fun _ =>
        .next (declareLet_declares _ _ _ _).quiet fun _ => .get_bind fun _ => ih _).imp fun h =>
          List.forall_mem_cons.2 h
    | expr e =>
      exact (Assures.bind (infer_assures .module e) fun _ => ih globals).imp fun h =>
        List.forall_mem_cons.2 h
    | _ => exact (ih globals).imp fun h => List.forall_mem_cons.2 ⟨trivial, h⟩

theorem checkUnit_assures (exports : Exports) (u : ModuleUnit) :
    Assures u.Placed (checkUnit exports u) := by
  refine .next (.modify fun _ => rfl) fun _ => .next (declareImports_declares _ _ _).quiet fun _ => ?_
  refine .next (declareFunctions_declares _ _ _).quiet fun _ => ?_
  refine (Assures.bind (checkPredicates_assures u.program.items) fun _ =>
    .bind (checkFunctions_assures u.functions) fun _ =>
      .first (checkValues_assures u.program.items _) fun _ => .get_bind fun _ => .pure _).imp ?_
  exact fun h => ⟨h.2.1, h.2.2, h.1⟩

theorem checkUnits_assures (units : List ModuleUnit) (exports : Exports)
    (summaries : List (FunctionId × Purity.Summary)) :
    Assures (∀ u ∈ units, u.Placed) (checkUnits units exports summaries) := by
  induction units generalizing exports summaries with
  | nil => exact (Assures.pure _).imp fun _ => List.forall_mem_nil _
  | cons u rest ih =>
    exact (Assures.bind (checkUnit_assures exports u) fun _ => ih _ _).imp fun h =>
      List.forall_mem_cons.2 h

/-- The predicates in the table are those of the aliases that the modules declare. -/
theorem collectSchemas_placed {units : List ModuleUnit} (h : ∀ u ∈ units, u.Placed) :
    (collectSchemas units).table.Placed := by
  refine collectSchemas_predicates fun u hu i hitem d hd => ?_
  have hplaced := (h u hu).predicates i hitem
  rwa [hd] at hplaced

/-- A program without errors: no error is found on the way, and its types are those that are collected. -/
theorem program_eq_ok {units : List ModuleUnit} {checked : Checked}
    (h : program units = .ok checked) : checked.schemas = (collectSchemas units).table ∧
      (checkUnits units [] [] ⟨checked.schemas, .empty, #[]⟩).2.Clean := by
  unfold program at h
  dsimp only at h
  split at h
  case isFalse => cases h
  case isTrue =>
    split at h
    case isTrue => cases h
    case isFalse hclean =>
      cases h
      rw [Bool.not_eq_true, Diagnostic.hasErrors, List.any_eq_false] at hclean
      exact ⟨rfl, fun d hd => Bool.eq_false_iff.2 (hclean d (Array.mem_toList_iff.2 hd))⟩

theorem program_faults {units : List ModuleUnit} {checked : Checked}
    (h : program units = .ok checked) : (collectSchemas units).faults = [] := by
  unfold program at h
  dsimp only at h
  split at h
  · exact List.isEmpty_iff.1 ‹_›
  · cases h

/-- All its code is in place. -/
theorem program_placed {units : List ModuleUnit} {checked : Checked}
    (h : program units = .ok checked) : (∀ u ∈ units, u.Placed) ∧ checked.schemas.Placed := by
  obtain ⟨hschemas, hclean⟩ := program_eq_ok h
  have hunits := (checkUnits_assures units [] [] _ hclean).2
  rw [hschemas]
  exact ⟨hunits, collectSchemas_placed hunits⟩

end Check

theorem accept_eq_ok {mainName : String} {main : Program} {provider : Provider} {a : Accepted}
    (h : accept mainName main provider = .ok a) :
    Modules.resolve mainName main provider = .ok a.units ∧ Check.program a.units = .ok a.checked := by
  unfold accept at h
  split at h
  case h_1 => cases h
  case h_2 units hunits =>
    split at h
    case h_1 => cases h
    case h_2 checked hchecked =>
      cases h
      exact ⟨hunits, hchecked⟩

end StreamLang

/-! Programs that are accepted. Whatever the options are and whatever the provider does, none of
their runs meets an internal fault, the first one as little as those on the state that earlier runs
left. -/

namespace StreamLang

variable {γ : Type} [Gateway γ]

/-- The states between the runs of a program. -/
inductive Session (a : Accepted) : Interpreter γ → Prop
  | start (options : Options) (gateway : γ) : Session a (.start a.checked options gateway)
  | again {s : Interpreter γ} (h : Session a s) (fuel : Nat) : Session a (s.execute fuel a.units).2
  | clearLog {s : Interpreter γ} (h : Session a s) : Session a s.clearLog

theorem accept_placed {mainName : String} {main : Program} {provider : Provider} {a : Accepted}
    (h : accept mainName main provider = .ok a) :
    (∀ u ∈ a.units, u.Placed) ∧ a.checked.schemas.Placed :=
  Check.program_placed (accept_eq_ok h).2

/-- What the run does is what the vigilant run does, and it ends in a sound state without an
internal fault. -/
theorem runProgram_secure {units : List ModuleUnit} (hunits : ∀ u ∈ units, u.Placed) (fuel : Nat)
    {s : Interpreter γ} (hs : s.Sound) :
    (Runner.vigilant fuel).runProgram units s = (Recur.ofFuel fuel).runProgram units s ∧
      Run.Ends s.width Run.Anything ((Recur.ofFuel fuel).runProgram units s) := by
  rw [← Recur.runner_runProgram]
  exact ((Recur.vigilant_secure fuel).runner.runProgram hunits) s ⟨hs, Nat.le_refl _⟩

theorem Interpreter.execute_secure {units : List ModuleUnit} (hunits : ∀ u ∈ units, u.Placed)
    (fuel : Nat) {s : Interpreter γ} (hs : s.Sound) :
    (s.execute fuel units).2.Sound ∧ ∀ fault line,
      (s.execute fuel units).1 = .failed fault line → fault.isInternal = false := by
  obtain ⟨-, hends⟩ := runProgram_secure hunits fuel hs
  unfold Interpreter.execute
  cases hrun : (Recur.ofFuel fuel).runProgram units s with
  | ok a t =>
    rw [hrun] at hends
    exact ⟨hends.1.sound, by rintro fault line ⟨⟩⟩
  | error u t =>
    rw [hrun] at hends
    cases u with
    | fail fault line =>
      refine ⟨hends.1.sound, ?_⟩
      rintro _ _ ⟨⟩
      exact Bool.eq_false_iff.2 hends.2
    | early v line =>
      refine ⟨hends.1.sound, ?_⟩
      rintro _ _ ⟨⟩
      rfl
    | exhausted => exact ⟨hends.1.sound, by rintro fault line ⟨⟩⟩

omit [Gateway γ] in
theorem Interpreter.start_sound {checked : Checked} (options : Options) (gateway : γ)
    (h : checked.schemas.Placed) : (start checked options gateway).Sound where
  predicates := h
  globals scope hscope := by cases hscope with | mk hscope => cases hscope
  memo key v hv := by
    rw [show (start checked options gateway).memo.entries = ∅ from rfl,
      Std.HashMap.getElem?_empty] at hv
    cases hv
  scheduler := Scheduler.sound_empty

theorem Session.sound {a : Accepted} (hunits : ∀ u ∈ a.units, u.Placed)
    (hpredicates : a.checked.schemas.Placed) {s : Interpreter γ} (hs : Session a s) :
    s.Sound := by
  induction hs with
  | start options gateway => exact Interpreter.start_sound options gateway hpredicates
  | again _ fuel ih => exact (Interpreter.execute_secure hunits fuel ih).1
  | clearLog _ ih => exact ih.of_same ⟨rfl, rfl, rfl, rfl⟩

/-- A program that is accepted never makes the evaluator fail with a fault of its own, in any run,
with any options and with any provider. The run is the one in which the evaluator stops at every
`await` it is given, and in which a task that fails with such a fault does not just fail, but ends
the whole run; and that run does not end so. So every `await` is done by the machine of a task, on a
future there is, and every frame of a machine finds an expression of the form that it is for. -/
theorem accepted_meets_no_internal_fault {mainName : String} {main : Program} {provider : Provider}
    {a : Accepted} (haccept : accept mainName main provider = .ok a) {s : Interpreter γ}
    (hs : Session a s) (fuel : Nat) :
    (Runner.vigilant fuel).runProgram a.units s = (Recur.ofFuel fuel).runProgram a.units s ∧
      (∀ u t, (Runner.vigilant fuel).runProgram a.units s = .error u t → u.isInternal = false) ∧
      ∀ fault line, (s.execute fuel a.units).1 = .failed fault line → fault.isInternal = false := by
  obtain ⟨hunits, hpredicates⟩ := accept_placed haccept
  have hsound := hs.sound hunits hpredicates
  obtain ⟨hsame, hends⟩ := runProgram_secure hunits fuel hsound
  refine ⟨hsame, fun u t hrun => ?_, (Interpreter.execute_secure hunits fuel hsound).2⟩
  rw [hsame] at hrun
  rw [hrun] at hends
  cases u with
  | fail fault line => exact Bool.eq_false_iff.2 hends.2
  | early | exhausted => rfl

/-- `let later = async { 1 };`
`match await later { n if n > 3 => n, _ => 0 }` -/
def awaitingProgram : Program where
  items :=
    [⟨.binding ⟨.none, .bind .none "later", none, .async .none (.literal .none (.int 1))⟩, false,
      .none⟩,
     ⟨.expr (.cases .none (.await .none (.name .none "later"))
      [⟨.none, .bind .none "n", some (.binary .none .gt (.name .none "n") (.literal .none (.int 3))),
        .name .none "n"⟩,
       ⟨.none, .wildcard .none, none, .literal .none (.int 0)⟩]), false, .none⟩]

def awaitingAccepted : Accepted :=
  ⟨[⟨"main", awaitingProgram, []⟩], ⟨(Check.collectSchemas []).table, [], []⟩⟩

def awaitingState : Interpreter StockGateway :=
  .start awaitingAccepted.checked .default (.null [])

/-- The program is accepted. It waits for a task of its own, and meets no internal fault. -/
theorem awaiting_meets_no_internal_fault :
    accept "main" awaitingProgram [] = .ok awaitingAccepted ∧
      Session awaitingAccepted awaitingState ∧
      (Runner.vigilant 40).runProgram awaitingAccepted.units awaitingState =
        (Recur.ofFuel 40).runProgram awaitingAccepted.units awaitingState ∧
      ∀ fault line, (awaitingState.execute 40 awaitingAccepted.units).1 = .failed fault line →
        fault.isInternal = false := by
  have haccept : accept "main" awaitingProgram [] = .ok awaitingAccepted := rfl
  have hs : Session awaitingAccepted awaitingState := .start _ _
  have h := accepted_meets_no_internal_fault haccept hs 40
  exact ⟨haccept, hs, h.1, h.2.2⟩

end StreamLang
