import StreamLang.Grammar.Expr
import StreamLang.Proofs.Grammar.Extension

/-! Every reader of types, patterns and expressions reads the same in front of a closing mark, however
much deeper it may nest there. -/

namespace StreamLang.Grammar

variable {α : Type}

/-! Tokens that carry a text -/

theorem hungry_ident (what : String) : Hungry (ident what) := by
  rintro _ _ ⟨⟩

theorem extends_ident (what : String) : Extends .none (ident what) (ident what) := by
  refine .of_cons (hungry_ident what) fun t more => ?_
  obtain ⟨kind, span⟩ := t
  cases kind with
  | ident name => exact .take (Extends.pure rfl more) rfl fun _ => rfl
  | _ => rintro _ _ ⟨⟩

theorem hungry_mapKey : Hungry mapKey := by
  rintro _ _ ⟨⟩

theorem extends_mapKey : Extends .none mapKey mapKey := by
  refine .of_cons hungry_mapKey fun t more => ?_
  obtain ⟨kind, span⟩ := t
  cases kind with
  | ident name => exact .take (Extends.pure rfl more) rfl fun _ => rfl
  | text contents => exact .take (Extends.pure rfl more) rfl fun _ => rfl
  | _ => rintro _ _ ⟨⟩

theorem intLiteral_extendsAt {digits s : String} {span : Span} {more : List Token} :
    ExtendsAt .none (intLiteral digits) (intLiteral digits) (⟨.int s, span⟩ :: more) := by
  unfold intLiteral
  cases intValue? digits with
  | none => rintro _ _ ⟨⟩
  | some n => exact .take (Extends.pure rfl more) rfl fun _ => rfl

theorem floatLiteral_extendsAt {digits s : String} {span : Span} {more : List Token} :
    ExtendsAt .none (floatLiteral digits) (floatLiteral digits) (⟨.float s, span⟩ :: more) := by
  unfold floatLiteral
  cases floatValue? digits with
  | none => rintro _ _ ⟨⟩
  | some x => exact .take (Extends.pure rfl more) rfl fun _ => rfl

/-! Types -/

theorem hungry_typeExprWithin (i : Nat) : Hungry (typeExprWithin i) := by
  cases i <;> rintro _ _ ⟨⟩

theorem extends_typeExprWithin {i i' : Nat} (h : i ≤ i') :
    Extends .none (typeExprWithin i) (typeExprWithin i') := by
  induction i generalizing i' with
  | zero => exact .throw _
  | succ i ih =>
    obtain ⟨i', rfl⟩ := Nat.exists_eq_succ_of_ne_zero (by omega : i' ≠ 0)
    have hty := ih (by omega : i ≤ i')
    have hlist {close : Punct} (hclose : close ≠ .lbrace) :=
      Extends.listUntil hclose hty (hungry_typeExprWithin i)
    unfold typeExprWithin
    refine .nextSpan (fun span => ?_) fun _ => rfl
    refine .accept_open (by decide) ?_ (.acceptWord ?_ ?_)
    · refine .accept (.pure rfl) (.bind hty fun first => ?_) fun _ a rest hr =>
        absurd hr ((hungry_typeExprWithin i).bind a rest)
      refine .accept (.pure rfl) (.expect ?_) fun _ a rest hr => absurd hr (Hungry.expect a rest)
      exact .bind (hlist (by decide)) fun more => .pure rfl
    · refine .expect (.bind (hlist (by decide)) fun params => .expect ?_)
      exact .bind hty fun ret => .pure rfl
    · refine .bind (extends_ident _) fun head => ?_
      exact .accept_open (by decide) (.bind (hlist (by decide)) fun args => .pure rfl) (.pure rfl)

theorem extends_typeExpr : Extends .none typeExpr typeExpr := .withLength extends_typeExprWithin

theorem extends_typeMark : Extends .none typeMark typeMark :=
  .accept_open (by decide) (.bind extends_typeExpr fun _ => .pure rfl) (.pure rfl)

theorem hungry_param : Hungry param := (hungry_ident _).bind

theorem extends_param : Extends .none param param :=
  .bind (extends_ident _) fun _ => .bind extends_typeMark fun _ => .pure rfl

/-! Patterns -/

theorem negatedNumber_extends : Extends .none negatedNumber negatedNumber := by
  refine .of_cons (by rintro _ _ ⟨⟩) fun t more => ?_
  obtain ⟨kind, span⟩ := t
  cases kind with
  | int digits => exact intLiteral_extendsAt.bind (fun _ => .pure rfl) fun _ => False.elim
  | float digits => exact floatLiteral_extendsAt.bind (fun _ => .pure rfl) fun _ => False.elim
  | _ => rintro _ _ ⟨⟩

section Pattern

variable {pat pat' : Reader Pattern} (hpat : Extends .none pat pat') (hnil : Hungry pat)

include hpat

theorem extends_markedPattern (span : Span) (marker : Marker) :
    Extends .none (markedPattern span marker pat) (markedPattern span marker pat') :=
  .expect (.bind hpat fun _ => .expect (.pure rfl))

theorem extends_mapEntryPattern : Extends .none (mapEntryPattern pat) (mapEntryPattern pat') :=
  .bind extends_mapKey fun _ => .expect (.bind hpat fun _ => .pure rfl)

theorem extends_recordPattern (span : Span) (name : String) :
    Extends (.const 1) (recordPattern span name pat) (recordPattern span name pat') := by
  refine .loop (u := fun _ => False) (fun acc => ?_) (fun _ => False.elim) []
  refine .accept (.pure rfl) (.accept_open (by decide) ?_ ?_) fun _ a rest hr => ?_
  · exact .accept_skip (.expect (.pure rfl)) (.expect (.pure rfl)) .expect
  · refine .bind (extends_ident _) fun field => ?_
    refine .accept_open (by decide) (.bind (.map hpat) fun inner => ?_) (.bind (.pure rfl) fun inner => ?_)
    all_goals
      refine .accept (.pure rfl) (.expect (.pure rfl)) fun _ a rest hr => ?_
      exact absurd hr (Hungry.expect a rest)
  · cases hr

include hnil

theorem extends_listPattern (span : Span) :
    Extends .none (listPattern span pat) (listPattern span pat') := by
  refine .loop (u := fun _ => False) (fun acc => ?_) (fun _ => False.elim) []
  refine .accept (.pure rfl) (.accept_open (by decide) ?_ ?_) fun _ a rest hr => ?_
  · refine .bind hpat fun last => ?_
    exact .accept_skip (.expect (.pure rfl)) (.expect (.pure rfl)) .expect
  · refine .bind hpat fun item => .accept (.pure rfl) (.expect (.pure rfl)) fun _ a rest hr => ?_
    exact absurd hr (Hungry.expect a rest)
  · exact absurd hr (hnil.bind a rest)

theorem extends_payloadPattern : Extends .none (payloadPattern pat) (payloadPattern pat') := by
  refine .nextSpan (fun span => .accept_open (by decide) ?_ (.pure rfl)) fun _ => rfl
  refine .bind (.listUntil (by decide) hpat hnil) fun items => ?_
  split <;> exact .pure rfl

theorem extends_namedPattern (span : Span) (name : String) :
    Extends .none (namedPattern span name pat) (namedPattern span name pat') := by
  have hmarked := extends_markedPattern hpat span
  unfold namedPattern
  split
  · exact .pure rfl
  · exact .pure rfl
  · exact .pure rfl
  · exact hmarked _
  · exact hmarked _
  · exact hmarked _
  · exact hmarked _
  · exact hmarked _
  · refine .ite ?_ (.pure rfl)
    refine .accept_open (by decide) ?_ (.accept_open (by decide) ?_ (.pure rfl))
    · exact .bind (extends_ident _) fun variant => .bind (extends_payloadPattern hpat hnil) fun _ => .pure rfl
    · exact extends_recordPattern hpat span name

theorem extends_parenPattern (span : Span) :
    Extends .none (parenPattern span pat) (parenPattern span pat') := by
  refine .accept (.pure rfl) (.bind hpat fun first => ?_) fun _ a rest hr =>
    absurd hr (hnil.bind a rest)
  refine .accept (.pure rfl) (.expect ?_) fun _ a rest hr => absurd hr (Hungry.expect a rest)
  exact .bind (.listUntil (by decide) hpat hnil) fun _ => .pure rfl

end Pattern

theorem hungry_patternWithin (i : Nat) : Hungry (patternWithin i) := by
  cases i <;> rintro _ _ ⟨⟩

theorem extends_patternWithin {i i' : Nat} (h : i ≤ i') :
    Extends .none (patternWithin i) (patternWithin i') := by
  induction i generalizing i' with
  | zero => exact .throw _
  | succ i ih =>
    obtain ⟨i', rfl⟩ := Nat.exists_eq_succ_of_ne_zero (by omega : i' ≠ 0)
    have hpat := ih (by omega : i ≤ i')
    have hnil := hungry_patternWithin i
    unfold patternWithin
    refine .nextSpan (fun span => .of_cons (by rintro _ _ ⟨⟩) fun t more => ?_) fun _ => rfl
    obtain ⟨kind, at_⟩ := t
    cases kind with
    | ident name => exact .take (extends_namedPattern hpat hnil span name more) rfl fun _ => rfl
    | int digits => exact intLiteral_extendsAt.bind (fun _ => .pure rfl) fun _ => False.elim
    | float digits => exact floatLiteral_extendsAt.bind (fun _ => .pure rfl) fun _ => False.elim
    | text contents => exact .take (Extends.pure rfl more) rfl fun _ => rfl
    | keyword word =>
      cases word with
      | trueKw => exact .take (Extends.pure rfl more) rfl fun _ => rfl
      | falseKw => exact .take (Extends.pure rfl more) rfl fun _ => rfl
      | _ => rintro _ _ ⟨⟩
    | symbol mark =>
      cases mark with
      | minus =>
        exact .take (Extends.bind negatedNumber_extends (fun _ => .pure rfl) more) rfl fun _ => rfl
      | lparen => exact .take (extends_parenPattern hpat hnil span more) rfl fun _ => rfl
      | lbracket => exact .take (extends_listPattern hpat hnil span more) rfl fun _ => rfl
      | lbrace =>
        have hentries := Extends.listUntil (by decide : Punct.rbrace ≠ .lbrace)
          (extends_mapEntryPattern hpat) hungry_mapKey.bind
        exact .take (Extends.bind_due hentries (fun _ => .pure rfl) more) rfl fun _ => rfl
      | _ => rintro _ _ ⟨⟩

theorem extends_pattern : Extends .none pattern pattern := .withLength extends_patternWithin

/-! Looking ahead for a brace -/

/-- A look ahead for an opening brace. What it finds in the tokens that it sees it finds whatever
follows. -/
structure FindsBrace (opens : List TokenKind → Bool) : Prop where
  nil : opens [] = false
  head : ∀ {kind kinds}, opens (kind :: kinds) = true → kind = .symbol .lbrace
  append : ∀ {kinds} more, opens kinds = true → opens (kinds ++ more) = true
  empty : ∀ {kinds}, opens kinds = true → opens [.symbol .lbrace, .symbol .rbrace] = true

theorem findsBrace_opensRecord : FindsBrace opensRecord where
  nil := rfl
  head h := by
    unfold opensRecord at h
    split at h <;> simp_all
  append more h := by
    unfold opensRecord at h
    split at h <;> simp_all [opensRecord]
  empty _ := rfl

theorem findsBrace_opensMap : FindsBrace opensMap where
  nil := rfl
  head h := by
    unfold opensMap at h
    split at h <;> simp_all
  append more h := by
    unfold opensMap at h
    split at h <;> simp_all [opensMap]
  empty _ := rfl

theorem FindsBrace.and {opens : List TokenKind → Bool} (h : FindsBrace opens) (b : Bool) :
    FindsBrace fun kinds => b && opens kinds where
  nil := by rw [h.nil, Bool.and_false]
  head hopens := h.head (Bool.and_eq_true_iff.1 hopens).2
  append more hopens := Bool.and_eq_true_iff.2
    ((Bool.and_eq_true_iff.1 hopens).imp_right (h.append more))
  empty hopens := Bool.and_eq_true_iff.2 ((Bool.and_eq_true_iff.1 hopens).imp_right h.empty)

/-- The kinds that a look ahead sees. -/
def kindsAhead (ts : List Token) : List TokenKind := (ts.take 3).map Token.kind

theorem FindsBrace.unclosed {opens : List TokenKind → Bool} (h : FindsBrace opens)
    {ts tail : List Token} (htail : EndsExpr tail) (hopens : opens (kindsAhead (ts ++ tail)) = true)
    (hnot : opens (kindsAhead ts) = false) : tail ≠ [] ∧ Unclosed ts := by
  have hne : tail ≠ [] := by
    rintro rfl
    rw [List.append_nil, hnot] at hopens
    cases hopens
  refine ⟨hne, ?_⟩
  obtain _ | ⟨t, ts⟩ := ts
  · obtain ⟨s, more, rfl⟩ := List.exists_cons_of_ne_nil hne
    obtain ⟨mark, hmark, hs⟩ := htail s more rfl
    obtain rfl : mark = .lbrace := by simpa using hs.symm.trans (h.head hopens)
    exact absurd hmark (by decide)
  have ht : t.kind = .symbol .lbrace := h.head hopens
  refine ⟨⟨t, ts, rfl, ht⟩, ?_⟩
  -- a third token would be all that is seen, and a closing brace behind the first decides
  obtain _ | ⟨s, _ | ⟨_, more⟩⟩ := ts
  · simp [closed, ht]
  · have hs : s.kind ≠ .symbol .rbrace := by
      intro hs
      rw [show kindsAhead [t, s] = [.symbol .lbrace, .symbol .rbrace] by simp [kindsAhead, ht, hs],
        h.empty hopens] at hnot
      cases hnot
    simp [closed, ht, hs]
  · exact absurd (hopens.symm.trans hnot) (by simp)

theorem Extends.ahead {opens : List TokenKind → Bool} (h : FindsBrace opens) {d : Due α}
    {r r' s s' : Reader α} (hr : ∀ t more, t.kind = .symbol .lbrace → ExtendsAt d r r' (t :: more))
    (hs : Extends d s s') : Extends d (ahead >>= fun kinds => if opens kinds = true then r else s)
      (ahead >>= fun kinds => if opens kinds = true then r' else s') := by
  have hrun (r s : Reader α) (ts : List Token) :
      (Grammar.ahead >>= fun kinds => if opens kinds = true then r else s) ts =
        if opens (kindsAhead ts) = true then r ts else s ts := by
    change (if opens (kindsAhead ts) = true then r else s) ts = _
    split <;> rfl
  intro ts a rest hread
  simp only [hrun] at hread ⊢
  split at hread
  · rename_i hopens
    obtain ⟨t, more, rfl⟩ : ∃ t more, ts = t :: more := by
      cases ts with
      | nil => exact absurd (h.nil.symm.trans hopens) (by simp)
      | cons t more => exact ⟨t, more, rfl⟩
    refine ⟨(hr t more (h.head hopens) a rest hread).1, fun tail htail => ?_⟩
    have happend : opens (kindsAhead (t :: more ++ tail)) = true := by
      rw [kindsAhead, List.take_append, List.map_append]
      exact h.append _ hopens
    rw [if_pos happend]
    exact (hr t more (h.head hopens) a rest hread).2 tail htail
  · rename_i hnot
    obtain ⟨⟨own, rfl, hown⟩, hs⟩ := hs ts a rest hread
    refine ⟨⟨own, rfl, hown⟩, fun tail htail => ?_⟩
    split
    · rename_i hopens
      obtain ⟨hne, hopen⟩ := h.unclosed htail hopens (Bool.eq_false_iff.2 hnot)
      obtain rfl := hopen.eq_nil (by omega)
      exact .inr ⟨hne, .inl hopen⟩
    · exact hs tail htail

/-! Expressions -/

section Expr

variable {expr expr' : ExprReader} (hexpr : ∀ least, Extends .none (expr least) (expr' least))

include hexpr

theorem extends_fieldInit : Extends .none (fieldInit expr) (fieldInit expr') :=
  .bind (extends_ident _) fun _ =>
    .accept_open (by decide) (.bind (hexpr 0) fun _ => .pure rfl) (.pure rfl)

theorem extends_fields :
    Extends (.const 1) (listUntil .rbrace (fieldInit expr)) (listUntil .rbrace (fieldInit expr')) :=
  .listUntil (by decide) (extends_fieldInit hexpr) (hungry_ident _).bind

theorem extends_mapEntry : Extends .none (mapEntry expr) (mapEntry expr') :=
  .bind extends_mapKey fun _ => .expect (.bind (hexpr 0) fun _ => .pure rfl)

theorem extends_letDecl : Extends .none (letDecl expr) (letDecl expr') := by
  refine .nextSpan (fun span => .bind extends_pattern fun pat => ?_) fun _ => rfl
  exact .bind extends_typeMark fun ty => .expect (.bind (hexpr 0) fun value => .pure rfl)

theorem extends_blockRest (span : Span) : Extends (.const 1) (blockRest expr span) (blockRest expr' span) := by
  refine .loop (u := fun _ => True) (fun acc => ?_) (fun _ _ => by rintro _ _ ⟨⟩) []
  refine .accept (.pure rfl) (.notEmpty (.accept_open (by decide) (.pure rfl) ?_)) fun _ _ _ h => by cases h
  refine .acceptWord ?_ (.bind (hexpr 0) fun e => .accept_open (by decide) (.pure rfl) ?_)
  · exact .bind (extends_letDecl hexpr) fun d => .expect (.pure rfl)
  · refine .accept (.pure rfl) ?_ fun _ a rest h => ?_
    · split <;> first | exact .pure rfl | exact .throw _
    · split at h <;> cases h <;> trivial

theorem extends_block : Extends .none (block expr) (block expr') :=
  .nextSpan (fun span => .expect (extends_blockRest hexpr span)) fun _ =>
    (expect_nil _ _).trans (expect_nil _ _).symm

theorem extends_branchRest {i i' : Nat} (h : i ≤ i') (span : Span) :
    Extends .none (branchRest expr i span) (branchRest expr' i' span) := by
  induction i generalizing i' span with
  | zero => exact .throw _
  | succ i ih =>
    obtain ⟨i', rfl⟩ := Nat.exists_eq_succ_of_ne_zero (by omega : i' ≠ 0)
    refine .bind (hexpr 0) fun test => .bind (extends_block hexpr) fun whenTrue => ?_
    refine .acceptWord (.nextIsWord (fun t more ht => ?_) ?_) (.pure rfl)
    · obtain ⟨kind, nested⟩ := t
      obtain rfl : kind = .keyword .ifKw := ht
      exact .take (Extends.bind (ih (by omega) nested) (fun _ => .pure rfl) more) rfl fun _ => rfl
    · exact .bind (extends_block hexpr) fun other => .pure rfl

theorem extends_casesRest (span : Span) : Extends .none (casesRest expr span) (casesRest expr' span) := by
  refine .bind (hexpr 0) fun scrutinee => .expect ?_
  refine .loop (n := 1) (u := fun _ => True) (fun acc => ?_) (fun _ _ => ?_) []
  · refine .accept (.pure rfl) ?_ (by rintro _ _ _ ⟨⟩)
    refine .nextSpan (fun armSpan => .bind extends_pattern fun pat => ?_) fun _ => rfl
    refine .acceptWord (.bind (.map (hexpr 0)) fun guard => ?_) (.bind (.pure rfl) fun guard => ?_)
    all_goals
      refine .expect (.bind (hexpr 0) fun body => .accept (.pure rfl) ?_ fun _ a rest h => ?_)
      · refine .nextIs (.pure rfl) (.ite (.pure rfl) (.throw _)) fun _ a rest h => ?_
        split at h <;> cases h
        trivial
      · change (if body.isBlock = true then _ else _ : Reader _) [] = _ at h
        split at h <;> cases h
        trivial
  · rintro _ _ ⟨⟩

theorem extends_closure (isAsync : Bool) (span : Span) :
    Extends .none (closure expr isAsync span) (closure expr' isAsync span) := by
  refine .accept_open (by decide) (.bind (.pure rfl) fun _ => ?_) (.expect ?_)
  · exact .bind (hexpr 0) fun body => .pure rfl
  · refine .bind (.listUntil (by decide) extends_param hungry_param) fun params => ?_
    exact .bind (hexpr 0) fun body => .pure rfl

theorem extends_asyncRest (span : Span) : Extends .none (asyncRest expr span) (asyncRest expr' span) := by
  refine .nextIs (.bind (extends_block hexpr) fun _ => .pure rfl) ?_ fun h => absurd h (by decide)
  refine .of_cons (by rintro _ _ ⟨⟩) fun t more => ?_
  obtain ⟨kind, at_⟩ := t
  cases kind with
  | symbol mark =>
    cases mark with
    | bar => exact .congr (extends_closure hexpr true span _) rfl fun _ => rfl
    | orOr => exact .congr (extends_closure hexpr true span _) rfl fun _ => rfl
    | _ => rintro _ _ ⟨⟩
  | _ => rintro _ _ ⟨⟩

/-- A map or a block. -/
theorem extends_braced (span : Span) :
    Extends .none
      (do
        if opensMap (← ahead) then
          skip
          return .map span (← listUntil .rbrace (mapEntry expr))
        else block expr)
      (do
        if opensMap (← ahead) then
          skip
          return .map span (← listUntil .rbrace (mapEntry expr'))
        else block expr') := by
  refine .ahead findsBrace_opensMap (fun t more ht => ?_) (extends_block hexpr)
  obtain ⟨kind, at_⟩ := t
  obtain rfl : kind = .symbol .lbrace := ht
  have hentries := Extends.listUntil (by decide : Punct.rbrace ≠ .lbrace) (extends_mapEntry hexpr)
    hungry_mapKey.bind
  exact .take (Extends.bind_due hentries (fun _ => .pure rfl) more) rfl fun _ => rfl

variable (hnil : ∀ least, Hungry (expr least))

include hnil

theorem extends_arguments {close : Punct} (hclose : close ≠ .lbrace) :
    Extends (.const (Due.ofMark close)) (listUntil close (expr 0)) (listUntil close (expr' 0)) :=
  .listUntil hclose (hexpr 0) (hnil 0)

theorem extends_parenRest (span : Span) : Extends .none (parenRest expr span) (parenRest expr' span) := by
  refine .accept (.pure rfl) (.bind (hexpr 0) fun first => ?_) fun _ a rest hr =>
    absurd hr ((hnil 0).bind a rest)
  refine .accept (.pure rfl) (.expect ?_) fun _ a rest hr => absurd hr (Hungry.expect a rest)
  exact .bind (extends_arguments hexpr hnil (by decide)) fun _ => .pure rfl

theorem extends_nameRest (span : Span) (name : String) :
    Extends .none (nameRest expr span name) (nameRest expr' span name) := by
  refine .accept_open (by decide) ?_ (.ahead (findsBrace_opensRecord.and _) (fun t more ht => ?_) (.pure rfl))
  · refine .bind (extends_ident _) fun variant => .accept_open (by decide) ?_ (.pure rfl)
    exact .bind (extends_arguments hexpr hnil (by decide)) fun args => .pure rfl
  · obtain ⟨kind, at_⟩ := t
    obtain rfl : kind = .symbol .lbrace := ht
    exact .take (Extends.bind_due (extends_fields hexpr) (fun _ => .pure rfl) more) rfl fun _ => rfl

theorem extends_atom : Extends .none (atom expr) (atom expr') := by
  refine .nextSpan (fun span => .of_cons (by rintro _ _ ⟨⟩) fun t more => ?_) fun _ => rfl
  obtain ⟨kind, at_⟩ := t
  cases kind with
  | ident name => exact .take (extends_nameRest hexpr hnil span name more) rfl fun _ => rfl
  | int digits => exact intLiteral_extendsAt.bind (fun _ => .pure rfl) fun _ => False.elim
  | float digits => exact floatLiteral_extendsAt.bind (fun _ => .pure rfl) fun _ => False.elim
  | text contents => exact .take (Extends.pure rfl more) rfl fun _ => rfl
  | keyword word =>
    cases word with
    | trueKw => exact .take (Extends.pure rfl more) rfl fun _ => rfl
    | falseKw => exact .take (Extends.pure rfl more) rfl fun _ => rfl
    | ifKw =>
      have hbranch := Extends.withLength (extends_branchRest hexpr · span)
      exact .take (hbranch more) rfl fun _ => rfl
    | matchKw => exact .take (extends_casesRest hexpr span more) rfl fun _ => rfl
    | asyncKw => exact .take (extends_asyncRest hexpr span more) rfl fun _ => rfl
    | _ => rintro _ _ ⟨⟩
  | symbol mark =>
    cases mark with
    | lparen => exact .take (extends_parenRest hexpr hnil span more) rfl fun _ => rfl
    | lbracket =>
      have hitems := extends_arguments hexpr hnil (by decide : Punct.rbracket ≠ .lbrace)
      exact .take (Extends.bind hitems (fun _ => .pure rfl) more) rfl fun _ => rfl
    | lbrace => exact .congr (extends_braced hexpr span _) rfl fun _ => rfl
    | bar => exact .congr (extends_closure hexpr false span _) rfl fun _ => rfl
    | orOr => exact .congr (extends_closure hexpr false span _) rfl fun _ => rfl
    | _ => rintro _ _ ⟨⟩

theorem extends_selection (target : Expr) :
    Extends .none (selection expr target) (selection expr' target) := by
  refine .nextSpan (fun span => .of_cons (by rintro _ _ ⟨⟩) fun t more => ?_) fun _ => rfl
  obtain ⟨kind, at_⟩ := t
  cases kind with
  | ident name =>
    refine .take (Extends.accept_open (by decide) ?_ (.pure rfl) more) rfl fun _ => rfl
    exact .bind (extends_arguments hexpr hnil (by decide)) fun args => .pure rfl
  | int digits => exact .take (Extends.pure rfl more) rfl fun _ => rfl
  | _ => rintro _ _ ⟨⟩

theorem extends_chain (allowAttempt : Bool) (first : Expr) :
    Extends .none (chain expr allowAttempt first) (chain expr' allowAttempt first) := by
  refine .loop (u := fun _ => False) (fun e => ?_) (fun _ => False.elim) first
  refine .nextSpan (fun span => ?_) fun _ => by cases allowAttempt <;> rfl
  refine .accept_open (by decide) ?_ (.accept_open (by decide) ?_ (.accept_open (by decide) ?_ ?_))
  · exact .bind (extends_arguments hexpr hnil (by decide)) fun args => .pure rfl
  · exact .bind (extends_selection hexpr hnil e) fun _ => .pure rfl
  · exact .bind (hexpr 0) fun i => .expect (.pure rfl)
  · refine .ite (.accept_open (by decide) (.pure rfl) ?_) ?_
    all_goals
      refine .acceptWord (.expect ?_) (.pure rfl)
      exact .bind_due (extends_fields hexpr) fun fields => .pure rfl

theorem extends_operandWithin {i i' : Nat} (h : i ≤ i') :
    Extends .none (operandWithin expr i) (operandWithin expr' i') := by
  induction i generalizing i' with
  | zero => exact .throw _
  | succ i ih =>
    obtain ⟨i', rfl⟩ := Nat.exists_eq_succ_of_ne_zero (by omega : i' ≠ 0)
    have hoperand := ih (by omega : i ≤ i')
    unfold operandWithin
    -- both sides fail where no token is left, before they could differ in the span
    refine .nextSpan (fun span => ?_) fun _ => (rfl : _ = wanted "expression" []).trans rfl
    refine .accept_open (by decide) ?_ (.accept_open (by decide) ?_ (.acceptWord ?_ ?_))
    · exact .bind hoperand fun _ => .pure rfl
    · exact .bind hoperand fun _ => .pure rfl
    · refine .nextIsWord (fun t more _ => ?_) ?_
      · exact Extends.bind hoperand (fun future => extends_chain hexpr hnil true _) (t :: more)
      · refine .bind (extends_atom hexpr hnil) fun first => ?_
        exact .bind (extends_chain hexpr hnil false first) fun future => extends_chain hexpr hnil true _
    · exact .bind (extends_atom hexpr hnil) fun first => extends_chain hexpr hnil true first

theorem extends_operand : Extends .none (operand expr) (operand expr') :=
  .withLength (extends_operandWithin hexpr hnil)

end Expr

/-- The joiner that a token stands for. -/
def Joiner.ofKind? : TokenKind → Option Joiner
  | .symbol mark => ofPunct? mark
  | _ => none

theorem nextJoiner_cons (t : Token) (more : List Token) :
    nextJoiner (t :: more) = .ok (Joiner.ofKind? t.kind) (t :: more) := by
  obtain ⟨kind, _⟩ := t
  cases kind <;> rfl

theorem Joiner.ofKind?_closing {mark : Punct} (h : mark ∈ closingMarks) :
    ofKind? (.symbol mark) = none := by
  simp only [closingMarks, List.mem_cons, List.not_mem_nil, or_false] at h
  obtain rfl | rfl | rfl | rfl := h <;> rfl

/-- Behind a joiner as much is due as in front of it. -/
theorem ExtendsAt.take_joiner {d : Due α} {r r' : Reader α} (s s' : Reader α) {t : Token}
    {more : List Token} {j : Joiner} (hj : Joiner.ofKind? t.kind = some j) (hs : ExtendsAt d s s' more)
    (hr : r (t :: more) = s more) (hr' : ∀ tail, r' (t :: (more ++ tail)) = s' (more ++ tail)) :
    ExtendsAt d r r' (t :: more) := by
  have hdue : d.after t.kind = d := by
    obtain ⟨kind, _⟩ := t
    cases kind with
    | symbol mark => cases mark <;> first | rfl | cases hj
    | _ => cases hj
  exact .take (by rwa [hdue]) hr hr'

theorem Extends.nextJoiner {d : Due α} {k k' : Option Joiner → Reader α}
    (hnone : Extends d (k none) (k' none))
    (hsome : ∀ j t more, Joiner.ofKind? t.kind = some j →
      ExtendsAt d (k (some j)) (k' (some j)) (t :: more)) :
    Extends d (nextJoiner >>= k) (Grammar.nextJoiner >>= k') := by
  rintro (_ | ⟨t, more⟩)
  · refine fun a rest h => ⟨(hnone [] a rest h).1, fun tail htail => ?_⟩
    have hend : (Grammar.nextJoiner >>= k') tail = k' none tail := by
      cases tail with
      | nil => rfl
      | cons t more =>
        obtain ⟨mark, hmark, ht⟩ := htail t more rfl
        rw [bind_of_ok (nextJoiner_cons t more), ht, Joiner.ofKind?_closing hmark]
    rw [List.nil_append, hend]
    exact (hnone [] a rest h).2 tail htail
  · have hrun (k : Option Joiner → Reader α) (us : List Token) := bind_of_ok (f := k) (nextJoiner_cons t us)
    cases hj : Joiner.ofKind? t.kind with
    | none => exact (hnone _).congr (hj ▸ hrun k more) fun tail => hj ▸ hrun k' (more ++ tail)
    | some j =>
      exact (hsome j t more hj).congr (hj ▸ hrun k more) fun tail => hj ▸ hrun k' (more ++ tail)

/-- One operator and what it takes on its right. -/
def joinRound (expr : ExprReader) (least : Nat) (left : Expr) : Reader (Round Expr Expr) := do
  let span ← nextSpan
  match ← nextJoiner with
  | none => return .done left
  | some j =>
    if j.precedence < least then return .done left
    skip
    let right ← expr (j.precedence + 1)
    return .again (j.join span left right)

theorem expressionWithin_succ (depth least : Nat) : expressionWithin (depth + 1) least = (do
    loop (joinRound (expressionWithin depth) least) (← operand (expressionWithin depth))) := rfl

theorem extends_joinRound {expr expr' : ExprReader}
    (hexpr : ∀ least, Extends .none (expr least) (expr' least)) (least : Nat) (left : Expr) :
    Extends (.round 0 fun _ => False) (joinRound expr least left) (joinRound expr' least left) := by
  refine .nextSpan (fun span => .nextJoiner (.pure rfl) fun j t more hj => ?_) fun _ => rfl
  refine .ite (Extends.pure rfl _) (.take_joiner (expr _ >>= fun right => _)
    (expr' _ >>= fun right => _) hj ?_ rfl fun _ => rfl)
  exact Extends.bind (hexpr (j.precedence + 1)) (fun right => .pure rfl) more

theorem hungry_expressionWithin (i least : Nat) : Hungry (expressionWithin i least) := by
  cases i <;> rintro _ _ ⟨⟩

/-- A deeper budget reads the same, and so does a closing mark behind the expression. -/
theorem extends_expressionWithin {i i' : Nat} (h : i ≤ i') (least : Nat) :
    Extends .none (expressionWithin i least) (expressionWithin i' least) := by
  induction i generalizing i' least with
  | zero => exact .throw _
  | succ i ih =>
    obtain ⟨i', rfl⟩ := Nat.exists_eq_succ_of_ne_zero (by omega : i' ≠ 0)
    have hexpr := ih (by omega : i ≤ i')
    rw [expressionWithin_succ, expressionWithin_succ]
    refine .bind (extends_operand hexpr (hungry_expressionWithin i)) fun first => ?_
    exact .loop (u := fun _ => False) (extends_joinRound hexpr least) (fun _ => False.elim) first

section

variable {ts rest : List Token} {e : Expr}

/-- What is an expression by itself is one in front of a closing mark. -/
theorem expression_append {tail : List Token} {i : Nat} (h : expression ts = .ok e [])
    (hi : ts.length < i) (htail : EndsExpr tail) : expressionWithin i 0 (ts ++ tail) = .ok e tail := by
  obtain happend | ⟨-, ⟨⟨_, _, heq, -⟩, -⟩ | ⟨-, hnone⟩⟩ :=
    (extends_expressionWithin hi 0 ts e [] h).2 tail htail
  · exact happend
  · cases heq
  · exact hnone.elim

theorem Extends.length_le {d : Due α} {r r' : Reader α} {a : α} (h : Extends d r r')
    (hr : r ts = .ok a rest) : rest.length ≤ ts.length := by
  obtain ⟨own, rfl, -⟩ := (h ts a rest hr).1
  simp

theorem operand_mono {i i' : Nat} (h : operand (expressionWithin i) ts = .ok e rest) (hi : i ≤ i') :
    operand (expressionWithin i') ts = .ok e rest := by
  have hext := extends_operand (extends_expressionWithin hi) (hungry_expressionWithin i)
  obtain happend | ⟨hne, -⟩ := (hext ts e rest h).2 [] (by rintro _ _ ⟨⟩)
  · simpa using happend
  · exact absurd rfl hne

end

end StreamLang.Grammar
