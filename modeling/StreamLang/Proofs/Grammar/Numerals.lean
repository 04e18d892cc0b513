import StreamLang.Proofs.Grammar.Integers

/-! Every reader of patterns, expressions and items gives integers only as they are written. An
expression that comes to a single integer is that number from its first token on, with the signs and
parentheses in front of it; so a sign in front of it may be taken into the integer. -/

namespace StreamLang.Grammar

variable {all ts more : List Token} {t : Token} {digits : String} {n : Int64}

/-! Numbers -/

theorem minValue_lt_of_ne (h : n ≠ .minValue) : Int64.minValue.toInt < n.toInt := by
  have hlow := n.le_toInt
  have hne : n.toInt ≠ Int64.minValue.toInt := fun heq => h (Int64.toInt_inj.1 heq)
  rw [Int64.toInt_minValue] at hne ⊢
  omega

theorem ofNat_ne_minValue {k : Nat} (hk : k < Decimal.pow2 63) : Int64.ofNat k ≠ .minValue := by
  intro hmin
  have htoInt := Int64.toInt_ofNat_of_lt hk
  rw [hmin, Int64.toInt_minValue] at htoInt
  omega

theorem toInt_neg_of_ne (h : n ≠ .minValue) : (-n).toInt = -n.toInt := by
  have hlow := minValue_lt_of_ne h
  have hhigh := n.toInt_lt
  rw [Int64.toInt_minValue] at hlow
  rw [Int64.toInt_neg]
  exact Int.bmod_eq_of_le (by omega) (by omega)

theorem neg_ne_minValue (h : n ≠ .minValue) : -n ≠ .minValue := by
  intro heq
  have hneg := toInt_neg_of_ne h
  rw [heq, Int64.toInt_minValue] at hneg
  have hhigh := n.toInt_lt
  omega

/-- The tokens begin with the integer, and it has an opposite. -/
def Begins (ts : List Token) (n : Int64) : Prop := number? ts = some n.toInt ∧ n ≠ .minValue

theorem begins_digits (ht : t.kind = .int digits) (hn : intValue? digits = some n) :
    Begins (t :: more) n := by
  unfold intValue? at hn
  dsimp only at hn
  split at hn
  case isTrue hlt =>
    obtain rfl := Option.some.inj hn
    exact ⟨by rw [number?, ht, Int64.toInt_ofNat_of_lt hlt], ofNat_ne_minValue hlt⟩
  case isFalse => cases hn

theorem begins_minus (ht : t.kind = .symbol .minus) (h : Begins more n) : Begins (t :: more) (-n) := by
  refine ⟨?_, neg_ne_minValue h.2⟩
  rw [number?, ht, toInt_neg_of_ne h.2]
  simp only [h.1, Option.map_some]

theorem begins_paren (ht : t.kind = .symbol .lparen) (h : Begins more n) : Begins (t :: more) n := by
  refine ⟨?_, h.2⟩
  rw [number?, ht]
  exact h.1

theorem Begins.spells (h : Begins (t :: more) n) (hts : (t :: more) <:+ all) : Spells all (t.span, n) :=
  ⟨t, more, hts, rfl, h.1⟩

theorem reads_intLiteral (ht : t.kind = .int digits) :
    ReadsAt all (Begins (t :: more)) (intLiteral digits) (t :: more) := by
  unfold intLiteral
  cases hn : intValue? digits with
  | none => exact Reads.throw _ _
  | some n => exact Reads.after reads_skip (fun _ => .pure (begins_digits ht hn)) _

theorem reads_floatLiteral : Reads all (fun _ => True) (floatLiteral digits) := by
  unfold floatLiteral
  cases floatValue? digits with
  | none => exact .throw _
  | some x => exact .after reads_skip fun _ => .pure trivial

theorem reads_ident (what : String) : Reads all (fun _ => True) (ident what) :=
  (extends_ident what).reads

theorem reads_mapKey : Reads all (fun _ => True) mapKey := extends_mapKey.reads

/-! Patterns -/

/-- Behind a minus sign. -/
theorem reads_negatedNumber (hminus : t.kind = .symbol .minus) :
    ReadsAt all (fun l => ∀ n, l = .int n → Begins (t :: more) n) negatedNumber more := by
  obtain _ | ⟨u, rest⟩ := more
  · rintro _ _ _ ⟨⟩
  obtain ⟨kind, span⟩ := u
  cases kind with
  | int digits =>
    refine .congr (s := do return .int (-(← intLiteral digits))) ?_ rfl
    refine .bind (reads_intLiteral rfl) fun n hn => .pure ?_
    rintro _ ⟨⟩
    exact begins_minus hminus hn
  | float digits =>
    refine .congr (s := do return .float (← floatLiteral digits).neg) ?_ rfl
    exact Reads.after reads_floatLiteral (fun _ => .pure nofun) _
  | _ => rintro _ _ _ ⟨⟩

section Pattern

variable {pat : Reader Pattern} (hpat : Reads all (fun p => AllSpelled all p.integers) pat)

include hpat

theorem reads_markedPattern (span : Span) (marker : Marker) :
    Reads all (fun p => AllSpelled all p.integers) (markedPattern span marker pat) :=
  .expect (.bind hpat fun _ hinner => .expect (.pure hinner))

theorem reads_mapEntryPattern :
    Reads all (fun e => AllSpelled all e.2.integers) (mapEntryPattern pat) :=
  .after reads_mapKey fun _ => .expect (.bind hpat fun _ hvalue => .pure hvalue)

theorem reads_recordPattern (span : Span) (name : String) :
    Reads all (fun p => AllSpelled all p.integers) (recordPattern span name pat) := by
  refine .loop (I := fun fields => ∀ f ∈ fields, AllSpelled all (Pattern.optionIntegers f.pattern))
    (fun acc hacc => ?_) (List.forall_mem_nil _)
  refine .accept (.pure (.fieldPatterns (forall_mem_reverse.2 hacc))) (.accept ?_ ?_)
  · refine .after (reads_accept _) fun _ => .expect (.pure ?_)
    exact .fieldPatterns (forall_mem_reverse.2 hacc)
  · refine .after (reads_ident _) fun field => ?_
    refine .accept (.bind (R := fun inner => AllSpelled all (Pattern.optionIntegers inner))
      (.map hpat fun _ hp => hp) fun inner hinner => ?_)
      (.bind (R := fun inner => AllSpelled all (Pattern.optionIntegers inner))
        (.pure .nil) fun inner hinner => ?_)
    all_goals
      have hmore : ∀ f ∈ (⟨field.1, field.2, inner⟩ : FieldPattern) :: acc,
          AllSpelled all (Pattern.optionIntegers f.pattern) := List.forall_mem_cons.2 ⟨hinner, hacc⟩
      exact .accept (.pure hmore) (.expect (.pure (.fieldPatterns (forall_mem_reverse.2 hmore))))

theorem reads_listPattern (span : Span) :
    Reads all (fun p => AllSpelled all p.integers) (listPattern span pat) := by
  refine .loop (I := fun ps => ∀ p ∈ ps, AllSpelled all p.integers) (fun acc hacc => ?_)
    (List.forall_mem_nil _)
  refine .accept (.pure ?_) (.accept (.bind hpat fun rest hrest => ?_) (.bind hpat fun item hitem => ?_))
  · exact .append (.patterns (forall_mem_reverse.2 hacc)) .nil
  · refine .after (reads_accept _) fun _ => .expect (.pure ?_)
    exact .append (.patterns (forall_mem_reverse.2 hacc)) hrest
  · have hmore : ∀ p ∈ item :: acc, AllSpelled all p.integers := List.forall_mem_cons.2 ⟨hitem, hacc⟩
    refine .accept (.pure hmore) (.expect (.pure ?_))
    exact .append (.patterns (forall_mem_reverse.2 hmore)) .nil

theorem reads_payloadPattern :
    Reads all (fun p => AllSpelled all (Pattern.optionIntegers p)) (payloadPattern pat) := by
  refine .after reads_nextSpan fun span => .accept (.bind hpat.listUntil fun items hitems => ?_) (.pure .nil)
  split
  · exact .pure (hitems _ (List.mem_singleton.2 rfl))
  · exact .pure (AllSpelled.patterns hitems)

theorem reads_namedPattern (span : Span) (name : String) :
    Reads all (fun p => AllSpelled all p.integers) (namedPattern span name pat) := by
  have hmarked := reads_markedPattern hpat span
  unfold namedPattern
  split
  · exact .pure .nil
  · exact .pure .nil
  · exact .pure .nil
  · exact hmarked _
  · exact hmarked _
  · exact hmarked _
  · exact hmarked _
  · exact hmarked _
  · refine .ite (.accept ?_ (.accept (reads_recordPattern hpat span name) (.pure .nil))) (.pure .nil)
    exact .after (reads_ident _) fun _ => .bind (reads_payloadPattern hpat) fun _ hpayload => .pure hpayload

theorem reads_parenPattern (span : Span) :
    Reads all (fun p => AllSpelled all p.integers) (parenPattern span pat) := by
  refine .accept (.pure .nil) (.bind hpat fun first hfirst => .accept (.pure hfirst) (.expect ?_))
  refine .bind hpat.listUntil fun rest hrest => .pure ?_
  exact AllSpelled.patterns (List.forall_mem_cons.2 ⟨hfirst, hrest⟩)

end Pattern

theorem reads_patternWithin (depth : Nat) :
    Reads all (fun p => AllSpelled all p.integers) (patternWithin depth) := by
  induction depth with
  | zero => exact .throw _
  | succ depth ih =>
    refine .of_cons (by rintro _ _ ⟨⟩) fun t more => ?_
    obtain ⟨kind, span⟩ := t
    cases kind with
    | ident name => exact .take (reads_namedPattern ih span name more) rfl
    | int digits =>
      intro hts
      refine ReadsAt.congr (s := do return .literal span (.int (← intLiteral digits))) ?_ rfl hts
      refine .bind (reads_intLiteral rfl) fun n hn => .pure ?_
      exact .literal fun _ h => by cases h; exact hn.spells hts
    | float digits =>
      refine .congr (s := do return .literal span (.float (← floatLiteral digits))) ?_ rfl
      exact Reads.after reads_floatLiteral (fun _ => .pure .nil) _
    | text contents => exact .take (Reads.pure .nil more) rfl
    | keyword word =>
      cases word with
      | trueKw => exact .take (Reads.pure .nil more) rfl
      | falseKw => exact .take (Reads.pure .nil more) rfl
      | _ => rintro _ _ _ ⟨⟩
    | symbol mark =>
      cases mark with
      | minus =>
        intro hts
        refine ReadsAt.take (s := do return .literal span (← negatedNumber)) ?_ rfl hts
        refine ReadsAt.bind (reads_negatedNumber (t := ⟨.symbol .minus, span⟩) rfl) fun l hl => .pure ?_
        exact .literal fun n h => (hl n h).spells hts
      | lparen => exact .take (reads_parenPattern ih span more) rfl
      | lbracket => exact .take (reads_listPattern ih span more) rfl
      | lbrace =>
        refine .take (Reads.bind (reads_mapEntryPattern ih).listUntil (fun entries hentries => ?_) more) rfl
        exact .pure (AllSpelled.entryPatterns hentries)
      | _ => rintro _ _ _ ⟨⟩

theorem reads_pattern : Reads all (fun p => AllSpelled all p.integers) pattern :=
  .get_bind fun _ => reads_patternWithin _ _

/-! Expressions -/

/-- The integers in the expression are written in the text, and the tokens begin with it if it is one. -/
structure ReadFrom (all ts : List Token) (e : Expr) : Prop where
  spelled : AllSpelled all e.integers
  begins : ∀ span n, e = .literal span (.int n) → Begins ts n

theorem reads_spelled {r : Reader Expr} (h : ∀ ts, ReadsAt all (ReadFrom all ts) r ts) :
    Reads all (fun e => AllSpelled all e.integers) r :=
  fun ts => (h ts).mono fun _ => ReadFrom.spelled

/-- A sign in front of an integer is a part of it. -/
theorem ReadFrom.negate {e : Expr} (h : ReadFrom all more e) (ht : t.kind = .symbol .minus)
    (hts : (t :: more) <:+ all) : ReadFrom all (t :: more) (negate e t.span) := by
  unfold Grammar.negate
  split
  · have hbegins := begins_minus ht (h.begins _ _ rfl)
    refine ⟨.literal fun _ hn => ?_, fun _ _ hn => ?_⟩ <;> cases hn
    · exact hbegins.spells hts
    · exact hbegins
  · exact ⟨.nil, by rintro _ _ ⟨⟩⟩
  · exact ⟨h.spelled, nofun⟩

theorem readFrom_join {us : List Token} {lhs rhs : Expr} (hlhs : AllSpelled all lhs.integers)
    (hrhs : AllSpelled all rhs.integers) (j : Joiner) (span : Span) :
    ReadFrom all us (j.join span lhs rhs) := by
  cases j with
  | op o => exact ⟨.append hlhs hrhs, nofun⟩
  | pipe =>
    rw [Joiner.join]
    unfold pipeInto
    split
    · obtain ⟨hcallee, hargs⟩ := allSpelled_append.1 hrhs
      exact ⟨.append hcallee (.append hlhs hargs), nofun⟩
    · exact ⟨.append hrhs (.append hlhs .nil), nofun⟩

section Expr

variable {expr : ExprReader} {us : List Token}

section

variable (hexpr : ∀ least, Reads all (fun e => AllSpelled all e.integers) (expr least))

include hexpr

theorem reads_fieldInit : Reads all (fun f => AllSpelled all f.value.integers) (fieldInit expr) :=
  .after (reads_ident _) fun _ => .accept (.bind (hexpr 0) fun _ hvalue => .pure hvalue) (.pure .nil)

theorem reads_mapEntry : Reads all (fun e => AllSpelled all e.2.integers) (mapEntry expr) :=
  .after reads_mapKey fun _ => .expect (.bind (hexpr 0) fun _ hvalue => .pure hvalue)

theorem reads_letDecl : Reads all (fun d => AllSpelled all d.integers) (letDecl expr) :=
  .after reads_nextSpan fun _ => .bind reads_pattern fun _ hpat =>
    .after extends_typeMark.reads fun _ => .expect <| .bind (hexpr 0) fun _ hvalue =>
      .pure (.append hpat hvalue)

theorem reads_blockRest (span : Span) : Reads all (ReadFrom all us) (blockRest expr span) := by
  refine .loop (I := fun acc => ∀ stmt ∈ acc, AllSpelled all (Expr.stmtIntegers [stmt]))
    (fun acc hacc => ?_) (List.forall_mem_nil _)
  have hdone : AllSpelled all (Expr.stmtIntegers acc.reverse) := .stmts (forall_mem_reverse.2 hacc)
  refine .accept (.pure ⟨.append hdone .nil, nofun⟩) (.get_bind fun _ => Reads.ite (.throw _) ?_ _)
  refine .accept (.pure hacc) (.acceptWord (.bind (reads_letDecl hexpr) fun d hd => .expect (.pure ?_)) ?_)
  · exact List.forall_mem_cons.2 ⟨.append hd .nil, hacc⟩
  · refine .bind (hexpr 0) fun e he => ?_
    have hmore : ∀ stmt ∈ Stmt.expr e :: acc, AllSpelled all (Expr.stmtIntegers [stmt]) :=
      List.forall_mem_cons.2 ⟨.append he .nil, hacc⟩
    refine .accept (.pure hmore) (.accept (.pure ⟨.append hdone he, nofun⟩) ?_)
    split
    · exact .pure hmore
    · exact .pure hmore
    · exact .pure hmore
    · exact .throw _

theorem reads_block : Reads all (ReadFrom all us) (block expr) :=
  .after reads_nextSpan fun span => .expect (reads_blockRest hexpr span)

theorem reads_body : Reads all (fun e => AllSpelled all e.integers) (block expr) :=
  reads_spelled fun ts => reads_block hexpr ts

theorem reads_branchRest (n : Nat) (span : Span) : Reads all (ReadFrom all us) (branchRest expr n span) := by
  induction n generalizing us span with
  | zero => exact .throw _
  | succ n ih =>
    refine .bind (hexpr 0) fun test htest => .bind (reads_body hexpr) fun whenTrue hwhen => ?_
    have hrest : ∀ other, ReadFrom all us other →
        ReadFrom all us (.branch span test whenTrue (some other)) :=
      fun _ hother => ⟨.append (.append htest hwhen) hother.spelled, nofun⟩
    refine .acceptWord (.after (reads_nextIsWord _) fun _ => .ite ?_ ?_) (.pure ?_)
    · refine .after reads_nextSpan fun nested => .after reads_skip fun _ => ?_
      exact .bind (ih nested) fun other hother => .pure (hrest other hother)
    · exact .bind (reads_block hexpr) fun other hother => .pure (hrest other hother)
    · exact ⟨.append (.append htest hwhen) .nil, nofun⟩

theorem reads_casesRest (span : Span) : Reads all (ReadFrom all us) (casesRest expr span) := by
  refine .bind (hexpr 0) fun scrutinee hscrutinee => .expect ?_
  refine .loop (I := fun acc => ∀ arm ∈ acc, AllSpelled all (Expr.armIntegers [arm]))
    (fun acc hacc => ?_) (List.forall_mem_nil _)
  refine .accept (.pure ⟨.append hscrutinee (.arms (forall_mem_reverse.2 hacc)), nofun⟩) ?_
  refine .after reads_nextSpan fun armSpan => .bind reads_pattern fun pat hpat => ?_
  refine .acceptWord
    (.bind (R := fun guard => AllSpelled all (Expr.optionIntegers guard))
      (.map (hexpr 0) fun _ he => he) fun guard hguard => ?_)
    (.bind (R := fun guard => AllSpelled all (Expr.optionIntegers guard))
      (.pure .nil) fun guard hguard => ?_)
  all_goals
    refine .expect (.bind (hexpr 0) fun body hbody => ?_)
    have hmore : ∀ arm ∈ (⟨armSpan, pat, guard, body⟩ : MatchArm) :: acc,
        AllSpelled all (Expr.armIntegers [arm]) :=
      List.forall_mem_cons.2 ⟨.append (.append (.append hpat hguard) hbody) .nil, hacc⟩
    refine .accept (.pure hmore) (.after (reads_nextIs _) fun _ => ?_)
    exact .ite (.pure hmore) (.ite (.pure hmore) (.throw _))

theorem reads_closure (isAsync : Bool) (span : Span) :
    Reads all (ReadFrom all us) (closure expr isAsync span) := by
  refine .accept (.after (.pure (Q := fun _ => True) trivial) fun params => ?_)
    (.expect (.after extends_param.reads.listUntil fun params => ?_))
  all_goals exact .bind (hexpr 0) fun body hbody => .pure ⟨hbody, nofun⟩

theorem reads_asyncRest (span : Span) : Reads all (ReadFrom all us) (asyncRest expr span) := by
  refine .after (reads_nextIs _) fun _ => .ite ?_ ?_
  · exact .bind (reads_body hexpr) fun body hbody => .pure ⟨hbody, nofun⟩
  · refine .after (reads_nextIs _) fun _ => .after (reads_nextIs _) fun _ => ?_
    exact .ite (reads_closure hexpr true span) (.throw _)

theorem reads_nameRest (span : Span) (name : String) :
    Reads all (ReadFrom all us) (nameRest expr span name) := by
  refine .accept (.after (reads_ident _) fun variant => .accept ?_ (.pure ⟨.nil, nofun⟩)) ?_
  · exact .bind (hexpr 0).listUntil fun args hargs => .pure ⟨.exprs hargs, nofun⟩
  · refine .after (reads_look _) fun _ => .ite ?_ (.pure ⟨.nil, nofun⟩)
    refine .after reads_skip fun _ => .bind (reads_fieldInit hexpr).listUntil fun fields hfields => ?_
    exact .pure ⟨.fields hfields, nofun⟩

theorem reads_braced (span : Span) : Reads all (ReadFrom all us) (do
    if opensMap (← ahead) then
      skip
      return .map span (← listUntil .rbrace (mapEntry expr))
    else block expr) := by
  refine .after (reads_look _) fun _ => .ite (.after reads_skip fun _ => ?_) (reads_block hexpr)
  exact .bind (reads_mapEntry hexpr).listUntil fun entries hentries => .pure ⟨.entries hentries, nofun⟩

theorem reads_selection {target : Expr} (h : AllSpelled all target.integers) :
    Reads all (ReadFrom all us) (selection expr target) := by
  refine .of_cons (by rintro _ _ ⟨⟩) fun t more => ?_
  obtain ⟨kind, span⟩ := t
  cases kind with
  | ident name =>
    refine .take (Reads.accept ?_ (.pure ⟨h, nofun⟩) more) rfl
    exact .bind (hexpr 0).listUntil fun args hargs => .pure ⟨.append h (.exprs hargs), nofun⟩
  | int digits => exact .take (Reads.pure ⟨h, nofun⟩ more) rfl
  | _ => rintro _ _ _ ⟨⟩

theorem reads_chain (allowAttempt : Bool) {first : Expr} (hfirst : ReadFrom all us first) :
    Reads all (ReadFrom all us) (chain expr allowAttempt first) := by
  refine .loop (I := ReadFrom all us) (fun e he => .after reads_nextSpan fun span => ?_) hfirst
  refine .accept ?_ (.accept ?_ (.accept ?_ ?_))
  · exact .bind (hexpr 0).listUntil fun args hargs => .pure ⟨.append he.spelled (.exprs hargs), nofun⟩
  · exact .bind (R := ReadFrom all us) (reads_selection hexpr he.spelled) fun _ hselected => .pure hselected
  · exact .bind (hexpr 0) fun i hi => .expect (.pure ⟨.append he.spelled hi, nofun⟩)
  · have hwith : Reads all (Round.Holds (ReadFrom all us) (ReadFrom all us)) (do
        if ← acceptWord .withKw then
          expect .lbrace
          let fields ← listUntil .rbrace (fieldInit expr)
          return Round.again (.update span e fields)
        return .done e) := by
      refine .acceptWord (.expect ?_) (.pure he)
      refine .bind (reads_fieldInit hexpr).listUntil fun fields hfields => .pure ?_
      exact ⟨.append he.spelled (.fields hfields), nofun⟩
    exact .ite (.accept (.pure ⟨he.spelled, nofun⟩) hwith) hwith

end

variable (hexpr : ∀ least ts, ReadsAt all (ReadFrom all ts) (expr least) ts)

include hexpr

/-- Behind a parenthesis. -/
theorem reads_parenRest (ht : t.kind = .symbol .lparen) (span : Span) :
    ReadsAt all (ReadFrom all (t :: more)) (parenRest expr span) more := by
  have hspelled := fun least => reads_spelled (hexpr least)
  have hfirst : ReadsAt all (ReadFrom all (t :: more)) (do
      let first ← expr 0
      if ← accept .rparen then return first
      expect .comma
      let rest ← listUntil .rparen (expr 0)
      return .tuple span (first :: rest)) more := by
    refine .bind (hexpr 0 more) fun first hfirst => .accept (.pure ⟨hfirst.spelled, ?_⟩) (.expect ?_)
    · exact fun span n he => begins_paren ht (hfirst.begins span n he)
    · refine .bind (hspelled 0).listUntil fun rest hrest => .pure ⟨.exprs ?_, nofun⟩
      exact List.forall_mem_cons.2 ⟨hfirst.spelled, hrest⟩
  cases more with
  | nil => exact hfirst.congr rfl
  | cons u rest => exact .accept (fun _ => Reads.pure ⟨.nil, by rintro _ _ ⟨⟩⟩ rest) hfirst

theorem reads_atom (ts : List Token) : ReadsAt all (ReadFrom all ts) (atom expr) ts := by
  have hspelled := fun least => reads_spelled (hexpr least)
  obtain _ | ⟨⟨kind, span⟩, more⟩ := ts
  · rintro _ _ _ ⟨⟩
  cases kind with
  | ident name => exact .take (reads_nameRest hspelled span name more) rfl
  | int digits =>
    intro hts
    refine ReadsAt.congr (s := do return .literal span (.int (← intLiteral digits))) ?_ rfl hts
    refine .bind (reads_intLiteral rfl) fun n hn => .pure ⟨.literal fun _ h => ?_, fun _ _ h => ?_⟩
    · cases h
      exact hn.spells hts
    · cases h
      exact hn
  | float digits =>
    refine .congr (s := do return .literal span (.float (← floatLiteral digits))) ?_ rfl
    exact Reads.after reads_floatLiteral (fun _ => .pure ⟨.nil, by rintro _ _ ⟨⟩⟩) _
  | text contents => exact .take (Reads.pure ⟨.nil, by rintro _ _ ⟨⟩⟩ more) rfl
  | keyword word =>
    cases word with
    | trueKw => exact .take (Reads.pure ⟨.nil, by rintro _ _ ⟨⟩⟩ more) rfl
    | falseKw => exact .take (Reads.pure ⟨.nil, by rintro _ _ ⟨⟩⟩ more) rfl
    | ifKw => exact .take (reads_branchRest hspelled (more.length + 1) span more) rfl
    | matchKw => exact .take (reads_casesRest hspelled span more) rfl
    | asyncKw => exact .take (reads_asyncRest hspelled span more) rfl
    | _ => rintro _ _ _ ⟨⟩
  | symbol mark =>
    cases mark with
    | lparen => exact .take (reads_parenRest hexpr rfl span) rfl
    | lbracket =>
      refine .take (Reads.bind (hspelled 0).listUntil (fun items hitems => ?_) more) rfl
      exact .pure ⟨.exprs hitems, nofun⟩
    | lbrace => exact .congr (reads_braced hspelled span _) rfl
    | bar => exact .congr (reads_closure hspelled false span _) rfl
    | orOr => exact .congr (reads_closure hspelled false span _) rfl
    | _ => rintro _ _ _ ⟨⟩

theorem reads_operandWithin (n : Nat) (ts : List Token) :
    ReadsAt all (ReadFrom all ts) (operandWithin expr n) ts := by
  have hspelled := fun least => reads_spelled (hexpr least)
  induction n generalizing ts with
  | zero => exact Reads.throw _ _
  | succ n ih =>
    have hoperand := reads_spelled ih
    obtain _ | ⟨t, more⟩ := ts
    · rintro _ _ _ ⟨⟩
    intro hts
    refine ReadsAt.accept (fun ht => ?_) (.accept (fun _ => ?_) (.acceptWord (fun _ => ?_) ?_)) hts
    · exact .bind (ih more) fun e he => .pure (he.negate ht hts)
    · exact Reads.bind hoperand (fun e he => .pure ⟨he, nofun⟩) more
    · have hawait : ∀ future, AllSpelled all future.integers →
          Reads all (ReadFrom all (t :: more)) (chain expr true (.await t.span future)) :=
        fun future hfuture => reads_chain hspelled true ⟨hfuture, nofun⟩
      refine Reads.after (reads_nextIsWord _) (fun _ => .ite (.bind hoperand hawait) fun us => ?_) more
      refine .bind (reads_atom hexpr us) fun first hfirst => ?_
      exact .bind (reads_chain hspelled false hfirst) fun future hfuture => hawait future hfuture.spelled
    · exact .bind (reads_atom hexpr _) fun first hfirst => reads_chain hspelled true hfirst

theorem reads_operand (ts : List Token) : ReadsAt all (ReadFrom all ts) (operand expr) ts :=
  reads_operandWithin hexpr (ts.length + 1) ts

end Expr

theorem reads_expressionWithin (depth least : Nat) (ts : List Token) :
    ReadsAt all (ReadFrom all ts) (expressionWithin depth least) ts := by
  induction depth generalizing least ts with
  | zero => exact Reads.throw _ _
  | succ depth ih =>
    rw [expressionWithin_succ]
    refine .bind (reads_operand ih ts) fun first hfirst => ?_
    refine .loop (I := ReadFrom all ts) (fun left hleft => .after reads_nextSpan fun span => ?_) hfirst
    have hlook : Reads all (fun _ => True) nextJoiner :=
      .after (reads_look fun ts => ts.head?.map Token.kind) fun kind => by
        split <;> exact .pure trivial
    refine .after hlook fun j => ?_
    cases j with
    | none => exact .pure hleft
    | some j =>
      refine .ite (.pure hleft) (.after reads_skip fun _ => ?_)
      refine .bind (reads_spelled (ih _)) fun right hright => .pure ?_
      exact readFrom_join hleft.spelled hright j span

/-! Items -/

/-- Somewhere inside a text, whatever it begins with. -/
theorem reads_expr (depth least : Nat) :
    Reads all (fun e => AllSpelled all e.integers) (expressionWithin depth least) :=
  reads_spelled (reads_expressionWithin depth least)

theorem reads_wholeExpr : Reads all (fun e => AllSpelled all e.integers) expression :=
  .get_bind fun _ => reads_expr _ _ _

theorem reads_functionRest (isAsync : Bool) (span : Span) :
    Reads all (fun d => AllSpelled all d.body.integers) (functionRest isAsync span) := by
  refine .after (reads_ident _) fun head => .expect (.after extends_param.reads.listUntil fun params => ?_)
  refine .accept (.after (R := fun _ => True) (.map extends_typeExpr.reads fun _ _ => trivial)
    fun ret => ?_) (.after (.pure (Q := fun _ => True) trivial) fun ret => ?_)
  all_goals
    refine .accept ?_ (.get_bind fun ts => ?_)
    · exact .bind reads_wholeExpr fun body hbody => .after (reads_accept _) fun _ => .pure hbody
    · refine Reads.bind (reads_body (reads_expr _)) (fun body hbody => ?_) ts
      exact .pure hbody

theorem reads_aliasRest : Reads all (fun d => AllSpelled all (Expr.optionIntegers d.predicate)) aliasRest := by
  refine .after (reads_ident _) fun head => .expect (.after extends_typeExpr.reads fun ty => ?_)
  refine .acceptWord
    (.bind (R := fun predicate => AllSpelled all (Expr.optionIntegers predicate))
      (.map reads_wholeExpr fun _ he => he) fun predicate hpredicate => ?_)
    (.bind (R := fun predicate => AllSpelled all (Expr.optionIntegers predicate))
      (.pure .nil) fun predicate hpredicate => ?_)
  all_goals exact .after (reads_accept _) fun _ => .pure hpredicate

theorem reads_importName : Reads all (fun _ => True) importName :=
  .after (reads_ident _) fun _ =>
    .acceptWord (.after (reads_ident _) fun _ => .pure trivial) (.pure trivial)

theorem reads_importRest : Reads all (fun _ => True) importRest := by
  refine .expect (.after reads_importName.listUntil fun names => ?_)
  refine .after (R := fun _ => True) (.acceptWord (.pure trivial) (.throw _)) fun _ => ?_
  refine .after (reads_look fun ts => ts.head?.map Token.kind) fun kind => ?_
  split
  · exact .after reads_skip fun _ => .after (reads_accept _) fun _ => .pure trivial
  · exact .throw _

theorem reads_fieldDecl : Reads all (fun _ => True) fieldDecl :=
  .after (reads_ident _) fun _ => .expect (.after extends_typeExpr.reads fun _ => .pure trivial)

theorem reads_recordRest : Reads all (fun _ => True) recordRest :=
  .after (reads_ident _) fun _ => .expect (.after reads_fieldDecl.listUntil fun _ => .pure trivial)

theorem reads_variantDecl : Reads all (fun _ => True) variantDecl :=
  .after (reads_ident _) fun _ =>
    .accept (.after extends_typeExpr.reads.listUntil fun _ => .pure trivial) (.pure trivial)

theorem reads_enumRest : Reads all (fun _ => True) enumRest :=
  .after (reads_ident _) fun _ => .expect (.after reads_variantDecl.listUntil fun _ => .pure trivial)

theorem reads_itemKind (exported : Bool) (span : Span) :
    Reads all (fun kind => AllSpelled all kind.integers) (itemKind exported span) := by
  have hotherwise : Reads all (fun kind => AllSpelled all kind.integers)
      (if exported = true then wanted "declaration after `export`"
        else do
          let e ← expression
          let _ ← accept .semicolon
          return ItemKind.expr e) :=
    .ite (.throw _) (.bind reads_wholeExpr fun _ he => .after (reads_accept _) fun _ => .pure he)
  refine .after (reads_look fun ts => ts.head?.map Token.kind) fun kind => ?_
  split
  · exact .throw _
  · exact .ite hotherwise (.after reads_skip fun _ => .after reads_importRest fun _ => .pure .nil)
  · exact .after reads_skip fun _ => .bind (reads_functionRest false span) fun _ hd => .pure hd
  · refine .after (reads_look _) fun _ => .ite ?_ hotherwise
    exact .after reads_skip fun _ => .after reads_skip fun _ =>
      .bind (reads_functionRest true span) fun _ hd => .pure hd
  · exact .after reads_skip fun _ => .after reads_recordRest fun _ => .pure .nil
  · exact .after reads_skip fun _ => .after reads_enumRest fun _ => .pure .nil
  · exact .after reads_skip fun _ => .bind reads_aliasRest fun _ hd => .pure hd
  · refine .after reads_skip fun _ => .get_bind fun ts => ?_
    refine Reads.bind (reads_letDecl (reads_expr _)) (fun d hd => ?_) ts
    exact .expect (.pure hd)
  · exact hotherwise

theorem reads_items :
    Reads all (fun items => ∀ i ∈ items, AllSpelled all i.kind.integers) items := by
  refine .loop (I := fun acc => ∀ i ∈ acc, AllSpelled all i.kind.integers) (fun acc hacc => ?_)
    (List.forall_mem_nil _)
  refine .get_bind fun ts => Reads.ite (.pure (forall_mem_reverse.2 hacc)) (.accept (.pure hacc) ?_) ts
  refine .bind (R := fun i => AllSpelled all i.kind.integers) ?_ fun i hi =>
    .pure (List.forall_mem_cons.2 ⟨hi, hacc⟩)
  exact .after reads_nextSpan fun span => .after (reads_acceptWord _) fun exported =>
    .bind (reads_itemKind exported span) fun kind hkind => .pure hkind

end StreamLang.Grammar
