import StreamLang.Proofs.Grammar.Numerals
import StreamLang.Proofs.Lexical.Fragment
import StreamLang.Proofs.Modules.Written

/-! The decimal text of an integer is read as this integer, in an expression and in a pattern. The
digits are read before the sign: those of the least integer are one too many. -/

namespace StreamLang

namespace Grammar

open Token (IsNumeral Scans)

variable {n : Int64} {k : Nat} {digits : String} {span : Span} {ts more : List Token}

/-! The digits -/

theorem natOfDigits_toDigits (k : Nat) : Decimal.natOfDigits (Nat.toDigits 10 k) = k :=
  Nat.ofDigitChars_eq_foldl.symm.trans (Nat.ofDigitChars_toDigits (by decide) (by decide))

theorem intValue?_repr (hk : k < 2 ^ 63) : intValue? (Nat.repr k) = some (Int64.ofNat k) := by
  have hplain : withoutUnderscores (Nat.repr k) = Nat.toDigits 10 k := by
    rw [withoutUnderscores, Nat.toList_repr, List.filter_eq_self]
    intro c hc
    have hne : c ≠ '_' := by
      rintro rfl
      exact Nat.underscore_not_in_toDigits hc
    simpa using hne
  rw [intValue?, hplain, natOfDigits_toDigits]
  exact if_pos hk

theorem isNumeral_repr (k : Nat) : IsNumeral (Nat.repr k).toList := by
  rw [Nat.toList_repr]
  have hdigit : ∀ c ∈ Nat.toDigits 10 k, c.isDigit = true :=
    fun c hc => Nat.isDigit_of_mem_toDigits (by decide) (by decide) hc
  cases h : Nat.toDigits 10 k with
  | nil => exact absurd h Nat.toDigits_ne_nil
  | cons c cs =>
    rw [h, List.forall_mem_cons] at hdigit
    exact ⟨c, cs, rfl, hdigit.1, fun d hd => Token.isDigitOrUnderscore_of_isDigit (hdigit.2 d hd)⟩

/-- The token of the digits. -/
theorem scans_repr (p : Position) (k : Nat) : Scans p (Nat.repr k).toList
    [⟨.int (Nat.repr k), p.spanTo (p.advanceAll (Nat.repr k).toList)⟩] [] := by
  have h : Scans p _ _ [] := (isNumeral_repr k).scans (by rintro _ _ ⟨⟩) (by rintro _ ⟨⟩)
  rwa [String.ofList_toList] at h

theorem scanFrom_of_scans {p : Position} {cs : List Char} (h : Scans p cs ts []) :
    Token.scanFrom p cs = .ok ts := by
  have hscan := h [] Token.scanFrom_nil
  rwa [List.append_nil, List.append_nil] at hscan

theorem scan_repr (k : Nat) : ∃ span, Token.scan (Nat.repr k) = .ok [⟨.int (Nat.repr k), span⟩] :=
  ⟨_, scanFrom_of_scans (scans_repr .start k)⟩

/-- The minus sign is a mark by itself, as no arrow follows. -/
theorem scans_minus (p : Position) {cs : List Char} (hcs : IsNumeral cs) :
    Scans p ['-'] [⟨.symbol .minus, p.spanTo (p.advance '-')⟩] cs := by
  obtain ⟨c, ds, rfl, hc, -⟩ := hcs
  have harrow : ('>' == c) = false := by
    rw [beq_eq_false_iff_ne]
    rintro rfl
    cases hc
  refine Token.scans_mark (by decide) rfl ?_
  simp [Punct.ofStart?, Punct.all, Punct.chars, List.isPrefixOf, harrow]

theorem scan_minus_repr (k : Nat) : ∃ span span', Token.scan ("-" ++ Nat.repr k) =
    .ok [⟨.symbol .minus, span⟩, ⟨.int (Nat.repr k), span'⟩] := by
  have hminus := scans_minus .start (isNumeral_repr k)
  rw [← List.append_nil (Nat.repr k).toList] at hminus
  refine ⟨_, _, Eq.trans ?_ (scanFrom_of_scans (hminus.append (scans_repr _ k)))⟩
  rw [Token.scan, String.toList_append]
  rfl

/-! Reading them -/

theorem intLiteral_eq (h : intValue? digits = some n) (t : Token) :
    intLiteral digits (t :: more) = .ok n more := by
  unfold intLiteral
  rw [h]
  rfl

theorem operandWithin_digits {expr : ExprReader} (h : intValue? digits = some n) (fuel : Nat) :
    operandWithin expr (fuel + 1) [⟨.int digits, span⟩] = .ok (.literal span (.int n)) [] := by
  have hatom : atom expr [⟨.int digits, span⟩] = .ok (.literal span (.int n)) [] :=
    bind_of_ok (f := fun n => pure (Expr.literal span (.int n))) (intLiteral_eq h _)
  exact bind_of_ok (f := chain expr true) hatom

theorem operandWithin_minus {expr : ExprReader} (h : intValue? digits = some n) (fuel : Nat)
    {span' : Span} : operandWithin expr (fuel + 2) [⟨.symbol .minus, span⟩, ⟨.int digits, span'⟩] =
      .ok (.literal span (.int (-n))) [] :=
  bind_of_ok (f := fun e => pure (negate e span)) (operandWithin_digits h fuel)

theorem expression_of_operand {e : Expr}
    (h : operandWithin (expressionWithin ts.length) (ts.length + 1) ts = .ok e []) :
    expression ts = .ok e [] :=
  bind_of_ok (f := loop (joinRound (expressionWithin ts.length) 0)) h

theorem pattern_digits (h : intValue? digits = some n) :
    pattern [⟨.int digits, span⟩] = .ok (.literal span (.int n)) [] :=
  bind_of_ok (f := fun n => pure (Pattern.literal span (.int n))) (intLiteral_eq h _)

theorem pattern_minus (h : intValue? digits = some n) {span' : Span} :
    pattern [⟨.symbol .minus, span⟩, ⟨.int digits, span'⟩] = .ok (.literal span (.int (-n))) [] := by
  have hnumber : negatedNumber [⟨.int digits, span'⟩] = .ok (.int (-n)) [] :=
    bind_of_ok (f := fun n => pure (Literal.int (-n))) (intLiteral_eq h _)
  exact bind_of_ok (f := fun l => pure (Pattern.literal span l)) hnumber

/-- The text is the literal by itself, as an expression and as a pattern. -/
def IsLiteral (source : String) (l : Literal) : Prop := ∃ span,
  Expr.ofSource source = .ok (.literal span l) ∧ readSource pattern source = .ok (.literal span l, [])

theorem isLiteral_of_tokens {source : String} {l : Literal} (hscan : Token.scan source = .ok ts)
    (hexpr : expression ts = .ok (.literal span l) [])
    (hpattern : pattern ts = .ok (.literal span l) []) : IsLiteral source l :=
  ⟨span, by simp only [Expr.ofSource, readSource, hscan, hexpr], by
    simp only [readSource, hscan, hpattern]⟩

theorem isLiteral_digits (hk : k < 2 ^ 63) : IsLiteral (Nat.repr k) (.int (Int64.ofNat k)) := by
  obtain ⟨span, hscan⟩ := scan_repr k
  have hvalue := intValue?_repr hk
  exact isLiteral_of_tokens hscan (expression_of_operand (operandWithin_digits hvalue 1))
    (pattern_digits hvalue)

theorem isLiteral_minus (hk : k < 2 ^ 63) :
    IsLiteral ("-" ++ Nat.repr k) (.int (-Int64.ofNat k)) := by
  obtain ⟨span, span', hscan⟩ := scan_minus_repr k
  have hvalue := intValue?_repr hk
  exact isLiteral_of_tokens hscan (expression_of_operand (operandWithin_minus hvalue 1))
    (pattern_minus hvalue)

end Grammar

open Grammar

/-- Behind a sign or without one stand the digits of a number that is an integer. -/
theorem Literal.render_int {n : Int64} (h : n ≠ .minValue) : ∃ k < 2 ^ 63,
    n = Int64.ofNat k ∧ (Literal.int n).render = Nat.repr k ∨
      n = -Int64.ofNat k ∧ (Literal.int n).render = "-" ++ Nat.repr k := by
  have hlow := minValue_lt_of_ne h
  have hhigh := n.toInt_lt
  rw [Int64.toInt_minValue] at hlow
  rw [Literal.render]
  cases hn : n.toInt with
  | ofNat k =>
    have hk : k < 2 ^ 63 := by
      rw [hn, Int.ofNat_eq_natCast] at hhigh
      omega
    refine ⟨k, hk, .inl ⟨Int64.toInt_inj.1 ?_, rfl⟩⟩
    rw [hn, Int64.toInt_ofNat_of_lt hk]
    rfl
  | negSucc k =>
    have hk : k + 1 < 2 ^ 63 := by omega
    refine ⟨k + 1, hk, .inr ⟨Int64.toInt_inj.1 ?_, rfl⟩⟩
    rw [hn, toInt_neg_of_ne (ofNat_ne_minValue hk), Int64.toInt_ofNat_of_lt hk]
    rfl

/-- The text of each integer but the least is this integer, as an expression and as a pattern. And in any
program, an integer is the number that is written at its place: digits, with the signs in front of them. -/
theorem integers_are_written (n : Int64) (source : String) :
    (n ≠ .minValue → ∃ span,
      Expr.ofSource (Literal.int n).render = .ok (.literal span (.int n)) ∧
      readSource pattern (Literal.int n).render = .ok (.literal span (.int n), [])) ∧
    ∀ tokens p, Token.scan source = .ok tokens → Program.ofSource source = .ok p →
      ∀ x ∈ p.integers, Spells tokens x := by
  constructor
  · intro hn
    obtain ⟨k, hk, ⟨hvalue, hrender⟩ | ⟨hvalue, hrender⟩⟩ := Literal.render_int hn
    · rw [hrender, hvalue]
      exact isLiteral_digits hk
    · rw [hrender, hvalue]
      exact isLiteral_minus hk
  · intro tokens p hscan hsource
    obtain ⟨tokens', rest, hscan', hitems⟩ := Program.items_of_ofSource hsource
    cases hscan.symm.trans hscan'
    exact List.forall_mem_flatMap.2 (reads_items tokens (List.suffix_refl _) p.items rest hitems).2

/-- A sign is a part of the integer also in front of parentheses, and has its span. -/
theorem minus_seven_is_written :
    (∃ span, Expr.ofSource "-7" = .ok (.literal span (.int (-7))) ∧
      readSource pattern "-7" = .ok (.literal span (.int (-7)), [])) ∧
    ∃ tokens p, Token.scan "f(-(7), 1_000);" = .ok tokens ∧
      Program.ofSource "f(-(7), 1_000);" = .ok p ∧
      p.integers = [(⟨2, 3, 1, 3⟩, -7), (⟨8, 13, 1, 9⟩, 1000)] ∧
      ∀ x ∈ p.integers, Spells tokens x := by
  obtain ⟨hliteral, hprogram⟩ := integers_are_written (-7) "f(-(7), 1_000);"
  refine ⟨hliteral (by decide), ?_⟩
  have hfound : (Program.ofSource "f(-(7), 1_000);").toOption.map Program.integers =
      some [(⟨2, 3, 1, 3⟩, -7), (⟨8, 13, 1, 9⟩, 1000)] := by decide +kernel
  obtain ⟨tokens, hscan⟩ : ∃ tokens, Token.scan "f(-(7), 1_000);" = .ok tokens := ⟨_, by cbv⟩
  cases hsource : Program.ofSource "f(-(7), 1_000);" with
  | error e => rw [hsource] at hfound; cases hfound
  | ok p =>
    rw [hsource] at hfound
    exact ⟨tokens, p, hscan, rfl, Option.some.inj hfound, hprogram _ _ hscan hsource⟩

/-- The digits of the least integer are no integer, and the sign comes too late. -/
theorem least_integer_rejected :
    (Literal.int .minValue).render = "-9223372036854775808" ∧
    Expr.ofSource "-9223372036854775808" = .error (.unmet (.valid "integer literal")
      (some ⟨.int "9223372036854775808", ⟨1, 20, 1, 2⟩⟩) ⟨20, 20, 1, 21⟩) ∧
    readSource pattern "-9223372036854775808" = .error (.unmet (.valid "integer literal")
      (some ⟨.int "9223372036854775808", ⟨1, 20, 1, 2⟩⟩) ⟨20, 20, 1, 21⟩) := by
  have hscan : Token.scan "-9223372036854775808" = .ok [⟨.symbol .minus, ⟨0, 1, 1, 1⟩⟩,
      ⟨.int "9223372036854775808", ⟨1, 20, 1, 2⟩⟩] := by decide +kernel
  refine ⟨by decide, ?_, ?_⟩
  · rw [Expr.ofSource, readSource, hscan]
    rfl
  · rw [readSource, hscan]
    rfl

end StreamLang
