import StreamLang.Proofs.Grammar.Precedence
import StreamLang.Proofs.Lexical.Fragment

/-! Postfix operators behind an operand: calls, selections, indexes, `?` and updates. A chain of them is
read from left to right, each with the arguments that it has by itself, as long as the scanner does
not take the end of one and the beginning of the next for one token. -/

namespace StreamLang.Grammar

open Token (IsGap IsWord IsNumeral Written Scans Stops closers)

/-! The texts of a chain -/

/-- A name that is no reserved word. -/
def IsName (cs : List Char) : Prop := IsWord cs ∧ Keyword.ofText? (String.ofList cs) = none

/-- The text at `p` is an expression by itself. -/
def IsExpr (p : Position) (cs : List Char) (e : Expr) : Prop :=
  ∃ ts, Written p cs ts ∧ expression ts = .ok e []

/-- Items separated by commas, and the closing mark; a comma may stand in front of it. -/
inductive Items {α : Type} (item : Position → List Char → α → Prop) (close : Char) :
    Position → List Char → List α → Prop
  | none {p : Position} {gap : List Char} : IsGap gap → Items item close p (gap ++ [close]) []
  | last {p : Position} {cs : List Char} {a : α} : item p cs a → Items item close p (cs ++ [close]) [a]
  | more {p : Position} {cs rest : List Char} {a : α} {as : List α} : item p cs a →
      Items item close (p.advanceAll (cs ++ [','])) rest as →
      Items item close p (cs ++ ',' :: rest) (a :: as)

/-- A field with its new value, or a field that takes the variable of its name. -/
inductive IsFieldInit (p : Position) : List Char → FieldInit → Prop
  | value {gap name gap' cs : List Char} {e : Expr} : IsGap gap → IsName name → IsGap gap' →
      IsExpr ((((p.advanceAll gap).advanceAll name).advanceAll gap').advance ':') cs e →
      IsFieldInit p (gap ++ (name ++ (gap' ++ ':' :: cs)))
        ⟨String.ofList name, (p.advanceAll gap).spanTo ((p.advanceAll gap).advanceAll name), e⟩
  | name {gap name gap' : List Char} : IsGap gap → IsName name → IsGap gap' →
      IsFieldInit p (gap ++ (name ++ gap'))
        ⟨String.ofList name, (p.advanceAll gap).spanTo ((p.advanceAll gap).advanceAll name),
          .name ((p.advanceAll gap).spanTo ((p.advanceAll gap).advanceAll name)) (String.ofList name)⟩

/-- The parts of a chain: the two operands, and the operators. -/
inductive Part
  | name | paren | call | field | item | method | index | attempt | update
deriving DecidableEq

/-- The operand that stands at `p`. -/
inductive IsOperand (p : Position) : Part → List Char → Expr → Prop
  | name {cs : List Char} : IsName cs → isTypeName (String.ofList cs) = false →
      IsOperand p .name cs (.name (p.spanTo (p.advanceAll cs)) (String.ofList cs))
  | paren {cs : List Char} {e : Expr} : IsExpr (p.advance '(') cs e →
      IsOperand p .paren ('(' :: (cs ++ [')'])) e

/-- The operator that stands at `p`, and what it makes of the expression in front of it. -/
inductive IsPostfix (p : Position) (e : Expr) : Part → List Char → Expr → Prop
  | call {cs : List Char} {args : List Expr} : Items IsExpr ')' (p.advance '(') cs args →
      IsPostfix p e .call ('(' :: cs) (.call e.span e args)
  | field {cs : List Char} : IsName cs →
      IsPostfix p e .field ('.' :: cs)
        (.select ((p.advance '.').spanTo ((p.advance '.').advanceAll cs)) e (String.ofList cs))
  | item {cs : List Char} : IsNumeral cs →
      IsPostfix p e .item ('.' :: cs)
        (.select ((p.advance '.').spanTo ((p.advance '.').advanceAll cs)) e (String.ofList cs))
  | method {name cs : List Char} {args : List Expr} : IsName name →
      Items IsExpr ')' (((p.advance '.').advanceAll name).advance '(') cs args →
      IsPostfix p e .method ('.' :: (name ++ '(' :: cs))
        (.method ((p.advance '.').spanTo ((p.advance '.').advanceAll name)) e (String.ofList name) args)
  | index {cs : List Char} {i : Expr} : IsExpr (p.advance '[') cs i →
      IsPostfix p e .index ('[' :: (cs ++ [']'])) (.index (p.spanTo (p.advance '[')) e i)
  | attempt : IsPostfix p e .attempt ['?'] (.attempt (p.spanTo (p.advance '?')) e)
  | update {gap cs : List Char} {fields : List FieldInit} : IsGap gap →
      Items IsFieldInit '\x7d' (((p.advanceAll ['w', 'i', 't', 'h']).advanceAll gap).advance '\x7b') cs
        fields →
      IsPostfix p e .update (['w', 'i', 't', 'h'] ++ (gap ++ '\x7b' :: cs))
        (.update (p.spanTo (p.advanceAll ['w', 'i', 't', 'h'])) e fields)

/-- The end of the first part and the beginning of the second would be one token: `with` goes on with a
name, and the second of two places in a tuple is read as the fraction of the first. -/
def Part.merges : Part → Part → Bool
  | .name, .update => true
  | .field, .update => true
  | .item, .item => true
  | _, _ => false

/-- Operators behind an expression, one after the other. A field with arguments is a method. -/
inductive Chain : Position → Part → Expr → List Char → Expr → Prop
  | nil {p : Position} {before : Part} {e : Expr} : Chain p before e [] e
  | cons {p : Position} {before after : Part} {e e' e'' : Expr} {gap cs rest : List Char} : IsGap gap →
      IsPostfix (p.advanceAll gap) e after cs e' → ¬ (before = .field ∧ after = .call) →
      (before.merges after = true → gap ≠ []) →
      Chain (p.advanceAll (gap ++ cs)) after e' rest e'' → Chain p before e (gap ++ (cs ++ rest)) e''

/-! Reading one item -/

/-- The text at `p` has these tokens in front of a closing mark, and they are read as `a`. -/
structure ReadsAs {α : Type} (item : Nat → Reader α) (p : Position) (cs : List Char) (a : α)
    (ts : List Token) : Prop where
  scans : ∀ y ∈ closers, ∀ rest, Scans p cs ts (y :: rest)
  starts : ∃ t more, ts = t :: more ∧ ∀ mark ∈ closingMarks, t.kind ≠ .symbol mark
  reads : ∀ depth, ts.length < depth → ∀ tail, EndsExpr tail → item depth (ts ++ tail) = .ok a tail

theorem ReadsAs.first {α : Type} {item : Nat → Reader α} {p : Position} {cs : List Char} {a : α}
    {ts : List Token} (h : ReadsAs item p cs a ts) {mark : Punct} (hmark : mark ∈ closingMarks)
    (tail : List Token) : ∃ t more, ts ++ tail = t :: more ∧ t.kind ≠ .symbol mark := by
  obtain ⟨t, more, rfl, ht⟩ := h.starts
  exact ⟨t, more ++ tail, rfl, ht mark hmark⟩

/-- An expression does not begin with just any token. -/
theorem exists_cons_of_expression {ts : List Token} {e : Expr} {rest : List Token}
    (h : expression ts = .ok e rest) :
    ∃ t more, ts = t :: more ∧ ∀ mark ∈ .colon :: .path :: closingMarks, t.kind ≠ .symbol mark := by
  cases ts with
  | nil => cases h
  | cons t more =>
    refine ⟨t, more, rfl, fun mark hmark ht => ?_⟩
    obtain ⟨kind, span⟩ := t
    obtain rfl : kind = .symbol mark := ht
    simp only [closingMarks, List.mem_cons, List.not_mem_nil, or_false] at hmark
    obtain rfl | rfl | rfl | rfl | rfl | rfl := hmark <;> cases h

theorem IsExpr.readsAs {p : Position} {cs : List Char} {e : Expr} (h : IsExpr p cs e) :
    ∃ ts, ReadsAs (expressionWithin · 0) p cs e ts := by
  obtain ⟨ts, hwritten, hread⟩ := h
  obtain ⟨t, more, rfl, ht⟩ := exists_cons_of_expression hread
  exact ⟨_, fun y hy rest => hwritten.scans hy rest,
    ⟨t, more, rfl, fun mark hmark => ht mark (by simp [hmark])⟩,
    fun depth hdepth tail htail => expression_append hread hdepth htail⟩

/-- So what stands behind a colon is not taken for a part of it. -/
theorem IsExpr.ne_colon {p : Position} {cs : List Char} {e : Expr} (h : IsExpr p cs e)
    (more : List Char) : cs ≠ ':' :: more := by
  rintro rfl
  obtain ⟨ts, ⟨hscan, -⟩, hread⟩ := h
  obtain ⟨t, rest, rfl, ht⟩ := exists_cons_of_expression hread
  have hskip : Token.skipGap .blanks p (':' :: more) = some (p, ':' :: more) :=
    Token.skipGap_token (by decide) (by rintro _ ⟨⟩) (by rintro _ ⟨⟩)
  obtain ⟨s, hs, hkind⟩ : ∃ s, Token.scanToken ':' more = .ok s ∧
      (s.kind = .symbol .colon ∨ s.kind = .symbol .path) := by
    by_cases hdouble : ∃ m, more = ':' :: m
    · obtain ⟨m, rfl⟩ := hdouble
      exact ⟨_, rfl, .inr rfl⟩
    · have hcolon : Punct.ofStart? (':' :: more) = some .colon :=
        Token.ofStart?_lone (by simp) rfl fun m hm => hdouble ⟨m, hm⟩
      refine ⟨⟨.symbol .colon, [':'], more⟩, ?_, .inl rfl⟩
      simp [Token.scanToken, Token.isNameStart, hcolon, Punct.chars]
  rw [Token.scanFrom_token hskip hs] at hscan
  obtain ⟨us, -, heq⟩ := Token.ok_of_map hscan
  obtain ⟨rfl, -⟩ := List.cons.inj heq
  obtain hk | hk := hkind
  · exact ht .colon (by simp) hk
  · exact ht .path (by simp) hk

theorem IsName.scans {p : Position} {cs rest : List Char} (h : IsName cs)
    (hrest : Stops Token.isNameChar rest) :
    Scans p cs [⟨.ident (String.ofList cs), p.spanTo (p.advanceAll cs)⟩] rest :=
  h.1.scans hrest _ (by rw [h.2])

theorem stops_closer {y : Char} (hy : y ∈ closers) (rest : List Char) :
    Stops Token.isNameChar (y :: rest) := .cons (Token.not_isNameChar_of_closers hy).1 rest

theorem fieldInit_value {expr : ExprReader} {name : String} {s s' : Span} {us : List Token} :
    fieldInit expr (⟨.ident name, s⟩ :: ⟨.symbol .colon, s'⟩ :: us) =
      (do let value ← expr 0; return ⟨name, s, value⟩ : Reader FieldInit) us := rfl

theorem fieldInit_name {expr : ExprReader} {name : String} {s : Span} {tail : List Token}
    (htail : EndsExpr tail) :
    fieldInit expr (⟨.ident name, s⟩ :: tail) = .ok ⟨name, s, .name s name⟩ tail := by
  cases tail with
  | nil => rfl
  | cons t more =>
    obtain ⟨kind, span⟩ := t
    obtain ⟨mark, hmark, rfl⟩ := htail _ _ rfl
    simp only [closingMarks, List.mem_cons, List.not_mem_nil, or_false] at hmark
    obtain rfl | rfl | rfl | rfl := hmark <;> rfl

theorem IsFieldInit.readsAs {p : Position} {cs : List Char} {f : FieldInit} (h : IsFieldInit p cs f) :
    ∃ ts, ReadsAs (fun depth => fieldInit (expressionWithin depth)) p cs f ts := by
  cases h with
  | @value gap name gap' cs e hgap hname hgap' he =>
    obtain ⟨ts, hts⟩ := he.readsAs
    let start := p.advanceAll gap
    let stop := (start.advanceAll name).advanceAll gap'
    refine ⟨⟨.ident (String.ofList name), start.spanTo (start.advanceAll name)⟩ ::
      ⟨.symbol .colon, stop.spanTo (stop.advance ':')⟩ :: ts, fun y hy rest => ?_,
      ⟨_, _, rfl, fun mark _ => by simp⟩, fun depth hdepth tail htail => ?_⟩
    · have hcolon : ∀ more, cs ++ y :: rest ≠ ':' :: more := by
        intro more hmore
        cases cs with
        | nil =>
          obtain ⟨rfl, -⟩ := List.cons.inj hmore
          exact absurd hy (by decide)
        | cons c cs =>
          obtain ⟨rfl, -⟩ := List.cons.inj hmore
          exact he.ne_colon cs rfl
      refine hgap.scans.append <| (hname.scans ?_).append <| hgap'.scans.append <|
        .cons ?_ (hts.scans y hy rest)
      · rw [List.append_assoc]
        exact hgap'.stops (fun _ h => h) fun _ => .cons (by decide) _
      · exact Token.scans_lone (by simp) rfl hcolon
    · have hread := hts.reads depth (by simp at hdepth; omega) tail htail
      rw [List.cons_append, List.cons_append, fieldInit_value, bind_of_ok hread]
      rfl
  | @name gap name gap' hgap hname hgap' =>
    let start := p.advanceAll gap
    refine ⟨[⟨.ident (String.ofList name), start.spanTo (start.advanceAll name)⟩],
      fun y hy rest => ?_, ⟨_, _, rfl, fun mark _ => by simp⟩,
      fun depth hdepth tail htail => fieldInit_name htail⟩
    refine hgap.scans.append ((hname.scans ?_).append hgap'.scans)
    exact hgap'.stops (fun _ h => h) fun _ => stops_closer hy rest

/-! Reading a list -/

/-- One item of a list and what stands behind it. -/
def listRound {α : Type} (close : Punct) (item : Reader α) (as : List α) :
    Reader (Round (List α) (List α)) := do
  if ← accept close then return .done as.reverse
  let a ← item
  if ← accept .comma then return .again (a :: as)
  expect close
  return .done (a :: as).reverse

theorem listUntil_eq {α : Type} (close : Punct) (item : Reader α) :
    listUntil close item = loop (listRound close item) [] := rfl

section List

variable {α : Type} {close : Punct} {item : Reader α} {as : List α} {a : α} {t u : Token}
  {ts more rest : List Token}

theorem listRound_close (ht : t.kind = .symbol close) :
    listRound close item as (t :: more) = .ok (.done as.reverse) more := by
  unfold listRound
  rw [bind_of_ok ((accept_cons close t more).trans (if_pos ht))]
  rfl

theorem listRound_item (hts : ∃ t more, ts = t :: more ∧ t.kind ≠ .symbol close)
    (hitem : item ts = .ok a (u :: rest)) (hu : u.kind = .symbol .comma ∨ u.kind = .symbol close) :
    listRound close item as ts =
      .ok (if u.kind = .symbol .comma then .again (a :: as) else .done (a :: as).reverse) rest := by
  obtain ⟨t, more, rfl, ht⟩ := hts
  unfold listRound
  rw [bind_of_ok ((accept_cons close t more).trans (if_neg ht)), if_neg (by simp), bind_of_ok hitem]
  by_cases hcomma : u.kind = .symbol .comma
  · rw [bind_of_ok ((accept_cons .comma u rest).trans (if_pos hcomma)), if_pos hcomma]
    rfl
  · rw [bind_of_ok ((accept_cons .comma u rest).trans (if_neg hcomma)), if_neg hcomma, if_neg (by simp),
      bind_of_ok ((expect_cons close u rest).trans (if_pos (hu.resolve_left hcomma)))]
    rfl

end List

/-- A closing mark is a token by itself. -/
theorem scans_closing {mark : Punct} {c : Char} (hmark : mark ∈ closingMarks) (hc : mark.chars = [c])
    (p : Position) (rest : List Char) : Scans p [c] [⟨.symbol mark, p.spanTo (p.advance c)⟩] rest := by
  simp only [closingMarks, List.mem_cons, List.not_mem_nil, or_false] at hmark
  refine Token.scans_mark ?_ hc ?_ <;> obtain rfl | rfl | rfl | rfl := hmark <;> cases hc <;>
    first | rfl | decide

theorem mem_closers {mark : Punct} {c : Char} (hmark : mark ∈ closingMarks) (hc : mark.chars = [c]) :
    c ∈ closers := by
  simp only [closingMarks, List.mem_cons, List.not_mem_nil, or_false] at hmark
  obtain rfl | rfl | rfl | rfl := hmark <;> cases hc <;> decide

theorem endsExpr_cons {mark : Punct} (hmark : mark ∈ closingMarks) (span : Span) (more : List Token) :
    EndsExpr (⟨.symbol mark, span⟩ :: more) := by
  rintro _ _ ⟨⟩
  exact ⟨mark, hmark, rfl⟩

/-- The tokens of the items are read one after the other. -/
theorem Items.reads {α : Type} {item : Position → List Char → α → Prop} {reader : Nat → Reader α}
    {mark : Punct} {close : Char} (hmark : mark ∈ closingMarks) (hcomma : mark ≠ .comma)
    (hclose : mark.chars = [close])
    (hitem : ∀ {p cs a}, item p cs a → ∃ ts, ReadsAs reader p cs a ts)
    {p : Position} {cs : List Char} {as : List α} (h : Items item close p cs as) :
    ∃ ts, (∀ rest, Scans p cs ts rest) ∧
      ∀ depth, ts.length ≤ depth → ∀ fuel, ts.length < fuel → ∀ before more,
        loopFor (listRound mark (reader depth)) fuel before (ts ++ more) =
          .ok (before.reverse ++ as) more := by
  induction h with
  | @none p gap hgap =>
    refine ⟨_, fun rest => hgap.scans.append (scans_closing hmark hclose _ rest), ?_⟩
    intro depth _ fuel hfuel before more
    obtain ⟨fuel, rfl⟩ := Nat.exists_eq_succ_of_ne_zero (by omega : fuel ≠ 0)
    rw [List.nil_append, List.singleton_append, loopFor, bind_of_ok (listRound_close rfl),
      List.append_nil]
    rfl
  | @last p cs a ha =>
    obtain ⟨ts, hts⟩ := hitem ha
    refine ⟨_, fun rest => (hts.scans close (mem_closers hmark hclose) rest).append
      (scans_closing hmark hclose _ rest), ?_⟩
    intro depth hdepth fuel hfuel before more
    obtain ⟨fuel, rfl⟩ := Nat.exists_eq_succ_of_ne_zero (by omega : fuel ≠ 0)
    rw [List.length_append, List.length_singleton] at hdepth
    rw [List.append_assoc, List.singleton_append]
    have hread (span) := hts.reads depth (by omega) _ (endsExpr_cons hmark span more)
    rw [loopFor, bind_of_ok (listRound_item (hts.first hmark _) (hread _) (.inr rfl)),
      if_neg (by simpa using hcomma)]
    simp only [List.reverse_cons]
    rfl
  | @more p cs rest a as ha _ ih =>
    obtain ⟨ts, hts⟩ := hitem ha
    obtain ⟨us, hus, hreads⟩ := ih
    have hcommas : Punct.comma ∈ closingMarks := by decide
    rw [Position.advanceAll_append] at hus
    refine ⟨_, fun rest => (hts.scans ',' (by decide) _).append
      (.cons (scans_closing hcommas rfl _ _) (hus rest)), ?_⟩
    intro depth hdepth fuel hfuel before more
    obtain ⟨fuel, rfl⟩ := Nat.exists_eq_succ_of_ne_zero (by omega : fuel ≠ 0)
    rw [List.length_append, List.length_cons] at hdepth hfuel
    rw [List.append_assoc, List.cons_append]
    have hread (span) := hts.reads depth (by omega) _ (endsExpr_cons hcommas span (us ++ more))
    rw [loopFor, bind_of_ok (listRound_item (hts.first hmark _) (hread _) (.inl rfl)), if_pos rfl]
    have hrest := hreads depth (by omega) fuel (by omega) (a :: before) more
    simpa using hrest

theorem Items.listUntil_eq {α : Type} {item : Position → List Char → α → Prop}
    (reader : Nat → Reader α) {mark : Punct} {close : Char} (hmark : mark ∈ closingMarks)
    (hcomma : mark ≠ .comma) (hclose : mark.chars = [close])
    (hitem : ∀ {p cs a}, item p cs a → ∃ ts, ReadsAs reader p cs a ts)
    {p : Position} {cs : List Char} {as : List α} (h : Items item close p cs as) :
    ∃ ts, (∀ rest, Scans p cs ts rest) ∧ ∀ depth, ts.length ≤ depth → ∀ more,
      listUntil mark (reader depth) (ts ++ more) = .ok as more := by
  obtain ⟨ts, hscan, hreads⟩ := h.reads hmark hcomma hclose hitem
  refine ⟨ts, hscan, fun depth hdepth more => ?_⟩
  rw [Grammar.listUntil_eq]
  exact hreads depth hdepth ((ts ++ more).length + 1) (by rw [List.length_append]; omega) [] more

theorem arguments_read {p : Position} {cs : List Char} {args : List Expr}
    (h : Items IsExpr ')' p cs args) :
    ∃ ts, (∀ rest, Scans p cs ts rest) ∧ ∀ depth, ts.length ≤ depth → ∀ more,
      listUntil .rparen (expressionWithin depth 0) (ts ++ more) = .ok args more :=
  h.listUntil_eq (expressionWithin · 0) (by decide) (by decide) rfl IsExpr.readsAs

theorem fields_read {p : Position} {cs : List Char} {fields : List FieldInit}
    (h : Items IsFieldInit '\x7d' p cs fields) :
    ∃ ts, (∀ rest, Scans p cs ts rest) ∧ ∀ depth, ts.length ≤ depth → ∀ more,
      listUntil .rbrace (fieldInit (expressionWithin depth)) (ts ++ more) = .ok fields more :=
  h.listUntil_eq (fun depth => fieldInit (expressionWithin depth)) (by decide) (by decide) rfl
    IsFieldInit.readsAs

/-! Reading one operator -/

/-- One operator of a chain, or its end. -/
def chainRound (expr : ExprReader) (allowAttempt : Bool) (e : Expr) : Reader (Round Expr Expr) := do
  let span ← nextSpan
  if ← accept .lparen then
    let args ← listUntil .rparen (expr 0)
    return .again (.call e.span e args)
  if ← accept .dot then return .again (← selection expr e)
  if ← accept .lbracket then
    let i ← expr 0
    expect .rbracket
    return .again (.index span e i)
  if allowAttempt then
    if ← accept .question then return .again (.attempt span e)
  if ← acceptWord .withKw then
    expect .lbrace
    let fields ← listUntil .rbrace (fieldInit expr)
    return .again (.update span e fields)
  return .done e

theorem chain_eq (expr : ExprReader) (allowAttempt : Bool) (first : Expr) :
    chain expr allowAttempt first = loop (chainRound expr allowAttempt) first := rfl

section Round

variable {expr : ExprReader} {e : Expr} {s : Span} {us : List Token}

theorem chainRound_call : chainRound expr true e (⟨.symbol .lparen, s⟩ :: us) =
    (do return .again (.call e.span e (← listUntil .rparen (expr 0))) : Reader _) us := rfl

theorem chainRound_dot : chainRound expr true e (⟨.symbol .dot, s⟩ :: us) =
    (do return .again (← selection expr e) : Reader _) us := rfl

theorem chainRound_index : chainRound expr true e (⟨.symbol .lbracket, s⟩ :: us) =
    (do let i ← expr 0; expect .rbracket; return .again (.index s e i) : Reader _) us := rfl

theorem chainRound_attempt : chainRound expr true e (⟨.symbol .question, s⟩ :: us) =
    .ok (.again (.attempt s e)) us := rfl

theorem chainRound_update {s' : Span} :
    chainRound expr true e (⟨.keyword .withKw, s⟩ :: ⟨.symbol .lbrace, s'⟩ :: us) =
      (do return .again (.update s e (← listUntil .rbrace (fieldInit expr))) : Reader _) us := rfl

theorem selection_field {name : String} (h : ∀ u more, us = u :: more → u.kind ≠ .symbol .lparen) :
    selection expr e (⟨.ident name, s⟩ :: us) = .ok (.select s e name) us := by
  have hsel : selection expr e (⟨.ident name, s⟩ :: us) =
      (do
        if ← accept .lparen then return .method s e name (← listUntil .rparen (expr 0))
        else return .select s e name : Reader _) us := rfl
  rw [hsel]
  cases us with
  | nil => rfl
  | cons u more =>
    rw [bind_of_ok ((accept_cons .lparen u more).trans (if_neg (h u more rfl)))]
    rfl

theorem selection_method {name : String} {s' : Span} {args : List Expr} {more : List Token}
    (h : listUntil .rparen (expr 0) us = .ok args more) :
    selection expr e (⟨.ident name, s⟩ :: ⟨.symbol .lparen, s'⟩ :: us) =
      .ok (.method s e name args) more := by
  have hsel : selection expr e (⟨.ident name, s⟩ :: ⟨.symbol .lparen, s'⟩ :: us) =
      (do return .method s e name (← listUntil .rparen (expr 0)) : Reader _) us := rfl
  rw [hsel, bind_of_ok h]
  rfl

theorem selection_item {digits : String} : selection expr e (⟨.int digits, s⟩ :: us) =
    .ok (.select s e digits) us := rfl

end Round

/-- The token with which an operator begins. -/
def Part.opening : Part → TokenKind
  | .index => .symbol .lbracket
  | .attempt => .symbol .question
  | .update => .keyword .withKw
  | .field | .item | .method => .symbol .dot
  | _ => .symbol .lparen

/-- What follows does not go on with the last token of the part. -/
def Part.EndsAt : Part → List Char → Prop
  | .name, rest => Stops Token.isNameChar rest
  | .field, rest => Stops Token.isNameChar rest
  | .item, rest => Stops Token.isDigitOrUnderscore rest ∧
      ∀ more, rest = '.' :: more → Stops Char.isDigit more
  | _, _ => True

theorem IsPostfix.reads {p : Position} {e e' : Expr} {part : Part} {cs : List Char}
    (h : IsPostfix p e part cs e') : ∃ t ts, t.kind = part.opening ∧
      (∀ rest, part.EndsAt rest → Scans p cs (t :: ts) rest) ∧
      ∀ depth, ts.length ≤ depth → ∀ more,
        (part = .field → ∀ u us, more = u :: us → u.kind ≠ .symbol .lparen) →
        chainRound (expressionWithin depth) true e (t :: (ts ++ more)) = .ok (.again e') more := by
  cases h with
  | call hargs =>
    obtain ⟨ts, hscan, hread⟩ := arguments_read hargs
    refine ⟨_, ts, rfl, fun rest _ => .cons (Token.scans_mark (by decide) rfl rfl) (hscan rest), ?_⟩
    intro depth hdepth more _
    rw [chainRound_call, bind_of_ok (hread depth hdepth more)]
    rfl
  | @field name hname =>
    refine ⟨_, _, rfl, fun rest hrest =>
      .cons (Token.scans_lone (by simp) rfl (hname.1.ne_dot rest)) (hname.scans hrest), ?_⟩
    intro depth hdepth more hmore
    rw [List.singleton_append, chainRound_dot, bind_of_ok (selection_field (hmore rfl))]
    rfl
  | @item digits hdigits =>
    refine ⟨_, _, rfl, fun rest hrest => .cons (Token.scans_lone (by simp) rfl (hdigits.ne_dot rest))
      (hdigits.scans hrest.1 hrest.2), ?_⟩
    intro depth hdepth more _
    rw [List.singleton_append, chainRound_dot, bind_of_ok selection_item]
    rfl
  | @method name cs args hname hargs =>
    obtain ⟨ts, hscan, hread⟩ := arguments_read hargs
    refine ⟨_, _, rfl, fun rest _ =>
      .cons (Token.scans_lone (by simp) rfl fun more => ?_) <|
        (hname.scans (.cons (by decide) _)).append <|
        .cons (Token.scans_mark (by decide) rfl rfl) (hscan rest), ?_⟩
    · rw [List.append_assoc]
      exact hname.1.ne_dot _ more
    intro depth hdepth more _
    simp only [List.length_append, List.length_cons] at hdepth
    exact chainRound_dot.trans (bind_of_ok (selection_method (hread depth (by omega) more)))
  | @index cs i hi =>
    obtain ⟨ts, hts⟩ := hi.readsAs
    have hmark : Punct.rbracket ∈ closingMarks := by decide
    refine ⟨_, _, rfl, fun rest _ => .cons (Token.scans_mark (by decide) rfl rfl)
      ((hts.scans ']' (by decide) rest).append (scans_closing hmark rfl _ rest)), ?_⟩
    intro depth hdepth more _
    rw [List.length_append, List.length_singleton] at hdepth
    have hread (s : Span) := hts.reads depth (by omega) _ (endsExpr_cons hmark s more)
    rw [List.append_assoc, List.singleton_append, chainRound_index, bind_of_ok (hread _)]
    rfl
  | attempt =>
    exact ⟨_, [], rfl, fun rest _ => Token.scans_mark (by decide) rfl rfl,
      fun _ _ _ _ => chainRound_attempt⟩
  | @update gap cs fields hgap hfields =>
    obtain ⟨ts, hscan, hread⟩ := fields_read hfields
    have hword : IsWord ['w', 'i', 't', 'h'] := ⟨'w', ['i', 't', 'h'], rfl, by decide, by simp [Token.isNameChar]⟩
    let brace := (p.advanceAll ['w', 'i', 't', 'h']).advanceAll gap
    refine ⟨_, ⟨.symbol .lbrace, brace.spanTo (brace.advance '\x7b')⟩ :: ts, rfl, fun rest _ =>
      .append (hword.scans ?_ (.keyword .withKw) (by decide))
        (hgap.scans.append (.cons (Token.scans_mark (by decide) rfl rfl) (hscan rest))), ?_⟩
    · rw [List.append_assoc]
      exact hgap.stops (fun _ h => h) fun _ => .cons (by decide) _
    intro depth hdepth more _
    rw [List.length_cons] at hdepth
    exact chainRound_update.trans (bind_of_ok (hread depth (by omega) more))

/-! Reading a chain -/

theorem IsPostfix.ends_before {p : Position} {e e' : Expr} {before after : Part} {gap cs : List Char}
    (h : IsPostfix p e after cs e') (hgap : IsGap gap) (hmerges : before.merges after = true → gap ≠ [])
    (rest : List Char) : before.EndsAt (gap ++ (cs ++ rest)) := by
  have hword (hne : gap = [] → after ≠ .update) : Stops Token.isNameChar (gap ++ (cs ++ rest)) := by
    refine hgap.stops (fun _ h => h) fun hnil => ?_
    cases h with
    | update => exact absurd rfl (hne hnil)
    | _ => exact .cons (by decide) _
  cases before with
  | name => exact hword fun hnil ha => hmerges (ha ▸ rfl) hnil
  | field => exact hword fun hnil ha => hmerges (ha ▸ rfl) hnil
  | item =>
    refine ⟨hgap.stops ?_ fun hnil => ?_, fun more hmore => ?_⟩
    · exact fun c => Token.isNameChar_of_isDigitOrUnderscore
    · cases h <;> exact .cons (by decide) _
    · by_cases hnil : gap = []
      · subst hnil
        cases h with
        | field hname => cases hmore; exact hname.1.stops_isDigit rest
        | @method name cs _ hname _ =>
          cases hmore
          change Stops Char.isDigit (name ++ '(' :: cs ++ rest)
          rw [List.append_assoc]
          exact hname.1.stops_isDigit _
        | item => exact absurd rfl (hmerges rfl)
        | _ => cases hmore
      · exact absurd hmore (hgap.ne_dot hnil _ more)
  | _ => trivial

theorem Chain.reads {p : Position} {before : Part} {e e' : Expr} {cs : List Char}
    (h : Chain p before e cs e') : ∃ ts, before.EndsAt cs ∧ Scans p cs ts [] ∧
      (∀ t us, ts = t :: us → (∃ part : Part, t.kind = part.opening) ∧
        (before = .field → t.kind ≠ .symbol .lparen)) ∧
      ∀ depth, ts.length ≤ depth → ∀ fuel, ts.length < fuel →
        loopFor (chainRound (expressionWithin depth) true) fuel e ts = .ok e' [] := by
  induction h with
  | @nil p before e =>
    refine ⟨[], ?_, .nil, by rintro _ _ ⟨⟩, fun depth _ fuel hfuel => ?_⟩
    · cases before with
      | name => rintro _ _ ⟨⟩
      | field => rintro _ _ ⟨⟩
      | item => exact ⟨by rintro _ _ ⟨⟩, by rintro _ ⟨⟩⟩
      | _ => trivial
    · obtain ⟨fuel, rfl⟩ := Nat.exists_eq_succ_of_ne_zero (by omega : fuel ≠ 0)
      rfl
  | @cons p before after e e' e'' gap cs rest hgap hop hfield hmerges _ ih =>
    obtain ⟨us, hends, hus, hfirst, hrun⟩ := ih
    obtain ⟨t, ts, ht, hscan, hread⟩ := hop.reads
    rw [Position.advanceAll_append] at hus
    refine ⟨t :: (ts ++ us), hop.ends_before hgap hmerges rest,
      hgap.scans.append (.append (hscan _ (by simpa using hends)) hus), ?_, ?_⟩
    · rintro _ _ ⟨⟩
      refine ⟨⟨after, ht⟩, fun hbefore hparen => ?_⟩
      cases hop with
      | call => exact hfield ⟨hbefore, rfl⟩
      | _ => cases ht.symm.trans hparen
    · intro depth hdepth fuel hfuel
      obtain ⟨fuel, rfl⟩ := Nat.exists_eq_succ_of_ne_zero (by omega : fuel ≠ 0)
      simp only [List.length_cons, List.length_append] at hdepth hfuel
      rw [loopFor, bind_of_ok (hread depth (by omega) us fun ha u more hmore => (hfirst u more hmore).2 ha)]
      exact hrun depth (by omega) fuel (by omega)

/-! Reading the operand -/

theorem operandWithin_atom {expr : ExprReader} {n : Nat} {t : Token} {more : List Token}
    (hminus : t.kind ≠ .symbol .minus) (hbang : t.kind ≠ .symbol .bang)
    (hawait : t.kind ≠ .keyword .awaitKw) :
    operandWithin expr (n + 1) (t :: more) =
      (do chain expr true (← atom expr) : Reader _) (t :: more) := by
  have hspan : nextSpan (t :: more) = .ok t.span (t :: more) := rfl
  rw [operandWithin, bind_of_ok hspan,
    bind_of_ok ((accept_cons .minus t more).trans (if_neg hminus)), if_neg (by simp),
    bind_of_ok ((accept_cons .bang t more).trans (if_neg hbang)), if_neg (by simp),
    bind_of_ok ((acceptWord_cons .awaitKw t more).trans (if_neg hawait)), if_neg (by simp)]

theorem nameRest_name {expr : ExprReader} {s : Span} {name : String} {us : List Token}
    (hname : isTypeName name = false) (hus : ∀ t more, us = t :: more → t.kind ≠ .symbol .path) :
    nameRest expr s name us = .ok (.name s name) us := by
  have hahead : (do
      if isTypeName name && opensRecord (← ahead) then
        skip
        return .record s name (← listUntil .rbrace (fieldInit expr))
      return .name s name : Reader Expr) us = .ok (.name s name) us := by
    simp only [hname, Bool.false_and, Bool.false_eq_true, if_false]
    rfl
  unfold nameRest
  cases us with
  | nil => exact hahead
  | cons t more =>
    rw [bind_of_ok ((accept_cons .path t more).trans (if_neg (hus t more rfl))), if_neg (by simp)]
    exact hahead

theorem atom_paren {expr : ExprReader} {s : Span} {us : List Token} :
    atom expr (⟨.symbol .lparen, s⟩ :: us) = parenRest expr s us := rfl

theorem parenRest_expr {expr : ExprReader} {s s' : Span} {e : Expr} {ts more : List Token}
    (hts : ∃ t us, ts = t :: us ∧ t.kind ≠ .symbol .rparen)
    (hread : expr 0 ts = .ok e (⟨.symbol .rparen, s'⟩ :: more)) :
    parenRest expr s ts = .ok e more := by
  obtain ⟨t, us, rfl, ht⟩ := hts
  unfold parenRest
  rw [bind_of_ok ((accept_cons .rparen t us).trans (if_neg ht)), if_neg (by simp), bind_of_ok hread]
  rfl

theorem IsOperand.reads {p : Position} {part : Part} {cs : List Char} {e : Expr}
    (h : IsOperand p part cs e) : ∃ t ts, (∀ rest, part.EndsAt rest → Scans p cs (t :: ts) rest) ∧
      (t.kind ≠ .symbol .minus ∧ t.kind ≠ .symbol .bang ∧ t.kind ≠ .keyword .awaitKw) ∧
      ∀ depth, ts.length ≤ depth → ∀ more,
        (∀ u us, more = u :: us → ∃ part : Part, u.kind = part.opening) →
        atom (expressionWithin depth) (t :: (ts ++ more)) = .ok e more := by
  cases h with
  | name hname hlower =>
    refine ⟨_, [], fun rest hrest => hname.scans hrest, by simp, fun depth _ more hmore => ?_⟩
    refine nameRest_name hlower fun u us hu hpath => ?_
    obtain ⟨part, hpart⟩ := hmore u us hu
    cases part <;> cases hpart.symm.trans hpath
  | paren he =>
    obtain ⟨ts, hts⟩ := he.readsAs
    have hmark : Punct.rparen ∈ closingMarks := by decide
    refine ⟨_, _, fun rest _ => .cons (Token.scans_mark (by decide) rfl rfl)
      ((hts.scans ')' (by decide) rest).append (scans_closing hmark rfl _ rest)), by simp, ?_⟩
    intro depth hdepth more _
    rw [List.length_append, List.length_singleton] at hdepth
    have hread (s : Span) := hts.reads depth (by omega) _ (endsExpr_cons hmark s more)
    rw [List.append_assoc, List.singleton_append, atom_paren]
    exact parenRest_expr (hts.first hmark _) (hread _)

theorem expression_chain {t : Token} {ts us : List Token} {e e' : Expr}
    (hstart : t.kind ≠ .symbol .minus ∧ t.kind ≠ .symbol .bang ∧ t.kind ≠ .keyword .awaitKw)
    (hatom : atom (expressionWithin (t :: (ts ++ us)).length) (t :: (ts ++ us)) = .ok e us)
    (hchain : chain (expressionWithin (t :: (ts ++ us)).length) true e us = .ok e' []) :
    expression (t :: (ts ++ us)) = .ok e' [] := by
  have hoperand : operand (expressionWithin (t :: (ts ++ us)).length) (t :: (ts ++ us)) = .ok e' [] := by
    have hwithin := (bind_of_ok hatom).trans hchain
    exact (operandWithin_atom hstart.1 hstart.2.1 hstart.2.2).trans hwithin
  change expressionWithin ((t :: (ts ++ us)).length + 1) 0 (t :: (ts ++ us)) = _
  rw [expressionWithin_succ, bind_of_ok hoperand]
  rfl

/-- A chain of operators behind a name or an expression in parentheses is read from left to right, each
operator with its own arguments. -/
theorem chain_parses_in_order {part : Part} {operand cs : List Char} {e e' : Expr}
    (hoperand : IsOperand .start part operand e)
    (hchain : Chain (Position.start.advanceAll operand) part e cs e') :
    Expr.ofSource (String.ofList (operand ++ cs)) = .ok e' := by
  obtain ⟨t, ts, hscan, hstart, hatom⟩ := hoperand.reads
  obtain ⟨us, hends, hus, hfirst, hrun⟩ := hchain.reads
  have htokens : Token.scan (String.ofList (operand ++ cs)) = .ok (t :: (ts ++ us)) := by
    have hall := Scans.append (hscan _ (by simpa using hends)) hus [] Token.scanFrom_nil
    simpa [Token.scan] using hall
  have hread : expression (t :: (ts ++ us)) = .ok e' [] := by
    refine expression_chain hstart (hatom _ (by simp; omega) us fun u more hu => (hfirst u more hu).1) ?_
    rw [chain_eq]
    exact hrun _ (by simp; omega) _ (Nat.lt_succ_self _)
  simp only [Expr.ofSource, readSource, htokens, hread]

/-- With a blank between them both places of the tuple are read. -/
theorem spaced_items_parse : Expr.ofSource "t.0 .1.f(x)?" =
    .ok (.attempt ⟨11, 12, 1, 12⟩ (.method ⟨7, 8, 1, 8⟩
      (.select ⟨5, 6, 1, 6⟩ (.select ⟨2, 3, 1, 3⟩ (.name ⟨0, 1, 1, 1⟩ "t") "0") "1")
      "f" [.name ⟨9, 10, 1, 10⟩ "x"])) := by
  have harg : IsExpr ⟨9, 1, 10⟩ ['x'] (.name ⟨9, 10, 1, 10⟩ "x") :=
    ⟨[⟨.ident "x", ⟨9, 10, 1, 10⟩⟩], ⟨by cbv, ⟨.symbol .comma, ⟨10, 11, 1, 11⟩⟩, by cbv⟩, by cbv⟩
  have hletter : IsName ['t'] ∧ IsName ['f'] :=
    ⟨⟨⟨'t', [], rfl, by decide, by simp⟩, by decide⟩, ⟨⟨'f', [], rfl, by decide, by simp⟩, by decide⟩⟩
  have hdigit : IsNumeral ['0'] ∧ IsNumeral ['1'] :=
    ⟨⟨'0', [], rfl, by decide, by simp⟩, ⟨'1', [], rfl, by decide, by simp⟩⟩
  have hoperand : IsOperand .start .name ['t'] (.name ⟨0, 1, 1, 1⟩ "t") := .name hletter.1 (by decide)
  have hchain : Chain (Position.start.advanceAll ['t']) .name (.name ⟨0, 1, 1, 1⟩ "t") _ _ :=
    .cons .nil (.item hdigit.1) (by decide) (by decide) <|
    .cons (.blank (by decide : Text.isBlank ' ' = true) .nil) (.item hdigit.2) (by decide) (by decide) <|
    .cons .nil (.method hletter.2 (.last harg)) (by decide) (by decide) <|
    .cons .nil .attempt (by decide) (by decide) .nil
  have hparse := chain_parses_in_order hoperand hchain
  exact hparse.trans (by cbv)

/-- Without it the scanner takes both for one number, and there is no field of that name. -/
theorem adjacent_items_rejected : ∃ e e' e'' : Expr, IsOperand .start .name ['t'] e ∧
    IsPostfix ⟨1, 1, 2⟩ e .item ['.', '0'] e' ∧ IsPostfix ⟨3, 1, 4⟩ e' .item ['.', '1'] e'' ∧
    Expr.ofSource "t.0.1" = .error
      (.unmet (.thing "field name") (some ⟨.float "0.1", ⟨2, 5, 1, 3⟩⟩) ⟨5, 5, 1, 6⟩) := by
  have hletter : IsName ['t'] := ⟨⟨'t', [], rfl, by decide, by simp⟩, by decide⟩
  exact ⟨_, _, _, .name hletter (by decide), .item ⟨'0', [], rfl, by decide, by simp⟩,
    .item ⟨'1', [], rfl, by decide, by simp⟩, by cbv⟩

end StreamLang.Grammar
