import StreamLang.Proofs.Grammar.Postfix

/-! Type annotations as texts. An annotation of names, type arguments, tuples and function types is read
back from its text as it was, whatever is nested in it; only its places in the text are new. -/

namespace StreamLang

/-- Scanned by itself, the text is one name. -/
def Token.IsIdentifier (name : String) : Prop := ∃ span, scan name = .ok [⟨.ident name, span⟩]

namespace TypeExpr

/-- The names are scanned as names, and tuples have two elements or more. -/
inductive Legible : TypeExpr → Prop
  | named {span : Span} {name : String} {args : List TypeExpr} : Token.IsIdentifier name →
      (∀ a ∈ args, Legible a) → Legible (.named span name args)
  | tuple {span : Span} {first second : TypeExpr} {rest : List TypeExpr} :
      (∀ item ∈ first :: second :: rest, Legible item) →
      Legible (.tuple span (first :: second :: rest))
  | function {span : Span} {params : List TypeExpr} {ret : TypeExpr} :
      (∀ p ∈ params, Legible p) → Legible ret → Legible (.function span params ret)

mutual

/-- The annotation without its places in the text. -/
def unplaced : TypeExpr → TypeExpr
  | named _ name args => .named .none name (unplacedAll args)
  | tuple _ items => .tuple .none (unplacedAll items)
  | function _ params ret => .function .none (unplacedAll params) (unplaced ret)

def unplacedAll : List TypeExpr → List TypeExpr
  | [] => []
  | t :: rest => unplaced t :: unplacedAll rest

end

/-- The texts of the annotations, separated by commas, and a closing mark. -/
def row (items : List TypeExpr) (close : Char) : List Char :=
  (", ".intercalate (renderAll items)).toList ++ [close]

@[simp] theorem row_nil (close : Char) : row [] close = [close] := rfl

@[simp] theorem row_singleton (t : TypeExpr) (close : Char) :
    row [t] close = t.render.toList ++ [close] := by
  simp [row, renderAll]

@[simp] theorem row_cons_cons (t u : TypeExpr) (rest : List TypeExpr) (close : Char) :
    row (t :: u :: rest) close = t.render.toList ++ ',' :: ' ' :: row (u :: rest) close := by
  simp [row, renderAll]

theorem toList_render_applied (span : Span) (name : String) (a : TypeExpr) (args : List TypeExpr) :
    (named span name (a :: args)).render.toList = name.toList ++ '<' :: row (a :: args) '>' := by
  change (name ++ "<" ++ ", ".intercalate (renderAll (a :: args)) ++ ">").toList = _
  simp [row]

theorem toList_render_tuple (span : Span) (first second : TypeExpr) (rest : List TypeExpr) :
    (tuple span (first :: second :: rest)).render.toList =
      '(' :: (first.render.toList ++ ',' :: ' ' :: row (second :: rest) ')') := by
  rw [← row_cons_cons]
  change ("(" ++ ", ".intercalate (renderAll (first :: second :: rest)) ++ ")").toList = _
  simp [row]

theorem toList_render_function (span : Span) (params : List TypeExpr) (ret : TypeExpr) :
    (function span params ret).render.toList =
      ['f', 'n'] ++ '(' :: (row params ')' ++ (' ' :: '-' :: '>' :: ' ' :: ret.render.toList)) := by
  change ("fn(" ++ ", ".intercalate (renderAll params) ++ ") -> " ++ ret.render).toList = _
  simp [row]

end TypeExpr

namespace Grammar

open Token (IsGap IsWord IsIdentifier Scans Stops)

/-! The texts -/

theorem isName_of_isIdentifier {name : String} (h : IsIdentifier name) : IsName name.toList := by
  obtain ⟨span, hscan⟩ := h
  have htiles := Token.Tiled.nil.scanFrom name.toList
  have hfrom : Token.scanFrom (.behind []) name.toList = .ok [⟨.ident name, span⟩] := hscan
  rw [hfrom] at htiles
  obtain ⟨cs, last, -, htiled, -⟩ := htiles
  generalize hts : [] ++ [(⟨.ident name, span⟩ : Token)] = ts at htiled
  cases htiled with
  | nil => cases hts
  | @snoc cs gap own ts t _ _ hstands =>
    obtain ⟨-, hlast⟩ := List.append_inj' hts rfl
    obtain rfl := (List.cons.inj hlast).1
    have hspelled : Token.Spells (.ident name) own := hstands.spelled
    obtain rfl : name = String.ofList own := hspelled.lexeme_eq (by simp)
    rw [String.toList_ofList]
    generalize hkind : TokenKind.ident (String.ofList own) = kind at hspelled
    cases hspelled with
    | ident hword hkeyword => exact ⟨hword, hkeyword⟩
    | _ => cases hkind

theorem IsName.opens {cs : List Char} (h : IsName cs) : ∃ c more, cs = c :: more ∧ c ≠ '=' := by
  obtain ⟨⟨c, more, hcs, hc, -⟩, -⟩ := h
  refine ⟨c, more, hcs, ?_⟩
  rintro rfl
  simp [Token.isNameStart] at hc

/-- What stands behind the text of an annotation: nothing, a comma, or a mark that closes a list. -/
def Borders (rest : List Char) : Prop := ∀ c more, rest = c :: more → c ∈ [',', ')', '>']

/-- Tokens with which no annotation goes on. -/
def EndsType (tail : List Token) : Prop := ∀ t more, tail = t :: more → t.kind ≠ .symbol .lt

/-- The marks that close a list of annotations. -/
def closingTypes : List Punct := [.rparen, .gt]

/-- The text at `p` has these tokens, and they are read as `t`. -/
structure ReadsType (p : Position) (cs : List Char) (t : TypeExpr) (ts : List Token) : Prop where
  opens : ∃ c more, cs = c :: more ∧ c ≠ '='
  scans : ∀ rest, Borders rest → Scans p cs ts rest
  starts : ∃ u more, ts = u :: more ∧ ∀ mark ∈ closingTypes, u.kind ≠ .symbol mark
  reads : ∀ depth, ts.length < depth → ∀ tail, EndsType tail →
    typeExprWithin depth (ts ++ tail) = .ok t tail

/-- Wherever its text stands, the annotation is read from it. -/
def ReadsBack (t : TypeExpr) : Prop :=
  ∀ p, ∃ t' ts, t'.unplaced = t.unplaced ∧ ReadsType p t.render.toList t' ts

theorem borders_nil : Borders [] := by rintro _ _ ⟨⟩

theorem borders_cons {c : Char} (hc : c ∈ [',', ')', '>']) (more : List Char) :
    Borders (c :: more) := by
  rintro _ _ ⟨⟩
  exact hc

theorem Borders.stops {rest : List Char} (h : Borders rest) : Stops Token.isNameChar rest := by
  intro c more hrest
  have hc := h c more hrest
  simp only [List.mem_cons, List.not_mem_nil, or_false] at hc
  obtain rfl | rfl | rfl := hc <;> decide

theorem Borders.ne_assign {rest : List Char} (h : Borders rest) (more : List Char) :
    rest ≠ '=' :: more := by
  intro hrest
  have hc := h _ _ hrest
  simp at hc

theorem ReadsType.first {p : Position} {cs : List Char} {t : TypeExpr} {ts : List Token}
    (h : ReadsType p cs t ts) {mark : Punct} (hmark : mark ∈ closingTypes) (tail : List Token) :
    ∃ u more, ts ++ tail = u :: more ∧ u.kind ≠ .symbol mark := by
  obtain ⟨u, more, rfl, hu⟩ := h.starts
  exact ⟨u, more ++ tail, rfl, hu mark hmark⟩

/-- No list of annotations begins with `=`. -/
theorem row_ne_assign {t : TypeExpr} (h : ReadsBack t) {rest : List TypeExpr} {close : Char}
    (behind more : List Char) : TypeExpr.row (t :: rest) close ++ behind ≠ '=' :: more := by
  obtain ⟨t', ts, -, hts⟩ := h .start
  obtain ⟨c, cs, hc, hne⟩ := hts.opens
  intro hrow
  cases rest with
  | nil =>
    rw [TypeExpr.row_singleton, hc] at hrow
    exact hne (List.cons.inj hrow).1
  | cons u rest =>
    rw [TypeExpr.row_cons_cons, hc] at hrow
    exact hne (List.cons.inj hrow).1

theorem endsType_nil : EndsType [] := by rintro _ _ ⟨⟩

theorem endsType_cons {mark : Punct} (hmark : mark ≠ .lt) (span : Span) (more : List Token) :
    EndsType (⟨.symbol mark, span⟩ :: more) := by
  rintro _ _ ⟨⟩ h
  exact hmark (TokenKind.symbol.inj h)

/-! Marks -/

/-- The angle brackets begin longer marks, all of them with `=` behind. -/
theorem scans_bracket {mark : Punct} {c : Char} (hmark : mark ∈ .lt :: closingTypes)
    (hc : mark.chars = [c]) {rest : List Char} (hrest : ∀ more, rest ≠ '=' :: more) (p : Position) :
    Scans p [c] [⟨.symbol mark, p.spanTo (p.advance c)⟩] rest := by
  simp only [closingTypes, List.mem_cons, List.not_mem_nil, or_false] at hmark
  refine Token.scans_mark (by rintro rfl; simp at hmark) hc ?_
  cases rest with
  | nil => obtain rfl | rfl | rfl := hmark <;> cases hc <;> rfl
  | cons d more =>
    have hd : ('=' == d) = false := by
      rw [beq_eq_false_iff_ne]
      rintro rfl
      exact hrest more rfl
    obtain rfl | rfl | rfl := hmark <;> cases hc <;>
      simp [Punct.ofStart?, Punct.all, Punct.chars, List.isPrefixOf, hd]

theorem scans_arrow (p : Position) (rest : List Char) :
    Scans p ['-', '>'] [⟨.symbol .arrow, p.spanTo (p.advanceAll ['-', '>'])⟩] rest :=
  Token.scans_token (by decide) (by decide) rfl

theorem scans_blank (p : Position) (rest : List Char) : Scans p [' '] [] rest :=
  (IsGap.blank (by decide) .nil).scans

/-! Lists of annotations -/

/-- The annotations of a list are read one after the other. -/
theorem row_reads {mark : Punct} {close : Char} (hmark : mark ∈ closingTypes)
    (hclose : mark.chars = [close]) {items : List TypeExpr} (h : ∀ t ∈ items, ReadsBack t)
    (p : Position) : ∃ items' ts, TypeExpr.unplacedAll items' = TypeExpr.unplacedAll items ∧
      (∀ rest, (∀ more, rest ≠ '=' :: more) → Scans p (TypeExpr.row items close) ts rest) ∧
      ∀ depth, ts.length ≤ depth → ∀ fuel, ts.length < fuel → ∀ before more,
        loopFor (listRound mark (typeExprWithin depth)) fuel before (ts ++ more) =
          .ok (before.reverse ++ items') more := by
  have hborder : close ∈ [',', ')', '>'] := by
    simp only [closingTypes, List.mem_cons, List.not_mem_nil, or_false] at hmark
    obtain rfl | rfl := hmark <;> cases hclose <;> decide
  have hlt : mark ≠ .lt := by rintro rfl; simp [closingTypes] at hmark
  have hcomma : mark ≠ .comma := by rintro rfl; simp [closingTypes] at hmark
  induction items generalizing p with
  | nil =>
    refine ⟨[], _, rfl, fun rest hrest => scans_bracket (.tail _ hmark) hclose hrest p, ?_⟩
    intro depth _ fuel hfuel before more
    obtain ⟨fuel, rfl⟩ := Nat.exists_eq_succ_of_ne_zero (by omega : fuel ≠ 0)
    rw [List.singleton_append, loopFor, bind_of_ok (listRound_close rfl), List.append_nil]
    rfl
  | cons t items ih =>
    obtain ⟨t', ts, ht, hts⟩ := List.forall_mem_cons.1 h |>.1 p
    cases items with
    | nil =>
      rw [TypeExpr.row_singleton]
      refine ⟨[t'], _, congrArg (· :: []) ht, fun rest hrest =>
        (hts.scans _ (borders_cons hborder rest)).append (scans_bracket (.tail _ hmark) hclose hrest _), ?_⟩
      intro depth hdepth fuel hfuel before more
      obtain ⟨fuel, rfl⟩ := Nat.exists_eq_succ_of_ne_zero (by omega : fuel ≠ 0)
      rw [List.length_append, List.length_singleton] at hdepth
      rw [List.append_assoc, List.singleton_append]
      have hread (span) := hts.reads depth (by omega) _ (endsType_cons hlt span more)
      rw [loopFor, bind_of_ok (listRound_item (hts.first hmark _) (hread _) (.inr rfl)),
        if_neg (by simpa using hcomma)]
      simp only [List.reverse_cons]
      rfl
    | cons u rest =>
      rw [TypeExpr.row_cons_cons]
      obtain ⟨rest', us, hrest', hus, hreads⟩ := ih (List.forall_mem_cons.1 h).2
        (((p.advanceAll t.render.toList).advance ',').advance ' ')
      refine ⟨t' :: rest', _, congrArg₂ List.cons ht hrest', fun rest hrest =>
        (hts.scans _ (borders_cons (by decide) _)).append <|
          .cons (Token.scans_mark (by decide) rfl rfl) <|
          (scans_blank _ _).append (hus rest hrest), ?_⟩
      intro depth hdepth fuel hfuel before more
      obtain ⟨fuel, rfl⟩ := Nat.exists_eq_succ_of_ne_zero (by omega : fuel ≠ 0)
      rw [List.nil_append, List.length_append, List.length_cons] at hdepth hfuel
      rw [List.nil_append, List.append_assoc, List.cons_append]
      have hread (span) := hts.reads depth (by omega) _
        (endsType_cons (by decide : Punct.comma ≠ .lt) span (us ++ more))
      rw [loopFor, bind_of_ok (listRound_item (hts.first hmark _) (hread _) (.inl rfl)), if_pos rfl]
      have hmore := hreads depth (by omega) fuel (by omega) (t' :: before) more
      simpa using hmore

theorem row_read {mark : Punct} {close : Char} (hmark : mark ∈ closingTypes)
    (hclose : mark.chars = [close]) {items : List TypeExpr} (h : ∀ t ∈ items, ReadsBack t)
    (p : Position) : ∃ items' ts, TypeExpr.unplacedAll items' = TypeExpr.unplacedAll items ∧
      (∀ rest, (∀ more, rest ≠ '=' :: more) → Scans p (TypeExpr.row items close) ts rest) ∧
      ∀ depth, ts.length ≤ depth → ∀ more,
        listUntil mark (typeExprWithin depth) (ts ++ more) = .ok items' more := by
  obtain ⟨items', ts, hitems, hscan, hreads⟩ := row_reads hmark hclose h p
  refine ⟨items', ts, hitems, hscan, fun depth hdepth more => ?_⟩
  rw [Grammar.listUntil_eq]
  exact hreads depth hdepth ((ts ++ more).length + 1) (by rw [List.length_append]; omega) [] more

/-! One annotation -/

section Step

variable {depth : Nat} {name : String} {s s' : Span} {us : List Token}

theorem typeExprWithin_name (h : EndsType us) :
    typeExprWithin (depth + 1) (⟨.ident name, s⟩ :: us) = .ok (.named s name []) us := by
  have hname : typeExprWithin (depth + 1) (⟨.ident name, s⟩ :: us) = (do
      if ← accept .lt then return .named s name (← listUntil .gt (typeExprWithin depth))
      return .named s name [] : Reader TypeExpr) us := rfl
  rw [hname]
  cases us with
  | nil => rfl
  | cons u more => rw [bind_of_ok ((accept_cons .lt u more).trans (if_neg (h u more rfl)))]; rfl

theorem typeExprWithin_applied :
    typeExprWithin (depth + 1) (⟨.ident name, s⟩ :: ⟨.symbol .lt, s'⟩ :: us) =
      (do return .named s name (← listUntil .gt (typeExprWithin depth)) : Reader TypeExpr) us := rfl

theorem typeExprWithin_function :
    typeExprWithin (depth + 1) (⟨.keyword .fnKw, s⟩ :: ⟨.symbol .lparen, s'⟩ :: us) = (do
      let params ← listUntil .rparen (typeExprWithin depth)
      expect .arrow
      return .function s params (← typeExprWithin depth) : Reader TypeExpr) us := rfl

theorem typeExprWithin_tuple {ts : List Token} {first : TypeExpr} {rest : List TypeExpr}
    {more : List Token} (hts : ∃ u more, ts = u :: more ∧ u.kind ≠ .symbol .rparen)
    (hfirst : typeExprWithin depth ts = .ok first (⟨.symbol .comma, s'⟩ :: us))
    (hrest : listUntil .rparen (typeExprWithin depth) us = .ok rest more) :
    typeExprWithin (depth + 1) (⟨.symbol .lparen, s⟩ :: ts) = .ok (.tuple s (first :: rest)) more := by
  have hparen : typeExprWithin (depth + 1) (⟨.symbol .lparen, s⟩ :: ts) = (do
      if ← accept .rparen then return .named s "Void" []
      let first ← typeExprWithin depth
      if ← accept .rparen then return first
      expect .comma
      return .tuple s (first :: (← listUntil .rparen (typeExprWithin depth))) : Reader TypeExpr) ts := rfl
  obtain ⟨u, rest', rfl, hu⟩ := hts
  rw [hparen, bind_of_ok ((accept_cons .rparen u rest').trans (if_neg hu)), if_neg (by simp),
    bind_of_ok hfirst]
  have hlist : (do
      expect .comma
      return .tuple s (first :: (← listUntil .rparen (typeExprWithin depth))) : Reader TypeExpr)
      (⟨.symbol .comma, s'⟩ :: us) = .ok (.tuple s (first :: rest)) more :=
    (bind_of_ok (r := listUntil .rparen (typeExprWithin depth)) hrest).trans rfl
  exact hlist

end Step

theorem readsBack_named {span : Span} {name : String} (h : IsIdentifier name) :
    ReadsBack (.named span name []) := by
  intro p
  have hname := isName_of_isIdentifier h
  refine ⟨.named (p.spanTo (p.advanceAll name.toList)) name [],
    [⟨.ident name, p.spanTo (p.advanceAll name.toList)⟩], rfl, hname.opens, fun rest hrest => ?_,
    ⟨_, [], rfl, by simp⟩, fun depth hdepth tail htail => ?_⟩
  · have hscans := hname.scans (p := p) hrest.stops
    rwa [String.ofList_toList] at hscans
  · obtain ⟨depth, rfl⟩ := Nat.exists_eq_succ_of_ne_zero (by omega : depth ≠ 0)
    exact typeExprWithin_name htail

theorem readsBack_applied {span : Span} {name : String} {a : TypeExpr} {args : List TypeExpr}
    (h : IsIdentifier name) (hargs : ∀ t ∈ a :: args, ReadsBack t) :
    ReadsBack (.named span name (a :: args)) := by
  intro p
  have hname := isName_of_isIdentifier h
  let behind := p.advanceAll name.toList
  obtain ⟨args', ts, hargs', hts, hreads⟩ := row_read (by decide : .gt ∈ closingTypes) rfl hargs
    (behind.advance '<')
  refine ⟨.named (p.spanTo behind) name args',
    ⟨.ident name, p.spanTo behind⟩ :: ⟨.symbol .lt, behind.spanTo (behind.advance '<')⟩ :: ts,
    congrArg (TypeExpr.named .none name) hargs', ?_, fun rest hrest => ?_,
    ⟨_, _, rfl, by simp⟩, fun depth hdepth tail _ => ?_⟩
  · obtain ⟨c, more, hc, hne⟩ := hname.opens
    rw [TypeExpr.toList_render_applied, hc]
    exact ⟨c, _, rfl, hne⟩
  · have hstops : Stops Token.isNameChar ('<' :: (TypeExpr.row (a :: args) '>' ++ rest)) :=
      .cons (by decide) _
    have hscans := hname.scans (p := p) hstops
    rw [String.ofList_toList] at hscans
    rw [TypeExpr.toList_render_applied]
    refine hscans.append (.cons ?_ (hts rest hrest.ne_assign))
    exact scans_bracket (List.mem_cons_self : .lt ∈ .lt :: closingTypes) rfl
      (row_ne_assign (hargs a (by simp)) _) _
  · obtain ⟨depth, rfl⟩ := Nat.exists_eq_succ_of_ne_zero (by omega : depth ≠ 0)
    simp only [List.length_cons] at hdepth
    exact typeExprWithin_applied.trans (bind_of_ok (hreads depth (by omega) tail))

theorem readsBack_tuple {span : Span} {first second : TypeExpr} {rest : List TypeExpr}
    (hfirst : ReadsBack first) (hrest : ∀ t ∈ second :: rest, ReadsBack t) :
    ReadsBack (.tuple span (first :: second :: rest)) := by
  intro p
  obtain ⟨first', ts, hfirst', hts⟩ := hfirst (p.advance '(')
  let behind := (p.advance '(').advanceAll first.render.toList
  obtain ⟨rest', us, hrest', hus, hreads⟩ := row_read (by decide : .rparen ∈ closingTypes) rfl hrest
    ((behind.advance ',').advance ' ')
  refine ⟨.tuple (p.spanTo (p.advance '(')) (first' :: rest'),
    ⟨.symbol .lparen, p.spanTo (p.advance '(')⟩ ::
      (ts ++ ⟨.symbol .comma, behind.spanTo (behind.advance ',')⟩ :: us),
    congrArg (TypeExpr.tuple .none) (congrArg₂ List.cons hfirst' hrest'), ?_, fun more hmore => ?_,
    ⟨_, _, rfl, by simp [closingTypes]⟩, fun depth hdepth tail _ => ?_⟩
  · rw [TypeExpr.toList_render_tuple]
    exact ⟨_, _, rfl, by decide⟩
  · rw [TypeExpr.toList_render_tuple]
    exact .cons (Token.scans_mark (by decide) rfl rfl) <|
      (hts.scans _ (borders_cons (by decide) _)).append <|
      .cons (Token.scans_mark (by decide) rfl rfl) <|
      (scans_blank _ _).append (hus more hmore.ne_assign)
  · obtain ⟨depth, rfl⟩ := Nat.exists_eq_succ_of_ne_zero (by omega : depth ≠ 0)
    simp only [List.length_append, List.length_cons] at hdepth
    rw [List.cons_append, List.append_assoc, List.cons_append]
    exact typeExprWithin_tuple (hts.first (by decide) _)
      (hts.reads depth (by omega) _ (endsType_cons (by decide) _ _)) (hreads depth (by omega) tail)

theorem readsBack_function {span : Span} {params : List TypeExpr} {ret : TypeExpr}
    (hparams : ∀ t ∈ params, ReadsBack t) (hret : ReadsBack ret) :
    ReadsBack (.function span params ret) := by
  intro p
  let paren := p.advanceAll ['f', 'n']
  obtain ⟨params', ts, hparams', hts, hreads⟩ := row_read (by decide : .rparen ∈ closingTypes) rfl hparams
    (paren.advance '(')
  let arrow := ((paren.advance '(').advanceAll (TypeExpr.row params ')')).advance ' '
  obtain ⟨ret', us, hret', hus⟩ := hret ((arrow.advanceAll ['-', '>']).advance ' ')
  have hword : IsWord ['f', 'n'] := ⟨'f', ['n'], rfl, by decide, by simp [Token.isNameChar]⟩
  refine ⟨.function (p.spanTo paren) params' ret',
    ⟨.keyword .fnKw, p.spanTo paren⟩ :: ⟨.symbol .lparen, paren.spanTo (paren.advance '(')⟩ ::
      (ts ++ ⟨.symbol .arrow, arrow.spanTo (arrow.advanceAll ['-', '>'])⟩ :: us),
    congrArg₂ (TypeExpr.function .none) hparams' hret', ?_, fun more hmore => ?_,
    ⟨_, _, rfl, by simp⟩, fun depth hdepth tail htail => ?_⟩
  · rw [TypeExpr.toList_render_function]
    exact ⟨_, _, rfl, by decide⟩
  · rw [TypeExpr.toList_render_function]
    exact (hword.scans (.cons (by decide) _) (.keyword .fnKw) (by decide)).append <|
      .cons (Token.scans_mark (by decide) rfl rfl) <|
      (hts _ (by rintro _ ⟨⟩)).append <| (scans_blank _ _).append <|
      (scans_arrow _ _).append <| (scans_blank _ _).append (hus.scans more hmore)
  · obtain ⟨depth, rfl⟩ := Nat.exists_eq_succ_of_ne_zero (by omega : depth ≠ 0)
    simp only [List.length_append, List.length_cons] at hdepth
    rw [List.cons_append, List.cons_append, List.append_assoc, List.cons_append]
    have hret := hus.reads depth (by omega) tail htail
    refine typeExprWithin_function.trans ((bind_of_ok (hreads depth (by omega) _)).trans ?_)
    exact (bind_of_ok (r := typeExprWithin depth) hret).trans rfl

theorem readsBack_of_legible {t : TypeExpr} (h : t.Legible) : ReadsBack t := by
  induction h with
  | @named span name args hname _ ih =>
    cases args with
    | nil => exact readsBack_named hname
    | cons a args => exact readsBack_applied hname ih
  | tuple _ ih =>
    obtain ⟨hfirst, hrest⟩ := List.forall_mem_cons.1 ih
    exact readsBack_tuple hfirst hrest
  | function _ _ ihParams ihRet => exact readsBack_function ihParams ihRet

/-- The text of an annotation is read as the annotation, down to the last token. -/
theorem annotations_survive_printing {t : TypeExpr} (h : t.Legible) :
    ∃ t', readSource typeExpr t.render = .ok (t', []) ∧ t'.unplaced = t.unplaced := by
  obtain ⟨t', ts, ht', hts⟩ := readsBack_of_legible h .start
  have htokens : Token.scan t.render = .ok ts := by
    have hall := hts.scans [] borders_nil [] Token.scanFrom_nil
    simpa [Token.scan] using hall
  have hread : typeExpr ts = .ok t' [] := by
    have hwithin := hts.reads (ts.length + 1) (Nat.lt_succ_self _) [] endsType_nil
    rwa [List.append_nil] at hwithin
  refine ⟨t', ?_, ht'⟩
  simp only [readSource, htokens, hread]

/-- A function from streams of pairs, of which one is a function itself, to a map of functions. -/
def streamFold : TypeExpr :=
  .function .none
    [.named .none "Stream" [.tuple .none
      [.named .none "K" [], .function .none [.named .none "K" []] (.named .none "V_1" [])]],
      .function .none [] (.named .none "Void" [])]
    (.named .none "Map" [.named .none "K" [],
      .function .none [.named .none "K" []] (.named .none "List" [.named .none "V_1" []])])

theorem streamFold_survives : streamFold.Legible ∧ streamFold.render =
      "fn(Stream<(K, fn(K) -> V_1)>, fn() -> Void) -> Map<K, fn(K) -> List<V_1>>" ∧
    ∃ t', readSource typeExpr streamFold.render = .ok (t', []) ∧ t'.unplaced = streamFold.unplaced := by
  have hname {name : String} (h : name ∈ ["Stream", "K", "V_1", "Void", "Map", "List"]) :
      IsIdentifier name := by
    simp only [List.mem_cons, List.not_mem_nil, or_false] at h
    obtain rfl | rfl | rfl | rfl | rfl | rfl := h <;> exact ⟨_, by cbv⟩
  have hplain {name : String} (h : name ∈ ["Stream", "K", "V_1", "Void", "Map", "List"]) :
      (TypeExpr.named .none name []).Legible := .named (hname h) (List.forall_mem_nil _)
  have hlegible : streamFold.Legible := by
    refine .function (List.forall_mem_cons.2 ⟨.named (hname (by simp)) ?_, ?_⟩)
      (.named (hname (by simp)) ?_)
    · refine List.forall_mem_singleton.2 (.tuple ?_)
      exact List.forall_mem_cons.2 ⟨hplain (by simp), List.forall_mem_singleton.2 <|
        .function (List.forall_mem_singleton.2 (hplain (by simp))) (hplain (by simp))⟩
    · exact List.forall_mem_singleton.2 (.function (List.forall_mem_nil _) (hplain (by simp)))
    · exact List.forall_mem_cons.2 ⟨hplain (by simp), List.forall_mem_singleton.2 <|
        .function (List.forall_mem_singleton.2 (hplain (by simp))) <|
          .named (hname (by simp)) (List.forall_mem_singleton.2 (hplain (by simp)))⟩
  exact ⟨hlegible, by cbv, annotations_survive_printing hlegible⟩

end Grammar

end StreamLang
