import StreamLang.Proofs.Lexical.Gap
import StreamLang.Proofs.Lexical.Lexeme

/-! The tokens tile the source. Their spellings stand in the text one after the other, with nothing but
gaps before, between and behind them, and each span says where its spelling stands. Where a text has
no tokens, it is tiled up to the place that is reported. -/

namespace StreamLang

/-- The place behind a text, from its bytes, its line breaks and the characters of its last line. -/
def Position.behind (before : List Char) : Position :=
  ⟨(String.ofList before).utf8ByteSize, 1 + before.count '\n',
    1 + (before.reverse.takeWhile (· ≠ '\n')).length⟩

/-- Counting along a text comes to that place. -/
theorem Position.behind_append (before cs : List Char) :
    behind (before ++ cs) = (behind before).advanceAll cs := by
  induction cs generalizing before with
  | nil => rw [List.append_nil, advanceAll_nil]
  | cons c cs ih =>
    have hstep : behind (before ++ [c]) = (behind before).advance c := by
      by_cases hc : c = '\n'
      · subst hc
        simp [behind, advance, Nat.add_comm, Nat.add_left_comm]
        rfl
      · simp [behind, advance, hc, Nat.add_comm]
    rw [advanceAll_cons, ← hstep, ← ih, List.append_assoc, List.singleton_append]

/-- The span from one position to another, with every number as it is. -/
def Position.extent (p q : Position) : Span := ⟨p.offset, q.offset, p.line, p.column⟩

theorem Position.spanTo_eq_extent {p q : Position} (hlo : p.offset < UInt32.size)
    (hhi : q.offset < UInt32.size) (hline : p.line < UInt32.size) (hcolumn : p.column < UInt32.size) :
    p.spanTo q = p.extent q := by
  simp only [spanTo, extent, Span.narrow_of_lt, hlo, hhi, hline, hcolumn]

theorem Position.length_le_offset_behind (cs : List Char) : cs.length ≤ (behind cs).offset := by
  induction cs with
  | nil => exact Nat.zero_le _
  | cons c cs ih =>
    have hpos := c.utf8Size_pos
    simp only [behind, String.ofList_cons, String.utf8ByteSize_append,
      String.utf8ByteSize_singleton, List.length_cons] at ih ⊢
    omega

theorem Position.offset_behind_le (cs rest : List Char) :
    (behind cs).offset ≤ (behind (cs ++ rest)).offset := by
  simp only [behind, String.ofList_append, String.utf8ByteSize_append]
  exact Nat.le_add_right _ _

/-- Where something stands behind a part of a short text, 32 bits are enough: each line break and each
character is a byte at least, and so is what stands behind. -/
theorem Position.behind_lt {before rest : List Char} (hrest : rest ≠ [])
    (hsize : (behind (before ++ rest)).offset < UInt32.size) :
    (behind before).offset < UInt32.size ∧ (behind before).line < UInt32.size ∧
      (behind before).column < UInt32.size := by
  have hpos := List.length_pos_iff.2 hrest
  have hbefore := length_le_offset_behind before
  have hbehind := length_le_offset_behind rest
  have hlines := List.count_le_length (a := '\n') (l := before)
  have hlast := (List.takeWhile_prefix (· ≠ '\n') (l := before.reverse)).length_le
  rw [List.length_reverse] at hlast
  simp only [behind, String.ofList_append, String.utf8ByteSize_append] at hsize hbefore hbehind ⊢
  omega

namespace Token

open Position (spanTo extent)

/-! One step of the scanner at a time: a gap is skipped, and then the text is over, or a token is
taken, or the scanner gives up. -/

section Step

variable {p start : Position} {c : Char} {cs rest : List Char}

theorem scanFrom_open (h : skipGap .blanks p cs = none) :
    scanFrom p cs = .error ⟨.unterminatedComment, p.point⟩ := by
  rw [scanFrom]
  split <;> simp_all

theorem scanFrom_over (h : skipGap .blanks p cs = some (start, [])) : scanFrom p cs = .ok [] := by
  rw [scanFrom]
  split <;> simp_all

theorem scanFrom_stuck {cause : ScanCause} (h : skipGap .blanks p cs = some (start, c :: rest))
    (hs : scanToken c rest = .error cause) : scanFrom p cs = .error ⟨cause, start.point⟩ := by
  rw [scanFrom]
  split
  · simp_all
  · simp_all
  · rename_i h'
    cases h.symm.trans h'
    split
    · rename_i hs'
      cases hs.symm.trans hs'
      rfl
    · simp_all

theorem scanFrom_token {s : Scanned} (h : skipGap .blanks p cs = some (start, c :: rest))
    (hs : scanToken c rest = .ok s) :
    scanFrom p cs = (scanFrom (start.advanceAll s.taken) s.rest).map
      (⟨s.kind, start.spanTo (start.advanceAll s.taken)⟩ :: ·) := by
  rw [scanFrom]
  split
  · simp_all
  · simp_all
  · rename_i h'
    cases h.symm.trans h'
    split
    · simp_all
    · rename_i hs'
      cases hs.symm.trans hs'
      dsimp only
      cases scanFrom (start.advanceAll s.taken) s.rest <;> rfl

end Step

/-! Tilings, for any way `place` to write down where something stands. -/

section Tiling

variable (place : Position → Position → Span)

/-- The token stands behind the text `before` and is written `own` there. -/
structure Stands (before own : List Char) (t : Token) : Prop where
  spelled : Spells t.kind own
  span_eq : t.span = place (.behind before) (.behind (before ++ own))

/-- The text ends with the last of the tokens, and all of it is tokens and gaps between them. -/
inductive Tiled : List Char → List Token → Prop
  | nil : Tiled [] []
  | snoc {cs gap own : List Char} {ts : List Token} {t : Token} : Tiled cs ts → IsGap gap →
      Stands place (cs ++ gap) own t → Tiled (cs ++ gap ++ own) (ts ++ [t])

/-- A gap, or a gap and a line comment that ends with the text. -/
def IsLastGap (cs : List Char) : Prop :=
  IsGap cs ∨ ∃ gap body, cs = gap ++ '/' :: '/' :: body ∧ IsGap gap ∧ '\n' ∉ body

/-- Behind the last token there is only a gap. -/
def Tiles (source : List Char) (ts : List Token) : Prop :=
  ∃ cs last, source = cs ++ last ∧ Tiled place cs ts ∧ IsLastGap last

/-- The text is tiled up to a block comment that does not end, which is reported where the run of white
space and comments begins that it is in; or it is tiled up to a character that begins no token, which
is reported where it stands. -/
def Breaks (source : List Char) (e : ScanError) : Prop :=
  ∃ cs ts gap rest, source = cs ++ gap ++ rest ∧ Tiled place cs ts ∧ IsGap gap ∧
    ((∃ body, rest = '/' :: '*' :: body ∧ ¬ ['*', '/'] <:+: body ∧
      e = ⟨.unterminatedComment, place (.behind cs) (.behind cs)⟩) ∨
    (∃ c more, rest = c :: more ∧ EndsGap rest ∧
      (∀ kind own after, rest = own ++ after → ¬ Spells kind own) ∧
      e = ⟨if c = '"' then .unterminatedString else .unexpectedChar c,
        place (.behind (cs ++ gap)) (.behind (cs ++ gap))⟩))

end Tiling

/-- From the end of a tiled text on, the scanner adds tiles. -/
theorem Tiled.scanFrom {before : List Char} {ts : List Token} (h : Tiled spanTo before ts)
    (cs : List Char) :
    match Token.scanFrom (.behind before) cs with
    | .ok more => Tiles spanTo (before ++ cs) (ts ++ more)
    | .error e => Breaks spanTo (before ++ cs) e := by
  induction hn : cs.length using Nat.strongRecOn generalizing before ts cs with
  | _ n ih =>
    subst hn
    obtain ⟨gap, rest, rfl, hgap, hskip⟩ := skipGap_cases (.behind before) cs
    cases hs : skipGap .blanks (.behind before) (gap ++ rest) with
    | none =>
      rw [hs] at hskip
      obtain ⟨body, rfl, hbody⟩ := hskip
      rw [scanFrom_open hs]
      exact ⟨before, ts, gap, _, by simp, h, hgap, .inl ⟨body, rfl, hbody, rfl⟩⟩
    | some r =>
      obtain ⟨start, behindGap⟩ := r
      rw [hs] at hskip
      cases behindGap with
      | nil =>
        rw [scanFrom_over hs]
        refine ⟨before, gap ++ rest, rfl, by rwa [List.append_nil], ?_⟩
        rcases hskip with rfl | ⟨body, rfl, hbody⟩
        · exact .inl (by simpa using hgap)
        · exact .inr ⟨gap, body, rfl, hgap, hbody⟩
      | cons c more =>
        obtain ⟨hstart, rfl, hends⟩ := hskip
        rw [← Position.behind_append] at hstart
        subst hstart
        cases htoken : scanToken c more with
        | error cause =>
          obtain ⟨rfl, hnone⟩ := not_spells_of_scanToken htoken
          rw [scanFrom_stuck hs htoken]
          exact ⟨before, ts, gap, _, by simp, h, hgap, .inr ⟨c, more, rfl, hends, hnone, rfl⟩⟩
        | ok s =>
          obtain ⟨heq, hne⟩ := scanToken_eq htoken
          have hlen := congrArg List.length heq
          have hpos := List.length_pos_iff.2 hne
          rw [scanFrom_token hs htoken, ← Position.behind_append]
          have hstands : Stands spanTo (before ++ gap) s.taken ⟨s.kind,
              (Position.behind (before ++ gap)).spanTo (Position.behind (before ++ gap ++ s.taken))⟩ :=
            ⟨spells_of_scanToken htoken, rfl⟩
          have hrest := ih s.rest.length (by simp at hlen ⊢; omega) (.snoc h hgap hstands) s.rest rfl
          have hsource : before ++ (gap ++ c :: more) = before ++ gap ++ s.taken ++ s.rest := by
            rw [heq]; simp
          rw [hsource]
          cases hmore : Token.scanFrom (.behind (before ++ gap ++ s.taken)) s.rest with
          | error e =>
            rw [hmore] at hrest
            exact hrest
          | ok tokens =>
            rw [hmore] at hrest
            show Tiles spanTo (before ++ gap ++ s.taken ++ s.rest) (ts ++ _ :: tokens)
            rw [List.append_cons]
            exact hrest

/-! Where 32 bits are enough, spans say the places as they are. -/

theorem Stands.exact {before own : List Char} {t : Token} (h : Stands spanTo before own t)
    (hsize : (Position.behind (before ++ own)).offset < UInt32.size) : Stands extent before own t := by
  obtain ⟨c, more, hown, -⟩ := h.spelled.first
  obtain ⟨hlo, hline, hcolumn⟩ := Position.behind_lt (hown ▸ List.cons_ne_nil c more) hsize
  exact ⟨h.spelled, h.span_eq.trans (Position.spanTo_eq_extent hlo hsize hline hcolumn)⟩

theorem Tiled.exact {cs : List Char} {ts : List Token} (h : Tiled spanTo cs ts)
    (hsize : (Position.behind cs).offset < UInt32.size) : Tiled extent cs ts := by
  induction h with
  | nil => exact .nil
  | snoc _ hgap hstands ih =>
    have hcs := Position.offset_behind_le _ _ |>.trans_lt hsize
    exact .snoc (ih (Position.offset_behind_le _ _ |>.trans_lt hcs)) hgap (hstands.exact hsize)

theorem Tiles.exact {source : List Char} {ts : List Token} (h : Tiles spanTo source ts)
    (hsize : (Position.behind source).offset < UInt32.size) : Tiles extent source ts := by
  obtain ⟨cs, last, rfl, htiled, hlast⟩ := h
  exact ⟨cs, last, rfl, htiled.exact ((Position.offset_behind_le cs last).trans_lt hsize), hlast⟩

theorem Breaks.exact {source : List Char} {e : ScanError} (h : Breaks spanTo source e)
    (hsize : (Position.behind source).offset < UInt32.size) : Breaks extent source e := by
  obtain ⟨cs, ts, gap, rest, rfl, htiled, hgap, hbreak⟩ := h
  have hpoint {before : List Char} (hrest : ∃ more, more ≠ [] ∧ cs ++ gap ++ rest = before ++ more) :
      (Position.behind before).point = (Position.behind before).extent (.behind before) := by
    obtain ⟨more, hmore, hsource⟩ := hrest
    obtain ⟨hlo, hline, hcolumn⟩ := Position.behind_lt hmore (hsource ▸ hsize)
    exact Position.spanTo_eq_extent hlo hlo hline hcolumn
  have hcs := Position.offset_behind_le (cs ++ gap) rest |>.trans_lt hsize
  refine ⟨cs, ts, gap, rest, rfl,
    htiled.exact (Position.offset_behind_le cs gap |>.trans_lt hcs), hgap, ?_⟩
  rcases hbreak with ⟨body, rfl, hbody, rfl⟩ | ⟨c, more, rfl, hends, hnone, rfl⟩
  · exact .inl ⟨body, rfl, hbody,
      congrArg _ (hpoint ⟨gap ++ '/' :: '*' :: body, by simp, by simp⟩)⟩
  · exact .inr ⟨c, more, rfl, hends, hnone,
      congrArg _ (hpoint ⟨c :: more, List.cons_ne_nil c more, rfl⟩)⟩

/-! What a tiling says of the spans -/

theorem Stands.lo_lt_hi {before own : List Char} {t : Token} (h : Stands extent before own t) :
    t.span.lo < t.span.hi := by
  obtain ⟨c, more, rfl, -⟩ := h.spelled.first
  have hpos := c.utf8Size_pos
  simp only [h.span_eq, extent, Position.behind, String.ofList_append,
    String.ofList_cons, String.utf8ByteSize_append, String.utf8ByteSize_singleton]
  omega

/-- The bytes of the span are the token's text. -/
theorem Stands.extract_eq {source : String} {before own after : List Char} {t : Token}
    (h : Stands extent before own t) (hsource : source.toList = before ++ own ++ after)
    (hkind : ∀ contents, t.kind ≠ .text contents) :
    source.toByteArray.extract t.span.lo t.span.hi = t.lexeme.toByteArray := by
  have hlexeme : t.lexeme = String.ofList own := h.spelled.lexeme_eq hkind
  have hbytes : source = String.ofList before ++ String.ofList own ++ String.ofList after := by
    rw [← String.ofList_append, ← String.ofList_append, ← hsource, String.ofList_toList]
  have hhi : t.span.hi = (String.ofList before ++ String.ofList own).toByteArray.size := by
    rw [h.span_eq, ← String.ofList_append]
    rfl
  have hlo : t.span.lo = (String.ofList before).toByteArray.size := by
    rw [h.span_eq]
    rfl
  rw [hlexeme, hbytes, String.toByteArray_append, hhi, ByteArray.extract_append_size_left,
    String.toByteArray_append, ByteArray.extract_append_eq_right hlo ByteArray.size_append]

theorem Tiled.hi_le {cs : List Char} {ts : List Token} (h : Tiled extent cs ts) :
    ∀ t ∈ ts, t.span.hi ≤ (String.ofList cs).utf8ByteSize := by
  induction h with
  | nil => simp
  | @snoc cs gap own ts t _ _ hstands ih =>
    intro u hu
    rcases List.mem_append.1 hu with hu | hu
    · have := ih u hu
      simp only [String.ofList_append, String.utf8ByteSize_append]
      omega
    · rw [List.mem_singleton.1 hu, hstands.span_eq]
      exact Nat.le_refl _

/-- The spans stand one behind the other. -/
theorem Tiled.pairwise {cs : List Char} {ts : List Token} (h : Tiled extent cs ts) :
    ts.Pairwise fun a b => a.span.hi ≤ b.span.lo := by
  induction h with
  | nil => exact .nil
  | @snoc cs gap own ts t htiled _ hstands ih =>
    refine List.pairwise_append.2 ⟨ih, List.pairwise_singleton _ _, fun a ha b hb => ?_⟩
    have hend := htiled.hi_le a ha
    rw [List.mem_singleton.1 hb, hstands.span_eq]
    simp only [extent, Position.behind, String.ofList_append, String.utf8ByteSize_append]
    omega

theorem Tiled.exists_stands {cs : List Char} {ts : List Token} (h : Tiled extent cs ts) {t : Token}
    (ht : t ∈ ts) : ∃ before own after, cs = before ++ own ++ after ∧ Stands extent before own t := by
  induction h with
  | nil => cases ht
  | @snoc cs gap own ts u _ _ hstands ih =>
    rcases List.mem_append.1 ht with ht | ht
    · obtain ⟨before, own', after, rfl, h⟩ := ih ht
      exact ⟨before, own', after ++ gap ++ own, by simp, h⟩
    · cases List.mem_singleton.1 ht
      exact ⟨cs ++ gap, own, [], by simp, hstands⟩

/-- When a source whose bytes 32 bits can count has tokens, they tile it: with nothing but white space
and complete comments before, between and behind them, each stands behind a part of the source of so
many bytes and lines, and its last line of so many characters, as its span says. The spans are not
empty and stand one behind the other, and the text of a token that is no string literal is the slice
of its span. When a source has no tokens, it is tiled up to the place that is reported. -/
theorem scan_tiles (source : String) (hsize : source.utf8ByteSize < UInt32.size) :
    match scan source with
    | .ok ts => Tiles extent source.toList ts ∧
      ts.Pairwise (fun a b => a.span.hi ≤ b.span.lo) ∧
      ∀ t ∈ ts, t.span.lo < t.span.hi ∧
        ((∀ contents, t.kind ≠ .text contents) →
          source.toByteArray.extract t.span.lo t.span.hi = t.lexeme.toByteArray)
    | .error e => Breaks extent source.toList e := by
  have hbytes : (Position.behind source.toList).offset < UInt32.size := by
    rwa [Position.behind, String.ofList_toList]
  have htiles := Tiled.nil.scanFrom source.toList
  unfold scan
  cases hscan : scanFrom .start source.toList with
  | error e =>
    rw [show Position.behind [] = .start from rfl, hscan] at htiles
    exact Breaks.exact htiles hbytes
  | ok ts =>
    rw [show Position.behind [] = .start from rfl, hscan] at htiles
    obtain ⟨cs, last, hsource, htiled, hlast⟩ := Tiles.exact htiles hbytes
    refine ⟨⟨cs, last, hsource, htiled, hlast⟩, htiled.pairwise, fun t ht => ?_⟩
    obtain ⟨before, own, after, rfl, hstands⟩ := htiled.exists_stands ht
    have hplace : source.toList = before ++ own ++ (after ++ last) := by simpa using hsource
    exact ⟨hstands.lo_lt_hi, hstands.extract_eq hplace⟩

/-- Two names on two lines, the second behind a comment of which one character has two bytes. -/
def twoLines : String := .ofList ['a', '\n', '/', '*', 'é', '*', '/', 'b']

theorem two_lines_tiled : twoLines.utf8ByteSize < UInt32.size ∧
    scan twoLines = .ok [⟨.ident "a", ⟨0, 1, 1, 1⟩⟩, ⟨.ident "b", ⟨8, 9, 2, 6⟩⟩] ∧
    Tiles extent twoLines.toList [⟨.ident "a", ⟨0, 1, 1, 1⟩⟩, ⟨.ident "b", ⟨8, 9, 2, 6⟩⟩] := by
  have hsize : twoLines.utf8ByteSize < UInt32.size := by decide
  have hscan : scan twoLines =
      .ok [⟨.ident "a", ⟨0, 1, 1, 1⟩⟩, ⟨.ident "b", ⟨8, 9, 2, 6⟩⟩] := by
    rw [scan, twoLines, String.toList_ofList, scanFrom_token rfl rfl, scanFrom_token rfl rfl,
      scanFrom_over rfl]
    rfl
  have htiles := scan_tiles twoLines hsize
  rw [hscan] at htiles
  exact ⟨hsize, hscan, htiles.1⟩

end Token

end StreamLang
