import Mathlib.Data.List.TakeWhile
import StreamLang.Token.Scan

/-! How the tokens are written. The scanner takes a spelling of the token that it gives, and gives up
only where no token is spelled. -/

namespace StreamLang.Token

/-- What stands behind the opening quote of a string literal, and the contents that it stands for. -/
inductive Quoted : List Char → List Char → Prop
  | close : Quoted ['"'] []
  | plain {c : Char} {cs contents : List Char} : c ≠ '"' → c ≠ '\\' → c ≠ '\n' →
      Quoted cs contents → Quoted (c :: cs) (c :: contents)
  | escaped {c : Char} {cs contents : List Char} :
      Quoted cs contents → Quoted ('\\' :: c :: cs) (unescape c :: contents)

/-- A digit, and then digits and underscores. -/
def IsNumeral (cs : List Char) : Prop :=
  ∃ d ds, cs = d :: ds ∧ d.isDigit = true ∧ ∀ c ∈ ds, isDigitOrUnderscore c = true

/-- A letter or underscore, and then letters, digits and underscores. -/
def IsWord (cs : List Char) : Prop :=
  ∃ c ds, cs = c :: ds ∧ isNameStart c = true ∧ ∀ c ∈ ds, isNameChar c = true

/-- The text is a way to write the token. -/
inductive Spells : TokenKind → List Char → Prop
  | ident {cs : List Char} : IsWord cs → Keyword.ofText? (String.ofList cs) = none →
      Spells (.ident (String.ofList cs)) cs
  | int {cs : List Char} : IsNumeral cs → Spells (.int (String.ofList cs)) cs
  | float {whole fraction : List Char} : IsNumeral whole → IsNumeral fraction →
      Spells (.float (String.ofList (whole ++ '.' :: fraction))) (whole ++ '.' :: fraction)
  | text {cs contents : List Char} : Quoted cs contents →
      Spells (.text (String.ofList contents)) ('"' :: cs)
  | symbol (mark : Punct) : Spells (.symbol mark) mark.chars
  | keyword (word : Keyword) : Spells (.keyword word) word.text.toList

/-- The text of a token is its spelling, unless it is a string literal. -/
theorem Spells.lexeme_eq {kind : TokenKind} {cs : List Char} (h : Spells kind cs)
    (hkind : ∀ contents, kind ≠ .text contents) : kind.lexeme = String.ofList cs := by
  cases h with
  | ident | int | float => rfl
  | text => exact absurd rfl (hkind _)
  | symbol => rfl
  | keyword => exact String.ofList_toList.symm

/-! String literals -/

theorem scanString_quote (rest : List Char) : scanString ('"' :: rest) = some ([], ['"'], rest) := by
  rw [scanString.eq_def]
  rfl

theorem scanString_plain {c : Char} (hq : c ≠ '"') (hb : c ≠ '\\') (hn : c ≠ '\n') (rest : List Char) :
    scanString (c :: rest) = (scanString rest).map fun r => (c :: r.1, c :: r.2.1, r.2.2) := by
  rw [scanString.eq_def]
  simp only [hq, hb, hn, if_false]

theorem scanString_escape (c : Char) (rest : List Char) : scanString ('\\' :: c :: rest) =
    (scanString rest).map fun r => (unescape c :: r.1, '\\' :: c :: r.2.1, r.2.2) := by
  rw [scanString.eq_def]
  rfl

theorem Quoted.scanString_append {cs contents rest : List Char} (h : Quoted cs contents) :
    scanString (cs ++ rest) = some (contents, cs, rest) := by
  induction h with
  | close => exact scanString_quote rest
  | plain hq hb hn _ ih => rw [List.cons_append, scanString_plain hq hb hn, ih]; rfl
  | escaped _ ih => rw [List.cons_append, List.cons_append, scanString_escape, ih]; rfl

theorem quoted_of_scanString {cs : List Char} {r : List Char × List Char × List Char}
    (h : scanString cs = some r) : Quoted r.2.1 r.1 := by
  fun_induction scanString cs generalizing r with
  | case1 => cases h
  | case2 => cases h; exact .close
  | case3 => cases h
  | case4 e more _ ih =>
    obtain ⟨r, hr, rfl⟩ := Option.map_eq_some_iff.1 h
    exact .escaped (ih hr)
  | case5 => cases h
  | case6 c rest hq hb hn ih =>
    obtain ⟨r, hr, rfl⟩ := Option.map_eq_some_iff.1 h
    exact .plain hq hb hn (ih hr)

/-! Numbers and words -/

theorem isDigitOrUnderscore_of_isDigit {c : Char} (h : c.isDigit = true) :
    isDigitOrUnderscore c = true := by
  simp [isDigitOrUnderscore, h]

theorem isNameChar_of_isNameStart {c : Char} (h : isNameStart c = true) : isNameChar c = true := by
  simp only [isNameStart, Bool.or_eq_true] at h
  simp only [isNameChar, Bool.or_eq_true, Char.isAlphanum]
  exact h.imp_right Or.inl

theorem isNumeral_takeWhile {d : Char} {cs : List Char} (hd : d.isDigit = true) :
    IsNumeral (d :: cs.takeWhile isDigitOrUnderscore) :=
  ⟨d, _, rfl, hd, fun _ h => List.mem_takeWhile_imp h⟩

theorem spells_scanNumber {d : Char} {cs : List Char} (hd : d.isDigit = true) :
    Spells (scanNumber (d :: cs)).kind (scanNumber (d :: cs)).taken := by
  have hwhole : (d :: cs).takeWhile isDigitOrUnderscore = d :: cs.takeWhile isDigitOrUnderscore :=
    List.takeWhile_cons_of_pos (isDigitOrUnderscore_of_isDigit hd)
  unfold scanNumber
  rw [hwhole]
  dsimp only
  split
  · split
    · rename_i hfraction
      exact .float (isNumeral_takeWhile hd) (isNumeral_takeWhile hfraction)
    · exact .int (isNumeral_takeWhile hd)
  · exact .int (isNumeral_takeWhile hd)

theorem spells_scanWord {c : Char} {cs : List Char} (hc : isNameStart c = true) :
    Spells (scanWord (c :: cs)).kind (scanWord (c :: cs)).taken := by
  have hword : IsWord ((c :: cs).takeWhile isNameChar) := by
    rw [List.takeWhile_cons_of_pos (isNameChar_of_isNameStart hc)]
    exact ⟨c, _, rfl, hc, fun _ h => List.mem_takeWhile_imp h⟩
  unfold scanWord
  dsimp only
  split
  · rename_i word hkey
    have htext : word.text = String.ofList ((c :: cs).takeWhile isNameChar) := by
      simpa using List.find?_some hkey
    have hspell := Spells.keyword word
    rw [htext, String.toList_ofList] at hspell
    exact hspell
  · rename_i hkey
    exact .ident hword hkey

theorem ofStart?_isPrefix {cs : List Char} {mark : Punct} (h : Punct.ofStart? cs = some mark) :
    mark.chars <+: cs := by
  have hfits : mark.chars.isPrefixOf cs = true := by simpa using List.find?_some h
  exact List.isPrefixOf_iff_prefix.1 hfits

/-! The scanner against the spellings -/

theorem spells_of_scanToken {c : Char} {cs : List Char} {s : Scanned} (h : scanToken c cs = .ok s) :
    Spells s.kind s.taken := by
  unfold scanToken at h
  split at h
  · rename_i hc
    subst hc
    split at h
    · rename_i r hr
      cases h
      exact .text (quoted_of_scanString hr)
    · cases h
  · split at h
    · rename_i hd
      cases h
      exact spells_scanNumber hd
    · split at h
      · rename_i hn
        cases h
        exact spells_scanWord hn
      · split at h
        · cases h
          exact .symbol _
        · cases h

/-- The first character of a spelling tells which scanner reads it. -/
theorem Spells.first {kind : TokenKind} {own : List Char} (h : Spells kind own) :
    ∃ c more, own = c :: more ∧
      ((c = '"' ∧ ∃ contents, Quoted more contents) ∨
        (c ≠ '"' ∧ (c.isDigit = true ∨ isNameStart c = true)) ∨
        (c ≠ '"' ∧ ∃ mark : Punct, own = mark.chars)) := by
  cases h with
  | ident hw =>
    obtain ⟨c, ds, rfl, hc, -⟩ := hw
    exact ⟨c, ds, rfl, .inr (.inl ⟨by rintro rfl; simp [isNameStart] at hc, .inr hc⟩)⟩
  | int hn =>
    obtain ⟨d, ds, rfl, hd, -⟩ := hn
    exact ⟨d, ds, rfl, .inr (.inl ⟨by rintro rfl; simp at hd, .inl hd⟩)⟩
  | float hn =>
    obtain ⟨d, ds, rfl, hd, -⟩ := hn
    exact ⟨d, _, rfl, .inr (.inl ⟨by rintro rfl; simp at hd, .inl hd⟩)⟩
  | text hq => exact ⟨'"', _, rfl, .inl ⟨rfl, _, hq⟩⟩
  | symbol mark => cases mark <;> exact ⟨_, _, rfl, .inr (.inr ⟨by decide, _, rfl⟩)⟩
  | keyword word => cases word <;> exact ⟨_, _, rfl, .inr (.inl ⟨by decide, .inr (by decide)⟩)⟩

/-- Where the scanner gives up, no token is spelled. -/
theorem not_spells_of_scanToken {c : Char} {cs : List Char} {cause : ScanCause}
    (h : scanToken c cs = .error cause) :
    (cause = if c = '"' then .unterminatedString else .unexpectedChar c) ∧
      ∀ kind own rest, c :: cs = own ++ rest → ¬ Spells kind own := by
  refine ⟨?_, fun kind own rest heq hspell => ?_⟩
  · unfold scanToken at h
    grind
  · obtain ⟨d, more, rfl, hfirst⟩ := hspell.first
    obtain ⟨rfl, rfl⟩ := List.cons.inj heq
    unfold scanToken at h
    rcases hfirst with ⟨rfl, contents, hq⟩ | ⟨hc, hstart⟩ | ⟨hc, mark, hmark⟩
    · simp [hq.scanString_append] at h
    · rw [if_neg hc] at h
      rcases hstart with hd | hn
      · simp [hd] at h
      · simp only [hn, if_true] at h
        split at h <;> cases h
    · have hsome : Punct.ofStart? (c :: (more ++ rest)) ≠ none := by
        rw [← List.cons_append, hmark, Punct.ofStart?, Ne, List.find?_eq_none]
        intro hnone
        exact hnone mark (by cases mark <;> decide) (by simp)
      rw [if_neg hc] at h
      split at h
      · cases h
      · split at h
        · cases h
        · split at h
          · cases h
          · rename_i hnone
            exact hsome hnone

end StreamLang.Token
