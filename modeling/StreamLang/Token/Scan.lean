import StreamLang.Text.Search
import StreamLang.Token

/-!
Splitting a source text into tokens. Between tokens stand blanks, line comments from `//` to the
end of the line, and block comments from `/*` to the next `*/`; at each other place the longest
token that begins there is taken.
-/

namespace StreamLang

/-- Why a text has no tokens. -/
inductive ScanCause
  | unterminatedComment
  | unterminatedString
  | unexpectedChar (c : Char)
deriving DecidableEq, Repr

def ScanCause.message : ScanCause → String
  | unterminatedComment => "unterminated block comment"
  | unterminatedString => "unterminated string literal"
  | unexpectedChar c => s!"unexpected character '{c}'"

structure ScanError where
  cause : ScanCause
  span : Span
deriving DecidableEq, Repr

namespace Token

/-- What the text before the next token is part of. -/
inductive Gap
  | blanks
  | lineComment
  | blockComment

/-- Skips to the next token. `none` means that a block comment does not end. -/
def skipGap : Gap → Position → List Char → Option (Position × List Char)
  | .blanks, p, '/' :: '/' :: rest => skipGap .lineComment ((p.advance '/').advance '/') rest
  | .blanks, p, '/' :: '*' :: rest => skipGap .blockComment ((p.advance '/').advance '*') rest
  | .blanks, p, c :: rest =>
    if Text.isBlank c then skipGap .blanks (p.advance c) rest else some (p, c :: rest)
  | .lineComment, p, c :: rest =>
    skipGap (if c = '\n' then .blanks else .lineComment) (p.advance c) rest
  | .blockComment, p, '*' :: '/' :: rest => skipGap .blanks ((p.advance '*').advance '/') rest
  | .blockComment, p, c :: rest => skipGap .blockComment (p.advance c) rest
  | .blockComment, _, [] => none
  | _, p, [] => some (p, [])

def isNameStart (c : Char) : Bool := c == '_' || c.isAlpha

def isNameChar (c : Char) : Bool := c == '_' || c.isAlphanum

def isDigitOrUnderscore (c : Char) : Bool := c.isDigit || c == '_'

/-- A token at the front of a text: its kind, the characters it takes, and the rest. -/
structure Scanned where
  kind : TokenKind
  taken : List Char
  rest : List Char

/-- The character meant by a backslash and `c`. -/
def unescape (c : Char) : Char :=
  if c = 'n' then '\n' else if c = 't' then '\t' else if c = 'r' then '\r'
  else if c = '0' then '\x00' else c

/-- The contents of a string literal behind its opening quote, the characters taken, and the
rest. A literal ends on its own line. -/
def scanString : List Char → Option (List Char × List Char × List Char)
  | [] => none
  | c :: rest =>
    if c = '"' then some ([], ['"'], rest)
    else if c = '\\' then
      match rest with
      | [] => none
      | e :: more => (scanString more).map fun r => (unescape e :: r.1, c :: e :: r.2.1, r.2.2)
    else if c = '\n' then none
    else (scanString rest).map fun r => (c :: r.1, c :: r.2.1, r.2.2)

/-- A number. Its first character is a digit; a fraction needs a digit behind the point, so that
the point of `pair.0` and of `1..` stays a mark of its own. -/
def scanNumber (cs : List Char) : Scanned :=
  let whole := cs.takeWhile isDigitOrUnderscore
  let after := cs.dropWhile isDigitOrUnderscore
  match after with
  | '.' :: d :: more =>
    if d.isDigit then
      let taken := whole ++ '.' :: d :: more.takeWhile isDigitOrUnderscore
      ⟨.float (String.ofList taken), taken, more.dropWhile isDigitOrUnderscore⟩
    else ⟨.int (String.ofList whole), whole, after⟩
  | _ => ⟨.int (String.ofList whole), whole, after⟩

/-- A name or a reserved word. -/
def scanWord (cs : List Char) : Scanned :=
  let taken := cs.takeWhile isNameChar
  let word := String.ofList taken
  let kind := match Keyword.ofText? word with
    | some k => .keyword k
    | none => .ident word
  ⟨kind, taken, cs.dropWhile isNameChar⟩

/-- The token that begins with `c`. -/
def scanToken (c : Char) (cs : List Char) : Except ScanCause Scanned :=
  if c = '"' then
    match scanString cs with
    | some r => .ok ⟨.text (String.ofList r.1), c :: r.2.1, r.2.2⟩
    | none => .error .unterminatedString
  else if c.isDigit then .ok (scanNumber (c :: cs))
  else if isNameStart c then .ok (scanWord (c :: cs))
  else
    match Punct.ofStart? (c :: cs) with
    | some p => .ok ⟨.symbol p, p.chars, (c :: cs).drop p.chars.length⟩
    | none => .error (.unexpectedChar c)

theorem skipGap_length {g : Gap} {p : Position} {cs : List Char} {r : Position × List Char}
    (h : skipGap g p cs = some r) : r.2.length ≤ cs.length := by
  fun_induction skipGap g p cs <;> simp_all <;> grind

theorem scanString_eq {cs : List Char} {r : List Char × List Char × List Char}
    (h : scanString cs = some r) : cs = r.2.1 ++ r.2.2 ∧ r.2.1 ≠ [] := by
  fun_induction scanString cs generalizing r <;> simp_all [Option.map_eq_some_iff] <;> grind

/-- The characters a token takes and the rest make up the text, and a token takes one at least. -/
theorem scanToken_eq {c : Char} {cs : List Char} {s : Scanned} (h : scanToken c cs = .ok s) :
    c :: cs = s.taken ++ s.rest ∧ s.taken ≠ [] := by
  unfold scanToken at h
  split at h
  · split at h
    · rename_i r hr
      cases h
      simp [(scanString_eq hr).1]
    · cases h
  · split at h
    · rename_i hd
      have hu : isDigitOrUnderscore c = true := by simp [isDigitOrUnderscore, hd]
      cases h
      have hs := List.takeWhile_append_dropWhile (p := isDigitOrUnderscore) (l := c :: cs)
      have hne : (c :: cs).takeWhile isDigitOrUnderscore ≠ [] := by simp [List.takeWhile, hu]
      unfold scanNumber
      dsimp only
      split
      · split
        · rename_i d more ha _
          refine ⟨?_, by simp⟩
          rw [List.append_assoc, List.cons_append, List.cons_append,
            List.takeWhile_append_dropWhile, ← ha, hs]
        · exact ⟨hs.symm, hne⟩
      · exact ⟨hs.symm, hne⟩
    · split at h
      · rename_i hn
        cases h
        have hc : isNameChar c = true := by
          simp only [isNameStart, Bool.or_eq_true] at hn
          simp only [isNameChar, Bool.or_eq_true, Char.isAlphanum]
          exact hn.imp_right Or.inl
        exact ⟨by simp [scanWord], by simp [scanWord, hc]⟩
      · split at h
        · rename_i p hp
          cases h
          have hpre : p.chars.isPrefixOf (c :: cs) = true := by
            have := List.find?_some hp
            simpa using this
          refine ⟨?_, by cases p <;> simp [Punct.chars]⟩
          obtain ⟨t, ht⟩ := List.isPrefixOf_iff_prefix.1 hpre
          simp [← ht]
        · cases h

/-- The tokens of a text that starts at `p`. -/
def scanFrom (p : Position) (cs : List Char) : Except ScanError (List Token) :=
  match _hg : skipGap .blanks p cs with
  | none => .error ⟨.unterminatedComment, p.point⟩
  | some (_, []) => .ok []
  | some (start, c :: rest) =>
    match _hs : scanToken c rest with
    | .error cause => .error ⟨cause, start.point⟩
    | .ok s =>
      let stop := start.advanceAll s.taken
      match scanFrom stop s.rest with
      | .error e => .error e
      | .ok more => .ok (⟨s.kind, start.spanTo stop⟩ :: more)
termination_by cs.length
decreasing_by
  have h₁ := skipGap_length _hg
  have h₂ := scanToken_eq _hs
  have h₃ := congrArg List.length h₂.1
  have h₄ := List.length_pos_iff.2 h₂.2
  simp at h₁ h₃
  omega

/-- The tokens of a source text. -/
def scan (source : String) : Except ScanError (List Token) := scanFrom .start source.toList

end Token

end StreamLang
