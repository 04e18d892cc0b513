import Mathlib
import StreamLang.Proofs.Lexical.Tiling

/-! Scanning a text piece by piece. A piece has the same tokens in every text, provided that what
follows does not go on with its last token. -/

namespace StreamLang.Token

/-- The piece has these tokens in front of `rest`, whatever tokens `rest` has. -/
def Scans (p : Position) (cs : List Char) (ts : List Token) (rest : List Char) : Prop :=
  ∀ us, scanFrom (p.advanceAll cs) rest = .ok us → scanFrom p (cs ++ rest) = .ok (ts ++ us)

section Scans

variable {p : Position} {cs cs' rest : List Char} {ts ts' : List Token}

theorem Scans.nil : Scans p [] [] rest := fun _ h => h

theorem Scans.append (h : Scans p cs ts (cs' ++ rest)) (h' : Scans (p.advanceAll cs) cs' ts' rest) :
    Scans p (cs ++ cs') (ts ++ ts') rest := by
  intro us hus
  rw [Position.advanceAll_append] at hus
  rw [List.append_assoc, List.append_assoc]
  exact h _ (h' us hus)

theorem Scans.cons {c : Char} {t : Token} (h : Scans p [c] [t] (cs ++ rest))
    (h' : Scans (p.advance c) cs ts rest) : Scans p (c :: cs) (t :: ts) rest := h.append h'

theorem scanFrom_nil : scanFrom p [] = .ok [] := scanFrom_over rfl

/-- Where a text has tokens, they depend only on what stands behind the gap at its front. -/
theorem scanFrom_of_skipGap {q : Position} {us : List Token}
    (h : skipGap .blanks p cs = skipGap .blanks q rest) (hus : scanFrom q rest = .ok us) :
    scanFrom p cs = .ok us := by
  cases hskip : skipGap .blanks q rest with
  | none => rw [scanFrom_open hskip] at hus; cases hus
  | some r =>
    obtain ⟨start, _ | ⟨c, more⟩⟩ := r
    · rwa [scanFrom_over (h.trans hskip), ← scanFrom_over hskip]
    · cases hs : scanToken c more with
      | error cause => rw [scanFrom_stuck hskip hs] at hus; cases hus
      | ok s => rwa [scanFrom_token (h.trans hskip) hs, ← scanFrom_token hskip hs]

theorem IsGap.scans (h : IsGap cs) : Scans p cs [] rest :=
  fun _ => scanFrom_of_skipGap h.skipGap_append

/-- One token by itself. -/
theorem scans_token {c : Char} {more : List Char} {kind : TokenKind} (hblank : Text.isBlank c = false)
    (hslash : c ≠ '/') (hs : scanToken c (more ++ rest) = .ok ⟨kind, c :: more, rest⟩) :
    Scans p (c :: more) [⟨kind, p.spanTo (p.advanceAll (c :: more))⟩] rest := by
  intro us hus
  have hskip : skipGap .blanks p (c :: (more ++ rest)) = some (p, c :: (more ++ rest)) := by
    refine skipGap_token hblank ?_ ?_ <;> exact fun _ h => hslash (List.cons.inj h).1
  rw [List.cons_append, scanFrom_token hskip hs, hus]
  rfl

end Scans

/-! Words, numbers and marks -/

theorem isBlank_of_isNameChar {c : Char} (h : isNameChar c = true) : Text.isBlank c = false := by
  simp only [isNameChar, Bool.or_eq_true, beq_iff_eq, Char.isAlphanum, Char.isAlpha, Char.isUpper,
    Char.isLower, Char.isDigit, Bool.and_eq_true, decide_eq_true_eq, ge_iff_le,
    UInt32.le_iff_toNat_le] at h
  obtain rfl | h := h
  · rfl
  · have hbounds : (65 ≤ c.toNat ∧ c.toNat ≤ 90 ∨ 97 ≤ c.toNat ∧ c.toNat ≤ 122) ∨
        48 ≤ c.toNat ∧ c.toNat ≤ 57 := h
    simp only [Text.isBlank, Bool.or_eq_false_iff, Bool.and_eq_false_iff, decide_eq_false_iff_not,
      beq_eq_false_iff_ne]
    omega

theorem isNameChar_of_isDigit {c : Char} (h : c.isDigit = true) : isNameChar c = true := by
  simp [isNameChar, Char.isAlphanum, h]

theorem isNameChar_of_isDigitOrUnderscore {c : Char} (h : isDigitOrUnderscore c = true) :
    isNameChar c = true := by
  simp only [isDigitOrUnderscore, Bool.or_eq_true, beq_iff_eq] at h
  obtain h | rfl := h
  · exact isNameChar_of_isDigit h
  · rfl

theorem isDigit_of_isNameStart {c : Char} (h : isNameStart c = true) : c.isDigit = false := by
  simp only [isNameStart, Bool.or_eq_true, beq_iff_eq, Char.isAlpha, Char.isUpper, Char.isLower,
    Bool.and_eq_true, decide_eq_true_eq, ge_iff_le, UInt32.le_iff_toNat_le] at h
  obtain rfl | h := h
  · rfl
  · have hbounds : 65 ≤ c.toNat ∧ c.toNat ≤ 90 ∨ 97 ≤ c.toNat ∧ c.toNat ≤ 122 := h
    have hdigit : ¬ (48 ≤ c.toNat ∧ c.toNat ≤ 57) := by omega
    simpa [Char.isDigit, UInt32.le_iff_toNat_le] using hdigit

/-- No character of the kind stands first. -/
def Stops (p : Char → Bool) (cs : List Char) : Prop := ∀ c more, cs = c :: more → p c = false

theorem Stops.cons {q : Char → Bool} {c : Char} (h : q c = false) (more : List Char) :
    Stops q (c :: more) := by
  rintro _ _ ⟨⟩
  exact h

/-- No gap begins with a character of a name. -/
theorem IsGap.stops {gap : List Char} (h : IsGap gap) {q : Char → Bool}
    (hq : ∀ c, q c = true → isNameChar c = true) {rest : List Char}
    (hrest : gap = [] → Stops q rest) : Stops q (gap ++ rest) := by
  cases h with
  | nil => exact hrest rfl
  | @blank c cs hc _ =>
    refine .cons (Bool.eq_false_iff.2 fun h => ?_) _
    exact absurd (hc.symm.trans (isBlank_of_isNameChar (hq c h))) (by decide)
  | _ => exact .cons (Bool.eq_false_iff.2 fun h => absurd (hq _ h) (by decide)) _

theorem IsWord.isNameChar_of_mem {cs : List Char} (h : IsWord cs) {d : Char} (hd : d ∈ cs) :
    isNameChar d = true := by
  obtain ⟨c, ds, rfl, hc, hds⟩ := h
  obtain rfl | hd := List.mem_cons.1 hd
  · exact isNameChar_of_isNameStart hc
  · exact hds d hd

theorem IsNumeral.isDigitOrUnderscore_of_mem {cs : List Char} (h : IsNumeral cs) {d : Char} (hd : d ∈ cs) :
    isDigitOrUnderscore d = true := by
  obtain ⟨c, ds, rfl, hc, hds⟩ := h
  obtain rfl | hd := List.mem_cons.1 hd
  · exact isDigitOrUnderscore_of_isDigit hc
  · exact hds d hd

theorem IsWord.stops_isDigit {cs : List Char} (h : IsWord cs) (rest : List Char) :
    Stops Char.isDigit (cs ++ rest) := by
  obtain ⟨c, ds, rfl, hc, -⟩ := h
  exact .cons (isDigit_of_isNameStart hc) _

/-- A gap does not begin with a point. -/
theorem IsGap.ne_dot {gap : List Char} (h : IsGap gap) (hne : gap ≠ []) (rest more : List Char) :
    gap ++ rest ≠ '.' :: more := by
  cases h with
  | nil => exact absurd rfl hne
  | blank hc _ => rintro ⟨⟩; cases hc
  | _ => rintro ⟨⟩

theorem takeWhile_append_stop {p : Char → Bool} {cs rest : List Char} (hcs : ∀ c ∈ cs, p c = true)
    (hrest : Stops p rest) : (cs ++ rest).takeWhile p = cs ∧ (cs ++ rest).dropWhile p = rest := by
  rw [List.takeWhile_append_of_pos hcs, List.dropWhile_append_of_pos hcs]
  cases rest with
  | nil => simp
  | cons c more => simp [hrest c more rfl]

section Pieces

variable {p : Position} {cs rest : List Char}

theorem IsWord.scans (h : IsWord cs) (hrest : Stops isNameChar rest) (kind : TokenKind)
    (hkind : (match Keyword.ofText? (String.ofList cs) with
      | some k => .keyword k
      | none => .ident (String.ofList cs)) = kind) :
    Scans p cs [⟨kind, p.spanTo (p.advanceAll cs)⟩] rest := by
  have hword := takeWhile_append_stop (fun _ => h.isNameChar_of_mem) hrest
  obtain ⟨c, ds, rfl, hc, -⟩ := h
  have hq : c ≠ '"' := by rintro rfl; simp [isNameStart] at hc
  refine scans_token (isBlank_of_isNameChar (isNameChar_of_isNameStart hc)) ?_ ?_
  · rintro rfl
    simp [isNameStart] at hc
  · rw [scanToken, if_neg hq, if_neg (by simp [isDigit_of_isNameStart hc]), if_pos hc]
    subst hkind
    rw [List.cons_append] at hword
    cases hk : Keyword.ofText? (String.ofList (c :: ds)) <;> simp only [scanWord, hword, hk]

theorem IsNumeral.scans (h : IsNumeral cs) (hrest : Stops isDigitOrUnderscore rest)
    (hpoint : ∀ more, rest = '.' :: more → Stops Char.isDigit more) :
    Scans p cs [⟨.int (String.ofList cs), p.spanTo (p.advanceAll cs)⟩] rest := by
  have hnumeral := takeWhile_append_stop (fun _ => h.isDigitOrUnderscore_of_mem) hrest
  obtain ⟨c, ds, rfl, hc, -⟩ := h
  have hq : c ≠ '"' := by rintro rfl; simp at hc
  refine scans_token (isBlank_of_isNameChar (isNameChar_of_isDigit hc)) ?_ ?_
  · rintro rfl
    simp at hc
  · rw [scanToken, if_neg hq, if_pos hc]
    rw [List.cons_append] at hnumeral
    simp only [scanNumber, hnumeral]
    split
    · rename_i d more
      rw [if_neg (by simp [hpoint _ rfl d more rfl])]
    · rfl

/-- A word or a number does not begin with a point. -/
theorem IsWord.ne_dot {cs : List Char} (h : IsWord cs) (rest more : List Char) :
    cs ++ rest ≠ '.' :: more := by
  obtain ⟨c, ds, rfl, hc, -⟩ := h
  rintro ⟨⟩
  simp [isNameStart] at hc

theorem IsNumeral.ne_dot {cs : List Char} (h : IsNumeral cs) (rest more : List Char) :
    cs ++ rest ≠ '.' :: more := by
  obtain ⟨c, ds, rfl, hc, -⟩ := h
  rintro ⟨⟩
  simp at hc

theorem scans_mark {mark : Punct} {c : Char} (hslash : mark ≠ .slash) (hc : mark.chars = [c])
    (hlong : Punct.ofStart? (c :: rest) = some mark) :
    Scans p [c] [⟨.symbol mark, p.spanTo (p.advance c)⟩] rest := by
  refine scans_token ?_ ?_ ?_
  · cases mark <;> cases hc <;> rfl
  · rintro rfl
    cases mark <;> cases hc
    exact hslash rfl
  · have hs : scanToken c rest = .ok ⟨.symbol mark, mark.chars, (c :: rest).drop mark.chars.length⟩ := by
      rw [scanToken, if_neg, if_neg, if_neg, hlong] <;> cases mark <;> cases hc <;> simp [isNameStart]
    rw [List.nil_append, hs, hc]
    rfl

/-- The point and the colon are doubled in longer marks. -/
theorem ofStart?_lone {mark : Punct} {c : Char} (hmark : mark ∈ [.dot, .colon]) (hc : mark.chars = [c])
    (hrest : ∀ more, rest ≠ c :: more) : Punct.ofStart? (c :: rest) = some mark := by
  simp only [List.mem_cons, List.not_mem_nil, or_false] at hmark
  cases rest with
  | nil => obtain rfl | rfl := hmark <;> cases hc <;> rfl
  | cons d more =>
    have hd : (c == d) = false := by
      rw [beq_eq_false_iff_ne]
      rintro rfl
      exact hrest more rfl
    obtain rfl | rfl := hmark <;> cases hc <;>
      simp [Punct.ofStart?, Punct.all, Punct.chars, List.isPrefixOf, hd]

theorem scans_lone {mark : Punct} {c : Char} (hmark : mark ∈ [.dot, .colon]) (hc : mark.chars = [c])
    (hrest : ∀ more, rest ≠ c :: more) :
    Scans p [c] [⟨.symbol mark, p.spanTo (p.advance c)⟩] rest :=
  scans_mark (by rintro rfl; simp at hmark) hc (ofStart?_lone hmark hc hrest)

end Pieces

/-! Texts in front of a closing mark -/

/-- The characters that end an expression inside brackets. -/
def closers : List Char := [',', ')', ']', '\x7d']

theorem not_isNameChar_of_closers {y : Char} (h : y ∈ closers) :
    isNameChar y = false ∧ isDigitOrUnderscore y = false ∧ y ≠ '.' ∧ y.isDigit = false ∧
      y ≠ '/' ∧ y ≠ '*' := by
  simp only [closers, List.mem_cons, List.not_mem_nil, or_false] at h
  obtain rfl | rfl | rfl | rfl := h <;> decide

theorem takeWhile_append_cons {p : Char → Bool} {y : Char} (hy : p y = false) (cs rest : List Char) :
    (cs ++ y :: rest).takeWhile p = cs.takeWhile p ∧
      (cs ++ y :: rest).dropWhile p = cs.dropWhile p ++ y :: rest := by
  induction cs with
  | nil => simp [hy]
  | cons c cs ih =>
    cases hc : p c with
    | true => simp [hc, ih]
    | false => simp [hc]

theorem scanNumber_append {y : Char} (hy : y ∈ closers) (cs rest : List Char) :
    scanNumber (cs ++ y :: rest) =
      { scanNumber cs with rest := (scanNumber cs).rest ++ y :: rest } := by
  obtain ⟨-, hunder, hdot, hdigit, -⟩ := not_isNameChar_of_closers hy
  have hsplit := takeWhile_append_cons hunder cs rest
  simp only [scanNumber, hsplit]
  obtain _ | ⟨c, _ | ⟨d, more⟩⟩ := cs.dropWhile isDigitOrUnderscore
  · simp [hdot]
  · by_cases hc : c = '.'
    · simp [hc, hdigit]
    · simp [hc]
  · by_cases hc : c = '.'
    · by_cases hd : d.isDigit = true
      · simp [hc, hd, takeWhile_append_cons hunder more rest]
      · simp [hc, hd]
    · simp [hc]

theorem scanWord_append {y : Char} (hy : y ∈ closers) (cs rest : List Char) :
    scanWord (cs ++ y :: rest) = { scanWord cs with rest := (scanWord cs).rest ++ y :: rest } := by
  have hsplit := takeWhile_append_cons (not_isNameChar_of_closers hy).1 cs rest
  simp only [scanWord, hsplit]

theorem isPrefixOf_append_cons {xs : List Char} {y : Char} (hy : y ∉ xs) (cs rest : List Char) :
    xs.isPrefixOf (cs ++ y :: rest) = xs.isPrefixOf cs := by
  induction cs generalizing xs with
  | nil =>
    cases xs with
    | nil => rfl
    | cons x xs =>
      have hx : (x == y) = false := by
        rw [beq_eq_false_iff_ne]
        rintro rfl
        exact hy (by simp)
      simp [List.isPrefixOf, hx]
  | cons c cs ih =>
    cases xs with
    | nil => rfl
    | cons x xs =>
      rw [List.cons_append, List.isPrefixOf, List.isPrefixOf, ih fun h => hy (by simp [h])]

/-- No mark goes on with a closing mark. -/
theorem ofStart?_append {y : Char} (hy : y ∈ closers) (c : Char) (cs rest : List Char) :
    Punct.ofStart? (c :: (cs ++ y :: rest)) = Punct.ofStart? (c :: cs) := by
  have hmark : ∀ mark : Punct, y ∉ mark.chars.tail := by
    simp only [closers, List.mem_cons, List.not_mem_nil, or_false] at hy
    obtain rfl | rfl | rfl | rfl := hy <;> intro mark <;> cases mark <;> decide
  unfold Punct.ofStart?
  congr 1
  funext mark
  have htail := hmark mark
  revert htail
  cases mark.chars with
  | nil => exact fun _ => rfl
  | cons x xs =>
    intro htail
    rw [List.tail_cons] at htail
    rw [List.isPrefixOf, List.isPrefixOf, isPrefixOf_append_cons htail]

/-- In front of a closing mark the same token is taken. -/
theorem scanToken_append {y c : Char} {cs : List Char} {s : Scanned} (hy : y ∈ closers)
    (h : scanToken c cs = .ok s) (rest : List Char) :
    scanToken c (cs ++ y :: rest) = .ok { s with rest := s.rest ++ y :: rest } := by
  unfold scanToken at h ⊢
  split at h
  · rename_i hc
    split at h
    · rename_i r hr
      cases h
      have hquoted : scanString (r.2.1 ++ (r.2.2 ++ y :: rest)) = some _ :=
        (quoted_of_scanString hr).scanString_append
      rw [← List.append_assoc, ← (scanString_eq hr).1] at hquoted
      rw [if_pos hc, hquoted]
    · cases h
  · rename_i hc
    rw [if_neg hc]
    split at h
    · rename_i hd
      cases h
      rw [if_pos hd, ← List.cons_append, scanNumber_append hy]
    · rename_i hd
      rw [if_neg hd]
      split at h
      · rename_i hn
        cases h
        rw [if_pos hn, ← List.cons_append, scanWord_append hy]
      · rename_i hn
        rw [if_neg hn, ofStart?_append hy]
        split at h
        · rename_i mark hmark
          cases h
          have hlen := (ofStart?_isPrefix hmark).length_le
          rw [← List.cons_append, List.drop_append_of_le_length hlen]
        · cases h

theorem ok_of_map {ε α β : Type} {x : Except ε α} {f : α → β} {b : β} (h : x.map f = .ok b) :
    ∃ a, x = .ok a ∧ f a = b := by
  cases x with
  | error e => cases h
  | ok a => cases h; exact ⟨a, rfl, rfl⟩

/-- The text has these tokens, and has them in front of a comma too: it does not end inside a line
comment. -/
structure Written (p : Position) (cs : List Char) (ts : List Token) : Prop where
  scanned : scanFrom p cs = .ok ts
  closed : ∃ t, scanFrom p (cs ++ [',']) = .ok (ts ++ [t])

/-- A closing mark makes no comment of what stands in front of it. -/
theorem skipGap_token_append {p : Position} {y c : Char} {more : List Char} (hy : y ∈ closers)
    (hblank : Text.isBlank c = false) (hline : ∀ m, c :: more ≠ '/' :: '/' :: m)
    (hblock : ∀ m, c :: more ≠ '/' :: '*' :: m) (rest : List Char) :
    skipGap .blanks p (c :: (more ++ y :: rest)) = some (p, c :: (more ++ y :: rest)) := by
  obtain ⟨-, -, -, -, hslash, hstar⟩ := not_isNameChar_of_closers hy
  refine skipGap_token hblank (fun m hm => ?_) fun m hm => ?_
  · cases more with
    | nil => exact hslash (List.cons.inj (List.cons.inj hm).2).1
    | cons d more => exact hline more (by simpa using congrArg (List.take 2) hm)
  · cases more with
    | nil => exact hstar (List.cons.inj (List.cons.inj hm).2).1
    | cons d more => exact hblock more (by simpa using congrArg (List.take 2) hm)

theorem Written.ends {p : Position} {gap more : List Char} {ts : List Token}
    (h : Written p (gap ++ more) ts) (hgap : IsGap gap) (hmore : EndsGap more) :
    (more = [] ∧ ts = []) ∨ ∃ c cs, more = c :: cs ∧ Text.isBlank c = false ∧
      (∀ m, c :: cs ≠ '/' :: '/' :: m) ∧ ∀ m, c :: cs ≠ '/' :: '*' :: m := by
  obtain ⟨hscan, last, hcomma⟩ := h
  cases hmore with
  | atEnd =>
    have hskip : skipGap .blanks p (gap ++ []) = _ := hgap.skipGap_append
    rw [skipGap_nil] at hskip
    cases (scanFrom_over hskip).symm.trans hscan
    exact .inl ⟨rfl, rfl⟩
  | @lastLine body hbody =>
    have hbody' : '\n' ∉ body ++ [','] := by simp [hbody]
    have hskip : skipGap .blanks p (gap ++ '/' :: '/' :: (body ++ [','])) = _ := hgap.skipGap_append
    rw [skipGap_slash_slash, skipGap_lastLine hbody'] at hskip
    have hnil := (scanFrom_over hskip).symm.trans (by simpa using hcomma)
    simp at hnil
  | @openBlock body hbody =>
    have hskip : skipGap .blanks p (gap ++ '/' :: '*' :: body) = _ := hgap.skipGap_append
    rw [skipGap_slash_star, skipGap_openBlock hbody] at hskip
    cases (scanFrom_open hskip).symm.trans hscan
  | token hblank hline hblock => exact .inr ⟨_, _, rfl, hblank, hline, hblock⟩

/-- So it has them in front of every closing mark. -/
theorem Written.scans {p : Position} {cs : List Char} {ts : List Token} (h : Written p cs ts) {y : Char}
    (hy : y ∈ closers) (rest : List Char) : Scans p cs ts (y :: rest) := by
  induction hn : cs.length using Nat.strongRecOn generalizing p cs ts with
  | _ n ih =>
    subst hn
    obtain ⟨gap, more, rfl, hgap, hmore⟩ := exists_gap cs
    obtain ⟨rfl, rfl⟩ | ⟨c, more, rfl, hblank, hline, hblock⟩ := h.ends hgap hmore
    · rw [List.append_nil]
      exact hgap.scans
    obtain ⟨hscan, last, hcomma⟩ := h
    have hskip := (hgap.skipGap_append (p := p)).trans (skipGap_token hblank hline hblock)
    cases hs : scanToken c more with
    | error cause => cases (scanFrom_stuck hskip hs).symm.trans hscan
    | ok s =>
      obtain ⟨heq, hne⟩ := scanToken_eq hs
      have hlen := congrArg List.length heq
      have hpos := List.length_pos_iff.2 hne
      have htoken {z : Char} (hz : z ∈ closers) (w : List Char) :=
        scanFrom_token ((hgap.skipGap_append (p := p)).trans
          (skipGap_token_append hz hblank hline hblock w)) (scanToken_append hz hs w)
      rw [scanFrom_token hskip hs] at hscan
      obtain ⟨ts, hrest, rfl⟩ := ok_of_map hscan
      have hmore : Written ((p.advanceAll gap).advanceAll s.taken) s.rest ts := by
        obtain ⟨us, hus, heq⟩ := ok_of_map ((htoken (by decide : ',' ∈ closers) []).symm.trans
          (by simpa using hcomma))
        exact ⟨hrest, last, hus.trans (congrArg _ (List.cons.inj heq).2)⟩
      intro us hus
      have hplace : (p.advanceAll gap).advanceAll (c :: more) =
          ((p.advanceAll gap).advanceAll s.taken).advanceAll s.rest := by
        rw [heq, Position.advanceAll_append]
      rw [Position.advanceAll_append, hplace] at hus
      have hrun := ih s.rest.length (by simp at hlen ⊢; omega) hmore rfl us hus
      rw [List.append_assoc, List.cons_append, htoken hy rest, hrun]
      rfl

end StreamLang.Token
