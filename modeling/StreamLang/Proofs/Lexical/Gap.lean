import StreamLang.Token.Scan

/-! What stands between two tokens: white space and complete comments. Every text is such a gap
followed by something that no gap begins with, and skipping stops there. -/

namespace StreamLang.Token

/-- White space and complete comments. -/
inductive IsGap : List Char → Prop
  | nil : IsGap []
  | blank {c : Char} {cs : List Char} : Text.isBlank c = true → IsGap cs → IsGap (c :: cs)
  | line {body cs : List Char} : '\n' ∉ body → IsGap cs → IsGap ('/' :: '/' :: (body ++ '\n' :: cs))
  | block {body cs : List Char} : ¬ ['*', '/'] <:+: body → IsGap cs →
      IsGap ('/' :: '*' :: (body ++ '*' :: '/' :: cs))

/-- What stands behind a gap. -/
inductive EndsGap : List Char → Prop
  | atEnd : EndsGap []
  /-- A line comment that ends with the text. -/
  | lastLine {body : List Char} : '\n' ∉ body → EndsGap ('/' :: '/' :: body)
  | openBlock {body : List Char} : ¬ ['*', '/'] <:+: body → EndsGap ('/' :: '*' :: body)
  | token {c : Char} {cs : List Char} : Text.isBlank c = false →
      (∀ more, c :: cs ≠ '/' :: '/' :: more) →
      (∀ more, c :: cs ≠ '/' :: '*' :: more) → EndsGap (c :: cs)

/-! Skipping -/

section Skip

variable {p : Position} {body rest : List Char}

-- Each equation below holds by computation. The generated equations of `skipGap` are not used: its
-- overlapping patterns make them slow to derive.

theorem skipGap_nil : skipGap .blanks p [] = some (p, []) := rfl

theorem skipGap_slash_slash : skipGap .blanks p ('/' :: '/' :: rest) =
    skipGap .lineComment ((p.advance '/').advance '/') rest := rfl

theorem skipGap_slash_star : skipGap .blanks p ('/' :: '*' :: rest) =
    skipGap .blockComment ((p.advance '/').advance '*') rest := rfl

theorem skipGap_lineComment_cons (c : Char) : skipGap .lineComment p (c :: rest) =
    skipGap (if c = '\n' then .blanks else .lineComment) (p.advance c) rest := rfl

theorem skipGap_blank {c : Char} (h : Text.isBlank c = true) :
    skipGap .blanks p (c :: rest) = skipGap .blanks (p.advance c) rest := by
  have hc : c ≠ '/' := by rintro rfl; cases h
  rw [skipGap.eq_def]
  split <;> simp_all

theorem skipGap_token {c : Char} (h : Text.isBlank c = false)
    (hline : ∀ more, c :: rest ≠ '/' :: '/' :: more)
    (hblock : ∀ more, c :: rest ≠ '/' :: '*' :: more) :
    skipGap .blanks p (c :: rest) = some (p, c :: rest) := by
  rw [skipGap.eq_def]
  split <;> simp_all

theorem skipGap_lineComment (h : '\n' ∉ body) :
    skipGap .lineComment p (body ++ '\n' :: rest) =
      skipGap .blanks (p.advanceAll (body ++ ['\n'])) rest := by
  induction body generalizing p with
  | nil => rfl
  | cons c body ih =>
    have hc : c ≠ '\n' := fun hc => h (by simp [hc])
    rw [List.cons_append, skipGap_lineComment_cons, if_neg hc, ih fun hb => h (by simp [hb])]
    rfl

theorem skipGap_lastLine (h : '\n' ∉ body) :
    skipGap .lineComment p body = some (p.advanceAll body, []) := by
  induction body generalizing p with
  | nil => rfl
  | cons c body ih =>
    have hc : c ≠ '\n' := fun hc => h (by simp [hc])
    rw [skipGap_lineComment_cons, if_neg hc, ih fun hb => h (by simp [hb])]
    rfl

/-- In a text without the closing marks each character is skipped by itself. -/
theorem skipGap_blockComment_cons {c : Char} (h : ¬ ['*', '/'] <+: c :: rest) :
    skipGap .blockComment p (c :: rest) = skipGap .blockComment (p.advance c) rest := by
  rw [skipGap.eq_def]
  split <;> simp_all

theorem skipGap_blockComment (h : ¬ ['*', '/'] <:+: body) :
    skipGap .blockComment p (body ++ '*' :: '/' :: rest) =
      skipGap .blanks (p.advanceAll (body ++ ['*', '/'])) rest := by
  induction body generalizing p with
  | nil => rfl
  | cons c body ih =>
    rw [List.infix_cons_iff, not_or] at h
    have hopen : ¬ ['*', '/'] <+: c :: (body ++ '*' :: '/' :: rest) := by
      cases body with
      | nil => simp
      | cons d body => simpa using h.1
    rw [List.cons_append, skipGap_blockComment_cons hopen, ih h.2]
    rfl

theorem skipGap_openBlock (h : ¬ ['*', '/'] <:+: body) : skipGap .blockComment p body = none := by
  induction body generalizing p with
  | nil => rfl
  | cons c body ih =>
    rw [List.infix_cons_iff, not_or] at h
    rw [skipGap_blockComment_cons h.1, ih h.2]

/-- A gap is skipped as a whole. -/
theorem IsGap.skipGap_append {gap : List Char} (h : IsGap gap) :
    skipGap .blanks p (gap ++ rest) = skipGap .blanks (p.advanceAll gap) rest := by
  induction h generalizing p with
  | nil => rfl
  | blank hc _ ih => exact (skipGap_blank hc).trans ih
  | @line body cs hb _ ih =>
    simp only [List.cons_append, List.append_assoc]
    rw [skipGap_slash_slash, skipGap_lineComment hb, ih]
    simp [Position.advanceAll_append]
  | @block body cs hb _ ih =>
    simp only [List.cons_append, List.append_assoc]
    rw [skipGap_slash_star, skipGap_blockComment hb, ih]
    simp [Position.advanceAll_append]

end Skip

/-! Where the gap at the front of a text ends -/

/-- The first place where the closing marks stand. -/
theorem exists_first_close {cs : List Char} (h : ['*', '/'] <:+: cs) :
    ∃ body rest, ¬ ['*', '/'] <:+: body ∧ cs = body ++ '*' :: '/' :: rest := by
  induction cs with
  | nil => simp at h
  | cons c cs ih =>
    by_cases hhere : ['*', '/'] <+: c :: cs
    · obtain ⟨rest, hrest⟩ := hhere
      exact ⟨[], rest, by simp, by simpa using hrest.symm⟩
    · obtain ⟨body, rest, hb, rfl⟩ := ih ((List.infix_cons_iff.1 h).resolve_left hhere)
      refine ⟨c :: body, rest, ?_, rfl⟩
      rw [List.infix_cons_iff, not_or]
      refine ⟨fun hpre => hhere ?_, hb⟩
      exact hpre.trans (by simp)

/-- Every text is a gap and what ends it. -/
theorem exists_gap (cs : List Char) : ∃ gap rest, cs = gap ++ rest ∧ IsGap gap ∧ EndsGap rest := by
  induction hn : cs.length using Nat.strongRecOn generalizing cs with
  | _ n ih =>
    subst hn
    by_cases hline : ∃ more, cs = '/' :: '/' :: more
    · obtain ⟨more, rfl⟩ := hline
      by_cases hend : '\n' ∈ more
      · obtain ⟨body, after, rfl, hb⟩ := List.eq_append_cons_of_mem hend
        obtain ⟨gap, rest, rfl, hgap, hrest⟩ := ih after.length (by simp; omega) after rfl
        exact ⟨_, rest, by simp, .line hb hgap, hrest⟩
      · exact ⟨[], _, rfl, .nil, .lastLine hend⟩
    by_cases hblock : ∃ more, cs = '/' :: '*' :: more
    · obtain ⟨more, rfl⟩ := hblock
      by_cases hend : ['*', '/'] <:+: more
      · obtain ⟨body, after, hb, rfl⟩ := exists_first_close hend
        obtain ⟨gap, rest, rfl, hgap, hrest⟩ := ih after.length (by simp; omega) after rfl
        exact ⟨_, rest, by simp, .block hb hgap, hrest⟩
      · exact ⟨[], _, rfl, .nil, .openBlock hend⟩
    cases cs with
    | nil => exact ⟨[], [], rfl, .nil, .atEnd⟩
    | cons c more =>
      cases hc : Text.isBlank c with
      | true =>
        obtain ⟨gap, rest, rfl, hgap, hrest⟩ := ih more.length (by simp) more rfl
        exact ⟨c :: gap, rest, rfl, .blank hc hgap, hrest⟩
      | false =>
        exact ⟨[], _, rfl, .nil,
          .token hc (fun more h => hline ⟨more, h⟩) fun more h => hblock ⟨more, h⟩⟩

/-- Skipping ends where the gap at the front ends, or in a line comment at the end of the text; only
a block comment without an end is not skipped. -/
theorem skipGap_cases (p : Position) (cs : List Char) :
    ∃ gap rest, cs = gap ++ rest ∧ IsGap gap ∧
      match skipGap .blanks p cs with
      | none => ∃ body, rest = '/' :: '*' :: body ∧ ¬ ['*', '/'] <:+: body
      | some (_, []) => rest = [] ∨ ∃ body, rest = '/' :: '/' :: body ∧ '\n' ∉ body
      | some (start, c :: more) => start = p.advanceAll gap ∧ rest = c :: more ∧ EndsGap rest := by
  obtain ⟨gap, rest, rfl, hgap, hrest⟩ := exists_gap cs
  refine ⟨gap, rest, rfl, hgap, ?_⟩
  rw [hgap.skipGap_append]
  cases hrest with
  | atEnd => exact .inl rfl
  | lastLine hb =>
    rw [skipGap_slash_slash, skipGap_lastLine hb]
    exact .inr ⟨_, rfl, hb⟩
  | openBlock hb =>
    rw [skipGap_slash_star, skipGap_openBlock hb]
    exact ⟨_, rfl, hb⟩
  | token hc hline hblock =>
    rw [skipGap_token hc hline hblock]
    exact ⟨rfl, rfl, .token hc hline hblock⟩

end StreamLang.Token
