import StreamLang.Grammar.Program

/-! What a program read from a text cannot hold: its grammar has no place for an import that is
exported. -/

namespace StreamLang.Grammar

variable {α β σ : Type} {P : α → Prop} {Q : β → Prop}

/-- What the reader gives, if it gives anything, is as `P` says. -/
def Gives (P : α → Prop) (x : Reader α) : Prop := ∀ ts a rest, x ts = .ok a rest → P a

namespace Gives

theorem pure {a : α} (h : P a) : Gives P (Pure.pure a : Reader α) := by
  rintro ts _ rest ⟨⟩
  exact h

theorem throw (want : Want) : Gives P (MonadExcept.throw want : Reader α) := by
  rintro ts a rest ⟨⟩

theorem any (x : Reader α) : Gives (fun _ => True) x := fun _ _ _ _ => trivial

theorem bind {x : Reader α} {f : α → Reader β} (hx : Gives P x) (hf : ∀ a, P a → Gives Q (f a)) :
    Gives Q (x >>= f) := by
  intro ts b rest hrun
  change EStateM.bind x f ts = .ok b rest at hrun
  unfold EStateM.bind at hrun
  split at hrun
  case h_1 a mid hmid => exact hf a (hx ts a mid hmid) mid b rest hrun
  case h_2 => cases hrun

/-- What is read first does not matter. -/
theorem next {x : Reader α} {f : α → Reader β} (hf : ∀ a, Gives Q (f a)) : Gives Q (x >>= f) :=
  .bind (.any x) fun a _ => hf a

/-- The rounds of a loop keep `I`, and a round that ends it gives what `P` says. -/
theorem loop {I : σ → Prop} {round : σ → Reader (Round σ α)}
    (hround : ∀ s, I s → Gives (fun r => (∀ s', r = .again s' → I s') ∧ ∀ a, r = .done a → P a)
      (round s)) {s : σ} (hs : I s) : Gives P (loop round s) := by
  have hbounded : ∀ n s, I s → Gives P (loopFor round n s) := by
    intro n
    induction n with
    | zero => exact fun _ _ => .throw _
    | succ n ih =>
      intro s hs
      refine .bind (hround s hs) fun r hr => ?_
      cases r with
      | again s' => exact ih s' (hr.1 s' rfl)
      | done a => exact .pure (hr.2 a rfl)
  exact .next fun ts => hbounded _ s hs

end Gives

/-- An import is read only where nothing is exported. -/
theorem itemKind_gives (exported : Bool) (span : Span) :
    Gives (fun kind => ∀ d, kind = .imports d → exported = false) (itemKind exported span) := by
  have hotherwise : Gives (fun kind => ∀ d, kind = .imports d → exported = false)
      (if exported then wanted "declaration after `export`"
        else do
          let e ← expression
          let _ ← accept .semicolon
          return ItemKind.expr e) := by
    split
    · exact .throw _
    · exact .next fun _ => .next fun _ => .pure nofun
  refine .next fun next => ?_
  split
  · exact .throw _
  · split
    · exact .throw _
    case isFalse hexported =>
      exact .next fun _ => .next fun _ => .pure fun _ _ => Bool.eq_false_iff.2 hexported
  · exact .next fun _ => .next fun _ => .pure nofun
  · refine .next fun opens => ?_
    split
    · exact .next fun _ => .next fun _ => .next fun _ => .pure nofun
    · exact hotherwise
  · exact .next fun _ => .next fun _ => .pure nofun
  · exact .next fun _ => .next fun _ => .pure nofun
  · exact .next fun _ => .next fun _ => .pure nofun
  · exact .next fun _ => .next fun _ => .next fun _ => .next fun _ => .pure nofun
  · exact hotherwise

theorem item_gives : Gives (fun i => i.isImport = true → i.exported = false) item := by
  refine .next fun span => .next fun exported => .bind (itemKind_gives exported span) ?_
  intro kind hkind
  refine .pure fun himport => ?_
  cases kind with
  | imports d => exact hkind d rfl
  | _ => cases himport

theorem items_gives :
    Gives (fun is : List Item => ∀ i ∈ is, i.isImport = true → i.exported = false) items := by
  refine .loop (I := fun acc : List Item => ∀ i ∈ acc, i.isImport = true → i.exported = false)
    (fun acc hacc => ?_) (List.forall_mem_nil _)
  refine .next fun ts => ?_
  have hagain : ∀ acc' : List Item, (∀ i ∈ acc', i.isImport = true → i.exported = false) →
      Gives (fun r => (∀ s', r = Round.again s' → ∀ i ∈ s', i.isImport = true → i.exported = false) ∧
        ∀ a, r = Round.done a → ∀ i ∈ a, i.isImport = true → i.exported = false)
        (Pure.pure (Round.again acc') : Reader (Round (List Item) (List Item))) :=
    fun acc' hacc' => .pure ⟨by rintro _ ⟨⟩; exact hacc', nofun⟩
  split
  · exact .pure ⟨nofun, by rintro _ ⟨⟩; exact fun i hi => hacc i (List.mem_reverse.1 hi)⟩
  · refine .next fun semicolon => ?_
    split
    · exact hagain acc hacc
    · exact .bind item_gives fun i hi => hagain _ (List.forall_mem_cons.2 ⟨hi, hacc⟩)

end StreamLang.Grammar

namespace StreamLang

/-- The program was read from a text. -/
def Program.Written (p : Program) : Prop := ∃ source, Program.ofSource source = .ok p

/-- Its items are read from the tokens of the text. -/
theorem Program.items_of_ofSource {source : String} {p : Program}
    (h : Program.ofSource source = .ok p) : ∃ tokens rest,
      Token.scan source = .ok tokens ∧ Grammar.items tokens = .ok p.items rest := by
  unfold Program.ofSource Grammar.readSource at h
  cases hscan : Token.scan source with
  | error e =>
    rw [hscan] at h
    cases h
  | ok tokens =>
    simp only [hscan] at h
    cases hitems : Grammar.items tokens with
    | error want rest =>
      simp only [hitems] at h
      cases h
    | ok items rest =>
      simp only [hitems] at h
      cases h
      exact ⟨tokens, rest, rfl, hitems⟩

/-- A program read from a text exports only what it declares itself. -/
theorem Program.Written.not_import {p : Program} (h : p.Written) {i : Item} (hi : i ∈ p.items)
    (hexported : i.exported = true) : i.isImport = false := by
  obtain ⟨source, hsource⟩ := h
  obtain ⟨tokens, rest, -, hitems⟩ := items_of_ofSource hsource
  refine Bool.eq_false_iff.2 fun himport => ?_
  rw [Grammar.items_gives tokens p.items rest hitems i hi himport] at hexported
  cases hexported

end StreamLang
