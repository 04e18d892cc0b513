import StreamLang.Grammar.Basic

/-! Reading in front of a closing mark. What a reader takes from some tokens it takes from them in
front of a tail too, if the tail begins with a mark that ends an expression. There are two exceptions,
and neither is followed by a success that uses the tokens up: a brace is left that nothing closes, or
the tokens are used up although the reader goes on. -/

namespace StreamLang.Grammar

/-- The marks that go on with a list or end a bracket. -/
def closingMarks : List Punct := [.comma, .rparen, .rbracket, .rbrace]

/-- Tokens with which no expression goes on: none, or a closing mark first. -/
def EndsExpr (tail : List Token) : Prop :=
  ∀ t more, tail = t :: more → ∃ mark ∈ closingMarks, t.kind = .symbol mark

def opened (ts : List Token) : Nat := ts.countP (·.kind = .symbol .lbrace)

def closed (ts : List Token) : Nat := ts.countP (·.kind = .symbol .rbrace)

/-- A brace stands first, and none is closed. -/
def Unclosed (ts : List Token) : Prop :=
  (∃ t more, ts = t :: more ∧ t.kind = .symbol .lbrace) ∧ closed ts = 0

/-- What a reader owes with each result: how many more braces it closes than it opens, and whether it
has to go on. -/
structure Due (α : Type) where
  braces : α → Nat
  unfinished : α → Prop

namespace Due

variable {σ α : Type}

/-- So many braces to close, whatever the result. -/
def const (n : Nat) : Due α := ⟨fun _ => n, fun _ => False⟩

/-- As many braces are closed as opened. -/
abbrev none : Due α := const 0

/-- A round of a loop closes the braces only when it is the last one. -/
def round (n : Nat) (unfinished : σ → Prop) : Due (Round σ α) where
  braces
    | .again _ => 0
    | .done _ => n
  unfinished
    | .again s => unfinished s
    | .done _ => False

/-- What is due when some braces have been closed. -/
def less (d : Due α) (n : Nat) : Due α := ⟨fun a => d.braces a - n, d.unfinished⟩

/-- What is due behind a token. -/
def after (d : Due α) : TokenKind → Due α
  | .symbol .lbrace => ⟨fun a => d.braces a + 1, d.unfinished⟩
  | .symbol .rbrace => d.less 1
  | _ => d

/-- The braces that a mark closes. -/
def ofMark : Punct → Nat
  | .rbrace => 1
  | _ => 0

/-- A loop ends with its mark. -/
theorem round_after_close {close : Punct} (h : close ≠ .lbrace) (u : σ → Prop) (a : α) :
    ((round (ofMark close) u).after (.symbol close)).braces (.done a) = 0 := by
  cases close <;> first | rfl | exact absurd rfl h

theorem after_unfinished (d : Due α) (kind : TokenKind) : (d.after kind).unfinished = d.unfinished := by
  unfold after
  split <;> rfl

theorem after_braces (d : Due α) (t : Token) (a : α) :
    d.braces a + opened [t] ≤ (d.after t.kind).braces a + closed [t] := by
  unfold after
  split
  · simp [opened, closed, *]
  · simp [opened, closed, less, *]
    omega
  · rename_i hl _
    have hl : t.kind ≠ .symbol .lbrace := hl
    simp [opened, hl]

end Due

/-- What `r` reads from `ts`, `r'` reads from them in front of each tail. -/
def ExtendsAt {α : Type} (d : Due α) (r r' : Reader α) (ts : List Token) : Prop :=
  ∀ a rest, r ts = .ok a rest →
    (∃ own, ts = own ++ rest ∧ opened own + d.braces a ≤ closed own) ∧
    ∀ tail, EndsExpr tail → r' (ts ++ tail) = .ok a (rest ++ tail) ∨
      tail ≠ [] ∧ (Unclosed rest ∨ rest = [] ∧ d.unfinished a)

def Extends {α : Type} (d : Due α) (r r' : Reader α) : Prop := ∀ ts, ExtendsAt d r r' ts

/-- Nothing can be read where no token is left. -/
def Hungry {α : Type} (r : Reader α) : Prop := ∀ a rest, r [] ≠ .ok a rest

/-! Running readers -/

section Run

variable {α β : Type} {r : Reader α} {f : α → Reader β} {ts rest : List Token}

theorem bind_of_ok {a : α} (h : r ts = .ok a rest) : (r >>= f) ts = f a rest := by
  change EStateM.bind r f ts = _
  simp only [EStateM.bind, h]

theorem bind_ok {b : β} (h : (r >>= f) ts = .ok b rest) :
    ∃ a mid, r ts = .ok a mid ∧ f a mid = .ok b rest := by
  cases hr : r ts with
  | ok a mid => exact ⟨a, mid, rfl, (bind_of_ok hr).symm.trans h⟩
  | error e mid =>
    change EStateM.bind r f ts = _ at h
    simp only [EStateM.bind, hr] at h
    cases h

theorem Hungry.bind (h : Hungry r) : Hungry (r >>= f) := by
  intro b rest hb
  obtain ⟨a, mid, ha, -⟩ := bind_ok hb
  exact h a mid ha

theorem peek_cons (kind : TokenKind) (t : Token) (more : List Token) :
    (do return (← peek) == some kind : Reader Bool) (t :: more) =
      if t.kind = kind then .ok true (t :: more) else .ok false (t :: more) := by
  have h : (do return (← peek) == some kind : Reader Bool) (t :: more) =
      .ok (some t.kind == some kind) (t :: more) := rfl
  by_cases hk : t.kind = kind <;> simp [h, hk]

theorem nextIs_cons (mark : Punct) (t : Token) (more : List Token) : nextIs mark (t :: more) =
    if t.kind = .symbol mark then .ok true (t :: more) else .ok false (t :: more) :=
  peek_cons _ t more

theorem nextIsWord_cons (word : Keyword) (t : Token) (more : List Token) :
    nextIsWord word (t :: more) =
      if t.kind = .keyword word then .ok true (t :: more) else .ok false (t :: more) :=
  peek_cons _ t more

theorem accept_cons (mark : Punct) (t : Token) (more : List Token) : accept mark (t :: more) =
    if t.kind = .symbol mark then .ok true more else .ok false (t :: more) := by
  unfold accept
  by_cases hk : t.kind = .symbol mark
  · rw [bind_of_ok ((nextIs_cons mark t more).trans (if_pos hk)), if_pos hk]
    rfl
  · rw [bind_of_ok ((nextIs_cons mark t more).trans (if_neg hk)), if_neg hk]
    rfl

theorem acceptWord_cons (word : Keyword) (t : Token) (more : List Token) :
    acceptWord word (t :: more) =
      if t.kind = .keyword word then .ok true more else .ok false (t :: more) := by
  unfold acceptWord
  by_cases hk : t.kind = .keyword word
  · rw [bind_of_ok ((nextIsWord_cons word t more).trans (if_pos hk)), if_pos hk]
    rfl
  · rw [bind_of_ok ((nextIsWord_cons word t more).trans (if_neg hk)), if_neg hk]
    rfl

theorem expect_nil {α : Type} (mark : Punct) (f : Unit → Reader α) :
    (expect mark >>= f) [] = .error (.symbol mark) [] := rfl

theorem expect_cons (mark : Punct) (t : Token) (more : List Token) : expect mark (t :: more) =
    if t.kind = .symbol mark then .ok () more else .error (.symbol mark) (t :: more) := by
  unfold expect
  by_cases hk : t.kind = .symbol mark
  · rw [bind_of_ok ((accept_cons mark t more).trans (if_pos hk)), if_pos hk]
    rfl
  · rw [bind_of_ok ((accept_cons mark t more).trans (if_neg hk)), if_neg hk]
    rfl

end Run

/-! Counting braces -/

section Count

variable {ts us : List Token}

theorem opened_append : opened (ts ++ us) = opened ts + opened us := List.countP_append

theorem closed_append : closed (ts ++ us) = closed ts + closed us := List.countP_append

/-- What takes balanced braces takes nothing where a brace stays open. -/
theorem Unclosed.eq_nil {own : List Token} (h : Unclosed (own ++ ts)) (hown : opened own ≤ closed own) :
    own = [] := by
  obtain ⟨⟨t, more, heq, ht⟩, hclosed⟩ := h
  cases own with
  | nil => rfl
  | cons s own =>
    obtain ⟨rfl, -⟩ : s = t ∧ own ++ ts = more := by simpa using heq
    have hopen : opened (s :: own) = opened own + 1 := List.countP_cons_of_pos (by simp [ht])
    rw [closed_append] at hclosed
    omega

end Count

/-! How the readers compose -/

section Rules

variable {σ α β : Type} {d : Due α} {r r' : Reader α}

theorem Extends.pure {a : α} (h : d.braces a = 0) : Extends d (pure a) (Pure.pure a) := by
  rintro ts _ _ ⟨⟩
  exact ⟨⟨[], rfl, by simp [opened, h]⟩, fun _ _ => .inl rfl⟩

theorem Extends.throw (e : Want) : Extends d (throw e) r' := by
  rintro ts _ _ ⟨⟩

theorem ExtendsAt.ite {c : Prop} [Decidable c] {s s' : Reader α} {ts : List Token}
    (hr : ExtendsAt d r r' ts) (hs : ExtendsAt d s s' ts) :
    ExtendsAt d (if c then r else s) (if c then r' else s') ts := by
  split <;> assumption

theorem Extends.ite {c : Prop} [Decidable c] {s s' : Reader α} (hr : Extends d r r')
    (hs : Extends d s s') : Extends d (if c then r else s) (if c then r' else s') :=
  fun ts => (hr ts).ite (hs ts)

theorem ExtendsAt.bind {e : Due β} {f f' : β → Reader α} {s s' : Reader β} {ts : List Token}
    (hs : ExtendsAt e s s' ts) (hf : ∀ b, Extends (d.less (e.braces b)) (f b) (f' b))
    (hu : ∀ b, e.unfinished b → Hungry (f b)) : ExtendsAt d (s >>= f) (s' >>= f') ts := by
  intro a rest h
  obtain ⟨b, mid, hb, ha⟩ := bind_ok h
  obtain ⟨⟨own, rfl, hown⟩, hs⟩ := hs b mid hb
  obtain ⟨⟨more, rfl, hmore⟩, hf⟩ := hf b mid a rest ha
  have hless : (d.less (e.braces b)).braces a = d.braces a - e.braces b := rfl
  refine ⟨⟨own ++ more, by simp, ?_⟩, fun tail htail => ?_⟩
  · rw [opened_append, closed_append]
    omega
  · obtain hb' | ⟨htail', hopen | ⟨hmid, hb'⟩⟩ := hs tail htail
    · rw [bind_of_ok hb']
      exact hf tail htail
    · obtain rfl := hopen.eq_nil (by omega)
      exact .inr ⟨htail', .inl hopen⟩
    · exact absurd (hmid ▸ ha) (hu b hb' a rest)

theorem Extends.bind_due {n : Nat} {f f' : β → Reader α} {s s' : Reader β}
    (hs : Extends (.const n) s s') (hf : ∀ b, Extends (d.less n) (f b) (f' b)) :
    Extends d (s >>= f) (s' >>= f') :=
  fun ts => (hs ts).bind hf fun _ => False.elim

theorem Extends.bind {f f' : β → Reader α} {s s' : Reader β} (hs : Extends .none s s')
    (hf : ∀ b, Extends d (f b) (f' b)) : Extends d (s >>= f) (s' >>= f') :=
  hs.bind_due hf

theorem Extends.map {f : α → β} (h : Extends .none r r') : Extends .none (f <$> r) (f <$> r') := by
  rw [map_eq_pure_bind, map_eq_pure_bind]
  exact h.bind fun _ => .pure rfl

theorem ExtendsAt.congr {s s' : Reader α} {ts : List Token} (hs : ExtendsAt d s s' ts)
    (hr : r ts = s ts) (hr' : ∀ tail, r' (ts ++ tail) = s' (ts ++ tail)) : ExtendsAt d r r' ts := by
  intro a rest h
  simp only [hr']
  exact hs a rest (hr ▸ h)

/-- Behind the first token. -/
theorem ExtendsAt.take {t : Token} {more : List Token} {s s' : Reader α}
    (hs : ExtendsAt (d.after t.kind) s s' more) (hr : r (t :: more) = s more)
    (hr' : ∀ tail, r' (t :: (more ++ tail)) = s' (more ++ tail)) : ExtendsAt d r r' (t :: more) := by
  intro a rest h
  obtain ⟨⟨own, rfl, hown⟩, hs⟩ := hs a rest (hr ▸ h)
  refine ⟨⟨t :: own, rfl, ?_⟩, fun tail htail => ?_⟩
  · have ht := d.after_braces t a
    have hcons : t :: own = [t] ++ own := rfl
    rw [hcons, opened_append, closed_append]
    omega
  · rw [List.cons_append, hr', ← d.after_unfinished t.kind]
    exact hs tail htail

/-- The first token tells what to do, and there has to be one. -/
theorem Extends.of_cons (hnil : Hungry r) (h : ∀ t more, ExtendsAt d r r' (t :: more)) :
    Extends d r r' := by
  rintro (_ | ⟨t, more⟩)
  · exact fun a rest hr => absurd hr (hnil a rest)
  · exact h t more

theorem Extends.notEmpty {what : String} (h : Extends d r r') :
    Extends d (do if (← get).isEmpty then wanted what else r)
      (do if (← get).isEmpty then wanted what else r') :=
  .of_cons (by rintro _ _ ⟨⟩) fun t more => h (t :: more)

theorem Extends.nextSpan {k k' : Span → Reader α} (h : ∀ span, Extends d (k span) (k' span))
    (hnil : ∀ span, k span [] = k .none []) : Extends d (nextSpan >>= k) (nextSpan >>= k') := by
  rintro (_ | ⟨t, more⟩)
  · intro a rest hr
    refine ⟨(h .none [] a rest hr).1, fun tail htail => ?_⟩
    cases tail with
    | nil => exact (h .none [] a rest hr).2 [] htail
    | cons t tail => exact (h t.span [] a rest ((hnil _).trans hr)).2 _ htail
  · exact h t.span (t :: more)

/-- A question about the next token, whose answer decides how to go on. -/
theorem Extends.ask (kind : TokenKind) {q : Reader Bool} {s s' : Reader α} (hq : q [] = .ok false [])
    (hno : ∀ t us, t.kind ≠ kind → q (t :: us) = .ok false (t :: us))
    (hyes : ∀ t more, t.kind = kind → ExtendsAt d (q >>= fun b => if b = true then r else s)
      (q >>= fun b => if b = true then r' else s') (t :: more))
    (hs : Extends d s s')
    (hnil : (∃ mark ∈ closingMarks, kind = .symbol mark) →
      ∀ a rest, s [] = .ok a rest → d.unfinished a) :
    Extends d (q >>= fun b => if b = true then r else s)
      (q >>= fun b => if b = true then r' else s') := by
  rintro (_ | ⟨t, more⟩)
  · intro a rest h
    rw [bind_of_ok hq] at h
    refine ⟨(hs [] a rest h).1, fun tail htail => ?_⟩
    cases tail with
    | nil => exact bind_of_ok hq ▸ (hs [] a rest h).2 [] htail
    | cons t tail =>
      by_cases ht : t.kind = kind
      · obtain ⟨mark, hmark, hkind⟩ := htail t tail rfl
        obtain ⟨own, heq, -⟩ := (hs [] a rest h).1
        exact .inr ⟨by simp, .inr ⟨(List.append_eq_nil_iff.1 heq.symm).2,
          hnil ⟨mark, hmark, ht ▸ hkind⟩ a rest h⟩⟩
      · rw [List.nil_append, bind_of_ok (hno t tail ht)]
        exact (hs [] a rest h).2 _ htail
  · by_cases ht : t.kind = kind
    · exact hyes t more ht
    · exact (hs _).congr (bind_of_ok (hno t more ht)) fun tail => bind_of_ok (hno t _ ht)

theorem Extends.accept {mark : Punct} {s s' : Reader α} (hr : Extends (d.after (.symbol mark)) r r')
    (hs : Extends d s s')
    (hnil : mark ∈ closingMarks → ∀ a rest, s [] = .ok a rest → d.unfinished a) :
    Extends d (accept mark >>= fun b => if b = true then r else s)
      (Grammar.accept mark >>= fun b => if b = true then r' else s') := by
  refine .ask (.symbol mark) rfl (fun t us ht => (accept_cons mark t us).trans (if_neg ht))
    (fun t more ht => ?_) hs ?_
  · refine ExtendsAt.take (ht ▸ hr more) ?_ fun tail => ?_ <;>
      rw [bind_of_ok ((accept_cons mark t _).trans (if_pos ht)), if_pos rfl]
  · rintro ⟨_, hmark, ⟨⟩⟩
    exact hnil hmark

theorem Extends.accept_open {mark : Punct} {s s' : Reader α} (hmark : mark ∉ closingMarks)
    (hr : Extends (d.after (.symbol mark)) r r') (hs : Extends d s s') :
    Extends d (Grammar.accept mark >>= fun b => if b = true then r else s)
      (Grammar.accept mark >>= fun b => if b = true then r' else s') :=
  hr.accept hs fun h => absurd h hmark

/-- A mark that may be left out. -/
theorem Extends.accept_skip {mark : Punct} (hr : Extends (d.after (.symbol mark)) r r')
    (hs : Extends d r r') (hnil : Hungry r) :
    Extends d (Grammar.accept mark >>= fun _ => r) (Grammar.accept mark >>= fun _ => r') := by
  simpa only [ite_self] using hr.accept hs fun _ a rest h => absurd h (hnil a rest)

theorem Extends.nextIs {mark : Punct} {s s' : Reader α} (hr : Extends d r r') (hs : Extends d s s')
    (hnil : mark ∈ closingMarks → ∀ a rest, s [] = .ok a rest → d.unfinished a) :
    Extends d (nextIs mark >>= fun b => if b = true then r else s)
      (Grammar.nextIs mark >>= fun b => if b = true then r' else s') := by
  refine .ask (.symbol mark) rfl (fun t us ht => (nextIs_cons mark t us).trans (if_neg ht))
    (fun t more ht => ?_) hs ?_
  · refine (hr _).congr ?_ fun tail => ?_ <;>
      exact bind_of_ok ((nextIs_cons mark t _).trans (if_pos ht))
  · rintro ⟨_, hmark, ⟨⟩⟩
    exact hnil hmark

theorem Extends.acceptWord {word : Keyword} {s s' : Reader α} (hr : Extends d r r')
    (hs : Extends d s s') :
    Extends d (acceptWord word >>= fun b => if b = true then r else s)
      (Grammar.acceptWord word >>= fun b => if b = true then r' else s') := by
  refine .ask (.keyword word) rfl (fun t us ht => (acceptWord_cons word t us).trans (if_neg ht))
    (fun t more ht => ?_) hs ?_
  · refine ExtendsAt.take (by rw [ht]; exact hr more) ?_ fun tail => ?_ <;>
      rw [bind_of_ok ((acceptWord_cons word t _).trans (if_pos ht)), if_pos rfl]
  · rintro ⟨_, _, ⟨⟩⟩

theorem Extends.nextIsWord {word : Keyword} {s s' : Reader α}
    (hr : ∀ t more, t.kind = .keyword word → ExtendsAt d r r' (t :: more)) (hs : Extends d s s') :
    Extends d (nextIsWord word >>= fun b => if b = true then r else s)
      (Grammar.nextIsWord word >>= fun b => if b = true then r' else s') := by
  refine .ask (.keyword word) rfl (fun t us ht => (nextIsWord_cons word t us).trans (if_neg ht))
    (fun t more ht => ?_) hs ?_
  · refine (hr t more ht).congr ?_ fun tail => ?_ <;>
      exact bind_of_ok ((nextIsWord_cons word t _).trans (if_pos ht))
  · rintro ⟨_, _, ⟨⟩⟩

theorem Hungry.expect {mark : Punct} {f : Unit → Reader α} : Hungry (expect mark >>= f) :=
  Hungry.bind (fun a rest h => by cases h)

theorem Extends.expect {mark : Punct} {f f' : Unit → Reader α}
    (h : Extends (d.after (.symbol mark)) (f ()) (f' ())) :
    Extends d (expect mark >>= f) (Grammar.expect mark >>= f') := by
  refine .of_cons .expect fun t more => ?_
  by_cases ht : t.kind = .symbol mark
  · refine ExtendsAt.take (ht ▸ h more) ?_ fun tail => ?_ <;>
      rw [bind_of_ok ((expect_cons mark t _).trans (if_pos ht))]
  · intro a rest hr
    obtain ⟨_, _, hu, -⟩ := bind_ok hr
    rw [expect_cons, if_neg ht] at hu
    cases hu

/-! Budgets and loops -/

theorem Extends.withLength {f f' : Nat → Reader α}
    (h : ∀ {i i' : Nat}, i ≤ i' → Extends d (f i) (f' i')) :
    Extends d (do f ((← get).length + 1)) (do f' ((← get).length + 1)) := by
  intro ts a rest hr
  refine ⟨(h (Nat.le_refl (ts.length + 1)) ts a rest hr).1, fun tail htail => ?_⟩
  have hlen : ts.length + 1 ≤ (ts ++ tail).length + 1 := by simp
  exact (h hlen ts a rest hr).2 tail htail

theorem Extends.loopFor {n : Nat} {u : σ → Prop} {round round' : σ → Reader (Round σ α)}
    (h : ∀ s, Extends (.round n u) (round s) (round' s)) (hu : ∀ s, u s → Hungry (round s)) {k k' : Nat}
    (hk : k ≤ k') (s : σ) : Extends (.const n) (loopFor round k s) (Grammar.loopFor round' k' s) := by
  induction k generalizing k' s with
  | zero => exact .throw _
  | succ k ih =>
    obtain ⟨k', rfl⟩ := Nat.exists_eq_succ_of_ne_zero (by omega : k' ≠ 0)
    refine fun ts => (h s ts).bind (fun next => ?_) fun next hnext => ?_
    · cases next with
      | again s => exact ih (by omega) s
      | done a => exact .pure (Nat.sub_self n)
    · cases next with
      | again s =>
        cases k with
        | zero => exact fun a rest h => by cases h
        | succ k => exact (hu s hnext).bind
      | done a => exact hnext.elim

theorem Extends.loop {n : Nat} {u : σ → Prop} {round round' : σ → Reader (Round σ α)}
    (h : ∀ s, Extends (.round n u) (round s) (round' s)) (hu : ∀ s, u s → Hungry (round s)) (s : σ) :
    Extends (.const n) (loop round s) (Grammar.loop round' s) :=
  .withLength fun hi => .loopFor h hu hi s

theorem Extends.listUntil {close : Punct} {item item' : Reader α} (hclose : close ≠ .lbrace)
    (h : Extends .none item item') (hnil : Hungry item) :
    Extends (.const (Due.ofMark close)) (listUntil close item) (Grammar.listUntil close item') := by
  refine .loop (u := fun _ => False) (fun as => ?_) (fun _ => False.elim) []
  refine .accept (.pure (Due.round_after_close hclose ..)) (.bind h fun a => ?_) fun _ as rest hr =>
    absurd hr (hnil.bind as rest)
  exact .accept (.pure rfl) (.expect (.pure (Due.round_after_close hclose ..))) fun _ as rest hr =>
    absurd hr (Hungry.expect as rest)

end Rules

end StreamLang.Grammar
