import StreamLang.Grammar.Program
import StreamLang.Proofs.Grammar.Walk

/-! The integers of a program, and where they are written: an integer has the span of the first token of
its text, which is a sign, or a digit sequence without one. Readers are judged by what they give when
they read somewhere in a text, of which the last tokens are left. -/

namespace StreamLang

/-! The integers of a program -/

def Literal.integers (span : Span) : Literal → List (Span × Int64)
  | .int n => [(span, n)]
  | _ => []

namespace Pattern

mutual

/-- The integers in a pattern with their spans. -/
def integers : Pattern → List (Span × Int64)
  | wildcard _ => []
  | bind _ _ => []
  | literal span l => l.integers span
  | marked _ _ inner => integers inner
  | none _ => []
  | pending _ => []
  | record _ _ fields _ => fieldIntegers fields
  | variant _ _ _ payload => optionIntegers payload
  | tuple _ items => listIntegers items
  | list _ items rest => listIntegers items ++ optionIntegers rest
  | map _ entries => entryIntegers entries

def optionIntegers : Option Pattern → List (Span × Int64)
  | .none => []
  | .some p => integers p

def listIntegers : List Pattern → List (Span × Int64)
  | [] => []
  | p :: rest => integers p ++ listIntegers rest

def fieldIntegers : List FieldPattern → List (Span × Int64)
  | [] => []
  | ⟨_, _, p⟩ :: rest => optionIntegers p ++ fieldIntegers rest

def entryIntegers : List (String × Pattern) → List (Span × Int64)
  | [] => []
  | (_, p) :: rest => integers p ++ entryIntegers rest

end

end Pattern

namespace Expr

mutual

/-- The integers in an expression with their spans. -/
def integers : Expr → List (Span × Int64)
  | literal span l => l.integers span
  | name _ _ => []
  | list _ items => listIntegers items
  | tuple _ items => listIntegers items
  | map _ entries => entryIntegers entries
  | record _ _ fields => fieldIntegers fields
  | variant _ _ _ args => listIntegers args
  | update _ target fields => integers target ++ fieldIntegers fields
  | select _ target _ => integers target
  | index _ target i => integers target ++ integers i
  | call _ callee args => integers callee ++ listIntegers args
  | method _ receiver _ args => integers receiver ++ listIntegers args
  | binary _ _ lhs rhs => integers lhs ++ integers rhs
  | unary _ _ operand => integers operand
  | branch _ test whenTrue whenFalse =>
    integers test ++ integers whenTrue ++ optionIntegers whenFalse
  | cases _ scrutinee arms => integers scrutinee ++ armIntegers arms
  | block _ stmts tail => stmtIntegers stmts ++ optionIntegers tail
  | closure _ ⟨_, _, _, body, _, _⟩ => integers body
  | async _ body => integers body
  | await _ future => integers future
  | attempt _ inner => integers inner

def optionIntegers : Option Expr → List (Span × Int64)
  | none => []
  | some e => integers e

def listIntegers : List Expr → List (Span × Int64)
  | [] => []
  | e :: rest => integers e ++ listIntegers rest

def entryIntegers : List (String × Expr) → List (Span × Int64)
  | [] => []
  | (_, e) :: rest => integers e ++ entryIntegers rest

def fieldIntegers : List FieldInit → List (Span × Int64)
  | [] => []
  | ⟨_, _, e⟩ :: rest => integers e ++ fieldIntegers rest

def armIntegers : List MatchArm → List (Span × Int64)
  | [] => []
  | ⟨_, p, guard, e⟩ :: rest =>
    p.integers ++ optionIntegers guard ++ integers e ++ armIntegers rest

def stmtIntegers : List Stmt → List (Span × Int64)
  | [] => []
  | .bind _ p _ e :: rest => p.integers ++ integers e ++ stmtIntegers rest
  | .expr e :: rest => integers e ++ stmtIntegers rest

end

end Expr

def LetDecl.integers (d : LetDecl) : List (Span × Int64) := d.pattern.integers ++ d.value.integers

def ItemKind.integers : ItemKind → List (Span × Int64)
  | .function d => d.body.integers
  | .typeAlias d => Expr.optionIntegers d.predicate
  | .binding d => d.integers
  | .expr e => e.integers
  | _ => []

def Program.integers (p : Program) : List (Span × Int64) := p.items.flatMap (·.kind.integers)

namespace Grammar

/-! What stands in the text -/

/-- The number that the tokens begin with: digits, behind minus signs and opening parentheses. -/
def number? : List Token → Option Int
  | [] => none
  | t :: more =>
    match t.kind with
    | .int digits => some (Decimal.natOfDigits (withoutUnderscores digits))
    | .symbol .minus => (number? more).map Neg.neg
    | .symbol .lparen => number? more
    | _ => none

/-- At its span in the text the integer is written. -/
def Spells (all : List Token) (x : Span × Int64) : Prop :=
  ∃ t more, (t :: more) <:+ all ∧ t.span = x.1 ∧ number? (t :: more) = some x.2.toInt

/-- So are all of them. -/
def AllSpelled (all : List Token) (l : List (Span × Int64)) : Prop := ∀ x ∈ l, Spells all x

section AllSpelled

variable {all : List Token} {l l' : List (Span × Int64)}

theorem AllSpelled.nil : AllSpelled all [] := List.forall_mem_nil _

theorem allSpelled_append : AllSpelled all (l ++ l') ↔ AllSpelled all l ∧ AllSpelled all l' :=
  List.forall_mem_append

theorem AllSpelled.append (h : AllSpelled all l) (h' : AllSpelled all l') : AllSpelled all (l ++ l') :=
  allSpelled_append.2 ⟨h, h'⟩

theorem AllSpelled.literal {span : Span} {a : Literal} (h : ∀ n, a = .int n → Spells all (span, n)) :
    AllSpelled all (a.integers span) := by
  cases a with
  | int n => exact List.forall_mem_singleton.2 (h n rfl)
  | _ => exact .nil

theorem AllSpelled.option {e : Option Expr} (h : ∀ e', e = some e' → AllSpelled all e'.integers) :
    AllSpelled all (Expr.optionIntegers e) := by
  cases e with
  | none => exact .nil
  | some e => exact h e rfl

/-- The integers of a list are those of its items. -/
theorem AllSpelled.each {ι : Type} {f : ι → List (Span × Int64)} {g : List ι → List (Span × Int64)}
    (hnil : g [] = []) (hcons : ∀ a rest, g (a :: rest) = f a ++ g rest) {items : List ι}
    (h : ∀ a ∈ items, AllSpelled all (f a)) : AllSpelled all (g items) := by
  induction items with
  | nil => rw [hnil]; exact .nil
  | cons a rest ih =>
    rw [List.forall_mem_cons] at h
    rw [hcons]
    exact .append h.1 (ih h.2)

theorem AllSpelled.patterns {ps : List Pattern} (h : ∀ p ∈ ps, AllSpelled all p.integers) :
    AllSpelled all (Pattern.listIntegers ps) :=
  .each rfl (fun _ _ => rfl) h

theorem AllSpelled.fieldPatterns {fields : List FieldPattern}
    (h : ∀ f ∈ fields, AllSpelled all (Pattern.optionIntegers f.pattern)) :
    AllSpelled all (Pattern.fieldIntegers fields) :=
  .each rfl (fun ⟨_, _, _⟩ _ => rfl) h

theorem AllSpelled.entryPatterns {entries : List (String × Pattern)}
    (h : ∀ e ∈ entries, AllSpelled all e.2.integers) : AllSpelled all (Pattern.entryIntegers entries) :=
  .each rfl (fun _ _ => rfl) h

theorem AllSpelled.exprs {es : List Expr} (h : ∀ e ∈ es, AllSpelled all e.integers) :
    AllSpelled all (Expr.listIntegers es) :=
  .each rfl (fun _ _ => rfl) h

theorem AllSpelled.entries {entries : List (String × Expr)}
    (h : ∀ e ∈ entries, AllSpelled all e.2.integers) : AllSpelled all (Expr.entryIntegers entries) :=
  .each rfl (fun _ _ => rfl) h

theorem AllSpelled.fields {fields : List FieldInit}
    (h : ∀ f ∈ fields, AllSpelled all f.value.integers) : AllSpelled all (Expr.fieldIntegers fields) :=
  .each rfl (fun ⟨_, _, _⟩ _ => rfl) h

theorem AllSpelled.arms {arms : List MatchArm}
    (h : ∀ arm ∈ arms, AllSpelled all (Expr.armIntegers [arm])) :
    AllSpelled all (Expr.armIntegers arms) :=
  .each rfl (fun ⟨_, _, _, _⟩ _ => by simp [Expr.armIntegers]) h

theorem AllSpelled.stmts {stmts : List Stmt}
    (h : ∀ stmt ∈ stmts, AllSpelled all (Expr.stmtIntegers [stmt])) :
    AllSpelled all (Expr.stmtIntegers stmts) :=
  .each rfl (fun stmt _ => by cases stmt <;> simp [Expr.stmtIntegers]) h

end AllSpelled

/-! What readers give -/

/-- From the last tokens of a text: a success leaves the last ones of these, and has such a result. -/
def ReadsAt {α : Type} (all : List Token) (Q : α → Prop) (r : Reader α) (ts : List Token) : Prop :=
  ts <:+ all → ∀ a rest, r ts = .ok a rest → rest <:+ all ∧ Q a

def Reads {α : Type} (all : List Token) (Q : α → Prop) (r : Reader α) : Prop :=
  ∀ ts, ReadsAt all Q r ts

/-- The result of a round, or the state for the next. -/
def Round.Holds {σ α : Type} (I : σ → Prop) (Q : α → Prop) : Round σ α → Prop
  | .again s => I s
  | .done a => Q a

section Rules

variable {σ α β : Type} {all : List Token} {Q : α → Prop} {R : β → Prop} {r s : Reader α}
  {ts : List Token}

theorem Extends.reads {d : Due α} {r' : Reader α} (h : Extends d r r') :
    Reads all (fun _ => True) r := by
  intro ts hts a rest hr
  obtain ⟨⟨own, rfl, -⟩, -⟩ := h ts a rest hr
  exact ⟨(List.suffix_append own rest).trans hts, trivial⟩

theorem Reads.pure {a : α} (h : Q a) : Reads all Q (pure a) := by
  rintro ts hts _ _ ⟨⟩
  exact ⟨hts, h⟩

theorem Reads.throw (e : Want) : Reads all Q (throw e) := by
  rintro ts _ _ _ ⟨⟩

theorem ReadsAt.mono {Q' : α → Prop} (h : ReadsAt all Q r ts) (himp : ∀ a, Q a → Q' a) :
    ReadsAt all Q' r ts :=
  fun hts a rest hr => (h hts a rest hr).imp_right (himp a)

theorem ReadsAt.bind {x : Reader β} {f : β → Reader α} (hx : ReadsAt all R x ts)
    (hf : ∀ b, R b → Reads all Q (f b)) : ReadsAt all Q (x >>= f) ts := by
  intro hts a rest h
  obtain ⟨b, mid, hb, ha⟩ := bind_ok h
  obtain ⟨hmid, hR⟩ := hx hts b mid hb
  exact hf b hR mid hmid a rest ha

theorem Reads.bind {x : Reader β} {f : β → Reader α} (hx : Reads all R x)
    (hf : ∀ b, R b → Reads all Q (f b)) : Reads all Q (x >>= f) :=
  fun ts => (hx ts).bind hf

/-- Nothing is asked of what comes first. -/
theorem Reads.after {x : Reader β} {f : β → Reader α} (hx : Reads all R x)
    (hf : ∀ b, Reads all Q (f b)) : Reads all Q (x >>= f) :=
  hx.bind fun b _ => hf b

theorem Reads.map {x : Reader β} {f : β → α} (hx : Reads all R x) (hf : ∀ b, R b → Q (f b)) :
    Reads all Q (f <$> x) := by
  rw [map_eq_pure_bind]
  exact hx.bind fun b hb => .pure (hf b hb)

theorem Reads.ite {c : Prop} [Decidable c] (hr : Reads all Q r) (hs : Reads all Q s) :
    Reads all Q (if c then r else s) := by
  split <;> assumption

theorem Reads.get_bind {f : List Token → Reader α} (h : ∀ ts, ReadsAt all Q (f ts) ts) :
    Reads all Q (get >>= f) := h

/-- Behind the first token. -/
theorem ReadsAt.take {t : Token} {more : List Token} (hs : ReadsAt all Q s more)
    (hr : r (t :: more) = s more) : ReadsAt all Q r (t :: more) :=
  fun hts a rest h => hs ((List.suffix_cons t more).trans hts) a rest (hr ▸ h)

theorem ReadsAt.congr (hs : ReadsAt all Q s ts) (hr : r ts = s ts) : ReadsAt all Q r ts :=
  fun hts a rest h => hs hts a rest (hr ▸ h)

/-- The first token tells what to do, and there has to be one. -/
theorem Reads.of_cons (hnil : Hungry r) (h : ∀ t more, ReadsAt all Q r (t :: more)) : Reads all Q r := by
  rintro (_ | ⟨t, more⟩)
  · exact fun _ a rest hr => absurd hr (hnil a rest)
  · exact h t more

/-! Looking at the next token, and taking a mark or a word -/

theorem reads_look (f : List Token → α) : Reads all (fun _ => True) (do return f (← get)) := by
  rintro ts hts _ _ ⟨⟩
  exact ⟨hts, trivial⟩

theorem reads_skip : Reads all (fun _ => True) skip := by
  rintro ts hts _ _ ⟨⟩
  exact ⟨(List.drop_suffix 1 ts).trans hts, trivial⟩

theorem reads_nextSpan : Reads all (fun _ => True) nextSpan := by
  rintro (_ | ⟨t, more⟩) hts _ _ ⟨⟩ <;> exact ⟨hts, trivial⟩

theorem reads_nextIs (mark : Punct) : Reads all (fun _ => True) (nextIs mark) :=
  reads_look fun ts => ts.head?.map Token.kind == some (.symbol mark)

theorem reads_nextIsWord (word : Keyword) : Reads all (fun _ => True) (nextIsWord word) :=
  reads_look fun ts => ts.head?.map Token.kind == some (.keyword word)

theorem reads_accept (mark : Punct) : Reads all (fun _ => True) (accept mark) :=
  .after (reads_nextIs mark) fun _ => .ite (.after reads_skip fun _ => .pure trivial) (.pure trivial)

theorem reads_acceptWord (word : Keyword) : Reads all (fun _ => True) (acceptWord word) :=
  .after (reads_nextIsWord word) fun _ =>
    .ite (.after reads_skip fun _ => .pure trivial) (.pure trivial)

theorem reads_expect (mark : Punct) : Reads all (fun _ => True) (expect mark) :=
  .after (reads_accept mark) fun _ => .ite (.pure trivial) (.throw _)

theorem Reads.accept {mark : Punct} (hr : Reads all Q r) (hs : Reads all Q s) :
    Reads all Q (accept mark >>= fun b => if b = true then r else s) :=
  .after (reads_accept mark) fun _ => .ite hr hs

/-- When the mark comes first. -/
theorem ReadsAt.accept {mark : Punct} {t : Token} {more : List Token}
    (hr : t.kind = .symbol mark → ReadsAt all Q r more) (hs : ReadsAt all Q s (t :: more)) :
    ReadsAt all Q (Grammar.accept mark >>= fun b => if b = true then r else s) (t :: more) := by
  by_cases ht : t.kind = .symbol mark
  · exact (hr ht).take (bind_of_ok ((accept_cons mark t more).trans (if_pos ht)))
  · exact hs.congr (bind_of_ok ((accept_cons mark t more).trans (if_neg ht)))

theorem ReadsAt.acceptWord {word : Keyword} {t : Token} {more : List Token}
    (hr : t.kind = .keyword word → ReadsAt all Q r more) (hs : ReadsAt all Q s (t :: more)) :
    ReadsAt all Q (Grammar.acceptWord word >>= fun b => if b = true then r else s) (t :: more) := by
  by_cases ht : t.kind = .keyword word
  · exact (hr ht).take (bind_of_ok ((acceptWord_cons word t more).trans (if_pos ht)))
  · exact hs.congr (bind_of_ok ((acceptWord_cons word t more).trans (if_neg ht)))

theorem Reads.acceptWord {word : Keyword} (hr : Reads all Q r) (hs : Reads all Q s) :
    Reads all Q (acceptWord word >>= fun b => if b = true then r else s) :=
  .after (reads_acceptWord word) fun _ => .ite hr hs

theorem Reads.expect {mark : Punct} {f : Unit → Reader α} (h : Reads all Q (f ())) :
    Reads all Q (expect mark >>= f) :=
  .after (reads_expect mark) fun _ => h

/-! Loops -/

theorem Reads.loopFor {I : σ → Prop} {round : σ → Reader (Round σ α)}
    (h : ∀ s, I s → Reads all (Round.Holds I Q) (round s)) (n : Nat) {s : σ} (hs : I s) :
    Reads all Q (loopFor round n s) := by
  induction n generalizing s with
  | zero => exact .throw _
  | succ n ih =>
    refine .bind (h s hs) fun next hnext => ?_
    cases next with
    | again s' => exact ih hnext
    | done a => exact .pure hnext

theorem Reads.loop {I : σ → Prop} {round : σ → Reader (Round σ α)}
    (h : ∀ s, I s → Reads all (Round.Holds I Q) (round s)) {s : σ} (hs : I s) :
    Reads all Q (loop round s) :=
  .get_bind fun _ => Reads.loopFor h _ hs _

theorem forall_mem_reverse {as : List α} : (∀ a ∈ as.reverse, Q a) ↔ ∀ a ∈ as, Q a := by
  simp only [List.mem_reverse]

theorem Reads.listUntil {close : Punct} {item : Reader α} (h : Reads all Q item) :
    Reads all (fun as => ∀ a ∈ as, Q a) (listUntil close item) := by
  refine .loop (I := fun as => ∀ a ∈ as, Q a) (fun as has => ?_) (List.forall_mem_nil _)
  refine .accept (.pure (forall_mem_reverse.2 has)) (.bind h fun a ha => ?_)
  have hmore : ∀ b ∈ a :: as, Q b := List.forall_mem_cons.2 ⟨ha, has⟩
  exact .accept (.pure hmore) (.expect (.pure (forall_mem_reverse.2 hmore)))

end Rules

end Grammar

end StreamLang
