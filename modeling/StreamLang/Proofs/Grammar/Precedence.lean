import Mathlib
import StreamLang.Proofs.Grammar.Walk

/-! Operands joined by operators. However many there are, the reader takes them all and groups them as
the table of the operators says, and there is one such grouping only. -/

namespace StreamLang.Grammar

/-! The table -/

/-- The operators from the loosest to the tightest; those of one row bind alike. -/
def Joiner.rows : List (List Joiner) :=
  [[.pipe], [.op .or], [.op .and], [.op .eq, .op .ne], [.op .lt, .op .le, .op .gt, .op .ge],
    [.op .add, .op .sub], [.op .mul, .op .div, .op .mod]]

/-- The row of the table where the operator stands. -/
def Joiner.rank (j : Joiner) : Nat := rows.findIdx (j ∈ ·)

theorem Joiner.precedence_eq (j : Joiner) : j.precedence = j.rank + 1 := by
  cases j with
  | pipe => rfl
  | op o => cases o <;> rfl

def Joiner.text : Joiner → String
  | pipe => "|>"
  | op o => o.text

/-- The token is the operator. -/
def Joiner.IsToken (j : Joiner) (t : Token) : Prop :=
  ∃ mark : Punct, t.kind = .symbol mark ∧ mark.text = j.text

theorem Punct.text_inj {mark mark' : Punct} (h : mark.text = mark'.text) : mark = mark' := by
  have hchars : mark.chars = mark'.chars := String.ofList_injective h
  have hstart := congrArg Punct.ofStart? hchars
  rw [Punct.ofStart?_chars, Punct.ofStart?_chars] at hstart
  exact Option.some.inj hstart

theorem Joiner.ofKind?_eq_some {j : Joiner} {t : Token} : ofKind? t.kind = some j ↔ j.IsToken t := by
  constructor
  · intro h
    cases hkind : t.kind with
    | symbol mark =>
      rw [hkind] at h
      refine ⟨mark, hkind, ?_⟩
      cases mark <;> cases h <;> decide
    | _ => rw [hkind] at h; cases h
  · rintro ⟨mark, hkind, htext⟩
    obtain ⟨own, hown, hj⟩ : ∃ own : Punct, own.text = j.text ∧ ofPunct? own = some j := by
      cases j with
      | pipe => exact ⟨.pipe, by decide, rfl⟩
      | op o =>
        cases o
        case add => exact ⟨.plus, by decide, rfl⟩
        case sub => exact ⟨.minus, by decide, rfl⟩
        case mul => exact ⟨.star, by decide, rfl⟩
        case div => exact ⟨.slash, by decide, rfl⟩
        case mod => exact ⟨.percent, by decide, rfl⟩
        case eq => exact ⟨.eqEq, by decide, rfl⟩
        case ne => exact ⟨.notEq, by decide, rfl⟩
        case lt => exact ⟨.lt, by decide, rfl⟩
        case le => exact ⟨.le, by decide, rfl⟩
        case gt => exact ⟨.gt, by decide, rfl⟩
        case ge => exact ⟨.ge, by decide, rfl⟩
        case and => exact ⟨.andAnd, by decide, rfl⟩
        case or => exact ⟨.orOr, by decide, rfl⟩
    rw [hkind, Punct.text_inj (htext.trans hown.symm)]
    exact hj

theorem Joiner.ofKind?_eq_none {t : Token} : ofKind? t.kind = none ↔ ∀ j : Joiner, ¬ j.IsToken t := by
  simp only [← ofKind?_eq_some, Option.eq_none_iff_forall_ne_some, ne_eq]

/-! Groupings -/

/-- An operator, where it stands, and the operand behind it. -/
structure Link where
  joiner : Joiner
  span : Span
  operand : Expr

/-- Operands grouped by operators. -/
inductive Grouping
  | operand (e : Expr)
  | join (j : Joiner) (span : Span) (l r : Grouping)

namespace Grouping

/-- The leftmost operand. -/
def first : Grouping → Expr
  | operand e => e
  | join _ _ l _ => l.first

/-- The operators from left to right, each with the operand behind it. -/
def links : Grouping → List Link
  | operand _ => []
  | join j span l r => l.links ++ ⟨j, span, r.first⟩ :: r.links

/-- Whatever an operator joins binds tighter than the operator does, and on its left at least as
tightly. -/
def Grouped : Grouping → Prop
  | operand _ => True
  | join j _ l r =>
    (l.Grouped ∧ ∀ k ∈ l.links, j.rank ≤ k.joiner.rank) ∧
      r.Grouped ∧ ∀ k ∈ r.links, j.rank < k.joiner.rank

instance decidableGrouped : (t : Grouping) → Decidable t.Grouped
  | operand _ => isTrue trivial
  | join j _ l r =>
    have := decidableGrouped l
    have := decidableGrouped r
    inferInstanceAs (Decidable ((l.Grouped ∧ ∀ k ∈ l.links, j.rank ≤ k.joiner.rank) ∧
      r.Grouped ∧ ∀ k ∈ r.links, j.rank < k.joiner.rank))

/-- The expression that a grouping stands for. A pipe puts its left side in front of the arguments of a
call, and calls anything else with it. -/
def toExpr : Grouping → Expr
  | operand e => e
  | join (.op o) span l r => .binary span o l.toExpr r.toExpr
  | join .pipe _ l r =>
    match r.toExpr with
    | .call span callee args => .call span callee (l.toExpr :: args)
    | target => .call target.span target [l.toExpr]

theorem toExpr_join (j : Joiner) (span : Span) (l r : Grouping) :
    (join j span l r).toExpr = j.join span l.toExpr r.toExpr := by
  cases j with
  | pipe => cases h : r.toExpr <;> simp [toExpr, Joiner.join, pipeInto, h]
  | op o => rfl

end Grouping

/-- The last of the loosest operators stands at one place only. -/
theorem loosest_unique {as bs as' bs' : List Link} {x x' : Link} (h : as ++ x :: bs = as' ++ x' :: bs')
    (has : ∀ a ∈ as, x.joiner.rank ≤ a.joiner.rank) (hbs : ∀ b ∈ bs, x.joiner.rank < b.joiner.rank)
    (has' : ∀ a ∈ as', x'.joiner.rank ≤ a.joiner.rank)
    (hbs' : ∀ b ∈ bs', x'.joiner.rank < b.joiner.rank) : as = as' ∧ x = x' ∧ bs = bs' := by
  obtain ⟨cs, rfl, hcs⟩ | ⟨cs, rfl, hcs⟩ := List.append_eq_append_iff.1 h
  · cases cs with
    | nil => simpa using hcs
    | cons c cs =>
      obtain ⟨rfl, rfl⟩ := List.cons.inj hcs
      have hle := has' x (by simp)
      have hlt := hbs x' (by simp)
      omega
  · cases cs with
    | nil => simpa [eq_comm] using hcs
    | cons c cs =>
      obtain ⟨rfl, rfl⟩ := List.cons.inj hcs
      have hle := has x' (by simp)
      have hlt := hbs' x (by simp)
      omega

/-- The operands and the operators determine the grouping. -/
theorem Grouping.Grouped.unique {t t' : Grouping} (h : t.Grouped) (h' : t'.Grouped)
    (hfirst : t.first = t'.first) (hlinks : t.links = t'.links) : t = t' := by
  induction t generalizing t' with
  | operand e =>
    cases t' with
    | operand e' => exact congrArg operand hfirst
    | join => simp [links] at hlinks
  | join j span l r ihl ihr =>
    cases t' with
    | operand => simp [links] at hlinks
    | join j' span' l' r' =>
      obtain ⟨⟨hl, hjl⟩, hr, hjr⟩ := h
      obtain ⟨⟨hl', hjl'⟩, hr', hjr'⟩ := h'
      obtain ⟨heql, heq, heqr⟩ := loosest_unique hlinks hjl hjr hjl' hjr'
      obtain ⟨rfl, rfl, hfirstr⟩ := Link.mk.inj heq
      rw [ihl hl hl' hfirst heql, ihr hr hr' hfirstr heqr]

/-! Operands and operators in a text -/

/-- Reads one operand, as the reader of an expression does to begin with. -/
def prefixed : Reader Expr := do operand (expressionWithin (← get).length)

theorem prefixed_eq (ts : List Token) : prefixed ts = operand (expressionWithin ts.length) ts := by
  have hget : (get : Reader (List Token)) ts = .ok ts ts := rfl
  exact bind_of_ok hget

/-- Operators and operands in turn, up to tokens that no operator begins. Each operand is read to its
end, where the next operator or the end of the sequence stands. -/
inductive Joined : List Token → List Link → List Token → Prop
  | stop {rest : List Token} : (∀ t more, rest = t :: more → ∀ j : Joiner, ¬ j.IsToken t) →
      Joined rest [] rest
  | link (own : List Token) {t : Token} {more rest : List Token} {j : Joiner} {e : Expr}
      {links : List Link} : j.IsToken t → prefixed (own ++ more) = .ok e more → Joined more links rest →
      Joined (t :: (own ++ more)) (⟨j, t.span, e⟩ :: links) rest

/-! Climbing -/

section Round

variable {expr : ExprReader} {least : Nat} {left right : Expr} {t : Token} {more rest : List Token}
  {j : Joiner}

theorem joinRound_stop (h : ∀ t more, rest = t :: more → ∀ j : Joiner, ¬ j.IsToken t) :
    joinRound expr least left rest = .ok (.done left) rest := by
  cases rest with
  | nil => rfl
  | cons t more =>
    change (nextJoiner >>= _) (t :: more) = _
    rw [bind_of_ok (nextJoiner_cons t more), Joiner.ofKind?_eq_none.2 (h t more rfl)]
    rfl

theorem joinRound_joiner (h : j.IsToken t) : joinRound expr least left (t :: more) =
    if j.precedence < least then .ok (.done left) (t :: more)
    else (do return .again (j.join t.span left (← expr (j.precedence + 1))) : Reader _) more := by
  change (nextJoiner >>= _) (t :: more) = _
  rw [bind_of_ok (nextJoiner_cons t more), Joiner.ofKind?_eq_some.2 h]
  dsimp only
  split <;> rfl

end Round

/-- The link binds at least as tightly as `least`. -/
def Link.binds (least : Nat) (k : Link) : Bool := least ≤ k.joiner.precedence

theorem rank_lt_of_mem_takeWhile {j : Joiner} {k : Link} {links : List Link}
    (h : k ∈ links.takeWhile (Link.binds (j.precedence + 1))) : j.rank < k.joiner.rank := by
  have hk : j.precedence + 1 ≤ k.joiner.precedence := by
    simpa [Link.binds] using List.mem_takeWhile_imp h
  rw [Joiner.precedence_eq, Joiner.precedence_eq] at hk
  omega

theorem rank_le_of_mem_dropWhile {j : Joiner} {k : Link} {links : List Link}
    (h : k ∈ (links.dropWhile (Link.binds (j.precedence + 1))).head?) : k.joiner.rank ≤ j.rank := by
  have hnot := List.head?_dropWhile_not (Link.binds (j.precedence + 1)) links
  rw [Option.mem_def.1 h] at hnot
  simp only [Link.binds, decide_eq_false_iff_not, Joiner.precedence_eq] at hnot
  omega

/-- No operator of a grouping is looser than the one that joins it. -/
theorem Grouping.Grouped.le_of_mem_links {j : Joiner} {span : Span} {l r : Grouping}
    (h : (join j span l r).Grouped) {k : Link} (hk : k ∈ (join j span l r).links) :
    j.rank ≤ k.joiner.rank := by
  obtain ⟨⟨-, hl⟩, -, hr⟩ := h
  rw [links, List.mem_append, List.mem_cons] at hk
  obtain hk | rfl | hk := hk
  · exact hl k hk
  · exact Nat.le_refl _
  · exact (hr k hk).le

/-- Those that bind as tightly as the looser number are those that bind as tightly as the tighter one,
and then further ones. -/
theorem takeWhile_binds {least p : Nat} (h : least ≤ p) (links : List Link) :
    links.takeWhile (Link.binds least) = links.takeWhile (Link.binds p) ++
      (links.dropWhile (Link.binds p)).takeWhile (Link.binds least) ∧
    links.dropWhile (Link.binds least) =
      (links.dropWhile (Link.binds p)).dropWhile (Link.binds least) := by
  have hall : ∀ k ∈ links.takeWhile (Link.binds p), Link.binds least k = true := by
    intro k hk
    have hp : p ≤ k.joiner.precedence := by simpa [Link.binds] using List.mem_takeWhile_imp hk
    simpa [Link.binds] using h.trans hp
  have hsplit := List.takeWhile_append_dropWhile (p := Link.binds p) (l := links)
  constructor
  · conv => lhs; rw [← hsplit]
    exact List.takeWhile_append_of_pos hall
  · conv => lhs; rw [← hsplit]
    exact List.dropWhile_append_of_pos hall

/-- The reader has read a grouping that goes on from `first` and some links with those that bind at
least as tightly as `least`, and what is left begins with the others. -/
def Climbs (run : EStateM.Result Want (List Token) Expr) (first : Expr) (before : List Link) (least : Nat)
    (links : List Link) (rest : List Token) : Prop :=
  ∃ (tree : Grouping) (mid : List Token), run = .ok tree.toExpr mid ∧ tree.first = first ∧
    tree.links = before ++ links.takeWhile (Link.binds least) ∧ tree.Grouped ∧
    Joined mid (links.dropWhile (Link.binds least)) rest

/-- In texts shorter than the budget the reader takes at each level the operators that bind at least so
tightly. -/
def ClimbsWithin (depth : Nat) (rest : List Token) : Prop :=
  ∀ {least e ts mid links}, prefixed ts = .ok e mid → Joined mid links rest → ts.length < depth →
    Climbs (expressionWithin depth least ts) e [] least links rest

theorem climbs_loop {depth least : Nat} {rest : List Token} (hdeep : ClimbsWithin depth rest)
    {fuel : Nat} (left : Grouping) {mid : List Token} {links : List Link} (hmid : Joined mid links rest)
    (hfuel : mid.length < fuel) (hdepth : mid.length ≤ depth) (hleft : left.Grouped)
    -- the next operator binds no tighter than what has been read
    (hnext : ∀ k ∈ links.head?, ∀ l ∈ left.links, k.joiner.rank ≤ l.joiner.rank) :
    Climbs (loopFor (joinRound (expressionWithin depth) least) fuel left.toExpr mid) left.first left.links
      least links rest := by
  induction fuel generalizing left mid links with
  | zero => omega
  | succ fuel ih =>
    cases hmid with
    | stop hstop =>
      refine ⟨left, rest, ?_, rfl, by simp, hleft, .stop hstop⟩
      rw [loopFor, bind_of_ok (joinRound_stop hstop)]
      rfl
    | @link own t more _ j e links hj hread hmore =>
      rw [loopFor]
      by_cases hlow : j.precedence < least
      · have hbinds : Link.binds least ⟨j, t.span, e⟩ = false := by simpa [Link.binds] using hlow
        rw [bind_of_ok ((joinRound_joiner hj).trans (if_pos hlow))]
        refine ⟨left, _, rfl, rfl, ?_, hleft, ?_⟩
        · simp [hbinds]
        · simpa [List.dropWhile_cons, hbinds] using Joined.link own hj hread hmore
      · simp only [List.length_cons] at hfuel hdepth
        obtain ⟨right, mid, hright, rfl, hrightLinks, hrightGrouped, hmid⟩ :=
          hdeep hread hmore (by omega)
        obtain ⟨own', hown', -⟩ := (extends_expressionWithin (Nat.le_refl _) _ _ _ _ hright).1
        have hlen : (own ++ more).length = own'.length + mid.length := by rw [hown', List.length_append]
        have hround : joinRound (expressionWithin depth) least left.toExpr (t :: (own ++ more)) =
            .ok (.again (Grouping.join j t.span left right).toExpr) mid := by
          rw [joinRound_joiner hj, if_neg hlow, bind_of_ok hright, Grouping.toExpr_join]
          rfl
        have hjoin : (Grouping.join j t.span left right).Grouped := by
          refine ⟨⟨hleft, hnext ⟨j, t.span, right.first⟩ rfl⟩, hrightGrouped, fun k hk => ?_⟩
          rw [hrightLinks, List.nil_append] at hk
          exact rank_lt_of_mem_takeWhile hk
        obtain ⟨tree, rest', hrun, hfirst, hlinks, htree, hrest⟩ :=
          ih _ hmid (by omega) (by omega) hjoin fun k hk l hl =>
            (rank_le_of_mem_dropWhile hk).trans (hjoin.le_of_mem_links hl)
        have hbinds : Link.binds least ⟨j, t.span, right.first⟩ = true := by
          simpa [Link.binds] using hlow
        obtain ⟨htake, hdrop⟩ := takeWhile_binds (by omega : least ≤ j.precedence + 1) links
        refine ⟨tree, rest', ?_, hfirst, ?_, htree, ?_⟩
        · rw [bind_of_ok hround]
          exact hrun
        · rw [hlinks, Grouping.links, hrightLinks, List.takeWhile_cons_of_pos hbinds, htake]
          simp
        · rw [List.dropWhile_cons_of_pos hbinds, hdrop]
          exact hrest

theorem climbsWithin (depth : Nat) (rest : List Token) : ClimbsWithin depth rest := by
  induction depth with
  | zero => exact fun _ _ hdepth => absurd hdepth (Nat.not_lt_zero _)
  | succ depth ih =>
    intro least e ts mid links hfirst hmid hdepth
    rw [prefixed_eq] at hfirst
    have hoperand := operand_mono hfirst (Nat.le_of_lt_succ hdepth)
    have hlen := (extends_operand (extends_expressionWithin (Nat.le_refl depth))
      (hungry_expressionWithin depth)).length_le hoperand
    rw [expressionWithin_succ, bind_of_ok hoperand]
    exact climbs_loop ih (.operand e) hmid (Nat.lt_succ_self _) (by omega) trivial
      fun k _ l hl => absurd hl List.not_mem_nil

/-- Operands joined by operators are read as a whole, and as the one expression that groups them by the
table: those of a lower row bind tighter, and those of one row from the left. -/
theorem joined_operands_group (own : List Token) {mid rest : List Token} {e : Expr} {links : List Link}
    (hfirst : prefixed (own ++ mid) = .ok e mid) (hmid : Joined mid links rest) :
    ∃ tree : Grouping,
      (∀ t : Grouping, t.first = e ∧ t.links = links ∧ t.Grouped ↔ t = tree) ∧
      expression (own ++ mid) = .ok tree.toExpr rest ∧
      ∀ source, Token.scan source = .ok (own ++ mid) →
        readSource expression source = .ok (tree.toExpr, rest) := by
  have hclimbs : Climbs (expression (own ++ mid)) e [] 0 links rest :=
    climbsWithin ((own ++ mid).length + 1) rest hfirst hmid (Nat.lt_succ_self _)
  obtain ⟨tree, mid', hread, rfl, hlinks, htree, hrest⟩ := hclimbs
  have hall : ∀ k ∈ links, Link.binds 0 k = true := fun k _ => by simp [Link.binds]
  rw [List.takeWhile_eq_self_iff.2 hall, List.nil_append] at hlinks
  rw [List.dropWhile_eq_nil_iff.2 hall] at hrest
  cases hrest
  refine ⟨tree, fun t => ⟨?_, ?_⟩, hread, fun source hscan => ?_⟩
  · rintro ⟨hfirst, hlinks', ht⟩
    exact ht.unique htree hfirst (hlinks'.trans hlinks.symm)
  · rintro rfl
    exact ⟨rfl, hlinks, htree⟩
  · simp only [readSource, hscan, hread]

/-- A token on the only line of a text. -/
def inlineToken (kind : TokenKind) (lo hi : Nat) : Token := ⟨kind, ⟨lo, hi, 1, lo + 1⟩⟩

/-- The call takes the sum as its first argument, and the product stands inside the sum. -/
theorem sum_piped_into_call : readSource expression "a + b * c |> f(d)" =
    .ok (.call ⟨13, 14, 1, 14⟩ (.name ⟨13, 14, 1, 14⟩ "f")
      [.binary ⟨2, 3, 1, 3⟩ .add (.name ⟨0, 1, 1, 1⟩ "a")
        (.binary ⟨6, 7, 1, 7⟩ .mul (.name ⟨4, 5, 1, 5⟩ "b") (.name ⟨8, 9, 1, 9⟩ "c")),
        .name ⟨15, 16, 1, 16⟩ "d"], []) := by
  have hend : Joined [] [] [] := .stop (by rintro _ _ ⟨⟩)
  have hcall := Joined.link (j := .pipe) (t := inlineToken (.symbol .pipe) 10 12)
    (e := .call ⟨13, 14, 1, 14⟩ (.name ⟨13, 14, 1, 14⟩ "f") [.name ⟨15, 16, 1, 16⟩ "d"])
    [inlineToken (.ident "f") 13 14, inlineToken (.symbol .lparen) 14 15, inlineToken (.ident "d") 15 16,
      inlineToken (.symbol .rparen) 16 17] ⟨.pipe, rfl, rfl⟩ (by cbv) hend
  have hc := Joined.link (j := .op .mul) (t := inlineToken (.symbol .star) 6 7)
    (e := .name ⟨8, 9, 1, 9⟩ "c") [inlineToken (.ident "c") 8 9] ⟨.star, rfl, rfl⟩ (by cbv) hcall
  have hb := Joined.link (j := .op .add) (t := inlineToken (.symbol .plus) 2 3)
    (e := .name ⟨4, 5, 1, 5⟩ "b") [inlineToken (.ident "b") 4 5] ⟨.plus, rfl, rfl⟩ (by cbv) hc
  obtain ⟨tree, hunique, -, hread⟩ := joined_operands_group (e := .name ⟨0, 1, 1, 1⟩ "a")
    [inlineToken (.ident "a") 0 1] (by cbv) hb
  obtain rfl := (hunique (.join .pipe ⟨10, 12, 1, 11⟩
    (.join (.op .add) ⟨2, 3, 1, 3⟩ (.operand (.name ⟨0, 1, 1, 1⟩ "a"))
      (.join (.op .mul) ⟨6, 7, 1, 7⟩ (.operand (.name ⟨4, 5, 1, 5⟩ "b"))
        (.operand (.name ⟨8, 9, 1, 9⟩ "c"))))
    (.operand (.call ⟨13, 14, 1, 14⟩ (.name ⟨13, 14, 1, 14⟩ "f") [.name ⟨15, 16, 1, 16⟩ "d"])))).1
    ⟨rfl, rfl, by decide⟩
  exact hread _ (by cbv)

end StreamLang.Grammar
