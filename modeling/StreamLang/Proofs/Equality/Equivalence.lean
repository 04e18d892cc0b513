import StreamLang.Operator.Apply
import StreamLang.Proofs.Equality.Alike
import StreamLang.Proofs.Equality.Numbers

/-! Equality is an equivalence on values in which no floating-point number stands for two different
integers. That it is symmetric on sets needs its transitivity on their members: as many members, no two
of them equal, can only be found in the other set if they use up all of it. -/

namespace StreamLang

/-- A number is one of these, and is a number; no member of a set equals one before it. -/
def Numbers.Admits (N : Numbers) : Value → Prop
  | .int n => N.int n
  | .float x => N.float x ∧ x.isNaN = false
  | .set items => items.Pairwise fun a b => a.sameMember b = false
  | _ => True

/-- So it is with the value and with all that is compared when the value is. -/
inductive Value.DrawnFrom (N : Numbers) : Value → Prop
  | mk {v : Value} (self : N.Admits v) (members : ∀ w ∈ v.members, Value.DrawnFrom N w) :
    Value.DrawnFrom N v

section Partners

variable {α β : Type} {S : α → β → Prop} {as : List α} {bs : List β}

/-- If each element has a partner in a list, and no two have the same, then the list is as long. -/
theorem length_le_of_partners (h : ∀ a ∈ as, ∃ b ∈ bs, S a b)
    (hone : as.Pairwise fun a a' => ∀ b ∈ bs, S a b → ¬S a' b) : as.length ≤ bs.length := by
  induction as generalizing bs with
  | nil => exact Nat.zero_le _
  | cons a as ih =>
    obtain ⟨b, hb, hab⟩ := h a List.mem_cons_self
    obtain ⟨front, back, rfl⟩ := List.append_of_mem hb
    obtain ⟨hfirst, hrest⟩ := List.pairwise_cons.1 hone
    have hothers : ∀ a' ∈ as, ∃ b' ∈ front ++ back, S a' b' := by
      intro a' ha'
      obtain ⟨b', hb', hs⟩ := h a' (List.mem_cons_of_mem _ ha')
      -- the partner of the first is nobody else's
      have hne : b' ≠ b := by
        rintro rfl
        exact hfirst a' ha' b' hb hab hs
      exact ⟨b', by simpa [hne] using hb', hs⟩
    have hsub := ((List.sublist_cons_self b back).append_left front).subset
    have hleft := ih hothers (hrest.imp fun hone b' hb' => hone b' (hsub hb'))
    simp only [List.length_append, List.length_cons] at hleft ⊢
    omega

/-- If the list is no longer either, every element of it is a partner. -/
theorem exists_partner (hlen : bs.length ≤ as.length) (h : ∀ a ∈ as, ∃ b ∈ bs, S a b)
    (hone : as.Pairwise fun a a' => ∀ b ∈ bs, S a b → ¬S a' b) : ∀ b ∈ bs, ∃ a ∈ as, S a b := by
  intro b hb
  by_contra hnone
  obtain ⟨front, back, rfl⟩ := List.append_of_mem hb
  have hothers : ∀ a ∈ as, ∃ b' ∈ front ++ back, S a b' := by
    intro a ha
    obtain ⟨b', hb', hs⟩ := h a ha
    have hne : b' ≠ b := by
      rintro rfl
      exact hnone ⟨a, ha, hs⟩
    exact ⟨b', by simpa [hne] using hb', hs⟩
  have hsub := ((List.sublist_cons_self b back).append_left front).subset
  have hle := length_le_of_partners hothers (hone.imp fun hone b' hb' => hone b' (hsub hb'))
  simp only [List.length_append, List.length_cons] at hle hlen
  omega

end Partners

theorem forall₂_flip {α : Type} {S : α → α → Prop} {as bs : List α}
    (h : ∀ a ∈ as, ∀ b ∈ bs, S a b → S b a) (hall : List.Forall₂ S as bs) : List.Forall₂ S bs as := by
  induction hall with
  | nil => exact .nil
  | cons hab _ ih =>
    exact .cons (h _ List.mem_cons_self _ List.mem_cons_self hab)
      (ih fun a ha b hb => h a (List.mem_cons_of_mem _ ha) b (List.mem_cons_of_mem _ hb))

theorem forall₂_trans {α : Type} {S : α → α → Prop} {as bs cs : List α}
    (h : ∀ b ∈ bs, ∀ a ∈ as, ∀ c ∈ cs, S a b → S b c → S a c) (hab : List.Forall₂ S as bs)
    (hbc : List.Forall₂ S bs cs) : List.Forall₂ S as cs := by
  induction hab generalizing cs with
  | nil => exact hbc
  | cons hab _ ih =>
    cases hbc with
    | cons hbc hrest =>
      refine .cons (h _ List.mem_cons_self _ List.mem_cons_self _ List.mem_cons_self hab hbc) ?_
      exact ih (fun b hb a ha c hc => h b (List.mem_cons_of_mem _ hb) a (List.mem_cons_of_mem _ ha) c
        (List.mem_cons_of_mem _ hc)) hrest

namespace Value

variable {N : Numbers} {a b c : Value}

theorem DrawnFrom.admitted : a.DrawnFrom N → N.Admits a
  | ⟨h, _⟩ => h

theorem DrawnFrom.member {w : Value} : a.DrawnFrom N → w ∈ a.members → w.DrawnFrom N
  | ⟨_, h⟩, hw => h w hw

theorem drawnFrom_iff : a.DrawnFrom N ↔ N.Admits a ∧ ∀ w ∈ a.members, w.DrawnFrom N :=
  ⟨fun ⟨h, hw⟩ => ⟨h, hw⟩, fun ⟨h, hw⟩ => ⟨h, hw⟩⟩

@[simp] theorem drawnFrom_int {n : Int64} : (int n).DrawnFrom N ↔ N.int n :=
  drawnFrom_iff.trans (and_iff_left (List.forall_mem_nil _))

@[simp] theorem drawnFrom_float {x : Binary64} :
    (float x).DrawnFrom N ↔ N.float x ∧ x.isNaN = false :=
  drawnFrom_iff.trans (and_iff_left (List.forall_mem_nil _))

@[simp] theorem drawnFrom_list {items : List Value} :
    (list items).DrawnFrom N ↔ ∀ v ∈ items, v.DrawnFrom N :=
  drawnFrom_iff.trans (and_iff_right trivial)

@[simp] theorem drawnFrom_set {items : List Value} : (set items).DrawnFrom N ↔
    items.Pairwise (fun a b => a.sameMember b = false) ∧ ∀ v ∈ items, v.DrawnFrom N :=
  drawnFrom_iff

theorem same_self (h : a.DrawnFrom N) : Same a a := by
  induction h with
  | @mk v self hmembers ih =>
    rw [same_iff]
    cases hform : v.form? with
    | some f => exact .form hform hform (List.forall₂_same.2 ih)
    | none =>
      cases v with
      | int n => exact .int n
      | float x => exact .float (by rw [Binary64.equals_self, self.2]; rfl)
      | set items => exact .set rfl fun a ha => ⟨a, ha, rfl, ih a ha⟩
      | model d => exact .model (Json.same_self d)
      | prediction d => exact .prediction (Json.same_self d)
      | _ => cases hform

theorem same_trans (hN : N.Apart) (ha : a.DrawnFrom N) (hb : b.DrawnFrom N) (hc : c.DrawnFrom N)
    (hab : Same a b) (hbc : Same b c) : Same a c := by
  induction hb generalizing a c with
  | @mk b hself hmembers ih =>
    rw [same_iff] at hab hbc ⊢
    cases hab with
    | int n => exact hbc
    | intFloat h =>
      cases hbc with
      | floatInt h' =>
        rw [Binary64.equals_comm] at h'
        rw [hN _ _ _ ha.admitted hc.admitted hself.1 h h']
        exact .int _
      | float h' => exact .intFloat (Binary64.equals_trans h h')
      | form hform => cases hform
    | floatInt h =>
      cases hbc with
      | int n => exact .floatInt h
      | intFloat h' => exact .float (Binary64.equals_trans h h')
      | form hform => cases hform
    | float h =>
      cases hbc with
      | floatInt h' => exact .floatInt (Binary64.equals_trans h h')
      | float h' => exact .float (Binary64.equals_trans h h')
      | form hform => cases hform
    | model h =>
      cases hbc with
      | model h' => exact .model (Json.same_trans h h')
      | form hform => cases hform
    | prediction h =>
      cases hbc with
      | prediction h' => exact .prediction (Json.same_trans h h')
      | form hform => cases hform
    | @set as bs hlen h =>
      cases hbc with
      | @set _ cs hlen' h' =>
        refine .set (hlen.trans hlen') fun a' ha' => ?_
        obtain ⟨b', hb', hkind, hba⟩ := h a' ha'
        obtain ⟨c', hc', hkind', hcb⟩ := h' b' hb'
        exact ⟨c', hc', hkind'.trans hkind, ih b' hb' (hc.member hc') (ha.member ha') hcb hba⟩
      | form hform => cases hform
    | form hform hform' h =>
      cases hbc with
      | form hform'' hform''' h' =>
        cases hform'.symm.trans hform''
        exact .form hform hform''' (forall₂_trans
          (fun b' hb' a' ha' c' hc' => ih b' hb' (ha.member ha') (hc.member hc')) h h')
      | _ => cases hform'

/-- No two members of a set equal the same member of another. -/
theorem partners_differ (hN : N.Apart) {as bs : List Value} (ha : (set as).DrawnFrom N)
    (hb : (set bs).DrawnFrom N) (hflip : ∀ a ∈ as, ∀ b ∈ bs, Same a b ↔ Same b a) :
    as.Pairwise fun a a' => ∀ b ∈ bs, b.kind = a.kind ∧ Same b a →
      ¬(b.kind = a'.kind ∧ Same b a') := by
  refine List.Pairwise.imp_of_mem (fun {a a'} hmem hmem' hdistinct b hmemb h h' => ?_) ha.admitted
  have hsame : Same a a' := same_trans hN (ha.member hmem) (hb.member hmemb) (ha.member hmem')
    ((hflip a hmem b hmemb).2 h.2) h'.2
  have hequal : a.sameMember a' = true :=
    Bool.and_eq_true_iff.2 ⟨beq_iff_eq.2 (h.1.symm.trans h'.1), hsame⟩
  rw [hdistinct] at hequal
  cases hequal

/-- A set that has as many members as another, and each of them, has no other ones. -/
theorem set_flip (hN : N.Apart) {as bs : List Value} (ha : (set as).DrawnFrom N)
    (hb : (set bs).DrawnFrom N) (hflip : ∀ a ∈ as, ∀ b ∈ bs, Same a b ↔ Same b a)
    (hlen : as.length = bs.length) (h : ∀ a ∈ as, ∃ b ∈ bs, b.kind = a.kind ∧ Same b a) :
    ∀ b ∈ bs, ∃ a ∈ as, a.kind = b.kind ∧ Same a b := by
  intro b hmemb
  obtain ⟨a, hmem, hkind, hsame⟩ :=
    exists_partner (Nat.le_of_eq hlen.symm) h (partners_differ hN ha hb hflip) b hmemb
  exact ⟨a, hmem, hkind.symm, (hflip a hmem b hmemb).2 hsame⟩

theorem alike_flip (hN : N.Apart) (ha : a.DrawnFrom N) (hb : b.DrawnFrom N)
    (hflip : ∀ x ∈ a.members, ∀ y ∈ b.members, Same x y ↔ Same y x) (h : Alike Same a b) :
    Alike Same b a := by
  cases h with
  | int n => exact .int n
  | intFloat h => exact .floatInt (by rwa [Binary64.equals_comm])
  | floatInt h => exact .intFloat (by rwa [Binary64.equals_comm])
  | float h => exact .float (by rwa [Binary64.equals_comm])
  | model h => exact .model (by rwa [Json.same_comm])
  | prediction h => exact .prediction (by rwa [Json.same_comm])
  | set hlen h => exact .set hlen.symm (set_flip hN ha hb hflip hlen h)
  | form hform hform' h =>
    exact .form hform' hform (forall₂_flip (fun x hx y hy => (hflip x hx y hy).1) h)

theorem same_comm (hN : N.Apart) (ha : a.DrawnFrom N) (hb : b.DrawnFrom N) : Same a b ↔ Same b a := by
  induction ha generalizing b with
  | @mk a hself hmembers ih =>
    have ha : a.DrawnFrom N := ⟨hself, hmembers⟩
    have hflip : ∀ x ∈ a.members, ∀ y ∈ b.members, Same x y ↔ Same y x :=
      fun x hx y hy => ih x hx (hb.member hy)
    rw [same_iff, same_iff]
    exact ⟨alike_flip hN ha hb hflip, alike_flip hN hb ha fun y hy x hx => (hflip x hx y hy).symm⟩

end Value

theorem eq_apply_iff {a b : Value} : BinaryOp.eq.apply a b = .ok (.bool true) ↔ a.Same b := by
  simp [BinaryOp.apply, Value.Same]

/-- On values that hold numbers of such a kind, equality is reflexive, symmetric and transitive. -/
theorem equality_is_equivalence {N : Numbers} (hN : N.Apart) {a b c : Value} (ha : a.DrawnFrom N)
    (hb : b.DrawnFrom N) (hc : c.DrawnFrom N) :
    BinaryOp.eq.apply a a = .ok (.bool true) ∧
    BinaryOp.eq.apply a b = BinaryOp.eq.apply b a ∧
    (BinaryOp.eq.apply a b = .ok (.bool true) → BinaryOp.eq.apply b c = .ok (.bool true) →
      BinaryOp.eq.apply a c = .ok (.bool true)) := by
  refine ⟨eq_apply_iff.2 (Value.same_self ha), ?_, fun hab hbc => ?_⟩
  · have hcomm := Value.same_comm hN ha hb
    rw [Value.Same, Value.Same, ← Bool.eq_iff_iff] at hcomm
    rw [BinaryOp.apply, BinaryOp.apply, hcomm]
  · rw [eq_apply_iff] at hab hbc ⊢
    exact Value.same_trans hN ha hb hc hab hbc

/-- The members of a set have no order, and an integer inside them equals the same number. -/
theorem sets_of_lists_equal :
    (Value.set [.list [.int 1], .int 2]).DrawnFrom .exact ∧
    (Value.set [.int 2, .list [.float ⟨0x3ff0000000000000⟩]]).DrawnFrom .exact ∧
    (Value.set [.int 2, .list [.int 1]]).DrawnFrom .exact ∧
    BinaryOp.eq.apply (.set [.list [.int 1], .int 2]) (.set [.int 2, .list [.int 1]]) =
      .ok (.bool true) := by
  have ha : (Value.set [.list [.int 1], .int 2]).DrawnFrom .exact := by
    simp [Numbers.exact]
    decide +kernel
  have hb : (Value.set [.int 2, .list [.float ⟨0x3ff0000000000000⟩]]).DrawnFrom .exact := by
    simp [Numbers.exact]
    decide +kernel
  have hc : (Value.set [.int 2, .list [.int 1]]).DrawnFrom .exact := by
    simp [Numbers.exact]
    decide +kernel
  refine ⟨ha, hb, hc, ?_⟩
  exact (equality_is_equivalence Numbers.exact_apart ha hb hc).2.2
    (eq_apply_iff.2 (by decide +kernel)) (eq_apply_iff.2 (by decide +kernel))

/-- Two neighbours among the large integers have one nearest floating-point number. Both equal it and not
each other, and a set of lists of both equals one in which only this number is found, not the other
way round. -/
theorem neighbours_equal_one_float :
    BinaryOp.eq.apply (.int 9007199254740993) (.float ⟨0x4340000000000000⟩) = .ok (.bool true) ∧
    BinaryOp.eq.apply (.float ⟨0x4340000000000000⟩) (.int 9007199254740992) = .ok (.bool true) ∧
    BinaryOp.eq.apply (.int 9007199254740993) (.int 9007199254740992) ≠ .ok (.bool true) ∧
    BinaryOp.eq.apply
      (Value.setOf [.list [.int 9007199254740993], .list [.int 9007199254740992]])
      (Value.setOf [.list [.float ⟨0x4340000000000000⟩], .list [.int 0]]) = .ok (.bool true) ∧
    BinaryOp.eq.apply
      (Value.setOf [.list [.float ⟨0x4340000000000000⟩], .list [.int 0]])
      (Value.setOf [.list [.int 9007199254740993], .list [.int 9007199254740992]]) ≠
        .ok (.bool true) := by
  simp only [ne_eq, eq_apply_iff]
  decide +kernel

end StreamLang
