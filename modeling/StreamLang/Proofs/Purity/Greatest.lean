import Mathlib.Data.Set.Card
import Mathlib.Order.Bounds.Basic
import StreamLang.Proofs.Purity.Soundness

/-! Which functions are marked as pure, told without the rounds: the greatest set of functions that
have no effect of their own and refer to each other only. In which order the functions stand, and in
which order those that do not belong are removed, makes no difference. -/

namespace StreamLang

namespace Purity

variable {summaries : List (FunctionId × Summary)} {S T : Set FunctionId}

/-- No member has an effect of its own, and a member refers only to members. -/
def SelfContained (summaries : List (FunctionId × Summary)) (S : Set FunctionId) : Prop :=
  ∀ id ∈ S, ∃ f ∈ summaries, f.1 = id ∧ f.2.Harmless (· ∈ S)

theorem SelfContained.mono {others : List (FunctionId × Summary)} (h : summaries ⊆ others)
    (hS : SelfContained summaries S) : SelfContained others S := by
  intro id hid
  obtain ⟨f, hf, hharmless⟩ := hS id hid
  exact ⟨f, h hf, hharmless⟩

/-! The rounds -/

theorem SelfContained.prune {fs : List (FunctionId × Summary)} (h : SelfContained fs S) :
    SelfContained (prune fs) S := by
  intro id hid
  obtain ⟨f, hf, hname, hharmless⟩ := h id hid
  refine ⟨f, List.mem_filter.2 ⟨hf, List.all_eq_true.2 fun c hc => ?_⟩, hname, hharmless⟩
  obtain ⟨g, hg, hgname, -⟩ := h c (hharmless.calls c hc)
  exact List.any_eq_true.2 ⟨g, hg, beq_iff_eq.2 hgname⟩

theorem SelfContained.pruneAll {fs : List (FunctionId × Summary)} (h : SelfContained fs S)
    (n : Nat) : SelfContained (pruneAll n fs) S := by
  induction n generalizing fs with
  | zero => exact h
  | succ n ih => exact ih h.prune

theorem SelfContained.harmless_start (h : SelfContained summaries S) :
    SelfContained (summaries.filter fun f => !f.2.effectful) S := by
  intro id hid
  obtain ⟨f, hf, hname, hharmless⟩ := h id hid
  exact ⟨f, List.mem_filter.2 ⟨hf, by simp [hharmless.effectful]⟩, hname, hharmless⟩

theorem pureFunctions_isGreatest (summaries : List (FunctionId × Summary)) :
    IsGreatest {S | SelfContained summaries S} {id | id ∈ pureFunctions summaries} := by
  refine ⟨fun _ => harmless_of_mem, fun S hS id hid => ?_⟩
  obtain ⟨f, hf, hname, -⟩ := hS.harmless_start.pruneAll summaries.length id hid
  exact List.mem_map.2 ⟨f, hf, hname⟩

theorem pruneAll_add (m n : Nat) (fs : List (FunctionId × Summary)) :
    pruneAll (m + n) fs = pruneAll n (pruneAll m fs) := by
  induction m generalizing fs with
  | zero => rw [Nat.zero_add, pruneAll]
  | succ m ih => rw [Nat.succ_add, pruneAll, ih, pruneAll]

/-- After as many rounds as there are functions another one removes nothing. -/
theorem pruneAll_of_length_le {fs : List (FunctionId × Summary)} {m n : Nat} (hm : fs.length ≤ m)
    (hn : m ≤ n) : pruneAll n fs = pruneAll m fs := by
  obtain ⟨k, rfl⟩ := Nat.exists_eq_add_of_le hn
  rw [pruneAll_add, pruneAll_of_fixed (prune_pruneAll hm)]

/-! Removal in any order -/

/-- The functions without an effect of their own. -/
def candidates (summaries : List (FunctionId × Summary)) : Set FunctionId :=
  {id | ∃ f ∈ summaries, f.1 = id ∧ f.2.effectful = false}

/-- The function does not belong to the set: it refers to something outside. -/
def Tainted (summaries : List (FunctionId × Summary)) (S : Set FunctionId) (id : FunctionId) :
    Prop :=
  ∀ f ∈ summaries, f.1 = id → ¬f.2.Harmless (· ∈ S)

/-- The set is left after so many rounds, each of which removes some of the functions that do not
belong to what was left before. -/
inductive Sifts (summaries : List (FunctionId × Summary)) : Nat → Set FunctionId → Prop
  | start : Sifts summaries 0 (candidates summaries)
  | remove {n : Nat} {S batch : Set FunctionId} (h : Sifts summaries n S) (hsome : batch.Nonempty)
      (hmem : batch ⊆ S) (htainted : ∀ id ∈ batch, Tainted summaries S id) :
      Sifts summaries (n + 1) (S \ batch)

theorem candidates_eq (summaries : List (FunctionId × Summary)) : candidates summaries =
    ↑((summaries.filter fun f => !f.2.effectful).map (·.1)).toFinset := by
  ext id
  simp [candidates, and_comm, and_assoc]

theorem candidates_finite (summaries : List (FunctionId × Summary)) :
    (candidates summaries).Finite := by
  rw [candidates_eq]
  exact Finset.finite_toSet _

theorem candidates_ncard_le (summaries : List (FunctionId × Summary)) :
    (candidates summaries).ncard ≤ summaries.length := by
  rw [candidates_eq, Set.ncard_coe_finset]
  calc _ ≤ ((summaries.filter fun f => !f.2.effectful).map (·.1)).length := List.toFinset_card_le _
    _ = (summaries.filter fun f => !f.2.effectful).length := List.length_map _
    _ ≤ summaries.length := List.length_filter_le _ _

namespace Sifts

variable {n : Nat}

theorem subset_candidates (h : Sifts summaries n S) : S ⊆ candidates summaries := by
  induction h with
  | start => exact subset_rfl
  | remove h hsome hmem htainted ih => exact Set.sdiff_subset.trans ih

/-- What belongs together is never removed. -/
theorem keeps (h : Sifts summaries n S) (hT : SelfContained summaries T) : T ⊆ S := by
  induction h with
  | start =>
    intro id hid
    obtain ⟨f, hf, hname, hharmless⟩ := hT id hid
    exact ⟨f, hf, hname, hharmless.effectful⟩
  | remove h hsome hmem htainted ih =>
    refine fun id hid => ⟨ih hid, fun hbatch => ?_⟩
    obtain ⟨f, hf, hname, hharmless⟩ := hT id hid
    exact htainted id hbatch f hf hname ⟨hharmless.effectful, fun c hc => ih (hharmless.calls c hc)⟩

/-- Each round leaves fewer functions. -/
theorem add_ncard_le (h : Sifts summaries n S) : n + S.ncard ≤ (candidates summaries).ncard := by
  induction h with
  | start => rw [Nat.zero_add]
  | @remove n S batch h hsome hmem htainted ih =>
    have hfinite : S.Finite := (candidates_finite summaries).subset h.subset_candidates
    have hfewer : (S \ batch).ncard < S.ncard :=
      Set.ncard_lt_ncard (hmem.sdiff_ssubset_of_nonempty hsome) hfinite
    omega

/-- When nothing is left that does not belong, the greatest set is left. -/
theorem eq_of_settled (h : Sifts summaries n S) (hsettled : ∀ id ∈ S, ¬Tainted summaries S id) :
    S = {id | id ∈ pureFunctions summaries} := by
  obtain ⟨hcontained, hgreatest⟩ := pureFunctions_isGreatest summaries
  refine (hgreatest fun id hid => ?_).antisymm (h.keeps hcontained)
  have hbelongs := hsettled id hid
  simp only [Tainted, not_forall, not_not] at hbelongs
  obtain ⟨f, hf, hname, hharmless⟩ := hbelongs
  exact ⟨f, hf, hname, hharmless⟩

end Sifts

end Purity

namespace Check

/-- As `Purity.SelfContained`, of the functions that modules declare. -/
def SelfContained (tables : List (ModuleUnit × Globals)) (S : Set FunctionId) : Prop :=
  ∀ id ∈ S, ∃ t ∈ tables, ∃ decl ∈ t.1.functions, id = ⟨t.1.name, decl.displayName⟩ ∧
    (Purity.summarizeFunction t.2 decl .start).Harmless (· ∈ S)

theorem selfContained_iff {tables : List (ModuleUnit × Globals)} {S : Set FunctionId} :
    SelfContained tables S ↔ Purity.SelfContained (tableSummaries tables) S := by
  refine forall₂_congr fun id hid => ⟨?_, ?_⟩
  · rintro ⟨t, ht, decl, hdecl, rfl, hharmless⟩
    exact ⟨_, List.mem_flatMap.2 ⟨t, ht, List.mem_map_of_mem hdecl⟩, rfl, hharmless⟩
  · rintro ⟨f, hf, rfl, hharmless⟩
    obtain ⟨t, ht, hsummary⟩ := List.mem_flatMap.1 hf
    obtain ⟨decl, hdecl, rfl⟩ := List.mem_map.1 hsummary
    exact ⟨t, ht, decl, hdecl, rfl, hharmless⟩

theorem pureFunctions_isGreatest (tables : List (ModuleUnit × Globals)) :
    IsGreatest {S | SelfContained tables S}
      {id | id ∈ Purity.pureFunctions (tableSummaries tables)} := by
  simp only [selfContained_iff]
  exact Purity.pureFunctions_isGreatest _

end Check

/-- The functions that are marked as pure are the greatest set whose members have no effect of their
own and refer to members only, whichever functions refer to each other: over all modules, and for
the modules of each program that is accepted. The order of the functions makes no difference, and
there are enough rounds, as more of them remove nothing. Nor does it make a difference what a round
removes of the functions that do not belong: there are as many rounds as functions at most, and
when nothing is left to remove, just the pure functions are left. -/
theorem pure_functions_are_greatest :
    (∀ tables : List (ModuleUnit × Globals),
      IsGreatest {S | Check.SelfContained tables S}
        {id | id ∈ Purity.pureFunctions (Check.tableSummaries tables)}) ∧
    (∀ (units : List ModuleUnit) (checked : Checked), Check.program units = .ok checked →
      (Check.tables units).map (·.1) = units ∧
      IsGreatest {S | Check.SelfContained (Check.tables units) S} {id | id ∈ checked.pure}) ∧
    ∀ summaries : List (FunctionId × Purity.Summary),
      (∀ others, (∀ f, f ∈ others ↔ f ∈ summaries) → ∀ id,
        id ∈ Purity.pureFunctions others ↔ id ∈ Purity.pureFunctions summaries) ∧
      (∀ n, summaries.length ≤ n →
        (Purity.pruneAll n (summaries.filter fun f => !f.2.effectful)).map (·.1) =
          Purity.pureFunctions summaries) ∧
      ∀ (n : Nat) (S : Set FunctionId), Purity.Sifts summaries n S →
        n ≤ summaries.length ∧
        ((∀ id ∈ S, ¬Purity.Tainted summaries S id) →
          S = {id | id ∈ Purity.pureFunctions summaries}) := by
  refine ⟨Check.pureFunctions_isGreatest, fun units checked h => ?_, fun summaries => ⟨?_, ?_, ?_⟩⟩
  · rw [Check.pure_eq h]
    exact ⟨Check.checkTables_units _ _ _, Check.pureFunctions_isGreatest _⟩
  · intro others hsame id
    have hcontained : ∀ S, Purity.SelfContained others S ↔ Purity.SelfContained summaries S :=
      fun S => ⟨.mono fun f => (hsame f).1, .mono fun f => (hsame f).2⟩
    have hothers := Purity.pureFunctions_isGreatest others
    simp only [hcontained] at hothers
    exact Set.ext_iff.1 (hothers.unique (Purity.pureFunctions_isGreatest summaries)) id
  · intro n hn
    have hrounds := List.length_filter_le (fun f => !f.2.effectful) summaries
    rw [Purity.pruneAll_of_length_le hrounds hn, Purity.pureFunctions]
  · intro n S h
    refine ⟨?_, h.eq_of_settled⟩
    calc n ≤ n + S.ncard := Nat.le_add_right _ _
      _ ≤ (Purity.candidates summaries).ncard := h.add_ncard_le
      _ ≤ summaries.length := Purity.candidates_ncard_le summaries

/-- A function that calls another one without arguments. -/
def caller (name callee : String) : FunctionDecl :=
  ⟨some name, [], none, .call .none (.name .none callee) [], false, .none⟩

def moduleOf (name : String) (fs : List FunctionDecl) : ModuleUnit :=
  ⟨name, ⟨fs.map fun d => ⟨.function d, false, .none⟩⟩, []⟩

/-- In each of two modules a function that calls one of the other, and one that comes to `ask`. -/
def rally : List (ModuleUnit × Globals) :=
  [(moduleOf "a" [caller "ping" "pong", caller "relay" "shout"],
      [("pong", .function ⟨"b", "pong"⟩ false), ("shout", .function ⟨"b", "shout"⟩ false)]),
    (moduleOf "b" [caller "pong" "ping", caller "shout" "ask"],
      [("ping", .function ⟨"a", "ping"⟩ false)])]

/-- What its functions do. -/
def rallySummaries : List (FunctionId × Purity.Summary) :=
  [(⟨"a", "ping"⟩, ⟨[], [⟨"b", "pong"⟩], false⟩), (⟨"a", "relay"⟩, ⟨[], [⟨"b", "shout"⟩], false⟩),
    (⟨"b", "pong"⟩, ⟨[], [⟨"a", "ping"⟩], false⟩), (⟨"b", "shout"⟩, ⟨[], [], true⟩)]

theorem rally_summaries : Check.tableSummaries rally = rallySummaries := by rfl

theorem rally_candidates :
    Purity.candidates rallySummaries = {⟨"a", "ping"⟩, ⟨"a", "relay"⟩, ⟨"b", "pong"⟩} := by
  simp [Purity.candidates_eq, rallySummaries]

/-- The first round removes the function that calls the one with an effect. -/
theorem rally_sifts : Purity.Sifts rallySummaries 1 {⟨"a", "ping"⟩, ⟨"b", "pong"⟩} := by
  have hround : Purity.Sifts rallySummaries 1
      (Purity.candidates rallySummaries \ {⟨"a", "relay"⟩}) := by
    refine .remove .start (Set.singleton_nonempty _) ?_ ?_
    · simp [rally_candidates]
    · rintro id rfl f hf hname hharmless
      simp only [rallySummaries, List.mem_cons, List.not_mem_nil, or_false] at hf
      rcases hf with rfl | rfl | rfl | rfl
      · exact absurd hname (by decide)
      · have hshout := hharmless.calls ⟨"b", "shout"⟩ (.head _)
        simp [rally_candidates] at hshout
      · exact absurd hname (by decide)
      · exact absurd hname (by decide)
  have hleft : Purity.candidates rallySummaries \ {⟨"a", "relay"⟩} =
      {⟨"a", "ping"⟩, ⟨"b", "pong"⟩} := by
    rw [rally_candidates]
    grind
  rwa [hleft] at hround

/-- The two that are left belong together. -/
theorem rally_settled : ∀ id ∈ ({⟨"a", "ping"⟩, ⟨"b", "pong"⟩} : Set FunctionId),
    ¬Purity.Tainted rallySummaries {⟨"a", "ping"⟩, ⟨"b", "pong"⟩} id := by
  rintro id (rfl | rfl) htainted
  · exact htainted _ (.head _) rfl ⟨rfl, by simp⟩
  · exact htainted _ (.tail _ (.tail _ (.head _))) rfl ⟨rfl, by simp⟩

theorem rally_is_pure :
    Check.program [countdownUnit] = .ok countdownChecked ∧
    IsGreatest {S | Check.SelfContained (Check.tables [countdownUnit]) S}
      {id | id ∈ countdownChecked.pure} ∧
    (∀ id, id ∈ Purity.pureFunctions rallySummaries.reverse ↔
      id ∈ Purity.pureFunctions (Check.tableSummaries rally)) ∧
    (Purity.pruneAll 9 (rallySummaries.filter fun f => !f.2.effectful)).map (·.1) =
      Purity.pureFunctions rallySummaries ∧
    1 ≤ rallySummaries.length ∧
    ({⟨"a", "ping"⟩, ⟨"b", "pong"⟩} : Set FunctionId) =
      {id | id ∈ Purity.pureFunctions (Check.tableSummaries rally)} := by
  obtain ⟨-, haccepted, hrally⟩ := pure_functions_are_greatest
  obtain ⟨horder, hrounds, hsifts⟩ := hrally rallySummaries
  obtain ⟨hcount, hleft⟩ := hsifts 1 _ rally_sifts
  rw [rally_summaries]
  exact ⟨countdown_checked, (haccepted _ _ countdown_checked).2,
    horder _ fun f => List.mem_reverse, hrounds 9 (by decide), hcount, hleft rally_settled⟩

end StreamLang
