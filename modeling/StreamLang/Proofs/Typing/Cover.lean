import StreamLang.Check.Expr
import StreamLang.Proofs.Typing.Conforms

/-! The type that a list, a map or a `match` has for its items and what the types of the single items are. The
join of several types accepts each of them unless a type in which something is unknown has given way
to a later one: acceptance can be chained only through a type that says all. -/

namespace StreamLang

namespace Ty

mutual

/-- Nothing in the type is unknown. -/
def definite : Ty → Bool
  | list a | set a | option a | stream a | future a => definite a
  | map a b | result a b => definite a && definite b
  | tuple as => definiteAll as
  | function ps a => definiteAll ps && definite a
  | refined _ a => definite a
  | unknown => false
  | _ => true

def definiteAll : List Ty → Bool
  | [] => true
  | a :: as => definite a && definiteAll as

end

theorem definite_base (a : Ty) : a.base.definite = a.definite := by
  fun_induction base a with
  | case1 name a ih => rw [ih, definite]
  | case2 => rfl

/-- The unknown type accepts all and is not definite. -/
theorem not_definite_of_base {b : Ty} (hbase : b.base = .unknown) (hb : b.definite = true) :
    False := by
  rw [← definite_base, hbase] at hb
  cases hb

theorem fits_base_right (flip : Bool) : ∀ a b : Ty, a.fits flip b.base = a.fits flip b
  | .refined _ a, b => by rw [fits, fits, fits_base_right flip a b]
  | .unknown, _ => rfl
  | .int, b | .float, b | .text, b | .bool, b | .void, b | .model, b | .prediction, b => by
    simp only [fits, base_base]
  | .list _, b | .set _, b | .option _, b | .stream _, b | .future _, b => by
    simp only [fits, base_base]
  | .map _ _, b | .result _ _, b | .tuple _, b | .function _ _, b | .record _, b | .enum _, b => by
    simp only [fits, base_base]

mutual

theorem fits_refl (flip : Bool) : ∀ a : Ty, a.fits flip a = true
  | .refined _ a => by
    rw [fits, ← fits_base_right, base, fits_base_right]
    exact fits_refl flip a
  | .unknown | .int | .float | .text | .bool | .void | .model | .prediction => by simp [fits, base]
  | .record _ | .enum _ => by simp [fits, base]
  | .list a | .set a | .option a | .stream a | .future a => by
    simp only [fits, base, fits_refl flip a]
  | .map a b | .result a b => by
    simp only [fits, base, fits_refl flip a, fits_refl flip b, Bool.and_self]
  | .tuple as => by simp only [fits, base, fitsAll_refl flip as]
  | .function ps a => by
    simp only [fits, base, fitsAll_refl (!flip) ps, fits_refl flip a, Bool.and_self]

theorem fitsAll_refl (flip : Bool) : ∀ as : List Ty, fitsAll flip as as = true
  | [] => by rw [fitsAll]
  | a :: as => by rw [fitsAll, fits_refl flip a, fitsAll_refl flip as, Bool.and_self]

end

mutual

/-- Through a definite type acceptance can be chained. -/
theorem fits_trans : ∀ {flip : Bool} {a b c : Ty}, b.definite = true → a.fits flip b = true →
    b.fits flip c = true → a.fits flip c = true
  | _, .refined _ a, b, c, hb, hab, hbc => by
    rw [fits] at hab ⊢
    exact fits_trans hb hab hbc
  | _, .unknown, _, _, _, _, _ => by rw [fits]
  | _, .list _, b, c, hb, hab, hbc | _, .set _, b, c, hb, hab, hbc
  | _, .option _, b, c, hb, hab, hbc | _, .stream _, b, c, hb, hab, hbc
  | _, .future _, b, c, hb, hab, hbc => by
    unfold fits at hab ⊢
    split at hab
    · rename_i hbase
      rw [← definite_base, hbase, definite] at hb
      rw [← fits_base_left, hbase, fits] at hbc
      split at hbc
      · exact fits_trans hb hab hbc
      · rfl
      · cases hbc
    · rename_i hbase
      exact (not_definite_of_base hbase hb).elim
    · cases hab
  | _, .map _ _, b, c, hb, hab, hbc | _, .result _ _, b, c, hb, hab, hbc => by
    unfold fits at hab ⊢
    split at hab
    · rename_i hbase
      rw [← definite_base, hbase] at hb
      rw [← fits_base_left, hbase, fits] at hbc
      obtain ⟨hb₁, hb₂⟩ := Bool.and_eq_true_iff.1 hb
      obtain ⟨hab₁, hab₂⟩ := Bool.and_eq_true_iff.1 hab
      split at hbc
      · obtain ⟨hbc₁, hbc₂⟩ := Bool.and_eq_true_iff.1 hbc
        exact Bool.and_eq_true_iff.2 ⟨fits_trans hb₁ hab₁ hbc₁, fits_trans hb₂ hab₂ hbc₂⟩
      · rfl
      · cases hbc
    · rename_i hbase
      exact (not_definite_of_base hbase hb).elim
    · cases hab
  | _, .tuple _, b, c, hb, hab, hbc => by
    unfold fits at hab ⊢
    split at hab
    · rename_i hbase
      rw [← definite_base, hbase] at hb
      rw [← fits_base_left, hbase, fits] at hbc
      split at hbc
      · exact fitsAll_trans hb hab hbc
      · rfl
      · cases hbc
    · rename_i hbase
      exact (not_definite_of_base hbase hb).elim
    · cases hab
  | _, .function _ _, b, c, hb, hab, hbc => by
    unfold fits at hab ⊢
    split at hab
    · rename_i hbase
      rw [← definite_base, hbase] at hb
      rw [← fits_base_left, hbase, fits] at hbc
      obtain ⟨hb₁, hb₂⟩ := Bool.and_eq_true_iff.1 hb
      obtain ⟨hab₁, hab₂⟩ := Bool.and_eq_true_iff.1 hab
      split at hbc
      · obtain ⟨hbc₁, hbc₂⟩ := Bool.and_eq_true_iff.1 hbc
        exact Bool.and_eq_true_iff.2 ⟨fitsAll_trans hb₁ hab₁ hbc₁, fits_trans hb₂ hab₂ hbc₂⟩
      · rfl
      · cases hbc
    · rename_i hbase
      exact (not_definite_of_base hbase hb).elim
    · cases hab
  | _, .text, b, c, hb, hab, hbc | _, .bool, b, c, hb, hab, hbc | _, .void, b, c, hb, hab, hbc
  | _, .model, b, c, hb, hab, hbc | _, .prediction, b, c, hb, hab, hbc => by
    unfold fits at hab
    split at hab
    · rename_i hbase
      rwa [← fits_base_left, hbase] at hbc
    · rename_i hbase
      exact (not_definite_of_base hbase hb).elim
    · cases hab
  | _, .record _, b, c, hb, hab, hbc | _, .enum _, b, c, hb, hab, hbc => by
    unfold fits at hab
    split at hab
    · rename_i hbase
      rwa [← fits_base_left, hbase, ← eq_of_beq hab] at hbc
    · rename_i hbase
      exact (not_definite_of_base hbase hb).elim
    · cases hab
  | flip, .int, b, c, hb, hab, hbc => by
    unfold fits at hab
    split at hab
    · rename_i hbase
      rwa [← fits_base_left, hbase] at hbc
    · rename_i hbase
      exact (not_definite_of_base hbase hb).elim
    · rename_i hbase
      rw [← fits_base_left, hbase, fits, hab] at hbc
      rw [hab, fits]
      split at hbc <;> simp_all only [Bool.not_true, Bool.false_eq_true]
    · cases hab
  | flip, .float, b, c, hb, hab, hbc => by
    unfold fits at hab
    split at hab
    · rename_i hbase
      rwa [← fits_base_left, hbase] at hbc
    · rename_i hbase
      exact (not_definite_of_base hbase hb).elim
    · rename_i hbase
      rw [Bool.not_eq_true'] at hab
      rw [← fits_base_left, hbase, fits, hab] at hbc
      rw [hab, fits]
      split at hbc <;> simp_all only [Bool.not_false, Bool.false_eq_true]
    · cases hab

theorem fitsAll_trans : ∀ {flip : Bool} {as bs cs : List Ty}, definiteAll bs = true →
    fitsAll flip as bs = true → fitsAll flip bs cs = true → fitsAll flip as cs = true
  | _, [], [], _, _, _, hbc => hbc
  | _, [], _ :: _, _, _, hab, _ => by cases hab
  | _, _ :: _, [], _, _, hab, _ => by cases hab
  | _, _ :: _, _ :: _, [], _, _, hbc => by cases hbc
  | _, _ :: _, _ :: _, _ :: _, hb, hab, hbc => by
    obtain ⟨hb₁, hb₂⟩ := Bool.and_eq_true_iff.1 hb
    obtain ⟨hab₁, hab₂⟩ := Bool.and_eq_true_iff.1 hab
    obtain ⟨hbc₁, hbc₂⟩ := Bool.and_eq_true_iff.1 hbc
    exact Bool.and_eq_true_iff.2 ⟨fits_trans hb₁ hab₁ hbc₁, fitsAll_trans hb₂ hab₂ hbc₂⟩

end

theorem accepts_base_left (a u : Ty) : a.base.accepts u = a.accepts u := fits_base_left false a u

theorem accepts_refl (a : Ty) : a.accepts a = true := fits_refl false a

/-- The join of the two is the second, which accepts the first but is not accepted by it. -/
def givesWay (a b : Ty) : Bool := !(a.accepts b && !a.isUnknown) && (b.accepts a && !b.isUnknown)

theorem join_accepts_right (a b : Ty) : (a.join b).accepts b = true := by
  unfold join
  split
  · rename_i h
    rw [accepts_base_left]
    exact (Bool.and_eq_true_iff.1 h).1
  · split
    · rw [accepts_base_left]
      exact accepts_refl b
    · rfl

/-- What the first type accepts is lost only where the second takes its place. -/
theorem join_accepts_left {a b u : Ty} (h : a.accepts u = true)
    (hway : a.givesWay b = true → b.accepts u = true) : (a.join b).accepts u = true := by
  unfold join
  split
  · rwa [accepts_base_left]
  · rename_i hnot
    split
    · rename_i hb
      rw [accepts_base_left]
      refine hway ?_
      rw [givesWay, hb, Bool.and_true, Bool.not_eq_true']
      exact Bool.eq_false_iff.2 hnot
    · rfl

/-- Whenever the type joined so far gives way to the next one, nothing in it is unknown, or the next one
accepts all that have been seen. -/
def steadyFrom (seen : List Ty) (joined : Ty) : List Ty → Bool
  | [] => true
  | t :: ts =>
    (!joined.givesWay t || joined.definite || seen.all t.accepts) &&
      steadyFrom (t :: seen) (joined.join t) ts

/-- In the join of the types, from first to last, no type in which something is unknown gives way to one that
does not accept all before it. -/
def steady : List Ty → Bool
  | [] => true
  | t :: ts => steadyFrom [t] t ts

/-- One turn: what was accepted stays accepted, and so does the next type. -/
theorem accepts_next {seen : List Ty} {joined t : Ty}
    (hseen : ∀ u ∈ seen, joined.accepts u = true)
    (hstep : (!joined.givesWay t || joined.definite || seen.all t.accepts) = true) :
    ∀ u ∈ t :: seen, (joined.join t).accepts u = true := by
  intro u hu
  rcases List.mem_cons.1 hu with rfl | hu
  · exact join_accepts_right joined u
  · refine join_accepts_left (hseen u hu) fun hway => ?_
    rw [hway, Bool.not_true, Bool.false_or, Bool.or_eq_true] at hstep
    rcases hstep with hdefinite | hall
    · have hjoined : t.accepts joined = true := by
        rw [givesWay, Bool.and_eq_true, Bool.and_eq_true] at hway
        exact hway.2.1
      exact fits_trans hdefinite hjoined (hseen u hu)
    · exact List.all_eq_true.1 hall u hu

/-- Where a type gave way, what the join accepts is what the next type accepts. -/
theorem step_of_accepts {seen : List Ty} {joined t : Ty}
    (h : ∀ u ∈ seen, (joined.join t).accepts u = true) :
    (!joined.givesWay t || joined.definite || seen.all t.accepts) = true := by
  cases hway : joined.givesWay t with
  | false => rfl
  | true =>
    rw [givesWay, Bool.and_eq_true, Bool.not_eq_true'] at hway
    have hjoin : joined.join t = t.base := by
      rw [join, if_neg (by simp [hway.1]), if_pos hway.2]
    have hall : seen.all t.accepts = true := by
      refine List.all_eq_true.2 fun u hu => ?_
      rw [← accepts_base_left, ← hjoin]
      exact h u hu
    rw [hall, Bool.or_true]

theorem steadyFrom_iff {seen ts : List Ty} {joined : Ty}
    (hseen : ∀ u ∈ seen, joined.accepts u = true) : steadyFrom seen joined ts = true ↔
      ∀ before, before <+: ts → ∀ u, u ∈ seen ∨ u ∈ before →
        (before.foldl join joined).accepts u = true := by
  induction ts generalizing seen joined with
  | nil =>
    refine ⟨fun _ before hle u hu => ?_, fun _ => rfl⟩
    cases List.prefix_nil.1 hle
    exact hseen u (by simpa using hu)
  | cons t ts ih =>
    rw [steadyFrom, Bool.and_eq_true]
    constructor
    · rintro ⟨hstep, hrest⟩ before hle u hu
      rcases before with _ | ⟨first, before⟩
      · exact hseen u (by simpa using hu)
      · obtain ⟨rfl, hbefore⟩ := List.cons_prefix_cons.1 hle
        refine (ih (accepts_next hseen hstep)).1 hrest before hbefore u ?_
        simp only [List.mem_cons] at hu ⊢
        tauto
    · intro h
      have hstep := step_of_accepts fun u hu =>
        h [t] (List.prefix_append [t] ts) u (.inl hu)
      refine ⟨hstep, (ih (accepts_next hseen hstep)).2 fun before hle u hu => ?_⟩
      refine h (t :: before) (List.cons_prefix_cons.2 ⟨rfl, hle⟩) u ?_
      simp only [List.mem_cons] at hu ⊢
      tauto

/-- The condition is exact: it holds when the join of the first types accepts these, however many they
are. -/
theorem steady_iff {ts : List Ty} : steady ts = true ↔
    ∀ before, before <+: ts → ∀ t ∈ before, (joinAll before).accepts t = true := by
  cases ts with
  | nil =>
    refine ⟨fun _ before hle t ht => ?_, fun _ => rfl⟩
    cases List.prefix_nil.1 hle
    cases ht
  | cons first ts =>
    have hfirst : ∀ u ∈ [first], first.accepts u = true := by simpa using accepts_refl first
    rw [steady, steadyFrom_iff hfirst]
    constructor
    · rintro h (_ | ⟨t, before⟩) hle u hu
      · cases hu
      · obtain ⟨rfl, hbefore⟩ := List.cons_prefix_cons.1 hle
        exact h before hbefore u (by simpa using hu)
    · intro h before hle u hu
      exact h (first :: before) (List.cons_prefix_cons.2 ⟨rfl, hle⟩) u (by simpa using hu)

/-- The join of several types accepts each of them. -/
theorem joinAll_accepts {ts : List Ty} (h : steady ts = true) :
    ∀ t ∈ ts, (joinAll ts).accepts t = true :=
  steady_iff.1 h ts (List.prefix_refl ts)

end Ty

namespace Check

/-- Before the arms at most one finding is reported. -/
theorem infer_cases (body : Body) (span : Span) (scrutinee : Expr) (arms : List MatchArm) (s : State) :
    ∃ findings, (infer body (.cases span scrutinee arms) s).1 =
      .joinAll (inferArms body (infer body scrutinee s).1 arms
        { (infer body scrutinee s).2 with findings }).1 := by
  simp only [infer, bind, StateT.bind]
  generalize (arms.getLast?.map fun a => a.pattern.isWildcard && a.guard.isNone).getD false = whole
  cases whole with
  | true => exact ⟨(infer body scrutinee s).2.findings, rfl⟩
  | false => exact ⟨_, rfl⟩

/-- The type that a list literal, a map literal and a `match` have for what is in them accepts the type of
each item, entry and arm. -/
theorem infer_accepts_members (body : Body) (s : State) :
    (∀ span items, Ty.steady (inferAll body items s).1 = true →
      ∃ elem, (infer body (.list span items) s).1 = .list elem ∧
        ∀ t ∈ (inferAll body items s).1, elem.accepts t = true) ∧
    (∀ span entries, Ty.steady (inferEntries body entries s).1 = true →
      ∃ value, (infer body (.map span entries) s).1 = .map .text value ∧
        ∀ t ∈ (inferEntries body entries s).1, value.accepts t = true) ∧
    ∀ span scrutinee arms, ∃ findings, ∀ tys,
      tys = (inferArms body (infer body scrutinee s).1 arms
        { (infer body scrutinee s).2 with findings }).1 →
      Ty.steady tys = true →
        ∀ t ∈ tys, (infer body (.cases span scrutinee arms) s).1.accepts t = true := by
  refine ⟨fun span items h => ⟨_, rfl, Ty.joinAll_accepts h⟩,
    fun span entries h => ⟨_, rfl, Ty.joinAll_accepts h⟩, fun span scrutinee arms => ?_⟩
  obtain ⟨findings, hcases⟩ := infer_cases body span scrutinee arms s
  refine ⟨findings, fun tys htys hsteady => ?_⟩
  rw [hcases, ← htys]
  exact Ty.joinAll_accepts hsteady

/-- A check in which nothing is declared. -/
def undeclared : State := ⟨.empty, .empty, #[]⟩

/-- `1`, `0.0` and `"a"` -/
def oneZeroText : List Expr :=
  [.literal .none (.int 1), .literal .none (.float .zero), .literal .none (.text "a")]

/-- `{ "x": 1, "y": 0.0 }` -/
def oneZeroEntries : List (String × Expr) :=
  [("x", .literal .none (.int 1)), ("y", .literal .none (.float .zero))]

/-- `_ => 1, _ => 0.0, _ => "a"` -/
def oneZeroTextArms : List MatchArm :=
  oneZeroText.map fun e => ⟨.none, .wildcard .none, none, e⟩

/-- The integer gives way to the other number, and nothing is known of what may be a number or a text. -/
theorem oneZeroText_accepted :
    Ty.steady (inferAll .module oneZeroText undeclared).1 = true ∧
    (∃ elem, (infer .module (.list .none oneZeroText) undeclared).1 = .list elem ∧
      ∀ t ∈ (inferAll .module oneZeroText undeclared).1, elem.accepts t = true) ∧
    Ty.steady (inferEntries .module oneZeroEntries undeclared).1 = true ∧
    (∃ value, (infer .module (.map .none oneZeroEntries) undeclared).1 = .map .text value ∧
      ∀ t ∈ (inferEntries .module oneZeroEntries undeclared).1, value.accepts t = true) ∧
    Ty.steady [.int, .float, .text] = true ∧
    ∀ t ∈ [Ty.int, .float, .text],
      (infer .module (.cases .none (.literal .none .void) oneZeroTextArms) undeclared).1.accepts t =
        true := by
  obtain ⟨hlist, hmap, hcases⟩ := infer_accepts_members .module undeclared
  have hitems : Ty.steady (inferAll .module oneZeroText undeclared).1 = true := by decide
  have hentries : Ty.steady (inferEntries .module oneZeroEntries undeclared).1 = true := by decide
  have harms : Ty.steady [.int, .float, .text] = true := by decide
  obtain ⟨findings, hcases⟩ := hcases .none (.literal .none .void) oneZeroTextArms
  exact ⟨hitems, hlist .none oneZeroText hitems, hentries, hmap .none oneZeroEntries hentries, harms,
    hcases _ rfl harms⟩

/-- `1`, `"a"` and `2` -/
def textBetween : List Expr :=
  [.literal .none (.int 1), .literal .none (.text "a"), .literal .none (.int 2)]

theorem text_between_not_accepted :
    ¬ ∀ (body : Body) (s : State) (span : Span) (items : List Expr),
      ∃ elem, (infer body (.list span items) s).1 = .list elem ∧
        ∀ t ∈ (inferAll body items s).1, elem.accepts t = true := by
  intro h
  obtain ⟨elem, helem, haccepts⟩ := h .module undeclared .none textBetween
  have htypes : (inferAll .module textBetween undeclared).1 = [.int, .text, .int] := rfl
  have hlist : (infer .module (.list .none textBetween) undeclared).1 = .list .int := rfl
  rw [hlist] at helem
  cases helem
  have htext := haccepts .text (by rw [htypes]; simp)
  cases htext

end Check

end StreamLang
