import StreamLang.Proofs.Checker.Declares
import StreamLang.Proofs.Typing.Cover

/-! Compatibility of types. Refinements play no part in it, however deep they stand in a type, and the
common type of two branches is the same from either side, up to compatibility. -/

namespace StreamLang

namespace Ty

mutual

/-- Some of the refinements in the first type, at any depth, have given way to their bases. -/
inductive Loosens : Ty → Ty → Prop
  | refl (a : Ty) : Loosens a a
  | base {name : String} {a b : Ty} (h : Loosens a b) : Loosens (.refined name a) b
  | refined {name : String} {a b : Ty} (h : Loosens a b) :
    Loosens (.refined name a) (.refined name b)
  | list {a b : Ty} (h : Loosens a b) : Loosens (.list a) (.list b)
  | map {k k' v v' : Ty} (hk : Loosens k k') (hv : Loosens v v') : Loosens (.map k v) (.map k' v')
  | set {a b : Ty} (h : Loosens a b) : Loosens (.set a) (.set b)
  | option {a b : Ty} (h : Loosens a b) : Loosens (.option a) (.option b)
  | result {a a' e e' : Ty} (ha : Loosens a a') (he : Loosens e e') :
    Loosens (.result a e) (.result a' e')
  | stream {a b : Ty} (h : Loosens a b) : Loosens (.stream a) (.stream b)
  | future {a b : Ty} (h : Loosens a b) : Loosens (.future a) (.future b)
  | tuple {as bs : List Ty} (h : LoosensAll as bs) : Loosens (.tuple as) (.tuple bs)
  | function {ps qs : List Ty} {r r' : Ty} (hps : LoosensAll ps qs) (hr : Loosens r r') :
    Loosens (.function ps r) (.function qs r')

/-- One by one, in lists of one length. -/
inductive LoosensAll : List Ty → List Ty → Prop
  | nil : LoosensAll [] []
  | cons {a b : Ty} {as bs : List Ty} (h : Loosens a b) (hs : LoosensAll as bs) :
    LoosensAll (a :: as) (b :: bs)

end

mutual

/-- The type without refinements. -/
def unrefined : Ty → Ty
  | refined _ a => unrefined a
  | list a => .list (unrefined a)
  | map k v => .map (unrefined k) (unrefined v)
  | set a => .set (unrefined a)
  | option a => .option (unrefined a)
  | result a e => .result (unrefined a) (unrefined e)
  | stream a => .stream (unrefined a)
  | future a => .future (unrefined a)
  | tuple as => .tuple (unrefinedAll as)
  | function ps r => .function (unrefinedAll ps) (unrefined r)
  | a => a

def unrefinedAll : List Ty → List Ty
  | [] => []
  | a :: as => unrefined a :: unrefinedAll as

end

theorem unrefined_base (a : Ty) : a.base.unrefined = a.unrefined := by
  fun_induction base a with
  | case1 name a ih => rw [ih, unrefined]
  | case2 => rfl

theorem base_ne_refined {a b : Ty} {name : String} : a.base ≠ .refined name b := by
  fun_induction base a with
  | case1 name a ih => exact ih
  | case2 a hnot => rintro rfl; exact hnot name b rfl

theorem base_unrefined (a : Ty) : a.unrefined.base = a.unrefined := by
  rw [← unrefined_base]
  fun_induction base a with
  | case1 name a ih => exact ih
  | case2 a hnot => cases a with
    | refined name a => exact absurd rfl (hnot name a)
    | _ => simp only [unrefined, base]

mutual

theorem Loosens.unrefined_eq : ∀ {a b : Ty}, a.Loosens b → a.unrefined = b.unrefined
  | _, _, .refl _ => rfl
  | _, _, .base h => h.unrefined_eq
  | _, _, .refined h => h.unrefined_eq
  | _, _, .list h => congrArg list h.unrefined_eq
  | _, _, .map hk hv => congrArg₂ map hk.unrefined_eq hv.unrefined_eq
  | _, _, .set h => congrArg set h.unrefined_eq
  | _, _, .option h => congrArg option h.unrefined_eq
  | _, _, .result ha he => congrArg₂ result ha.unrefined_eq he.unrefined_eq
  | _, _, .stream h => congrArg stream h.unrefined_eq
  | _, _, .future h => congrArg future h.unrefined_eq
  | _, _, .tuple h => congrArg tuple h.unrefinedAll_eq
  | _, _, .function hps hr => congrArg₂ function hps.unrefinedAll_eq hr.unrefined_eq

theorem LoosensAll.unrefinedAll_eq : ∀ {as bs : List Ty}, LoosensAll as bs →
    unrefinedAll as = unrefinedAll bs
  | _, _, .nil => rfl
  | _, _, .cons h hs => congrArg₂ List.cons h.unrefined_eq hs.unrefinedAll_eq

end

mutual

theorem fits_unrefined (flip : Bool) : ∀ a b : Ty,
    a.unrefined.fits flip b.unrefined = a.fits flip b
  | .refined _ a, b => fits_unrefined flip a b
  | .unknown, _ => rfl
  | .list a, b | .set a, b | .option a, b | .stream a, b | .future a, b => by
    rw [← unrefined_base b]
    simp only [unrefined, fits, base_unrefined]
    cases hb : b.base with
    | refined name c => exact (base_ne_refined hb).elim
    | _ => simp only [unrefined, fits_unrefined flip a]
  | .map a e, b | .result a e, b => by
    rw [← unrefined_base b]
    simp only [unrefined, fits, base_unrefined]
    cases hb : b.base with
    | refined name c => exact (base_ne_refined hb).elim
    | _ => simp only [unrefined, fits_unrefined flip a, fits_unrefined flip e]
  | .tuple as, b => by
    rw [← unrefined_base b]
    simp only [unrefined, fits, base_unrefined]
    cases hb : b.base with
    | refined name c => exact (base_ne_refined hb).elim
    | _ => simp only [unrefined, fitsAll_unrefined flip as]
  | .function ps r, b => by
    rw [← unrefined_base b]
    simp only [unrefined, fits, base_unrefined]
    cases hb : b.base with
    | refined name c => exact (base_ne_refined hb).elim
    | _ => simp only [unrefined, fitsAll_unrefined (!flip) ps, fits_unrefined flip r]
  | .int, b | .float, b | .text, b | .bool, b | .void, b | .model, b | .prediction, b
  | .record _, b | .enum _, b => by
    rw [← unrefined_base b]
    simp only [unrefined, fits, base_unrefined]
    cases hb : b.base with
    | refined name c => exact (base_ne_refined hb).elim
    | _ => simp only [unrefined]

theorem fitsAll_unrefined (flip : Bool) : ∀ as bs : List Ty,
    fitsAll flip (unrefinedAll as) (unrefinedAll bs) = fitsAll flip as bs
  | [], [] => rfl
  | [], _ :: _ => rfl
  | _ :: _, [] => rfl
  | a :: as, b :: bs => by
    simp only [unrefinedAll, fitsAll, fits_unrefined flip a b, fitsAll_unrefined flip as bs]

end

/-- What fits is the same with the refinements and without them. -/
theorem Loosens.accepts_eq {a a' b b' : Ty} (ha : a.Loosens a') (hb : b.Loosens b') :
    a'.accepts b' = a.accepts b := by
  calc a'.accepts b' = a'.unrefined.accepts b'.unrefined := (fits_unrefined false a' b').symm
    _ = a.unrefined.accepts b.unrefined := by rw [ha.unrefined_eq, hb.unrefined_eq]
    _ = a.accepts b := fits_unrefined false a b

/-- The types accept each other. -/
def Compatible (a b : Ty) : Prop := a.accepts b = true ∧ b.accepts a = true

theorem Compatible.refl (a : Ty) : a.Compatible a := ⟨accepts_refl a, accepts_refl a⟩

theorem Compatible.base {a b : Ty} (h : a.Compatible b) : a.base.Compatible b.base := by
  simpa only [Compatible, accepts, fits_base_left, fits_base_right] using h

/-- Both joins are one of the two types, the same one where only one of them will do. -/
theorem join_compatible (a b : Ty) : (a.join b).Compatible (b.join a) := by
  unfold join
  split
  · rename_i ha
    split
    · rename_i hb
      exact Compatible.base ⟨(Bool.and_eq_true_iff.1 ha).1, (Bool.and_eq_true_iff.1 hb).1⟩
    · exact .refl _
  · split <;> exact .refl _

end Ty

namespace Check

theorem Adds.exists_state {α : Type} {x : CheckM α} (h : Adds x) (s : State) :
    ∃ found, (x s).2 = { s with findings := found } := by
  obtain ⟨new, hend⟩ := h s
  exact ⟨_, hend.state⟩

theorem Adds.value_eq {α : Type} {x : CheckM α} (h : Adds x) (s : State) (found : Array Diagnostic) :
    (x { s with findings := found }).1 = (x s).1 := by
  obtain ⟨new, hend⟩ := h s
  exact hend.value found

/-- Both branches have the types that they have by themselves. -/
theorem infer_branches (body : Body) (span : Span) (test whenTrue whenFalse : Expr) (s : State) :
    (infer body (.branch span test whenTrue (some whenFalse)) s).1 =
      (infer body whenTrue s).1.join (infer body whenFalse s).1 := by
  have htest : Adds (do
      let t ← infer body test
      expectOperand t .bool .condition test.span) :=
    .bind (infer_adds body test) fun _ => expectOperand_adds _ _ _ _
  obtain ⟨found, hmid⟩ := htest.exists_state s
  obtain ⟨found', hend⟩ := (infer_adds body whenTrue).exists_state { s with findings := found }
  calc (infer body (.branch span test whenTrue (some whenFalse)) s).1
      = (infer body whenTrue { s with findings := found }).1.join
          (infer body whenFalse (infer body whenTrue { s with findings := found }).2).1 := by
        rw [← hmid, infer]
        rfl
    _ = (infer body whenTrue s).1.join (infer body whenFalse s).1 := by
        rw [hend, (infer_adds body whenTrue).value_eq s found, (infer_adds body whenFalse).value_eq _ found',
          (infer_adds body whenFalse).value_eq s found]

end Check

/-- Every type accepts itself, refinements at any depth make no difference to what accepts what, and the
join of two types and so the type of a two-way branch is the same in either order, up to compatibility. -/
theorem compatibility_is_well_behaved :
    (∀ t : Ty, t.accepts t = true) ∧
    (∀ a a' b b' : Ty, a.Loosens a' → b.Loosens b' → a'.accepts b' = a.accepts b) ∧
    (∀ a b : Ty, (a.join b).accepts (b.join a) = true ∧ (b.join a).accepts (a.join b) = true) ∧
    ∀ (body : Check.Body) (s : Check.State) (span : Span) (test e e' : Expr),
      ((Check.infer body (.branch span test e (some e')) s).1.Compatible
        (Check.infer body (.branch span test e' (some e)) s).1) := by
  refine ⟨Ty.accepts_refl, fun _ _ _ _ ha hb => ha.accepts_eq hb, Ty.join_compatible, ?_⟩
  intro body s span test e e'
  rw [Check.infer_branches, Check.infer_branches]
  exact Ty.join_compatible _ _

/-- A function of percents that gives a list of them is taken where one of integers would be. -/
theorem percents_fit_as_integers :
    let percent := Ty.refined "Percent" (.refined "Natural" .int)
    let f := Ty.function [percent, .option percent] (.list percent)
    let g := Ty.function [.int, .option (.refined "Natural" .int)] (.list .int)
    let wanted := Ty.function [percent, .option .int] (.list .float)
    f.Loosens g ∧ wanted.accepts g = wanted.accepts f ∧ wanted.accepts f = true := by
  intro percent f g wanted
  have hpercent : percent.Loosens .int := .base (.base (.refl _))
  have hfunction : f.Loosens g :=
    .function (.cons hpercent (.cons (.option (.base (.refl _))) .nil)) (.list hpercent)
  exact ⟨hfunction, compatibility_is_well_behaved.2.1 _ _ f g (.refl _) hfunction, by decide⟩

end StreamLang
