import StreamLang.Proofs.Typing.World

/-! When a value conforms to a type, in a world that the program has come to. Of a function, a stream
and a future this tells what they give from there on, so that it stays true in every later world. -/

namespace StreamLang

variable {γ : Type} [Gateway γ]

/-- Pulled from time to time in one turn, the cursor gives the element at last; the second world is the one
after that. -/
inductive Cursor.Emits : Cursor → World γ → Value → World γ → Prop
  | now {c c' : Cursor} {w w' : World γ} {v : Value} {s : Interpreter γ} {fuel bound : Nat}
      (honward : w.Onward w')
      (hpull : c.pull (callWithin fuel) bound w'.state = .ok (some v, c') s) :
      Emits c w v (w'.withState s)
  | then {c c' : Cursor} {w w' u : World γ} {first v : Value} {s : Interpreter γ}
      {fuel bound : Nat} (honward : w.Onward w')
      (hpull : c.pull (callWithin fuel) bound w'.state = .ok (some first, c') s)
      (h : Emits c' (w'.withState s) v u) : Emits c w v u

theorem Cursor.Emits.of_onward {c : Cursor} {w w' u : World γ} {v : Value}
    (h : c.Emits w' v u) (honward : w.Onward w') : c.Emits w v u := by
  cases h with
  | now honward' hpull => exact .now (honward.trans honward') hpull
  | «then» honward' hpull h => exact .then (honward.trans honward') hpull h

mutual

/-- The value conforms to the type. -/
def Conforms : Ty → World γ → Value → Prop
  | .int, _, v => ∃ n, v = .int n
  | .float, _, v => (∃ n, v = .int n) ∨ ∃ x, v = .float x
  | .text, _, v => ∃ s, v = .text s
  | .bool, _, v => ∃ b, v = .bool b
  | .void, _, v => v = .void
  | .list t, w, v => ∃ items, v = .list items ∧ ∀ i ∈ items, Conforms t w i
  | .map _ t, w, v => ∃ entries, v = .map entries ∧ ∀ e ∈ entries, Conforms t w e.2
  | .set t, w, v => ∃ items, v = .set items ∧ ∀ i ∈ items, Conforms t w i
  | .option t, w, v => ∃ inner, v = .option inner ∧ ∀ x ∈ inner, Conforms t w x
  | .result t e, w, v => (∃ x, v = .ok x ∧ Conforms t w x) ∨ ∃ x, v = .err x ∧ Conforms e w x
  | .stream t, w, v => ∃ id p, v = .stream id p ∧ ∀ w' terminal x u, w.Later w' →
      Cursor.Emits (p.cursor terminal) w' x u → Conforms t u x
  | .future t, w, v => ∃ id, v = .future id ∧ ∀ w' x, w.Later w' →
      w'.state.scheduler.futures.state? id = some (.resolved x) → Conforms t w' x
  | .tuple ts, w, v => ∃ items, v = .tuple items ∧ ConformAll ts w items
  | .function params t, w, v => ∃ id c, v = .function id c ∧ ∀ w' fuel args x s, w.Later w' →
      args.length = params.length → callWithin fuel v args w'.state = .ok x s →
        Conforms t (w'.withState s) x
  | .record name, _, v => ∃ fields, v = .record name fields
  | .enum name, _, v => ∃ variant payload, v = .enum name variant payload
  | .refined _ base, w, v => Conforms base w v
  | .model, _, v => ∃ document, v = .model document
  | .prediction, _, v => ∃ document, v = .prediction document
  | .unknown, _, _ => True

/-- One by one the values conform to the types. -/
def ConformAll : List Ty → World γ → List Value → Prop
  | [], _, [] => True
  | t :: ts, w, v :: vs => Conforms t w v ∧ ConformAll ts w vs
  | _, _, _ => False

end

variable {w w' : World γ} {t : Ty} {v : Value}

theorem conforms_base (t : Ty) : Conforms t.base w v ↔ Conforms t w v := by
  fun_induction Ty.base t with
  | case1 n b ih => rw [ih, Conforms]
  | case2 => rfl

mutual

theorem Conforms.later (hlater : w.Later w') : ∀ {t : Ty} {v : Value}, Conforms t w v →
    Conforms t w' v
  | .int, _, h | .float, _, h | .text, _, h | .bool, _, h | .void, _, h => h
  | .record _, _, h | .enum _, _, h | .model, _, h | .prediction, _, h | .unknown, _, h => h
  | .list _, _, ⟨items, hv, h⟩ => ⟨items, hv, fun i hi => (h i hi).later hlater⟩
  | .map _ _, _, ⟨entries, hv, h⟩ => ⟨entries, hv, fun e he => (h e he).later hlater⟩
  | .set _, _, ⟨items, hv, h⟩ => ⟨items, hv, fun i hi => (h i hi).later hlater⟩
  | .option _, _, ⟨inner, hv, h⟩ => ⟨inner, hv, fun x hx => (h x hx).later hlater⟩
  | .result _ _, _, h => h.imp (fun ⟨x, hv, hx⟩ => ⟨x, hv, hx.later hlater⟩)
      fun ⟨x, hv, hx⟩ => ⟨x, hv, hx.later hlater⟩
  | .stream _, _, ⟨id, p, hv, h⟩ =>
      ⟨id, p, hv, fun u terminal x t hu => h u terminal x t (hlater.trans hu)⟩
  | .future _, _, ⟨id, hv, h⟩ => ⟨id, hv, fun u x hu => h u x (hlater.trans hu)⟩
  | .tuple _, _, ⟨items, hv, h⟩ => ⟨items, hv, h.later hlater⟩
  | .function _ _, _, ⟨id, c, hv, h⟩ =>
      ⟨id, c, hv, fun u fuel args x s hu => h u fuel args x s (hlater.trans hu)⟩
  | .refined _ base, _, h => Conforms.later hlater (t := base) h

theorem ConformAll.later (hlater : w.Later w') : ∀ {ts : List Ty} {vs : List Value},
    ConformAll ts w vs → ConformAll ts w' vs
  | [], [], h => h
  | _ :: _, _ :: _, ⟨h, hs⟩ => ⟨h.later hlater, hs.later hlater⟩

end

namespace Ty

mutual

/-- What conforms to the first type conforms to the second, by the make of these. -/
inductive Below : Ty → Ty → Prop
  | refl (a : Ty) : Below a a
  | unknown (a : Ty) : Below a .unknown
  | widen : Below .int .float
  | list {a b : Ty} (h : Below a b) : Below (.list a) (.list b)
  | map {k l a b : Ty} (h : Below a b) : Below (.map k a) (.map l b)
  | set {a b : Ty} (h : Below a b) : Below (.set a) (.set b)
  | option {a b : Ty} (h : Below a b) : Below (.option a) (.option b)
  | result {a b e f : Ty} (h : Below a b) (herr : Below e f) : Below (.result a e) (.result b f)
  | stream {a b : Ty} (h : Below a b) : Below (.stream a) (.stream b)
  | future {a b : Ty} (h : Below a b) : Below (.future a) (.future b)
  | tuple {as bs : List Ty} (h : BelowAll as bs) : Below (.tuple as) (.tuple bs)
  | function {ps qs : List Ty} {a b : Ty} (hparams : ps.length = qs.length) (h : Below a b) :
      Below (.function ps a) (.function qs b)
  | ofRefined {name : String} {a b : Ty} (h : Below a b) : Below (.refined name a) b
  | toRefined {name : String} {a b : Ty} (h : Below a b) : Below a (.refined name b)

inductive BelowAll : List Ty → List Ty → Prop
  | nil : BelowAll [] []
  | cons {a b : Ty} {as bs : List Ty} (h : Below a b) (hs : BelowAll as bs) :
      BelowAll (a :: as) (b :: bs)

end

end Ty

mutual

theorem Conforms.below : ∀ {a b : Ty} {w : World γ} {v : Value}, a.Below b → Conforms a w v →
    Conforms b w v
  | _, _, _, _, .refl _, hv => hv
  | _, _, _, _, .unknown _, _ => trivial
  | _, _, _, _, .widen, hv => .inl hv
  | _, _, _, _, .list h, ⟨items, hv, hi⟩ => ⟨items, hv, fun i hmem => (hi i hmem).below h⟩
  | _, _, _, _, .map h, ⟨entries, hv, he⟩ => ⟨entries, hv, fun e hmem => (he e hmem).below h⟩
  | _, _, _, _, .set h, ⟨items, hv, hi⟩ => ⟨items, hv, fun i hmem => (hi i hmem).below h⟩
  | _, _, _, _, .option h, ⟨inner, hv, hx⟩ => ⟨inner, hv, fun x hmem => (hx x hmem).below h⟩
  | _, _, _, _, .result h herr, hv => hv.imp (fun ⟨x, hv, hx⟩ => ⟨x, hv, hx.below h⟩)
      fun ⟨x, hv, hx⟩ => ⟨x, hv, hx.below herr⟩
  | _, _, _, _, .stream h, ⟨id, p, hv, hx⟩ =>
      ⟨id, p, hv, fun u terminal x t hu hemits => (hx u terminal x t hu hemits).below h⟩
  | _, _, _, _, .future h, ⟨id, hv, hx⟩ =>
      ⟨id, hv, fun u x hu hstate => (hx u x hu hstate).below h⟩
  | _, _, _, _, .tuple h, ⟨items, hv, hs⟩ => ⟨items, hv, hs.below h⟩
  | _, _, _, _, .function hparams h, ⟨id, c, hv, hx⟩ =>
      ⟨id, c, hv, fun u fuel args x s hu hargs hcall =>
        (hx u fuel args x s hu (hargs.trans hparams.symm) hcall).below h⟩
  | _, _, _, _, .ofRefined h, hv => Conforms.below h hv
  | _, .refined _ b, w, v, .toRefined h, hv => (Conforms.below h hv : Conforms b w v)

theorem ConformAll.below : ∀ {as bs : List Ty} {w : World γ} {vs : List Value},
    Ty.BelowAll as bs → ConformAll as w vs → ConformAll bs w vs
  | _, _, _, [], .nil, h => h
  | _, _, _, _ :: _, .cons h hs, ⟨hv, hvs⟩ => ⟨hv.below h, hvs.below hs⟩

end

namespace Ty

theorem Below.ofBase {a b : Ty} (h : a.base.Below b) : a.Below b := by
  fun_induction base a with
  | case1 name a ih => exact .ofRefined (ih h)
  | case2 => exact h

mutual

/-- Nothing that a value gives is unknown. -/
def known : Ty → Bool
  | list a | set a | option a | stream a | future a => known a
  | map _ a => known a
  | result a e => known a && known e
  | tuple as => knownAll as
  | function _ a => known a
  | refined _ a => known a
  | unknown => false
  | _ => true

def knownAll : List Ty → Bool
  | [] => true
  | a :: as => known a && knownAll as

end

theorem known_base (a : Ty) : a.base.known = a.known := by
  fun_induction base a with
  | case1 name a ih => rw [ih, known]
  | case2 => rfl

theorem length_eq_of_fitsAll {flip : Bool} {as bs : List Ty} (h : fitsAll flip as bs = true) :
    as.length = bs.length := by
  induction as generalizing bs with
  | nil =>
    cases bs with
    | nil => rfl
    | cons => cases h
  | cons a as ih =>
    cases bs with
    | nil => cases h
    | cons b bs =>
      rw [fitsAll, Bool.and_eq_true] at h
      exact congrArg Nat.succ (ih h.2)

/-- The unknown type is the only one that is accepted by all and not known. -/
theorem not_known_of_base {b : Ty} (hbase : b.base = .unknown) (hb : b.known = true) : False := by
  rw [← known_base, hbase] at hb
  cases hb

mutual

/-- What is accepted is below, unless something in it is unknown. -/
theorem below_of_fits : ∀ {a b : Ty}, a.fits false b = true → b.known = true → b.Below a
  | .refined _ a, b, h, hb => .toRefined (below_of_fits (a := a) h hb)
  | .unknown, _, _, _ => .unknown _
  | .int, b, h, hb => by
    unfold fits at h
    split at h
    · rename_i hbase
      exact .ofBase (hbase ▸ .refl _)
    · rename_i hbase
      exact (not_known_of_base hbase hb).elim
    · cases h
    · cases h
  | .float, b, h, hb => by
    unfold fits at h
    split at h
    · rename_i hbase
      exact .ofBase (hbase ▸ .refl _)
    · rename_i hbase
      exact (not_known_of_base hbase hb).elim
    · rename_i hbase
      exact .ofBase (hbase ▸ .widen)
    · cases h
  | .text, b, h, hb | .bool, b, h, hb | .void, b, h, hb
  | .model, b, h, hb | .prediction, b, h, hb => by
    unfold fits at h
    split at h
    · rename_i hbase
      exact .ofBase (hbase ▸ .refl _)
    · rename_i hbase
      exact (not_known_of_base hbase hb).elim
    · cases h
  | .record _, b, h, hb | .enum _, b, h, hb => by
    unfold fits at h
    split at h
    · rename_i hbase
      rw [eq_of_beq h]
      exact .ofBase (hbase ▸ .refl _)
    · rename_i hbase
      exact (not_known_of_base hbase hb).elim
    · cases h
  | .list a, b, h, hb => by
    unfold fits at h
    split at h
    · rename_i c hbase
      rw [← known_base, hbase] at hb
      exact .ofBase (hbase ▸ .list (below_of_fits h hb))
    · rename_i hbase
      exact (not_known_of_base hbase hb).elim
    · cases h
  | .map _ a, b, h, hb => by
    unfold fits at h
    split at h
    · rename_i l c hbase
      rw [← known_base, hbase] at hb
      exact .ofBase (hbase ▸ .map (below_of_fits (Bool.and_eq_true_iff.1 h).2 hb))
    · rename_i hbase
      exact (not_known_of_base hbase hb).elim
    · cases h
  | .set a, b, h, hb => by
    unfold fits at h
    split at h
    · rename_i c hbase
      rw [← known_base, hbase] at hb
      exact .ofBase (hbase ▸ .set (below_of_fits h hb))
    · rename_i hbase
      exact (not_known_of_base hbase hb).elim
    · cases h
  | .option a, b, h, hb => by
    unfold fits at h
    split at h
    · rename_i c hbase
      rw [← known_base, hbase] at hb
      exact .ofBase (hbase ▸ .option (below_of_fits h hb))
    · rename_i hbase
      exact (not_known_of_base hbase hb).elim
    · cases h
  | .result a e, b, h, hb => by
    unfold fits at h
    split at h
    · rename_i c f hbase
      rw [← known_base, hbase] at hb
      obtain ⟨hok, herr⟩ := Bool.and_eq_true_iff.1 h
      obtain ⟨hbok, hberr⟩ := Bool.and_eq_true_iff.1 hb
      exact .ofBase (hbase ▸ .result (below_of_fits hok hbok) (below_of_fits herr hberr))
    · rename_i hbase
      exact (not_known_of_base hbase hb).elim
    · cases h
  | .stream a, b, h, hb => by
    unfold fits at h
    split at h
    · rename_i c hbase
      rw [← known_base, hbase] at hb
      exact .ofBase (hbase ▸ .stream (below_of_fits h hb))
    · rename_i hbase
      exact (not_known_of_base hbase hb).elim
    · cases h
  | .future a, b, h, hb => by
    unfold fits at h
    split at h
    · rename_i c hbase
      rw [← known_base, hbase] at hb
      exact .ofBase (hbase ▸ .future (below_of_fits h hb))
    · rename_i hbase
      exact (not_known_of_base hbase hb).elim
    · cases h
  | .tuple as, b, h, hb => by
    unfold fits at h
    split at h
    · rename_i cs hbase
      rw [← known_base, hbase] at hb
      exact .ofBase (hbase ▸ .tuple (belowAll_of_fitsAll h hb))
    · rename_i hbase
      exact (not_known_of_base hbase hb).elim
    · cases h
  | .function ps a, b, h, hb => by
    unfold fits at h
    split at h
    · rename_i qs c hbase
      rw [← known_base, hbase] at hb
      obtain ⟨hparams, hret⟩ := Bool.and_eq_true_iff.1 h
      exact .ofBase (hbase ▸ .function (length_eq_of_fitsAll hparams).symm (below_of_fits hret hb))
    · rename_i hbase
      exact (not_known_of_base hbase hb).elim
    · cases h

theorem belowAll_of_fitsAll : ∀ {as bs : List Ty}, fitsAll false as bs = true →
    knownAll bs = true → BelowAll bs as
  | [], [], _, _ => .nil
  | [], _ :: _, h, _ => by cases h
  | _ :: _, [], h, _ => by cases h
  | _ :: _, _ :: _, h, hb =>
    have h := Bool.and_eq_true_iff.1 h
    have hb := Bool.and_eq_true_iff.1 hb
    .cons (below_of_fits h.1 hb.1) (belowAll_of_fitsAll h.2 hb.2)

end

theorem fits_base_left (flip : Bool) (a b : Ty) : a.base.fits flip b = a.fits flip b := by
  fun_induction base a with
  | case1 name a ih => rw [ih, fits]
  | case2 => rfl

/-- The join is above both types. -/
def Joins (a b : Ty) : Prop := a.Below (a.join b) ∧ b.Below (a.join b)

end Ty

end StreamLang
