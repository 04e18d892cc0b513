import Mathlib.Data.List.Forall2
import Mathlib.Data.Option.Basic
import StreamLang.Proofs.Contents.Every
import StreamLang.Value.Equality

/-! Equality of documents is an equivalence, since there is nothing in them but numbers where they have
a number. -/

namespace StreamLang

theorem Binary64.isNaN_of_isFinite {x : Binary64} (h : x.isFinite = true) : x.isNaN = false :=
  decide_eq_false (UInt64.not_lt.2 (UInt64.le_of_lt (of_decide_eq_true h)))

namespace Json

namespace Number

theorem same_comm (m n : Number) : m.same n = n.same m := by
  cases m with
  | int => cases n with
    | int => exact BEq.comm
    | float => rfl
  | float x => cases n with
    | int => rfl
    | float y => exact x.equals_comm y

theorem same_trans {k m n : Number} (h : k.same m = true) (h' : m.same n = true) :
    k.same n = true := by
  cases m with
  | int => cases k with
    | int => rwa [eq_of_beq h]
    | float => cases h
  | float => cases k with
    | int => cases h
    | float => cases n with
      | int => cases h'
      | float => exact Binary64.equals_trans h h'

theorem same_self (n : Number) : n.same n = true := by
  cases n with
  | int k => exact beq_self_eq_true k
  | float x hfinite => rw [same, Binary64.equals_self, Binary64.isNaN_of_isFinite hfinite]; rfl

end Number

mutual

theorem same_comm : ∀ a b : Json, a.same b = b.same a
  | null, b => by cases b <;> rfl
  | bool x, b => by cases b with
    | bool y => exact BEq.comm
    | _ => rfl
  | number m, b => by cases b with
    | number n => exact m.same_comm n
    | _ => rfl
  | text s, b => by cases b with
    | text t => exact BEq.comm
    | _ => rfl
  | array as, b => by cases b with
    | array bs => exact sameItems_comm as bs
    | _ => rfl
  | object as, b => by cases b with
    | object bs => exact sameMembers_comm as bs
    | _ => rfl
termination_by structural a => a

theorem sameItems_comm : ∀ as bs : List Json, sameItems as bs = sameItems bs as
  | [], bs => by cases bs <;> rfl
  | a :: as, bs => by cases bs with
    | nil => rfl
    | cons b bs => rw [sameItems, sameItems, same_comm a b, sameItems_comm as bs]
termination_by structural as => as

theorem sameMembers_comm : ∀ as bs : List (String × Json), sameMembers as bs = sameMembers bs as
  | [], bs => by cases bs <;> rfl
  | (k, a) :: as, bs => by cases bs with
    | nil => rfl
    | cons b bs => rw [sameMembers, sameMembers, same_comm a b.2, sameMembers_comm as bs, BEq.comm]
termination_by structural as => as

end

mutual

theorem same_trans : ∀ {a b c : Json}, a.same b = true → b.same c = true → a.same c = true
  | null, b, c, h, h' => by cases b with
    | null => exact h'
    | _ => cases h
  | bool x, b, c, h, h' => by cases b with
    | bool y => rwa [eq_of_beq h]
    | _ => cases h
  | number k, b, c, h, h' => by cases b with
    | number m => cases c with
      | number n => exact Number.same_trans h h'
      | _ => cases h'
    | _ => cases h
  | text s, b, c, h, h' => by cases b with
    | text t => rwa [eq_of_beq h]
    | _ => cases h
  | array as, b, c, h, h' => by cases b with
    | array bs => cases c with
      | array cs => exact sameItems_trans h h'
      | _ => cases h'
    | _ => cases h
  | object as, b, c, h, h' => by cases b with
    | object bs => cases c with
      | object cs => exact sameMembers_trans h h'
      | _ => cases h'
    | _ => cases h
termination_by structural a => a

theorem sameItems_trans : ∀ {as bs cs : List Json}, sameItems as bs = true → sameItems bs cs = true →
    sameItems as cs = true
  | [], [], _, _, h' => h'
  | a :: as, b :: bs, c :: cs, h, h' => by
    rw [sameItems, Bool.and_eq_true] at h h' ⊢
    exact ⟨same_trans h.1 h'.1, sameItems_trans h.2 h'.2⟩
termination_by structural as => as

theorem sameMembers_trans : ∀ {as bs cs : List (String × Json)}, sameMembers as bs = true →
    sameMembers bs cs = true → sameMembers as cs = true
  | [], [], _, _, h' => h'
  | (_, a) :: as, (_, b) :: bs, (_, c) :: cs, h, h' => by
    simp only [sameMembers, Bool.and_eq_true, beq_iff_eq] at h h' ⊢
    exact ⟨⟨h.1.1.trans h'.1.1, same_trans h.1.2 h'.1.2⟩, sameMembers_trans h.2 h'.2⟩
termination_by structural as => as

end

mutual

theorem same_self : ∀ a : Json, a.same a = true
  | null => rfl
  | bool x => beq_self_eq_true x
  | number n => n.same_self
  | text s => beq_self_eq_true s
  | array items => sameItems_self items
  | object members => sameMembers_self members
termination_by structural a => a

theorem sameItems_self : ∀ items : List Json, sameItems items items = true
  | [] => rfl
  | item :: rest => by
    rw [sameItems, same_self item, sameItems_self rest]
    rfl
termination_by structural items => items

theorem sameMembers_self : ∀ members : List (String × Json), sameMembers members members = true
  | [] => rfl
  | (key, value) :: rest => by
    rw [sameMembers, same_self value, sameMembers_self rest, beq_self_eq_true]
    rfl
termination_by structural members => members

end

end Json

end StreamLang

/-! What equality of two values comes to: one step of it looks at their outermost forms and compares
their members. The members of a set are compared in no order. -/

namespace StreamLang.Value

/-- What is compared when the value is: its parts, but nothing of a stream or a function. -/
def members : Value → List Value
  | stream _ _ => []
  | function _ _ => []
  | v => v.parts

/-! Induction over the members -/

section Induct

variable {P : Value → Prop}

mutual

/-- What holds of a value whenever it holds of its members holds of every value. -/
theorem inductionOn (h : ∀ v, (∀ w ∈ v.members, P w) → P v) : ∀ v, P v
  | int n => h (int n) nofun
  | float x => h (float x) nofun
  | text s => h (text s) nofun
  | bool b => h (bool b) nofun
  | void => h void nofun
  | list items => h (list items) (inductionOn_all h items)
  | map entries => h (map entries) (List.forall_mem_map.2 (inductionOn_entries h entries))
  | set items => h (set items) (inductionOn_all h items)
  | record name fields => h (record name fields) (List.forall_mem_map.2 (inductionOn_entries h fields))
  | enum e v payload => h (enum e v payload) (inductionOn_option h payload)
  | tuple items => h (tuple items) (inductionOn_all h items)
  | option inner => h (option inner) (inductionOn_option h inner)
  | ok inner => h (ok inner) (List.forall_mem_singleton.2 (inductionOn h inner))
  | err error => h (err error) (List.forall_mem_singleton.2 (inductionOn h error))
  | future id => h (future id) nofun
  | stream id p => h (stream id p) nofun
  | function id c => h (function id c) nofun
  | model document => h (model document) nofun
  | prediction document => h (prediction document) nofun
termination_by structural v => v

theorem inductionOn_option (h : ∀ v, (∀ w ∈ v.members, P w) → P v) :
    ∀ (inner : Option Value), ∀ v ∈ inner.toList, P v
  | none => nofun
  | some v => List.forall_mem_singleton.2 (inductionOn h v)
termination_by structural inner => inner

theorem inductionOn_all (h : ∀ v, (∀ w ∈ v.members, P w) → P v) :
    ∀ (items : List Value), ∀ v ∈ items, P v
  | [] => nofun
  | v :: rest => List.forall_mem_cons.2 ⟨inductionOn h v, inductionOn_all h rest⟩
termination_by structural items => items

theorem inductionOn_entries (h : ∀ v, (∀ w ∈ v.members, P w) → P v) :
    ∀ (entries : List (String × Value)), ∀ e ∈ entries, P e.2
  | [] => nofun
  | (_, v) :: rest => List.forall_mem_cons.2 ⟨inductionOn h v, inductionOn_entries h rest⟩
termination_by structural entries => entries

end

end Induct

/-! The two directions of reading -/

theorem allAmong_iff {as bs : List Value} : allAmong as bs = true ↔
    ∀ a ∈ as, ∃ b ∈ bs, b.kind = a.kind ∧ equalsFrom true a b = true := by
  induction as with
  | nil => simp [allAmong]
  | cons a as ih => simp [allAmong, ih, sameKind]

theorem isAmong_iff {as : List Value} {b : Value} : isAmong as b = true ↔
    ∃ a ∈ as, a.kind = b.kind ∧ equalsFrom false a b = true := by
  induction as with
  | nil => simp [isAmong]
  | cons a as ih => simp [isAmong, ih, sameKind]

/-- Equality read from right to left is equality of the second value and the first. -/
def Flips (a : Value) : Prop := ∀ flip b, equalsFrom flip a b = equalsFrom (!flip) b a

theorem equalsAll_flip {as : List Value} (h : ∀ a ∈ as, Flips a) (flip : Bool) (bs : List Value) :
    equalsAll flip as bs = equalsAll (!flip) bs as := by
  induction as generalizing bs with
  | nil => cases bs <;> rfl
  | cons a as ih =>
    cases bs with
    | nil => rfl
    | cons b bs =>
      rw [List.forall_mem_cons] at h
      rw [equalsAll, equalsAll, h.1 flip b, ih h.2]

theorem equalsEntries_flip {as : List (String × Value)} (h : ∀ e ∈ as, Flips e.2) (flip : Bool)
    (bs : List (String × Value)) : equalsEntries flip as bs = equalsEntries (!flip) bs as := by
  induction as generalizing bs with
  | nil => cases bs <;> rfl
  | cons a as ih =>
    cases bs with
    | nil => rfl
    | cons b bs =>
      rw [List.forall_mem_cons] at h
      rw [equalsEntries, equalsEntries, h.1 flip b.2, ih h.2, BEq.comm]

theorem equalsOption_flip {a : Option Value} (h : ∀ v ∈ a.toList, Flips v) (flip : Bool)
    (b : Option Value) : equalsOption flip a b = equalsOption (!flip) b a := by
  cases a with
  | none => cases b <;> rfl
  | some a =>
    cases b with
    | none => rfl
    | some b => exact List.forall_mem_singleton.1 h flip b

theorem flips (a : Value) : Flips a := by
  induction a using inductionOn with
  | h a ih =>
    intro flip b
    cases a with
    | list as => cases b with
      | list bs => exact equalsAll_flip ih flip bs
      | _ => rfl
    | tuple as => cases b with
      | tuple bs => exact equalsAll_flip ih flip bs
      | _ => rfl
    | map as => cases b with
      | map bs => exact equalsEntries_flip (List.forall_mem_map.1 ih) flip bs
      | _ => rfl
    | record n as => cases b with
      | record m bs =>
        rw [equalsFrom, equalsFrom, equalsEntries_flip (List.forall_mem_map.1 ih) flip bs, BEq.comm]
      | _ => rfl
    | enum e v p => cases b with
      | enum f w q =>
        rw [equalsFrom, equalsFrom, equalsOption_flip ih flip q, BEq.comm, BEq.comm (a := v)]
      | _ => rfl
    | option p => cases b with
      | option q => exact equalsOption_flip ih flip q
      | _ => rfl
    | ok a => cases b with
      | ok b => exact List.forall_mem_singleton.1 ih flip b
      | _ => rfl
    | err a => cases b with
      | err b => exact List.forall_mem_singleton.1 ih flip b
      | _ => rfl
    | set as => cases b with
      | set bs =>
        have hlen : (as.length == bs.length) = (bs.length == as.length) := BEq.comm
        have hmember : ∀ flip b, ∀ a ∈ as, equalsFrom flip a b = equalsFrom (!flip) b a :=
          fun flip b a ha => ih a ha flip b
        cases flip with
        | false =>
          have hamong : allAmong as bs = as.all (isAmong bs) := by
            rw [Bool.eq_iff_iff, allAmong_iff, List.all_eq_true]
            refine forall₂_congr fun a ha => ?_
            rw [isAmong_iff]
            exact exists_congr fun b => and_congr_right fun _ => by rw [hmember true b a ha]; rfl
          rw [equalsFrom, equalsFrom, hlen, hamong]
          rfl
        | true =>
          have hamong : bs.all (isAmong as) = allAmong bs as := by
            rw [Bool.eq_iff_iff, allAmong_iff, List.all_eq_true]
            refine forall₂_congr fun b _ => ?_
            rw [isAmong_iff]
            exact exists_congr fun a => and_congr_right fun ha => by rw [hmember false b a ha]; rfl
          rw [equalsFrom, equalsFrom, hlen, if_pos rfl, hamong]
          rfl
      | _ => rfl
    | int m => cases b with
      | int n => exact BEq.comm
      | float y => exact Binary64.equals_comm _ _
      | _ => rfl
    | float x => cases b with
      | int n => exact Binary64.equals_comm _ _
      | float y => exact Binary64.equals_comm _ _
      | _ => rfl
    | text s => cases b with
      | text t => exact BEq.comm
      | _ => rfl
    | bool x => cases b with
      | bool y => exact BEq.comm
      | _ => rfl
    | void => cases b <;> rfl
    | future i => cases b with
      | future j => exact BEq.comm
      | _ => rfl
    | stream i p => cases b with
      | stream j q => exact BEq.comm
      | _ => rfl
    | function i f => cases b with
      | function j g => exact BEq.comm
      | _ => rfl
    | model d => cases b with
      | model e => exact d.same_comm e
      | _ => rfl
    | prediction d => cases b with
      | prediction e => exact d.same_comm e
      | _ => rfl

/-- Equality read from right to left. -/
theorem equalsFrom_true (a b : Value) : equalsFrom true a b = b.equals a := flips a true b

/-! One step of equality -/

/-- The outermost form of a value that is compared member by member, in order. -/
inductive Form
  | text (s : String)
  | bool (b : Bool)
  | void
  | list
  | tuple
  | map (keys : List String)
  | record (name : String) (keys : List String)
  | enum (enum variant : String)
  | option
  | ok
  | err
  | future (id : Nat)
  | stream (identity : Identity)
  | function (identity : Identity)

/-- Numbers, sets and documents have no such form. -/
def form? : Value → Option Form
  | text s => some (.text s)
  | bool b => some (.bool b)
  | void => some .void
  | list _ => some .list
  | tuple _ => some .tuple
  | map entries => some (.map (entries.map (·.1)))
  | record name fields => some (.record name (fields.map (·.1)))
  | enum e v _ => some (.enum e v)
  | option _ => some .option
  | ok _ => some .ok
  | err _ => some .err
  | future id => some (.future id)
  | stream id _ => some (.stream id)
  | function id _ => some (.function id)
  | _ => none

/-- The first step of a comparison, with `R` for the members. -/
inductive Alike (R : Value → Value → Prop) : Value → Value → Prop
  | int (n : Int64) : Alike R (int n) (int n)
  | intFloat {n : Int64} {x : Binary64} (h : (Decimal.ofInt n.toInt).equals x = true) :
    Alike R (int n) (float x)
  | floatInt {x : Binary64} {n : Int64} (h : x.equals (Decimal.ofInt n.toInt) = true) :
    Alike R (float x) (int n)
  | float {x y : Binary64} (h : x.equals y = true) : Alike R (float x) (float y)
  | model {d e : Json} (h : d.same e = true) : Alike R (model d) (model e)
  | prediction {d e : Json} (h : d.same e = true) : Alike R (prediction d) (prediction e)
  | set {as bs : List Value} (hlen : as.length = bs.length)
    (h : ∀ a ∈ as, ∃ b ∈ bs, b.kind = a.kind ∧ R b a) : Alike R (set as) (set bs)
  | form {a b : Value} {f : Form} (ha : a.form? = some f) (hb : b.form? = some f)
    (h : List.Forall₂ R a.members b.members) : Alike R a b

/-- The values are equal. -/
def Same (a b : Value) : Prop := a.equals b = true

instance (a b : Value) : Decidable (Same a b) := inferInstanceAs (Decidable (_ = _))

theorem equalsAll_iff {as bs : List Value} :
    equalsAll false as bs = true ↔ List.Forall₂ Same as bs := by
  induction as generalizing bs with
  | nil => cases bs <;> simp [equalsAll]
  | cons a as ih => cases bs <;> simp [equalsAll, ih, Same, equals]

theorem equalsEntries_iff {as bs : List (String × Value)} : equalsEntries false as bs = true ↔
    as.map (·.1) = bs.map (·.1) ∧ List.Forall₂ Same (as.map (·.2)) (bs.map (·.2)) := by
  induction as generalizing bs with
  | nil => cases bs <;> simp [equalsEntries]
  | cons a as ih => cases bs <;> simp [equalsEntries, ih, Same, equals, and_assoc, and_left_comm]

theorem equalsOption_iff {a b : Option Value} :
    equalsOption false a b = true ↔ List.Forall₂ Same a.toList b.toList := by
  cases a <;> cases b <;> simp [equalsOption, Same, equals]

theorem Same.alike {a b : Value} (h : Same a b) : Alike Same a b := by
  unfold Same equals equalsFrom at h
  split at h
  · rw [eq_of_beq h]
    exact .int _
  · exact .intFloat h
  · exact .floatInt h
  · exact .float h
  · exact .form rfl (by rw [eq_of_beq h]; rfl) .nil
  · exact .form rfl (by rw [eq_of_beq h]; rfl) .nil
  · exact .form rfl rfl .nil
  · exact .form rfl rfl (equalsAll_iff.1 h)
  · obtain ⟨hkeys, h⟩ := equalsEntries_iff.1 h
    exact .form rfl (by rw [form?, hkeys]) h
  · obtain ⟨hlen, h⟩ := Bool.and_eq_true_iff.1 h
    refine .set (eq_of_beq hlen) fun a ha => ?_
    obtain ⟨b, hb, hkind, hsame⟩ := allAmong_iff.1 h a ha
    exact ⟨b, hb, hkind, by rwa [equalsFrom_true] at hsame⟩
  · obtain ⟨hname, h⟩ := Bool.and_eq_true_iff.1 h
    obtain ⟨hkeys, h⟩ := equalsEntries_iff.1 h
    exact .form rfl (by rw [form?, hkeys, eq_of_beq hname]) h
  · obtain ⟨hname, h⟩ := Bool.and_eq_true_iff.1 h
    obtain ⟨henum, hvariant⟩ := Bool.and_eq_true_iff.1 hname
    exact .form rfl (by rw [form?, eq_of_beq henum, eq_of_beq hvariant]) (equalsOption_iff.1 h)
  · exact .form rfl rfl (equalsAll_iff.1 h)
  · exact .form rfl rfl (equalsOption_iff.1 h)
  · exact .form rfl rfl (.cons h .nil)
  · exact .form rfl rfl (.cons h .nil)
  · exact .form rfl (by rw [eq_of_beq h]; rfl) .nil
  · exact .form rfl (by rw [eq_of_beq h]; rfl) .nil
  · exact .form rfl (by rw [eq_of_beq h]; rfl) .nil
  · exact .model h
  · exact .prediction h
  · cases h

theorem same_of_form {a b : Value} {f : Form} (ha : a.form? = some f) (hb : b.form? = some f)
    (h : List.Forall₂ Same a.members b.members) : Same a b := by
  rw [← ha] at hb
  cases a with
  | text s => cases b with
    | text t =>
      simp only [form?, Option.some.injEq, Form.text.injEq] at hb
      exact beq_iff_eq.2 hb.symm
    | _ => cases hb
  | bool x => cases b with
    | bool y =>
      simp only [form?, Option.some.injEq, Form.bool.injEq] at hb
      exact beq_iff_eq.2 hb.symm
    | _ => cases hb
  | void => cases b with
    | void => rfl
    | _ => cases hb
  | list as => cases b with
    | list bs => exact equalsAll_iff.2 h
    | _ => cases hb
  | tuple as => cases b with
    | tuple bs => exact equalsAll_iff.2 h
    | _ => cases hb
  | map as => cases b with
    | map bs =>
      simp only [form?, Option.some.injEq, Form.map.injEq] at hb
      exact equalsEntries_iff.2 ⟨hb.symm, h⟩
    | _ => cases hb
  | record n as => cases b with
    | record m bs =>
      simp only [form?, Option.some.injEq, Form.record.injEq] at hb
      exact Bool.and_eq_true_iff.2 ⟨beq_iff_eq.2 hb.1.symm, equalsEntries_iff.2 ⟨hb.2.symm, h⟩⟩
    | _ => cases hb
  | enum e v p => cases b with
    | enum e' v' q =>
      simp only [form?, Option.some.injEq, Form.enum.injEq] at hb
      obtain ⟨rfl, rfl⟩ := hb
      simpa [Same, equals, equalsFrom] using equalsOption_iff.2 h
    | _ => cases hb
  | option p => cases b with
    | option q => exact equalsOption_iff.2 h
    | _ => cases hb
  | ok a => cases b with
    | ok b => exact (List.forall₂_cons.1 h).1
    | _ => cases hb
  | err a => cases b with
    | err b => exact (List.forall₂_cons.1 h).1
    | _ => cases hb
  | future i => cases b with
    | future j =>
      simp only [form?, Option.some.injEq, Form.future.injEq] at hb
      exact beq_iff_eq.2 hb.symm
    | _ => cases hb
  | stream i p => cases b with
    | stream j q =>
      simp only [form?, Option.some.injEq, Form.stream.injEq] at hb
      exact beq_iff_eq.2 hb.symm
    | _ => cases hb
  | function i c => cases b with
    | function j d =>
      simp only [form?, Option.some.injEq, Form.function.injEq] at hb
      exact beq_iff_eq.2 hb.symm
    | _ => cases hb
  | _ => cases ha

/-- Two values are equal just when their first step finds them alike. -/
theorem same_iff {a b : Value} : Same a b ↔ Alike Same a b := by
  refine ⟨Same.alike, fun h => ?_⟩
  cases h with
  | int n => exact beq_self_eq_true n
  | intFloat h => exact h
  | floatInt h => exact h
  | float h => exact h
  | model h => exact h
  | prediction h => exact h
  | form ha hb h => exact same_of_form ha hb h
  | set hlen h =>
    refine Bool.and_eq_true_iff.2 ⟨beq_iff_eq.2 hlen, allAmong_iff.2 fun a ha => ?_⟩
    obtain ⟨b, hb, hkind, hsame⟩ := h a ha
    exact ⟨b, hb, hkind, by rwa [equalsFrom_true]⟩

end StreamLang.Value
