import StreamLang.Proofs.Folding.Operators
import StreamLang.Proofs.Typing.Conforms
import StreamLang.Proofs.Unreachable.Checked

/-! The types that the checker gives to operators and to elements of tuples hold of what these give. -/

namespace StreamLang

open Check

namespace Value

def isNumber (v : Value) : Bool := v.toBinary64?.isSome

end Value

namespace BinaryOp

variable {op : BinaryOp} {a b v : Value}

/-- What arithmetic gives: an integer from integers, a text from texts, and else a floating-point number from
numbers. -/
inductive Computes : Value → Value → Value → Prop
  | ints (m n k : Int64) : Computes (.int m) (.int n) (.int k)
  | texts (s t u : String) : Computes (.text s) (.text t) (.text u)
  | floats {a b : Value} (ha : a.isNumber = true) (hb : b.isNumber = true)
      (hnot : ∀ m n, ¬ (a = .int m ∧ b = .int n)) (x : Binary64) : Computes a b (.float x)

theorem Computes.text (h : Computes a b v) (htext : (∃ s, a = .text s) ∨ ∃ s, b = .text s) :
    ∃ s, v = .text s := by
  cases h with
  | ints => rcases htext with ⟨_, htext⟩ | ⟨_, htext⟩ <;> cases htext
  | texts s t u => exact ⟨u, rfl⟩
  | floats ha hb =>
    rcases htext with ⟨_, rfl⟩ | ⟨_, rfl⟩
    · cases ha
    · cases hb

theorem Computes.number (h : Computes a b v) (hnumber : a.isNumber = true ∨ b.isNumber = true) :
    (∃ n, v = .int n) ∨ ∃ x, v = .float x := by
  cases h with
  | ints m n k => exact .inl ⟨k, rfl⟩
  | texts => rcases hnumber with hnumber | hnumber <;> cases hnumber
  | floats ha hb _ x => exact .inr ⟨x, rfl⟩

theorem isNumber_of_floats {p : Binary64 × Binary64} (h : op.floats a b = .ok p) :
    a.isNumber = true ∧ b.isNumber = true := by
  unfold floats at h
  split at h
  · rename_i x y hx hy
    simp [Value.isNumber, hx, hy]
  · cases h

theorem computes_of_arithmetic {onInts : Int64 → Int64 → Option Int64}
    {onFloats : Binary64 → Binary64 → Binary64} (h : op.arithmetic onInts onFloats a b = .ok v) :
    Computes a b v := by
  unfold arithmetic at h
  split at h
  · split at h
    · cases h
      exact .ints _ _ _
    · cases h
  · rename_i hnot
    cases hfloats : op.floats a b with
    | ok p =>
      rw [hfloats] at h
      cases h
      obtain ⟨ha, hb⟩ := isNumber_of_floats hfloats
      exact .floats ha hb (fun m n hmn => hnot m n hmn.1 hmn.2) _
    | error fault =>
      rw [hfloats] at h
      cases h

theorem computes_of_division {onInts : Int64 → Int64 → Option Int64}
    {onFloats : Binary64 → Binary64 → Binary64} (h : op.division onInts onFloats a b = .ok v) :
    Computes a b v := by
  unfold division at h
  split at h
  · split at h
    · cases h
    · split at h
      · cases h
        exact .ints _ _ _
      · cases h
  · rename_i hnot
    cases hfloats : op.floats a b with
    | ok p =>
      obtain ⟨ha, hb⟩ := isNumber_of_floats hfloats
      simp only [hfloats, Bind.bind, Except.bind] at h
      split at h
      · cases h
      · cases h
        exact .floats ha hb (fun m n hmn => hnot m n hmn.1 hmn.2) _
    | error fault =>
      simp only [hfloats, Bind.bind, Except.bind] at h
      cases h

theorem computes_of_apply (hop : op.isArithmetic = true) (h : op.apply a b = .ok v) :
    Computes a b v := by
  cases op with
  | add =>
    unfold apply at h
    dsimp only at h
    split at h
    · cases h
      exact .texts _ _ _
    · exact computes_of_arithmetic h
  | sub => exact computes_of_arithmetic h
  | mul => exact computes_of_arithmetic h
  | div => exact computes_of_division h
  | mod => exact computes_of_division h
  | _ => cases hop

theorem bool_of_comparison {wanted : Ordering → Bool} (h : op.comparison wanted a b = .ok v) :
    ∃ x, v = .bool x := by
  unfold comparison at h
  cases hordering : op.ordering a b with
  | ok o =>
    rw [hordering] at h
    cases h
    exact ⟨_, rfl⟩
  | error fault =>
    rw [hordering] at h
    cases h

theorem bool_of_apply (hop : op.isArithmetic = false) (hlogical : op.isLogical = false)
    (h : op.apply a b = .ok v) : ∃ x, v = .bool x := by
  cases op with
  | eq | ne =>
    cases h
    exact ⟨_, rfl⟩
  | lt | le | gt | ge => exact bool_of_comparison h
  | and | or => cases hlogical
  | _ => cases hop

end BinaryOp

namespace UnaryOp

variable {a v : Value}

theorem bool_of_not (h : not.apply a = .ok v) : ∃ x, v = .bool x := by
  cases a with
  | bool x =>
    cases h
    exact ⟨!x, rfl⟩
  | _ => cases h

theorem number_of_neg (h : neg.apply a = .ok v) :
    (∃ m n, a = .int m ∧ v = .int n) ∨ ∃ x y, a = .float x ∧ v = .float y := by
  cases a with
  | int n =>
    unfold apply at h
    dsimp only at h
    split at h
    · cases h
      exact .inl ⟨_, _, rfl, rfl⟩
    · cases h
  | float x =>
    cases h
    exact .inr ⟨_, _, rfl, rfl⟩
  | _ => cases h

end UnaryOp

namespace Value

variable {items : List Value} {i v : Value}

theorem of_index_tuple (h : (tuple items).index i = .ok v) :
    ∃ n, i = .int n ∧ itemAt? items n = some v := by
  cases i with
  | int n =>
    unfold index item at h
    dsimp only at h
    split at h
    · rename_i hitem
      cases h
      exact ⟨n, rfl, hitem⟩
    · cases h
  | _ => cases h

theorem text_of_index {s : String} (h : (text s).index i = .ok v) : ∃ t, v = .text t := by
  cases i with
  | int n =>
    unfold index character at h
    dsimp only at h
    split at h
    · cases h
      exact ⟨_, rfl⟩
    · cases h
  | _ => cases h

theorem of_select_tuple {field : String} (h : (tuple items).select field = .ok v) :
    (Whole.readNat? field.toList).bind (items[·]?) = some v := by
  unfold select at h
  dsimp only at h
  split at h
  · rename_i hitem
    cases h
    exact hitem
  · cases h

end Value

namespace Ty

mutual

/-- The types of the core fragment: those of single values and of tuples, and the unknown one. -/
def core : Ty → Bool
  | int | float | text | bool | void | unknown => true
  | tuple items => coreAll items
  | refined _ t => core t
  | _ => false

def coreAll : List Ty → Bool
  | [] => true
  | t :: ts => core t && coreAll ts

end

theorem core_base (t : Ty) : t.base.core = t.core := by
  fun_induction base t with
  | case1 name t ih => rw [ih, core]
  | case2 => rfl

mutual

theorem core_of_below : ∀ {a b : Ty}, a.Below b → a.core = true → b.core = true
  | _, _, .refl _, ha => ha
  | _, _, .unknown _, _ => rfl
  | _, _, .widen, _ => rfl
  | _, _, .tuple h, ha => coreAll_of_belowAll h ha
  | _, _, .ofRefined h, ha => core_of_below h ha
  | _, .refined _ b, .toRefined h, ha => (core_of_below h ha : b.core = true)

theorem coreAll_of_belowAll : ∀ {as bs : List Ty}, BelowAll as bs → coreAll as = true →
    coreAll bs = true
  | _, _, .nil, _ => rfl
  | _, _, .cons h hs, has =>
    have has := Bool.and_eq_true_iff.1 has
    Bool.and_eq_true_iff.2 ⟨core_of_below h has.1, coreAll_of_belowAll hs has.2⟩

end

end Ty

variable {γ : Type} [Gateway γ] {w : World γ} {a b v : Value} {l r t : Ty}

/-- The value conforms to the type, which is one of the core fragment. -/
def Has (w : World γ) (v : Value) (t : Ty) : Prop := t.core = true ∧ Conforms t w v

theorem Has.below (h : Has w v l) (hbelow : l.Below r) : Has w v r :=
  ⟨Ty.core_of_below hbelow h.1, h.2.below hbelow⟩

theorem has_base : Has w v t.base ↔ Has w v t := by
  rw [Has, Ty.core_base, conforms_base, Has]

theorem Conforms.isNumber_of_float (h : Conforms .float w v) : v.isNumber = true := by
  rcases h with ⟨n, rfl⟩ | ⟨x, rfl⟩ <;> rfl

theorem ConformAll.getElem? {ts : List Ty} {vs : List Value} (h : ConformAll ts w vs) {k : Nat}
    (ht : ts[k]? = some t) (hv : vs[k]? = some v) : Conforms t w v := by
  induction ts generalizing vs k with
  | nil => cases ht
  | cons t ts ih =>
    cases vs with
    | nil => cases hv
    | cons v vs =>
      cases k with
      | zero =>
        cases ht
        cases hv
        exact h.1
      | succ k => exact ih h.2 ht hv

theorem Ty.core_of_getElem? {ts : List Ty} (h : coreAll ts = true) {k : Nat}
    (ht : ts[k]? = some t) : t.core = true := by
  induction ts generalizing k with
  | nil => cases ht
  | cons t ts ih =>
    obtain ⟨hhead, htail⟩ := Bool.and_eq_true_iff.1 h
    cases k with
    | zero =>
      cases ht
      exact hhead
    | succ k => exact ih htail ht

namespace Check

/-- If no error has been found at the end, the result is as `P` says. -/
def Approves {α : Type} (P : α → Prop) (x : CheckM α) (s : State) : Prop :=
  (x s).2.Clean → P (x s).1

namespace Approves

variable {α β : Type} {P : α → Prop} {s : State}

theorem pure {x : α} (h : P x) : Approves P (Pure.pure x) s := fun _ => h

theorem report (fault : CheckFault) (span : Span) (x : α) :
    Approves P (do Check.report fault span; return x) s :=
  fun hclean => (Assures.report fault span s hclean).2.elim

theorem after {x : CheckM β} {f : β → CheckM α} (hf : ∀ y, Approves P (f y) (x s).2) :
    Approves P (x >>= f) s :=
  hf (x s).1

theorem constantOf {e : Expr} {f : Option Const → CheckM α}
    (h : Approves P (f (Const.fold s.scopes.constant? e)) s) :
    Approves P (Check.constantOf e >>= f) s := h

end Approves

variable {span : Span} {s : State}

theorem approves_binaryType {op : BinaryOp} {lspan rspan : Span} (hlogical : op.isLogical = false)
    (hl : Has w a l) (hr : Has w b r) (h : op.apply a b = .ok v) :
    Approves (Has w v) (binaryType op l r lspan rspan span) s := by
  have hbase {c : Ty} {x : Value} {t : Ty} (hx : Has w x t) (ht : t.base = c) : Conforms c w x := by
    rw [← ht, conforms_base]
    exact hx.2
  have htext {x : Value} {t : Ty} (hx : Has w x t) (ht : t.isText = true) : ∃ s, x = .text s := by
    unfold Ty.isText at ht
    split at ht
    · rename_i hbase'
      exact hbase hx hbase'
    · cases ht
  unfold binaryType
  split
  · simp_all
  split
  · rename_i heq
    refine .pure ⟨rfl, BinaryOp.bool_of_apply ?_ hlogical h⟩
    cases op <;> first | rfl | cases heq
  split
  · rename_i hcomparison
    have hbool : ∃ x, v = .bool x := by
      refine BinaryOp.bool_of_apply ?_ hlogical h
      cases op <;> first | rfl | cases hcomparison
    dsimp only
    split
    · exact .report _ _ _
    · exact .pure ⟨rfl, hbool⟩
  have hcomputes : BinaryOp.Computes a b v := by
    refine BinaryOp.computes_of_apply ?_ h
    cases op <;> first | rfl | simp_all [BinaryOp.isLogical, BinaryOp.isEquality, BinaryOp.isComparison]
  split
  · rename_i htexts
    rw [Bool.and_eq_true, Bool.or_eq_true] at htexts
    split
    · exact .pure ⟨rfl, hcomputes.text (htexts.2.imp (htext hl) (htext hr))⟩
    · exact .report _ _ _
  split
  · exact .report _ _ _
  split
  · exact .report _ _ _
  split
  · rename_i hlbase hrbase
    obtain ⟨m, rfl⟩ := hbase hl hlbase
    obtain ⟨n, rfl⟩ := hbase hr hrbase
    cases hcomputes with
    | ints m n k => exact .pure ⟨rfl, k, rfl⟩
    | floats _ _ hnot => exact absurd ⟨rfl, rfl⟩ (hnot m n)
  · rename_i hlbase
    exact .pure ⟨rfl, hcomputes.number (.inl (hbase hl hlbase).isNumber_of_float)⟩
  · rename_i hrbase _
    exact .pure ⟨rfl, hcomputes.number (.inr (hbase hr hrbase).isNumber_of_float)⟩
  · exact .pure ⟨rfl, trivial⟩

/-- A number of the same kind conforms, too. -/
theorem has_base_of_numeric (ht : t.maybeNumeric = true) (ha : Has w a t)
    (hkind : (∃ m n, a = .int m ∧ v = .int n) ∨ ∃ x y, a = .float x ∧ v = .float y) :
    Has w v t.base := by
  rw [← has_base] at ha
  obtain ⟨hcore, ha⟩ := ha
  refine ⟨hcore, ?_⟩
  unfold Ty.maybeNumeric Ty.isNumeric Ty.isUnknown at ht
  generalize t.base = base at *
  cases base with
  | int =>
    obtain ⟨_, rfl⟩ := ha
    rcases hkind with ⟨_, n, -, rfl⟩ | ⟨_, _, hfloat, -⟩
    · exact ⟨n, rfl⟩
    · cases hfloat
  | float =>
    rcases hkind with ⟨_, n, -, rfl⟩ | ⟨_, y, -, rfl⟩
    · exact .inl ⟨n, rfl⟩
    · exact .inr ⟨y, rfl⟩
  | unknown => trivial
  | _ => cases ht

theorem approves_unaryType {op : UnaryOp} (ha : Has w a t) (h : op.apply a = .ok v) :
    Approves (Has w v) (unaryType op t span) s := by
  unfold unaryType
  cases op with
  | not => exact .after fun _ => .pure ⟨rfl, UnaryOp.bool_of_not h⟩
  | neg =>
    dsimp only
    split
    · rename_i hnumeric
      exact .pure (has_base_of_numeric hnumeric ha (UnaryOp.number_of_neg h))
    · exact .report _ _ _

/-- The index is the constant that it folds to. -/
theorem approves_indexType {key : Ty} {index : Expr} {i : Value} (ha : Has w a t)
    (hconstant : ∀ c, Const.fold s.scopes.constant? index = some c → i = c.toValue)
    (h : a.index i = .ok v) : Approves (Has w v) (indexType t key index span) s := by
  rw [← has_base] at ha
  obtain ⟨hcore, ha⟩ := ha
  unfold indexType
  generalize t.base = base at *
  cases base with
  | text =>
    obtain ⟨_, rfl⟩ := ha
    exact .after fun _ => .pure ⟨rfl, Value.text_of_index h⟩
  | tuple ts =>
    obtain ⟨items, rfl, hitems⟩ := ha
    obtain ⟨n, rfl, hitem⟩ := Value.of_index_tuple h
    refine .constantOf ?_
    split
    · rename_i m hfold
      cases hconstant _ hfold
      split
      · rename_i ty hty
        unfold Value.itemAt? at hitem
        split at hitem
        · cases hitem
        · split at hty
          · exact .pure ⟨Ty.core_of_getElem? hcore hty, hitems.getElem? hty hitem⟩
          · cases hty
      · exact .report _ _ _
    · exact .pure ⟨rfl, trivial⟩
  | unknown => exact .pure ⟨rfl, trivial⟩
  | int | float | bool | void | refined => exact .report _ _ _
  | _ => cases hcore

theorem approves_selectType {field : String} (ha : Has w a t) (h : a.select field = .ok v) :
    Approves (Has w v) (selectType t field span) s := by
  rw [← has_base] at ha
  obtain ⟨hcore, ha⟩ := ha
  unfold selectType
  generalize t.base = base at *
  cases base with
  | tuple ts =>
    obtain ⟨items, rfl, hitems⟩ := ha
    obtain ⟨k, hk, hitem⟩ := Option.bind_eq_some_iff.1 (Value.of_select_tuple h)
    dsimp only
    split
    · rename_i ty hty
      rw [hk] at hty
      exact .pure ⟨Ty.core_of_getElem? hcore hty, hitems.getElem? hty hitem⟩
    · exact .report _ _ _
  | unknown => exact .pure ⟨rfl, trivial⟩
  | int | float | bool | void | text | refined => exact .report _ _ _
  | _ => cases hcore

end Check

end StreamLang
