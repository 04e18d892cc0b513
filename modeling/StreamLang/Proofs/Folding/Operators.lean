import StreamLang.Const
import StreamLang.Interpreter.Expr

/-! What operators and builtins give for constants at compile time is what they give for the values of
these constants at run time, with two exceptions: integers that differ may be equal as
floating-point numbers, and truth values have an order only at compile time. -/

namespace StreamLang

theorem Binary64.toNat_abs (a : Binary64) :
    a.abs.bits.toNat = a.bits.toNat % signBit.toNat := by
  have hmask : (~~~signBit : UInt64).toNat = 9223372036854775807 := by decide
  rw [abs, UInt64.toNat_and, hmask]
  exact Nat.and_two_pow_sub_one_eq_mod _ 63

/-- With or without a sign, bits up to those of infinity are a number. -/
theorem Binary64.isNaN_of_le (neg : Bool) {bits : Nat} (h : bits ≤ 2047 * Decimal.pow2 52) :
    (⟨UInt64.ofNat ((if neg then Decimal.pow2 63 else 0) + bits)⟩ : Binary64).isNaN = false := by
  have hinfinity : infinity.bits.toNat = 2047 * Decimal.pow2 52 := by decide
  have hsign : signBit.toNat = Decimal.pow2 63 := by decide
  have h52 : Decimal.pow2 52 = 4503599627370496 := by decide
  have h63 : Decimal.pow2 63 = 9223372036854775808 := by decide
  rw [isNaN, decide_eq_false_iff_not, UInt64.lt_iff_toNat_lt, toNat_abs, hinfinity, hsign,
    UInt64.toNat_ofNat', h52, h63]
  rw [h52] at h
  cases neg <;> simp <;> omega

/-- What is nearest to a fraction is a number. -/
theorem Decimal.isNaN_nearest (neg : Bool) (num den : Nat) :
    (nearest neg num den).isNaN = false := by
  unfold nearest
  dsimp only
  split
  · have hzero := Binary64.isNaN_of_le neg (Nat.zero_le (2047 * pow2 52))
    rwa [Nat.add_zero] at hzero
  · exact Binary64.isNaN_of_le neg (Nat.min_le_right _ _)

namespace Const

mutual

/-- The value that a constant stands for. -/
def toValue : Const → Value
  | int n => .int n
  | float x => .float x
  | text s => .text s
  | bool b => .bool b
  | void => .void
  | list items => .list (toValues items)

def toValues : List Const → List Value
  | [] => []
  | c :: rest => toValue c :: toValues rest

end

@[simp] theorem toValues_eq_map (cs : List Const) : toValues cs = cs.map toValue := by
  induction cs with
  | nil => rfl
  | cons c rest ih => rw [toValues, ih, List.map_cons]

mutual

/-- Integers in corresponding places that differ still differ as floating-point numbers. -/
def tells : Const → Const → Bool
  | int a, int b => a == b || !(Decimal.ofInt a.toInt).equals (Decimal.ofInt b.toInt)
  | list as, list bs => tellsAll as bs
  | _, _ => true

def tellsAll : List Const → List Const → Bool
  | a :: as, b :: bs => tells a b && tellsAll as bs
  | _, _ => true

end

def isBool : Const → Bool
  | bool _ => true
  | _ => false

theorem toBinary64?_toValue (c : Const) : c.toValue.toBinary64? = c.toBinary64? := by
  cases c <;> rfl

theorem eq_int_of_toValue {c : Const} {n : Int64} (h : c.toValue = .int n) : c = int n := by
  cases c <;> cases h
  rfl

theorem eq_text_of_toValue {c : Const} {s : String} (h : c.toValue = .text s) : c = text s := by
  cases c <;> cases h
  rfl

mutual

theorem equals_toValue {a b : Const} (h : tells a b = true) :
    a.toValue.equals b.toValue = a.equals b := by
  cases a with
  | int m => cases b with
    | int n =>
      change (m == n) = (Decimal.ofInt m.toInt).equals (Decimal.ofInt n.toInt)
      by_cases heq : m = n
      · rw [heq, beq_self_eq_true, Binary64.equals_self, Decimal.ofInt, Decimal.isNaN_nearest]
        rfl
      · have hdiffer : (Decimal.ofInt m.toInt).equals (Decimal.ofInt n.toInt) = false := by
          simpa [tells, heq] using h
        rw [hdiffer, beq_eq_false_iff_ne]
        exact heq
    | _ => rfl
  | list as => cases b with
    | list bs => exact equalsAll_toValues h
    | _ => rfl
  | _ => cases b <;> rfl
termination_by structural a

theorem equalsAll_toValues {as bs : List Const} (h : tellsAll as bs = true) :
    Value.equalsAll false (toValues as) (toValues bs) = equalsAll as bs := by
  cases as with
  | nil => cases bs <;> rfl
  | cons a as => cases bs with
    | nil => rfl
    | cons b bs =>
      obtain ⟨hhead, htail⟩ := Bool.and_eq_true_iff.1 h
      have hfirst := equals_toValue hhead
      rw [toValues, toValues, Value.equalsAll, equalsAll, equalsAll_toValues htail, ← hfirst,
        Value.equals]
termination_by structural as

end

-- operators

section

variable {op : BinaryOp} {a b c : Const}

theorem floats_toValue {x y : Binary64} (ha : a.toBinary64? = some x) (hb : b.toBinary64? = some y) :
    op.floats a.toValue b.toValue = .ok (x, y) := by
  simp [BinaryOp.floats, toBinary64?_toValue, ha, hb]

/-- Two constants that are not both integers meet as floating-point numbers. -/
theorem of_arithmetic? {onInts : Int64 → Int64 → Option Int64}
    {onFloats : Binary64 → Binary64 → Option Binary64}
    (h : arithmetic? onInts onFloats a b = some c) :
    (∃ m n k, a = int m ∧ b = int n ∧ onInts m n = some k ∧ c = int k) ∨
      (∀ m n, ¬ (a = int m ∧ b = int n)) ∧ ∃ x y z, a.toBinary64? = some x ∧
        b.toBinary64? = some y ∧ onFloats x y = some z ∧ c = float z := by
  unfold arithmetic? at h
  split at h
  · rename_i m n
    obtain ⟨k, hk, rfl⟩ := Option.map_eq_some_iff.1 h
    exact .inl ⟨m, n, k, rfl, rfl, hk, rfl⟩
  · rename_i hnot
    obtain ⟨x, hx, h⟩ := Option.bind_eq_some_iff.1 h
    obtain ⟨y, hy, h⟩ := Option.bind_eq_some_iff.1 h
    obtain ⟨z, hz, rfl⟩ := Option.map_eq_some_iff.1 h
    exact .inr ⟨fun m n hmn => hnot m n hmn.1 hmn.2, x, y, z, hx, hy, hz, rfl⟩

theorem arithmetic_toValue {onInts : Int64 → Int64 → Option Int64}
    {onFloats : Binary64 → Binary64 → Binary64}
    (h : arithmetic? onInts (fun x y => some (onFloats x y)) a b = some c) :
    op.arithmetic onInts onFloats a.toValue b.toValue = .ok c.toValue := by
  rcases of_arithmetic? h with ⟨m, n, k, rfl, rfl, hk, rfl⟩ | ⟨hnot, x, y, z, hx, hy, hz, rfl⟩
  · simp [BinaryOp.arithmetic, toValue, hk]
  · cases hz
    unfold BinaryOp.arithmetic
    split
    · rename_i m n ha hb
      exact absurd ⟨eq_int_of_toValue ha, eq_int_of_toValue hb⟩ (hnot m n)
    · rw [floats_toValue hx hy]
      rfl

theorem division_toValue {onFloats : Binary64 → Binary64 → Binary64}
    (h : arithmetic? Whole.div? (fun x y => if y.isZero then none else some (onFloats x y)) a b =
      some c) : op.division Whole.div? onFloats a.toValue b.toValue = .ok c.toValue := by
  rcases of_arithmetic? h with ⟨m, n, k, rfl, rfl, hk, rfl⟩ | ⟨hnot, x, y, z, hx, hy, hz, rfl⟩
  · have hn : n ≠ 0 := by
      rintro rfl
      cases hk
    simp [BinaryOp.division, toValue, hk, hn]
  · unfold BinaryOp.division
    split
    · rename_i m n ha hb
      exact absurd ⟨eq_int_of_toValue ha, eq_int_of_toValue hb⟩ (hnot m n)
    · cases hzero : y.isZero with
      | true => simp [hzero] at hz
      | false =>
        obtain rfl : onFloats x y = z := by simpa [hzero] using hz
        simp [floats_toValue hx hy, hzero, Bind.bind, Except.bind, toValue]

/-- Only truth values have an order that is not there at run time. -/
theorem ordering_toValue {o : Ordering} (h : a.compare? b = some o)
    (hbool : ¬ (a.isBool = true ∧ b.isBool = true)) :
    op.ordering a.toValue b.toValue = .ok (some o) := by
  unfold compare? at h
  split at h
  · cases h
    rfl
  · cases h
    rfl
  · exact absurd ⟨rfl, rfl⟩ hbool
  · rename_i hints htexts _
    obtain ⟨x, hx, h⟩ := Option.bind_eq_some_iff.1 h
    obtain ⟨y, hy, h⟩ := Option.bind_eq_some_iff.1 h
    unfold BinaryOp.ordering
    split
    · rename_i m n ha hb
      exact absurd (eq_int_of_toValue hb) (hints m n (eq_int_of_toValue ha))
    · rename_i s t ha hb
      exact absurd (eq_text_of_toValue hb) (htexts s t (eq_text_of_toValue ha))
    · rw [floats_toValue hx hy]
      exact congrArg Except.ok h

theorem comparison_toValue {wanted : Ordering → Bool}
    (h : (a.compare? b).map (fun o => bool (wanted o)) = some c)
    (hbool : ¬ (a.isBool = true ∧ b.isBool = true)) :
    op.comparison wanted a.toValue b.toValue = .ok c.toValue := by
  obtain ⟨o, ho, rfl⟩ := Option.map_eq_some_iff.1 h
  rw [BinaryOp.comparison, ordering_toValue ho hbool]
  rfl

end

end Const

/-- The operator compares the constants as it compares their values. -/
def BinaryOp.Compares (op : BinaryOp) (a b : Const) : Prop :=
  match op with
  | eq | ne => a.tells b = true
  | lt | le | gt | ge => ¬ (a.isBool = true ∧ b.isBool = true)
  | _ => True

namespace Const

theorem binary?_toValue {op : BinaryOp} {a b c : Const} (hlogical : op.isLogical = false)
    (h : binary? op a b = some c) (hcompares : op.Compares a b) :
    op.apply a.toValue b.toValue = .ok c.toValue := by
  cases op with
  | add =>
    unfold binary? at h
    dsimp only at h
    split at h
    · cases h
      rfl
    · rename_i hnot
      unfold BinaryOp.apply
      dsimp only
      split
      · rename_i s t ha hb
        exact absurd (eq_text_of_toValue hb) (hnot s t (eq_text_of_toValue ha))
      · exact arithmetic_toValue h
  | sub => exact arithmetic_toValue h
  | mul => exact arithmetic_toValue h
  | div => exact division_toValue h
  | mod =>
    unfold binary? at h
    dsimp only at h
    split at h
    · rename_i m n
      obtain ⟨k, hk, rfl⟩ := Option.map_eq_some_iff.1 h
      have hn : n ≠ 0 := by
        rintro rfl
        cases hk
      simp [BinaryOp.apply, BinaryOp.division, toValue, hk, hn]
    · cases h
  | eq =>
    cases h
    simp [BinaryOp.apply, toValue, equals_toValue hcompares]
  | ne =>
    cases h
    simp [BinaryOp.apply, toValue, equals_toValue hcompares]
  | lt | le | gt | ge => exact comparison_toValue h hcompares
  | and | or => cases hlogical

theorem unary?_toValue {op : UnaryOp} {a c : Const} (h : unary? op a = some c) :
    op.apply a.toValue = .ok c.toValue := by
  unfold unary? at h
  split at h
  · cases h
    rfl
  · obtain ⟨k, hk, rfl⟩ := Option.map_eq_some_iff.1 h
    simp [UnaryOp.apply, toValue, hk]
  · cases h
    rfl
  · cases h

/-- Integers that are not told apart are equal at compile time, and at run time they are not. -/
theorem equal_only_when_folded {m n : Int64} (h : tells (int m) (int n) = false) :
    binary? .eq (int m) (int n) = some (bool true) ∧
      BinaryOp.eq.apply (.int m) (.int n) = .ok (.bool false) := by
  obtain ⟨hne, hequals⟩ : (m == n) = false ∧
      (Decimal.ofInt m.toInt).equals (Decimal.ofInt n.toInt) = true := by
    simpa [tells] using h
  exact ⟨congrArg (fun b => some (bool b)) hequals,
    congrArg (fun b => Except.ok (Value.bool b)) hne⟩

/-- Truth values have an order at compile time, and at run time they have none. -/
theorem bool_ordered_only_when_folded {op : BinaryOp} (h : op ∈ [.lt, .le, .gt, .ge]) (a b : Bool) :
    (∃ c, binary? op (bool a) (bool b) = some (bool c)) ∧
      op.apply (.bool a) (.bool b) = .error (.badOperands op .bool .bool) := by
  simp only [List.mem_cons, List.not_mem_nil, or_false] at h
  rcases h with rfl | rfl | rfl | rfl <;> exact ⟨⟨_, rfl⟩, rfl⟩

-- builtins

/-- In the folding of a call, constants are compared as their values are. -/
def CallCompares (name : String) (args : List Const) : Prop :=
  match name, args with
  | "contains", [list items, c] => ∀ item ∈ items, item.tells c = true
  | _, _ => True

theorem any_equals_toValue {items : List Const} {c : Const}
    (h : ∀ item ∈ items, item.tells c = true) :
    (toValues items).any (·.equals c.toValue) = items.any (·.equals c) := by
  induction items with
  | nil => rfl
  | cons item rest ih =>
    obtain ⟨hitem, hrest⟩ := List.forall_mem_cons.1 h
    rw [toValues, List.any_cons, List.any_cons, ih hrest, equals_toValue hitem]

/-- The builtin gives the value of the constant, and does nothing else. -/
def GivenBy (args : List Const) (c : Const) (b : Builtin) : Prop :=
  ∀ {γ : Type} [Gateway γ] (r : Recur γ),
    r.callCallable (.builtin b) (args.map toValue) = pure c.toValue

theorem GivenBy.of_callBuiltin {args : List Const} {c : Const} {b : Builtin}
    (harity : b.arity = .exactly args.length)
    (h : ∀ {γ : Type} [Gateway γ] (r : Recur γ),
      r.callBuiltin b (args.map toValue) = pure c.toValue) :
    GivenBy args c b := by
  intro γ _ r
  rw [Recur.callCallable, harity, if_neg, if_pos, h]
  · simp [Arity.accepts, Arity.exactly]
  · simp [Arity.exactly]

/-- A call that folds is one of a builtin, which gives the value of the constant. -/
theorem call?_toValue {name : String} {args : List Const} {c : Const} (h : call? name args = some c)
    (hcompares : CallCompares name args) :
    ∃ b, Builtin.ofName? name = some b ∧ GivenBy args c b := by
  unfold call? at h
  split at h
  case h_1 s =>
    cases h
    exact ⟨.collection .len, by decide, GivenBy.of_callBuiltin rfl fun _ => rfl⟩
  case h_2 items =>
    cases h
    refine ⟨.collection .len, by decide, GivenBy.of_callBuiltin rfl fun r => ?_⟩
    change Eval.ofExcept (Value.len (list items).toValue) = _
    simp [toValue, Value.len, Eval.ofExcept]
  case h_3 n =>
    obtain ⟨k, hk, rfl⟩ := Option.map_eq_some_iff.1 h
    refine ⟨.scalar .abs, by decide, GivenBy.of_callBuiltin rfl fun r => ?_⟩
    change Eval.ofExcept (Value.abs (int n).toValue) = _
    simp [toValue, Value.abs, hk, Eval.ofExcept]
  case h_4 x =>
    cases h
    exact ⟨.scalar .abs, by decide, GivenBy.of_callBuiltin rfl fun _ => rfl⟩
  case h_5 s =>
    cases h
    exact ⟨.scalar .upper, by decide, GivenBy.of_callBuiltin rfl fun _ => rfl⟩
  case h_6 s =>
    cases h
    exact ⟨.scalar .lower, by decide, GivenBy.of_callBuiltin rfl fun _ => rfl⟩
  case h_7 s needle =>
    cases h
    exact ⟨.collection .contains, by decide, GivenBy.of_callBuiltin rfl fun _ => rfl⟩
  case h_8 items needle =>
    cases h
    refine ⟨.collection .contains, by decide, GivenBy.of_callBuiltin rfl fun r => ?_⟩
    have hany := any_equals_toValue hcompares
    cases needle <;> exact congrArg (fun b => pure (Value.bool b)) hany
  case h_9 => cases h

end Const

end StreamLang
