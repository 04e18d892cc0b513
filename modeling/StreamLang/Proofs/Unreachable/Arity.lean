import StreamLang.Interpreter.Expr

/-! Faults that stand for a mistake of the evaluator itself. A builtin that is given as many
arguments as it takes has a rule for them, so that its faults are never of this kind. -/

namespace StreamLang

/-- No program that was checked should meet such a fault. -/
def Fault.isInternal : Fault → Bool
  | pendingAwait => true
  | cannotSuspend => true
  | notFromParts => true
  | noArm _ => true
  | unknownFuture => true
  | unavailable _ => true
  | notSequenceOp _ => true
  | malformedFrame => true
  | _ => false

/-- If it fails, then not with an internal fault. -/
def Except.Mild {α : Type} (x : Except Fault α) : Prop :=
  ∀ fault, x = .error fault → ¬ fault.isInternal

namespace Except.Mild

variable {α β : Type}

theorem ok (a : α) : Mild (.ok a) := by rintro fault ⟨⟩

theorem error {fault : Fault} (h : fault.isInternal = false) :
    Mild (.error fault : Except Fault α) := by
  rintro _ ⟨⟩ hinternal
  rw [h] at hinternal
  cases hinternal

theorem bind {x : Except Fault α} {f : α → Except Fault β} (hx : Mild x) (hf : ∀ a, Mild (f a)) :
    Mild (x >>= f) := by
  cases x with
  | ok a => exact hf a
  | error fault => exact .error (by simpa using hx fault rfl)

theorem map {x : Except Fault α} (hx : Mild x) (f : α → β) : Mild (x.map f) := by
  cases x with
  | ok a => exact .ok (f a)
  | error fault => exact .error (by simpa using hx fault rfl)

end Except.Mild

namespace Argument

variable (b : Builtin)

theorem bad_mild {α : Type} (wanted : Wanted) (v : Value) :
    Except.Mild (bad b wanted v : Except Fault α) :=
  .error rfl

theorem int_mild (v : Value) : Except.Mild (int b v) := by
  cases v with
  | int n => exact .ok n
  | _ => exact bad_mild b _ _

theorem text_mild (v : Value) : Except.Mild (text b v) := by
  cases v with
  | text s => exact .ok s
  | _ => exact bad_mild b _ _

theorem list_mild (v : Value) : Except.Mild (list b v) := by
  cases v with
  | list items => exact .ok items
  | set items => exact .ok items
  | _ => exact bad_mild b _ _

theorem map_mild (v : Value) : Except.Mild (map b v) := by
  cases v with
  | map entries => exact .ok entries
  | _ => exact bad_mild b _ _

theorem future_mild (v : Value) : Except.Mild (future b v) := by
  cases v with
  | future id => exact .ok id
  | _ => exact bad_mild b _ _

theorem number_mild (v : Value) : Except.Mild (number b v) := by
  unfold number
  split
  · exact .ok _
  · exact bad_mild b _ _

theorem count_mild (v : Value) : Except.Mild (count b v) := by
  refine .bind (int_mild b v) fun n => ?_
  split
  · exact .error rfl
  · exact .ok _

theorem futures_mild (vs : List Value) : Except.Mild (futures b vs) := by
  induction vs with
  | nil => exact .ok _
  | cons v rest ih => exact .bind (future_mild b v) fun _ => .bind ih fun _ => .ok _

end Argument

namespace Value

theorem select_mild (v : Value) (field : String) : Except.Mild (v.select field) := by
  unfold select
  split
  case h_4 => exact .error rfl
  all_goals split
  all_goals first | exact .ok _ | exact .error rfl

theorem item_mild (target : Indexed) (items : List Value) (i : Int64) :
    Except.Mild (item target items i) := by
  unfold item
  split
  · exact .ok _
  · exact .error rfl

theorem index_mild (target i : Value) : Except.Mild (target.index i) := by
  unfold index
  split
  · exact item_mild _ _ _
  · exact item_mild _ _ _
  · unfold character
    split
    · exact .ok _
    · exact .error rfl
  · split
    · exact .ok _
    · exact .error rfl
  · exact .error rfl

end Value

namespace BinaryOp

theorem floats_mild (op : BinaryOp) (a b : Value) : Except.Mild (op.floats a b) := by
  unfold floats
  split
  · exact .ok _
  · exact .error rfl

theorem arithmetic_mild (op : BinaryOp) (f g) (a b : Value) :
    Except.Mild (op.arithmetic f g a b) := by
  unfold arithmetic
  split
  · split
    · exact .ok _
    · exact .error rfl
  · exact .map (op.floats_mild _ _) _

theorem division_mild (op : BinaryOp) (f g) (a b : Value) : Except.Mild (op.division f g a b) := by
  unfold division
  split
  · split
    · exact .error rfl
    · split
      · exact .ok _
      · exact .error rfl
  · refine .bind (op.floats_mild _ _) fun p => ?_
    split
    · exact .error rfl
    · exact .ok _

theorem comparison_mild (op : BinaryOp) (wanted : Ordering → Bool) (a b : Value) :
    Except.Mild (op.comparison wanted a b) := by
  refine .map ?_ _
  unfold ordering
  split
  · exact .ok _
  · exact .ok _
  · exact .map (op.floats_mild _ _) _

theorem logical_mild (op : BinaryOp) (f : Bool → Bool → Bool) (a b : Value) :
    Except.Mild (op.logical f a b) := by
  unfold logical
  split
  · exact .ok _
  · exact .error rfl

theorem apply_mild (op : BinaryOp) (a b : Value) : Except.Mild (op.apply a b) := by
  cases op with
  | add =>
    unfold apply
    dsimp only
    split
    · exact .ok _
    · exact arithmetic_mild _ _ _ _ _
  | sub => exact arithmetic_mild _ _ _ _ _
  | mul => exact arithmetic_mild _ _ _ _ _
  | div => exact division_mild _ _ _ _ _
  | mod => exact division_mild _ _ _ _ _
  | eq => exact .ok _
  | ne => exact .ok _
  | lt => exact comparison_mild _ _ _ _
  | le => exact comparison_mild _ _ _ _
  | gt => exact comparison_mild _ _ _ _
  | ge => exact comparison_mild _ _ _ _
  | and => exact logical_mild _ _ _ _
  | or => exact logical_mild _ _ _ _

end BinaryOp

theorem UnaryOp.apply_mild (op : UnaryOp) (a : Value) : Except.Mild (op.apply a) := by
  unfold UnaryOp.apply
  split
  · exact .ok _
  · split
    · exact .ok _
    · exact .error rfl
  · exact .ok _
  · exact .error rfl

namespace Value

theorem len_mild (v : Value) : Except.Mild v.len := by
  cases v with
  | list | set | tuple | map | text => exact .ok _
  | _ => exact Argument.bad_mild _ _ _

theorem concat_mild (a b : Value) : Except.Mild (a.concat b) := by
  unfold concat
  split
  · exact .ok _
  · exact .bind (Argument.list_mild _ _) fun _ => .bind (Argument.list_mild _ _) fun _ => .ok _

theorem reverse_mild (v : Value) : Except.Mild v.reverse := by
  unfold reverse
  split
  · exact .ok _
  · exact .bind (Argument.list_mild _ _) fun _ => .ok _

theorem contains_mild (a b : Value) : Except.Mild (a.contains b) := by
  unfold contains
  split
  case h_5 => exact Argument.bad_mild _ _ _
  all_goals exact .ok _

theorem unwrap_mild (v : Value) : Except.Mild v.unwrap := by
  unfold unwrap
  split
  · exact .ok _
  · exact .ok _
  · exact .error rfl
  · exact .error rfl
  · exact Argument.bad_mild _ _ _

theorem unwrapOr_mild (v fallback : Value) : Except.Mild (v.unwrapOr fallback) := by
  unfold unwrapOr
  split
  case h_5 => exact Argument.bad_mild _ _ _
  all_goals exact .ok _

theorem isSome_mild (b : Builtin) (v : Value) : Except.Mild (v.isSome b) := by
  cases v with
  | option inner => exact .ok _
  | _ => exact Argument.bad_mild _ _ _

theorem isOk_mild (b : Builtin) (v : Value) : Except.Mild (v.isOk b) := by
  cases v with
  | ok | err => exact .ok _
  | _ => exact Argument.bad_mild _ _ _

theorem abs_mild (v : Value) : Except.Mild v.abs := by
  unfold abs
  split
  · split
    · exact .ok _
    · exact .error rfl
  · exact .ok _
  · exact Argument.bad_mild _ _ _

theorem extreme_mild (op : ScalarOp) (a b : Value) : Except.Mild (extreme op a b) := by
  unfold extreme
  dsimp only
  split
  · exact .ok _
  · exact .ok _
  · exact .bind (Argument.number_mild _ _) fun _ => .bind (Argument.number_mild _ _) fun _ => .ok _

theorem sqrt_mild (v : Value) : Except.Mild v.sqrt := by
  refine .bind (Argument.number_mild _ _) fun x => ?_
  split
  · exact .ok _
  · exact .error rfl

theorem toWhole_mild (b : Builtin) (round : Decimal.Binary → Int) (v : Value) :
    Except.Mild (toWhole b round v) := by
  refine .bind (Argument.number_mild _ _) fun x => ?_
  split
  · exact .error rfl
  · split
    · exact .ok _
    · exact .error rfl

theorem floor_mild (v : Value) : Except.Mild v.floor := by
  unfold floor
  split
  · exact .ok _
  · exact toWhole_mild _ _ _

theorem toInt_mild (v : Value) : Except.Mild v.toInt := by
  unfold toInt
  split
  · exact .ok _
  · split
    · exact .ok _
    · exact .error rfl
  · exact toWhole_mild _ _ _

theorem toFloat_mild (v : Value) : Except.Mild v.toFloat := by
  unfold toFloat
  split
  · split
    · exact .ok _
    · exact .error rfl
  · exact .bind (Argument.number_mild _ _) fun _ => .ok _

theorem sum_mild (items : List Value) : Except.Mild (sum items) := by
  have hplus : ∀ (items : List Value) (start : Binary64), Except.Mild (items.foldlM
      (fun (t : Binary64) v => do return t.add (← Argument.number (.sequence .sum) v)) start) := by
    intro items
    induction items with
    | nil => exact fun start => .ok _
    | cons v rest ih =>
      intro start
      rw [List.foldlM_cons]
      exact .bind (.bind (Argument.number_mild _ _) fun _ => .ok _) fun _ => ih _
  unfold sum
  split
  · unfold sumInts
    split
    · exact .ok _
    · exact .error rfl
  · exact .bind (hplus _ _) fun _ => .ok _

end Value

open Argument Value in
/-- The builtin has a rule for every list of as many arguments as it takes. -/
theorem CollectionOp.apply_mild : ∀ (op : CollectionOp) {args : List Value},
    args.length = op.arity → Except.Mild (op.apply args)
  | .len, [v], _ => len_mild v
  | .append, [l, _], _ => .bind (list_mild _ l) fun _ => .ok _
  | .concat, [a, b], _ => concat_mild a b
  | .head, [l], _ => .bind (list_mild _ l) fun _ => .ok _
  | .tail, [l], _ => .bind (list_mild _ l) fun _ => .ok _
  | .nth, [l, i], _ => .bind (list_mild _ l) fun _ => .bind (int_mild _ i) fun _ => .ok _
  | .reverse, [v], _ => reverse_mild v
  | .range, [a, b], _ => .bind (int_mild _ a) fun _ => .bind (int_mild _ b) fun _ => .ok _
  | .contains, [a, b], _ => contains_mild a b
  | .merge, [a, b], _ => .bind (map_mild _ a) fun _ => .bind (map_mild _ b) fun _ => .ok _
  | .get, [m, k], _ => .bind (map_mild _ m) fun _ => .bind (text_mild _ k) fun _ => .ok _
  | .put, [m, k, _], _ => .bind (map_mild _ m) fun _ => .bind (text_mild _ k) fun _ => .ok _
  | .remove, [m, k], _ => .bind (map_mild _ m) fun _ => .bind (text_mild _ k) fun _ => .ok _
  | .keys, [m], _ => .bind (map_mild _ m) fun _ => .ok _
  | .values, [m], _ => .bind (map_mild _ m) fun _ => .ok _
  | .hasKey, [m, k], _ => .bind (map_mild _ m) fun _ => .bind (text_mild _ k) fun _ => .ok _
  | .set, [l], _ => .bind (list_mild _ l) fun _ => .ok _
  | .insert, [s, _], _ => .bind (list_mild _ s) fun _ => .ok _
  | .union, [a, b], _ => .bind (list_mild _ a) fun _ => .bind (list_mild _ b) fun _ => .ok _

open Value in
theorem WrapperOp.apply_mild : ∀ (op : WrapperOp) {args : List Value},
    args.length = op.arity → Except.Mild (op.apply args)
  | .some, [_], _ => .ok _
  | .capitalSome, [_], _ => .ok _
  | .none, [], _ => .ok _
  | .ok, [_], _ => .ok _
  | .capitalOk, [_], _ => .ok _
  | .err, [_], _ => .ok _
  | .capitalErr, [_], _ => .ok _
  | .unwrap, [v], _ => unwrap_mild v
  | .unwrapOr, [v, fallback], _ => unwrapOr_mild v fallback
  | .isSome, [v], _ => .bind (isSome_mild _ v) fun _ => .ok _
  | .isNone, [v], _ => .bind (isSome_mild _ v) fun _ => .ok _
  | .isOk, [v], _ => .bind (isOk_mild _ v) fun _ => .ok _
  | .isErr, [v], _ => .bind (isOk_mild _ v) fun _ => .ok _

open Argument Value in
theorem ScalarOp.apply_mild : ∀ (op : ScalarOp) {args : List Value},
    args.length = op.arity → Except.Mild (op.apply args)
  | .toString, [_], _ => .ok _
  | .upper, [v], _ => .bind (text_mild _ v) fun _ => .ok _
  | .lower, [v], _ => .bind (text_mild _ v) fun _ => .ok _
  | .split, [v, sep], _ => .bind (text_mild _ v) fun _ => .bind (text_mild _ sep) fun _ => .ok _
  | .join, [l, sep], _ => .bind (list_mild _ l) fun _ => .bind (text_mild _ sep) fun _ => .ok _
  | .abs, [v], _ => abs_mild v
  | .min, [a, b], _ => extreme_mild _ a b
  | .max, [a, b], _ => extreme_mild _ a b
  | .sqrt, [v], _ => sqrt_mild v
  | .floor, [v], _ => floor_mild v
  | .toFloat, [v], _ => toFloat_mild v
  | .toInt, [v], _ => toInt_mild v

/-- As many arguments as a function takes when the number is fixed. -/
theorem Arity.length_of_exactly {n count : Nat} (h : (Arity.exactly n).accepts count = true) :
    count = n := by
  obtain ⟨hmin, hmax⟩ := Bool.and_eq_true_iff.1 h
  exact Nat.le_antisymm (of_decide_eq_true hmax) (of_decide_eq_true hmin)

open Argument in
theorem SourceOp.source_mild (op : SourceOp) {args : List Value}
    (h : op.arity.accepts args.length = true) : Except.Mild (op.source args) := by
  cases op with
  | ofList => match args, Arity.length_of_exactly h with
    | [l], _ => exact .bind (list_mild _ l) fun _ => .ok _
  | generate => match args, Arity.length_of_exactly h with
    | [count, _], _ => exact .bind (int_mild _ count) fun _ => .ok _
  | infinite => match args, Arity.length_of_exactly h with
    | [_], _ => exact .ok _
  | empty => match args, Arity.length_of_exactly h with
    | [], _ => exact .ok _
  | range => match args, h with
    | start :: stop :: more, _ =>
      refine .bind (int_mild _ start) fun a => .bind (int_mild _ stop) fun b => ?_
      have hrange : ∀ step : Int64, Except.Mild
          (if step == 0 then .error Fault.zeroStep else pure (Source.range a b step)) := by
        intro step
        split
        · exact .error rfl
        · exact .ok _
      dsimp only
      split
      · exact hrange 1
      · exact hrange 1
      · exact .bind (int_mild _ _) hrange

end StreamLang
