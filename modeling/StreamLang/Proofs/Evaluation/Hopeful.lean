import StreamLang.Interpreter.Expr

/-! The verdict that a future never resolves is not among the faults of operators and builtins. -/

namespace StreamLang

/-- The fault is that verdict. -/
def Fault.isVerdict : Fault → Bool
  | neverResolves => true
  | _ => false

theorem Fault.isVerdict_eq_false {fault : Fault} :
    fault.isVerdict = false ↔ fault ≠ .neverResolves := by
  cases fault <;> simp [isVerdict]

/-- If it fails, then not with that verdict. -/
def Except.Hopeful {α : Type} (x : Except Fault α) : Prop := x ≠ .error .neverResolves

namespace Except.Hopeful

variable {α β : Type}

@[simp] theorem ok_iff (a : α) : Hopeful (.ok a) := nofun

@[simp] theorem pure_iff (a : α) : Hopeful (pure a) := nofun

@[simp] theorem error_iff {fault : Fault} :
    Hopeful (.error fault : Except Fault α) ↔ fault ≠ .neverResolves := by simp [Hopeful]

@[simp] theorem map_iff {x : Except Fault α} {f : α → β} : Hopeful (x.map f) ↔ Hopeful x := by
  cases x <;> simp [Except.map]

@[simp] theorem fmap_iff {x : Except Fault α} {f : α → β} : Hopeful (f <$> x) ↔ Hopeful x :=
  map_iff

theorem bind {x : Except Fault α} {f : α → Except Fault β} (hx : Hopeful x) (hf : ∀ a, Hopeful (f a)) :
    Hopeful (x >>= f) := by
  cases x with
  | ok a => exact hf a
  | error fault => exact error_iff.2 (error_iff.1 hx)

@[simp] theorem bind_iff {x : Except Fault α} {f : α → Except Fault β} :
    Hopeful (x >>= f) ↔ Hopeful x ∧ ∀ a, x = .ok a → Hopeful (f a) := by
  cases x with
  | ok a => simp [Bind.bind, Except.bind]
  | error fault => simp [Bind.bind, Except.bind]

end Except.Hopeful

open StreamLang.Except (Hopeful)

namespace Argument

variable (b : Builtin)

@[simp] theorem bad_hopeful {α : Type} (wanted : Wanted) (v : Value) :
    Hopeful (bad b wanted v : Except Fault α) := by simp [bad]

@[simp] theorem int_hopeful (v : Value) : Hopeful (int b v) := by cases v <;> simp [int]

@[simp] theorem text_hopeful (v : Value) : Hopeful (text b v) := by cases v <;> simp [text]

@[simp] theorem list_hopeful (v : Value) : Hopeful (list b v) := by cases v <;> simp [list]

@[simp] theorem map_hopeful (v : Value) : Hopeful (map b v) := by cases v <;> simp [map]

@[simp] theorem future_hopeful (v : Value) : Hopeful (future b v) := by cases v <;> simp [future]

@[simp] theorem number_hopeful (v : Value) : Hopeful (number b v) := by
  unfold number
  split <;> simp

@[simp] theorem count_hopeful (v : Value) : Hopeful (count b v) := by
  refine .bind (int_hopeful b v) fun n => ?_
  split <;> simp

@[simp] theorem futures_hopeful (vs : List Value) : Hopeful (futures b vs) := by
  induction vs with
  | nil => simp [futures]
  | cons v rest ih => simp [futures, ih]

end Argument

namespace Value

theorem select_hopeful (v : Value) (field : String) : Hopeful (v.select field) := by
  unfold select
  split
  case h_4 => simp
  all_goals split <;> simp

theorem item_hopeful (target : Indexed) (items : List Value) (i : Int64) :
    Hopeful (item target items i) := by
  unfold item
  split <;> simp

theorem character_hopeful (s : String) (i : Int64) : Hopeful (character s i) := by
  unfold character
  split <;> simp

theorem index_hopeful (target i : Value) : Hopeful (target.index i) := by
  unfold index
  split
  · exact item_hopeful _ _ _
  · exact item_hopeful _ _ _
  · exact character_hopeful _ _
  · split <;> simp
  · simp

end Value

-- operators

namespace BinaryOp

variable (op : BinaryOp) (a b : Value)

@[simp] theorem floats_hopeful : Hopeful (op.floats a b) := by
  unfold floats
  split <;> simp [unsupported]

theorem arithmetic_hopeful (onInts onFloats) : Hopeful (op.arithmetic onInts onFloats a b) := by
  unfold arithmetic
  split
  · split <;> simp
  · simp

theorem division_hopeful (onInts onFloats) : Hopeful (op.division onInts onFloats a b) := by
  unfold division
  split
  · split
    · simp
    · split <;> simp
  · refine .bind (floats_hopeful op _ _) fun p => ?_
    split <;> simp

@[simp] theorem ordering_hopeful : Hopeful (op.ordering a b) := by
  unfold ordering
  split
  · exact Except.Hopeful.ok_iff _
  · exact Except.Hopeful.ok_iff _
  · simp

theorem logical_hopeful (onBools) : Hopeful (op.logical onBools a b) := by
  unfold logical
  split <;> simp [unsupported]

theorem apply_hopeful : Hopeful (op.apply a b) := by
  cases op with
  | add =>
    unfold apply
    dsimp only
    split
    · simp
    · exact arithmetic_hopeful _ _ _ _ _
  | sub | mul => exact arithmetic_hopeful _ a b _ _
  | div | mod => exact division_hopeful _ a b _ _
  | eq | ne => simp [apply]
  | lt | le | gt | ge => simp [apply, comparison]
  | and | or => exact logical_hopeful _ a b _

end BinaryOp

theorem UnaryOp.apply_hopeful (op : UnaryOp) (a : Value) : Hopeful (op.apply a) := by
  unfold UnaryOp.apply
  split
  case h_2 => split <;> simp
  all_goals simp

-- builtins

namespace Value

variable (v w : Value)

@[simp] theorem len_hopeful : Hopeful v.len := by cases v <;> simp [len]

@[simp] theorem concat_hopeful : Hopeful (v.concat w) := by
  unfold concat
  split <;> simp

@[simp] theorem reverse_hopeful : Hopeful v.reverse := by
  unfold reverse
  split <;> simp

@[simp] theorem contains_hopeful : Hopeful (v.contains w) := by
  unfold contains
  split <;> simp

@[simp] theorem unwrap_hopeful : Hopeful v.unwrap := by
  unfold unwrap
  split <;> simp

@[simp] theorem unwrapOr_hopeful : Hopeful (v.unwrapOr w) := by
  unfold unwrapOr
  split <;> simp

@[simp] theorem isSome_hopeful (b : Builtin) : Hopeful (v.isSome b) := by cases v <;> simp [isSome]

@[simp] theorem isOk_hopeful (b : Builtin) : Hopeful (v.isOk b) := by cases v <;> simp [isOk]

@[simp] theorem abs_hopeful : Hopeful v.abs := by
  unfold abs
  split
  case h_1 => split <;> simp
  all_goals simp

@[simp] theorem extreme_hopeful (op : ScalarOp) : Hopeful (extreme op v w) := by
  unfold extreme
  dsimp only
  split <;> simp

@[simp] theorem sqrt_hopeful : Hopeful v.sqrt := by
  refine .bind (Argument.number_hopeful _ v) fun x => ?_
  split <;> simp

theorem toWhole_hopeful (b : Builtin) (round : Decimal.Binary → Int) :
    Hopeful (toWhole b round v) := by
  refine .bind (Argument.number_hopeful b v) fun x => ?_
  split
  · simp
  · split <;> simp

@[simp] theorem floor_hopeful : Hopeful v.floor := by
  unfold floor
  split
  · simp
  · exact toWhole_hopeful _ _ _

@[simp] theorem toInt_hopeful : Hopeful v.toInt := by
  unfold toInt
  split
  · simp
  · split <;> simp
  · exact toWhole_hopeful _ _ _

@[simp] theorem toFloat_hopeful : Hopeful v.toFloat := by
  unfold toFloat
  split
  · split <;> simp
  · simp

theorem sum_hopeful (items : List Value) : Hopeful (sum items) := by
  have hfold (x : Binary64) : Hopeful (items.foldlM (fun (t : Binary64) v => do
      return t.add (← Argument.number (.sequence .sum) v)) x) := by
    induction items generalizing x with
    | nil => exact Except.Hopeful.ok_iff x
    | cons v rest ih =>
      rw [List.foldlM_cons]
      exact .bind (by simp) fun _ => ih _
  unfold sum
  split
  · unfold sumInts
    split <;> simp
  · simpa using hfold _

end Value

theorem CollectionOp.apply_hopeful (op : CollectionOp) (args : List Value) :
    Hopeful (op.apply args) := by
  unfold CollectionOp.apply
  dsimp only
  split <;> simp

theorem WrapperOp.apply_hopeful (op : WrapperOp) (args : List Value) :
    Hopeful (op.apply args) := by
  unfold WrapperOp.apply
  dsimp only
  split <;> simp

theorem ScalarOp.apply_hopeful (op : ScalarOp) (args : List Value) :
    Hopeful (op.apply args) := by
  unfold ScalarOp.apply
  dsimp only
  split <;> simp

theorem SourceOp.source_hopeful (op : SourceOp) (args : List Value) :
    Hopeful (op.source args) := by
  unfold SourceOp.source
  dsimp only
  split
  case h_2 =>
    refine .bind (Argument.int_hopeful _ _) fun a => .bind (Argument.int_hopeful _ _) fun b => ?_
    have hrange (step : Int64) : Hopeful
        (if step == 0 then .error Fault.zeroStep else pure (Source.range a b step)) := by
      split <;> simp
    split
    · exact hrange 1
    · exact hrange 1
    · exact .bind (Argument.int_hopeful _ _) hrange
  all_goals simp

theorem Pipeline.boundedCursor_hopeful (p : Pipeline) (terminal : String) :
    Hopeful (p.boundedCursor terminal) := by
  unfold boundedCursor
  split <;> simp

theorem InnerCursor.ofValue_hopeful (terminal : Option String) (v : Value) :
    Hopeful (ofValue terminal v) := by
  unfold ofValue
  split
  case h_3 => split <;> simp [Pipeline.boundedCursor_hopeful]
  all_goals simp

end StreamLang
