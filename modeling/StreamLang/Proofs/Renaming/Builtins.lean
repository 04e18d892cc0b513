import StreamLang.Interpreter.Expr
import StreamLang.Proofs.Renaming.Value

/-! Accesses, operators and builtins on values with other identities: they give what they give on the
values, with the other identities. -/

namespace StreamLang

variable {α β α' β' : Type} {ρ : Identity → Identity}

namespace Fault

/-- The fault with other identities in the value that it shows. -/
def rename (ρ : Identity → Identity) : Fault → Fault
  | patternMismatch v => patternMismatch (v.rename ρ)
  | noArm v => noArm (v.rename ρ)
  | unhandled v => unhandled (v.rename ρ)
  | refinementViolated v name => refinementViolated (v.rename ρ) name
  | unwrapErr error => unwrapErr (error.rename ρ)
  | fault => fault

end Fault

/-- The result with other identities, where `f` gives a value other identities. -/
def Except.rename (ρ : Identity → Identity) (f : α → β) : Except Fault α → Except Fault β
  | .ok a => .ok (f a)
  | .error fault => .error (fault.rename ρ)

namespace Except

variable {f : α → β}

@[simp] theorem rename_ok (a : α) : Except.rename ρ f (.ok a) = .ok (f a) := rfl

@[simp] theorem rename_error (fault : Fault) :
    Except.rename ρ f (.error fault) = .error (fault.rename ρ) := rfl

theorem rename_bind {x : Except Fault α} {y : Except Fault β} (hx : y = Except.rename ρ f x)
    {g : α' → β'} {k : α → Except Fault α'} {k' : β → Except Fault β'}
    (hk : ∀ a, k' (f a) = Except.rename ρ g (k a)) : (y >>= k') = Except.rename ρ g (x >>= k) := by
  subst hx
  cases x with
  | ok a => exact hk a
  | error fault => rfl

end Except

namespace Keyed

theorem get?_rename (key : String) (m : List (String × Value)) :
    get? key (m.map (Value.renameEntry ρ)) = (get? key m).map (Value.rename ρ) := by
  induction m with
  | nil => rfl
  | cons e rest ih =>
    rw [List.map_cons, get?, get?, Value.renameEntry_fst]
    split
    · rfl
    · exact ih

theorem contains_rename (key : String) (m : List (String × Value)) :
    contains key (m.map (Value.renameEntry ρ)) = contains key m := by
  rw [contains, contains, get?_rename, Option.isSome_map]

theorem insert_rename (key : String) (v : Value) (m : List (String × Value)) :
    insert key (v.rename ρ) (m.map (Value.renameEntry ρ)) =
      (insert key v m).map (Value.renameEntry ρ) := by
  induction m with
  | nil => rfl
  | cons e rest ih =>
    rw [List.map_cons, insert, insert, Value.renameEntry_fst]
    split
    · rfl
    · split
      · rfl
      · rw [ih, List.map_cons]

theorem erase_rename (key : String) (m : List (String × Value)) :
    erase key (m.map (Value.renameEntry ρ)) = (erase key m).map (Value.renameEntry ρ) := by
  rw [erase, erase, List.filter_map]
  rfl

theorem foldl_insert_rename {ι : Type} (key : ι → String) (entries : List (ι × Value))
    (m : List (String × Value)) :
    (entries.map (Value.renameEntry ρ)).foldl (fun m e => insert (key e.1) e.2 m)
        (m.map (Value.renameEntry ρ)) =
      (entries.foldl (fun m e => insert (key e.1) e.2 m) m).map (Value.renameEntry ρ) := by
  induction entries generalizing m with
  | nil => rfl
  | cons e rest ih =>
    rw [List.map_cons, List.foldl_cons, List.foldl_cons, ← ih, ← insert_rename]
    rfl

end Keyed

theorem fieldOf?_rename (name : String) (fields : List (String × Value)) :
    fieldOf? name (fields.map (Value.renameEntry ρ)) = (fieldOf? name fields).map (Value.rename ρ) := by
  rw [fieldOf?, fieldOf?, List.find?_map, Option.map_map, Option.map_map]
  rfl

namespace Argument

variable (b : Builtin) (v : Value)

theorem int_rename : int b (v.rename ρ) = Except.rename ρ id (int b v) := by cases v <;> rfl

theorem text_rename : text b (v.rename ρ) = Except.rename ρ id (text b v) := by cases v <;> rfl

theorem future_rename : future b (v.rename ρ) = Except.rename ρ id (future b v) := by cases v <;> rfl

theorem list_rename : list b (v.rename ρ) = Except.rename ρ (List.map (Value.rename ρ)) (list b v) := by
  cases v with
  | list items => rw [Value.rename_list, list, list, Except.rename]
  | set items => rw [Value.rename_set, list, list, Except.rename]
  | _ => rfl

theorem map_rename : map b (v.rename ρ) = Except.rename ρ (List.map (Value.renameEntry ρ)) (map b v) := by
  cases v with
  | map entries => rw [Value.rename_map, map, map, Except.rename]
  | _ => rfl

theorem number_rename : number b (v.rename ρ) = Except.rename ρ id (number b v) := by
  cases v <;> rfl

theorem count_rename : count b (v.rename ρ) = Except.rename ρ id (count b v) := by
  refine Except.rename_bind (int_rename b v) fun n => ?_
  dsimp only [id]
  split <;> rfl

theorem futures_rename (vs : List Value) :
    futures b (vs.map (Value.rename ρ)) = Except.rename ρ id (futures b vs) := by
  induction vs with
  | nil => rfl
  | cons v rest ih =>
    exact Except.rename_bind (future_rename b v) fun n => Except.rename_bind ih fun ns => rfl

end Argument

namespace Value

theorem itemAt?_rename (items : List Value) (i : Int64) :
    itemAt? (items.map (rename ρ)) i = (itemAt? items i).map (rename ρ) := by
  rw [itemAt?, itemAt?, List.getElem?_map]
  split <;> rfl

theorem select_rename (field : String) (v : Value) :
    (v.rename ρ).select field = Except.rename ρ (rename ρ) (v.select field) := by
  cases v with
  | record name fields =>
    rw [rename_record, select, select, fieldOf?_rename]
    cases fieldOf? field fields <;> rfl
  | map entries =>
    rw [rename_map, select, select, Keyed.get?_rename]
    cases Keyed.get? field entries <;> rfl
  | tuple items =>
    have hfound : (Whole.readNat? field.toList).bind ((items.map (rename ρ))[·]?) =
        ((Whole.readNat? field.toList).bind (items[·]?)).map (rename ρ) := by
      cases Whole.readNat? field.toList with
      | none => rfl
      | some n => exact List.getElem?_map
    rw [rename_tuple, select, select, hfound, List.length_map]
    cases (Whole.readNat? field.toList).bind (items[·]?) <;> rfl
  | _ => rfl

theorem item_rename (target : Indexed) (items : List Value) (i : Int64) :
    item target (items.map (rename ρ)) i = Except.rename ρ (rename ρ) (item target items i) := by
  rw [item, item, itemAt?_rename, List.length_map]
  cases itemAt? items i <;> rfl

theorem index_rename (target i : Value) :
    (target.rename ρ).index (i.rename ρ) = Except.rename ρ (rename ρ) (target.index i) := by
  cases target with
  | list items =>
    cases i with
    | int n =>
      rw [rename_list]
      exact item_rename .list items n
    | _ => rfl
  | tuple items =>
    cases i with
    | int n =>
      rw [rename_tuple]
      exact item_rename .tuple items n
    | _ => rfl
  | text s =>
    cases i with
    | int n =>
      rw [rename_text, rename_int, index, character]
      split <;> rfl
    | _ => rfl
  | map entries =>
    cases i with
    | text key =>
      rw [rename_map, rename_text, index, index, Keyed.get?_rename]
      cases Keyed.get? key entries <;> rfl
    | _ => rfl
  | _ => cases i <;> rfl

end Value

namespace BinaryOp

variable (op : BinaryOp) (a b : Value)

theorem unsupported_rename : op.unsupported (a.rename ρ) (b.rename ρ) = op.unsupported a b := by
  rw [unsupported, unsupported, Value.kind_rename, Value.kind_rename]

theorem floats_rename : op.floats (a.rename ρ) (b.rename ρ) = op.floats a b := by
  rw [floats, floats, Value.toBinary64?_rename, Value.toBinary64?_rename, unsupported_rename]

/-- What is computed from two numbers holds no identities. -/
theorem map_floats_rename {f : Binary64 × Binary64 → Value} (hf : ∀ p, (f p).rename ρ = f p) :
    (op.floats (a.rename ρ) (b.rename ρ)).map f =
      Except.rename ρ (Value.rename ρ) ((op.floats a b).map f) := by
  rw [floats_rename, floats]
  split
  · exact congrArg Except.ok (hf _).symm
  · rfl

theorem arithmetic_rename (onInts : Int64 → Int64 → Option Int64)
    (onFloats : Binary64 → Binary64 → Binary64) :
    op.arithmetic onInts onFloats (a.rename ρ) (b.rename ρ) =
      Except.rename ρ (Value.rename ρ) (op.arithmetic onInts onFloats a b) := by
  have hfloats := op.map_floats_rename a b (ρ := ρ) (f := fun p => .float (onFloats p.1 p.2)) fun _ => rfl
  cases a with
  | int x => cases b with
    | int y =>
      rw [Value.rename_int, Value.rename_int, arithmetic]
      cases onInts x y <;> rfl
    | _ => exact hfloats
  | _ => exact hfloats

theorem division_rename (onInts : Int64 → Int64 → Option Int64)
    (onFloats : Binary64 → Binary64 → Binary64) :
    op.division onInts onFloats (a.rename ρ) (b.rename ρ) =
      Except.rename ρ (Value.rename ρ) (op.division onInts onFloats a b) := by
  have hfloats : (do
      let p ← op.floats (a.rename ρ) (b.rename ρ)
      if p.2.isZero then .error .divisionByZero else .ok (.float (onFloats p.1 p.2))) =
      Except.rename ρ (Value.rename ρ) (do
        let p ← op.floats a b
        if p.2.isZero then .error .divisionByZero else .ok (.float (onFloats p.1 p.2))) := by
    have hsame : op.floats (a.rename ρ) (b.rename ρ) = Except.rename ρ id (op.floats a b) := by
      rw [floats_rename, floats]
      split <;> rfl
    refine Except.rename_bind hsame fun p => ?_
    dsimp only [id]
    split <;> rfl
  cases a with
  | int x => cases b with
    | int y =>
      rw [Value.rename_int, Value.rename_int, division]
      split
      · rfl
      · cases onInts x y <;> rfl
    | _ => exact hfloats
  | _ => exact hfloats

theorem comparison_rename (wanted : Ordering → Bool) :
    op.comparison wanted (a.rename ρ) (b.rename ρ) =
      Except.rename ρ (Value.rename ρ) (op.comparison wanted a b) := by
  have hfloats := op.map_floats_rename a b (ρ := ρ)
    (f := fun p => .bool (((p.1.compare? p.2).map wanted).getD false)) fun _ => rfl
  have hordering : ∀ a b : Value, ((op.floats a b).map fun p => p.1.compare? p.2).map
      (fun o => Value.bool ((o.map wanted).getD false)) =
      (op.floats a b).map fun p => .bool (((p.1.compare? p.2).map wanted).getD false) := by
    intro a b
    cases op.floats a b <;> rfl
  rw [← hordering, ← hordering] at hfloats
  cases a with
  | int x => cases b with
    | int y => rfl
    | _ => exact hfloats
  | text x => cases b with
    | text y => rfl
    | _ => exact hfloats
  | _ => exact hfloats

theorem logical_rename (onBools : Bool → Bool → Bool) :
    op.logical onBools (a.rename ρ) (b.rename ρ) =
      Except.rename ρ (Value.rename ρ) (op.logical onBools a b) := by
  have hunsupported := congrArg (Except.error (α := Value)) (op.unsupported_rename a b (ρ := ρ))
  cases a with
  | bool x => cases b with
    | bool y => rfl
    | _ => exact hunsupported
  | _ => exact hunsupported

theorem apply_rename (hρ : Function.Injective ρ) :
    op.apply (a.rename ρ) (b.rename ρ) = Except.rename ρ (Value.rename ρ) (op.apply a b) := by
  cases op with
  | add =>
    have harith := add.arithmetic_rename a b (ρ := ρ) Whole.add? Binary64.add
    cases a with
    | text x => cases b with
      | text y => rfl
      | _ => exact harith
    | _ => exact harith
  | sub => exact arithmetic_rename ..
  | mul => exact arithmetic_rename ..
  | div => exact division_rename ..
  | mod => exact division_rename ..
  | eq => exact congrArg (fun c => Except.ok (Value.bool c)) (Value.equals_rename hρ a b)
  | ne => exact congrArg (fun c => Except.ok (Value.bool !c)) (Value.equals_rename hρ a b)
  | lt => exact comparison_rename ..
  | le => exact comparison_rename ..
  | gt => exact comparison_rename ..
  | ge => exact comparison_rename ..
  | and => exact logical_rename ..
  | or => exact logical_rename ..

end BinaryOp

theorem UnaryOp.apply_rename (op : UnaryOp) (a : Value) :
    op.apply (a.rename ρ) = Except.rename ρ (Value.rename ρ) (op.apply a) := by
  cases op with
  | not => cases a <;> rfl
  | neg => cases a with
    | int n =>
      rw [Value.rename_int, apply]
      cases Whole.neg? n <;> rfl
    | _ => rfl

namespace Value

theorem len_rename (v : Value) : (v.rename ρ).len = Except.rename ρ (rename ρ) v.len := by
  cases v with
  | list items => rw [rename_list, len, len, List.length_map, Except.rename, rename_int]
  | set items => rw [rename_set, len, len, List.length_map, Except.rename, rename_int]
  | tuple items => rw [rename_tuple, len, len, List.length_map, Except.rename, rename_int]
  | map entries => rw [rename_map, len, len, List.length_map, Except.rename, rename_int]
  | _ => rfl

theorem concat_rename (a b : Value) :
    (a.rename ρ).concat (b.rename ρ) = Except.rename ρ (rename ρ) (a.concat b) := by
  have hlists : (do
      let items ← Argument.list (.collection .concat) (a.rename ρ)
      let more ← Argument.list (.collection .concat) (b.rename ρ)
      return list (items ++ more)) = Except.rename ρ (rename ρ) (do
        let items ← Argument.list (.collection .concat) a
        let more ← Argument.list (.collection .concat) b
        return list (items ++ more)) :=
    Except.rename_bind (Argument.list_rename _ a) fun items =>
      Except.rename_bind (Argument.list_rename _ b) fun more =>
        congrArg Except.ok (by rw [rename_list, List.map_append])
  cases a with
  | text x => cases b with
    | text y => rfl
    | _ => exact hlists
  | _ => exact hlists

theorem reverse_rename (v : Value) :
    (v.rename ρ).reverse = Except.rename ρ (rename ρ) v.reverse := by
  have hlist : (do return list (← Argument.list (.collection .reverse) (v.rename ρ)).reverse) =
      Except.rename ρ (rename ρ) (do
        return list (← Argument.list (.collection .reverse) v).reverse) :=
    Except.rename_bind (Argument.list_rename _ v) fun items =>
      congrArg Except.ok (by rw [rename_list, List.map_reverse])
  cases v with
  | text s => rfl
  | _ => exact hlist

theorem range_rename (start stop : Int64) : (range start stop).map (rename ρ) = range start stop := by
  rw [range, List.map_map]
  rfl

variable (hρ : Function.Injective ρ)
include hρ

theorem any_equals_rename (items : List Value) (v : Value) :
    (items.map (rename ρ)).any (·.equals (v.rename ρ)) = items.any (·.equals v) := by
  rw [List.any_map]
  exact congrArg items.any (funext fun w => equals_rename hρ w v)

theorem any_sameMember_rename (items : List Value) (v : Value) :
    (items.map (rename ρ)).any (·.sameMember (v.rename ρ)) = items.any (·.sameMember v) := by
  rw [List.any_map]
  exact congrArg items.any (funext fun w => sameMember_rename hρ w v)

theorem contains_rename (a b : Value) :
    (a.rename ρ).contains (b.rename ρ) = Except.rename ρ (rename ρ) (a.contains b) := by
  cases a with
  | text s => cases b <;> rfl
  | map entries =>
    cases b with
    | text key =>
      rw [rename_map, rename_text, contains, contains, Keyed.contains_rename, Except.rename, rename_bool]
    | _ => rfl
  | list items =>
    rw [rename_list, contains, contains, any_equals_rename hρ, Except.rename, rename_bool]
  | set items =>
    rw [rename_set, contains, contains, any_sameMember_rename hρ, Except.rename, rename_bool]
  | _ => rfl

theorem addMember_rename (members : List Value) (v : Value) :
    addMember (members.map (rename ρ)) (v.rename ρ) = (addMember members v).map (rename ρ) := by
  rw [addMember, addMember, any_sameMember_rename hρ]
  split
  · rfl
  · rw [List.map_append, List.map_singleton]

theorem setOf_rename (vs : List Value) : (setOf vs).rename ρ = setOf (vs.map (rename ρ)) := by
  have hfold : ∀ members : List Value, (vs.map (rename ρ)).foldl addMember (members.map (rename ρ)) =
      (vs.foldl addMember members).map (rename ρ) := by
    induction vs with
    | nil => exact fun _ => rfl
    | cons v rest ih =>
      intro members
      rw [List.map_cons, List.foldl_cons, List.foldl_cons, addMember_rename hρ, ih]
  rw [setOf, setOf, rename_set]
  exact congrArg set (hfold []).symm

end Value

theorem CollectionOp.apply_rename (hρ : Function.Injective ρ) (op : CollectionOp) (args : List Value) :
    op.apply (args.map (Value.rename ρ)) = Except.rename ρ (Value.rename ρ) (op.apply args) := by
  have hlist (b : Builtin) (v : Value) := Argument.list_rename b v (ρ := ρ)
  have hmap (b : Builtin) (v : Value) := Argument.map_rename b v (ρ := ρ)
  have htext (b : Builtin) (v : Value) := Argument.text_rename b v (ρ := ρ)
  have hint (b : Builtin) (v : Value) := Argument.int_rename b v (ρ := ρ)
  cases op with
  | len =>
    match args with
    | [v] => exact v.len_rename
    | [] | _ :: _ :: _ => rfl
  | append =>
    match args with
    | [l, v] => exact Except.rename_bind (hlist _ l) fun items => congrArg Except.ok (by simp)
    | [] | [_] | _ :: _ :: _ :: _ => rfl
  | concat =>
    match args with
    | [a, b] => exact a.concat_rename b
    | [] | [_] | _ :: _ :: _ :: _ => rfl
  | head =>
    match args with
    | [l] => exact Except.rename_bind (hlist _ l) fun items => congrArg Except.ok (by simp)
    | [] | _ :: _ :: _ => rfl
  | tail =>
    match args with
    | [l] => exact Except.rename_bind (hlist _ l) fun items => congrArg Except.ok (by simp)
    | [] | _ :: _ :: _ => rfl
  | nth =>
    match args with
    | [l, i] =>
      exact Except.rename_bind (hlist _ l) fun items => Except.rename_bind (hint _ i) fun n =>
        congrArg Except.ok (by simp [Value.itemAt?_rename])
    | [] | [_] | _ :: _ :: _ :: _ => rfl
  | reverse =>
    match args with
    | [v] => exact v.reverse_rename
    | [] | _ :: _ :: _ => rfl
  | range =>
    match args with
    | [a, b] =>
      exact Except.rename_bind (hint _ a) fun start => Except.rename_bind (hint _ b) fun stop =>
        congrArg Except.ok (by simp [Value.range_rename])
    | [] | [_] | _ :: _ :: _ :: _ => rfl
  | contains =>
    match args with
    | [a, b] => exact a.contains_rename hρ b
    | [] | [_] | _ :: _ :: _ :: _ => rfl
  | merge =>
    match args with
    | [a, b] =>
      refine Except.rename_bind (hmap _ a) fun left => Except.rename_bind (hmap _ b) fun right => ?_
      have hmerge := Keyed.foldl_insert_rename (ρ := ρ) id right left
      exact congrArg Except.ok ((congrArg Value.map hmerge).trans (Value.rename_map _).symm)
    | [] | [_] | _ :: _ :: _ :: _ => rfl
  | get =>
    match args with
    | [m, k] =>
      exact Except.rename_bind (hmap _ m) fun entries => Except.rename_bind (htext _ k) fun key =>
        congrArg Except.ok (by simp [Keyed.get?_rename])
    | [] | [_] | _ :: _ :: _ :: _ => rfl
  | put =>
    match args with
    | [m, k, v] =>
      exact Except.rename_bind (hmap _ m) fun entries => Except.rename_bind (htext _ k) fun key =>
        congrArg Except.ok (by simp [Keyed.insert_rename])
    | [] | [_] | [_, _] | _ :: _ :: _ :: _ :: _ => rfl
  | remove =>
    match args with
    | [m, k] =>
      exact Except.rename_bind (hmap _ m) fun entries => Except.rename_bind (htext _ k) fun key =>
        congrArg Except.ok (by simp [Keyed.erase_rename])
    | [] | [_] | _ :: _ :: _ :: _ => rfl
  | keys =>
    match args with
    | [m] =>
      exact Except.rename_bind (hmap _ m) fun entries =>
        congrArg Except.ok (by simp [Function.comp_def])
    | [] | _ :: _ :: _ => rfl
  | values =>
    match args with
    | [m] =>
      exact Except.rename_bind (hmap _ m) fun entries =>
        congrArg Except.ok (by simp [Function.comp_def])
    | [] | _ :: _ :: _ => rfl
  | hasKey =>
    match args with
    | [m, k] =>
      exact Except.rename_bind (hmap _ m) fun entries => Except.rename_bind (htext _ k) fun key =>
        congrArg Except.ok (by simp [Keyed.contains_rename])
    | [] | [_] | _ :: _ :: _ :: _ => rfl
  | set =>
    match args with
    | [l] =>
      exact Except.rename_bind (hlist _ l) fun items =>
        congrArg Except.ok (Value.setOf_rename hρ items).symm
    | [] | _ :: _ :: _ => rfl
  | insert =>
    match args with
    | [s, v] =>
      exact Except.rename_bind (hlist _ s) fun items =>
        congrArg Except.ok (by simp [Value.setOf_rename hρ])
    | [] | [_] | _ :: _ :: _ :: _ => rfl
  | union =>
    match args with
    | [a, b] =>
      exact Except.rename_bind (hlist _ a) fun left => Except.rename_bind (hlist _ b) fun right =>
        congrArg Except.ok (by simp [Value.setOf_rename hρ])
    | [] | [_] | _ :: _ :: _ :: _ => rfl

namespace Value

theorem unwrap_rename (v : Value) : (v.rename ρ).unwrap = Except.rename ρ (rename ρ) v.unwrap := by
  cases v with
  | option inner => cases inner <;> rfl
  | _ => rfl

theorem unwrapOr_rename (v fallback : Value) : (v.rename ρ).unwrapOr (fallback.rename ρ) =
    Except.rename ρ (rename ρ) (v.unwrapOr fallback) := by
  cases v with
  | option inner => cases inner <;> rfl
  | _ => rfl

theorem isSome_rename (b : Builtin) (v : Value) :
    (v.rename ρ).isSome b = Except.rename ρ id (v.isSome b) := by
  cases v with
  | option inner => cases inner <;> rfl
  | _ => rfl

theorem isOk_rename (b : Builtin) (v : Value) :
    (v.rename ρ).isOk b = Except.rename ρ id (v.isOk b) := by
  cases v <;> rfl

end Value

theorem WrapperOp.apply_rename (op : WrapperOp) (args : List Value) :
    op.apply (args.map (Value.rename ρ)) = Except.rename ρ (Value.rename ρ) (op.apply args) := by
  have hbool {x y : Except Fault Bool} (h : y = Except.rename ρ id x) (f : Bool → Bool) :
      (do return .bool (f (← y))) = Except.rename ρ (Value.rename ρ) (do return .bool (f (← x))) :=
    Except.rename_bind h fun _ => rfl
  cases op with
  | none => cases args <;> rfl
  | some | capitalSome | ok | capitalOk | err | capitalErr =>
    match args with
    | [v] => rfl
    | [] | _ :: _ :: _ => rfl
  | unwrap =>
    match args with
    | [v] => exact v.unwrap_rename
    | [] | _ :: _ :: _ => rfl
  | unwrapOr =>
    match args with
    | [v, fallback] => exact v.unwrapOr_rename fallback
    | [] | [_] | _ :: _ :: _ :: _ => rfl
  | isSome =>
    match args with
    | [v] => exact hbool (v.isSome_rename _) id
    | [] | _ :: _ :: _ => rfl
  | isNone =>
    match args with
    | [v] => exact hbool (v.isSome_rename _) (!·)
    | [] | _ :: _ :: _ => rfl
  | isOk =>
    match args with
    | [v] => exact hbool (v.isOk_rename _) id
    | [] | _ :: _ :: _ => rfl
  | isErr =>
    match args with
    | [v] => exact hbool (v.isOk_rename _) (!·)
    | [] | _ :: _ :: _ => rfl

namespace Value

theorem abs_rename (v : Value) : (v.rename ρ).abs = Except.rename ρ (rename ρ) v.abs := by
  cases v with
  | int n =>
    rw [rename_int, abs]
    cases Whole.abs? n <;> rfl
  | _ => rfl

theorem extreme_rename (op : ScalarOp) (a b : Value) :
    extreme op (a.rename ρ) (b.rename ρ) = Except.rename ρ (rename ρ) (extreme op a b) := by
  have hpick (c : Bool) : (if c then a.rename ρ else b.rename ρ) = (if c then a else b).rename ρ := by
    cases c <;> rfl
  have hfloats : (do
      let x ← Argument.number (.scalar op) (a.rename ρ)
      let y ← Argument.number (.scalar op) (b.rename ρ)
      return if x.le y == (op == .min) then a.rename ρ else b.rename ρ) =
      Except.rename ρ (rename ρ) (do
        let x ← Argument.number (.scalar op) a
        let y ← Argument.number (.scalar op) b
        return if x.le y == (op == .min) then a else b) :=
    Except.rename_bind (Argument.number_rename _ a) fun x =>
      Except.rename_bind (Argument.number_rename _ b) fun y => congrArg Except.ok (hpick _)
  cases a with
  | int x => cases b with
    | int y => exact congrArg Except.ok (hpick _)
    | _ => exact hfloats
  | text x => cases b with
    | text y => exact congrArg Except.ok (hpick _)
    | _ => exact hfloats
  | _ => exact hfloats

theorem sqrt_rename (v : Value) : (v.rename ρ).sqrt = Except.rename ρ (rename ρ) v.sqrt := by
  refine Except.rename_bind (Argument.number_rename _ v) fun x => ?_
  dsimp only [id]
  split <;> rfl

theorem toWhole_rename (b : Builtin) (round : Decimal.Binary → Int) (v : Value) :
    toWhole b round (v.rename ρ) = Except.rename ρ (rename ρ) (toWhole b round v) := by
  refine Except.rename_bind (Argument.number_rename b v) fun x => ?_
  dsimp only [id]
  split
  · rfl
  · split <;> rfl

theorem floor_rename (v : Value) : (v.rename ρ).floor = Except.rename ρ (rename ρ) v.floor := by
  have hwhole := toWhole_rename (ρ := ρ) (.scalar .floor) Decimal.Binary.floor v
  cases v with
  | int n => rfl
  | _ => exact hwhole

theorem toInt_rename (v : Value) : (v.rename ρ).toInt = Except.rename ρ (rename ρ) v.toInt := by
  have hwhole := toWhole_rename (ρ := ρ) (.scalar .toInt) Decimal.Binary.truncate v
  cases v with
  | int n => rfl
  | text s =>
    unfold toInt
    dsimp only [rename_text]
    split <;> rfl
  | _ => exact hwhole

theorem toFloat_rename (v : Value) : (v.rename ρ).toFloat = Except.rename ρ (rename ρ) v.toFloat := by
  have hnumber : (do return float (← Argument.number (.scalar .toFloat) (v.rename ρ))) =
      Except.rename ρ (rename ρ) (do return float (← Argument.number (.scalar .toFloat) v)) :=
    Except.rename_bind (Argument.number_rename _ v) fun x => rfl
  cases v with
  | text s =>
    unfold toFloat
    dsimp only [rename_text]
    split <;> rfl
  | _ => exact hnumber

end Value

theorem ScalarOp.apply_rename (op : ScalarOp) (args : List Value) :
    op.apply (args.map (Value.rename ρ)) = Except.rename ρ (Value.rename ρ) (op.apply args) := by
  have htext (b : Builtin) (v : Value) := Argument.text_rename b v (ρ := ρ)
  cases op with
  | toString =>
    match args with
    | [v] => exact congrArg (fun s => Except.ok (Value.text s)) v.render_rename
    | [] | _ :: _ :: _ => rfl
  | upper =>
    match args with
    | [v] => exact Except.rename_bind (htext _ v) fun s => rfl
    | [] | _ :: _ :: _ => rfl
  | lower =>
    match args with
    | [v] => exact Except.rename_bind (htext _ v) fun s => rfl
    | [] | _ :: _ :: _ => rfl
  | split =>
    match args with
    | [v, sep] =>
      exact Except.rename_bind (htext _ v) fun s => Except.rename_bind (htext _ sep) fun t =>
        congrArg Except.ok (by simp [Function.comp_def])
    | [] | [_] | _ :: _ :: _ :: _ => rfl
  | join =>
    match args with
    | [l, sep] =>
      exact Except.rename_bind (Argument.list_rename _ l) fun items =>
        Except.rename_bind (htext _ sep) fun t => congrArg Except.ok (by simp [Function.comp_def])
    | [] | [_] | _ :: _ :: _ :: _ => rfl
  | abs =>
    match args with
    | [v] => exact v.abs_rename
    | [] | _ :: _ :: _ => rfl
  | min =>
    match args with
    | [a, b] => exact Value.extreme_rename _ a b
    | [] | [_] | _ :: _ :: _ :: _ => rfl
  | max =>
    match args with
    | [a, b] => exact Value.extreme_rename _ a b
    | [] | [_] | _ :: _ :: _ :: _ => rfl
  | sqrt =>
    match args with
    | [v] => exact v.sqrt_rename
    | [] | _ :: _ :: _ => rfl
  | floor =>
    match args with
    | [v] => exact v.floor_rename
    | [] | _ :: _ :: _ => rfl
  | toFloat =>
    match args with
    | [v] => exact v.toFloat_rename
    | [] | _ :: _ :: _ => rfl
  | toInt =>
    match args with
    | [v] => exact v.toInt_rename
    | [] | _ :: _ :: _ => rfl

namespace Value

theorem chunks_rename (size : Nat) (items : List Value) :
    chunks size (items.map (rename ρ)) = (chunks size items).map (rename ρ) := by
  have hfrom : ∀ (group : List Value) (room : Nat),
      chunksFrom size (group.map (rename ρ)) room (items.map (rename ρ)) =
        (chunksFrom size group room items).map (rename ρ) := by
    induction items with
    | nil =>
      intro group room
      rw [List.map_nil, chunksFrom, chunksFrom, List.isEmpty_map]
      split
      · rfl
      · simp
    | cons v rest ih =>
      intro group room
      rw [List.map_cons, chunksFrom, chunksFrom, ← List.map_cons]
      split
      · have hempty := ih [] size
        rw [List.map_nil] at hempty
        rw [hempty, List.map_cons, List.map_cons, rename_list, List.map_reverse, List.map_cons]
      · exact ih _ _
  exact hfrom [] size

theorem allInts?_rename (items : List Value) : allInts? (items.map (rename ρ)) = allInts? items := by
  induction items with
  | nil => rfl
  | cons v rest ih => cases v with
    | int n => rw [List.map_cons, rename_int, allInts?, allInts?, ih]
    | _ => rfl

theorem sum_rename (items : List Value) :
    sum (items.map (rename ρ)) = Except.rename ρ (rename ρ) (sum items) := by
  rw [sum, sum, allInts?_rename]
  cases allInts? items with
  | some ns =>
    dsimp only [sumInts]
    cases ns.foldlM Whole.add? 0 <;> rfl
  | none =>
    have hfold : ∀ start : Binary64, (items.map (rename ρ)).foldlM (fun t v => do
          return t.add (← Argument.number (.sequence .sum) v)) start =
        Except.rename ρ id (items.foldlM (fun t v => do
          return t.add (← Argument.number (.sequence .sum) v)) start) := by
      induction items with
      | nil => exact fun _ => rfl
      | cons v rest ih =>
        intro start
        rw [List.map_cons, List.foldlM_cons, List.foldlM_cons]
        exact Except.rename_bind (Except.rename_bind (g := id) (Argument.number_rename _ v)
          fun x => rfl) fun t => ih t
    exact Except.rename_bind (hfold _) fun t => rfl

end Value

theorem SourceOp.source_rename (op : SourceOp) (args : List Value) :
    op.source (args.map (Value.rename ρ)) = Except.rename ρ (Source.rename ρ) (op.source args) := by
  have hint (b : Builtin) (v : Value) := Argument.int_rename b v (ρ := ρ)
  cases op with
  | ofList =>
    match args with
    | [l] => exact Except.rename_bind (Argument.list_rename _ l) fun items => congrArg Except.ok (by simp)
    | [] | _ :: _ :: _ => rfl
  | range =>
    match args with
    | start :: stop :: more =>
      refine Except.rename_bind (hint _ start) fun start => Except.rename_bind (hint _ stop) fun stop => ?_
      have hrange (step : Int64) :
          (if step == 0 then .error .zeroStep else .ok (.range start stop step)) =
            Except.rename ρ (Source.rename ρ)
              (if step == 0 then .error .zeroStep else .ok (.range start stop step)) := by
        split <;> rfl
      match more with
      | [] => exact hrange 1
      | [step] => cases step with
        | void => exact hrange 1
        | _ => exact Except.rename_bind (hint _ _) fun n => hrange n
      | step :: _ :: _ =>
        cases step with
        | void => exact Except.rename_bind (hint _ .void) fun n => hrange n
        | _ => exact Except.rename_bind (hint _ _) fun n => hrange n
    | [] | [_] => rfl
  | generate =>
    match args with
    | [count, generator] => exact Except.rename_bind (hint _ count) fun n => rfl
    | [] | [_] | _ :: _ :: _ :: _ => rfl
  | infinite =>
    match args with
    | [generator] => rfl
    | [] | _ :: _ :: _ => rfl
  | empty => cases args <;> rfl

theorem Pipeline.withStage_rename (p : Pipeline) (stage : Stage) :
    (p.withStage stage).rename ρ = (p.rename ρ).withStage (stage.rename ρ) := by
  rw [withStage, withStage, rename_mk, source_rename, stages_rename, List.map_append,
    List.map_singleton]

theorem setField_rename (name : String) (v : Value) (fields : List (String × Value)) :
    setField name (v.rename ρ) (fields.map (Value.renameEntry ρ)) =
      (setField name v fields).map (Value.renameEntry ρ) := by
  induction fields with
  | nil => rfl
  | cons entry rest ih =>
    rw [List.map_cons, setField, setField, Value.renameEntry_fst]
    split
    · rfl
    · rw [ih, List.map_cons]

theorem Run.variantPayload_rename (args : List Value) :
    variantPayload (args.map (Value.rename ρ)) = (variantPayload args).map (Value.rename ρ) := by
  match args with
  | [] | [_] => rfl
  | v :: w :: rest =>
    have htuple := Value.rename_tuple (ρ := ρ) (v :: w :: rest)
    exact congrArg some htuple.symm

end StreamLang
