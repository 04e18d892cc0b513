import Mathlib.Data.String.Basic
import StreamLang.Interpreter
import StreamLang.Proofs.Equality.Alike

/-! Values and documents. A document whose whole numbers fit in 64 bits becomes a value that becomes
the same document again, and a value made of what documents are made of becomes a document that
becomes the same value again: neither way does anything get lost, moved or another type. -/

namespace StreamLang

/-- What is undone item by item is undone on the whole list. -/
theorem map_map_eq_self {α β : Type} {f : α → β} {g : β → α} {xs : List α}
    (h : ∀ x ∈ xs, g (f x) = x) : (xs.map f).map g = xs := by
  rw [List.map_map]
  exact (List.map_congr_left h).trans (List.map_id xs)

namespace Keyed

variable {α β : Type}

/-- Keys stand in ascending order, and none stands twice. -/
def Ascending (m : List (String × α)) : Prop := m.Pairwise fun a b => a.1 < b.1

instance (m : List (String × α)) : Decidable (Ascending m) :=
  inferInstanceAs (Decidable (m.Pairwise fun a b => a.1 < b.1))

theorem insert_last {key : String} {m : List (String × α)} (h : ∀ e ∈ m, e.1 < key) (value : α) :
    insert key value m = m ++ [(key, value)] := by
  induction m with
  | nil => rfl
  | cons e rest ih =>
    obtain ⟨he, hrest⟩ := List.forall_mem_cons.1 h
    have hne : key ≠ e.1 := by
      rintro rfl
      exact String.lt_irrefl _ he
    rw [insert, if_neg (String.lt_asymm he), if_neg hne, ih hrest, List.cons_append]

theorem foldl_insert_of_ascending {m entries : List (String × α)} (h : Ascending (m ++ entries)) :
    entries.foldl (fun m e => insert e.1 e.2 m) m = m ++ entries := by
  induction entries generalizing m with
  | nil => exact (List.append_nil m).symm
  | cons e rest ih =>
    have hbehind : ∀ other ∈ m, other.1 < e.1 :=
      fun other ho => (List.pairwise_append.1 h).2.2 other ho e (.head _)
    rw [List.foldl_cons, insert_last hbehind, ih (by simpa using h)]
    simp

theorem ofList_of_ascending {entries : List (String × α)} (h : Ascending entries) :
    ofList entries = entries :=
  foldl_insert_of_ascending (m := []) h

theorem mem_of_mem_insert {key : String} {value : α} {m : List (String × α)} {e : String × α}
    (h : e ∈ insert key value m) : e = (key, value) ∨ e ∈ m := by
  induction m with
  | nil => exact .inl (List.mem_singleton.1 h)
  | cons first rest ih =>
    unfold insert at h
    split at h
    · exact List.mem_cons.1 h
    · split at h
      · exact (List.mem_cons.1 h).imp_right (.tail _)
      · rcases List.mem_cons.1 h with rfl | h
        · exact .inr (.head _)
        · exact (ih h).imp_right (.tail _)

theorem Ascending.insert {m : List (String × α)} (h : Ascending m) (key : String) (value : α) :
    Ascending (insert key value m) := by
  induction m with
  | nil => exact List.pairwise_singleton _ _
  | cons first rest ih =>
    obtain ⟨hfirst, hrest⟩ := List.pairwise_cons.1 h
    unfold Keyed.insert
    split
    · rename_i hlt
      refine List.pairwise_cons.2 ⟨fun e he => ?_, h⟩
      rcases List.mem_cons.1 he with rfl | he
      · exact hlt
      · exact String.lt_trans hlt (hfirst e he)
    · rename_i hnot
      split
      · rename_i heq
        exact List.pairwise_cons.2 ⟨fun e he => heq ▸ hfirst e he, hrest⟩
      · rename_i hne
        refine List.pairwise_cons.2 ⟨fun e he => ?_, ih hrest⟩
        rcases mem_of_mem_insert he with rfl | he
        · exact lt_of_le_of_ne (not_lt.1 hnot) (Ne.symm hne)
        · exact hfirst e he

theorem foldl_insert_ascending {m : List (String × α)} (h : Ascending m)
    (entries : List (String × α)) :
    Ascending (entries.foldl (fun m e => Keyed.insert e.1 e.2 m) m) := by
  induction entries generalizing m with
  | nil => exact h
  | cons e rest ih => exact ih (h.insert e.1 e.2)

theorem ofList_ascending (entries : List (String × α)) : Ascending (ofList entries) :=
  foldl_insert_ascending List.Pairwise.nil entries

theorem mem_of_mem_foldl_insert {m entries : List (String × α)} {e : String × α}
    (h : e ∈ entries.foldl (fun m e => Keyed.insert e.1 e.2 m) m) : e ∈ m ∨ e ∈ entries := by
  induction entries generalizing m with
  | nil => exact .inl h
  | cons first rest ih =>
    rcases ih h with h | h
    · rcases mem_of_mem_insert h with rfl | h
      · exact .inr (.head _)
      · exact .inl h
    · exact .inr (.tail _ h)

theorem mem_of_mem_ofList {entries : List (String × α)} {e : String × α} (h : e ∈ ofList entries) :
    e ∈ entries :=
  (mem_of_mem_foldl_insert h).resolve_left List.not_mem_nil

theorem ascending_map {m : List (String × α)} {f : String × α → β} :
    Ascending (m.map fun e => (e.1, f e)) ↔ Ascending m :=
  List.pairwise_map

end Keyed

/-- What a library of documents promises: which numbers there are, that a number keeps what it was
made of and is known by it, and that an object keeps its members, in ascending order of the key. -/
structure Json.Library.Lawful (L : Library) : Prop where
  /-- What is not finite has no number, and all else has one. -/
  ofFloat_isSome : ∀ x, (L.ofFloat? x).isSome = x.isFinite
  asInt_ofInt : ∀ k, L.asInt? (L.ofInt k) = some k
  asInt_ofFloat : ∀ {x n}, L.ofFloat? x = some n → L.asInt? n = none
  asFloat_ofFloat : ∀ {x n}, L.ofFloat? x = some n → L.asFloat? n = some x
  /-- Two numbers are equal when they are the same integer of 64 bits. -/
  ofInt_asInt : ∀ {n k}, L.asInt? n = some k → L.ofInt k = n
  /-- A number is an integer, or else it is made of a floating-point number. -/
  not_isInteger_iff : ∀ {n}, L.isInteger n = false ↔ ∃ x, L.ofFloat? x = some n
  collect_ascending : ∀ members, Keyed.Ascending (L.collect members)
  collect_of_ascending : ∀ {members}, Keyed.Ascending members → L.collect members = members
  mem_of_mem_collect : ∀ {members m}, m ∈ L.collect members → m ∈ members

theorem Json.library_lawful : Json.library.Lawful where
  ofFloat_isSome x := by
    change (Number.ofFloat? x).isSome = x.isFinite
    unfold Number.ofFloat?
    split
    · rename_i h
      exact h.symm
    · rename_i h
      exact (Bool.eq_false_iff.2 h).symm
  asInt_ofInt k := by
    have hfits : Int64.minValue.toInt ≤ k.toInt ∧ k.toInt ≤ Int64.maxValue.toInt := by
      rw [Int64.toInt_minValue, Int64.toInt_maxValue]
      have hlow := k.le_toInt
      have hhigh := k.toInt_lt
      omega
    exact (if_pos hfits).trans (congrArg some k.ofInt_toInt)
  asInt_ofFloat := by
    intro x n h
    obtain ⟨_, heq⟩ := Option.dite_none_right_eq_some.1 h
    cases heq
    rfl
  asFloat_ofFloat := by
    intro x n h
    obtain ⟨_, heq⟩ := Option.dite_none_right_eq_some.1 h
    cases heq
    rfl
  ofInt_asInt := by
    intro n k h
    cases n with
    | int n => exact congrArg Number.int (Whole.toInt_of_ofInt? h)
    | float => cases h
  not_isInteger_iff := by
    intro n
    cases n with
    | int n =>
      refine iff_of_false (Ne.symm Bool.false_ne_true) ?_
      rintro ⟨x, hx⟩
      obtain ⟨_, heq⟩ := Option.dite_none_right_eq_some.1 hx
      cases heq
    | float x hfinite => exact iff_of_true rfl ⟨x, dif_pos hfinite⟩
  collect_ascending := Keyed.ofList_ascending
  collect_of_ascending := Keyed.ofList_of_ascending
  mem_of_mem_collect := Keyed.mem_of_mem_ofList

section

variable (L : Json.Library)

/-- A document whose integers fit in 64 bits. Like every document it has its members in the order in
which the library gives them back. -/
inductive Json.Proper : Json L.Number → Prop
  | null : Proper null
  | bool (b : Bool) : Proper (bool b)
  | number {n : L.Number} (h : L.isInteger n = true → (L.asInt? n).isSome = true) :
      Proper (number n)
  | text (s : String) : Proper (text s)
  | array {items : List (Json L.Number)} (h : ∀ item ∈ items, Proper item) : Proper (array items)
  | object {members : List (String × Json L.Number)} (hmembers : L.collect members = members)
      (h : ∀ m ∈ members, Proper m.2) : Proper (object members)

end

/-- The value is built, to any depth, from what documents hold. Its maps have their entries in
order, as all maps have. -/
inductive Value.Documentary : Value → Prop
  | void : Documentary void
  | bool (b : Bool) : Documentary (bool b)
  | int (n : Int64) : Documentary (int n)
  | float {x : Binary64} (h : x.isFinite = true) : Documentary (float x)
  | text (s : String) : Documentary (text s)
  | list {items : List Value} (h : ∀ v ∈ items, Documentary v) : Documentary (list items)
  | map {entries : List (String × Value)} (hkeys : Keyed.Ascending entries)
      (h : ∀ e ∈ entries, Documentary e.2) : Documentary (map entries)

namespace Value

variable {L : Json.Library}

theorem writeAll_eq_map (vs : List Value) : writeAll L vs = vs.map (write L) := by
  induction vs with
  | nil => rfl
  | cons v vs ih => exact congrArg (write L v :: ·) ih

theorem writeEntries_eq_map (entries : List (String × Value)) :
    writeEntries L entries = entries.map fun e => (e.1, write L e.2) := by
  induction entries with
  | nil => rfl
  | cons e entries ih =>
    obtain ⟨key, v⟩ := e
    exact congrArg ((key, write L v) :: ·) ih

theorem readAll_eq_map (items : List (Json L.Number)) : readAll L items = items.map (read L) := by
  induction items with
  | nil => rfl
  | cons item items ih => exact congrArg (read L item :: ·) ih

theorem readMembers_eq_map (members : List (String × Json L.Number)) :
    readMembers L members = members.map fun m => (m.1, read L m.2) := by
  induction members with
  | nil => rfl
  | cons m members ih =>
    obtain ⟨key, j⟩ := m
    exact congrArg ((key, read L j) :: ·) ih

theorem writeFloat_of_some {x : Binary64} {n : L.Number} (h : L.ofFloat? x = some n) :
    writeFloat L x = .number n := by
  rw [writeFloat, h]

theorem read_of_asInt {n : L.Number} {k : Int64} (h : L.asInt? n = some k) :
    read L (.number n) = int k := by
  rw [read, h]

theorem read_of_float (hL : L.Lawful) {x : Binary64} {n : L.Number} (h : L.ofFloat? x = some n) :
    read L (.number n) = float x := by
  rw [read, hL.asInt_ofFloat h, hL.asFloat_ofFloat h]
  rfl

theorem isFinite_of_some (hL : L.Lawful) {x : Binary64} {n : L.Number} (h : L.ofFloat? x = some n) :
    x.isFinite = true := by
  rw [← hL.ofFloat_isSome x, h]
  rfl

/-! From a document to a value and back -/

theorem read_number (hL : L.Lawful) {n : L.Number}
    (h : L.isInteger n = true → (L.asInt? n).isSome = true) :
    (∃ k, L.asInt? n = some k) ∨ ∃ x, L.ofFloat? x = some n := by
  cases hinteger : L.isInteger n with
  | true => exact .inl (Option.isSome_iff_exists.1 (h hinteger))
  | false => exact .inr (hL.not_isInteger_iff.1 hinteger)

theorem read_documentary (hL : L.Lawful) {j : Json L.Number} (h : j.Proper L) :
    (read L j).Documentary := by
  induction h with
  | null => exact .void
  | bool b => exact .bool b
  | number h =>
    obtain ⟨k, hk⟩ | ⟨x, hx⟩ := read_number hL h
    · rw [read_of_asInt hk]
      exact .int k
    · rw [read_of_float hL hx]
      exact .float (isFinite_of_some hL hx)
  | text s => exact .text s
  | array h ih =>
    rw [read, readAll_eq_map]
    exact .list (List.forall_mem_map.2 ih)
  | @object members hmembers h ih =>
    have hentries : ∀ e ∈ members.map (fun m => (m.1, read L m.2)), e.2.Documentary :=
      List.forall_mem_map.2 ih
    rw [read, readMembers_eq_map]
    exact .map (Keyed.ofList_ascending _) fun e he => hentries e (Keyed.mem_of_mem_ofList he)

theorem write_read (hL : L.Lawful) {j : Json L.Number} (h : j.Proper L) : (read L j).write L = j := by
  induction h with
  | null => rfl
  | bool b => rfl
  | number h =>
    obtain ⟨k, hk⟩ | ⟨x, hx⟩ := read_number hL h
    · rw [read_of_asInt hk, write, hL.ofInt_asInt hk]
    · rw [read_of_float hL hx, write, writeFloat_of_some hx]
  | text s => rfl
  | @array items h ih => rw [read, readAll_eq_map, write, writeAll_eq_map, map_map_eq_self ih]
  | @object members hmembers h ih =>
    have hkeys : Keyed.Ascending members := hmembers ▸ hL.collect_ascending members
    have hback : (members.map fun m => (m.1, read L m.2)).map (fun e => (e.1, write L e.2)) =
        members :=
      map_map_eq_self fun m hm => Prod.ext rfl (ih m hm)
    rw [read, readMembers_eq_map, Keyed.ofList_of_ascending (Keyed.ascending_map.2 hkeys), write,
      writeEntries_eq_map, hback, hmembers]

/-! From a value to a document and back -/

theorem exists_number (hL : L.Lawful) {x : Binary64} (h : x.isFinite = true) :
    ∃ n, L.ofFloat? x = some n :=
  Option.isSome_iff_exists.1 ((hL.ofFloat_isSome x).trans h)

theorem read_write (hL : L.Lawful) {v : Value} (h : v.Documentary) : read L (v.write L) = v := by
  induction h with
  | void => rfl
  | bool b => rfl
  | int k => exact read_of_asInt (hL.asInt_ofInt k)
  | float h =>
    obtain ⟨n, hn⟩ := exists_number hL h
    rw [write, writeFloat_of_some hn, read_of_float hL hn]
  | text s => rfl
  | @list items h ih => rw [write, writeAll_eq_map, read, readAll_eq_map, map_map_eq_self ih]
  | @map entries hkeys h ih =>
    have hback : (entries.map fun e => (e.1, write L e.2)).map (fun m => (m.1, read L m.2)) =
        entries :=
      map_map_eq_self fun e he => Prod.ext rfl (ih e he)
    rw [write, writeEntries_eq_map, hL.collect_of_ascending (Keyed.ascending_map.2 hkeys), read,
      readMembers_eq_map, hback, Keyed.ofList_of_ascending hkeys]

theorem collect_proper (hL : L.Lawful) {members : List (String × Json L.Number)}
    (h : ∀ m ∈ members, m.2.Proper L) : (Json.object (L.collect members)).Proper L :=
  .object (hL.collect_of_ascending (hL.collect_ascending members))
    fun m hm => h m (hL.mem_of_mem_collect hm)

theorem writeEntries_proper (hL : L.Lawful) {entries : List (String × Value)}
    (h : ∀ e ∈ entries, (e.2.write L).Proper L) :
    (Json.object (L.collect (writeEntries L entries))).Proper L := by
  rw [writeEntries_eq_map]
  exact collect_proper hL (List.forall_mem_map.2 h)

theorem writeAll_proper {vs : List Value} (h : ∀ v ∈ vs, (v.write L).Proper L) :
    (Json.array (writeAll L vs)).Proper L := by
  rw [writeAll_eq_map]
  exact .array (List.forall_mem_map.2 h)

theorem writeOption_proper {inner : Option Value} (h : ∀ v ∈ inner.toList, (v.write L).Proper L) :
    (writeOption L inner).Proper L := by
  cases inner with
  | none => exact .null
  | some v => exact h v (.head _)

theorem ofInt_proper (hL : L.Lawful) (k : Int64) : (Json.number (L.ofInt k)).Proper L :=
  .number fun _ => by rw [hL.asInt_ofInt]; rfl

theorem writeFloat_proper (hL : L.Lawful) (x : Binary64) : (writeFloat L x).Proper L := by
  rw [writeFloat]
  split
  · rename_i n hn
    have hnot := hL.not_isInteger_iff.2 ⟨x, hn⟩
    exact .number fun h => by rw [hnot] at h; cases h
  · exact .null

theorem Documentary.write_proper (hL : L.Lawful) {v : Value} (h : v.Documentary) :
    (v.write L).Proper L := by
  induction h with
  | void => exact .null
  | bool b => exact .bool b
  | int k => exact ofInt_proper hL k
  | float h => exact writeFloat_proper hL _
  | text s => exact .text s
  | list h ih => exact writeAll_proper ih
  | map hkeys h ih => exact writeEntries_proper hL ih

/-! Data that no document holds, such as a set or a record -/

theorem isPlain_of_allPlain {vs : List Value} (h : allPlain vs = true) :
    ∀ v ∈ vs, v.isPlain = true := by
  induction vs with
  | nil => exact List.forall_mem_nil _
  | cons v vs ih =>
    obtain ⟨hv, hvs⟩ := Bool.and_eq_true_iff.1 h
    exact List.forall_mem_cons.2 ⟨hv, ih hvs⟩

theorem isPlain_of_allEntriesPlain {entries : List (String × Value)}
    (h : allEntriesPlain entries = true) : ∀ e ∈ entries, e.2.isPlain = true := by
  induction entries with
  | nil => exact List.forall_mem_nil _
  | cons e entries ih =>
    obtain ⟨_, v⟩ := e
    obtain ⟨hv, hentries⟩ := Bool.and_eq_true_iff.1 h
    exact List.forall_mem_cons.2 ⟨hv, ih hentries⟩

theorem isPlain_of_optionPlain {inner : Option Value} (h : optionPlain inner = true) :
    ∀ v ∈ inner.toList, v.isPlain = true := by
  cases inner with
  | none => exact List.forall_mem_nil _
  | some v => exact List.forall_mem_singleton.2 h

theorem write_proper (hL : L.Lawful) (v : Value) (h : v.isPlain = true) : (v.write L).Proper L := by
  induction v using inductionOn with
  | h v ih =>
    cases v with
    | int k => exact ofInt_proper hL k
    | float x => exact writeFloat_proper hL x
    | text s => exact .text s
    | bool b => exact .bool b
    | void => exact .null
    | list items => exact writeAll_proper fun v hv => ih v hv (isPlain_of_allPlain h v hv)
    | set items => exact writeAll_proper fun v hv => ih v hv (isPlain_of_allPlain h v hv)
    | tuple items => exact writeAll_proper fun v hv => ih v hv (isPlain_of_allPlain h v hv)
    | map entries =>
      exact writeEntries_proper hL fun e he =>
        ih e.2 (List.mem_map_of_mem he) (isPlain_of_allEntriesPlain h e he)
    | record name fields =>
      exact writeEntries_proper hL fun e he =>
        ih e.2 (List.mem_map_of_mem he) (isPlain_of_allEntriesPlain h e he)
    | enum e variant payload =>
      have hpayload : (writeOption L payload).Proper L :=
        writeOption_proper fun v hv => ih v hv (isPlain_of_optionPlain h v hv)
      exact collect_proper hL (by simp [hpayload, Json.Proper.text])
    | option inner =>
      exact writeOption_proper fun v hv => ih v hv (isPlain_of_optionPlain h v hv)
    | ok inner => exact collect_proper hL (List.forall_mem_singleton.2 (ih _ (.head _) h))
    | err error => exact collect_proper hL (List.forall_mem_singleton.2 (ih _ (.head _) h))
    | future _ => cases h
    | stream _ _ => cases h
    | function _ _ => cases h
    | model _ => cases h
    | prediction _ => cases h

end Value

/-- What passes the gateway is kept whole, with any library of documents that keeps its promises. A
document whose integers fit in 64 bits becomes a value that becomes the same document, and a value
made of what documents are made of becomes such a document, and that one the same value. Of all other
data the document is settled after one passage: read back, it is written as it was. The answer of a
service keeps its document too. -/
theorem documents_round_trip {L : Json.Library} (hL : L.Lawful) :
    (∀ j : Json L.Number, j.Proper L → (Value.read L j).Documentary ∧ (Value.read L j).write L = j) ∧
    (∀ v : Value, v.Documentary → (v.write L).Proper L ∧ Value.read L (v.write L) = v) ∧
    (∀ v : Value, v.isPlain = true → (Value.read L (v.write L)).write L = v.write L) ∧
    ∀ (op : ServiceOp) (j : Json), Json.Proper Json.library j →
      ∃ v, Run.replyValue op (.ok j) = .ok v ∧ v.toJson = j := by
  refine ⟨fun j hj => ⟨Value.read_documentary hL hj, Value.write_read hL hj⟩,
    fun v hv => ⟨hv.write_proper hL, Value.read_write hL hv⟩,
    fun v hv => Value.write_read hL (v.write_proper hL hv), fun op j hj => ?_⟩
  cases op with
  | trainModel => exact ⟨_, rfl, rfl⟩
  | predict => exact ⟨_, rfl, rfl⟩
  | _ => exact ⟨_, rfl, Value.write_read Json.library_lawful hj⟩

/-- The least whole number, a negative zero and a one that is no whole number, and what is empty. -/
def edgeDocument : Json :=
  .object [("a", .array [.int Int64.minValue.toInt, .number (.float ⟨0x3ff0000000000000⟩ (by decide)),
      .int 1]),
    ("b", .object [("", .array []), ("z", .object [])]),
    ("c", .number (.float Binary64.zero.neg (by decide)))]

theorem edgeDocument_proper : edgeDocument.Proper Json.library := by
  have hnumbers : Json.Proper Json.library (.array [.int Int64.minValue.toInt,
      .number (.float ⟨0x3ff0000000000000⟩ (by decide)), .int 1]) := by
    refine .array ?_
    simp only [List.forall_mem_cons]
    exact ⟨.number (by decide), .number (by decide), .number (by decide), List.forall_mem_nil _⟩
  have hempty : Json.Proper Json.library (.object [("", .array []), ("z", .object [])]) := by
    refine .object rfl ?_
    simp only [List.forall_mem_cons]
    exact ⟨.array (List.forall_mem_nil _), .object rfl (List.forall_mem_nil _),
      List.forall_mem_nil _⟩
  refine .object rfl ?_
  simp only [List.forall_mem_cons]
  exact ⟨hnumbers, hempty, .number (by decide), List.forall_mem_nil _⟩

theorem edgeDocument_round_trips :
    Json.library.Lawful ∧ edgeDocument.Proper Json.library ∧
    (Value.ofJson edgeDocument).Documentary ∧
    (Value.ofJson edgeDocument).toJson = edgeDocument ∧
    Value.ofJson (Value.ofJson edgeDocument).toJson = Value.ofJson edgeDocument ∧
    (Value.set [.list [], .void]).isPlain = true ∧
    (Value.ofJson (Value.set [.list [], .void]).toJson).toJson =
      (Value.set [.list [], .void]).toJson ∧
    ∃ v, Run.replyValue .ask (.ok edgeDocument) = .ok v ∧ v.toJson = edgeDocument := by
  obtain ⟨hdocument, hvalue, hdata, hreply⟩ := documents_round_trip Json.library_lawful
  have hread := hdocument _ edgeDocument_proper
  exact ⟨Json.library_lawful, edgeDocument_proper, hread.1, hread.2, (hvalue _ hread.1).2, rfl,
    hdata _ rfl, hreply .ask _ edgeDocument_proper⟩

end StreamLang
