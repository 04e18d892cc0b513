import StreamLang.Interpreter
import StreamLang.Proofs.Equality.Alike

/-! The key of a remembered call tells the call. Just the values that are made of data alone have a
code, and a value can be read back from its code, whatever follows, so that two values with one code
are the same value: to the last bit of a number, and in the order of everything inside. -/

namespace StreamLang

namespace Value

/-! Which values have a code -/

theorem isSome_codes? {vs : List Value} (h : ∀ v ∈ vs, v.code?.isSome = v.isPlain) :
    (codes? vs).isSome = allPlain vs := by
  induction vs with
  | nil => rfl
  | cons v vs ih =>
    obtain ⟨hv, hvs⟩ := List.forall_mem_cons.1 h
    rw [allPlain, ← hv, ← ih hvs, codes?]
    cases v.code? <;> cases codes? vs <;> rfl

theorem isSome_entryCodes? {entries : List (String × Value)}
    (h : ∀ e ∈ entries, e.2.code?.isSome = e.2.isPlain) :
    (entryCodes? entries).isSome = allEntriesPlain entries := by
  induction entries with
  | nil => rfl
  | cons e entries ih =>
    obtain ⟨key, v⟩ := e
    obtain ⟨hv, hentries⟩ := List.forall_mem_cons.1 h
    rw [allEntriesPlain, ← hv, ← ih hentries, entryCodes?]
    cases v.code? <;> cases entryCodes? entries <;> rfl

/-- A mark in front does not matter. -/
theorem isSome_marked (mark : CodeMark) (inner : Option (List CodeMark)) :
    (do return mark :: (← inner) : Option (List CodeMark)).isSome = inner.isSome := by
  cases inner <;> rfl

theorem isSome_code? (v : Value) : v.code?.isSome = v.isPlain := by
  induction v using inductionOn with
  | h v ih =>
    cases v with
    | list items => exact (isSome_marked _ _).trans (isSome_codes? ih)
    | set items => exact (isSome_marked _ _).trans (isSome_codes? ih)
    | tuple items => exact (isSome_marked _ _).trans (isSome_codes? ih)
    | map entries =>
      exact (isSome_marked _ _).trans (isSome_entryCodes? (List.forall_mem_map.1 ih))
    | record name fields =>
      exact (isSome_marked _ _).trans (isSome_entryCodes? (List.forall_mem_map.1 ih))
    | enum e variant payload =>
      cases payload with
      | none => rfl
      | some payload => exact (isSome_marked _ _).trans (ih _ (.head _))
    | option inner =>
      cases inner with
      | none => rfl
      | some inner => exact (isSome_marked _ _).trans (ih _ (.head _))
    | ok inner => exact (isSome_marked _ _).trans (ih _ (.head _))
    | err error => exact (isSome_marked _ _).trans (ih _ (.head _))
    | _ => rfl

/-! Reading a code -/

/-- Reads as many values as are announced. -/
def readItems (read : List CodeMark → Option (Value × List CodeMark)) :
    Nat → List CodeMark → Option (List Value × List CodeMark)
  | 0, code => some ([], code)
  | n + 1, code => do
    let (v, code) ← read code
    let (vs, code) ← readItems read n code
    return (v :: vs, code)

/-- Reads as many values as are announced, each behind its key. -/
def readEntries (read : List CodeMark → Option (Value × List CodeMark)) :
    Nat → List CodeMark → Option (List (String × Value) × List CodeMark)
  | 0, code => some ([], code)
  | n + 1, .key key :: code => do
    let (v, code) ← read code
    let (entries, code) ← readEntries read n code
    return ((key, v) :: entries, code)
  | _ + 1, _ => none

/-- The value that a code begins with, and what follows. The bound is on the depth of the value. -/
def readCode : Nat → List CodeMark → Option (Value × List CodeMark)
  | 0, _ => none
  | _ + 1, [] => none
  | bound + 1, mark :: code =>
    let read := readCode bound
    match mark with
    | .int n => some (int n, code)
    | .float bits => some (float ⟨bits⟩, code)
    | .text s => some (text s, code)
    | .bool b => some (bool b, code)
    | .void => some (void, code)
    | .list size => (readItems read size code).map fun r => (list r.1, r.2)
    | .set size => (readItems read size code).map fun r => (set r.1, r.2)
    | .tuple size => (readItems read size code).map fun r => (tuple r.1, r.2)
    | .map size => (readEntries read size code).map fun r => (map r.1, r.2)
    | .record name size => (readEntries read size code).map fun r => (record name r.1, r.2)
    | .key _ => none
    | .enum e variant false => some (enum e variant none, code)
    | .enum e variant true => (read code).map fun r => (enum e variant (some r.1), r.2)
    | .some => (read code).map fun r => (option (some r.1), r.2)
    | .none => some (option none, code)
    | .ok => (read code).map fun r => (ok r.1, r.2)
    | .err => (read code).map fun r => (err r.1, r.2)

/-- The value can be read from its code, whatever follows. -/
def ReadsBack (v : Value) : Prop :=
  ∀ {code : List CodeMark}, v.code? = some code → ∀ {bound : Nat}, code.length < bound →
    ∀ rest, readCode bound (code ++ rest) = some (v, rest)

theorem readItems_codes {vs : List Value} (h : ∀ v ∈ vs, v.ReadsBack) {code : List CodeMark}
    (hcode : codes? vs = some code) {bound : Nat} (hbound : code.length < bound)
    (rest : List CodeMark) :
    readItems (readCode bound) vs.length (code ++ rest) = some (vs, rest) := by
  induction vs generalizing code with
  | nil =>
    cases hcode
    rfl
  | cons v vs ih =>
    simp only [codes?, Option.bind_eq_bind, Option.bind_eq_some_iff, Option.pure_def,
      Option.some.injEq] at hcode
    obtain ⟨first, hfirst, more, hmore, rfl⟩ := hcode
    rw [List.length_append] at hbound
    have hfits : first.length < bound := by omega
    have hv := h v (.head _) hfirst hfits (more ++ rest)
    have hvs := ih (fun u hu => h u (.tail _ hu)) hmore (by omega)
    rw [List.append_assoc, List.length_cons, readItems, hv]
    simp [hvs]

theorem readEntries_codes {entries : List (String × Value)} (h : ∀ e ∈ entries, e.2.ReadsBack)
    {code : List CodeMark} (hcode : entryCodes? entries = some code) {bound : Nat}
    (hbound : code.length < bound) (rest : List CodeMark) :
    readEntries (readCode bound) entries.length (code ++ rest) = some (entries, rest) := by
  induction entries generalizing code with
  | nil =>
    cases hcode
    rfl
  | cons e entries ih =>
    obtain ⟨key, v⟩ := e
    simp only [entryCodes?, Option.bind_eq_bind, Option.bind_eq_some_iff, Option.pure_def,
      Option.some.injEq] at hcode
    obtain ⟨first, hfirst, more, hmore, rfl⟩ := hcode
    rw [List.length_cons, List.length_append] at hbound
    have hfits : first.length < bound := by omega
    have hv := h (key, v) (.head _) hfirst hfits (more ++ rest)
    have hentries := ih (fun u hu => h u (.tail _ hu)) hmore (by omega)
    rw [List.cons_append, List.append_assoc, List.length_cons, readEntries, hv]
    simp [hentries]

/-- The code behind a mark. -/
theorem marked_eq_some {mark : CodeMark} {inner : Option (List CodeMark)} {code : List CodeMark}
    (h : (do return mark :: (← inner) : Option (List CodeMark)) = some code) :
    ∃ behind, inner = some behind ∧ code = mark :: behind := by
  cases inner with
  | none => cases h
  | some behind => exact ⟨behind, rfl, (Option.some.inj h).symm⟩

theorem readsBack (v : Value) : v.ReadsBack := by
  induction v using inductionOn with
  | h v ih =>
    intro code hcode bound hbound rest
    obtain ⟨bound, rfl⟩ := Nat.exists_eq_add_one_of_ne_zero (Nat.ne_zero_of_lt hbound)
    cases v with
    | int n => cases hcode; rfl
    | float x => cases hcode; rfl
    | text s => cases hcode; rfl
    | bool b => cases hcode; rfl
    | void => cases hcode; rfl
    | list items =>
      obtain ⟨behind, hitems, rfl⟩ := marked_eq_some hcode
      exact congrArg (Option.map _) (readItems_codes ih hitems (Nat.lt_of_succ_lt_succ hbound) rest)
    | set items =>
      obtain ⟨behind, hitems, rfl⟩ := marked_eq_some hcode
      exact congrArg (Option.map _) (readItems_codes ih hitems (Nat.lt_of_succ_lt_succ hbound) rest)
    | tuple items =>
      obtain ⟨behind, hitems, rfl⟩ := marked_eq_some hcode
      exact congrArg (Option.map _) (readItems_codes ih hitems (Nat.lt_of_succ_lt_succ hbound) rest)
    | map entries =>
      obtain ⟨behind, hentries, rfl⟩ := marked_eq_some hcode
      exact congrArg (Option.map _) (readEntries_codes (List.forall_mem_map.1 ih) hentries
        (Nat.lt_of_succ_lt_succ hbound) rest)
    | record name fields =>
      obtain ⟨behind, hfields, rfl⟩ := marked_eq_some hcode
      exact congrArg (Option.map _) (readEntries_codes (List.forall_mem_map.1 ih) hfields
        (Nat.lt_of_succ_lt_succ hbound) rest)
    | enum e variant payload =>
      cases payload with
      | none => cases hcode; rfl
      | some payload =>
        obtain ⟨behind, hpayload, rfl⟩ := marked_eq_some hcode
        exact congrArg (Option.map _) (List.forall_mem_singleton.1 ih hpayload
          (Nat.lt_of_succ_lt_succ hbound) rest)
    | option inner =>
      cases inner with
      | none => cases hcode; rfl
      | some inner =>
        obtain ⟨behind, hinner, rfl⟩ := marked_eq_some hcode
        exact congrArg (Option.map _) (List.forall_mem_singleton.1 ih hinner
          (Nat.lt_of_succ_lt_succ hbound) rest)
    | ok inner =>
      obtain ⟨behind, hinner, rfl⟩ := marked_eq_some hcode
      exact congrArg (Option.map _) (List.forall_mem_singleton.1 ih hinner
        (Nat.lt_of_succ_lt_succ hbound) rest)
    | err error =>
      obtain ⟨behind, herror, rfl⟩ := marked_eq_some hcode
      exact congrArg (Option.map _) (List.forall_mem_singleton.1 ih herror
        (Nat.lt_of_succ_lt_succ hbound) rest)
    | _ => cases hcode

/-- Values with one code are the same value. -/
theorem eq_of_code? {v w : Value} {code : List CodeMark} (hv : v.code? = some code)
    (hw : w.code? = some code) : v = w := by
  have hreadv := v.readsBack hv (Nat.lt_succ_self _) []
  rw [w.readsBack hw (Nat.lt_succ_self _) []] at hreadv
  cases hreadv
  rfl

theorem code?_eq_iff {v w : Value} (hv : v.isPlain = true) (hw : w.isPlain = true) :
    v.code? = w.code? ↔ v = w := by
  constructor
  · intro h
    obtain ⟨code, hcode⟩ := Option.isSome_iff_exists.1 (v.isSome_code?.trans hv)
    exact eq_of_code? hcode (h ▸ hcode)
  · rintro rfl
    rfl

theorem eq_of_codes? {vs ws : List Value} {code : List CodeMark} (hlength : vs.length = ws.length)
    (hvs : codes? vs = some code) (hws : codes? ws = some code) : vs = ws := by
  have hreadv := readItems_codes (fun v _ => v.readsBack) hvs (Nat.lt_succ_self _) []
  rw [hlength, readItems_codes (fun w _ => w.readsBack) hws (Nat.lt_succ_self _) []] at hreadv
  cases hreadv
  rfl

end Value

variable {κ : Type}

namespace MemoKey

theorem isSome_ofCall? (f : κ) (vs : List Value) :
    (ofCall? f vs).isSome = Value.allPlain vs := by
  rw [ofCall?, Option.isSome_map, Value.isSome_codes? fun v _ => v.isSome_code?]

/-- Calls with one key are calls of one function with the same arguments. -/
theorem eq_of_ofCall? {f g : κ} {vs ws : List Value} {key : MemoKey κ}
    (hf : ofCall? f vs = some key) (hg : ofCall? g ws = some key) : f = g ∧ vs = ws := by
  obtain ⟨code, hcode, rfl⟩ := Option.map_eq_some_iff.1 hf
  obtain ⟨code', hcode', hkey⟩ := Option.map_eq_some_iff.1 hg
  obtain ⟨rfl, hlength, rfl⟩ := MemoKey.mk.inj hkey
  exact ⟨rfl, Value.eq_of_codes? hlength.symm hcode hcode'⟩

end MemoKey

/-- An entry is found by its own key only. -/
theorem MemoCache.find_insert [DecidableEq κ] [Hashable κ] (m : MemoCache κ) (key other : MemoKey κ)
    (v : Value) :
    ((m.insert key v).find other).1 = if key = other then some v else (m.find other).1 := by
  have hfind : ∀ m : MemoCache κ, (m.find other).1 = m.entries[other]? := by
    intro m
    unfold find
    split
    · rename_i heq
      exact heq.symm
    · rename_i heq
      exact heq.symm
  rw [hfind, hfind, insert, Std.HashMap.getElem?_insert]
  simp only [beq_iff_eq]

/-- Keys are faithful. A value has a code just if it is made of data alone, and two such values have
the same code just if they are the same value, down to the bits of a number. So two calls have the
same key, and one finds what is remembered for the other, just if they are calls of one function
with the same arguments, which then print the same, give the same documents and fit the same
patterns with the same bindings. -/
theorem memo_keys_are_faithful [DecidableEq κ] [Hashable κ] :
    (∀ v : Value, v.code?.isSome = v.isPlain) ∧
    (∀ v w : Value, v.isPlain = true → w.isPlain = true → (v.code? = w.code? ↔ v = w)) ∧
    (∀ (f : κ) (vs : List Value), (MemoKey.ofCall? f vs).isSome = vs.all Value.isPlain) ∧
    ∀ (f g : κ) (vs ws : List Value) (key key' : MemoKey κ),
      MemoKey.ofCall? f vs = some key → MemoKey.ofCall? g ws = some key' →
      (key = key' ↔ f = g ∧ vs = ws) ∧
      (key = key' → vs.map Value.render = ws.map Value.render ∧
        vs.map Value.toJson = ws.map Value.toJson ∧
        ∀ (p : Pattern) (futures : FutureTable),
          vs.map (p.bindings? futures) = ws.map (p.bindings? futures)) ∧
      ∀ (m : MemoCache κ) (v : Value),
        ((m.insert key v).find key').1 = if key = key' then some v else (m.find key').1 := by
  refine ⟨Value.isSome_code?, fun v w => Value.code?_eq_iff, fun f vs => ?_, ?_⟩
  · rw [MemoKey.isSome_ofCall?]
    induction vs with
    | nil => rfl
    | cons v vs ih => rw [Value.allPlain, List.all_cons, ih]
  · intro f g vs ws key key' hf hg
    have hcalls : key = key' → f = g ∧ vs = ws := by
      rintro rfl
      exact MemoKey.eq_of_ofCall? hf hg
    refine ⟨⟨hcalls, ?_⟩, fun hkey => ?_, fun m v => m.find_insert key key' v⟩
    · rintro ⟨rfl, rfl⟩
      exact Option.some.inj (hf.symm.trans hg)
    · obtain ⟨-, rfl⟩ := hcalls hkey
      exact ⟨rfl, rfl, fun _ _ => rfl⟩

/-- A pair of one of the zeros and `Some(())`. -/
def zeroPair (zero : Binary64) : Value := .tuple [.float zero, .option (some .void)]

/-- The pairs with the two zeros are equal in the language, and their keys are not. -/
theorem zeros_have_their_keys :
    (zeroPair .zero).isPlain = true ∧ (zeroPair Binary64.zero.neg).isPlain = true ∧
    (zeroPair .zero).equals (zeroPair Binary64.zero.neg) = true ∧
    (zeroPair .zero).code? ≠ (zeroPair Binary64.zero.neg).code? ∧
    ∃ key key' : MemoKey String,
      MemoKey.ofCall? "f" [zeroPair .zero] = some key ∧
      MemoKey.ofCall? "f" [zeroPair Binary64.zero.neg] = some key' ∧ key ≠ key' := by
  have hne : zeroPair .zero ≠ zeroPair Binary64.zero.neg := by
    intro h
    simp [zeroPair, Binary64.zero, Binary64.neg, Binary64.signBit] at h
  have hfaithful := @memo_keys_are_faithful String _ _
  refine ⟨rfl, rfl, by decide, ?_, _, _, rfl, rfl, ?_⟩
  · exact fun h => hne ((hfaithful.2.1 _ _ rfl rfl).1 h)
  · intro h
    have hcalls := hfaithful.2.2.2 "f" "f" [zeroPair .zero] [zeroPair Binary64.zero.neg] _ _ rfl rfl
    exact hne (List.cons.inj (hcalls.1.1 h).2).1

end StreamLang
