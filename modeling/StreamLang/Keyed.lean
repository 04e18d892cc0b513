/-!
Finite maps from names, kept as lists in ascending order of the key. Order is by code point.
-/

namespace StreamLang.Keyed

variable {α : Type}

/-- Sets the entry of `key`, in its place in the order. -/
def insert (key : String) (value : α) : List (String × α) → List (String × α)
  | [] => [(key, value)]
  | entry :: rest =>
    if key < entry.1 then (key, value) :: entry :: rest
    else if key = entry.1 then (key, value) :: rest
    else entry :: insert key value rest

def erase (key : String) (m : List (String × α)) : List (String × α) :=
  m.filter fun e => e.1 ≠ key

def get? (key : String) : List (String × α) → Option α
  | [] => none
  | entry :: rest => if entry.1 = key then some entry.2 else get? key rest

def contains (key : String) (entries : List (String × α)) : Bool := (get? key entries).isSome

/-- Of two entries with one key the later stays. -/
def ofList (entries : List (String × α)) : List (String × α) :=
  entries.foldl (fun m e => insert e.1 e.2 m) []

theorem mem_of_get? {key : String} {m : List (String × α)} {a : α} (h : get? key m = some a) :
    (key, a) ∈ m := by
  induction m with
  | nil => cases h
  | cons entry rest ih =>
    rw [get?] at h
    split at h
    · rename_i heq
      cases h
      rw [← heq]
      exact List.mem_cons_self
    · exact List.mem_cons_of_mem _ (ih h)

theorem get?_insert_self (key : String) (value : α) (m : List (String × α)) :
    get? key (insert key value m) = some value := by
  induction m with
  | nil => simp [insert, get?]
  | cons e rest ih =>
    unfold insert
    split
    · simp [get?]
    · split
      · simp [get?]
      · rename_i h
        simp [get?, Ne.symm h, ih]

theorem get?_insert_of_ne {key other : String} (h : other ≠ key) (value : α)
    (m : List (String × α)) : get? other (insert key value m) = get? other m := by
  induction m with
  | nil => simp [insert, get?, h.symm]
  | cons e rest ih =>
    unfold insert
    split
    · simp [get?, h.symm]
    · split
      · rename_i hk
        simp [get?, h.symm, ← hk]
      · simp only [get?, ih]

theorem isSome_get?_insert {key other : String} (value : α) {m : List (String × α)}
    (h : (get? other m).isSome ∨ other = key) : (get? other (insert key value m)).isSome := by
  by_cases heq : other = key
  · rw [heq, get?_insert_self]
    rfl
  · rw [get?_insert_of_ne heq]
    exact h.resolve_right heq

section

variable {ι : Type} (keyOf : ι → String) (valueOf : ι → α) {entries : List ι}

/-- All entries of a key are alike, so that it does not matter which one is the last. -/
theorem get?_foldl_insert {e : ι} (he : e ∈ entries)
    (h : ∀ other ∈ entries, keyOf other = keyOf e → valueOf other = valueOf e)
    (m : List (String × α)) :
    get? (keyOf e) (entries.foldl (fun m e => insert (keyOf e) (valueOf e) m) m) =
      some (valueOf e) := by
  have hstay (entries : List ι)
      (h : ∀ other ∈ entries, keyOf other = keyOf e → valueOf other = valueOf e)
      {m : List (String × α)} (hm : get? (keyOf e) m = some (valueOf e)) :
      get? (keyOf e) (entries.foldl (fun m e => insert (keyOf e) (valueOf e) m) m) =
        some (valueOf e) := by
    induction entries generalizing m with
    | nil => exact hm
    | cons first rest ih =>
      refine ih (fun other hother => h other (List.mem_cons_of_mem _ hother)) ?_
      dsimp only
      by_cases heq : keyOf first = keyOf e
      · rw [heq, h first List.mem_cons_self heq, get?_insert_self]
      · rw [get?_insert_of_ne (Ne.symm heq), hm]
  induction entries generalizing m with
  | nil => cases he
  | cons first rest ih =>
    have hrest : ∀ other ∈ rest, keyOf other = keyOf e → valueOf other = valueOf e :=
      fun other hother => h other (List.mem_cons_of_mem _ hother)
    rcases List.mem_cons.1 he with rfl | he
    · exact hstay rest hrest (get?_insert_self _ _ _)
    · exact ih he hrest _

theorem isSome_get?_foldl_insert {key : String} {m : List (String × α)}
    (h : (get? key m).isSome ∨ key ∈ entries.map keyOf) :
    (get? key (entries.foldl (fun m e => insert (keyOf e) (valueOf e) m) m)).isSome := by
  induction entries generalizing m with
  | nil => exact h.resolve_right List.not_mem_nil
  | cons first rest ih =>
    refine ih ?_
    rw [List.map_cons, List.mem_cons] at h
    rcases h with h | h | h
    · exact .inl (isSome_get?_insert _ (.inl h))
    · exact .inl (isSome_get?_insert _ (.inr h))
    · exact .inr h

theorem mem_of_get?_foldl_insert {key : String} {a : α} {m : List (String × α)}
    (h : get? key (entries.foldl (fun m e => insert (keyOf e) (valueOf e) m) m) = some a) :
    (∃ e ∈ entries, keyOf e = key ∧ valueOf e = a) ∨ get? key m = some a := by
  induction entries generalizing m with
  | nil => exact .inr h
  | cons first rest ih =>
    rcases ih h with ⟨e, he, hfound⟩ | h
    · exact .inl ⟨e, List.mem_cons_of_mem _ he, hfound⟩
    · by_cases heq : key = keyOf first
      · subst heq
        rw [get?_insert_self] at h
        exact .inl ⟨first, List.mem_cons_self, rfl, Option.some.inj h⟩
      · rw [get?_insert_of_ne heq] at h
        exact .inr h

theorem get?_foldl_insert_of_not_mem {key : String} (h : key ∉ entries.map keyOf)
    (m : List (String × α)) :
    get? key (entries.foldl (fun m e => insert (keyOf e) (valueOf e) m) m) = get? key m := by
  induction entries generalizing m with
  | nil => rfl
  | cons first rest ih =>
    rw [List.map_cons, List.mem_cons, not_or] at h
    rw [List.foldl_cons, ih h.2, get?_insert_of_ne h.1]

end

theorem get?_erase_self (key : String) (m : List (String × α)) :
    get? key (erase key m) = none := by
  induction m with
  | nil => rfl
  | cons e rest ih =>
    by_cases h : e.1 = key
    · simpa [erase, h] using ih
    · simpa [erase, get?, h] using ih

theorem get?_erase_of_ne {key other : String} (h : other ≠ key) (m : List (String × α)) :
    get? other (erase key m) = get? other m := by
  induction m with
  | nil => rfl
  | cons e rest ih =>
    by_cases hk : e.1 = key
    · simpa [erase, get?, hk, h.symm] using ih
    · have step : erase key (e :: rest) = e :: erase key rest := by simp [erase, hk]
      simp only [step, get?, ih]

end StreamLang.Keyed
