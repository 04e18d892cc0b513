import StreamLang.Proofs.Contents.Scope
import StreamLang.Proofs.Lockstep.Computation

/-! Scopes in lockstep. Matched against the same permitted value, with tables of futures that count as
the same, a pattern binds the names that stand in it, both times to the same permitted values. -/

namespace StreamLang

section

variable {p : Permit}

namespace Env

theorem names_extend (env : Env) (bindings : List (String × Value)) :
    (env.extend bindings).names = bindings.map (·.1) ++ env.names := by
  cases bindings with
  | nil => rfl
  | cons b rest => rfl

theorem extend_permitted {env : Env} {bindings : List (String × Value)} (henv : AllPermitted p env.values)
    (hbindings : EntriesPermitted p bindings) : AllPermitted p (env.extend bindings).values := by
  rw [allPermitted_eq_every] at henv ⊢
  rw [entriesPermitted_eq_every] at hbindings
  exact extend_every henv hbindings

theorem lookup?_permitted {env : Env} (henv : AllPermitted p env.values) {name : String} {v : Value}
    (h : env.lookup? name = some v) : v.Permitted p := by
  rw [allPermitted_eq_every] at henv
  rw [Value.permitted_eq_every]
  exact lookup?_every henv h

theorem not_mem_names {env : Env} {name : String} (h : env.lookup? name = none) :
    name ∉ env.names := by
  intro hmem
  obtain ⟨frame, hframe, hname⟩ := List.mem_flatMap.1 hmem
  obtain ⟨e, he, rfl⟩ := List.mem_map.1 hname
  have hnone := List.findSome?_eq_none_iff.1 h frame hframe
  rw [lookupFrame?, fieldOf?, Option.map_eq_none_iff] at hnone
  have hne := List.find?_eq_none.1 hnone e (List.mem_reverse.2 he)
  exact hne (beq_self_eq_true e.1)

end Env

end

namespace Terms

variable (T : Terms)

/-- States of futures that count as the same. -/
inductive SameState : FutureState → FutureState → Prop
  | pending : SameState .pending .pending
  | resolved {v : Value} (h : v.Permitted T.permit) : SameState (.resolved v) (.resolved v)
  | failed {error : Value} {line line' : Nat} (h : error.Permitted T.permit)
      (hline : T.SameLine line line') :
    SameState (.failed ⟨error, line⟩) (.failed ⟨error, line'⟩)

/-- Tables whose futures count as the same, if values may be futures at all. -/
def SameFutures (futures futures' : FutureTable) : Prop :=
  T.permit.future → ∀ id, Option.Rel T.SameState (futures.state? id) (futures'.state? id)

variable {T}

theorem SameFutures.isPending {futures futures' : FutureTable} (h : T.SameFutures futures futures')
    (hfuture : T.permit.future) (id : FutureId) :
    futures'.isPending id = futures.isPending id := by
  have hid := h hfuture id
  rw [FutureTable.isPending, FutureTable.isPending]
  generalize futures.state? id = a, futures'.state? id = b at hid ⊢
  cases hid with
  | none => rfl
  | some hstate => cases hstate <;> rfl

end Terms

variable {T : Terms} {futures futures' : FutureTable}

/-- The results of two matches are the same; and if there is one, it binds these names, to permitted
values. -/
structure SameMatch (p : Permit) (names : List String)
    (found found' : Option (List (String × Value))) : Prop where
  same : found' = found
  names : ∀ bindings, found = some bindings → bindings.map (·.1) = names
  permitted : ∀ bindings, found = some bindings → EntriesPermitted p bindings

namespace SameMatch

variable {p : Permit} {names more : List String} {a a' b b' : Option (List (String × Value))}

theorem never : SameMatch p names none none where
  same := rfl
  names := by rintro bindings ⟨⟩
  permitted := by rintro bindings ⟨⟩

theorem nothing : SameMatch p [] (some []) (some []) where
  same := rfl
  names := by
    rintro bindings ⟨⟩
    rfl
  permitted := by
    rintro bindings ⟨⟩
    exact List.forall_mem_nil _

theorem one (name : String) {v : Value} (hv : v.Permitted p) :
    SameMatch p [name] (some [(name, v)]) (some [(name, v)]) where
  same := rfl
  names := by
    rintro bindings ⟨⟩
    rfl
  permitted := by
    rintro bindings ⟨⟩
    exact List.forall_mem_singleton.2 hv

theorem append (ha : SameMatch p names a a') (hb : SameMatch p more b b') :
    SameMatch p (names ++ more)
      (do
        let first ← a
        let rest ← b
        return first ++ rest)
      (do
        let first ← a'
        let rest ← b'
        return first ++ rest) := by
  obtain ⟨rfl, hnames, hpermitted⟩ := ha
  obtain ⟨rfl, hnames', hpermitted'⟩ := hb
  cases a' with
  | none => exact never
  | some first => cases b' with
    | none => exact never
    | some rest =>
      refine ⟨rfl, ?_, ?_⟩
      · rintro bindings ⟨⟩
        rw [List.map_append, hnames first rfl, hnames' rest rfl]
      · rintro bindings ⟨⟩
        exact List.forall_mem_append.2 ⟨hpermitted first rfl, hpermitted' rest rfl⟩

theorem when (c : Bool) (h : SameMatch p names a a') :
    SameMatch p names (if c then a else none) (if c then a' else none) := by
  cases c with
  | true => exact h
  | false => exact never

end SameMatch

theorem Marker.inside?_same (hsame : T.SameFutures futures futures') (marker : Marker) {v : Value}
    (hv : v.Permitted T.permit) :
    marker.inside? futures' v = marker.inside? futures v ∧
      ∀ w, marker.inside? futures v = Option.some w → w.Permitted T.permit := by
  cases v with
  | future id =>
    have hid := hsame (Value.permitted_future.1 hv) id
    cases marker with
    | resolved =>
      simp only [Marker.inside?]
      generalize futures.state? id = a, futures'.state? id = b at hid ⊢
      rcases hid with (_ | hv | _) | _
      · exact ⟨rfl, by rintro w ⟨⟩⟩
      · exact ⟨rfl, by rintro w ⟨⟩; exact hv⟩
      · exact ⟨rfl, by rintro w ⟨⟩⟩
      · exact ⟨rfl, by rintro w ⟨⟩⟩
    | failed =>
      simp only [Marker.inside?]
      generalize futures.state? id = a, futures'.state? id = b at hid ⊢
      rcases hid with (_ | _ | ⟨herror, _⟩) | _
      · exact ⟨rfl, by rintro w ⟨⟩⟩
      · exact ⟨rfl, by rintro w ⟨⟩⟩
      · exact ⟨rfl, by rintro w ⟨⟩; exact herror⟩
      · exact ⟨rfl, by rintro w ⟨⟩⟩
    | _ => exact ⟨rfl, by rintro w ⟨⟩⟩
  | option inner => cases marker with
    | some => exact ⟨rfl, Value.permitted_option.1 hv⟩
    | _ => exact ⟨rfl, by rintro w ⟨⟩⟩
  | ok inner => cases marker with
    | ok => exact ⟨rfl, by rintro w ⟨⟩; exact Value.permitted_ok.1 hv⟩
    | _ => exact ⟨rfl, by rintro w ⟨⟩⟩
  | err error => cases marker with
    | err => exact ⟨rfl, by rintro w ⟨⟩; exact Value.permitted_err.1 hv⟩
    | _ => exact ⟨rfl, by rintro w ⟨⟩⟩
  | _ => cases marker <;> exact ⟨rfl, by rintro w ⟨⟩⟩

theorem Value.member?_permitted {p : Permit} {v : Value} (hv : v.Permitted p) (name : String) :
    ∀ w, v.member? name = some w → w.Permitted p := by
  rw [Value.permitted_eq_every] at hv ⊢
  exact v.member?_every hv name

namespace Pattern

mutual

theorem bindings?_same (hsame : T.SameFutures futures futures') (p : Pattern) (v : Value)
    (hv : v.Permitted T.permit) :
    SameMatch T.permit p.names (p.bindings? futures v) (p.bindings? futures' v) := by
  cases p with
  | wildcard _ => exact .nothing
  | bind _ name => exact .one name hv
  | literal _ l => exact .when (l.fits v) .nothing
  | marked span marker inner =>
    obtain ⟨hfound, hinside⟩ := marker.inside?_same hsame hv
    rw [bindings?, bindings?, hfound]
    cases hw : marker.inside? futures v with
    | none => exact .never
    | some w => exact bindings?_same hsame inner w (hinside w hw)
  | none _ =>
    cases v with
    | option inner => cases inner with
      | none => exact .nothing
      | some w => exact .never
    | _ => exact .never
  | pending _ =>
    cases v with
    | future id =>
      rw [bindings?, bindings?, hsame.isPending (Value.permitted_future.1 hv)]
      exact .when (futures.isPending id) .nothing
    | _ => exact .never
  | record _ name fields _ =>
    cases v with
    | record actual values => exact .when (actual == name) (fieldBindings?_same hsame fields _ hv)
    | _ => exact .never
  | variant _ enum label payload =>
    cases v with
    | enum e w actual =>
      exact .when (e == enum && w == label)
        (payloadBindings?_same hsame payload actual (Value.permitted_enum.1 hv))
    | _ => exact .never
  | tuple _ items =>
    cases v with
    | tuple values =>
      exact .when (items.length == values.length)
        (itemBindings?_same hsame items values (Value.permitted_tuple.1 hv))
    | _ => exact .never
  | list _ items rest =>
    cases v with
    | list values =>
      have hvalues := Value.permitted_list.1 hv
      have hitems := itemBindings?_same hsame items values hvalues
      cases rest with
      | none =>
        rw [names, optionNames, List.append_nil]
        exact .when (items.length == values.length) hitems
      | some rest =>
        refine .append hitems (bindings?_same hsame rest _ (Value.permitted_list.2 ?_))
        exact fun w hw => hvalues w (List.mem_of_mem_drop hw)
    | _ => cases rest <;> exact .never
  | map _ entries =>
    cases v with
    | map values => exact entryBindings?_same hsame entries _ hv
    | record name values => exact entryBindings?_same hsame entries _ hv
    | _ => exact .never
termination_by structural p

theorem payloadBindings?_same (hsame : T.SameFutures futures futures') (p : Option Pattern)
    (v : Option Value) (hv : ∀ w, v = some w → w.Permitted T.permit) :
    SameMatch T.permit (optionNames p) (payloadBindings? futures p v)
      (payloadBindings? futures' p v) := by
  cases p with
  | none => exact .nothing
  | some p => cases v with
    | none => exact .never
    | some v => exact bindings?_same hsame p v (hv v rfl)
termination_by structural p

theorem itemBindings?_same (hsame : T.SameFutures futures futures') (ps : List Pattern)
    (vs : List Value) (hvs : ∀ w ∈ vs, w.Permitted T.permit) :
    SameMatch T.permit (listNames ps) (itemBindings? futures ps vs)
      (itemBindings? futures' ps vs) := by
  cases ps with
  | nil => exact .nothing
  | cons p ps => cases vs with
    | nil => exact .never
    | cons v vs =>
      obtain ⟨hv, hvs⟩ := List.forall_mem_cons.1 hvs
      exact .append (bindings?_same hsame p v hv) (itemBindings?_same hsame ps vs hvs)
termination_by structural ps

theorem fieldBindings?_same (hsame : T.SameFutures futures futures') (fields : List FieldPattern)
    (whole : Value) (hwhole : whole.Permitted T.permit) :
    SameMatch T.permit (fieldNames fields) (fieldBindings? futures fields whole)
      (fieldBindings? futures' fields whole) := by
  cases fields with
  | nil => exact .nothing
  | cons field rest =>
    obtain ⟨name, _, pattern⟩ := field
    have hrest := fieldBindings?_same hsame rest whole hwhole
    cases hv : whole.member? name with
    | none =>
      simp only [fieldBindings?, hv]
      exact .never
    | some v =>
      have hpermitted := Value.member?_permitted hwhole name v hv
      simp only [fieldBindings?, hv]
      cases pattern with
      | none => exact .append (.one name hpermitted) hrest
      | some p => exact .append (bindings?_same hsame p v hpermitted) hrest
termination_by structural fields

theorem entryBindings?_same (hsame : T.SameFutures futures futures')
    (entries : List (String × Pattern)) (whole : Value) (hwhole : whole.Permitted T.permit) :
    SameMatch T.permit (entryNames entries) (entryBindings? futures entries whole)
      (entryBindings? futures' entries whole) := by
  cases entries with
  | nil => exact .nothing
  | cons entry rest =>
    obtain ⟨key, p⟩ := entry
    have hrest := entryBindings?_same hsame rest whole hwhole
    cases hv : whole.member? key with
    | none =>
      simp only [entryBindings?, hv]
      exact .never
    | some v =>
      simp only [entryBindings?, hv]
      exact .append (bindings?_same hsame p v (Value.member?_permitted hwhole key v hv)) hrest
termination_by structural entries

end

end Pattern

end StreamLang
