import StreamLang.Pattern.Bindings
import StreamLang.Proofs.Contents.Builtins
import StreamLang.Stream.Cursor

/-! What a scope binds: a value that is looked up holds no futures, functions and records but those of
the scope, and a pattern binds parts of the value it is matched against, or of what the futures in it
gave. -/

namespace StreamLang

variable {ok : Value → Prop}

namespace Env

theorem values_extend (env : Env) (bindings : List (String × Value)) :
    (env.extend bindings).values = bindings.map (·.2) ++ env.values := by
  cases bindings with
  | nil => rfl
  | cons b rest => rfl

theorem extend_every {env : Env} {bindings : List (String × Value)}
    (henv : AllEvery ok env.values) (hbindings : EntriesEvery ok bindings) :
    AllEvery ok (env.extend bindings).values := by
  rw [values_extend]
  exact AllEvery.append (List.forall_mem_map.2 hbindings) henv

theorem lookup?_every {env : Env} (henv : AllEvery ok env.values) {name : String} {v : Value}
    (h : env.lookup? name = some v) : v.Every ok := by
  obtain ⟨frame, hframe, hv⟩ := List.exists_of_findSome?_eq_some h
  obtain ⟨e, he, rfl⟩ := mem_of_fieldOf? hv
  refine henv e.2 (List.mem_flatMap.2 ⟨frame, hframe, ?_⟩)
  exact List.mem_map_of_mem (List.mem_reverse.1 he)

end Env

/-- The property holds of every future, every function and every record in what the future gave. -/
def FutureState.Every (ok : Value → Prop) : FutureState → Prop
  | pending => True
  | resolved v => v.Every ok
  | failed f => f.error.Every ok

/-- The property holds of every future, every function and every record in what the futures gave. -/
def FutureTable.Every (ok : Value → Prop) (futures : FutureTable) : Prop :=
  ∀ id state, futures.state? id = some state → state.Every ok

/-- If the pattern fits, the property holds of every future, every function and every record it
binds. -/
def MatchEvery (ok : Value → Prop) (found : Option (List (String × Value))) : Prop :=
  ∀ bindings, found = some bindings → EntriesEvery ok bindings

namespace MatchEvery

variable {a b : Option (List (String × Value))}

theorem never : MatchEvery ok none := by rintro bindings ⟨⟩

theorem nothing : MatchEvery ok (some []) := by
  rintro bindings ⟨⟩
  exact List.forall_mem_nil _

theorem one (name : String) {v : Value} (hv : v.Every ok) : MatchEvery ok (some [(name, v)]) := by
  rintro bindings ⟨⟩
  exact List.forall_mem_singleton.2 hv

theorem append (ha : MatchEvery ok a) (hb : MatchEvery ok b) :
    MatchEvery ok (do
      let first ← a
      let rest ← b
      return first ++ rest) := by
  cases a with
  | none => exact never
  | some first => cases b with
    | none => exact never
    | some rest =>
      rintro bindings ⟨⟩
      exact List.forall_mem_append.2 ⟨ha first rfl, hb rest rfl⟩

theorem when (c : Bool) (h : MatchEvery ok a) : MatchEvery ok (if c then a else none) := by
  cases c with
  | true => exact h
  | false => exact never

end MatchEvery

theorem Value.member?_every {v : Value} (hv : v.Every ok) (name : String) :
    ∀ w, v.member? name = some w → w.Every ok := by
  cases v with
  | record _ fields => exact Value.fieldOf?_every (Value.every_record.1 hv).2 name
  | map entries => exact Value.fieldOf?_every (Value.every_map.1 hv) name
  | _ => rintro w ⟨⟩

variable {futures : FutureTable}

theorem Marker.inside?_every (hfutures : futures.Every ok) (marker : Marker) {v : Value}
    (hv : v.Every ok) : ∀ w, marker.inside? futures v = Option.some w → w.Every ok := by
  intro w hw
  unfold Marker.inside? at hw
  split at hw
  case h_1 => exact Value.every_option.1 hv w hw
  case h_2 =>
    cases hw
    exact Value.every_ok.1 hv
  case h_3 =>
    cases hw
    exact Value.every_err.1 hv
  case h_4 id =>
    cases hstate : futures.state? id with
    | none =>
      rw [hstate] at hw
      cases hw
    | some state =>
      rw [hstate] at hw
      cases state with
      | resolved inner =>
        cases hw
        exact hfutures id _ hstate
      | _ => cases hw
  case h_5 id =>
    cases hstate : futures.state? id with
    | none =>
      rw [hstate] at hw
      cases hw
    | some state =>
      rw [hstate] at hw
      cases state with
      | failed f =>
        cases hw
        exact hfutures id _ hstate
      | _ => cases hw
  case h_6 => cases hw

namespace Pattern

mutual

theorem bindings?_every (hfutures : futures.Every ok) (p : Pattern) (v : Value)
    (hv : v.Every ok) : MatchEvery ok (p.bindings? futures v) := by
  cases p with
  | wildcard _ => exact .nothing
  | bind _ name => exact .one name hv
  | literal _ l => exact .when (l.fits v) .nothing
  | marked span marker inner =>
    rw [bindings?]
    cases hw : marker.inside? futures v with
    | none => exact .never
    | some w => exact bindings?_every hfutures inner w (marker.inside?_every hfutures hv w hw)
  | none _ =>
    cases v with
    | option inner => cases inner with
      | none => exact .nothing
      | some w => exact .never
    | _ => exact .never
  | pending _ =>
    cases v with
    | future id => exact .when (futures.isPending id) .nothing
    | _ => exact .never
  | record _ name fields _ =>
    cases v with
    | record actual values => exact .when (actual == name) (fieldBindings?_every hfutures fields _ hv)
    | _ => exact .never
  | variant _ enum label payload =>
    cases v with
    | enum e w actual =>
      exact .when (e == enum && w == label)
        (payloadBindings?_every hfutures payload actual (Value.every_enum.1 hv))
    | _ => exact .never
  | tuple _ items =>
    cases v with
    | tuple values =>
      exact .when (items.length == values.length)
        (itemBindings?_every hfutures items values (Value.every_tuple.1 hv))
    | _ => exact .never
  | list _ items rest =>
    cases v with
    | list values =>
      have hvalues := Value.every_list.1 hv
      have hitems := itemBindings?_every hfutures items values hvalues
      cases rest with
      | none => exact .when (items.length == values.length) hitems
      | some rest =>
        refine .append hitems (bindings?_every hfutures rest _ (Value.every_list.2 ?_))
        exact fun w hw => hvalues w (List.mem_of_mem_drop hw)
    | _ => cases rest <;> exact .never
  | map _ entries =>
    cases v with
    | map values => exact entryBindings?_every hfutures entries _ hv
    | record name values => exact entryBindings?_every hfutures entries _ hv
    | _ => exact .never
termination_by structural p

theorem payloadBindings?_every (hfutures : futures.Every ok) (p : Option Pattern)
    (v : Option Value) (hv : ∀ w, v = some w → w.Every ok) :
    MatchEvery ok (payloadBindings? futures p v) := by
  cases p with
  | none => exact .nothing
  | some p => cases v with
    | none => exact .never
    | some v => exact bindings?_every hfutures p v (hv v rfl)
termination_by structural p

theorem itemBindings?_every (hfutures : futures.Every ok) (ps : List Pattern)
    (vs : List Value) (hvs : AllEvery ok vs) : MatchEvery ok (itemBindings? futures ps vs) := by
  cases ps with
  | nil => exact .nothing
  | cons p ps => cases vs with
    | nil => exact .never
    | cons v vs =>
      obtain ⟨hv, hvs⟩ := List.forall_mem_cons.1 hvs
      exact .append (bindings?_every hfutures p v hv) (itemBindings?_every hfutures ps vs hvs)
termination_by structural ps

theorem fieldBindings?_every (hfutures : futures.Every ok) (fields : List FieldPattern)
    (whole : Value) (hwhole : whole.Every ok) :
    MatchEvery ok (fieldBindings? futures fields whole) := by
  cases fields with
  | nil => exact .nothing
  | cons field rest =>
    obtain ⟨name, _, pattern⟩ := field
    have hrest := fieldBindings?_every hfutures rest whole hwhole
    rw [fieldBindings?]
    cases hv : whole.member? name with
    | none => exact .never
    | some v =>
      have hevery := Value.member?_every hwhole name v hv
      cases pattern with
      | none => exact .append (.one name hevery) hrest
      | some p => exact .append (bindings?_every hfutures p v hevery) hrest
termination_by structural fields

theorem entryBindings?_every (hfutures : futures.Every ok)
    (entries : List (String × Pattern)) (whole : Value) (hwhole : whole.Every ok) :
    MatchEvery ok (entryBindings? futures entries whole) := by
  cases entries with
  | nil => exact .nothing
  | cons entry rest =>
    obtain ⟨key, p⟩ := entry
    have hrest := entryBindings?_every hfutures rest whole hwhole
    rw [entryBindings?]
    cases hv : whole.member? key with
    | none => exact .never
    | some v =>
      exact .append (bindings?_every hfutures p v (Value.member?_every hwhole key v hv)) hrest
termination_by structural entries

end

end Pattern

end StreamLang

/-! What is inside a traversal of a stream: no futures, functions and records but those of the
stream. -/

namespace StreamLang

def SourceCursor.values : SourceCursor → List Value
  | items rest => rest
  | generate _ _ generator => [generator]
  | _ => []

mutual

/-- The values a traversal still holds. -/
def Cursor.values : Cursor → List Value
  | ⟨source, stages⟩ => source.values ++ StageCursor.allValues stages

def StageCursor.allValues : List StageCursor → List Value
  | [] => []
  | stage :: before => StageCursor.values stage ++ StageCursor.allValues before

def StageCursor.values : StageCursor → List Value
  | .map f => [f]
  | .filter f => [f]
  | .flatMap f none _ => [f]
  | .flatMap f (some inner) _ => f :: InnerCursor.values inner
  | .take _ => []
  | .skip _ => []

def InnerCursor.values : InnerCursor → List Value
  | .items rest => rest
  | .stream c => Cursor.values c

end

variable {ok : Value → Prop}

theorem StageCursor.allValues_eq (stages : List StageCursor) :
    allValues stages = stages.flatMap values := by
  induction stages with
  | nil => rfl
  | cons stage before ih => rw [allValues, ih, List.flatMap_cons]

/-- Stages are in the list of a traversal as they come, the last one first. -/
theorem Cursor.every_mk {source : SourceCursor} {stages : List StageCursor} :
    AllEvery ok (Cursor.mk source stages).values ↔
      AllEvery ok source.values ∧ ∀ stage ∈ stages, AllEvery ok stage.values := by
  rw [values, StageCursor.allValues_eq, AllEvery, List.forall_mem_append]
  simp only [AllEvery, List.mem_flatMap]
  exact and_congr_right fun _ => ⟨fun h stage hs v hv => h v ⟨stage, hs, hv⟩,
    fun h v ⟨stage, hs, hv⟩ => h stage hs v hv⟩

theorem Cursor.push_every {c : Cursor} (stage : StageCursor) (hc : AllEvery ok c.values)
    (hstage : AllEvery ok stage.values) : AllEvery ok (c.push stage).values := by
  obtain ⟨source, stages⟩ := c
  obtain ⟨hsource, hstages⟩ := every_mk.1 hc
  exact every_mk.2 ⟨hsource, List.forall_mem_cons.2 ⟨hstage, hstages⟩⟩

theorem StageCursor.ofStage_values (terminal : Option String) (stage : Stage) :
    (ofStage terminal stage).values = stage.values := by
  cases stage <;> rfl

theorem StageCursor.ofStages_every {terminal : Option String} {stages : List Stage}
    (h : AllEvery ok (stages.flatMap Stage.values)) :
    ∀ stage ∈ ofStages terminal stages, AllEvery ok stage.values := by
  induction stages with
  | nil => exact List.forall_mem_nil _
  | cons stage later ih =>
    rw [List.flatMap_cons] at h
    obtain ⟨hstage, hlater⟩ := List.forall_mem_append.1 h
    refine List.forall_mem_cons.2 ⟨?_, ih hlater⟩
    rw [ofStage_values]
    exact hstage

theorem SourceCursor.ofSource_values (source : Source) :
    (ofSource source).values = source.values := by
  cases source <;> rfl

theorem Pipeline.cursor_every {p : Pipeline} (hp : AllEvery ok p.values)
    (terminal : Option String) : AllEvery ok (p.cursor terminal).values := by
  obtain ⟨hsource, hstages⟩ := List.forall_mem_append.1 hp
  refine Cursor.every_mk.2 ⟨?_, fun stage hmem => ?_⟩
  · rw [SourceCursor.ofSource_values]
    exact hsource
  · exact StageCursor.ofStages_every hstages stage (List.mem_reverse.1 hmem)

theorem Pipeline.boundedCursor_every {p : Pipeline} (hp : AllEvery ok p.values)
    (terminal : String) :
    Except.All (fun c : Cursor => AllEvery ok c.values) (p.boundedCursor terminal) := by
  rw [boundedCursor]
  split
  · exact .ok (p.cursor_every hp _)
  · exact .error _

theorem InnerCursor.ofValue_every (terminal : Option String) {v : Value} (hv : v.Every ok) :
    Except.All (fun inner : InnerCursor => AllEvery ok inner.values) (ofValue terminal v) := by
  cases v with
  | list items => exact .ok (Value.every_list.1 hv)
  | set items => exact .ok (Value.every_set.1 hv)
  | stream identity p =>
    have hp := Value.every_stream.1 hv
    cases terminal with
    | none => exact .ok (p.cursor_every hp none)
    | some t =>
      rw [ofValue]
      have hcursor := p.boundedCursor_every hp t
      cases hc : p.boundedCursor t with
      | ok c => exact .ok (hcursor c hc)
      | error fault => exact .error _
  | _ => exact .error _

end StreamLang
