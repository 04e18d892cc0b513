import Mathlib.Data.List.Nodup
import StreamLang.Check.Program
import StreamLang.Proofs.Checker.Adds

/-! What the check does to the scopes. Patterns, parameters and `let` declare the names that they bind in
the innermost scope. An expression leaves the scopes as they were; what is declared inside it is gone at
its end. -/

namespace StreamLang

namespace Scopes

/-- The scope that new names go to. -/
def innermost (s : Scopes) : Scope :=
  match s.locals with
  | [] => s.globals
  | top :: _ => top

def withInnermost (s : Scopes) (scope : Scope) : Scopes :=
  match s.locals with
  | [] => { s with globals := scope }
  | _ :: rest => { s with locals := scope :: rest }

variable (s : Scopes)

@[simp] theorem withInnermost_innermost : s.withInnermost s.innermost = s := by
  unfold withInnermost innermost
  obtain ⟨globals, _ | _⟩ := s <;> rfl

@[simp] theorem innermost_withInnermost (scope : Scope) :
    (s.withInnermost scope).innermost = scope := by
  unfold withInnermost innermost
  obtain ⟨globals, _ | _⟩ := s <;> rfl

@[simp] theorem withInnermost_withInnermost (scope scope' : Scope) :
    (s.withInnermost scope).withInnermost scope' = s.withInnermost scope' := by
  unfold withInnermost
  obtain ⟨globals, _ | _⟩ := s <;> rfl

variable {s} in
theorem exit_withInnermost (h : s.locals ≠ []) (scope : Scope) :
    (s.withInnermost scope).exit = s.exit := by
  obtain ⟨globals, _ | _⟩ := s
  · exact absurd rfl h
  · rfl

variable {s} in
theorem locals_withInnermost_ne_nil (h : s.locals ≠ []) (scope : Scope) :
    (s.withInnermost scope).locals ≠ [] := by
  obtain ⟨globals, _ | _⟩ := s
  · exact h
  · exact List.cons_ne_nil _ _

theorem declare?_eq (name : String) (b : Binding) :
    s.declare? name b =
      if Keyed.contains name s.innermost then none
      else some (s.withInnermost (Keyed.insert name b s.innermost)) := by
  unfold declare? withInnermost innermost
  obtain ⟨globals, _ | _⟩ := s <;> rfl

end Scopes

namespace Check

/-- The names were new and are there now. What was there before is as it was. -/
structure Added (names : List String) (before after : Scope) : Prop where
  nodup : names.Nodup
  fresh : ∀ n ∈ names, Keyed.get? n before = none
  found : ∀ n ∈ names, (Keyed.get? n after).isSome
  kept : ∀ n b, Keyed.get? n before = some b → Keyed.get? n after = some b

namespace Added

theorem none (scope : Scope) : Added [] scope scope where
  nodup := List.nodup_nil
  fresh := List.forall_mem_nil _
  found := List.forall_mem_nil _
  kept _ _ := id

theorem insert {scope : Scope} {name : String} (h : Keyed.get? name scope = .none) (b : Binding) :
    Added [name] scope (Keyed.insert name b scope) where
  nodup := List.nodup_singleton _
  fresh := List.forall_mem_singleton.2 h
  found := List.forall_mem_singleton.2 (by rw [Keyed.get?_insert_self]; rfl)
  kept n b' hn := by
    have hne : n ≠ name := by
      rintro rfl
      rw [h] at hn
      cases hn
    rw [Keyed.get?_insert_of_ne hne, hn]

theorem append {names more : List String} {before mid after : Scope} (h : Added names before mid)
    (hmore : Added more mid after) : Added (names ++ more) before after where
  nodup := by
    refine List.nodup_append.2 ⟨h.nodup, hmore.nodup, ?_⟩
    rintro n hn _ hn' rfl
    have hsome := h.found n hn
    rw [hmore.fresh n hn'] at hsome
    cases hsome
  fresh n hn := by
    rcases List.mem_append.1 hn with hn | hn
    · exact h.fresh n hn
    · rw [Option.eq_none_iff_forall_ne_some]
      intro b hb
      have hmid := hmore.fresh n hn
      rw [h.kept n b hb] at hmid
      cases hmid
  found n hn := by
    rcases List.mem_append.1 hn with hn | hn
    · obtain ⟨b, hb⟩ := Option.isSome_iff_exists.1 (h.found n hn)
      rw [hmore.kept n b hb]
      rfl
    · exact hmore.found n hn
  kept n b hb := hmore.kept n b (h.kept n b hb)

end Added

/-- And no other names. -/
structure Introduced (names : List String) (before after : Scope) : Prop
    extends Added names before after where
  others : ∀ n, n ∉ names → Keyed.get? n after = Keyed.get? n before

namespace Introduced

theorem none (scope : Scope) : Introduced [] scope scope :=
  ⟨.none scope, fun _ _ => rfl⟩

theorem insert {scope : Scope} {name : String} (h : Keyed.get? name scope = .none) (b : Binding) :
    Introduced [name] scope (Keyed.insert name b scope) :=
  ⟨.insert h b, fun _ hn => Keyed.get?_insert_of_ne (List.ne_of_not_mem_cons hn) _ _⟩

theorem append {names more : List String} {before mid after : Scope}
    (h : Introduced names before mid) (hmore : Introduced more mid after) :
    Introduced (names ++ more) before after where
  toAdded := h.toAdded.append hmore.toAdded
  others n hn := by
    rw [List.mem_append, not_or] at hn
    rw [hmore.others n hn.2, h.others n hn.1]

end Introduced

/-- What is found out about a name, and is not known from before, is as `ok` says. -/
def OnlyNew (ok : Binding → Prop) (before after : Scope) : Prop :=
  ∀ n b, Keyed.get? n after = some b → Keyed.get? n before = some b ∨ ok b

namespace OnlyNew

variable {ok ok' : Binding → Prop} {before mid after : Scope}

theorem refl (scope : Scope) : OnlyNew ok scope scope := fun _ _ => .inl

theorem trans (h : OnlyNew ok before mid) (hmore : OnlyNew ok mid after) :
    OnlyNew ok before after :=
  fun n b hb => (hmore n b hb).elim (h n b) .inr

theorem insert (scope : Scope) (name : String) {b : Binding} (hb : ok b) :
    OnlyNew ok scope (Keyed.insert name b scope) := by
  intro n b' hn
  by_cases hname : n = name
  · rw [hname, Keyed.get?_insert_self] at hn
    cases hn
    exact .inr hb
  · rw [Keyed.get?_insert_of_ne hname] at hn
    exact .inl hn

theorem weaken (h : OnlyNew ok before after) (hok : ∀ b, ok b → ok' b) :
    OnlyNew ok' before after :=
  fun n b hb => (h n b hb).imp_right (hok b)

end OnlyNew

/-- The computation adds findings, and names to the innermost scope, of which it finds out what `ok`
says: if it finds no error, just these names, all of them new. -/
def Declares {α : Type} (ok : Binding → Prop) (names : List String) (x : CheckM α) : Prop :=
  ∀ s, ∃ scope new, ResultsIn x s (s.scopes.withInnermost scope) new ∧
    ((∀ d ∈ new, d.isError = false) → Introduced names s.scopes.innermost scope) ∧
      OnlyNew ok s.scopes.innermost scope

variable {α β : Type} {ok : Binding → Prop} {names more : List String}

theorem Adds.declares {x : CheckM α} (h : Adds x) : Declares ok [] x := by
  intro s
  obtain ⟨new, hend⟩ := h s
  refine ⟨s.scopes.innermost, new, ?_, fun _ => .none _, .refl _⟩
  rwa [Scopes.withInnermost_innermost]

/-- If no error is found in the end, none was found before. -/
theorem State.Clean.of_append {s : State} {scopes : Scopes} {new : Array Diagnostic}
    (h : State.Clean { s with scopes, findings := s.findings ++ new }) : s.Clean :=
  fun d hd => h d (Array.mem_append_left _ hd)

namespace Declares

theorem pure (a : α) : Declares ok [] (Pure.pure a : CheckM α) := (Adds.pure a).declares

theorem weaken {ok' : Binding → Prop} {x : CheckM α} (h : Declares ok names x)
    (hok : ∀ b, ok b → ok' b) : Declares ok' names x := by
  intro s
  obtain ⟨scope, new, hend, hadded, hnew⟩ := h s
  exact ⟨scope, new, hend, hadded, hnew.weaken hok⟩

theorem bind {x : CheckM α} {f : α → CheckM β} (hx : Declares ok names x)
    (hf : ∀ a, Declares ok more (f a)) : Declares ok (names ++ more) (x >>= f) := by
  intro s
  obtain ⟨mid, new, hmid, hadded, honly⟩ := hx s
  obtain ⟨scope, new', hend, hmore, honlyMore⟩ := hf (x s).1 (x s).2
  have hscopes : (x s).2.scopes = s.scopes.withInnermost mid := by rw [hmid.state]
  rw [hscopes, Scopes.innermost_withInnermost] at hmore honlyMore
  rw [hscopes, Scopes.withInnermost_withInnermost] at hend
  refine ⟨scope, new ++ new', hmid.bind hend, fun hpass => ?_, honly.trans honlyMore⟩
  have hmore := hmore fun d hd => hpass d (Array.mem_append_right _ hd)
  exact (hadded fun d hd => hpass d (Array.mem_append_left _ hd)).append hmore

/-- Nothing is declared by what comes first. -/
theorem after {x : CheckM α} {f : α → CheckM β} (hx : Adds x) (hf : ∀ a, Declares ok names (f a)) :
    Declares ok names (x >>= f) :=
  .bind hx.declares hf

/-- Nothing is declared by what comes then. -/
theorem before {x : CheckM α} {f : α → CheckM β} (hx : Declares ok names x)
    (hf : ∀ a, Adds (f a)) : Declares ok names (x >>= f) := by
  have h := Declares.bind hx fun a => (hf a).declares
  rwa [List.append_nil] at h

theorem get_bind {f : State → CheckM α}
    (hblind : ∀ s found, f { s with findings := found } = f s) (hf : ∀ s, Declares ok names (f s)) :
    Declares ok names (get >>= f) := by
  intro s
  obtain ⟨scope, new, hend, hadded, honly⟩ := hf s s
  exact ⟨scope, new, hend.get_bind (hblind s), hadded, honly⟩

/-- Where a problem is reported, it does not matter which names are declared. -/
theorem report {f : PUnit → CheckM α} (fault : CheckFault) (span : Span)
    (hf : Declares ok more (f ())) : Declares ok names (Check.report fault span >>= f) := by
  intro s
  obtain ⟨scope, new, hend, -, honly⟩ := hf (Check.report fault span s).2
  refine ⟨scope, _, (report_resultsIn fault span s).bind hend, fun hpass => ?_, honly⟩
  cases (hpass _ (Array.mem_append_left _ (Array.mem_singleton.2 rfl)) : true = false)

theorem reported (fault : CheckFault) (span : Span) (a : α) :
    Declares ok names (do Check.report fault span; return a) :=
  .report fault span (.pure a)

/-- A problem may be reported before the check goes on. -/
theorem reportIf {c : Prop} [Decidable c] (fault : CheckFault) (span : Span)
    {f : PUnit → CheckM α} (hf : Declares ok names (f ())) :
    Declares ok names (if c then Check.report fault span >>= f else f ()) := by
  split
  · exact .report fault span hf
  · exact hf

end Declares

theorem declare_apply (name : String) (b : Binding) (s : State) :
    declare name b s = match s.scopes.declare? name b with
      | some scopes => (true, { s with scopes })
      | none => (false, s) := by
  simp only [declare, bind, StateT.bind, get, getThe, MonadStateOf.get, StateT.get, Pure.pure]
  cases s.scopes.declare? name b <;> rfl

theorem declare_resultsIn (name : String) (b : Binding) (s : State) :
    ResultsIn (declare name b) s (declare name b s).2.scopes #[] := by
  intro found
  rw [declare_apply, declare_apply, Array.append_empty]
  cases s.scopes.declare? name b <;> rfl

/-- A name is declared, or the check goes on with a problem. -/
theorem declares_declare (name : String) {b : Binding} (hb : ok b) {f : Bool → CheckM α}
    (htrue : Declares ok more (f true)) (hfalse : Declares ok (name :: more) (f false)) :
    Declares ok (name :: more) (declare name b >>= f) := by
  intro s
  have hdeclare := declare_apply name b s
  rw [Scopes.declare?_eq] at hdeclare
  have hbind {scopes : Scopes} {new : Array Diagnostic}
      (hend : ResultsIn (f (declare name b s).1) (declare name b s).2 scopes new) :
      ResultsIn (declare name b >>= f) s scopes new := by
    simpa using (declare_resultsIn name b s).bind hend
  cases hcontains : Keyed.contains name s.scopes.innermost with
  | true =>
    rw [hcontains] at hdeclare
    obtain ⟨scope, new, hend, hadded⟩ := hfalse s
    exact ⟨scope, new, hbind (by rwa [hdeclare]), hadded⟩
  | false =>
    have hfresh : Keyed.get? name s.scopes.innermost = none := by
      simpa [Keyed.contains] using hcontains
    rw [hcontains] at hdeclare
    obtain ⟨scope, new, hend, hadded, honly⟩ := htrue { s with
      scopes := s.scopes.withInnermost (Keyed.insert name b s.scopes.innermost) }
    rw [Scopes.innermost_withInnermost] at hadded honly
    rw [Scopes.withInnermost_withInnermost] at hend
    exact ⟨scope, new, hbind (by rwa [hdeclare]),
      fun hpass => (Introduced.insert hfresh b).append (hadded hpass),
      (OnlyNew.insert _ name hb).trans honly⟩

/-- A name that must be new. -/
theorem declares_new (name : String) {b : Binding} (hb : ok b) (fault : CheckFault) (span : Span)
    {f : PUnit → CheckM α} (hf : Declares ok more (f ())) :
    Declares ok (name :: more) (do
      if !(← declare name b) then report fault span
      f ()) :=
  declares_declare name hb hf (.report fault span hf)

-- patterns

/-- Only the type of the name is known. -/
def OnlyTyped (b : Binding) : Prop := b = .ofTy b.ty

theorem onlyTyped_ofTy (ty : Ty) : OnlyTyped (.ofTy ty) := rfl

theorem declareName_declares (name : String) (ty : Ty) (span : Span) (seen : List String) :
    Declares OnlyTyped [name] (declareName name ty span seen) := by
  unfold declareName
  split
  · exact .reported _ _ _
  · exact declares_new name (onlyTyped_ofTy _) _ span (f := fun _ => Pure.pure (name :: seen)) (.pure _)

mutual

theorem bindPattern_declares : ∀ (pattern : Pattern) (ty : Ty) (seen : List String),
    Declares OnlyTyped pattern.names (bindPattern pattern ty seen)
  | .wildcard _, _, seen => .pure seen
  | .bind span name, ty, seen => declareName_declares name ty.base span seen
  | .literal span value, ty, seen => by
    rw [bindPattern]
    exact .reportIf _ _ (.pure seen)
  | .marked span m inner, ty, seen =>
    .after (markedType_adds m ty.base span) fun innerTy => bindPattern_declares inner innerTy seen
  | .none span, ty, seen => by
    rw [bindPattern]
    split
    · exact .pure seen
    · exact .pure seen
    · exact .reported _ _ _
  | .pending span, ty, seen => by
    rw [bindPattern]
    split
    · exact .pure seen
    · exact .pure seen
    · exact .reported _ _ _
  | .record span name fields partially, ty, seen => by
    rw [bindPattern]
    refine .after (recordSchema?_adds name) fun schema => ?_
    cases schema with
    | none => exact .reported _ _ _
    | some schema => exact .reportIf _ _ (bindFields_declares name schema span fields seen)
  | .variant span enum variant payload, ty, seen => by
    rw [bindPattern]
    refine .after (enumSchema?_adds enum) fun schema => ?_
    cases schema with
    | none => exact .reported _ _ _
    | some schema =>
      refine .reportIf _ _ ?_
      dsimp only
      split
      · exact .reported _ _ _
      · cases payload with
        | none => exact .pure seen
        | some sub =>
          dsimp only
          split
          · exact bindPattern_declares sub _ seen
          · exact .reported _ _ _
  | .tuple span items, ty, seen => by
    rw [bindPattern]
    split
    · split
      case isTrue => exact .reported _ _ _
      case isFalse hlen => exact bindEach_declares items _ (not_not.1 hlen) seen
    · exact bindAll_declares items .unknown seen
    · exact .reported _ _ _
  | .list span items rest, ty, seen => by
    rw [bindPattern]
    split
    · exact .bind (bindAll_declares items _ seen) fun seen => bindOptional_declares rest _ seen
    · exact .bind (bindAll_declares items _ seen) fun seen => bindOptional_declares rest _ seen
    · exact .reported _ _ _
  | .map span entries, ty, seen => by
    rw [bindPattern]
    split
    · exact bindEntries_declares entries _ seen
    · exact bindEntries_declares entries _ seen
    · exact .reported _ _ _
termination_by structural pattern => pattern

theorem bindOptional_declares : ∀ (pattern : Option Pattern) (ty : Ty) (seen : List String),
    Declares OnlyTyped (Pattern.optionNames pattern) (bindOptional pattern ty seen)
  | none, _, seen => .pure seen
  | some p, ty, seen => bindPattern_declares p ty seen
termination_by structural pattern => pattern

theorem bindAll_declares : ∀ (patterns : List Pattern) (ty : Ty) (seen : List String),
    Declares OnlyTyped (Pattern.listNames patterns) (bindAll patterns ty seen)
  | [], _, seen => .pure seen
  | p :: rest, ty, seen =>
    .bind (bindPattern_declares p ty seen) fun seen => bindAll_declares rest ty seen
termination_by structural patterns => patterns

theorem bindEach_declares : ∀ (patterns : List Pattern) (tys : List Ty)
    (_ : tys.length = patterns.length) (seen : List String),
    Declares OnlyTyped (Pattern.listNames patterns) (bindEach patterns tys seen)
  | [], _, _, seen => .pure seen
  | _ :: _, [], hlen, _ => nomatch hlen
  | p :: rest, ty :: tys, hlen, seen =>
    .bind (bindPattern_declares p ty seen) fun seen =>
      bindEach_declares rest tys (Nat.succ.inj hlen) seen
termination_by structural patterns => patterns

theorem bindFields_declares (record : String) (schema : RecordSchema) (span : Span) :
    ∀ (fields : List FieldPattern) (seen : List String),
      Declares OnlyTyped (Pattern.fieldNames fields) (bindFields record schema span fields seen)
  | [], seen => .pure seen
  | ⟨name, fieldSpan, pattern⟩ :: rest, seen => by
    rw [bindFields]
    split
    · exact .report _ _ (bindFields_declares record schema span rest seen)
    · cases pattern with
      | some sub =>
        exact .bind (bindPattern_declares sub _ seen) fun seen =>
          bindFields_declares record schema span rest seen
      | none =>
        exact .bind (declareName_declares name _ span seen) fun seen =>
          bindFields_declares record schema span rest seen
termination_by structural fields => fields

theorem bindEntries_declares : ∀ (entries : List (String × Pattern)) (ty : Ty) (seen : List String),
    Declares OnlyTyped (Pattern.entryNames entries) (bindEntries entries ty seen)
  | [], _, seen => .pure seen
  | (_, p) :: rest, ty, seen =>
    .bind (bindPattern_declares p ty seen) fun seen => bindEntries_declares rest ty seen
termination_by structural entries => entries

end

theorem declareParams_declares (params : List Param) :
    Declares OnlyTyped (params.map Param.name) (declareParams params) := by
  induction params with
  | nil => exact .pure _
  | cons p rest ih =>
    have hrest : ∀ ty, Declares OnlyTyped (p.name :: rest.map Param.name) (do
        if !(← declare p.name (.ofTy ty)) then report (.parameterTwice p.name) p.span
        let more ← declareParams rest
        return ty :: more) := by
      intro ty
      refine declares_new p.name (onlyTyped_ofTy _) _ _ (f := fun _ => do
        let more ← declareParams rest
        return ty :: more) ?_
      exact .before ih fun _ => .pure _
    unfold declareParams
    dsimp only
    split
    · exact .after (resolveType_adds _) hrest
    · exact .after (.pure _) hrest

theorem declareLet_declares (pattern : Pattern) (written : Option TypeExpr) (value : Expr)
    (valueTy : Ty) :
    Declares (fun _ => True) pattern.names (declareLet pattern written value valueTy) := by
  have hname : ∀ name span ty, Declares (fun _ => True) [name] (do
      let constant ← constantOf value
      let unbounded := isUnbounded (← get).scopes value
      if !(← declare name ⟨ty, constant, unbounded⟩) then report (.definedTwice name) span) := by
    intro name span ty
    refine .after (constantOf_adds _) fun _ => .get_bind (fun _ _ => rfl) fun _ => ?_
    refine declares_declare name trivial (.pure ()) ?_
    exact .report _ _ (f := fun _ => Pure.pure ()) (.pure ())
  have hpattern : ∀ p ty, Declares (fun _ => True) p.names (do let _ ← bindPattern p ty []) :=
    fun _ _ => .before ((bindPattern_declares _ _ _).weaken fun _ _ => trivial) fun _ => .pure ()
  unfold declareLet
  dsimp only
  split
  · refine .after (resolveType_adds _) fun _ => .after (expectType_adds _ _ _ _) fun _ => ?_
    refine .after (.pure _) fun ty => ?_
    cases pattern with
    | bind span name => exact hname name span ty
    | _ => exact hpattern _ ty
  · refine .after (.pure _) fun ty => ?_
    cases pattern with
    | bind span name => exact hname name span ty
    | _ => exact hpattern _ ty

-- expressions

/-- In a scope inside the module the computation leaves that scope, having declared names there. -/
def Leaves (x : CheckM α) : Prop :=
  ∀ s, s.scopes.locals ≠ [] → ∃ new, ResultsIn x s s.scopes.exit new

theorem Leaves.exit {f : PUnit → CheckM α} (hf : Adds (f ())) : Leaves (exitScope >>= f) := by
  intro s _
  obtain ⟨new, hend⟩ := hf { s with scopes := s.scopes.exit }
  exact ⟨new, hend⟩

theorem Leaves.bind {x : CheckM α} {f : α → CheckM β} (hx : Declares ok names x)
    (hf : ∀ a, Leaves (f a)) : Leaves (x >>= f) := by
  intro s hs
  obtain ⟨scope, new, hmid, -⟩ := hx s
  have hscopes : (x s).2.scopes = s.scopes.withInnermost scope := by rw [hmid.state]
  obtain ⟨more, hend⟩ := hf (x s).1 (x s).2 (by
    rw [hscopes]
    exact Scopes.locals_withInnermost_ne_nil hs scope)
  rw [hscopes, Scopes.exit_withInnermost hs] at hend
  exact ⟨_, hmid.bind hend⟩

/-- Whether a name is new does not matter in a scope that is left. -/
theorem Leaves.declare (name : String) (b : Binding) {f : Bool → CheckM α}
    (hf : ∀ declared, Leaves (f declared)) : Leaves (declare name b >>= f) := by
  intro s hs
  have hscopes : ∃ scope, (Check.declare name b s).2.scopes = s.scopes.withInnermost scope := by
    rw [declare_apply, Scopes.declare?_eq]
    cases Keyed.contains name s.scopes.innermost with
    | true => exact ⟨_, s.scopes.withInnermost_innermost.symm⟩
    | false => exact ⟨_, rfl⟩
  obtain ⟨scope, hscopes⟩ := hscopes
  obtain ⟨new, hend⟩ := hf (Check.declare name b s).1 (Check.declare name b s).2 (by
    rw [hscopes]
    exact Scopes.locals_withInnermost_ne_nil hs scope)
  rw [hscopes, Scopes.exit_withInnermost hs] at hend
  exact ⟨_, (declare_resultsIn name b s).bind hend⟩

theorem Leaves.after {x : CheckM α} {f : α → CheckM β} (hx : Adds x) (hf : ∀ a, Leaves (f a)) :
    Leaves (x >>= f) :=
  have hdeclares : Declares (fun _ => True) [] x := hx.declares
  .bind hdeclares hf

theorem Adds.enter {f : PUnit → CheckM α} (hf : Leaves (f ())) : Adds (enterScope >>= f) := by
  intro s
  obtain ⟨new, hend⟩ := hf { s with scopes := s.scopes.enter } (List.cons_ne_nil _ _)
  exact ⟨new, hend⟩

mutual

/-- An expression leaves the scopes as they were. -/
theorem infer_adds (body : Body) : ∀ e : Expr, Adds (infer body e)
  | .literal _ _ => .pure _
  | .name _ name => nameType_adds name
  | .list _ items => .bind (inferAll_adds body items) fun _ => .pure _
  | .tuple _ items => .bind (inferAll_adds body items) fun _ => .pure _
  | .map _ entries => .bind (inferEntries_adds body entries) fun _ => .pure _
  | .record _ name fields => by
    rw [infer]
    refine .bind (recordSchema?_adds name) fun schema => ?_
    cases schema with
    | none => exact .bind (inferFields_adds body name none fields) fun _ => .reported _ _ _
    | some schema =>
      refine .bind (expectDistinct_adds fields []) fun _ => ?_
      exact .bind (inferFields_adds body name _ fields) fun _ =>
        .bind (expectComplete_adds _ _ _ _) fun _ => .pure _
  | .variant _ _ _ args =>
    .bind (inferAll_adds body args) fun _ => variantType_adds _ _ _ _ _
  | .update _ target fields => by
    rw [infer]
    refine .bind (infer_adds body target) fun ty => ?_
    split
    · exact .bind (recordSchema?_adds _) fun _ =>
        .bind (inferFields_adds body _ _ fields) fun _ => .pure _
    · exact .bind (inferFieldValues_adds body fields) fun _ => .pure _
    · exact .bind (inferFieldValues_adds body fields) fun _ => .pure _
    · exact .reported _ _ _
  | .select _ target _ => .bind (infer_adds body target) fun _ => selectType_adds _ _ _
  | .index _ target i =>
    .bind (infer_adds body target) fun _ => .bind (infer_adds body i) fun _ =>
      indexType_adds _ _ _ _
  | .call span callee args => by
    have hargs := inferAll_adds body args
    have hfunction : Adds (do
        let ty ← infer body callee
        let tys ← inferAll body args
        apply ty tys args span) :=
      .bind (infer_adds body callee) fun _ => .bind hargs fun _ => apply_adds _ _ _ _
    have hbuiltin : ∀ b, Adds (do
        let tys ← inferAll body args
        applyBuiltin b tys args span) :=
      fun _ => .bind hargs fun _ => applyBuiltin_adds _ _ _ _
    cases callee with
    | name _ n =>
      rw [infer]
      refine .bind (lookup?_adds n) fun found => ?_
      cases found with
      | some b => exact hfunction
      | none => cases Builtin.ofName? n with
        | some b => exact hbuiltin b
        | none => exact hfunction
    | _ => exact hfunction
  | .method _ receiver _ args =>
    .bind (infer_adds body receiver) fun _ => .bind (inferAll_adds body args) fun _ =>
      methodType_adds _ _ _ _ _ _
  | .binary _ _ lhs rhs =>
    .bind (infer_adds body lhs) fun _ => .bind (infer_adds body rhs) fun _ =>
      binaryType_adds _ _ _ _ _ _
  | .unary _ _ operand => .bind (infer_adds body operand) fun _ => unaryType_adds _ _ _
  | .branch _ test whenTrue none =>
    .bind (infer_adds body test) fun _ => .bind (expectOperand_adds _ _ _ _) fun _ =>
      .bind (infer_adds body whenTrue) fun _ => .pure _
  | .branch _ test whenTrue (some whenFalse) =>
    .bind (infer_adds body test) fun _ => .bind (expectOperand_adds _ _ _ _) fun _ =>
      .bind (infer_adds body whenTrue) fun _ => .bind (infer_adds body whenFalse) fun _ => .pure _
  | .cases _ scrutinee arms =>
    .bind (infer_adds body scrutinee) fun ty => .reportIf _ _ <|
      .bind (inferArms_adds body ty arms) fun _ => .pure _
  | .block _ stmts none =>
    .enter <| .bind (inferStmts_declares body stmts) fun _ =>
      .after (.pure _) fun _ => .exit <| .pure _
  | .block _ stmts (some tail) =>
    .enter <| .bind (inferStmts_declares body stmts) fun _ =>
      .after (infer_adds body tail) fun _ => .exit <| .pure _
  | .closure _ decl => inferFunction_adds decl
  | .async _ inner => .bind (infer_adds ⟨true, false⟩ inner) fun _ => .pure _
  | .await span future => by
    have hinner : Adds (do
        let ty ← infer body future
        awaitedType ty span) :=
      .bind (infer_adds body future) fun _ => awaitedType_adds _ _
    rw [infer]
    dsimp only
    split
    · exact .bind (.report _ _) fun _ => hinner
    · exact .reportIf _ _ hinner
  | .attempt _ inner => .bind (infer_adds body inner) fun _ => attemptedType_adds _ _
termination_by structural e => e

theorem inferAll_adds (body : Body) : ∀ es : List Expr, Adds (inferAll body es)
  | [] => .pure _
  | e :: rest =>
    .bind (infer_adds body e) fun _ => .bind (inferAll_adds body rest) fun _ => .pure _
termination_by structural es => es

theorem inferEntries_adds (body : Body) :
    ∀ entries : List (String × Expr), Adds (inferEntries body entries)
  | [] => .pure _
  | (_, e) :: rest =>
    .bind (infer_adds body e) fun _ => .bind (inferEntries_adds body rest) fun _ => .pure _
termination_by structural entries => entries

theorem inferFieldValues_adds (body : Body) :
    ∀ fields : List FieldInit, Adds (inferFieldValues body fields)
  | [] => .pure _
  | ⟨_, _, e⟩ :: rest =>
    .bind (infer_adds body e) fun _ => .bind (inferFieldValues_adds body rest) fun _ => .pure _
termination_by structural fields => fields

theorem inferFields_adds (body : Body) (record : String) (schema : Option RecordSchema) :
    ∀ fields : List FieldInit, Adds (inferFields body record schema fields)
  | [] => .pure _
  | ⟨name, span, e⟩ :: rest => by
    have hrest := inferFields_adds body record schema rest
    rw [inferFields]
    refine .bind (infer_adds body e) fun ty => ?_
    dsimp only
    split
    · exact hrest
    · split
      · exact .bind (expectType_adds _ _ _ _) fun _ => hrest
      · exact .bind (.report _ _) fun _ => hrest
termination_by structural fields => fields

theorem inferArms_adds (body : Body) (scrutinee : Ty) :
    ∀ arms : List MatchArm, Adds (inferArms body scrutinee arms)
  | [] => .pure _
  | ⟨_, _, none, e⟩ :: rest =>
    .enter <| .bind (bindPattern_declares _ _ _) fun _ => .after (infer_adds body e) fun _ =>
      .exit <| .bind (inferArms_adds body scrutinee rest) fun _ => .pure _
  | ⟨_, _, some guard, e⟩ :: rest =>
    .enter <| .bind (bindPattern_declares _ _ _) fun _ =>
      .after (infer_adds { body with inGuard := true } guard) fun _ =>
        .after (expectOperand_adds _ _ _ _) fun _ => .after (infer_adds body e) fun _ =>
          .exit <| .bind (inferArms_adds body scrutinee rest) fun _ => .pure _
termination_by structural arms => arms

theorem inferStmts_declares (body : Body) :
    ∀ stmts : List Stmt,
      Declares (fun _ => True) (stmts.flatMap Purity.stmtNames) (inferStmts body stmts)
  | [] => .pure _
  | .bind _ pattern written value :: rest =>
    .after (infer_adds body value) fun _ => .bind (declareLet_declares pattern written value _) fun _ =>
      inferStmts_declares body rest
  | .expr e :: rest => .after (infer_adds body e) fun _ => inferStmts_declares body rest
termination_by structural stmts => stmts

/-- The scope of a function is gone at its end. -/
theorem inferFunction_adds : ∀ d : FunctionDecl, Adds (inferFunction d)
  | ⟨_, params, _, e, isAsync, _⟩ =>
    .enter <| .bind (declareParams_declares params) fun _ =>
      .after (infer_adds ⟨isAsync, false⟩ e) fun _ => .after (expectReturn_adds _ _ _) fun _ =>
        .exit <| .pure _
termination_by structural d => d

end

-- modules

/-- The imports that are declared: those of functions and values. -/
def valueImports (imports : List ResolvedImport) : List ResolvedImport :=
  imports.filter fun i => !i.kind.isType

theorem declareImports_declares (exports : Exports) : ∀ (imports : List ResolvedImport)
    (globals : Globals), Declares (fun _ => True) ((valueImports imports).map ResolvedImport.localName)
      (declareImports exports imports globals)
  | [], globals => .pure globals
  | i :: rest, globals => by
    have hrest := declareImports_declares exports rest
    unfold declareImports
    dsimp only
    split
    case isTrue htype =>
      rw [valueImports, List.filter_cons_of_neg (by simp [htype])]
      exact hrest globals
    case isFalse hvalue =>
      rw [valueImports, List.filter_cons_of_pos (by simp [hvalue])]
      exact declares_new i.localName trivial _ _ (f := fun _ => declareImports exports rest _) (hrest _)

theorem resolveAllQuietly_adds (params : List Param) : Adds (resolveAllQuietly params) := by
  induction params with
  | nil => exact .pure _
  | cons p rest ih =>
    exact .bind (resolveQuietly_adds p.ty) fun _ => .bind ih fun _ => .pure _

theorem signature_adds (d : FunctionDecl) : Adds (signature d) :=
  .bind (resolveAllQuietly_adds d.params) fun _ =>
    .bind (resolveQuietly_adds d.ret) fun _ => .pure _

theorem declareFunctions_declares (module : String) : ∀ (decls : List FunctionDecl)
    (globals : Globals),
    Declares OnlyTyped (decls.map FunctionDecl.displayName) (declareFunctions module decls globals)
  | [], globals => .pure globals
  | d :: rest, _ =>
    .after (signature_adds d) fun _ =>
      declares_new d.displayName (onlyTyped_ofTy _) _ _
        (f := fun _ => declareFunctions module rest _)
        (declareFunctions_declares module rest _)

end Check

end StreamLang
