import StreamLang.Proofs.Unreachable.Stream

/-! Evaluation is secure. Code in which nothing waits meets no internal fault among values that fit,
and neither does the call of a function that fits. -/

namespace StreamLang

variable {γ : Type}

/-- Evaluation and calls of one step less are secure. -/
structure Recur.Secure (r r' : Recur γ) : Prop where
  fuel : r'.fuel = r.fuel
  eval : ∀ {n e} {env : Env}, e.Placed false → AllFit n env.values →
    Run.Secure n Value.Fits (r.eval e env) (r'.eval e env)
  call : r.call.Secure r'.call

namespace Run

variable {n : Nat}

theorem truth_secure (what : Condition) (v : Value) :
    Secure n Anything (truth (γ := γ) what v) (truth what v) := by
  cases v with
  | bool b => exact .pure fun _ _ => trivial
  | _ => exact .fail rfl

theorem attempt_secure {v : Value} (hv : v.Fits n) (line : Nat) :
    Secure n Value.Fits (attempt (γ := γ) v line) (attempt v line) := by
  cases v with
  | ok inner => exact .pure fun _ hm => (Value.every_ok.1 hv).mono hm
  | option inner => cases inner with
    | some inner => exact .pure fun _ hm => (Value.every_option.1 hv inner rfl).mono hm
    | none => exact .throw fun _ hm => Value.Every.mono hv hm
  | err error => exact .throw fun _ hm => Value.Every.mono hv hm
  | _ => exact .fail rfl

end Run

namespace Recur.Secure

variable {r r' : Recur γ} {n : Nat}

-- refinements

theorem checkPredicate (h : r.Secure r') (name : String) {v : Value} (hv : v.Fits n) (line : Nat) :
    Run.Secure n Run.Anything (r.checkPredicate name v line) (r'.checkPredicate name v line) := by
  refine .get_bind fun s hs => ?_
  dsimp only
  cases hp : (s.schemas.typeAlias? name).bind AliasSchema.predicate with
  | none => exact .pure fun _ _ => trivial
  | some predicate =>
    obtain ⟨a, ha, hpredicate⟩ := Option.bind_eq_some_iff.1 hp
    have hcode := hs.sound.predicates.predicate ha hpredicate
    have hbound : AllFit s.width (Env.empty.bind "value" v).values :=
      AllEvery.one (hv.mono hs.width)
    refine .bind (.located (h.eval hcode hbound) line) fun _ _ w _ => ?_
    cases w with
    | bool b => cases b with
      | true => exact .pure fun _ _ => trivial
      | false => exact .failAt rfl line
    | _ => exact .failAt rfl line

mutual

theorem checkRefinements (h : r.Secure r') (line : Nat) (ty : Ty) (n : Nat) (v : Value)
    (hv : v.Fits n) :
    Run.Secure n Run.Anything (r.checkRefinements line ty v) (r'.checkRefinements line ty v) := by
  cases ty with
  | refined name base =>
    rw [Recur.checkRefinements, Recur.checkRefinements]
    exact .bind (h.checkPredicate name hv line) fun m hm _ _ =>
      h.checkRefinements line base m v (hv.mono hm)
  | list elem =>
    cases v with
    | list items =>
      exact .forM fun w hw => h.checkRefinements line elem n w (Value.every_list.1 hv w hw)
    | set items =>
      exact .forM fun w hw => h.checkRefinements line elem n w (Value.every_set.1 hv w hw)
    | _ => exact .pure fun _ _ => trivial
  | set elem =>
    cases v with
    | list items =>
      exact .forM fun w hw => h.checkRefinements line elem n w (Value.every_list.1 hv w hw)
    | set items =>
      exact .forM fun w hw => h.checkRefinements line elem n w (Value.every_set.1 hv w hw)
    | _ => exact .pure fun _ _ => trivial
  | option inner =>
    cases v with
    | option w => cases w with
      | none => exact .pure fun _ _ => trivial
      | some w => exact h.checkRefinements line inner n w (Value.every_option.1 hv w rfl)
    | _ => exact .pure fun _ _ => trivial
  | tuple tys =>
    cases v with
    | tuple items => exact h.checkItems line tys n items (Value.every_tuple.1 hv)
    | _ => exact .pure fun _ _ => trivial
  | _ => exact .pure fun _ _ => trivial
termination_by structural ty

theorem checkItems (h : r.Secure r') (line : Nat) (tys : List Ty) (n : Nat) (vs : List Value)
    (hvs : AllFit n vs) :
    Run.Secure n Run.Anything (r.checkItems line tys vs) (r'.checkItems line tys vs) := by
  cases tys with
  | nil => exact .pure fun _ _ => trivial
  | cons ty tys => cases vs with
    | nil => exact .pure fun _ _ => trivial
    | cons v vs =>
      obtain ⟨hv, hrest⟩ := List.forall_mem_cons.1 hvs
      rw [Recur.checkItems, Recur.checkItems]
      exact .bind (h.checkRefinements line ty n v hv) fun m hm _ _ =>
        h.checkItems line tys m vs (AllEvery.mono hrest hm)
termination_by structural tys

end

variable (h : r.Secure r')
include h

theorem checkOptional (ty : Option TypeExpr) {v : Value} (hv : v.Fits n) (line : Nat) :
    Run.Secure n Run.Anything (r.checkOptional ty v line) (r'.checkOptional ty v line) := by
  cases ty with
  | none => exact .pure fun _ _ => trivial
  | some ty =>
    refine .get_bind fun s hs => ?_
    cases s.schemas.resolve ty with
    | error fault => exact .failAt rfl line
    | ok ty => exact h.checkRefinements line ty _ v (hv.mono hs.width)

-- records

theorem declaredFields (name : String) {given : List (FieldInit × Value)}
    (hgiven : ∀ g ∈ given, g.2.Fits n) (fields : List (String × Ty)) :
    Run.Secure n EntriesFit (r.declaredFields name given fields)
      (r'.declaredFields name given fields) := by
  induction fields generalizing n with
  | nil => exact .pure fun _ _ => List.forall_mem_nil _
  | cons field rest ih =>
    rw [Recur.declaredFields, Recur.declaredFields]
    cases hg : given.find? (·.1.name == field.1) with
    | none => exact .fail rfl
    | some g =>
      have hfits := hgiven g (List.mem_of_find?_eq_some hg)
      refine .bind (h.checkRefinements _ _ _ _ hfits) fun m hm _ _ => ?_
      refine .bind (ih fun g hg => (hgiven g hg).mono hm) fun k hk fields hfields => ?_
      refine .pure fun l hl => List.forall_mem_cons.2 ⟨?_, hfields.mono hl⟩
      exact hfits.mono (Nat.le_trans hm (Nat.le_trans hk hl))

theorem buildRecord (name : String) {given : List (FieldInit × Value)}
    (hgiven : ∀ g ∈ given, g.2.Fits n) :
    Run.Secure n Value.Fits (r.buildRecord name given) (r'.buildRecord name given) := by
  refine .get_bind fun s hs => ?_
  cases s.schemas.record? name with
  | none => exact .fail rfl
  | some schema =>
    refine .bind (h.declaredFields name (fun g hg => (hgiven g hg).mono hs.width) schema.fields)
      fun _ _ fields hfields => ?_
    split
    · exact .fail rfl
    · exact .pure fun _ hm => Value.every_record.2 ⟨trivial, hfields.mono hm⟩

theorem updateFields (name : String) {updates : List (FieldInit × Value)}
    (hupdates : ∀ u ∈ updates, u.2.Fits n) {fields : List (String × Value)}
    (hfields : EntriesFit n fields) :
    Run.Secure n EntriesFit (r.updateFields name updates fields)
      (r'.updateFields name updates fields) := by
  induction updates generalizing n fields with
  | nil => exact .pure fun _ hm => hfields.mono hm
  | cons u rest ih =>
    obtain ⟨hu, hrest⟩ := List.forall_mem_cons.1 hupdates
    have hset := setField_every u.1.name hu hfields
    have hgo : ∀ m, n ≤ m → Run.Secure m EntriesFit
        (r.updateFields name rest (setField u.1.name u.2 fields))
        (r'.updateFields name rest (setField u.1.name u.2 fields)) :=
      fun m hm => ih (fun w hw => (hrest w hw).mono hm) (hset.mono hm)
    rw [Recur.updateFields, Recur.updateFields]
    split
    · exact .fail rfl
    · refine .get_bind fun s hs => ?_
      cases (s.schemas.record? name).bind (·.field? u.1.name) with
      | none => exact hgo _ hs.width
      | some ty =>
        exact .bind (h.checkRefinements _ ty _ _ (hu.mono hs.width)) fun m hm _ _ =>
          hgo m (Nat.le_trans hs.width hm)

theorem update {target : Value} (htarget : target.Fits n) {updates : List (FieldInit × Value)}
    (hupdates : ∀ u ∈ updates, u.2.Fits n) :
    Run.Secure n Value.Fits (r.update target updates) (r'.update target updates) := by
  cases target with
  | record name fields =>
    exact .bind (h.updateFields name hupdates (Value.every_record.1 htarget).2)
      fun _ _ fields hfields => .pure fun _ hm => Value.every_record.2 ⟨trivial, hfields.mono hm⟩
  | map entries =>
    have hentries := foldl_insert_every hupdates (Value.every_map.1 htarget)
    exact .pure fun _ hm => Value.every_map.2 (EntriesEvery.mono hentries hm)
  | _ => exact .fail rfl

-- sequences

theorem callOne {f v : Value} (hf : f.Fits n) (hv : v.Fits n) :
    Run.Secure n Value.Fits (r.call f [v]) (r'.call f [v]) :=
  h.call hf (AllEvery.one hv)

theorem passes {f v : Value} (hf : f.Fits n) (hv : v.Fits n) :
    Run.Secure n Run.Anything (r.passes f v) (r'.passes f v) := by
  refine .bind (h.callOne hf hv) fun _ _ verdict _ => ?_
  cases verdict with
  | bool b => exact .pure fun _ _ => trivial
  | _ => exact .fail rfl

theorem drain (terminal : String) {p : Pipeline} (hp : AllFit n p.values) :
    Run.Secure n AllFit (p.drain r.call r.fuel terminal) (p.drain r'.call r'.fuel terminal) := by
  rw [h.fuel]
  exact p.drain_secure h.call r.fuel terminal hp

theorem spread {f v : Value} (hf : f.Fits n) (hv : v.Fits n) :
    Run.Secure n AllFit (r.spread f v) (r'.spread f v) := by
  refine .bind (h.callOne hf hv) fun _ _ w hw => ?_
  cases w with
  | list items => exact .pure fun _ hm => AllEvery.mono (Value.every_list.1 hw) hm
  | set items => exact .pure fun _ hm => AllEvery.mono (Value.every_set.1 hw) hm
  | stream identity p => exact h.drain _ (Value.every_stream.1 hw)
  | _ => exact .fail rfl

theorem foldStream {β : Type} {P : Nat → β → Prop} (hP : Run.Growing P) (terminal : String)
    {p : Pipeline} (hp : AllFit n p.values) {step step' : β → Value → Run γ β}
    (hstep : ∀ m, n ≤ m → ∀ acc v, P m acc → v.Fits m →
      Run.Secure m P (step acc v) (step' acc v)) {start : β} (hstart : P n start) :
    Run.Secure n P (r.foldStream terminal p step start) (r'.foldStream terminal p step' start) := by
  unfold Recur.foldStream
  rw [h.fuel]
  refine .bind (.ofExcept (fun _ hm => p.boundedCursor_every (hp.mono hm) terminal)
    (p.boundedCursor_mild terminal)) fun m hm c hc => ?_
  exact Cursor.fold_secure h.call hP hstep r.fuel hm hc (hP.mono hm hstart)

omit h in
theorem countOf (op : SequenceOp) (v : Value) :
    Run.Secure n Run.Anything (Recur.countOf (γ := γ) op v) (Recur.countOf op v) :=
  .ofExcept (fun _ _ => .of_true _) (Argument.count_mild _ v)

/-- As many arguments as the builtin takes, with the sequence before them. -/
theorem onItems : ∀ (op : SequenceOp) {items args : List Value}, args.length + 1 = op.arity →
    AllFit n items → AllFit n args →
    Run.Secure n Value.Fits (r.onItems op items args) (r'.onItems op items args)
  | .map, items, [f], _, hitems, hargs => by
    have hf := hargs f (.head _)
    exact .bind (.mapM Run.growing_fits fun v hv => h.callOne hf (hitems v hv))
      fun _ _ vs hvs => .pure fun _ hm => Value.every_list.2 (AllEvery.mono hvs.2 hm)
  | .filter, items, [f], _, hitems, hargs => by
    have hf := hargs f (.head _)
    refine .bind (.foldlM Run.growing_allFit
      (fun m hm kept hkept v hv => ?_) AllEvery.nil) fun _ _ kept hkept =>
        .pure fun _ hm => Value.every_list.2 (hkept.reverse.mono hm)
    have hv := (hitems v hv).mono hm
    refine .bind (h.passes (hf.mono hm) hv) fun _ hk b _ => .pure fun _ hl => ?_
    split
    · exact AllEvery.mono (.cons hv hkept) (Nat.le_trans hk hl)
    · exact hkept.mono (Nat.le_trans hk hl)
  | .flatMap, items, [f], _, hitems, hargs => by
    have hf := hargs f (.head _)
    refine .bind (.mapM Run.growing_allFit fun v hv => h.spread hf (hitems v hv))
      fun _ _ parts hparts => .pure fun _ hm => Value.every_list.2 fun v hv => ?_
    obtain ⟨part, hpart, hmem⟩ := List.mem_flatten.1 hv
    exact (hparts.2 part hpart v hmem).mono hm
  | .take, items, [size], _, hitems, _ => by
    refine .bind (countOf .take size) fun _ hm count _ => .pure fun _ hk => Value.every_list.2 ?_
    exact fun v hv => (hitems v (List.mem_of_mem_take hv)).mono (Nat.le_trans hm hk)
  | .skip, items, [size], _, hitems, _ => by
    refine .bind (countOf .skip size) fun _ hm count _ => .pure fun _ hk => Value.every_list.2 ?_
    exact fun v hv => (hitems v (List.mem_of_mem_drop hv)).mono (Nat.le_trans hm hk)
  | .reduce, items, [start, f], _, hitems, hargs => by
    have hf := hargs f (.tail _ (.head _))
    refine .foldlM Run.growing_fits (fun m hm acc hacc v hv => ?_)
      (hargs start (.head _))
    exact h.call (hf.mono hm) (.cons hacc (.one ((hitems v hv).mono hm)))
  | .collect, items, [], _, hitems, _ =>
    .pure fun _ hm => Value.every_list.2 (hitems.mono hm)
  | .chunk, items, [size], _, hitems, _ => by
    refine .bind (countOf .chunk size) fun _ hm count _ => ?_
    split
    · exact .fail rfl
    · exact .pure fun _ hk => Value.every_list.2
        (AllEvery.mono (Value.chunks_every count hitems) (Nat.le_trans hm hk))
  | .count, items, [], _, _, _ => .pure fun _ _ => Value.every_int _
  | .first, items, [], _, hitems, _ =>
    .pure fun _ hm => Value.every_option.2 fun v hv => (hitems v (List.mem_of_head? hv)).mono hm
  | .forEach, items, [f], _, hitems, hargs => by
    have hf := hargs f (.head _)
    refine .bind (.forM fun v hv => ?_) fun _ _ _ _ => .pure fun _ _ => Value.every_void
    exact .bind (h.callOne hf (hitems v hv)) fun _ _ _ _ => .pure fun _ _ => trivial
  | .sum, items, [], _, _, _ => .ofExcept (fun _ _ => Value.sum_every items) (Value.sum_mild items)

omit h in
theorem withStage {p : Pipeline} {stage : Stage} (hp : AllFit n p.values)
    (hstage : AllFit n stage.values) :
    Run.Secure n Value.Fits (Run.newStream (γ := γ) (p.withStage stage))
      (Run.newStream (p.withStage stage)) :=
  Run.newStream_secure (Pipeline.withStage_every hp hstage)

theorem onStream (op : SequenceOp) {p : Pipeline} {args : List Value}
    (hlen : args.length + 1 = op.arity) (hp : AllFit n p.values) (hargs : AllFit n args) :
    Run.Secure n Value.Fits (r.onStream op p args) (r'.onStream op p args) := by
  have hdrained : Run.Secure n Value.Fits
      (do r.onItems op (← p.drain r.call r.fuel op.name) args)
      (do r'.onItems op (← p.drain r'.call r'.fuel op.name) args) :=
    .bind (h.drain op.name hp) fun _ hm items hitems => h.onItems op hlen hitems (hargs.mono hm)
  unfold Recur.onStream
  split
  · exact withStage hp hargs
  · exact withStage hp hargs
  · exact withStage hp hargs
  · exact .bind (countOf _ _) fun _ hm _ _ => withStage (hp.mono hm) AllEvery.nil
  · exact .bind (countOf _ _) fun _ hm _ _ => withStage (hp.mono hm) AllEvery.nil
  · rw [h.fuel]
    refine .bind (Cursor.pull_secure h.call r.fuel (p.cursor_every hp none)) fun _ _ pulled hp => ?_
    exact .pure fun _ hm => Value.every_option.2 fun v hv => (hp.1 v hv).mono hm
  · have hf := hargs _ (.tail _ (.head _))
    refine h.foldStream Run.growing_fits _ hp (fun m hm acc v hacc hv => ?_) (hargs _ (.head _))
    exact h.call (hf.mono hm) (.cons hacc (.one hv))
  · have hf := hargs _ (.head _)
    refine .bind (h.foldStream Run.growing_anything _ hp (fun m hm _ v _ hv => ?_) trivial)
      fun _ _ _ _ => .pure fun _ _ => Value.every_void
    exact .bind (h.callOne (hf.mono hm) hv) fun _ _ _ _ => .pure fun _ _ => trivial
  · refine .bind (h.foldStream Run.growing_anything _ hp (fun _ _ _ _ _ _ => ?_) trivial)
      fun _ _ _ _ => .pure fun _ _ => Value.every_int _
    exact .pure fun _ _ => trivial
  · exact hdrained

theorem onSequence (op : SequenceOp) {args : List Value} (hlen : args.length = op.arity)
    (hargs : AllFit n args) :
    Run.Secure n Value.Fits (r.onSequence op args) (r'.onSequence op args) := by
  unfold Recur.onSequence
  split
  · obtain ⟨hself, hrest⟩ := List.forall_mem_cons.1 hargs
    exact h.onItems op hlen (Value.every_list.1 hself) hrest
  · obtain ⟨hself, hrest⟩ := List.forall_mem_cons.1 hargs
    exact h.onItems op hlen (Value.every_set.1 hself) hrest
  · obtain ⟨hself, hrest⟩ := List.forall_mem_cons.1 hargs
    exact h.onStream op hlen (Value.every_stream.1 hself) hrest
  · exact .ofExcept (fun _ _ => .error _) (Argument.bad_mild _ _ _)
  · cases op <;> cases hlen

-- calls

theorem writeLog {args : List Value} (hargs : AllFit n args) :
    Run.Secure n Value.Fits (r.writeLog args) (r'.writeLog args) := by
  unfold Recur.writeLog
  split
  · have hp := Value.every_stream.1 (hargs _ (.head _))
    exact .bind (h.foldStream Run.growing_anything _ hp
      (fun _ _ _ v _ _ => Run.writeLog_secure v.render) trivial)
      fun _ _ _ _ => .pure fun _ _ => Value.every_void
  · exact .bind (Run.writeLog_secure _) fun _ _ _ _ => .pure fun _ _ => Value.every_void

theorem requestArgs (op : ServiceOp) {args : List Value} (hargs : AllFit n args) :
    Run.Secure n Run.Anything (r.requestArgs op args) (r'.requestArgs op args) := by
  refine (Run.Secure.mapM Run.growing_anything fun v hv => ?_).weaken fun _ _ _ _ => trivial
  cases v with
  | stream identity p =>
    exact .bind (h.drain _ (Value.every_stream.1 (hargs _ hv))) fun _ _ _ _ =>
      .pure fun _ _ => trivial
  | _ => exact .pure fun _ _ => trivial

theorem callService [Gateway γ] (op : ServiceOp) {args : List Value} (hargs : AllFit n args) :
    Run.Secure n Value.Fits (r.callService op args) (r'.callService op args) := by
  refine .bind (h.requestArgs op hargs) fun _ _ documents _ => ?_
  exact .bind (Run.dispatch_secure op documents) fun _ _ id hid =>
    .pure fun _ hm => Value.every_future.2 (Nat.lt_of_lt_of_le hid hm)

omit h in
/-- A future that an argument is, is one of the futures there are. -/
theorem futureOf (op : FutureOp) {v : Value} (hv : v.Fits n) :
    Run.Secure n Run.Known (Run.futureOf (γ := γ) op v) (Run.futureOf op v) := by
  refine .ofExcept (fun m hm => ?_) (Argument.future_mild _ v)
  cases v with
  | future id => exact .ok (Nat.lt_of_lt_of_le (Value.every_future.1 hv) hm)
  | _ => exact .error _

omit h in
theorem futures_all {b : Builtin} {vs : List Value} (hvs : AllFit n vs) :
    Except.All (fun ids => ∀ id ∈ ids, id < n) (Argument.futures b vs) := by
  induction vs with
  | nil => exact .ok (List.forall_mem_nil _)
  | cons v rest ih =>
    obtain ⟨hv, hrest⟩ := List.forall_mem_cons.1 hvs
    cases v with
    | future id =>
      refine .bind (P := fun id => id < n) (.ok (Value.every_future.1 hv)) fun id hid => ?_
      exact .bind (ih hrest) fun ids hids => .ok (List.forall_mem_cons.2 ⟨hid, hids⟩)
    | _ => exact .error _

omit h in
theorem spawned {c : Combinator} (hc : c.Fits n) :
    Run.Secure n Value.Fits (do return Value.future (← Run.spawnCombinator (γ := γ) c))
      (do return Value.future (← Run.spawnCombinator c)) :=
  .bind (Run.spawnCombinator_secure hc) fun _ _ _ hid =>
    .pure fun _ hm => Value.every_future.2 (Nat.lt_of_lt_of_le hid hm)

omit h in
theorem onFutures : ∀ (op : FutureOp) {args : List Value}, args.length = op.arity →
    AllFit n args →
    Run.Secure n Value.Fits (Run.onFutures (γ := γ) op args) (Run.onFutures op args)
  | .onError, [source, handler], _, hargs => .bind (futureOf _ (hargs source (.head _)))
      fun _ hm id hid => spawned (c := .onError id handler)
        ⟨hid, (hargs handler (.tail _ (.head _))).mono hm⟩
  | .onComplete, [source, handler], _, hargs => .bind (futureOf _ (hargs source (.head _)))
      fun _ hm id hid => spawned (c := .onComplete id handler)
        ⟨hid, (hargs handler (.tail _ (.head _))).mono hm⟩
  | .andThen, [source, handler], _, hargs => .bind (futureOf _ (hargs source (.head _)))
      fun _ hm id hid => spawned (c := .andThen id handler)
        ⟨hid, (hargs handler (.tail _ (.head _))).mono hm⟩
  | .all, [l], _, hargs => by
    refine .bind (.ofExcept (fun _ hm => Argument.list_every _ ((hargs l (.head _)).mono hm))
      (Argument.list_mild _ l)) fun m _ items hitems => ?_
    refine .bind (.ofExcept (P := fun m ids => ∀ id ∈ ids, id < m)
      (fun _ hm => futures_all (hitems.mono hm)) (Argument.futures_mild _ items))
      fun _ _ ids hids => ?_
    exact spawned (c := .all ids []) ⟨hids, AllEvery.nil⟩
  | .resolved, [v], _, hargs => Run.settledFuture_secure (.resolved v) (hargs v (.head _))
  | .failed, [v], _, hargs => .get_bind fun s hs =>
      Run.settledFuture_secure (.failed ⟨v, s.line⟩) ((hargs v (.head _)).mono hs.width)
  | .state, [f], _, hargs => by
    refine .bind (futureOf _ (hargs f (.head _))) fun _ _ id hid => ?_
    refine .bind (Run.futureState?_secure hid) fun _ _ found hfound => ?_
    obtain ⟨state, rfl, -⟩ := hfound
    exact .pure fun _ _ => Value.every_text _

theorem callBuiltin [Gateway γ] (b : Builtin) {args : List Value}
    (harity : b.arity.accepts args.length = true) (hargs : AllFit n args) :
    Run.Secure n Value.Fits (r.callBuiltin b args) (r'.callBuiltin b args) := by
  cases b with
  | sequence op => exact h.onSequence op (Arity.length_of_exactly harity) hargs
  | source op =>
    refine .bind (.ofExcept (fun _ hm => op.source_every (hargs.mono hm))
      (op.source_mild harity)) fun _ _ source hsource => ?_
    exact Run.newStream_secure (AllEvery.append hsource AllEvery.nil)
  | collection op =>
    exact .ofExcept (fun _ hm => op.apply_every (hargs.mono hm))
      (op.apply_mild (Arity.length_of_exactly harity))
  | wrapper op =>
    exact .ofExcept (fun _ hm => op.apply_every (hargs.mono hm))
      (op.apply_mild (Arity.length_of_exactly harity))
  | scalar op =>
    exact .ofExcept (fun _ hm => op.apply_every (hargs.mono hm))
      (op.apply_mild (Arity.length_of_exactly harity))
  | log => exact h.writeLog hargs
  | future op => exact onFutures op (Arity.length_of_exactly harity) hargs
  | service op => exact h.callService op hargs

theorem bindParams (params : List Param) {args : List Value} (hargs : AllFit n args) :
    Run.Secure n EntriesFit (r.bindParams params args) (r'.bindParams params args) := by
  induction params generalizing n args with
  | nil => exact .pure fun _ _ => List.forall_mem_nil _
  | cons p ps ih =>
    cases args with
    | nil => exact .pure fun _ _ => List.forall_mem_nil _
    | cons v vs =>
      obtain ⟨hv, hvs⟩ := List.forall_mem_cons.1 hargs
      rw [Recur.bindParams, Recur.bindParams]
      refine .get_bind fun s hs => ?_
      have hv' : v.Fits s.width := hv.mono hs.width
      refine .bind (h.checkOptional p.ty hv' _) fun m hm _ _ => ?_
      refine .bind (ih (AllEvery.mono hvs (Nat.le_trans hs.width hm))) fun k hk bindings hb => ?_
      exact .pure fun _ hl => List.forall_mem_cons.2
        ⟨hv'.mono (Nat.le_trans hm (Nat.le_trans hk hl)), hb.mono hl⟩

theorem runBody {decl : FunctionDecl} {env : Env} (hbody : decl.body.Placed false)
    (henv : AllFit n env.values) :
    Run.Secure n Value.Fits (r.runBody decl env) (r'.runBody decl env) := by
  refine .get_bind fun s hs => ?_
  split
  · exact .fail rfl
  · have hrest : ∀ m, n ≤ m → Run.Secure m Value.Fits
        (do
          let v ← (Run.deeper (r.eval decl.body env)).catchEarly
          r.checkOptional decl.ret v decl.span.line
          return v)
        (do
          let v ← (Run.deeper (r'.eval decl.body env)).catchEarly
          r'.checkOptional decl.ret v decl.span.line
          return v) := by
      intro m hm
      have hdeeper := Run.deeper_secure (h.eval hbody (henv.mono hm))
      refine .bind (.catchEarly hdeeper) fun _ _ v hv => ?_
      exact .bind (h.checkOptional decl.ret hv _) fun _ hk _ _ =>
        .pure fun _ hl => hv.mono (Nat.le_trans hk hl)
    cases decl.name with
    | none => exact hrest _ hs.width
    | some name =>
      exact .bind (Run.countEvaluation_secure name) fun m hm _ _ =>
        hrest m (Nat.le_trans hs.width hm)

theorem enterClosure {decl : FunctionDecl} {env : Env} {args : List Value}
    (hbody : decl.body.Placed decl.isAsync) (henv : AllFit n env.values)
    (hargs : AllFit n args) :
    Run.Secure n Value.Fits (r.enterClosure decl env args) (r'.enterClosure decl env args) := by
  refine .bind (h.bindParams decl.params hargs) fun m hm bindings hbindings => ?_
  have hvalues := Env.extend_every (henv.mono hm) hbindings
  cases hasync : decl.isAsync with
  | true =>
    rw [hasync] at hbody
    exact .bind (Run.spawn_secure hbody hvalues) fun _ _ id hid =>
      .pure fun _ hk => Value.every_future.2 (Nat.lt_of_lt_of_le hid hk)
  | false =>
    rw [hasync] at hbody
    exact h.runBody hbody hvalues

theorem callClosure {decl : FunctionDecl} {env : Env} (module : Nat) {args : List Value}
    (hbody : decl.body.Placed decl.isAsync) (henv : AllFit n env.values)
    (hargs : AllFit n args) :
    Run.Secure n Value.Fits (r.callClosure decl env module args)
      (r'.callClosure decl env module args) := by
  have hcall := Run.inModule_secure module (h.enterClosure hbody henv hargs)
  refine Run.numbered_secure (.bind (Run.memoKey?_secure decl module args) fun _ hm key? _ => ?_)
  cases key? with
  | none => exact hcall.mono hm
  | some key =>
    refine .bind (Run.remembered?_secure key) fun _ hk found hfound => ?_
    cases found with
    | some v => exact .pure fun _ hl => (hfound v rfl).mono hl
    | none =>
      refine .bind (hcall.mono (Nat.le_trans hm hk)) fun _ _ v hv => ?_
      exact .bind (Run.remember_secure key hv) fun _ hl _ _ =>
        .pure fun _ hl' => hv.mono (Nat.le_trans hl hl')

theorem callCallable [Gateway γ] : ∀ {c : Callable} {args : List Value}, c.Placed →
    AllFit n c.values → AllFit n args →
    Run.Secure n Value.Fits (r.callCallable c args) (r'.callCallable c args)
  | .applied target bound, args, hc, hvalues, hargs => by
    obtain ⟨htarget, hbound⟩ := List.forall_mem_append.1 hvalues
    rw [Recur.callCallable, Recur.callCallable]
    exact callCallable hc htarget (AllEvery.append hbound hargs)
  | .builtin b, args, hc, hvalues, hargs => by
    rw [Recur.callCallable, Recur.callCallable]
    split
    · exact Run.newFunction_secure hc hargs
    · split
      · exact h.callBuiltin b ‹_› hargs
      · exact .fail rfl
  | .closure decl env module, args, hc, hvalues, hargs => by
    rw [Recur.callCallable, Recur.callCallable]
    split
    · exact Run.newFunction_secure hc (AllEvery.append hvalues hargs)
    · split
      · exact h.callClosure module hc hvalues hargs
      · exact .fail rfl

theorem callValue [Gateway γ] : Host.Secure r.callValue r'.callValue := by
  intro n f args hf hargs
  cases f with
  | function identity c =>
    obtain ⟨hc, hvalues⟩ := Value.every_function.1 hf
    exact h.callCallable hc hvalues hargs
  | _ => exact .fail rfl

-- expressions

theorem callMethod (name : String) {receiver : Value} {args : List Value} {env : Env}
    (hreceiver : receiver.Fits n) (hargs : AllFit n args) (henv : AllFit n env.values) :
    Run.Secure n Value.Fits (r.callMethod name receiver args env)
      (r'.callMethod name receiver args env) := by
  have hlookup : Run.Secure n Value.Fits
      (Run.lookup name env >>= fun f => r.call f (receiver :: args))
      (Run.lookup name env >>= fun f => r'.call f (receiver :: args)) :=
    .bind (Run.lookup_secure name henv) fun _ hm f hf =>
      h.call hf (AllEvery.mono (.cons hreceiver hargs) hm)
  cases receiver with
  | record record fields =>
    unfold Recur.callMethod
    dsimp only
    split
    · rename_i id c hfield
      exact h.call (Value.fieldOf?_every (Value.every_record.1 hreceiver).2 name _ hfield) hargs
    · exact hlookup
  | _ => exact hlookup

omit h in
theorem buildVariant (enum variant : String) {args : List Value} (hargs : AllFit n args) :
    Run.Secure n Value.Fits (Run.buildVariant (γ := γ) enum variant args)
      (Run.buildVariant enum variant args) := by
  refine .get_bind fun s hs => ?_
  dsimp only
  split
  · refine .pure fun _ hm => Value.every_enum.2 ?_
    exact Run.variantPayload_every (hargs.mono (Nat.le_trans hs.width hm))
  · exact .fail rfl

/-- With as many values as the expression has parts. -/
theorem combine {e : Expr} (he : e.isFromParts = true) {env : Env} (henv : AllFit n env.values)
    {vs : List Value} (hlen : vs.length = e.operands.length) (hvs : AllFit n vs) :
    Run.Secure n Value.Fits (r.combine e env vs) (r'.combine e env vs) := by
  have hzip : ∀ (fields : List FieldInit) {ws : List Value}, AllFit n ws →
      ∀ g ∈ fields.zip ws, g.2.Fits n :=
    fun _ _ hws g hg => hws g.2 (List.of_mem_zip hg).2
  have hline : ∀ line : Nat, Run.Secure n Run.Anything
      (modify fun s => { s with line } : Run γ PUnit) (modify fun s => { s with line }) :=
    fun _ => .modify_same fun _ => ⟨rfl, rfl, rfl, rfl⟩
  cases e with
  | list _ items => exact .pure fun _ hm => Value.every_list.2 (hvs.mono hm)
  | tuple _ items => exact .pure fun _ hm => Value.every_tuple.2 (hvs.mono hm)
  | map _ entries =>
    refine .pure fun _ hm => Value.every_map.2 ?_
    refine Keyed.forall_foldl_insert (List.forall_mem_nil _) fun entry hentry => ?_
    exact hvs.mono hm entry.2 (List.of_mem_zip hentry).2
  | record _ name fields => exact h.buildRecord name (hzip fields hvs)
  | variant _ enum variant args => exact buildVariant enum variant hvs
  | update _ target fields => match vs, hlen with
    | _ :: _, _ =>
      obtain ⟨htarget, hrest⟩ := List.forall_mem_cons.1 hvs
      exact h.update htarget (hzip fields hrest)
  | select _ target field => match vs, hlen with
    | [v], _ =>
      exact .ofExcept (fun _ hm => Value.select_every ((hvs v (.head _)).mono hm) field)
        (v.select_mild field)
  | index _ target i => match vs, hlen with
    | [v, w], _ =>
      exact .ofExcept (fun _ hm => Value.index_every ((hvs v (.head _)).mono hm) w)
        (v.index_mild w)
  | call span callee args => match vs, hlen with
    | _ :: _, _ =>
      obtain ⟨hcallee, hargs⟩ := List.forall_mem_cons.1 hvs
      exact .bind (hline span.line) fun _ hm _ _ =>
        h.call (hcallee.mono hm) (AllEvery.mono hargs hm)
  | method span receiver name args => match vs, hlen with
    | _ :: _, _ =>
      obtain ⟨hreceiver, hargs⟩ := List.forall_mem_cons.1 hvs
      exact .bind (hline span.line) fun _ hm _ _ =>
        h.callMethod name (hreceiver.mono hm) (AllEvery.mono hargs hm) (henv.mono hm)
  | binary _ op lhs rhs => match vs, hlen with
    | [v, w], _ => exact .ofExcept (fun _ _ => op.apply_every v w) (op.apply_mild v w)
  | unary _ op operand => match vs, hlen with
    | [v], _ => exact .ofExcept (fun _ _ => op.apply_every v) (op.apply_mild v)
  | literal | name | branch | cases | block | closure | async | await | attempt => cases he

theorem bindLet (span : Span) (pattern : Pattern) (ty : Option TypeExpr) {v : Value} {env : Env}
    (hv : v.Fits n) (henv : AllFit n env.values) :
    Run.Secure n (fun m (env' : Env) => AllFit m env'.values) (r.bindLet span pattern ty v env)
      (r'.bindLet span pattern ty v env) := by
  refine .bind (h.checkOptional ty hv span.line) fun _ hm _ _ => ?_
  refine .bind (.located (Run.destructure_secure pattern (hv.mono hm)) span.line) ?_
  intro _ hk bindings hbindings
  exact .pure fun _ hl => AllEvery.mono
    (Env.extend_every (henv.mono (Nat.le_trans hm hk)) hbindings) hl

theorem evalOr {e : Option Expr} {env : Env} (he : ∀ e', e = some e' → e'.Placed false)
    (henv : AllFit n env.values) :
    Run.Secure n Value.Fits (r.evalOr e env) (r'.evalOr e env) := by
  cases e with
  | none => exact .pure fun _ _ => Value.every_void
  | some e => exact h.eval (he e rfl) henv

theorem evalBlock {tail : Option Expr} {stmts : List Stmt} {env : Env}
    (hstmts : ∀ stmt ∈ stmts, stmt.inner.Placed false)
    (htail : ∀ e, tail = some e → e.Placed false) (henv : AllFit n env.values) :
    Run.Secure n Value.Fits (r.evalBlock tail stmts env) (r'.evalBlock tail stmts env) := by
  induction stmts generalizing n env with
  | nil => exact h.evalOr htail henv
  | cons stmt rest ih =>
    obtain ⟨hstmt, hrest⟩ := List.forall_mem_cons.1 hstmts
    cases stmt with
    | bind span pattern ty value =>
      refine .bind (h.eval hstmt henv) fun _ hm v hv => ?_
      exact .bind (h.bindLet span pattern ty hv (henv.mono hm)) fun _ _ env' henv' =>
        ih hrest henv'
    | expr e => exact .bind (h.eval hstmt henv) fun _ hm _ _ => ih hrest (henv.mono hm)

theorem guardHolds {guard : Option Expr} {env : Env}
    (hguard : ∀ e, guard = some e → e.Placed false) (henv : AllFit n env.values) :
    Run.Secure n Run.Anything (r.guardHolds guard env) (r'.guardHolds guard env) := by
  cases guard with
  | none => exact .pure fun _ _ => trivial
  | some e => exact .bind (h.eval (hguard e rfl) henv) fun _ _ v _ => Run.truth_secure _ v

/-- The arm that is taken is one of those there are: the last one at least is. -/
theorem firstArm {allowed : Bool} {v : Value} {env : Env} {arms : List MatchArm} (hv : v.Fits n)
    (hguards : ∀ arm ∈ arms, ∀ e, arm.guard = some e → e.Placed false)
    (hbodies : ∀ arm ∈ arms, arm.body.Placed allowed) (hopen : EndsOpen arms)
    (henv : AllFit n env.values) :
    Run.Secure n (fun m taken => taken.1.Placed allowed ∧ AllFit m (Env.values taken.2))
      (r.firstArm v env arms) (r'.firstArm v env arms) := by
  induction arms generalizing n with
  | nil =>
    obtain ⟨arm, hlast, -⟩ := hopen
    cases hlast
  | cons arm rest ih =>
    obtain ⟨hguard, hguards⟩ := List.forall_mem_cons.1 hguards
    obtain ⟨hbody, hbodies⟩ := List.forall_mem_cons.1 hbodies
    cases rest with
    | nil =>
      -- the open arm takes the value before the end of the arms is reached
      obtain ⟨_, hlast, hwild, hnone⟩ := hopen
      cases hlast
      refine .get_bind fun s hs => ?_
      obtain ⟨span, pattern, guard, body⟩ := arm
      cases hnone
      cases pattern with
      | wildcard _ =>
        exact .pure fun _ hm => ⟨hbody, henv.mono (Nat.le_trans hs.width hm)⟩
      | _ => cases hwild
    | cons next rest =>
      have hopen' : EndsOpen (next :: rest) := by
        obtain ⟨last, hlast, hlast'⟩ := hopen
        exact ⟨last, by rwa [List.getLast?_cons_cons] at hlast, hlast'⟩
      refine .get_bind fun s hs => ?_
      have hmatch := arm.pattern.bindings?_every hs.sound.scheduler.futures v (hv.mono hs.width)
      cases hb : arm.pattern.bindings? s.scheduler.futures v with
      | none => exact ih (hv.mono hs.width) hguards hbodies hopen' (henv.mono hs.width)
      | some bindings =>
        have hvalues := Env.extend_every (henv.mono hs.width) (hmatch bindings hb)
        refine .bind (h.guardHolds hguard hvalues) fun m hm holds _ => ?_
        have hm' := Nat.le_trans hs.width hm
        cases holds with
        | true => exact .pure fun _ hk => ⟨hbody, hvalues.mono (Nat.le_trans hm hk)⟩
        | false => exact ih (hv.mono hm') hguards hbodies hopen' (henv.mono hm')

theorem selectArm {allowed : Bool} {v : Value} {env : Env} {arms : List MatchArm} (hv : v.Fits n)
    (hguards : ∀ arm ∈ arms, ∀ e, arm.guard = some e → e.Placed false)
    (hbodies : ∀ arm ∈ arms, arm.body.Placed allowed) (hopen : EndsOpen arms)
    (henv : AllFit n env.values) :
    Run.Secure n (fun m taken => taken.1.Placed allowed ∧ AllFit m (Env.values taken.2))
      (r.selectArm v env arms) (r'.selectArm v env arms) := by
  have hfirst := h.firstArm hv hguards hbodies hopen henv
  cases v with
  | future id => exact .bind (Run.markObserved_secure id) fun _ hm _ _ => hfirst.mono hm
  | _ => exact hfirst

theorem evalLogical (op : BinaryOp) {lhs rhs : Expr} {env : Env} (hlhs : lhs.Placed false)
    (hrhs : rhs.Placed false) (henv : AllFit n env.values) :
    Run.Secure n Value.Fits (r.evalLogical op lhs rhs env) (r'.evalLogical op lhs rhs env) := by
  refine .bind (h.eval hlhs henv) fun _ hm v _ => .bind (Run.truth_secure _ v) fun _ hk a _ => ?_
  split
  · exact .pure fun _ _ => Value.every_bool a
  · refine .bind (h.eval hrhs (henv.mono (Nat.le_trans hm hk))) fun _ _ w _ => ?_
    exact .bind (Run.truth_secure _ w) fun _ _ b _ => .pure fun _ _ => Value.every_bool b

theorem evalParts {e : Expr} {env : Env} (he : e.isFromParts = true)
    (hparts : ∀ part ∈ e.operands, part.Placed false) (henv : AllFit n env.values) :
    Run.Secure n Value.Fits (r.evalParts e env) (r'.evalParts e env) :=
  .bind (.mapM Run.growing_fits fun part hpart => h.eval (hparts part hpart) henv)
    fun _ hm _ hvs => h.combine he (henv.mono hm) hvs.1 hvs.2

theorem evalNode {e : Expr} {env : Env} (he : e.Placed false) (henv : AllFit n env.values) :
    Run.Secure n Value.Fits (r.evalNode e env) (r'.evalNode e env) := by
  cases he with
  | literal span l => cases l <;> exact .pure fun _ _ => by simp [Value.ofLiteral]
  | name span name => exact Run.lookup_secure name henv
  | parts hfrom hparts =>
    rw [Expr.evalNode_of_isFromParts hfrom, Expr.evalNode_of_isFromParts hfrom]
    exact h.evalParts hfrom hparts henv
  | logical hop hlhs hrhs =>
    rw [Recur.evalNode, Recur.evalNode, if_pos hop, if_pos hop]
    exact h.evalLogical _ hlhs hrhs henv
  | branch htest htrue hfalse =>
    refine .bind (h.eval htest henv) fun _ hm v _ => ?_
    refine .bind (Run.truth_secure _ v) fun _ hk b _ => ?_
    have henv' := henv.mono (Nat.le_trans hm hk)
    split
    · exact h.eval htrue henv'
    · exact h.evalOr hfalse henv'
  | cases hscrutinee hguards hbodies hopen =>
    refine .bind (h.eval hscrutinee henv) fun _ hm v hv => ?_
    exact .bind (h.selectArm hv hguards hbodies hopen (henv.mono hm)) fun _ _ taken htaken =>
      h.eval htaken.1 htaken.2
  | block hstmts htail => exact h.evalBlock hstmts htail henv
  | @closure _ decl span hbody =>
    exact .get_bind fun s hs => Run.newFunction_secure (c := .closure decl env s.current) hbody
      (henv.mono hs.width)
  | async span hbody =>
    exact .bind (Run.spawn_secure hbody henv) fun _ _ id hid =>
      .pure fun _ hm => Value.every_future.2 (Nat.lt_of_lt_of_le hid hm)
  | attempt span hinner =>
    exact .bind (h.eval hinner henv) fun _ _ v hv => Run.attempt_secure hv _

end Recur.Secure

end StreamLang
