import StreamLang.Proofs.Renaming.Run

/-! Evaluation with other identities. Every function of the evaluator does on values with other identities
what it does on the first ones, as long as evaluation and calls of one step less do; so, with a bound on how
far they go down, do evaluation and calls. -/

namespace StreamLang

variable {γ : Type}

/-- Evaluation and calls of one step less do with other identities what they do with the first ones. -/
structure Recur.Mirrors (ρ : Renaming) (r : Recur γ) : Prop where
  eval : ∀ e env, Run.Mirrors ρ (Value.rename ρ.map) (r.eval e env) (r.eval e (env.rename ρ.map))
  call : r.call.Mirrors ρ.map ρ.Twins

namespace Recur.Mirrors

variable {ρ : Renaming} {r : Recur γ}

-- refinements

theorem checkPredicate (h : r.Mirrors ρ) (name : String) (v : Value) (line : Nat) : Run.Mirrors ρ id
    (r.checkPredicate name v line) (r.checkPredicate name (v.rename ρ.map) line) := by
  refine .get_bind fun s t ⟨_, hs⟩ => ?_
  obtain ⟨-, -⟩ := hs
  dsimp only
  cases (s.schemas.typeAlias? name).bind AliasSchema.predicate with
  | none => exact .pure ()
  | some predicate =>
    refine .bind (.located (h.eval predicate (Env.empty.bind "value" v)) line) fun verdict => ?_
    cases verdict with
    | bool b => cases b with
      | true => exact .pure ()
      | false => exact .failAt (.refinementViolated v name) line
    | _ => exact .failAt (.refinementViolated v name) line

mutual

theorem checkRefinements (h : r.Mirrors ρ) (line : Nat) (ty : Ty) (v : Value) : Run.Mirrors ρ id
    (r.checkRefinements line ty v) (r.checkRefinements line ty (v.rename ρ.map)) := by
  cases ty with
  | refined name base =>
    rw [Recur.checkRefinements, Recur.checkRefinements]
    exact .bind (h.checkPredicate name v line) fun _ => h.checkRefinements line base v
  | list elem =>
    cases v with
    | list items =>
      rw [Value.rename_list]
      exact .forM fun w _ => h.checkRefinements line elem w
    | set items =>
      rw [Value.rename_set]
      exact .forM fun w _ => h.checkRefinements line elem w
    | _ => exact .pure ()
  | set elem =>
    cases v with
    | list items =>
      rw [Value.rename_list]
      exact .forM fun w _ => h.checkRefinements line elem w
    | set items =>
      rw [Value.rename_set]
      exact .forM fun w _ => h.checkRefinements line elem w
    | _ => exact .pure ()
  | option inner =>
    cases v with
    | option w => cases w with
      | none => exact .pure ()
      | some w => exact h.checkRefinements line inner w
    | _ => exact .pure ()
  | tuple tys =>
    cases v with
    | tuple items =>
      rw [Value.rename_tuple]
      exact h.checkItems line tys items
    | _ => exact .pure ()
  | _ => exact .pure ()
termination_by structural ty

theorem checkItems (h : r.Mirrors ρ) (line : Nat) (tys : List Ty) (vs : List Value) :
    Run.Mirrors ρ id (r.checkItems line tys vs)
      (r.checkItems line tys (vs.map (Value.rename ρ.map))) := by
  cases tys with
  | nil => exact .pure ()
  | cons ty tys => cases vs with
    | nil => exact .pure ()
    | cons v vs =>
      rw [List.map_cons, Recur.checkItems, Recur.checkItems]
      exact .bind (h.checkRefinements line ty v) fun _ => h.checkItems line tys vs
termination_by structural tys

end

variable (h : r.Mirrors ρ)
include h

theorem checkOptional (ty : Option TypeExpr) (v : Value) (line : Nat) : Run.Mirrors ρ id
    (r.checkOptional ty v line) (r.checkOptional ty (v.rename ρ.map) line) := by
  cases ty with
  | none => exact .pure ()
  | some ty =>
    refine .get_bind fun s t ⟨_, hs⟩ => ?_
    obtain ⟨-, -⟩ := hs
    dsimp only
    cases s.schemas.resolve ty with
    | error fault => exact .failAt (.badType fault) line
    | ok ty => exact h.checkRefinements line ty v

-- records

theorem declaredFields (name : String) (given : List (FieldInit × Value)) (fields : List (String × Ty)) :
    Run.Mirrors ρ (List.map (Value.renameEntry ρ.map)) (r.declaredFields name given fields)
      (r.declaredFields name (given.map (Value.renameEntry ρ.map)) fields) := by
  induction fields with
  | nil => exact .pure []
  | cons field rest ih =>
    have hfind : (given.map (Value.renameEntry ρ.map)).find? (·.1.name == field.1) =
        (given.find? (·.1.name == field.1)).map (Value.renameEntry ρ.map) := List.find?_map
    rw [Recur.declaredFields, Recur.declaredFields, hfind]
    cases given.find? (·.1.name == field.1) with
    | none => exact .fail (.missingField name field.1)
    | some g =>
      refine .bind (h.checkRefinements g.1.span.line field.2 g.2) fun _ => ?_
      exact .bind ih fun fields => .pure ((field.1, g.2) :: fields)

theorem buildRecord (name : String) (given : List (FieldInit × Value)) :
    Run.Mirrors ρ (Value.rename ρ.map) (r.buildRecord name given)
      (r.buildRecord name (given.map (Value.renameEntry ρ.map))) := by
  refine .get_bind fun s t ⟨_, hs⟩ => ?_
  obtain ⟨-, -⟩ := hs
  dsimp only
  cases s.schemas.record? name with
  | none => exact .fail (.unknownRecord name)
  | some schema =>
    have hfind : (given.map (Value.renameEntry ρ.map)).find? (fun g => (schema.field? g.1.name).isNone) =
        (given.find? fun g => (schema.field? g.1.name).isNone).map (Value.renameEntry ρ.map) :=
      List.find?_map
    refine .bind (h.declaredFields name given schema.fields) fun fields => ?_
    rw [hfind]
    cases given.find? fun g => (schema.field? g.1.name).isNone with
    | none => exact .pure_of_eq (Value.rename_record name fields).symm
    | some extra => exact .fail (.noField name extra.1.name)

theorem updateFields (name : String) (updates : List (FieldInit × Value)) (fields : List (String × Value)) :
    Run.Mirrors ρ (List.map (Value.renameEntry ρ.map)) (r.updateFields name updates fields)
      (r.updateFields name (updates.map (Value.renameEntry ρ.map))
        (fields.map (Value.renameEntry ρ.map))) := by
  induction updates generalizing fields with
  | nil => exact .pure fields
  | cons u rest ih =>
    have hset := ih (setField u.1.name u.2 fields)
    rw [← setField_rename] at hset
    rw [List.map_cons, Recur.updateFields, Recur.updateFields, Value.renameEntry_fst, fieldOf?_rename,
      Option.isNone_map]
    split
    · exact .fail (.noField name u.1.name)
    · refine .get_bind fun s t ⟨_, hs⟩ => ?_
      obtain ⟨-, -⟩ := hs
      dsimp only
      cases (s.schemas.record? name).bind (·.field? u.1.name) with
      | none => exact hset
      | some ty => exact .bind (h.checkRefinements u.1.span.line ty u.2) fun _ => hset

theorem update (target : Value) (updates : List (FieldInit × Value)) :
    Run.Mirrors ρ (Value.rename ρ.map) (r.update target updates)
      (r.update (target.rename ρ.map) (updates.map (Value.renameEntry ρ.map))) := by
  cases target with
  | record name fields =>
    rw [Value.rename_record]
    refine .bind (h.updateFields name updates fields) fun fields => ?_
    exact .pure_of_eq (Value.rename_record name fields).symm
  | map entries =>
    rw [Value.rename_map]
    refine .pure_of_eq ?_
    rw [Value.rename_map]
    exact congrArg Value.map (Keyed.foldl_insert_rename FieldInit.name updates entries)
  | _ => exact .fail (.notUpdatable _)

-- sequences

theorem passes (f v : Value) : Run.Mirrors ρ id (r.passes f v)
    (r.passes (f.rename ρ.map) (v.rename ρ.map)) := by
  refine .bind (h.call f [v]) fun verdict => ?_
  cases verdict with
  | bool b => exact .pure b
  | _ => exact .fail (.predicateResult _)

theorem spread (f v : Value) : Run.Mirrors ρ (List.map (Value.rename ρ.map)) (r.spread f v)
    (r.spread (f.rename ρ.map) (v.rename ρ.map)) := by
  refine .bind (h.call f [v]) fun w => ?_
  cases w with
  | list items =>
    rw [Value.rename_list]
    exact .pure items
  | set items =>
    rw [Value.rename_set]
    exact .pure items
  | stream id p => exact p.drain_mirrors h.call r.fuel "flat_map"
  | _ => exact .fail (.flatMapResult _)

theorem foldStream {β : Type} {g : β → β} (terminal : String) (p : Pipeline)
    {step step' : β → Value → Run γ β}
    (hstep : ∀ acc v, Run.Mirrors ρ g (step acc v) (step' (g acc) (v.rename ρ.map))) (start : β) :
    Run.Mirrors ρ g (r.foldStream terminal p step start)
      (r.foldStream terminal (p.rename ρ.map) step' (g start)) :=
  .bind (.ofExcept (p.boundedCursor_rename terminal)) fun c => c.fold_mirrors h.call hstep r.fuel start

omit h in
theorem countOf (op : SequenceOp) (v : Value) :
    Run.Mirrors ρ id (Recur.countOf op v : Run γ Nat) (Recur.countOf op (v.rename ρ.map)) :=
  .ofExcept (Argument.count_rename _ v)

theorem onItems (op : SequenceOp) (items args : List Value) :
    Run.Mirrors ρ (Value.rename ρ.map) (r.onItems op items args)
      (r.onItems op (items.map (Value.rename ρ.map)) (args.map (Value.rename ρ.map))) := by
  have hlist (items : List Value) : Run.Mirrors ρ (Value.rename ρ.map) (γ := γ) (pure (.list items))
      (pure (.list (items.map (Value.rename ρ.map)))) := .pure_of_eq (Value.rename_list items).symm
  cases op with
  | map =>
    rcases args with _ | ⟨f, _ | ⟨_, _⟩⟩
    · exact .fail _
    · exact .bind (.mapM fun v _ => h.call f [v]) hlist
    · exact .fail _
  | filter =>
    rcases args with _ | ⟨f, _ | ⟨_, _⟩⟩
    · exact .fail _
    · refine .bind (.foldlM (f := List.map (Value.rename ρ.map)) (fun kept v _ => ?_) []) fun kept => ?_
      · refine .bind (h.passes f v) fun b => ?_
        cases b with
        | true => exact .pure (v :: kept)
        | false => exact .pure kept
      · rw [← List.map_reverse]
        exact hlist kept.reverse
    · exact .fail _
  | flatMap =>
    rcases args with _ | ⟨f, _ | ⟨_, _⟩⟩
    · exact .fail _
    · refine .bind (.mapM fun v _ => h.spread f v) fun parts => ?_
      rw [← List.map_flatten]
      exact hlist parts.flatten
    · exact .fail _
  | take =>
    rcases args with _ | ⟨n, _ | ⟨_, _⟩⟩
    · exact .fail _
    · refine .bind (countOf .take n) fun n => ?_
      rw [← List.map_take]
      exact hlist (items.take n)
    · exact .fail _
  | skip =>
    rcases args with _ | ⟨n, _ | ⟨_, _⟩⟩
    · exact .fail _
    · refine .bind (countOf .skip n) fun n => ?_
      rw [← List.map_drop]
      exact hlist (items.drop n)
    · exact .fail _
  | reduce =>
    rcases args with _ | ⟨start, _ | ⟨f, _ | ⟨_, _⟩⟩⟩
    · exact .fail _
    · exact .fail _
    · exact .foldlM (fun acc v _ => h.call f [acc, v]) start
    · exact .fail _
  | collect =>
    cases args with
    | nil => exact hlist items
    | cons => exact .fail _
  | chunk =>
    rcases args with _ | ⟨n, _ | ⟨_, _⟩⟩
    · exact .fail _
    · refine .bind (countOf .chunk n) fun size => ?_
      dsimp only [id]
      split
      · exact .fail .chunkSize
      · rw [Value.chunks_rename]
        exact hlist (Value.chunks size items)
    · exact .fail _
  | count =>
    cases args with
    | nil => exact .pure_of_eq (by rw [List.length_map, Value.rename_int])
    | cons => exact .fail _
  | first =>
    cases args with
    | nil => exact .pure_of_eq (by rw [List.head?_map, Value.rename_option])
    | cons => exact .fail _
  | forEach =>
    rcases args with _ | ⟨f, _ | ⟨_, _⟩⟩
    · exact .fail _
    · refine .bind (.forM fun v _ => ?_) fun _ => .pure Value.void
      exact .bind (h.call f [v]) fun _ => .pure ()
    · exact .fail _
  | sum =>
    cases args with
    | nil => exact .ofExcept (Value.sum_rename items)
    | cons => exact .fail _

theorem onStream (op : SequenceOp) (p : Pipeline) (args : List Value) :
    Run.Mirrors ρ (Value.rename ρ.map) (r.onStream op p args)
      (r.onStream op (p.rename ρ.map) (args.map (Value.rename ρ.map))) := by
  have hstage (stage : Stage) : Run.Mirrors ρ (Value.rename ρ.map) (γ := γ)
      (Run.newStream (p.withStage stage))
      (Run.newStream ((p.rename ρ.map).withStage (stage.rename ρ.map))) := by
    rw [← Pipeline.withStage_rename]
    exact Run.newStream_mirrors ρ _
  have hdrain (op : SequenceOp) (args : List Value) : Run.Mirrors ρ (Value.rename ρ.map)
      (p.drain r.call r.fuel op.name >>= fun items => r.onItems op items args)
      ((p.rename ρ.map).drain r.call r.fuel op.name >>= fun items =>
        r.onItems op items (args.map (Value.rename ρ.map))) :=
    .bind (p.drain_mirrors h.call r.fuel op.name) fun items => h.onItems op items args
  cases op with
  | map =>
    rcases args with _ | ⟨f, _ | ⟨_, _⟩⟩
    · exact hdrain .map _
    · exact hstage (.map f)
    · exact hdrain .map _
  | filter =>
    rcases args with _ | ⟨f, _ | ⟨_, _⟩⟩
    · exact hdrain .filter _
    · exact hstage (.filter f)
    · exact hdrain .filter _
  | flatMap =>
    rcases args with _ | ⟨f, _ | ⟨_, _⟩⟩
    · exact hdrain .flatMap _
    · exact hstage (.flatMap f)
    · exact hdrain .flatMap _
  | take =>
    rcases args with _ | ⟨n, _ | ⟨_, _⟩⟩
    · exact hdrain .take _
    · exact .bind (countOf .take n) fun n => hstage (.take n)
    · exact hdrain .take _
  | skip =>
    rcases args with _ | ⟨n, _ | ⟨_, _⟩⟩
    · exact hdrain .skip _
    · exact .bind (countOf .skip n) fun n => hstage (.skip n)
    · exact hdrain .skip _
  | first =>
    cases args with
    | nil =>
      have hpull := (p.cursor none).pull_mirrors h.call r.fuel
      rw [← p.cursor_rename] at hpull
      exact .bind hpull fun pulled => .pure_of_eq (Value.rename_option pulled.1).symm
    | cons => exact hdrain .first _
  | reduce =>
    rcases args with _ | ⟨start, _ | ⟨f, _ | ⟨_, _⟩⟩⟩
    · exact hdrain .reduce _
    · exact hdrain .reduce _
    · exact h.foldStream _ p (fun acc v => h.call f [acc, v]) start
    · exact hdrain .reduce _
  | forEach =>
    rcases args with _ | ⟨f, _ | ⟨_, _⟩⟩
    · exact hdrain .forEach _
    · refine .bind (h.foldStream (g := id) _ p (fun _ v => ?_) ()) fun _ => .pure Value.void
      exact .bind (h.call f [v]) fun _ => .pure ()
    · exact hdrain .forEach _
  | count =>
    cases args with
    | nil =>
      refine .bind (h.foldStream (g := id) _ p (fun n _ => .pure (n + 1)) (0 : Nat)) fun n => ?_
      exact .pure (Value.int (Int64.ofNat n))
    | cons => exact hdrain .count _
  | collect => exact hdrain .collect args
  | chunk => exact hdrain .chunk args
  | sum => exact hdrain .sum args

theorem onSequence (op : SequenceOp) (args : List Value) :
    Run.Mirrors ρ (Value.rename ρ.map) (r.onSequence op args)
      (r.onSequence op (args.map (Value.rename ρ.map))) := by
  cases args with
  | nil => exact .fail _
  | cons v rest =>
    rw [List.map_cons]
    cases v with
    | list items =>
      rw [Value.rename_list]
      exact h.onItems op items rest
    | set items =>
      rw [Value.rename_set]
      exact h.onItems op items rest
    | stream id p => exact h.onStream op p rest
    | _ => exact .fail (.badArgument _ _ _)

-- calls

theorem writeLog (args : List Value) : Run.Mirrors ρ (Value.rename ρ.map) (r.writeLog args)
    (r.writeLog (args.map (Value.rename ρ.map))) := by
  have hline (args : List Value) : Run.Mirrors ρ (Value.rename ρ.map) (γ := γ)
      (do
        Run.writeLog (" ".intercalate (args.map Value.render))
        return .void)
      (do
        Run.writeLog (" ".intercalate ((args.map (Value.rename ρ.map)).map Value.render))
        return .void) := by
    rw [List.map_map, funext (f := Value.render ∘ Value.rename ρ.map) Value.render_rename]
    exact .bind (Run.writeLog_mirrors ρ _) fun _ => .pure Value.void
  match args with
  | [v] => cases v with
    | stream _ p =>
      refine .bind (h.foldStream (g := id) "log" p (fun _ v => ?_) ()) fun _ => .pure Value.void
      rw [v.render_rename]
      exact Run.writeLog_mirrors ρ v.render
    | _ => exact hline [_]
  | [] => exact hline []
  | v :: w :: rest => cases v <;> exact hline (_ :: w :: rest)

theorem requestArgs (op : ServiceOp) (args : List Value) :
    Run.Mirrors ρ id (r.requestArgs op args) (r.requestArgs op (args.map (Value.rename ρ.map))) := by
  rw [← List.map_id_fun]
  refine .mapM fun v _ => ?_
  cases v with
  | stream _ p =>
    refine .bind (p.drain_mirrors h.call r.fuel op.text) fun items => .pure_of_eq ?_
    rw [← Value.rename_list, Value.toJson_rename]
    rfl
  | _ => exact .pure_of_eq (Value.toJson_rename _)

theorem callService [Gateway γ] (op : ServiceOp) (args : List Value) :
    Run.Mirrors ρ (Value.rename ρ.map) (r.callService op args)
      (r.callService op (args.map (Value.rename ρ.map))) := by
  refine .bind (h.requestArgs op args) fun documents => ?_
  exact .bind (Run.dispatch_mirrors ρ op documents) fun future => .pure (Value.future future)

omit h in
theorem onFutures (op : FutureOp) (args : List Value) :
    Run.Mirrors ρ (Value.rename ρ.map) (Run.onFutures op args : Run γ Value)
      (Run.onFutures op (args.map (Value.rename ρ.map))) := by
  have hsource (v : Value) : Run.Mirrors ρ id (Run.futureOf op v : Run γ FutureId)
      (Run.futureOf op (v.rename ρ.map)) := .ofExcept (Argument.future_rename _ v)
  have hspawned (c : Combinator) : Run.Mirrors ρ (Value.rename ρ.map) (γ := γ)
      (do return .future (← Run.spawnCombinator c))
      (do return .future (← Run.spawnCombinator (c.rename ρ.map))) :=
    .bind (Run.spawnCombinator_mirrors ρ c) fun future => .pure (Value.future future)
  cases op with
  | onError =>
    match args with
    | [source, handler] => exact .bind (hsource source) fun id => hspawned (.onError id handler)
    | [] | [_] | _ :: _ :: _ :: _ => exact .fail _
  | onComplete =>
    match args with
    | [source, handler] => exact .bind (hsource source) fun id => hspawned (.onComplete id handler)
    | [] | [_] | _ :: _ :: _ :: _ => exact .fail _
  | andThen =>
    match args with
    | [source, handler] => exact .bind (hsource source) fun id => hspawned (.andThen id handler)
    | [] | [_] | _ :: _ :: _ :: _ => exact .fail _
  | all =>
    match args with
    | [l] =>
      refine .bind (.ofExcept (Argument.list_rename _ l)) fun items => ?_
      refine .bind (.ofExcept (Argument.futures_rename _ items)) fun sources => ?_
      exact hspawned (.all sources [])
    | [] | _ :: _ :: _ => exact .fail _
  | resolved =>
    match args with
    | [v] => exact Run.settledFuture_mirrors ρ (.resolved v)
    | [] | _ :: _ :: _ => exact .fail _
  | failed =>
    match args with
    | [v] =>
      refine .get_bind fun s t ⟨_, hs⟩ => ?_
      obtain ⟨-, -⟩ := hs
      exact Run.settledFuture_mirrors ρ (.failed ⟨v, s.line⟩)
    | [] | _ :: _ :: _ => exact .fail _
  | state =>
    match args with
    | [f] =>
      refine .bind (hsource f) fun id => .bind (Run.futureState?_mirrors ρ id) fun state? => ?_
      cases state? with
      | none => exact .fail .unknownFuture
      | some state => cases state <;> exact .pure (Value.text _)
    | [] | _ :: _ :: _ => exact .fail _

theorem callBuiltin [Gateway γ] (b : Builtin) (args : List Value) :
    Run.Mirrors ρ (Value.rename ρ.map) (r.callBuiltin b args)
      (r.callBuiltin b (args.map (Value.rename ρ.map))) := by
  cases b with
  | sequence op => exact h.onSequence op args
  | source op =>
    refine .bind (.ofExcept (op.source_rename args)) fun source => ?_
    exact Run.newStream_mirrors ρ (.ofSource source)
  | collection op => exact .ofExcept (op.apply_rename ρ.injective args)
  | wrapper op => exact .ofExcept (op.apply_rename args)
  | scalar op => exact .ofExcept (op.apply_rename args)
  | log => exact h.writeLog args
  | future op => exact onFutures op args
  | service op => exact h.callService op args

theorem bindParams (params : List Param) (args : List Value) :
    Run.Mirrors ρ (List.map (Value.renameEntry ρ.map)) (r.bindParams params args)
      (r.bindParams params (args.map (Value.rename ρ.map))) := by
  induction params generalizing args with
  | nil => exact .pure []
  | cons p ps ih => cases args with
    | nil => exact .pure []
    | cons v vs =>
      rw [List.map_cons, Recur.bindParams, Recur.bindParams]
      refine .get_bind fun s t ⟨_, hs⟩ => ?_
      obtain ⟨-, -⟩ := hs
      refine .bind (h.checkOptional p.ty v _) fun _ => ?_
      exact .bind (ih vs) fun bindings => .pure ((p.name, v) :: bindings)

theorem runBody (decl : FunctionDecl) (env : Env) : Run.Mirrors ρ (Value.rename ρ.map)
    (r.runBody decl env) (r.runBody decl (env.rename ρ.map)) := by
  have hbody : Run.Mirrors ρ (Value.rename ρ.map)
      (do
        let v ← (Run.deeper (r.eval decl.body env)).catchEarly
        r.checkOptional decl.ret v decl.span.line
        return v)
      (do
        let v ← (Run.deeper (r.eval decl.body (env.rename ρ.map))).catchEarly
        r.checkOptional decl.ret v decl.span.line
        return v) := by
    refine .bind (.catchEarly (Run.deeper_mirrors ρ (h.eval decl.body env))) fun v => ?_
    exact .bind (h.checkOptional decl.ret v decl.span.line) fun _ => .pure v
  refine .get_bind fun s t ⟨_, hs⟩ => ?_
  obtain ⟨-, -⟩ := hs
  dsimp only
  split
  · exact .fail (.depthExceeded s.options.maxCallDepth)
  · cases decl.name with
    | none => exact hbody
    | some name => exact .bind (Run.countEvaluation_mirrors ρ name) fun _ => hbody

theorem enterClosure (decl : FunctionDecl) (env : Env) (args : List Value) :
    Run.Mirrors ρ (Value.rename ρ.map) (r.enterClosure decl env args)
      (r.enterClosure decl (env.rename ρ.map) (args.map (Value.rename ρ.map))) := by
  refine .bind (h.bindParams decl.params args) fun bindings => ?_
  rw [env.extend_rename]
  split
  · exact .bind (Run.spawn_mirrors ρ decl.body _) fun future => .pure (Value.future future)
  · exact h.runBody decl (env.extend bindings)

theorem callClosure (decl : FunctionDecl) (env : Env) (module : Nat) (args : List Value) :
    Run.Mirrors ρ (Value.rename ρ.map) (r.callClosure decl env module args)
      (r.callClosure decl (env.rename ρ.map) module (args.map (Value.rename ρ.map))) := by
  have henter := Run.inModule_mirrors ρ (h.enterClosure decl env args) module
  refine Run.numbered_mirrors ρ (.bind (Run.memoKey?_mirrors ρ decl module args) fun key? => ?_)
  cases key? with
  | none => exact henter
  | some key =>
    refine .bind (Run.remembered?_mirrors ρ key) fun v? => ?_
    cases v? with
    | some v => exact .pure v
    | none =>
      exact .bind henter fun v => .bind (Run.remember_mirrors ρ key v) fun _ => .pure v

theorem callCallable [Gateway γ] : ∀ (c : Callable) (args : List Value),
    Run.Mirrors ρ (Value.rename ρ.map) (r.callCallable c args)
      (r.callCallable (c.rename ρ.map) (args.map (Value.rename ρ.map)))
  | .applied target bound, args => by
    rw [Callable.rename_applied, Recur.callCallable, Recur.callCallable, ← List.map_append]
    exact callCallable target (bound ++ args)
  | .builtin b, args => by
    rw [Callable.rename_builtin, Recur.callCallable, Recur.callCallable, List.length_map]
    split
    · have hnew := Run.newFunction_mirrors ρ (.applied (.builtin b) args) (γ := γ)
      rw [Callable.rename_applied] at hnew
      exact hnew
    · split
      · exact h.callBuiltin b args
      · exact .fail (.builtinArity b args.length)
  | .closure decl env module, args => by
    rw [Callable.rename_closure, Recur.callCallable, Recur.callCallable, List.length_map]
    split
    · have hnew := Run.newFunction_mirrors ρ (.applied (.closure decl env module) args) (γ := γ)
      rw [Callable.rename_applied, Callable.rename_closure] at hnew
      exact hnew
    · split
      · exact h.callClosure decl env module args
      · exact .fail (.functionArity decl.displayName decl.arity args.length)

theorem callValue [Gateway γ] : Host.Mirrors ρ.map ρ.Twins r.callValue := by
  intro f args
  cases f with
  | function _ c => exact h.callCallable c args
  | _ => exact .fail (.notCallable _)

-- expressions

/-- What an arm of a `match` gives: its body, and the scope with other identities. -/
abbrev renameTaken (ρ : Renaming) (taken : Expr × Env) : Expr × Env := (taken.1, taken.2.rename ρ.map)

omit h in
theorem truth (what : Condition) (v : Value) :
    Run.Mirrors ρ id (Run.truth what v : Run γ Bool) (Run.truth what (v.rename ρ.map)) := by
  cases v with
  | bool b => exact .pure b
  | _ => exact .fail (.notBool what _)

omit h in
theorem attempt (v : Value) (line : Nat) :
    Run.Mirrors ρ (Value.rename ρ.map) (Run.attempt v line : Run γ Value)
      (Run.attempt (v.rename ρ.map) line) := by
  cases v with
  | ok inner => exact .pure inner
  | err error => exact .throw (.early (.err error) line)
  | option inner => cases inner with
    | none => exact .throw (.early (.option none) line)
    | some inner => exact .pure inner
  | _ => exact .fail (.notAttemptable _)

omit h in
theorem awaitSettled (v : Value) (line : Nat) :
    Run.Mirrors ρ (Value.rename ρ.map) (Run.awaitSettled v line : Run γ Value)
      (Run.awaitSettled (v.rename ρ.map) line) := by
  cases v with
  | future id =>
    refine .bind (Run.observe_mirrors ρ id) fun state? => ?_
    cases state? with
    | none => exact .failAt .unknownFuture line
    | some state => cases state with
      | pending => exact .fail .pendingAwait
      | resolved v => exact .pure v
      | failed f =>
        have hmessage : (Failed.mk (f.error.rename ρ.map) f.line).message = f.message :=
          f.error.render_rename
        dsimp only [Option.map_some, FutureState.rename]
        rw [hmessage]
        exact .failAt (.failedFuture f.message) _
  | _ => exact .fail (.notAwaitable _)

omit h in
theorem buildVariant (enum variant : String) (args : List Value) :
    Run.Mirrors ρ (Value.rename ρ.map) (Run.buildVariant enum variant args : Run γ Value)
      (Run.buildVariant enum variant (args.map (Value.rename ρ.map))) := by
  refine .get_bind fun s t ⟨_, hs⟩ => ?_
  obtain ⟨-, -⟩ := hs
  dsimp only
  split
  · refine .pure_of_eq ?_
    rw [Run.variantPayload_rename, Value.rename_enum]
  · exact .fail (.noVariant enum variant)

theorem callMethod (name : String) (receiver : Value) (args : List Value) (env : Env) :
    Run.Mirrors ρ (Value.rename ρ.map) (r.callMethod name receiver args env)
      (r.callMethod name (receiver.rename ρ.map) (args.map (Value.rename ρ.map)) (env.rename ρ.map)) := by
  have hlookup : Run.Mirrors ρ (Value.rename ρ.map)
      (Run.lookup name env >>= fun f => r.call f (receiver :: args))
      (Run.lookup name (env.rename ρ.map) >>= fun f =>
        r.call f ((receiver :: args).map (Value.rename ρ.map))) :=
    .bind (Run.lookup_mirrors ρ name env) fun f => h.call f (receiver :: args)
  cases receiver with
  | record record fields =>
    rw [List.map_cons, Value.rename_record] at hlookup
    rw [Value.rename_record]
    unfold Recur.callMethod
    dsimp only
    rw [fieldOf?_rename]
    cases fieldOf? name fields with
    | none => exact hlookup
    | some own => cases own with
      | function id c => exact h.call (.function id c) args
      | _ => exact hlookup
  | _ => exact hlookup

theorem combine (e : Expr) (env : Env) (vs : List Value) :
    Run.Mirrors ρ (Value.rename ρ.map) (r.combine e env vs)
      (r.combine e (env.rename ρ.map) (vs.map (Value.rename ρ.map))) := by
  have hzip {ι : Type} (is : List ι) (vs : List Value) : is.zip (vs.map (Value.rename ρ.map)) =
      (is.zip vs).map (Value.renameEntry ρ.map) := List.zip_map_right
  cases e with
  | list => exact .pure_of_eq (Value.rename_list vs).symm
  | tuple => exact .pure_of_eq (Value.rename_tuple vs).symm
  | map _ entries =>
    refine .pure_of_eq ?_
    rw [Value.rename_map, hzip]
    exact congrArg Value.map (Keyed.foldl_insert_rename id _ [])
  | record _ name fields =>
    have hbuild := h.buildRecord name (fields.zip vs)
    rw [← hzip] at hbuild
    exact hbuild
  | variant _ enum variant _ => exact buildVariant enum variant vs
  | update _ _ fields =>
    cases vs with
    | nil => exact .fail .notFromParts
    | cons target vs =>
      have hupdate := h.update target (fields.zip vs)
      rw [← hzip] at hupdate
      exact hupdate
  | select _ _ field =>
    match vs with
    | [target] => exact .ofExcept (Value.select_rename field target)
    | [] | _ :: _ :: _ => exact .fail .notFromParts
  | index =>
    match vs with
    | [target, i] => exact .ofExcept (Value.index_rename target i)
    | [] | [_] | _ :: _ :: _ :: _ => exact .fail .notFromParts
  | call span =>
    cases vs with
    | nil => exact .fail .notFromParts
    | cons callee args =>
      exact .bind (Run.setLine_mirrors ρ span.line) fun _ => h.call callee args
  | method span _ name _ =>
    cases vs with
    | nil => exact .fail .notFromParts
    | cons receiver args =>
      exact .bind (Run.setLine_mirrors ρ span.line) fun _ => h.callMethod name receiver args env
  | binary _ op =>
    match vs with
    | [a, b] => exact .ofExcept (op.apply_rename a b ρ.injective)
    | [] | [_] | _ :: _ :: _ :: _ => exact .fail .notFromParts
  | unary _ op =>
    match vs with
    | [v] => exact .ofExcept (op.apply_rename v)
    | [] | _ :: _ :: _ => exact .fail .notFromParts
  | _ => exact .fail .notFromParts

theorem bindLet (span : Span) (pattern : Pattern) (ty : Option TypeExpr) (v : Value) (env : Env) :
    Run.Mirrors ρ (Env.rename ρ.map) (r.bindLet span pattern ty v env)
      (r.bindLet span pattern ty (v.rename ρ.map) (env.rename ρ.map)) := by
  refine .bind (h.checkOptional ty v span.line) fun _ => ?_
  refine .bind (.located (Run.destructure_mirrors ρ pattern v) span.line) fun bindings => ?_
  exact .pure_of_eq (env.extend_rename bindings)

theorem evalOr (e : Option Expr) (env : Env) :
    Run.Mirrors ρ (Value.rename ρ.map) (r.evalOr e env) (r.evalOr e (env.rename ρ.map)) := by
  cases e with
  | none => exact .pure Value.void
  | some e => exact h.eval e env

theorem evalBlock (tail : Option Expr) (stmts : List Stmt) (env : Env) :
    Run.Mirrors ρ (Value.rename ρ.map) (r.evalBlock tail stmts env)
      (r.evalBlock tail stmts (env.rename ρ.map)) := by
  induction stmts generalizing env with
  | nil => exact h.evalOr tail env
  | cons stmt rest ih => cases stmt with
    | bind span pattern ty value =>
      refine .bind (h.eval value env) fun v => ?_
      exact .bind (h.bindLet span pattern ty v env) fun env' => ih env'
    | expr e => exact .bind (h.eval e env) fun _ => ih env

theorem guardHolds (guard : Option Expr) (env : Env) :
    Run.Mirrors ρ id (r.guardHolds guard env) (r.guardHolds guard (env.rename ρ.map)) := by
  cases guard with
  | none => exact .pure true
  | some e => exact .bind (h.eval e env) fun v => truth .guard v

theorem firstArm (v : Value) (env : Env) (arms : List MatchArm) :
    Run.Mirrors ρ (renameTaken ρ) (r.firstArm v env arms)
      (r.firstArm (v.rename ρ.map) (env.rename ρ.map) arms) := by
  induction arms with
  | nil => exact .fail (.noArm v)
  | cons arm rest ih =>
    refine .get_bind fun s t ⟨_, hs⟩ => ?_
    obtain ⟨hscheduler, -⟩ := hs
    dsimp only
    rw [hscheduler.futures, arm.pattern.bindings?_rename ρ.injective]
    cases arm.pattern.bindings? s.scheduler.futures v with
    | none => exact ih
    | some bindings =>
      dsimp only [Option.map_some]
      rw [env.extend_rename]
      refine .bind (h.guardHolds arm.guard (env.extend bindings)) fun holds => ?_
      cases holds with
      | true => exact .pure (arm.body, env.extend bindings)
      | false => exact ih

theorem selectArm (v : Value) (env : Env) (arms : List MatchArm) :
    Run.Mirrors ρ (renameTaken ρ) (r.selectArm v env arms)
      (r.selectArm (v.rename ρ.map) (env.rename ρ.map) arms) := by
  have hfirst := h.firstArm v env arms
  cases v with
  | future id => exact .bind (Run.markObserved_mirrors ρ id) fun _ => hfirst
  | _ => exact hfirst

theorem evalLogical (op : BinaryOp) (lhs rhs : Expr) (env : Env) :
    Run.Mirrors ρ (Value.rename ρ.map) (r.evalLogical op lhs rhs env)
      (r.evalLogical op lhs rhs (env.rename ρ.map)) := by
  refine .bind (h.eval lhs env) fun v => .bind (truth .operand v) fun a => ?_
  dsimp only [id]
  split
  · exact .pure (Value.bool a)
  · refine .bind (h.eval rhs env) fun w => .bind (truth .operand w) fun b => ?_
    exact .pure (Value.bool b)

theorem evalParts (e : Expr) (env : Env) :
    Run.Mirrors ρ (Value.rename ρ.map) (r.evalParts e env) (r.evalParts e (env.rename ρ.map)) := by
  have hparts : Run.Mirrors ρ (List.map (Value.rename ρ.map)) (e.operands.mapM fun part => r.eval part env)
      ((e.operands.map id).mapM fun part => r.eval part (env.rename ρ.map)) :=
    .mapM fun part _ => h.eval part env
  rw [List.map_id] at hparts
  exact .bind hparts fun vs => h.combine e env vs

theorem evalNode (e : Expr) (env : Env) :
    Run.Mirrors ρ (Value.rename ρ.map) (r.evalNode e env) (r.evalNode e (env.rename ρ.map)) := by
  cases e with
  | literal _ l => exact .pure_of_eq (Value.rename_ofLiteral l).symm
  | name _ n => exact Run.lookup_mirrors ρ n env
  | branch _ test whenTrue whenFalse =>
    refine .bind (h.eval test env) fun v => .bind (truth .branch v) fun b => ?_
    cases b with
    | true => exact h.eval whenTrue env
    | false => exact h.evalOr whenFalse env
  | cases _ scrutinee arms =>
    refine .bind (h.eval scrutinee env) fun v => ?_
    exact .bind (h.selectArm v env arms) fun taken => h.eval taken.1 taken.2
  | block _ stmts tail => exact h.evalBlock tail stmts env
  | closure _ decl =>
    refine .get_bind fun s t ⟨_, hs⟩ => ?_
    obtain ⟨-, -⟩ := hs
    have hnew := Run.newFunction_mirrors ρ (.closure decl env s.current) (γ := γ)
    rw [Callable.rename_closure] at hnew
    exact hnew
  | async _ body =>
    exact .bind (Run.spawn_mirrors ρ body env) fun future => .pure (Value.future future)
  | await span future => exact .bind (h.eval future env) fun v => awaitSettled v span.line
  | attempt span inner => exact .bind (h.eval inner env) fun v => attempt v span.line
  | binary span op lhs rhs =>
    rw [Recur.evalNode, Recur.evalNode]
    split
    · exact h.evalLogical op lhs rhs env
    · exact h.evalParts (.binary span op lhs rhs) env
  | _ => exact h.evalParts _ env

end Recur.Mirrors

/-- By induction on the bound: evaluation and calls do with other identities what they do with the first
ones. -/
theorem Recur.ofFuel_mirrors [Gateway γ] (ρ : Renaming) (fuel : Nat) :
    (Recur.ofFuel fuel : Recur γ).Mirrors ρ := by
  induction fuel with
  | zero => exact ⟨fun _ _ => .throw .exhausted, fun _ _ => .throw .exhausted⟩
  | succ fuel ih =>
    refine ⟨fun e env => ?_, fun f args => ?_⟩
    · exact .located (ih.evalNode e env) e.line
    · exact ih.callValue f args

end StreamLang
