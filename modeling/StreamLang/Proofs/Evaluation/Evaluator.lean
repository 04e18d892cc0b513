import StreamLang.Proofs.Evaluation.Judgement

/-! Every function of the evaluator is judged by the rules of a judgement. A function that is called catches
what ends early in its body, so that calls never end early; nor does the check of a predicate. -/

namespace StreamLang

variable {γ : Type} {P : Expr → Prop} {J : Prop → ∀ {α : Type}, Run γ α → Prop}

/-- A judgement, and what it says of evaluation and calls of one step less. -/
structure Recur.Judged (P : Expr → Prop) (J : Prop → ∀ {α : Type}, Run γ α → Prop) (r : Recur γ) : Prop
    extends Run.Judgement P J where
  eval : ∀ e env, J e.Attempts (r.eval e env)
  call : ∀ {early : Prop} f args, J early (r.call f args)

namespace Recur.Judged

variable {r : Recur γ} {early : Prop}

-- refinements

theorem checkPredicate (h : r.Judged P J) (name : String) (v : Value) (line : Nat) :
    J early (r.checkPredicate name v line) := by
  refine h.get_bind fun s hs => ?_
  dsimp only
  split
  · exact h.pure _
  · rename_i predicate hpredicate
    obtain ⟨a, ha, hp⟩ := Option.bind_eq_some_iff.1 hpredicate
    have hpredicate : P predicate := hs.of_typeAlias? ha hp
    refine h.bind (h.located (h.predicate hpredicate (h.eval predicate _)) line) fun w => ?_
    split
    · exact h.pure _
    · exact h.failAt rfl

mutual

theorem checkRefinements (h : r.Judged P J) (line : Nat) (ty : Ty) (v : Value) :
    J early (r.checkRefinements line ty v) := by
  cases ty with
  | refined name base =>
    rw [Recur.checkRefinements]
    exact h.bind (h.checkPredicate name v line) fun _ => h.checkRefinements line base v
  | list elem =>
    cases v with
    | list items => exact h.forM fun w _ => h.checkRefinements line elem w
    | set items => exact h.forM fun w _ => h.checkRefinements line elem w
    | _ => exact h.pure _
  | set elem =>
    cases v with
    | list items => exact h.forM fun w _ => h.checkRefinements line elem w
    | set items => exact h.forM fun w _ => h.checkRefinements line elem w
    | _ => exact h.pure _
  | option inner =>
    cases v with
    | option w => cases w with
      | none => exact h.pure _
      | some w => exact h.checkRefinements line inner w
    | _ => exact h.pure _
  | tuple tys =>
    cases v with
    | tuple items => exact h.checkItems line tys items
    | _ => exact h.pure _
  | _ => exact h.pure _
termination_by structural ty

theorem checkItems (h : r.Judged P J) (line : Nat) (tys : List Ty) (vs : List Value) :
    J early (r.checkItems line tys vs) := by
  cases tys with
  | nil => exact h.pure _
  | cons ty tys => cases vs with
    | nil => exact h.pure _
    | cons v vs =>
      rw [Recur.checkItems]
      exact h.bind (h.checkRefinements line ty v) fun _ => h.checkItems line tys vs
termination_by structural tys

end

variable (h : r.Judged P J)
include h

theorem checkWritten (ty : TypeExpr) (v : Value) (line : Nat) :
    J early <| r.checkAnnotation ty v line := by
  refine h.get_bind fun s _ => ?_
  split
  · exact h.failAt rfl
  · exact h.checkRefinements line _ v

theorem checkOptional (ty : Option TypeExpr) (v : Value) (line : Nat) :
    J early (r.checkOptional ty v line) := by
  cases ty with
  | none => exact h.pure _
  | some ty => exact h.checkWritten ty v line

-- records

theorem declaredFields (name : String) (given : List (FieldInit × Value))
    (fields : List (String × Ty)) : J early (r.declaredFields name given fields) := by
  induction fields with
  | nil => exact h.pure _
  | cons field rest ih =>
    rw [Recur.declaredFields]
    split
    · exact h.fail rfl
    · exact h.bind (h.checkRefinements _ _ _) fun _ => h.bind ih fun _ => h.pure _

theorem buildRecord (name : String) (given : List (FieldInit × Value)) :
    J early (r.buildRecord name given) := by
  refine h.get_bind fun s _ => ?_
  split
  · exact h.fail rfl
  · refine h.bind (h.declaredFields name given _) fun fields => ?_
    split
    · exact h.fail rfl
    · exact h.pure _

theorem updateFields (name : String) (updates : List (FieldInit × Value))
    (fields : List (String × Value)) : J early (r.updateFields name updates fields) := by
  induction updates generalizing fields with
  | nil => exact h.pure _
  | cons u rest ih =>
    rw [Recur.updateFields]
    split
    · exact h.fail rfl
    · refine h.get_bind fun s _ => ?_
      split
      · exact h.bind (h.checkRefinements _ _ _) fun _ => ih _
      · exact h.bind (h.pure _) fun _ => ih _

theorem update (target : Value) (updates : List (FieldInit × Value)) :
    J early (r.update target updates) := by
  cases target with
  | record name fields => exact h.bind (h.updateFields name updates fields) fun _ => h.pure _
  | map entries => exact h.pure _
  | _ => exact h.fail rfl

-- sequences

theorem passes (f v : Value) : J early (r.passes f v) := by
  refine h.bind (h.call f [v]) fun verdict => ?_
  split
  · exact h.pure _
  · exact h.fail rfl

theorem spread (f v : Value) : J early (r.spread f v) := by
  refine h.bind (h.call f [v]) fun w => ?_
  split
  · exact h.pure _
  · exact h.pure _
  · exact h.drain h.call _ _ _
  · exact h.fail rfl

theorem foldStream {β : Type} (terminal : String) (p : Pipeline) {step : β → Value → Run γ β}
    (hstep : ∀ b v, J early (step b v)) (start : β) :
    J early (r.foldStream terminal p step start) :=
  h.bind (h.ofExcept (Pipeline.boundedCursor_hopeful _ _)) fun c => h.fold h.call hstep _ c start

theorem onItems (op : SequenceOp) (items args : List Value) :
    J early (r.onItems op items args) := by
  unfold Recur.onItems
  split
  · exact h.bind (h.mapM fun v _ => h.call _ [v]) fun _ => h.pure _
  · exact h.bind (h.foldlM (fun kept v => h.bind (h.passes _ v) fun _ => h.pure _) items []) fun _ =>
      h.pure _
  · exact h.bind (h.mapM fun v _ => h.spread _ v) fun _ => h.pure _
  · exact h.bind (h.ofExcept (Argument.count_hopeful _ _)) fun _ => h.pure _
  · exact h.bind (h.ofExcept (Argument.count_hopeful _ _)) fun _ => h.pure _
  · exact h.foldlM (fun acc v => h.call _ [acc, v]) items _
  · exact h.pure _
  · refine h.bind (h.ofExcept (Argument.count_hopeful _ _)) fun size => ?_
    split
    · exact h.fail rfl
    · exact h.pure _
  · exact h.pure _
  · exact h.pure _
  · exact h.bind (h.forM fun v _ => h.bind (h.call _ [v]) fun _ => h.pure _) fun _ => h.pure _
  · exact h.ofExcept (Value.sum_hopeful _)
  · exact h.fail rfl

theorem onStream (op : SequenceOp) (p : Pipeline) (args : List Value) :
    J early (r.onStream op p args) := by
  unfold Recur.onStream
  split
  · exact h.newStream _
  · exact h.newStream _
  · exact h.newStream _
  · exact h.bind (h.ofExcept (Argument.count_hopeful _ _)) fun _ => h.newStream _
  · exact h.bind (h.ofExcept (Argument.count_hopeful _ _)) fun _ => h.newStream _
  · exact h.bind (h.pull h.call _ _) fun _ => h.pure _
  · exact h.foldStream _ _ (fun acc v => h.call _ [acc, v]) _
  · exact h.bind (h.foldStream _ _ (fun _ v => h.bind (h.call _ [v]) fun _ => h.pure _) _) fun _ =>
      h.pure _
  · exact h.bind (h.foldStream _ _ (fun _ _ => h.pure _) _) fun _ => h.pure _
  · exact h.bind (h.drain h.call _ _ _) fun _ => h.onItems _ _ _

theorem onSequence (op : SequenceOp) (args : List Value) :
    J early (r.onSequence op args) := by
  unfold Recur.onSequence
  split
  · exact h.onItems _ _ _
  · exact h.onItems _ _ _
  · exact h.onStream _ _ _
  · exact h.ofExcept (Argument.bad_hopeful _ _ _)
  · exact h.fail rfl

-- calls

theorem writeLog (args : List Value) : J early (r.writeLog args) := by
  have hline : ∀ line : String, J early (Run.writeLog (γ := γ) line) :=
    fun _ => h.modify fun _ => rfl
  unfold Recur.writeLog
  split
  · exact h.bind (h.foldStream _ _ (fun _ _ => hline _) _) fun _ => h.pure _
  · exact h.bind (hline _) fun _ => h.pure _

theorem callService [Gateway γ] (op : ServiceOp) (args : List Value) :
    J early (r.callService op args) := by
  refine h.bind (h.mapM fun v _ => ?_) fun _ => h.bind (h.dispatch op _) fun _ => h.pure _
  split
  · exact h.bind (h.drain h.call _ _ _) fun _ => h.pure _
  · exact h.pure _

theorem callBuiltin [Gateway γ] (b : Builtin) (args : List Value) :
    J early (r.callBuiltin b args) := by
  cases b with
  | sequence op => exact h.onSequence op args
  | source op => exact h.bind (h.ofExcept (SourceOp.source_hopeful op args)) fun _ => h.newStream _
  | collection op => exact h.ofExcept (CollectionOp.apply_hopeful op args)
  | wrapper op => exact h.ofExcept (WrapperOp.apply_hopeful op args)
  | scalar op => exact h.ofExcept (ScalarOp.apply_hopeful op args)
  | log => exact h.writeLog args
  | future op => exact h.onFutures op args
  | service op => exact h.callService op args

theorem bindParams (params : List Param) (args : List Value) :
    J early (r.bindParams params args) := by
  induction params generalizing args with
  | nil => exact h.pure _
  | cons p ps ih => cases args with
    | nil => exact h.pure _
    | cons v vs =>
      exact h.get_bind fun s _ => h.bind (h.checkOptional p.ty v _) fun _ =>
        h.bind (ih vs) fun _ => h.pure _

/-- Whatever the body does, the function ends with a value or a fault. -/
theorem runBody (decl : FunctionDecl) (env : Env) : J early (r.runBody decl env) := by
  have hdeeper : J decl.body.Attempts (Run.deeper (r.eval decl.body env)) :=
    h.bind (h.modify fun _ => rfl) fun _ => h.restoring (h.eval decl.body env) fun _ => rfl
  have hrest : J early (do
      let v ← (Run.deeper (r.eval decl.body env)).catchEarly
      r.checkOptional decl.ret v decl.span.line
      return v) :=
    h.bind (h.catchEarly hdeeper) fun v => h.bind (h.checkOptional decl.ret v _) fun _ => h.pure _
  refine h.get_bind fun s _ => ?_
  split
  · exact h.fail rfl
  · cases decl.name with
    | none => exact hrest
    | some name => exact h.bind (h.modify fun _ => rfl) fun _ => hrest

theorem enterClosure (decl : FunctionDecl) (env : Env) (args : List Value) :
    J early (r.enterClosure decl env args) := by
  refine h.bind (h.bindParams decl.params args) fun bindings => ?_
  split
  · exact h.bind (h.spawn _ _) fun _ => h.pure _
  · exact h.runBody decl _

theorem callClosure (decl : FunctionDecl) (env : Env) (module : Nat) (args : List Value) :
    J early (r.callClosure decl env module args) := by
  have hcall : J early (Run.inModule module (r.enterClosure decl env args)) :=
    h.get_bind fun _ _ => h.bind (h.modify fun _ => rfl) fun _ =>
      h.restoring (h.enterClosure decl env args) fun _ => rfl
  have hkey : J early (Run.memoKey? (γ := γ) decl module args) := by
    unfold Run.memoKey?
    split
    · exact h.pure _
    · refine h.get_bind fun s _ => ?_
      dsimp only
      split <;> exact h.pure _
  refine h.get_bind fun s _ => h.bind (h.modify fun _ => rfl) fun _ => h.restoring (h.bind hkey ?_)
    fun _ => rfl
  rintro (_ | key)
  · exact hcall
  · refine h.bind (h.modifyGet fun _ => rfl) fun v? => ?_
    split
    · exact h.pure _
    · exact h.bind hcall fun _ => h.bind (h.modify fun _ => rfl) fun _ => h.pure _

theorem callCallable [Gateway γ] : ∀ (c : Callable) (args : List Value),
    J early (r.callCallable c args)
  | .applied target bound, args => by
    rw [Recur.callCallable]
    exact callCallable target (bound ++ args)
  | .builtin b, args => by
    rw [Recur.callCallable]
    split
    · exact h.newFunction _
    · split
      · exact h.callBuiltin b args
      · exact h.fail rfl
  | .closure decl env module, args => by
    rw [Recur.callCallable]
    split
    · exact h.newFunction _
    · split
      · exact h.callClosure decl env module args
      · exact h.fail rfl

theorem callValue [Gateway γ] (f : Value) (args : List Value) : J early (r.callValue f args) := by
  cases f with
  | function id c => exact h.callCallable c args
  | _ => exact h.fail rfl

-- expressions

theorem callMethod (name : String) (receiver : Value) (args : List Value) (env : Env) :
    J early (r.callMethod name receiver args env) := by
  unfold Recur.callMethod
  dsimp only
  split
  · exact h.call _ _
  · exact h.bind (h.lookup name env) fun _ => h.call _ _

theorem combine (e : Expr) (env : Env) (vs : List Value) :
    J early (r.combine e env vs) := by
  unfold Recur.combine
  split
  · exact h.pure _
  · exact h.pure _
  · exact h.pure _
  · exact h.buildRecord _ _
  · exact h.buildVariant _ _ _
  · exact h.update _ _
  · exact h.ofExcept (Value.select_hopeful _ _)
  · exact h.ofExcept (Value.index_hopeful _ _)
  · exact h.bind (h.modify fun _ => rfl) fun _ => h.call _ _
  · exact h.bind (h.modify fun _ => rfl) fun _ => h.callMethod _ _ _ _
  · exact h.ofExcept (BinaryOp.apply_hopeful _ _ _)
  · exact h.ofExcept (UnaryOp.apply_hopeful _ _)
  · exact h.fail rfl

theorem bindLet (span : Span) (pattern : Pattern) (ty : Option TypeExpr) (v : Value) (env : Env) :
    J early (r.bindLet span pattern ty v env) :=
  h.bind (h.checkOptional ty v span.line) fun _ =>
    h.bind (h.located (h.destructure pattern v) span.line) fun _ => h.pure _

/-- A part of an expression has no `?` that is not the expression's own. -/
theorem part {e part : Expr} (hpart : part ∈ e.within) (env : Env) :
    J e.Attempts (r.eval part env) :=
  h.mono (h.eval part env) (.within hpart)

theorem evalOr {e? : Option Expr} (he : ∀ e, e? = some e → e.Attempts → early) (env : Env) :
    J early (r.evalOr e? env) := by
  cases e? with
  | none => exact h.pure _
  | some e => exact h.mono (h.eval e env) (he e rfl)

theorem evalBlock {tail : Option Expr} (htail : ∀ e, tail = some e → e.Attempts → early)
    {stmts : List Stmt} (hstmts : ∀ stmt ∈ stmts, stmt.inner.Attempts → early) (env : Env) :
    J early (r.evalBlock tail stmts env) := by
  induction stmts generalizing env with
  | nil => exact h.evalOr htail env
  | cons stmt rest ih =>
    obtain ⟨hstmt, hrest⟩ := List.forall_mem_cons.1 hstmts
    cases stmt with
    | bind span pattern ty value =>
      exact h.bind (h.mono (h.eval value env) hstmt) fun v => h.bind (h.bindLet span pattern ty v env)
        fun env' => ih hrest env'
    | expr e => exact h.bind (h.mono (h.eval e env) hstmt) fun _ => ih hrest env

theorem firstArm (v : Value) (env : Env) {arms : List MatchArm}
    (hguards : ∀ arm ∈ arms, ∀ e, arm.guard = some e → e.Attempts → early) :
    J early (r.firstArm v env arms) := by
  induction arms with
  | nil => exact h.fail rfl
  | cons arm rest ih =>
    obtain ⟨hguard, hrest⟩ := List.forall_mem_cons.1 hguards
    refine h.get_bind fun s _ => ?_
    split
    · exact ih hrest
    · refine h.bind ?_ fun holds => ?_
      · cases hg : arm.guard with
        | none => exact h.pure _
        | some e =>
          exact h.bind (h.mono (h.eval e _) (hguard e hg)) fun w => h.truth _ w
      · split
        · exact h.pure _
        · exact ih hrest

theorem selectArm (v : Value) (env : Env) {arms : List MatchArm}
    (hguards : ∀ arm ∈ arms, ∀ e, arm.guard = some e → e.Attempts → early) :
    J early (r.selectArm v env arms) := by
  have hfirst := h.firstArm v env hguards
  cases v with
  | future id => exact h.bind (h.withScheduler _) fun _ => hfirst
  | _ => exact hfirst

theorem evalLogical {e lhs rhs : Expr} (hlhs : lhs ∈ e.within) (hrhs : rhs ∈ e.within)
    (op : BinaryOp) (env : Env) : J e.Attempts (r.evalLogical op lhs rhs env) := by
  refine h.bind (h.part hlhs env) fun v => h.bind (h.truth _ v) fun a => ?_
  split
  · exact h.pure _
  · exact h.bind (h.part hrhs env) fun w => h.bind (h.truth _ w) fun _ => h.pure _

theorem evalParts (e : Expr) (env : Env) : J e.Attempts (r.evalParts e env) :=
  h.bind (h.mapM fun _ hpart => h.part (Expr.mem_within_of_operands hpart) env) fun vs =>
    h.combine e env vs

theorem evalNode (e : Expr) (env : Env) : J e.Attempts (r.evalNode e env) := by
  unfold Recur.evalNode
  split
  case h_1 => exact h.pure _
  case h_2 => exact h.lookup _ env
  case h_3 test whenTrue whenFalse =>
    refine h.bind (h.part (.head _) env) fun v => h.bind (h.truth _ v) fun b => ?_
    split
    · exact h.part (.tail _ (.head _)) env
    · exact h.evalOr (fun e he => .within (by simp [Expr.within, he])) env
  case h_4 span scrutinee arms =>
    have harm : ∀ arm ∈ arms, ∀ part ∈ arm.guard.toList ++ [arm.body],
        part ∈ (Expr.cases span scrutinee arms).within := fun arm harm part hpart =>
      .tail _ (List.mem_flatMap.2 ⟨arm, harm, hpart⟩)
    refine h.bind (h.part (.head _) env) fun v => h.bind_of_ok (h.selectArm v env ?_) ?_
    · exact fun arm hmem e he => .within (harm arm hmem e (by simp [he]))
    · intro s taken t htaken
      obtain ⟨arm, hmem, hbody⟩ := Expr.selectArm_mem htaken
      rw [hbody]
      exact h.part (harm arm hmem _ (by simp)) taken.2
  case h_5 stmts tail =>
    refine h.evalBlock (fun e he => .within ?_) (fun stmt hstmt => .within ?_) env
    · exact List.mem_append_right _ (by simp [he])
    · exact List.mem_append_left _ (List.mem_map_of_mem hstmt)
  case h_6 => exact h.get_bind fun _ _ => h.newFunction _
  case h_7 => exact h.bind (h.spawn _ env) fun _ => h.pure _
  case h_8 => exact h.bind (h.part (.head _) env) fun v => h.awaitSettled v _
  case h_9 => exact h.bind (h.part (.head _) env) fun v => h.attempt .here v _
  case h_10 op lhs rhs =>
    split
    · exact h.evalLogical (.head _) (.tail _ (.head _)) op env
    · exact h.evalParts _ env
  case h_11 => exact h.evalParts _ env

-- combinators

theorem follow (source : FutureId) : J early (Recur.follow (γ := γ) source) := by
  refine h.bind (h.observe source) fun state? => ?_
  split
  · exact h.pure _
  · exact h.pure _
  · exact h.pure _
  · exact h.fail rfl

theorem handle (handler argument : Value) : J early (r.handle handler argument) := by
  refine h.bind (h.call handler [argument]) fun v => ?_
  split
  · exact h.follow _
  · exact h.pure _

theorem collect (sources : List FutureId) (values : List Value) :
    J early (Recur.collect (γ := γ) sources values) := by
  induction sources generalizing values with
  | nil => exact h.pure _
  | cons source rest ih =>
    refine h.bind (h.observe source) fun state? => ?_
    split
    · exact ih _
    · exact h.pure _
    · exact h.pure _
    · exact h.fail rfl

theorem runCombinator (c : Combinator) : J early (r.runCombinator c) := by
  cases c with
  | forward source => exact h.follow source
  | all sources values => exact h.collect sources values
  | onError source handler | onComplete source handler | andThen source handler =>
    refine h.bind (h.observe source) fun state? => ?_
    split <;> first | exact h.pure _ | exact h.handle _ _ | exact h.fail rfl

end Recur.Judged

theorem Recur.ofFuel_judged [Gateway γ] (hJ : Run.Judgement P J) (fuel : Nat) :
    (ofFuel (γ := γ) fuel).Judged P J := by
  induction fuel with
  | zero => exact ⟨hJ, fun _ _ => hJ.exhausted, fun _ _ => hJ.exhausted⟩
  | succ fuel ih => exact ⟨hJ, fun e env => hJ.located (ih.evalNode e env) e.line, ih.callValue⟩

end StreamLang
