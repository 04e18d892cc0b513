import StreamLang.Proofs.Typing.Streams

/-! The types that the table gives to the builtins on sequences, to sources and to the log hold of what
these give, where the row of the builtin is sound for the types of the arguments. -/

namespace StreamLang

open Ty
open World (Brings)

variable {γ : Type} [Gateway γ] {w w' : World γ} {t elem first : Ty} {v f : Value}
  {items args : List Value} {tys : List Ty} {fuel : Nat} {op : SequenceOp}

theorem Value.exists_allInts? (h : ∀ i ∈ items, ∃ n, i = .int n) :
    ∃ ns, Value.allInts? items = some ns := by
  induction items with
  | nil => exact ⟨[], rfl⟩
  | cons i items ih =>
    obtain ⟨⟨n, rfl⟩, hitems⟩ := List.forall_mem_cons.1 h
    obtain ⟨ns, hns⟩ := ih hitems
    exact ⟨n :: ns, by rw [allInts?, hns]; rfl⟩

/-- The sum of integers is one, and every sum is a number. -/
theorem Value.sum_conforms (h : ∀ i ∈ items, Conforms t w i) :
    Except.All (Conforms t.numberType w) (Value.sum items) := by
  unfold Value.sum
  cases hints : Value.allInts? items with
  | some ns =>
    dsimp only [Value.sumInts]
    cases ns.foldlM Whole.add? 0 with
    | some n =>
      refine .ok ?_
      cases t with
      | int => exact ⟨n, rfl⟩
      | float => exact .inl ⟨n, rfl⟩
      | _ => trivial
    | none => exact .error _
  | none =>
    refine .bind (.of_true _) fun x _ => .ok ?_
    cases t with
    | int =>
      obtain ⟨ns, hns⟩ := Value.exists_allInts? h
      rw [hints] at hns
      cases hns
    | float => exact .inr ⟨x, rfl⟩
    | _ => trivial

theorem Value.mem_of_chunks (size : Nat) (items : List Value) :
    ∀ c ∈ Value.chunks size items, ∃ group, c = .list group ∧ ∀ i ∈ group, i ∈ items := by
  have hfrom : ∀ {vs group : List Value} {room : Nat}, ∀ c ∈ Value.chunksFrom size group room vs,
      ∃ members, c = .list members ∧ ∀ i ∈ members, i ∈ group ∨ i ∈ vs := by
    intro vs
    induction vs with
    | nil =>
      intro group room c hc
      rw [Value.chunksFrom] at hc
      split at hc
      · cases hc
      · cases List.mem_singleton.1 hc
        exact ⟨_, rfl, fun i hi => .inl (List.mem_reverse.1 hi)⟩
    | cons v rest ih =>
      intro group room c hc
      have hgrown : ∀ i ∈ v :: group, i ∈ group ∨ i ∈ v :: rest := fun i hi =>
        (List.mem_cons.1 hi).elim (fun h => .inr (h ▸ .head _)) .inl
      rw [Value.chunksFrom] at hc
      split at hc
      · rcases List.mem_cons.1 hc with rfl | hc
        · exact ⟨_, rfl, fun i hi => hgrown i (List.mem_reverse.1 hi)⟩
        · obtain ⟨members, rfl, h⟩ := ih c hc
          exact ⟨members, rfl, fun i hi => .inr (.tail _ ((h i hi).resolve_left List.not_mem_nil))⟩
      · obtain ⟨members, rfl, h⟩ := ih c hc
        exact ⟨members, rfl, fun i hi => (h i hi).elim (hgrown i) fun h => .inr (.tail _ h)⟩
  intro c hc
  obtain ⟨members, rfl, h⟩ := hfrom c hc
  exact ⟨members, rfl, fun i hi => (h i hi).resolve_left List.not_mem_nil⟩

/-- What is made of the elements of a list or a set is a list. -/
theorem conforms_sameShape (hfirst : first = .unknown ∨ ∃ e, first = .list e ∨ first = .set e)
    (h : ∀ i ∈ items, Conforms elem w i) : Conforms (first.sameShape elem) w (.list items) := by
  rcases hfirst with rfl | ⟨e, rfl | rfl⟩
  · trivial
  · exact ⟨items, rfl, h⟩
  · exact ⟨items, rfl, h⟩

theorem conforms_withoutSet (hfirst : first = .unknown ∨ ∃ e, first = .list e ∨ first = .set e)
    (h : ∀ i ∈ items, Conforms first.elementOf w i) :
    Conforms first.withoutSet w (.list items) := by
  rcases hfirst with rfl | ⟨e, rfl | rfl⟩
  · trivial
  · exact ⟨items, rfl, h⟩
  · exact ⟨items, rfl, h⟩

/-- The row of the builtin holds for these types of the arguments: callbacks take as many arguments as
they are given, and a join is above the types that are joined. -/
def SequenceOp.Sound (op : SequenceOp) (args : List Ty) : Prop :=
  match op with
  | map | flatMap => (argument args 1).Takes 1
  | reduce => (argument args 1).Joins (argument args 2).returned ∧ (argument args 2).Takes 2
  | _ => True

/-- On a stream the builtin puts off its work. -/
def SequenceOp.isStage : SequenceOp → Bool
  | map | filter | flatMap | take | skip => true
  | _ => false

namespace Recur

theorem onward_call (f : Value) (args : List Value) :
    w.Brings (fun _ _ => True) ((ofFuel fuel).call f args) :=
  .call fun _ _ _ => trivial

theorem spread_brings (hf : f.Answers 1 t w) (v : Value) :
    w.Brings (fun w' parts => ∀ i ∈ parts, Conforms t.elementOf w' i)
      ((ofFuel fuel).spread f v) := by
  refine .bind (hf.brings rfl) fun w' x _ hx => ?_
  cases x with
  | list items => exact .pure hx.ofList
  | set items => exact .pure hx.ofSet
  | stream id p => exact hx.drain "flat_map"
  | _ => exact .fail _

/-- The builtins that a stream puts off, on the items of a list or a set. -/
theorem onItems_stage (hfirst : argument tys 0 = .unknown ∨
      ∃ e, argument tys 0 = .list e ∨ argument tys 0 = .set e)
    (hitems : ∀ i ∈ items, Conforms (argument tys 0).elementOf w i) (hstage : op.isStage = true)
    (hsound : op.Sound tys) (hargs : ConformAll tys w (v :: args)) :
    w.Brings (Conforms (op.resultType tys)) ((ofFuel fuel).onItems op items args) := by
  have hlater {w' : World γ} (honward : w.Onward w') :
      ∀ i ∈ items, Conforms (argument tys 0).elementOf w' i :=
    fun i hi => (hitems i hi).onward honward
  unfold onItems
  split
  case h_1 f =>
    have hf := (hargs.argument (k := 1) rfl).answers hsound
    have hmap : w.Brings (fun w' results => ∀ x ∈ results, Conforms (argument tys 1).returned w' x)
        (items.mapM fun v => (ofFuel fuel).call f [v]) :=
      .mapM (fun w' honward v _ => (hf.later honward.later).brings rfl)
        fun _ _ _ honward hb => hb.onward honward
    exact .bind hmap fun w' results _ hresults => .pure (conforms_sameShape hfirst hresults)
  case h_2 f =>
    refine .bind (.foldlM (Q := fun w kept => ∀ i ∈ kept, Conforms (argument tys 0).elementOf w i)
      (fun w' kept honward hkept v hv => ?_) (List.forall_mem_nil _)) fun w' kept _ hkept => ?_
    · have hpasses : w'.Brings (fun _ _ => True) ((ofFuel fuel).passes f v) := by
        refine .bind (onward_call f [v]) fun u verdict _ _ => ?_
        cases verdict with
        | bool b => exact .pure trivial
        | _ => exact .fail _
      refine .bind hpasses fun u b hu _ => .pure ?_
      have hkept : ∀ i ∈ kept, Conforms (argument tys 0).elementOf u i :=
        fun i hi => (hkept i hi).onward hu
      split
      · exact List.forall_mem_cons.2 ⟨hlater (honward.trans hu) v hv, hkept⟩
      · exact hkept
    · exact .pure (conforms_withoutSet hfirst fun i hi => hkept i (List.mem_reverse.1 hi))
  case h_3 f =>
    have hf := (hargs.argument (k := 1) rfl).answers hsound
    have hparts : w.Brings (fun w' parts => ∀ part ∈ parts, ∀ i ∈ part,
        Conforms (argument tys 1).returned.elementOf w' i) (items.mapM ((ofFuel fuel).spread f)) :=
      .mapM (fun w' honward v _ => spread_brings (hf.later honward.later) v)
        fun _ _ _ honward hb i hi => (hb i hi).onward honward
    refine .bind hparts fun w' parts _ hparts => .pure (conforms_sameShape hfirst fun i hi => ?_)
    obtain ⟨part, hpart, hi⟩ := List.mem_flatten.1 hi
    exact hparts part hpart i hi
  case h_4 n =>
    refine .bind (P := fun _ _ => True) (.ofExcept (.of_true _)) fun w' k honward _ => .pure ?_
    exact conforms_withoutSet hfirst fun i hi => hlater honward i (List.mem_of_mem_take hi)
  case h_5 n =>
    refine .bind (P := fun _ _ => True) (.ofExcept (.of_true _)) fun w' k honward _ => .pure ?_
    exact conforms_withoutSet hfirst fun i hi => hlater honward i (List.mem_of_mem_drop hi)
  case h_13 => exact .fail _
  all_goals cases hstage

/-- The other ones. -/
theorem onItems_terminal (hitems : ∀ i ∈ items, Conforms (argument tys 0).elementOf w i)
    (hstage : op.isStage = false) (hsound : op.Sound tys) (hargs : ConformAll tys w (v :: args)) :
    w.Brings (Conforms (op.resultType tys)) ((ofFuel fuel).onItems op items args) := by
  unfold onItems
  split
  case h_6 start f =>
    have hstart := (hargs.argument (k := 1) rfl).below hsound.1.1
    have hf := (hargs.argument (k := 2) rfl).answers hsound.2
    refine .foldlM (fun w' acc honward _ v _ => ?_) hstart
    exact ((hf.later honward.later).brings rfl).imp fun _ _ _ hx => hx.below hsound.1.2
  case h_7 => exact .pure ⟨items, rfl, hitems⟩
  case h_8 n =>
    refine .bind (P := fun _ _ => True) (.ofExcept (.of_true _)) fun w' size honward _ => ?_
    split
    · exact .fail _
    · refine .pure ⟨_, rfl, fun c hc => ?_⟩
      obtain ⟨group, rfl, hgroup⟩ := Value.mem_of_chunks size items c hc
      exact ⟨group, rfl, fun i hi => (hitems i (hgroup i hi)).onward honward⟩
  case h_9 => exact .pure ⟨_, rfl⟩
  case h_10 => exact .pure ⟨_, rfl, fun v hv => hitems v (List.mem_of_head? hv)⟩
  case h_11 f =>
    refine .bind (P := fun _ _ => True) (.forM fun w' _ v _ => ?_) fun _ _ _ _ => .pure rfl
    exact .bind (onward_call f [v]) fun _ _ _ _ => .pure trivial
  case h_12 => exact .ofExcept (Value.sum_conforms hitems)
  case h_13 => exact .fail _
  all_goals cases hstage

/-- A stage is put off with one further argument only. -/
theorem onItems_of_not_single (hstage : op.isStage = true) (hargs : ∀ x, args ≠ [x]) :
    (ofFuel fuel : Recur γ).onItems op items args = Eval.fail (.notSequenceOp op) := by
  unfold onItems
  split
  case h_13 => rfl
  case h_1 f => exact absurd rfl (hargs f)
  case h_2 f => exact absurd rfl (hargs f)
  case h_3 f => exact absurd rfl (hargs f)
  case h_4 f => exact absurd rfl (hargs f)
  case h_5 f => exact absurd rfl (hargs f)
  all_goals cases hstage

theorem foldStream_brings {β : Type} {P : World γ → β → Prop} {step : β → Value → Run γ β}
    {p : Pipeline} {terminal : String} {start : β}
    (hc : Except.All (Cursor.Conforming t w) (p.boundedCursor terminal))
    (hP : ∀ w w' b, w.Onward w' → P w b → P w' b)
    (hstep : ∀ w' acc v, w.Onward w' → Conforms t w' v → P w' acc → w'.Brings P (step acc v))
    (hstart : P w start) : w.Brings P ((ofFuel fuel).foldStream terminal p step start) := by
  refine .bind (.ofExcept hc) fun w' c honward hc => ?_
  exact hc.fold hP (fun u acc v hu => hstep u acc v (honward.trans hu)) (hP _ _ _ honward hstart)

end Recur

theorem brings_newStream {p : Pipeline}
    (h : ∀ w' terminal, w.Later w' → (p.cursor terminal).Conforming t w') :
    w.Brings (Conforms (.stream t)) (Run.newStream p) := by
  rintro _ _ ⟨⟩
  have hstep : w.Step { w.state with nextIdentity := w.state.nextIdentity.next } :=
    .move (.inside rfl) (.of_loaded rfl rfl)
  have honward := World.Onward.refl.step hstep
  refine ⟨honward, _, p, rfl, fun w' terminal x u hlater => ?_⟩
  exact h w' terminal (honward.later.trans hlater) x u

/-- A stream with a stage more is a stream of what the stage gives. -/
theorem brings_stage {id : Identity} {p : Pipeline} {stage : Stage}
    (hv : Conforms first w (.stream id p))
    (hstage : ∀ w' terminal, w.Later w' →
      ((p.withStage stage).cursor terminal).Conforming elem w') :
    w.Brings (Conforms (first.sameShape elem)) (Run.newStream (p.withStage stage)) := by
  refine (brings_newStream hstage).imp fun w' v _ hstream => ?_
  rcases conforms_stream.1 hv with hbase | ⟨e, hbase, -⟩
  · rw [sameShape, hbase]
    trivial
  · rw [sameShape, hbase]
    exact hstream

/-- A stage that leaves elements out keeps the type of the stream. -/
theorem brings_sieve {id : Identity} {p : Pipeline} {stage : Stage}
    (hv : Conforms first w (.stream id p)) (hfirst : first.base = first)
    (hstage : ∀ terminal, (StageCursor.ofStage terminal stage).Sieves) :
    w.Brings (Conforms first.withoutSet) (Run.newStream (p.withStage stage)) := by
  have hcursor (w' : World γ) (terminal : Option String) (hlater : w.Later w') :
      ((p.withStage stage).cursor terminal).Conforming first.elementOf w' := by
    rw [Pipeline.cursor_withStage]
    exact Cursor.conforming_sieve (hstage terminal) (hv.cursor hlater _)
  refine (brings_newStream hcursor).imp fun w' v _ hstream => ?_
  rcases conforms_stream.1 hv with hbase | ⟨e, hbase, -⟩
  · rw [hfirst] at hbase
    subst hbase
    trivial
  · rw [hfirst] at hbase
    subst hbase
    exact hstream

namespace Recur

theorem onStream_brings {id : Identity} {p : Pipeline} (hsound : op.Sound tys)
    (hargs : ConformAll tys w (.stream id p :: args)) :
    w.Brings (Conforms (op.resultType tys)) ((ofFuel fuel).onStream op p args) := by
  have hv := hargs.argument (k := 0) rfl
  have hbase := base_argument tys 0
  have hany (terminal : String) :
      Except.All (Cursor.Conforming .unknown w) (p.boundedCursor terminal) :=
    fun _ _ _ _ _ => trivial
  unfold onStream
  split
  case h_1 f =>
    have hf := (hargs.argument (k := 1) rfl).answers hsound
    refine brings_stage hv fun w' terminal hlater => ?_
    rw [Pipeline.cursor_withStage]
    exact Cursor.conforming_map (hf.later hlater)
  case h_2 f => exact brings_sieve hv hbase fun _ => trivial
  case h_3 f =>
    have hf := (hargs.argument (k := 1) rfl).answers hsound
    refine brings_stage hv fun w' terminal hlater => ?_
    rw [Pipeline.cursor_withStage]
    exact Cursor.conforming_flatMap (hf.later hlater) fun _ h => by cases h
  case h_4 n =>
    refine .bind (P := fun _ _ => True) (.ofExcept (.of_true _)) fun w' k honward _ => ?_
    exact brings_sieve (hv.onward honward) hbase fun _ => trivial
  case h_5 n =>
    refine .bind (P := fun _ _ => True) (.ofExcept (.of_true _)) fun w' k honward _ => ?_
    exact brings_sieve (hv.onward honward) hbase fun _ => trivial
  case h_6 =>
    refine .bind ((hv.cursor .refl none).pull _ _) fun w' r _ hr => .pure ⟨_, rfl, fun x hx => ?_⟩
    exact (hr x hx).1
  case h_7 start f =>
    have hstart := (hargs.argument (k := 1) rfl).below hsound.1.1
    have hf := (hargs.argument (k := 2) rfl).answers hsound.2
    refine foldStream_brings (hany _) (fun _ _ _ honward hb => hb.onward honward) ?_ hstart
    intro w' acc v honward _ _
    exact ((hf.later honward.later).brings rfl).imp fun _ _ _ hx => hx.below hsound.1.2
  case h_8 f =>
    refine .bind (foldStream_brings (P := fun _ _ => True) (hany _) (fun _ _ _ _ _ => trivial) ?_
      trivial) fun _ _ _ _ => .pure rfl
    intro w' _ v _ _ _
    exact .bind (onward_call f [v]) fun _ _ _ _ => .pure trivial
  case h_9 =>
    refine .bind (foldStream_brings (P := fun _ _ => True) (hany _) (fun _ _ _ _ _ => trivial) ?_
      trivial) fun _ _ _ _ => .pure ⟨_, rfl⟩
    exact fun _ _ _ _ _ _ => .pure trivial
  case h_10 hmap hfilter hflatMap htake hskip _ _ _ _ =>
    refine .bind (hv.drain op.name) fun w' items honward hitems => ?_
    cases hstage : op.isStage with
    | false => exact onItems_terminal hitems hstage hsound (hargs.later honward.later)
    | true =>
      have hnot : ∀ x, args ≠ [x] := by
        rintro x rfl
        cases op with
        | map => exact hmap x rfl rfl
        | filter => exact hfilter x rfl rfl
        | flatMap => exact hflatMap x rfl rfl
        | take => exact htake x rfl rfl
        | skip => exact hskip x rfl rfl
        | _ => cases hstage
      rw [onItems_of_not_single hstage hnot]
      exact .fail _

theorem onSequence_brings (hsound : op.Sound tys) (hargs : ConformAll tys w args) :
    w.Brings (Conforms (op.resultType tys)) ((ofFuel fuel).onSequence op args) := by
  have hbase := base_argument tys 0
  have hitems {v : Value} {items rest : List Value} (hargs : ConformAll tys w (v :: rest))
      (hfirst : argument tys 0 = .unknown ∨ ∃ e, argument tys 0 = .list e ∨ argument tys 0 = .set e)
      (hitems : ∀ i ∈ items, Conforms (argument tys 0).elementOf w i) :
      w.Brings (Conforms (op.resultType tys)) ((ofFuel fuel).onItems op items rest) := by
    cases hstage : op.isStage with
    | true => exact onItems_stage hfirst hitems hstage hsound hargs
    | false => exact onItems_terminal hitems hstage hsound hargs
  unfold onSequence
  split
  · have hv := hargs.argument (k := 0) rfl
    refine hitems hargs ?_ hv.ofList
    have hshape := conforms_list.1 hv
    rw [hbase] at hshape
    exact hshape.imp_right fun ⟨e, he, _⟩ => ⟨e, .inl he⟩
  · have hv := hargs.argument (k := 0) rfl
    refine hitems hargs ?_ hv.ofSet
    have hshape := conforms_set.1 hv
    rw [hbase] at hshape
    exact hshape.imp_right fun ⟨e, he, _⟩ => ⟨e, .inr he⟩
  · exact onStream_brings hsound hargs
  · exact .ofExcept (.error _)
  · exact .fail _

end Recur

/-- A generator takes the number of its element. -/
def SourceOp.Sound (op : SourceOp) (args : List Ty) : Prop :=
  match op with
  | generate => (argument args 1).Takes 1
  | infinite => (argument args 0).Takes 1
  | _ => True

theorem SourceOp.source_conforming {op : SourceOp} (hsound : op.Sound tys)
    (hargs : ConformAll tys w args) :
    ∃ e, op.resultType tys = .stream e ∧
      Except.All (fun source => (SourceCursor.ofSource source).Conforming e w)
        (op.source args) := by
  unfold SourceOp.source
  dsimp only
  split
  case h_1 l =>
    have hl := hargs.argument (k := 0) rfl
    exact ⟨_, rfl, .bind (hl.elements _) fun items hitems => .ok hitems⟩
  case h_2 start stop more =>
    refine ⟨_, rfl, .bind (.of_true _) fun a _ => .bind (.of_true _) fun b _ => ?_⟩
    have hrange (step : Int64) : Except.All
        (fun source => (SourceCursor.ofSource source).Conforming .int w)
        (if step == 0 then .error Fault.zeroStep else .ok (Source.range a b step)) := by
      split
      · exact .error _
      · exact .ok fun n => ⟨n, rfl⟩
    split
    · exact hrange 1
    · exact hrange 1
    · exact .bind (.of_true _) fun step _ => hrange step
  case h_3 count generator =>
    refine ⟨_, rfl, .bind (.of_true _) fun n _ => .ok ?_⟩
    exact (hargs.argument (k := 1) rfl).answers hsound
  case h_4 generator => exact ⟨_, rfl, .ok ((hargs.argument (k := 0) rfl).answers hsound)⟩
  case h_5 => exact ⟨_, rfl, .ok trivial⟩
  case h_6 => cases op <;> exact ⟨_, rfl, .error _⟩

theorem SourceOp.stream_brings {op : SourceOp} (hsound : op.Sound tys)
    (hargs : ConformAll tys w args) :
    w.Brings (Conforms (op.resultType tys))
      (do Run.newStream (.ofSource (← Eval.ofExcept (op.source args)))) := by
  obtain ⟨e, he, hsource⟩ := source_conforming hsound hargs
  rw [he]
  refine .bind (P := fun w source => (SourceCursor.ofSource source).Conforming e w)
    (.ofExcept hsource) fun w' source _ hsource => brings_newStream fun u _ hu => ?_
  exact (hsource.later hu).cursor

theorem Recur.writeLog_brings (args : List Value) :
    w.Brings (Conforms .void) ((ofFuel fuel).writeLog args) := by
  have hwrite (w : World γ) (line : String) : w.Brings (fun _ _ => True) (Run.writeLog line) := by
    rintro _ s ⟨⟩
    have hstep : w.Step { w.state with log := w.state.log.push line } :=
      .move (.inside rfl) (.of_loaded rfl rfl)
    exact ⟨World.Onward.refl.step hstep, trivial⟩
  have hany (p : Pipeline) (terminal : String) :
      Except.All (Cursor.Conforming .unknown w) (p.boundedCursor terminal) :=
    fun _ _ _ _ _ => trivial
  unfold writeLog
  split
  · refine .bind (foldStream_brings (P := fun _ _ => True) (hany _ _) (fun _ _ _ _ _ => trivial)
      (fun w' _ v _ _ _ => hwrite w' _) trivial) fun _ _ _ _ => .pure rfl
  · exact .bind (hwrite w _) fun _ _ _ _ => .pure rfl

end StreamLang
