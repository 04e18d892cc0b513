import StreamLang.Proofs.Typing.Builtins

/-! What traversals of streams give conforms to the types of their elements, whatever happens between two
pulls of one turn. A stage in front of a traversal is told by what its callback gives. -/

namespace StreamLang

variable {γ : Type} [Gateway γ] {w w' : World γ} {t e : Ty} {v f : Value} {items : List Value}
  {fuel bound : Nat} {terminal : Option String}

namespace World

variable {α β : Type} {P : World γ → α → Prop} {Q : World γ → β → Prop}

/-- The computation leads on, and what it gives is as `P` says. -/
def Brings (w : World γ) (P : World γ → α → Prop) (x : Run γ α) : Prop :=
  ∀ a s, x w.state = .ok a s → w.Onward (w.withState s) ∧ P (w.withState s) a

namespace Brings

theorem pure {a : α} (h : P w a) : w.Brings P (Pure.pure a) := by
  rintro _ _ ⟨⟩
  exact ⟨.refl, h⟩

theorem throw (u : Unwind) : w.Brings P (throw u) := fun _ _ h => by cases h

theorem fail (fault : Fault) : w.Brings P (Eval.fail fault) := fun _ _ h => by cases h

theorem bind {x : Run γ α} {f : α → Run γ β} (hx : w.Brings P x)
    (hf : ∀ w' a, w.Onward w' → P w' a → w'.Brings Q (f a)) : w.Brings Q (x >>= f) := by
  intro b s h
  obtain ⟨a, u, ha, hb⟩ := Eval.bind_eq_ok h
  obtain ⟨honward, hP⟩ := hx a u ha
  obtain ⟨honward', hQ⟩ := hf _ a honward hP b s hb
  exact ⟨honward.trans honward', hQ⟩

theorem imp {P' : World γ → α → Prop} {x : Run γ α} (hx : w.Brings P x)
    (h : ∀ w' a, w.Onward w' → P w' a → P' w' a) : w.Brings P' x := by
  intro a s ha
  obtain ⟨honward, hP⟩ := hx a s ha
  exact ⟨honward, h _ a honward hP⟩

theorem ofExcept {x : Except Fault α} (h : Except.All (P w) x) :
    w.Brings P (Eval.ofExcept x) := by
  cases x with
  | ok a => exact .pure (h a rfl)
  | error fault => exact .fail fault

theorem call {P : World γ → Value → Prop} {args : List Value}
    (h : ∀ x s, callWithin fuel f args w.state = .ok x s → P (w.withState s) x) :
    w.Brings P (callWithin fuel f args) :=
  fun x s hx => ⟨onward_call hx, h x s hx⟩

theorem foldlM {vs : List α} {f : β → α → Run γ β} {b : β}
    (hf : ∀ w' b, w.Onward w' → Q w' b → ∀ v ∈ vs, w'.Brings Q (f b v)) (hb : Q w b) :
    w.Brings Q (vs.foldlM f b) := by
  induction vs generalizing w b with
  | nil => exact .pure hb
  | cons v vs ih =>
    rw [List.foldlM_cons]
    refine .bind (hf w b .refl hb v (.head _)) fun w' b' honward hb' => ih ?_ hb'
    exact fun u c hu hc x hx => hf u c (honward.trans hu) hc x (.tail _ hx)

/-- What is given is kept while the others are made. -/
theorem mapM {vs : List α} {f : α → Run γ β}
    (hf : ∀ w', w.Onward w' → ∀ v ∈ vs, w'.Brings Q (f v))
    (hQ : ∀ w' u b, w'.Onward u → Q w' b → Q u b) :
    w.Brings (fun w' bs => ∀ b ∈ bs, Q w' b) (vs.mapM f) := by
  induction vs generalizing w with
  | nil => exact .pure (List.forall_mem_nil _)
  | cons v vs ih =>
    rw [List.mapM_cons]
    refine .bind (hf w .refl v (.head _)) fun w' b honward hb => ?_
    refine .bind (ih fun u hu x hx => hf u (honward.trans hu) x (.tail _ hx)) fun u bs hu hbs => ?_
    exact .pure (List.forall_mem_cons.2 ⟨hQ _ _ _ hu hb, hbs⟩)

theorem forM {vs : List α} {f : α → Run γ PUnit}
    (hf : ∀ w', w.Onward w' → ∀ v ∈ vs, w'.Brings (fun _ _ => True) (f v)) :
    w.Brings (fun _ _ => True) (vs.forM f) := by
  induction vs generalizing w with
  | nil => exact .pure trivial
  | cons v vs ih =>
    refine .bind (hf w .refl v (.head _)) fun w' _ honward _ => ih fun u hu x hx => ?_
    exact hf u (honward.trans hu) x (.tail _ hx)

end Brings

end World

open World (Brings)

theorem Conforms.onward (h : Conforms t w v) (honward : w.Onward w') : Conforms t w' v :=
  h.later honward.later

/-- Called with so many arguments, the value gives values of the type. -/
def Value.Answers (f : Value) (n : Nat) (t : Ty) (w : World γ) : Prop :=
  ∀ w' fuel args x s, w.Later w' → args.length = n →
    callWithin fuel f args w'.state = .ok x s → Conforms t (w'.withState s) x

theorem Value.Answers.later {n : Nat} (h : f.Answers n t w) (hlater : w.Later w') :
    f.Answers n t w' :=
  fun u fuel args x s hu => h u fuel args x s (hlater.trans hu)

theorem Value.Answers.brings {n : Nat} {args : List Value} (h : f.Answers n t w)
    (hargs : args.length = n) : w.Brings (Conforms t) (callWithin fuel f args) :=
  .call fun x s hx => h w fuel args x s .refl hargs hx

/-- If the type is that of a function, this takes so many arguments. -/
def Ty.Takes (n : Nat) (callback : Ty) : Prop :=
  ∀ params ret, callback.base = .function params ret → params.length = n

theorem Conforms.answers {n : Nat} (h : Conforms t w f) (htakes : t.Takes n) :
    f.Answers n t.returned w := by
  intro w' fuel args x s hlater hargs hcall
  unfold Ty.returned
  split
  · rename_i params ret hbase
    have hfunction := (conforms_base t).2 h
    rw [hbase] at hfunction
    obtain ⟨id, c, rfl, hgives⟩ := hfunction
    exact hgives w' fuel args x s hlater (hargs.trans (htakes params ret hbase).symm) hcall
  · trivial

mutual

theorem Cursor.permitted_all : ∀ c : Cursor, c.Permitted .all
  | ⟨source, stages⟩ =>
    .mk (Value.items_permitted_all source.values) (StageCursor.stages_permitted_all stages)

theorem StageCursor.stages_permitted_all :
    ∀ (stages : List StageCursor), ∀ stage ∈ stages, stage.Permitted .all
  | [] => List.forall_mem_nil _
  | stage :: before =>
    List.forall_mem_cons.2 ⟨stage.permitted_all, StageCursor.stages_permitted_all before⟩

theorem StageCursor.permitted_all : ∀ stage : StageCursor, stage.Permitted .all
  | .map f => .map f.permitted_all
  | .filter f => .filter f.permitted_all
  | .flatMap f none _ => .flatMap f.permitted_all
  | .flatMap f (some inner) _ => .opened f.permitted_all inner.permitted_all
  | .take n => .take n
  | .skip n => .skip n

theorem InnerCursor.permitted_all : ∀ inner : InnerCursor, inner.Permitted .all
  | .items rest => .items (Value.items_permitted_all rest)
  | .stream c => .stream c.permitted_all

end

namespace Cursor

variable {c : Cursor}

/-- Whatever the cursor gives conforms to the type. -/
def Conforming (t : Ty) (w : World γ) (c : Cursor) : Prop :=
  ∀ x u, c.Emits w x u → Conforms t u x

theorem Conforming.onward (h : c.Conforming t w) (honward : w.Onward w') : c.Conforming t w' :=
  fun x u hx => h x u (hx.of_onward honward)

/-- Only callbacks are called in a pull. -/
theorem pull_onward (w : World γ) (c : Cursor) (bound : Nat) :
    w.Brings (fun _ _ => True) (c.pull (callWithin fuel) bound) := by
  let T := (Pairing.diagonal γ False fun _ => True).terms
  have hcall : Host.Lockstep T (fun s t => t = s ∧ w.Onward (w.withState s)) (callWithin fuel)
      (callWithin fuel) := by
    rintro f args - - _ s ⟨rfl, hs⟩
    have hstep := hs.step (.call fuel f args)
    change w.Onward (w.withState (endState (callWithin fuel f args s))) at hstep
    cases hend : callWithin fuel f args s with
    | ok v u =>
      rw [hend] at hstep
      exact .value ⟨rfl, v.permitted_all⟩ ⟨rfl, hstep⟩
    | error u t =>
      rw [hend] at hstep
      exact .unwinding (Terms.unwinds_refl _ Value.permitted_all u) ⟨rfl, hstep⟩
  intro r s hpull
  have hbound : T.Bounds bound bound := .inl rfl
  have hends := pull_lockstep hcall hbound c.permitted_all w.state w.state ⟨rfl, .refl⟩
  rw [hpull] at hends
  cases hends with
  | value _ hs => exact ⟨hs.2, trivial⟩

/-- If there is an element, it conforms to the type, and the cursor after it is as before. -/
def Good (t : Ty) (I : World γ → Cursor → Prop) (w : World γ) (p : Option Value × Cursor) : Prop :=
  ∀ v ∈ p.1, Conforms t w v ∧ I w p.2

theorem Good.none (I : World γ → Cursor → Prop) : Good t I w (none, c) := fun _ hv => by cases hv

theorem Good.some {I : World γ → Cursor → Prop} (hv : Conforms t w v) (hc : I w c) :
    Good t I w (some v, c) := by
  rintro _ ⟨⟩
  exact ⟨hv, hc⟩

/-- What each pull keeps tells what the cursor gives at last. -/
theorem conforming_of_pull {I : World γ → Cursor → Prop}
    (honward : ∀ {w w' c}, I w c → w.Onward w' → I w' c)
    (hpull : ∀ {w c} fuel bound, I w c → w.Brings (Good t I) (c.pull (callWithin fuel) bound))
    (h : I w c) : c.Conforming t w := by
  intro x u hemits
  induction hemits with
  | @now c c' w w' v s fuel bound hw hp =>
    exact ((hpull fuel bound (honward h hw) _ _ hp).2 _ rfl).1
  | @«then» c c' w w' u first v s fuel bound hw hp _ ih =>
    exact ih ((hpull fuel bound (honward h hw) _ _ hp).2 _ rfl).2

theorem Conforming.pull (h : c.Conforming t w) (fuel bound : Nat) :
    w.Brings (Good t (Conforming t)) (c.pull (callWithin fuel) bound) := by
  rintro ⟨v?, c'⟩ s hp
  refine ⟨(pull_onward w c bound _ _ hp).1, ?_⟩
  rintro v ⟨⟩
  exact ⟨h v _ (.now .refl hp), fun x u hx => h x u (.then .refl hp hx)⟩

theorem conforming_map (hf : f.Answers 1 t w) : (c.push (.map f)).Conforming t w := by
  refine conforming_of_pull (I := fun w d => ∃ c : Cursor, d = c.push (.map f) ∧ f.Answers 1 t w)
    (fun ⟨c, hd, hf⟩ honward => ⟨c, hd, hf.later honward.later⟩) ?_ ⟨c, rfl, hf⟩
  rintro w _ fuel bound ⟨⟨source, before⟩, rfl, hf⟩
  cases bound with
  | zero => exact .throw _
  | succ bound =>
    rw [push, Cursor.pull]
    refine .bind (pull_onward _ _ _) fun w' p honward _ => ?_
    obtain ⟨v?, c⟩ := p
    cases v? with
    | none => exact .pure (.none _)
    | some v =>
      refine .bind ((hf.later honward.later).brings rfl) fun u x hu hx => .pure (.some hx ?_)
      exact ⟨c, rfl, hf.later (honward.trans hu).later⟩

end Cursor

/-- The stage only leaves out elements. -/
def StageCursor.Sieves : StageCursor → Prop
  | filter _ | take _ | skip _ => True
  | _ => False

namespace Cursor

variable {c : Cursor}

theorem conforming_sieve {stage : StageCursor} (hstage : stage.Sieves) (hc : c.Conforming t w) :
    (c.push stage).Conforming t w := by
  refine conforming_of_pull
    (I := fun w d => ∃ (c : Cursor) (stage : StageCursor), d = c.push stage ∧ stage.Sieves ∧
      c.Conforming t w)
    (fun ⟨c, stage, hd, hstage, hc⟩ honward => ⟨c, stage, hd, hstage, hc.onward honward⟩) ?_
    ⟨c, stage, rfl, hstage, hc⟩
  rintro w _ fuel bound ⟨c, stage, rfl, hstage, hc⟩
  induction bound generalizing w c stage with
  | zero => exact .throw _
  | succ bound ih =>
    obtain ⟨source, before⟩ := c
    have hrest := hc.pull fuel bound
    cases stage with
    | map | flatMap => cases hstage
    | filter f =>
      rw [push, Cursor.pull]
      refine .bind hrest fun w' p _ hp => ?_
      obtain ⟨v?, c⟩ := p
      cases v? with
      | none => exact .pure (.none _)
      | some v =>
        obtain ⟨hv, hc⟩ := hp v rfl
        refine .bind (P := fun _ _ => True) (.call fun _ _ _ => trivial) fun u verdict hu _ => ?_
        cases verdict with
        | bool b => cases b with
          | true => exact .pure (.some (hv.onward hu) ⟨c, _, rfl, hstage, hc.onward hu⟩)
          | false => exact ih c _ hstage (hc.onward hu)
        | _ => exact .fail _
    | take n =>
      cases n with
      | zero => exact .pure (.none _)
      | succ n =>
        rw [push, Cursor.pull]
        refine .bind hrest fun w' p _ hp => .pure fun v hv => ?_
        obtain ⟨hv, hc⟩ := hp v hv
        exact ⟨hv, p.2, _, rfl, trivial, hc⟩
    | skip n =>
      cases n with
      | zero =>
        rw [push, Cursor.pull]
        refine .bind hrest fun w' p _ hp => .pure fun v hv => ?_
        obtain ⟨hv, hc⟩ := hp v hv
        exact ⟨hv, p.2, _, rfl, trivial, hc⟩
      | succ n =>
        rw [push, Cursor.pull]
        refine .bind hrest fun w' p _ hp => ?_
        obtain ⟨v?, c⟩ := p
        cases v? with
        | none => exact .pure (.none _)
        | some v => exact ih c _ trivial (hp v rfl).2

end Cursor

def InnerCursor.Conforming (t : Ty) (w : World γ) : InnerCursor → Prop
  | .items rest => ∀ v ∈ rest, Conforms t w v
  | .stream c => c.Conforming t w

theorem InnerCursor.Conforming.onward {inner : InnerCursor} (h : inner.Conforming t w)
    (honward : w.Onward w') : inner.Conforming t w' := by
  cases inner with
  | items rest => exact fun v hv => (h v hv).onward honward
  | stream c => exact Cursor.Conforming.onward h honward

theorem conforms_stream {id : Identity} {p : Pipeline} : Conforms t w (.stream id p) ↔
    t.base = .unknown ∨ ∃ e, t.base = .stream e ∧
      ∀ w' terminal, w.Later w' → (p.cursor terminal).Conforming e w' := by
  fun_induction Ty.base t with
  | case1 name t ih => rw [Conforms, ih]
  | case2 t hnot =>
    cases t with
    | stream e =>
      rw [Conforms]
      constructor
      · rintro ⟨_, _, ⟨⟩, h⟩
        exact .inr ⟨e, rfl, fun w' terminal hw' x u => h w' terminal x u hw'⟩
      · rintro (⟨⟨⟩⟩ | ⟨_, ⟨⟩, h⟩)
        exact ⟨id, p, rfl, fun w' terminal x u hw' => h w' terminal hw' x u⟩
    | _ => simp_all [Conforms]

/-- What a stream yields conforms to the type of its elements. -/
theorem Conforms.cursor {id : Identity} {p : Pipeline} (h : Conforms t w (.stream id p))
    (hlater : w.Later w') (terminal : Option String) :
    (p.cursor terminal).Conforming t.elementOf w' := by
  rcases conforms_stream.1 h with hunknown | ⟨e, he, hcursor⟩
  · rw [elementOf_of_unknown hunknown]
    exact fun _ _ _ => trivial
  · rw [← elementOf_base, he]
    exact hcursor w' terminal hlater

theorem Pipeline.boundedCursor_conforming {id : Identity} {p : Pipeline}
    (h : Conforms t w (.stream id p)) (terminal : String) :
    Except.All (Cursor.Conforming t.elementOf w) (p.boundedCursor terminal) := by
  unfold boundedCursor
  split
  · exact .ok (h.cursor .refl _)
  · exact .error _

theorem InnerCursor.ofValue_conforming (h : Conforms t w v) (terminal : Option String) :
    Except.All (InnerCursor.Conforming t.elementOf w) (ofValue terminal v) := by
  cases v with
  | list items => exact .ok h.ofList
  | set items => exact .ok h.ofSet
  | stream id p =>
    cases terminal with
    | none => exact .ok (h.cursor .refl none)
    | some terminal =>
      have hcursor := Pipeline.boundedCursor_conforming h terminal
      rw [ofValue]
      cases hc : p.boundedCursor terminal with
      | ok c => exact .ok (hcursor c hc)
      | error fault => exact .error _
  | _ => exact .error _

theorem Cursor.conforming_flatMap {c : Cursor} {inner? : Option InnerCursor}
    (hf : f.Answers 1 t w) (hinner : ∀ inner ∈ inner?, inner.Conforming t.elementOf w) :
    (c.push (.flatMap f inner? terminal)).Conforming t.elementOf w := by
  refine conforming_of_pull
    (I := fun w d => ∃ (c : Cursor) (inner? : Option InnerCursor),
      d = c.push (.flatMap f inner? terminal) ∧ f.Answers 1 t w ∧
        ∀ inner ∈ inner?, inner.Conforming t.elementOf w)
    (fun ⟨c, inner?, hd, hf, hinner⟩ honward => ⟨c, inner?, hd, hf.later honward.later,
      fun inner hmem => (hinner inner hmem).onward honward⟩) ?_ ⟨c, inner?, rfl, hf, hinner⟩
  rintro w _ fuel bound ⟨c, inner?, rfl, hf, hinner⟩
  induction bound generalizing w c inner? with
  | zero => exact .throw _
  | succ bound ih =>
    obtain ⟨source, before⟩ := c
    have hnone : ∀ {w : World γ}, ∀ inner ∈ (none : Option InnerCursor),
        inner.Conforming t.elementOf w := fun _ h => by cases h
    have hsome : ∀ {w : World γ} {inner : InnerCursor}, inner.Conforming t.elementOf w →
        ∀ other ∈ some inner, other.Conforming t.elementOf w := fun h _ hother => by
      cases hother
      exact h
    rw [push]
    cases inner? with
    | none =>
      rw [Cursor.pull]
      refine .bind (pull_onward _ _ _) fun w' p honward _ => ?_
      obtain ⟨v?, c⟩ := p
      cases v? with
      | none => exact .pure (.none _)
      | some v =>
        refine .bind ((hf.later honward.later).brings rfl) fun u r hu hr => ?_
        refine .bind (.ofExcept (InnerCursor.ofValue_conforming hr terminal)) fun x inner hx hin => ?_
        exact ih c _ (hf.later ((honward.trans hu).trans hx).later) (hsome hin)
    | some inner =>
      cases inner with
      | items rest =>
        cases rest with
        | nil =>
          rw [Cursor.pull]
          exact ih ⟨source, before⟩ none hf hnone
        | cons v rest =>
          obtain ⟨hv, hrest⟩ := List.forall_mem_cons.1 (hinner _ rfl)
          exact .pure (.some hv ⟨⟨source, before⟩, _, rfl, hf, hsome hrest⟩)
      | stream inner =>
        rw [Cursor.pull]
        have hinner : inner.Conforming t.elementOf w := hinner _ rfl
        refine .bind (hinner.pull fuel bound) fun w' p honward hp => ?_
        obtain ⟨v?, inner⟩ := p
        have hf := hf.later honward.later
        cases v? with
        | none => exact ih ⟨source, before⟩ none hf hnone
        | some v =>
          obtain ⟨hv, hin⟩ := hp v rfl
          exact .pure (.some hv ⟨⟨source, before⟩, _, rfl, hf, hsome hin⟩)

/-- What is still to come of a source conforms to the type. -/
def SourceCursor.Conforming (t : Ty) (w : World γ) : SourceCursor → Prop
  | .items rest => ∀ v ∈ rest, Conforms t w v
  | .range _ _ _ => ∀ n, Conforms t w (.int n)
  | .generate _ _ generator => generator.Answers 1 t w
  | .done => True

namespace SourceCursor

variable {source : SourceCursor}

theorem Conforming.later (h : source.Conforming t w) (hlater : w.Later w') :
    source.Conforming t w' := by
  cases source with
  | items rest => exact fun v hv => (h v hv).later hlater
  | range => exact fun n => (h n).later hlater
  | generate => exact Value.Answers.later h hlater
  | done => trivial

theorem Conforming.next (h : source.Conforming t w) :
    w.Brings (fun w' p => (∀ v ∈ p.1, Conforms t w' v) ∧ p.2.Conforming t w')
      (source.next (callWithin fuel)) := by
  have hnone : ∀ {w : World γ}, ∀ v ∈ (none : Option Value), Conforms t w v :=
    fun _ hv => by cases hv
  have hsome : ∀ {w : World γ} {v : Value}, Conforms t w v → ∀ x ∈ some v, Conforms t w x :=
    fun hv x hx => by
      cases hx
      exact hv
  cases source with
  | items rest =>
    cases rest with
    | nil => exact .pure ⟨hnone, h⟩
    | cons v rest =>
      obtain ⟨hv, hrest⟩ := List.forall_mem_cons.1 h
      exact .pure ⟨hsome hv, hrest⟩
  | range next stop step =>
    rw [SourceCursor.next]
    split <;> split
    · exact .pure ⟨hsome (h next), h⟩
    · exact .pure ⟨hnone, h⟩
    · exact .pure ⟨hsome (h next), h⟩
    · exact .pure ⟨hnone, h⟩
  | generate index count generator =>
    rw [SourceCursor.next]
    split
    · exact .pure ⟨hnone, h⟩
    · have hgenerator : generator.Answers 1 t w := h
      refine .bind (hgenerator.brings rfl) fun w' v honward hv => .pure ⟨hsome hv, ?_⟩
      exact hgenerator.later honward.later
  | done => exact .pure ⟨hnone, trivial⟩

theorem Conforming.cursor (h : source.Conforming t w) : Cursor.Conforming t w ⟨source, []⟩ := by
  refine Cursor.conforming_of_pull
    (I := fun w d => ∃ source : SourceCursor, d = ⟨source, []⟩ ∧ source.Conforming t w)
    (fun ⟨source, hd, h⟩ honward => ⟨source, hd, h.later honward.later⟩) ?_ ⟨source, rfl, h⟩
  rintro w _ fuel bound ⟨source, rfl, h⟩
  cases bound with
  | zero => exact .throw _
  | succ bound =>
    rw [Cursor.pull]
    refine .bind h.next fun w' p _ hp => .pure fun v hv => ?_
    exact ⟨hp.1 v hv, p.2, rfl, hp.2⟩

end SourceCursor

/-- Combining the elements of a traversal keeps what each element keeps. -/
theorem Cursor.Conforming.fold {β : Type} {P : World γ → β → Prop}
    {step : β → Value → Run γ β} (hP : ∀ w w' b, w.Onward w' → P w b → P w' b)
    (hstep : ∀ w' acc v, w.Onward w' → Conforms t w' v → P w' acc → w'.Brings P (step acc v))
    {c : Cursor} {acc : β} (h : c.Conforming t w) (hacc : P w acc) :
    w.Brings P (c.fold (callWithin fuel) step bound acc) := by
  induction bound generalizing w c acc with
  | zero => exact .throw _
  | succ bound ih =>
    rw [Cursor.fold]
    refine .bind (h.pull fuel bound) fun w' p honward hp => ?_
    obtain ⟨v?, c⟩ := p
    have hacc := hP _ _ _ honward hacc
    cases v? with
    | none => exact .pure hacc
    | some v =>
      obtain ⟨hv, hc⟩ := hp v rfl
      refine .bind (hstep w' acc v honward hv hacc) fun u b hu hb => ih ?_ (hc.onward hu) hb
      exact fun x b v hx => hstep x b v (honward.trans (hu.trans hx))

/-- All elements of a stream. -/
theorem Conforms.drain {id : Identity} {p : Pipeline} (h : Conforms t w (.stream id p))
    (terminal : String) :
    w.Brings (fun w' items => ∀ v ∈ items, Conforms t.elementOf w' v)
      (p.drain (callWithin fuel) bound terminal) := by
  refine .bind (.ofExcept (Pipeline.boundedCursor_conforming h terminal)) fun w' c _ hc => ?_
  have hfold : w'.Brings (fun w items => ∀ v ∈ items, Conforms t.elementOf w v)
      (c.fold (callWithin fuel) (fun items v => return v :: items) bound []) :=
    hc.fold (fun _ _ _ honward hitems v hv => (hitems v hv).onward honward)
      (fun _ _ _ _ hv hitems => .pure (List.forall_mem_cons.2 ⟨hv, hitems⟩))
      (List.forall_mem_nil _)
  refine .bind hfold fun u reversed _ hreversed => .pure fun v hv => ?_
  exact hreversed v (List.mem_reverse.1 hv)

end StreamLang
