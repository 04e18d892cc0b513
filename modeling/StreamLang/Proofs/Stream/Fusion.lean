import StreamLang.Gateway.Stock
import StreamLang.Interpreter.Expr
import StreamLang.Proofs.Stream.Source

/-! Fusion changes nothing. Pulling one element at a time through all stages gives the list that is
obtained by building the whole sequence after each stage, and so do the builtins on lists. -/

namespace StreamLang

open Eval (Delivers)

variable {σ : Type} {host : Host σ} {ok : σ → Prop}

/-! Opening a stream -/

/-- The cursor of a stage before its first pull, for whatever terminal. -/
def StageCursor.Opens (c : StageCursor) (stage : Stage) : Prop := ∃ t, c = .ofStage t stage

theorem StageCursor.opens_ofStages (t : Option String) (stages : List Stage) :
    List.Forall₂ Opens (ofStages t stages) stages := by
  induction stages with
  | nil => exact .nil
  | cons stage later ih => exact .cons ⟨_, rfl⟩ ih

theorem Pipeline.Materialises.isBounded {p : Pipeline} {vs : List Value}
    (h : p.Materialises host ok vs) : p.isBounded = true := by
  cases h with
  | mk hsource _ => cases hsource <;> rfl

/-- The traversal of a stream that is bounded, with or without a terminal. -/
theorem InnerCursor.ofValue_of_hasPipeline {p : Pipeline} (hp : p.isBounded = true)
    (t : Option String) {w : Value} (hw : w.HasPipeline p) :
    ofValue t w = .ok (.stream (p.cursor t)) := by
  obtain ⟨id, rfl⟩ := hw
  cases t with
  | none => rfl
  | some t => simp [ofValue, Pipeline.boundedCursor, hp, Except.map]

/-! Pulling through all stages -/

/-- The induction is on how the lists were built, because an inner stream is built before the
sequence it becomes a part of. -/
theorem Pipeline.Materialises.yields {p : Pipeline} {vs : List Value}
    (h : p.Materialises host ok vs) (t : Option String) : (p.cursor t).Yields host ok vs := by
  induction h using Pipeline.Materialises.rec
    (motive_2 := fun stages us vs _ => ∀ (c : Cursor) (cs : List StageCursor),
      List.Forall₂ StageCursor.Opens cs stages → c.Yields host ok us →
      Cursor.Yields host ok ⟨c.source, cs.reverse ++ c.stages⟩ vs)
    (motive_3 := fun stage us vs _ => ∀ (c : Cursor) (t : Option String),
      c.Yields host ok us → (c.push (.ofStage t stage)).Yields host ok vs)
    generalizing t with
  | mk hsource _ ih =>
    have h := ih _ _ (StageCursor.opens_ofStages t _) (Cursor.yields_source hsource)
    simpa [cursor] using h
  | nil vs c cs hcs hc =>
    cases hcs
    obtain ⟨source, before⟩ := c
    exact hc
  | cons _ _ ihStage ihRest c cs hcs hc =>
    cases hcs with
    | cons hopen hrest =>
      obtain ⟨t, rfl⟩ := hopen
      have h := ihRest _ _ hrest (ihStage c t hc)
      simpa [Cursor.push] using h
  | map hf c t hc => exact hc.map hf
  | filter keep hf c t hc => exact hc.filter keep hf
  | flatMapNil c t hc =>
    cases hc with
    | done h => exact .done h.flatMap_none
  | flatMapItems hv _ ih c t hc =>
    cases hc with
    | next h hrest =>
      exact (Cursor.Yields.flatMap_items _ (ih _ t hrest)).retry fun r hr =>
        h.flatMap_some hv (fun w hw => InnerCursor.ofValue_of_hasItems t hw) hr
  | flatMapStream hv hp _ ihInner ih c t hc =>
    cases hc with
    | next h hrest =>
      exact (Cursor.Yields.flatMap_stream (ihInner t) (ih _ t hrest)).retry fun r hr =>
        h.flatMap_some hv (fun w hw => InnerCursor.ofValue_of_hasPipeline hp.isBounded t hw) hr
  | take n vs c t hc => exact hc.take n
  | skip n vs c t hc => exact hc.skip n

theorem Cursor.Yields.fold {β : Type} (step : β → Value → Eval σ β) (next : β → Value → β)
    (hstep : ∀ acc v, step acc v = pure (next acc v)) {c : Cursor} {vs : List Value}
    (h : c.Yields host ok vs) (acc : β) :
    Delivers ok (fun fuel => c.fold host step fuel acc) (vs.foldl next acc) := by
  induction h generalizing acc with
  | done h =>
    apply Delivers.step
    simp only [Cursor.fold]
    refine h.bind ?_
    exact .pure _
  | @next c c' v vs h _ ih =>
    apply Delivers.step
    simp only [Cursor.fold]
    refine h.bind ?_
    simp only [hstep]
    exact ih (next acc v)

theorem Pipeline.Materialises.drain {p : Pipeline} {vs : List Value}
    (h : p.Materialises host ok vs) (terminal : String) :
    Delivers ok (fun fuel => p.drain host fuel terminal) vs := by
  have hfold := (h.yields (some terminal)).fold (fun vs v => return v :: vs)
    (fun vs v => v :: vs) (fun _ _ => rfl) []
  have hreversed : (vs.foldl (fun vs v => v :: vs) []).reverse = vs := by
    rw [List.foldl_flip_cons_eq_append, List.append_nil, List.reverse_reverse, List.map_id']
  simp only [Pipeline.drain, boundedCursor, h.isBounded, if_true]
  refine hfold.bind ?_
  simp only [hreversed]
  exact .pure vs

/-! The builtins on lists -/

/-- The builtin that does at once what the stage does on the way, and its argument. -/
def Stage.operation : Stage → SequenceOp × Value
  | .map f => (.map, f)
  | .filter f => (.filter, f)
  | .flatMap f => (.flatMap, f)
  | .take n => (.take, .int (Int64.ofNat n))
  | .skip n => (.skip, .int (Int64.ofNat n))

/-- The count of the stage, if it has one, can be given as an argument. -/
def Stage.Countable : Stage → Prop
  | .take n | .skip n => n < 2 ^ 63
  | _ => True

/-- Applies the builtins of the stages to a value, one after the other. -/
def Recur.inTurn {γ : Type} (r : Recur γ) (stages : List Stage) (v : Value) : Run γ Value :=
  stages.foldlM (fun v stage => r.onSequence stage.operation.1 [v, stage.operation.2]) v

section Eager

variable {γ : Type} {host : Host (Interpreter γ)} {ok : Interpreter γ → Prop}
  (eval : Expr → Env → Run γ Value) {f : Value} {us vs ws : List Value}

theorem Argument.count_ofNat (b : Builtin) {n : Nat} (h : n < 2 ^ 63) :
    Argument.count b (.int (Int64.ofNat n)) = .ok n := by
  have hn : (Int64.ofNat n).toInt = n := Int64.toInt_ofNat_of_lt h
  have hneg : ¬ Int64.ofNat n < 0 := by
    rw [Int64.lt_iff_toInt_lt, hn, Int64.toInt_zero]
    omega
  show (if Int64.ofNat n < 0 then _ else Except.ok (Int64.ofNat n).toInt.toNat) = _
  rw [if_neg hneg, hn, Int.toNat_natCast]

theorem delivers_map (hf : List.Forall₂ (fun v w => host.Answers ok f v (· = w)) vs ws) :
    Delivers ok (fun _ => vs.mapM fun v => host f [v]) ws := by
  induction hf with
  | nil => exact .pure _
  | cons hv _ ih =>
    simp only [List.mapM_cons]
    exact hv.delivers.bind (ih.bind (.pure _))

theorem delivers_filter (keep : Value → Bool)
    (hf : ∀ v ∈ vs, host.Answers ok f v (· = .bool (keep v))) (kept : List Value) :
    Delivers ok (fun fuel => vs.foldlM (fun kept v => do
        return if ← Recur.passes ⟨fuel, eval, host⟩ f v then v :: kept else kept) kept)
      ((vs.filter keep).reverse ++ kept) := by
  induction vs generalizing kept with
  | nil => exact .pure _
  | cons v vs ih =>
    have hv : Delivers ok (fun fuel => Recur.passes ⟨fuel, eval, host⟩ f v) (keep v) :=
      (hf v (by simp)).delivers.bind (.pure _)
    have hstep : Delivers ok (fun fuel => do
        return if ← Recur.passes ⟨fuel, eval, host⟩ f v then v :: kept else kept)
        (if keep v then v :: kept else kept) := hv.bind (.pure _)
    have hrest := ih fun w hw => hf w (by simp [hw])
    simp only [List.foldlM_cons]
    refine hstep.bind ?_
    cases hk : keep v with
    | true =>
      rw [List.filter_cons_of_pos hk, List.reverse_cons, List.append_assoc]
      exact hrest (v :: kept)
    | false =>
      rw [List.filter_cons_of_neg (by simp [hk])]
      exact hrest kept

theorem delivers_spread (h : Stage.Turns host ok (.flatMap f) vs ws) :
    ∃ uss : List (List Value), uss.flatten = ws ∧
      Delivers ok (fun fuel => vs.mapM (Recur.spread ⟨fuel, eval, host⟩ f)) uss := by
  induction vs generalizing ws with
  | nil =>
    cases h
    exact ⟨[], rfl, .pure _⟩
  | cons v vs ih =>
    cases h with
    | @flatMapItems _ _ us _ ws hv hrest =>
      obtain ⟨uss, rfl, hd⟩ := ih hrest
      have hspread : Delivers ok (fun fuel => Recur.spread ⟨fuel, eval, host⟩ f v) us :=
        hv.bind (fun _ => pure us) (fun _ w hw => by rcases hw with rfl | rfl <;> rfl) (.pure _)
      refine ⟨us :: uss, rfl, ?_⟩
      simp only [List.mapM_cons]
      exact hspread.bind (hd.bind (.pure _))
    | @flatMapStream _ _ p us _ ws hv hp hrest =>
      obtain ⟨uss, rfl, hd⟩ := ih hrest
      have hspread : Delivers ok (fun fuel => Recur.spread ⟨fuel, eval, host⟩ f v) us :=
        hv.bind (fun fuel => p.drain host fuel "flat_map")
          (fun _ w hw => by obtain ⟨id, rfl⟩ := hw; rfl) (hp.drain _)
      refine ⟨us :: uss, rfl, ?_⟩
      simp only [List.mapM_cons]
      exact hspread.bind (hd.bind (.pure _))

theorem delivers_flatMap (h : Stage.Turns host ok (.flatMap f) us vs) :
    Delivers ok (fun fuel => Recur.onItems ⟨fuel, eval, host⟩ .flatMap us [f]) (.list vs) := by
  obtain ⟨uss, rfl, hd⟩ := delivers_spread eval h
  exact hd.bind (.pure _)

theorem Stage.Turns.delivers {stage : Stage} (h : stage.Turns host ok us vs)
    (hc : stage.Countable) :
    Delivers ok (fun fuel =>
      Recur.onSequence ⟨fuel, eval, host⟩ stage.operation.1 [.list us, stage.operation.2])
      (.list vs) := by
  cases h with
  | map hf => exact (delivers_map hf).bind (.pure _)
  | filter keep hf =>
    have hd := delivers_filter eval keep hf []
    rw [List.append_nil] at hd
    refine hd.bind ?_
    simp only [List.reverse_reverse]
    exact .pure _
  | flatMapNil => exact delivers_flatMap eval .flatMapNil
  | flatMapItems hv hrest => exact delivers_flatMap eval (.flatMapItems hv hrest)
  | flatMapStream hv hp hrest => exact delivers_flatMap eval (.flatMapStream hv hp hrest)
  | take n vs =>
    simp only [operation, Recur.onSequence, Recur.onItems, Recur.countOf,
      Argument.count_ofNat _ hc]
    exact .pure _
  | skip n vs =>
    simp only [operation, Recur.onSequence, Recur.onItems, Recur.countOf,
      Argument.count_ofNat _ hc]
    exact .pure _

theorem delivers_inTurn {stages : List Stage} (h : Stage.TurnAll host ok stages us vs)
    (hc : ∀ stage ∈ stages, stage.Countable) :
    Delivers ok (fun fuel => Recur.inTurn ⟨fuel, eval, host⟩ stages (.list us)) (.list vs) := by
  induction stages generalizing us with
  | nil =>
    cases h
    exact .pure _
  | cons stage rest ih =>
    cases h with
    | cons hstage hrest =>
      simp only [Recur.inTurn, List.foldlM_cons]
      exact (hstage.delivers eval (hc stage (by simp))).bind
        (ih hrest fun other ho => hc other (by simp [ho]))

end Eager

/-! Total callbacks -/

theorem exists_forall₂ {α β : Type} {R : α → β → Prop} {l : List α} (h : ∀ a ∈ l, ∃ b, R a b) :
    ∃ m, List.Forall₂ R l m := by
  induction l with
  | nil => exact ⟨[], .nil⟩
  | cons a l ih =>
    obtain ⟨b, hb⟩ := h a (.head _)
    obtain ⟨m, hm⟩ := ih fun c hc => h c (.tail _ hc)
    exact ⟨b :: m, .cons hb hm⟩

/-- A range runs out, because each step brings it nearer to its end by one at least. -/
theorem Source.exists_outside (start stop step : Int) (hstep : step ≠ 0) :
    ∃ n : Nat, ¬ Before stop step (start + n * step) := by
  refine ⟨(stop - start).toNat + (start - stop).toNat, ?_⟩
  unfold Before
  split
  · rename_i hpos
    have := Int.mul_le_mul_of_nonneg_left (show (1 : Int) ≤ step by omega)
      (Int.natCast_nonneg ((stop - start).toNat + (start - stop).toNat))
    omega
  · rename_i hneg
    have := Int.mul_le_mul_of_nonneg_left (show step ≤ (-1 : Int) by omega)
      (Int.natCast_nonneg ((stop - start).toNat + (start - stop).toNat))
    omega

open Classical in
theorem Source.Total.exists_materialises {source : Source} (h : source.Total host ok) :
    ∃ vs, source.Materialises host ok vs := by
  cases source with
  | list vs => exact ⟨vs, .list vs⟩
  | range start stop step =>
    have hout := exists_outside start.toInt stop.toInt step.toInt fun h0 =>
      h (Int64.toInt_inj.1 (by simpa using h0))
    exact ⟨_, .range (Nat.find hout) h (fun k hk => not_not.1 (Nat.find_min hout hk))
      (Nat.find_spec hout)⟩
  | generate count g =>
    obtain ⟨vs, hvs⟩ := exists_forall₂ fun i hi => h i (List.mem_range.1 hi)
    exact ⟨vs, .generate hvs⟩
  | infinite g => exact h.elim
  | empty => exact ⟨[], .empty⟩

theorem Stage.exists_turns_flatMap {f : Value} {vs : List Value}
    (h : ∀ v ∈ vs, ∃ us, host.Answers ok f v (Value.HasItems us) ∨
      ∃ p, host.Answers ok f v (Value.HasPipeline p) ∧ Pipeline.Materialises host ok p us) :
    ∃ ws, Stage.Turns host ok (.flatMap f) vs ws := by
  induction vs with
  | nil => exact ⟨[], .flatMapNil⟩
  | cons v vs ih =>
    obtain ⟨ws, hws⟩ := ih fun u hu => h u (.tail _ hu)
    obtain ⟨us, hv | ⟨p, hv, hp⟩⟩ := h v (.head _)
    · exact ⟨us ++ ws, .flatMapItems hv hws⟩
    · exact ⟨us ++ ws, .flatMapStream hv hp hws⟩

/-- A stream with total callbacks has a list of elements. -/
theorem Pipeline.Total.exists_materialises {p : Pipeline} (h : p.Total host ok) :
    ∃ us vs, p.source.Materialises host ok us ∧ Stage.TurnAll host ok p.stages us vs := by
  induction h using Pipeline.Total.rec
    (motive_2 := fun stages us _ => ∃ vs, Stage.TurnAll host ok stages us vs)
    (motive_3 := fun stage us _ => ∃ vs, Stage.Turns host ok stage us vs)
    (motive_4 := fun f v _ => ∃ us, host.Answers ok f v (Value.HasItems us) ∨
      ∃ p, host.Answers ok f v (Value.HasPipeline p) ∧ Pipeline.Materialises host ok p us) with
  | mk hsource _ ih =>
    obtain ⟨us, hus⟩ := hsource.exists_materialises
    obtain ⟨vs, hvs⟩ := ih us hus
    exact ⟨us, vs, hus, hvs⟩
  | nil vs => exact ⟨vs, .nil vs⟩
  | cons _ _ ihfirst ih =>
    obtain ⟨vs, hvs⟩ := ihfirst
    obtain ⟨ws, hws⟩ := ih vs hvs
    exact ⟨ws, .cons hvs hws⟩
  | map hf =>
    obtain ⟨ws, hws⟩ := exists_forall₂ hf
    exact ⟨ws, .map hws⟩
  | filter hf =>
    choose! keep hkeep using hf
    exact ⟨_, .filter keep hkeep⟩
  | flatMap _ ih => exact Stage.exists_turns_flatMap ih
  | take n vs => exact ⟨_, .take n vs⟩
  | skip n vs => exact ⟨_, .skip n vs⟩
  | items hv => exact ⟨_, .inl hv⟩
  | @stream f v p hv _ ih =>
    obtain ⟨us, vs, hus, hvs⟩ := ih
    obtain ⟨source, stages⟩ := p
    exact ⟨vs, .inr ⟨_, hv, .mk hus hvs⟩⟩

/-- A lambda `|x| ..` without types. -/
def ofBody (body : Expr) : Value :=
  .function ⟨0, []⟩ (.closure ⟨none, [⟨"x", none, .none⟩], none, body, false, .none⟩ [] 0)

/-- The lambda `|x| [x, x]`. -/
def twice : Value := ofBody (.list .none [.name .none "x", .name .none "x"])

/-- The lambda `|x| x + 1`. -/
def increment : Value := ofBody (.binary .none .add (.name .none "x") (.literal .none (.int 1)))

/-- Room for one more call. -/
def Interpreter.Shallow {γ : Type} (s : Interpreter γ) : Prop := s.depth < s.options.maxCallDepth

section

variable {γ : Type} [Gateway γ] {body : Expr} {v w : Value} {s : Interpreter γ} (hs : s.Shallow)
include hs

/-- A body that leaves every state as it is gives its value. -/
theorem call_ofBody (hbody : ∀ t : Interpreter γ, evalWithin 3 body [[("x", v)]] t = .ok w t) :
    callWithin 4 (ofBody body) [v] s =
      .ok w { s with nextIdentity := s.nextIdentity.next } := by
  have hdepth : ¬ s.options.maxCallDepth ≤ s.depth := not_le.2 hs
  have hget : ∀ t : Interpreter γ, (get : Run γ (Interpreter γ)) t = .ok t t := fun _ => rfl
  have hmodify : ∀ (f : Interpreter γ → Interpreter γ) (t : Interpreter γ),
      (modify f : Run γ PUnit) t = .ok ⟨⟩ (f t) := fun _ _ => rfl
  simp [hget, hmodify, hdepth, hbody, ofBody, callWithin, Recur.callValue, Recur.callCallable,
    FunctionDecl.arity, Recur.callClosure, Run.numbered, Run.memoKey?, Run.inModule,
    Recur.enterClosure, Recur.bindParams, Recur.checkOptional, Recur.runBody, Run.deeper,
    Eval.catchEarly, Eval.restoring, bind, EStateM.bind, pure, EStateM.pure, Env.extend]

theorem call_twice (v : Value) :
    callWithin 4 twice [v] s = .ok (.list [v, v]) { s with nextIdentity := s.nextIdentity.next } :=
  call_ofBody hs fun _ => rfl

theorem call_increment (n : Int64) (h : BinaryOp.add.apply (.int n) (.int 1) = .ok w) :
    callWithin 4 increment [.int n] s = .ok w { s with nextIdentity := s.nextIdentity.next } := by
  refine call_ofBody hs fun t => ?_
  have hsum : evalWithin 3 (.binary .none .add (.name .none "x") (.literal .none (.int 1)))
      [[("x", .int n)]] t =
        (Eval.ofExcept (BinaryOp.add.apply (.int n) (.int 1)) : Run γ Value).located 0 t := rfl
  rw [hsum, h]
  rfl

end

/-- `stream_of([1, 2, 3]).map(|x| x + 1).flat_map(|x| [x, x]).skip(1).take(3)` -/
def doubled : Pipeline :=
  ⟨.list [.int 1, .int 2, .int 3], [.map increment, .flatMap twice, .skip 1, .take 3]⟩

theorem doubled_total :
    doubled.Total (callWithin (γ := StockGateway) 4) Interpreter.Shallow := by
  refine .mk trivial fun us hus => .cons (.map ?_) fun vs _ => .cons (.flatMap fun v _ => ?_)
    fun ws _ => .cons (.skip 1 ws) fun ws _ => .cons (.take 3 ws) fun ws _ => .nil ws
  · cases hus
    have hone : ∀ n w : Int64, BinaryOp.add.apply (.int n) (.int 1) = .ok (.int w) →
        ∃ u, Host.Answers (callWithin (γ := StockGateway) 4) Interpreter.Shallow increment (.int n)
          (· = u) :=
      fun n w h => ⟨.int w, fun s hs => ⟨_, _, call_increment hs n h, rfl, hs⟩⟩
    intro v hv
    simp only [List.mem_cons, List.not_mem_nil, or_false] at hv
    rcases hv with rfl | rfl | rfl
    · exact hone 1 2 rfl
    · exact hone 2 3 rfl
    · exact hone 3 4 rfl
  · exact .items fun s hs => ⟨_, _, call_twice hs v, .inl rfl, hs⟩

end StreamLang
