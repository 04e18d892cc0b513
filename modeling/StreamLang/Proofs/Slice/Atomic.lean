import StreamLang.Execution
import StreamLang.Gateway.Stock
import StreamLang.Proofs.Lockstep.Diagonal

/-! A slice of evaluation, as the rest of the program sees it. However it ends, it comes back to the
depth and the module in which it began, and never was deeper than the limit. The log only grows, and
no future that was there before changes. -/

namespace StreamLang

variable {γ α : Type}

namespace Interpreter

/-- There are not more calls under way than there may be. -/
def WithinLimit (s : Interpreter γ) : Prop := s.depth ≤ s.options.maxCallDepth

instance (s : Interpreter γ) : Decidable s.WithinLimit := Nat.decLe _ _

/-- The log goes on with the lines there were, and every future there was has the state it had. -/
structure Extends (s t : Interpreter γ) : Prop where
  log : s.log.toList <+: t.log.toList
  futures : ∀ id state, s.scheduler.futures.state? id = some state →
    t.scheduler.futures.state? id = some state

/-- All calls that were begun have ended, and the names are those of the module of before. -/
structure Resumes (s t : Interpreter γ) : Prop extends s.Extends t where
  depth : t.depth = s.depth
  current : t.current = s.current

theorem Resumes.of_standing {s t : Interpreter γ} (h : s.Extends t)
    (hstanding : t.standing = s.standing) : s.Resumes t := by
  obtain ⟨hcurrent, hdepth, -⟩ := Standing.mk.inj hstanding
  exact ⟨h, hdepth, hcurrent⟩

namespace Extends

theorem refl (s : Interpreter γ) : s.Extends s := ⟨List.prefix_refl _, fun _ _ h => h⟩

theorem trans {s t u : Interpreter γ} (h : s.Extends t) (h' : t.Extends u) : s.Extends u :=
  ⟨h.log.trans h'.log, fun id state hstate => h'.futures id state (h.futures id state hstate)⟩

theorem of_eq {s t : Interpreter γ} (hlog : t.log = s.log)
    (hfutures : ∀ id state, s.scheduler.futures.state? id = some state →
      t.scheduler.futures.state? id = some state) : s.Extends t :=
  ⟨hlog ▸ List.prefix_refl _, hfutures⟩

/-- Only a new future is added. -/
theorem of_createFuture {s t : Interpreter γ} (hlog : t.log = s.log)
    (hfutures : t.scheduler.futures = s.scheduler.futures.create) : s.Extends t := by
  refine of_eq hlog fun id state hstate => ?_
  rw [hfutures]
  exact FutureTable.state?_create_of_some hstate

end Extends

theorem kept_extends [Gateway γ] (s : Interpreter γ) : Kept s.Extends where
  inside {t u} ht houtside hlog _ _ := by
    refine ht.trans (.of_eq hlog fun id state hstate => ?_)
    have hscheduler : u.scheduler = t.scheduler := congrArg Outside.scheduler houtside
    rwa [hscheduler]
  log {t} ht line := by
    refine ht.trans ⟨?_, fun _ _ h => h⟩
    simp
  deeper ht _ := ht.trans (.of_eq rfl fun _ _ h => h)
  shallower ht := ht.trans (.of_eq rfl fun _ _ h => h)
  markObserved ht id := by
    refine ht.trans (.of_eq rfl fun other state hstate => ?_)
    exact (FutureTable.state?_markObserved _ _ _).trans hstate
  settledFuture {t} ht state _ := by
    have hcreated : t.Extends { t with scheduler := t.scheduler.createFuture.2 } :=
      .of_createFuture rfl rfl
    refine ht.trans (.of_eq rfl fun id old hstate => ?_)
    have hold := hcreated.futures id old hstate
    -- an old future is not the one that is settled
    have hne : id ≠ t.scheduler.createFuture.1 :=
      Nat.ne_of_lt (FutureTable.lt_size_of_state? hstate)
    exact (Scheduler.state?_settle_of_ne hne state).trans hold
  spawn ht body := ht.trans (.of_createFuture rfl rfl)
  dispatch {t} ht op args := by
    cases hreply : Gateway.dispatch ⟨t.nextRequest, op, args⟩ t.gateway with
    | mk reply gateway => cases reply with
      | ok _ =>
        rw [Run.dispatch_of_ok hreply]
        exact ht.trans (.of_createFuture rfl rfl)
      | error message =>
        rw [Run.dispatch_of_error hreply]
        exact ht.trans (.of_eq rfl fun _ _ h => h)

theorem kept_withinLimit [Gateway γ] : Kept (WithinLimit (γ := γ)) where
  inside {s t} hs _ _ hdepth hloaded := by
    have hoptions : t.options = s.options := congrArg Loaded.options hloaded
    rw [WithinLimit, hdepth, hoptions]
    exact hs
  log hs _ := hs
  deeper _ hroom := hroom
  shallower hs := Nat.le_trans (Nat.sub_le _ _) hs
  markObserved hs _ := hs
  settledFuture hs _ _ := hs
  spawn hs _ := hs
  dispatch {s} hs op args := by
    have hstanding := Run.standing_dispatch op args s
    obtain ⟨-, hdepth, hlimit⟩ := Standing.mk.inj hstanding
    rw [WithinLimit, hdepth, hlimit]
    exact hs

end Interpreter

/-- The computation, stopped unless the state is in order before and after it. -/
def Run.watched (ok : Interpreter γ → Prop) [DecidablePred ok] (stop : Unwind) (x : Run γ α) :
    Run γ α := fun s =>
  if ok s ∧ ok (endState (x s)) then x s else .error stop s

variable [Gateway γ]

/-- Evaluation and calls, stopped where one of them, at any depth, begins or ends in a state that is
not in order. -/
def Recur.watched (ok : Interpreter γ → Prop) [DecidablePred ok] (stop : Unwind) : Nat → Recur γ
  | 0 => .ofFuel 0
  | fuel + 1 =>
    let r := watched ok stop fuel
    { fuel := fuel + 1
      eval := fun e env => Run.watched ok stop ((r.evalNode e env).located e.line)
      call := fun f args => Run.watched ok stop (r.callValue f args) }

namespace Pairing

variable {Q ok : Interpreter γ → Prop} [DecidablePred ok]

omit [Gateway γ] in
theorem watched_lockstep (hok : ∀ s, Q s → ok s) (stop : Unwind) {V : α → α → Prop}
    (hV : ∀ a b, V a b → a = b) {x y : Run γ α} {p : Standing}
    (h : Eval.Lockstep (diagonal γ False Q).terms ((diagonal γ False Q).state p) V x y) :
    Eval.Lockstep (diagonal γ False Q).terms ((diagonal γ False Q).state p) V x
      (Run.watched ok stop y) := by
  rintro _ s ⟨rfl, rfl, hs⟩
  obtain ⟨hsame, hend, -⟩ := diagonal_same hV h hs
  have hwatched : Run.watched ok stop y s = y s := by
    rw [Run.watched, hsame, if_pos ⟨hok s hs, hok _ hend⟩]
  rw [hwatched]
  exact h s s ⟨rfl, rfl, hs⟩

/-- A state that the changes keep in order is in order whenever something is evaluated or called. -/
theorem recur_watched_lockstep (hQ : Interpreter.Kept Q) (hok : ∀ s, Q s → ok s) (stop : Unwind)
    (fuel : Nat) :
    (Recur.ofFuel fuel).Lockstep (diagonal γ False Q) (Recur.watched ok stop fuel) := by
  have hL : (diagonal γ False Q).Lawful := diagonal_lawful hQ
  induction fuel with
  | zero => exact Recur.ofFuel_lockstep hL (.inl rfl)
  | succ fuel ih =>
    refine ⟨.inl rfl, trivial, ?_, ?_⟩
    · intro p e env he henv
      have heval := (ih.inStep p).evalNode hL.scene (e := e) he henv
      exact watched_lockstep hok stop (fun _ _ h => h.1) (.located heval (.refl _))
    · intro p f args hf hargs
      exact watched_lockstep hok stop (fun _ _ h => h.1) (ih.callValue hL f args hf hargs)

end Pairing

/-- However evaluations and calls end, they come back to the depth and the module they began with;
stopped wherever there are too many calls under way, they would end in the same way. Their logs only
grow, and the futures that were there stay as they are; and so it is with the slices of tasks. -/
theorem slice_is_atomic {s : Interpreter γ} (hs : s.WithinLimit) (fuel : Nat) :
    (∀ e env, s.Resumes (endState (evalWithin fuel e env s)) ∧
      ∀ stop, (Recur.watched Interpreter.WithinLimit stop fuel).eval e env s =
        evalWithin fuel e env s) ∧
    (∀ f args, s.Resumes (endState (callWithin fuel f args s)) ∧
      ∀ stop, (Recur.watched Interpreter.WithinLimit stop fuel).call f args s =
        callWithin fuel f args s) ∧
    (∀ m, s.Extends (endState ((Recur.ofFuel fuel).runMachine m s))) ∧
    ∀ c, s.Extends (endState ((Recur.ofFuel fuel).runCombinator c s)) := by
  have hL : (Pairing.diagonal γ False s.Extends).Lawful :=
    Pairing.diagonal_lawful (Interpreter.kept_extends s)
  have hsteady := Recur.ofFuel_lockstep hL (n := fuel) (.inl rfl)
  have hwatched (stop : Unwind) := Pairing.recur_watched_lockstep (γ := γ)
    Interpreter.kept_withinLimit (fun _ h => h) stop fuel
  have hslice (body : TaskBody) :
      s.Extends (endState ((Recur.ofFuel fuel).runBodyOf body s)) := by
    have hrun := hsteady.runBodyOf hL (m := s.standing) trivial body.permitted_all
    exact (Pairing.diagonal_same (fun _ _ h => h.eq trivial) hrun (.refl s)).2.1
  refine ⟨fun e env => ⟨?_, fun stop => ?_⟩, fun f args => ⟨?_, fun stop => ?_⟩,
    fun m => hslice (.machine m), fun c => hslice (.combinator c)⟩
  · have heval := hsteady.eval (m := s.standing) (e := e) trivial (Value.frames_permitted_all env)
    have hends := (Pairing.diagonal_same (fun _ _ h => h.1) heval (.refl s)).2
    exact .of_standing hends.1 hends.2
  · have heval := (hwatched stop).eval (m := s.standing) (e := e) trivial
      (Value.frames_permitted_all env)
    exact (Pairing.diagonal_same (fun _ _ h => h.1) heval hs).1
  · have hcall := hsteady.call (m := s.standing) f args f.permitted_all
      (Value.items_permitted_all args)
    have hends := (Pairing.diagonal_same (fun _ _ h => h.1) hcall (.refl s)).2
    exact .of_standing hends.1 hends.2
  · have hcall := (hwatched stop).call (m := s.standing) f args f.permitted_all
      (Value.items_permitted_all args)
    exact (Pairing.diagonal_same (fun _ _ h => h.1) hcall hs).1

/-- `fn dive() -> Int { log("down"); dive() }` -/
def dive : FunctionDecl :=
  let down : Expr := .call .none (.name .none "log") [.literal .none (.text "down")]
  let again : Expr := .call .none (.name .none "dive") []
  ⟨some "dive", [], some (.named .none "Int" []), .block .none [.expr down] (some again), false,
    .none⟩

/-- A program with the function `dive` alone, which was run with room for two calls. -/
def diveState : Interpreter StockGateway :=
  let unit : ModuleUnit := ⟨"main", ⟨[⟨.function dive, false, .none⟩]⟩, []⟩
  ((Interpreter.start ⟨(Check.collectSchemas [unit]).table, [], []⟩ ⟨2, false, 1000, false⟩
    (.null [])).execute 3 [unit]).2

/-- The third call fails, and all calls have ended then. -/
theorem dive_comes_back :
    diveState.WithinLimit ∧
      (endState (callWithin 20 (.function ⟨0, []⟩ (.closure dive Env.empty 0)) [] diveState)).log =
        #["down", "down"] ∧
      diveState.Resumes
        (endState (callWithin 20 (.function ⟨0, []⟩ (.closure dive Env.empty 0)) [] diveState)) := by
  have hlimit : diveState.WithinLimit := by decide +kernel
  refine ⟨hlimit, ?_, ?_⟩
  · decide +kernel
  · exact ((slice_is_atomic hlimit 20).2.1 _ _).1

end StreamLang
