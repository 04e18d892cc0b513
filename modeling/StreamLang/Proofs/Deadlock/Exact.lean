import StreamLang.Proofs.Deadlock.Verdict
import StreamLang.Proofs.Service.Replies

/-! The verdict that a future never resolves is right, and so is the end of a run, with a provider that has no
answer out of nothing. When a step makes no progress no task is ready and no answer is to come, and
from then on steps change no task and no future. -/

namespace StreamLang

section

variable {γ : Type} [Gateway γ]

/-- The states that a provider comes to while it is sent no request. -/
inductive Gateway.Unasked (g : γ) : γ → Prop
  | refl : Unasked g g
  | poll {h k : γ} {reply : Except String (Option Completion)} (hg : Unasked g h)
      (hpoll : Gateway.poll h = (reply, k)) : Unasked g k
  | wait {h k : γ} {reply : Except String Unit} (hg : Unasked g h)
      (hwait : Gateway.wait h = (reply, k)) : Unasked g k

theorem Gateway.Unasked.trans {g h k : γ} (hg : Unasked g h) (hk : Unasked h k) : Unasked g k := by
  induction hk with
  | refl => exact hg
  | poll _ hpoll ih => exact ih.poll hpoll
  | wait _ hwait ih => exact ih.wait hwait

/-- The provider gives no answer until it is asked again. -/
def Gateway.Silent (g : γ) : Prop := ∀ h, Unasked g h → ∀ c, (Gateway.poll h).1 ≠ .ok (some c)

variable (γ) in
/-- When the provider has no answer and none is to come, it gives none until it is asked again. -/
def Gateway.StaysEmpty : Prop :=
  ∀ g g' : γ, Gateway.poll g = (.ok none, g') → Gateway.outstanding g' = 0 → Silent g'

/-- Nothing can move: no task is ready, no answer is to come, and every task waits for a future that is
pending. -/
structure Interpreter.AtRest (s : Interpreter γ) : Prop where
  queue : s.scheduler.ready.toList = []
  outstanding : Gateway.outstanding s.gateway = 0
  waiting : ∀ id task, s.scheduler.tasks[id]? = some task → task.state = .suspended ∧
    ∃ f, s.scheduler.futures.state? f = some .pending ∧ id ∈ s.scheduler.futures.waiters f

/-- Nothing can move while the future is pending, and no number of steps changes that. -/
structure Interpreter.Deadlocked (s : Interpreter γ) (id : FutureId) : Prop extends s.AtRest where
  pending : s.scheduler.futures.state? id = some .pending
  forever : ∀ fuel n, ((Recur.ofFuel fuel).after n s).scheduler = s.scheduler

/-- No task is ready, and the provider is silent. -/
structure Interpreter.Still (s : Interpreter γ) : Prop where
  nextReady : s.scheduler.nextReady = (none, s.scheduler)
  silent : Gateway.Silent s.gateway

namespace Recur

variable {r : Recur γ} {s t : Interpreter γ} {out : List (Task TaskBody)}

/-- No task was ready, the provider had no answer, and none is to come. -/
structure Idled (s t : Interpreter γ) : Prop where
  queue : s.scheduler.ready.toList = []
  nextReady : s.scheduler.nextReady = (none, s.scheduler)
  polled : ∃ gateway, Gateway.poll s.gateway = (.ok none, gateway) ∧
    Gateway.outstanding gateway = 0 ∧ t = { s with gateway }

/-- That is the only way for a step to make no progress. -/
theorem idled_of_step (hs : s.scheduler.Invariant out) (h : r.step s = .ok false t) :
    Idled s t := by
  have hlead : Run.Leads (fun _ => True) (fun u => u = s) r.step
      fun moved u => moved = false → Idled s u := by
    refine .bind (Q := fun task? u => task? = none → s.scheduler.ready.toList = [] ∧
      s.scheduler.nextReady = (none, s.scheduler) ∧ u = s) (.modifyGet ?_) fun task? => ?_
    · rintro _ rfl hnone
      rcases hs.nextReady_cases with ⟨hqueue, hnext⟩ | ⟨_, _, _, -, -, hnext⟩
      · rw [hnext]
        exact ⟨hqueue, rfl, rfl⟩
      · rw [hnext] at hnone
        cases hnone
    cases task? with
    | some task =>
      exact .bind (.anything _) fun _ => .bind (.anything _) fun _ => .pure fun _ _ => nofun
    | none =>
      refine .bind (Q := fun c? u => c? = none → s.scheduler.ready.toList = [] ∧
        s.scheduler.nextReady = (none, s.scheduler) ∧ ∃ gateway,
          Gateway.poll s.gateway = (.ok none, gateway) ∧ u = { s with gateway })
        (.ofGateway ?_ fun _ _ _ _ _ => trivial) fun c? => ?_
      · rintro u _ gateway hu hpoll rfl
        obtain ⟨hqueue, hnext, rfl⟩ := hu rfl
        exact ⟨hqueue, hnext, gateway, hpoll, rfl⟩
      cases c? with
      | some c => exact .bind (.anything _) fun _ => .pure fun _ _ => nofun
      | none =>
        refine .get_bind fun u hu => ?_
        split
        · exact .bind (.anything _) fun _ => .pure fun _ _ => nofun
        · rename_i hzero
          refine .pure ?_
          rintro _ rfl -
          obtain ⟨hqueue, hnext, gateway, hpoll, rfl⟩ := hu rfl
          exact ⟨hqueue, hnext, gateway, hpoll, Nat.eq_zero_of_not_pos hzero, rfl⟩
  have hend := hlead s rfl
  rw [h] at hend
  exact hend rfl

/-- While the provider is silent and no task is ready, a step changes at most the provider. -/
theorem still_step (hs : s.Still) (r : Recur γ) :
    (endState (r.step s)).scheduler = s.scheduler ∧ (endState (r.step s)).Still := by
  let P : Interpreter γ → Prop := fun u =>
    u.scheduler = s.scheduler ∧ Gateway.Unasked s.gateway u.gateway
  have hkeeps : Run.Keeps P r.step := by
    refine .bind (Q := fun task? u => task? = none ∧ P u) (.modifyGet ?_) fun task? => ?_
    · rintro u ⟨hscheduler, hgateway⟩
      rw [hscheduler, hs.nextReady]
      exact ⟨rfl, rfl, hgateway⟩
    cases task? with
    | some task => exact fun _ hu => nomatch hu.1
    | none =>
      refine .bind (Q := fun c? u => c? = none ∧ P u) (.ofGateway ?_ ?_) fun c? => ?_
      · rintro u c? gateway ⟨-, hscheduler, hgateway⟩ hpoll
        have hnone : c? = none := by
          cases c? with
          | none => rfl
          | some c => exact absurd (congrArg Prod.fst hpoll) (hs.silent _ hgateway c)
        exact ⟨hnone, hscheduler, hgateway.poll hpoll⟩
      · rintro u message gateway ⟨-, hscheduler, hgateway⟩ hpoll
        exact ⟨hscheduler, hgateway.poll hpoll⟩
      cases c? with
      | some c => exact fun _ hu => nomatch hu.1
      | none =>
        refine .get_bind fun u hu => ?_
        have hwait : Run.Keeps P (Run.ofGateway (Gateway.wait : γ → Except String Unit × γ)) := by
          refine .ofGateway ?_ ?_
          all_goals
            rintro v _ gateway ⟨hscheduler, hgateway⟩ hreply
            exact ⟨hscheduler, hgateway.wait hreply⟩
        split
        · refine .bind (.weaken hwait ?_ (fun _ _ h => h) fun _ h => h) fun _ => .pure fun _ h => h
          rintro _ rfl
          exact hu.2
        · refine .pure ?_
          rintro _ rfl
          exact hu.2
  obtain ⟨hscheduler, hgateway⟩ := hkeeps.endState (s := s) ⟨rfl, .refl⟩
  refine ⟨hscheduler, ?_, fun h hh => hs.silent h (hgateway.trans hh)⟩
  rw [hscheduler]
  exact hs.nextReady

theorem still_after (hs : s.Still) (r : Recur γ) (n : Nat) :
    (r.after n s).scheduler = s.scheduler := by
  induction n generalizing s with
  | zero => rfl
  | succ n ih =>
    obtain ⟨hscheduler, hstill⟩ := still_step hs r
    rw [after, ih hstill, hscheduler]

namespace Idled

variable (h : Idled s t)
include h

theorem scheduler_eq : t.scheduler = s.scheduler := by
  obtain ⟨gateway, -, -, rfl⟩ := h.polled
  rfl

theorem still (hempty : Gateway.StaysEmpty γ) : t.Still := by
  have hnext := h.nextReady
  obtain ⟨gateway, hpoll, hzero, rfl⟩ := h.polled
  exact ⟨hnext, hempty _ _ hpoll hzero⟩

theorem atRest (hs : s.scheduler.Invariant out) : t.AtRest := by
  have hqueue := h.queue
  obtain ⟨gateway, -, hzero, rfl⟩ := h.polled
  refine ⟨hqueue, hzero, fun id task htask => ?_⟩
  have hsuspended : task.state = .suspended := by
    refine (hs.resting htask).resolve_left fun hready => ?_
    have hmem : id ∈ s.scheduler.ready.toList := hs.mem_queue.2 ⟨task, htask, hready⟩
    rw [hqueue] at hmem
    cases hmem
  obtain ⟨f, hf⟩ := hs.registered htask hsuspended
  exact ⟨hsuspended, f, hs.pending hf, hf⟩

theorem deadlocked (hs : s.scheduler.Invariant out) (hempty : Gateway.StaysEmpty γ)
    {id : FutureId} (hid : s.scheduler.futures.state? id = some .pending) : t.Deadlocked id where
  toAtRest := h.atRest hs
  pending := h.scheduler_eq ▸ hid
  forever _ n := still_after (h.still hempty) _ n

end Idled

/-- A future that is still pending in the state that a verdict leaves was pending all along, and stays so. -/
theorem pending_after_verdict {line line' bound : Nat} {id : FutureId} (hempty : Gateway.StaysEmpty γ)
    (hs : ∀ n, ∃ out, (r.after n s).scheduler.Invariant out)
    (h : r.settle line id bound s = .error (.fail .neverResolves line') t) :
    t.Deadlocked id ∧ ∀ n, (r.after n s).scheduler.futures.state? id = some .pending := by
  obtain ⟨-, m, hbefore, hlast⟩ := pending_of_verdict h
  obtain ⟨out, hm⟩ := hs m
  have hidled := idled_of_step hm hlast
  have hdead := hidled.deadlocked hm hempty (hbefore m (Nat.le_refl m))
  refine ⟨hdead, fun n => ?_⟩
  rcases Nat.lt_or_ge m n with hlt | hle
  · obtain ⟨k, rfl⟩ := Nat.exists_eq_add_of_lt hlt
    rw [Nat.add_assoc, after_add, after_succ_of_ok hlast, still_after (hidled.still hempty)]
    exact hdead.pending
  · exact hbefore n hle

-- where the verdict of a run comes from

/-- The computation comes to the verdict only by working for a future, from a state with the property. -/
def Judges (r : Recur γ) (Q : Interpreter γ → Prop) {α : Type} (x : Run γ α) : Prop :=
  ∀ s, Q s → ∀ line t, x s = .error (.fail .neverResolves line) t →
    ∃ id u, Q u ∧ r.settle line id r.fuel u = .error (.fail .neverResolves line) t

namespace Judges

variable {α β : Type} {Q : Interpreter γ → Prop}

theorem of_hopeful {x : Run γ α} (h : Run.Hopeful x) : r.Judges Q x :=
  fun s _ line t hx => absurd hx (h s line t)

theorem bind {x : Run γ α} {f : α → Run γ β} (hx : r.Judges Q x) (hkeeps : Run.Keeps Q x)
    (hf : ∀ a, r.Judges Q (f a)) : r.Judges Q (x >>= f) := by
  intro s hs line t h
  have hend := hkeeps s hs
  cases hrun : x s with
  | ok a u =>
    rw [hrun] at hend
    rw [Eval.bind_of_ok hrun] at h
    exact hf a u hend line t h
  | error w u =>
    rw [Eval.bind_of_error hrun] at h
    obtain ⟨rfl, rfl⟩ := EStateM.Result.error.inj h
    exact hx s hs line u hrun

theorem get_bind {f : Interpreter γ → Run γ α} (h : ∀ s, r.Judges Q (f s)) :
    r.Judges Q (get >>= f) :=
  fun s hs => h s s hs

theorem pure (a : α) : r.Judges Q (Pure.pure a : Run γ α) := .of_hopeful (.pure a)

theorem forM {ι : Type} {is : List ι} {f : ι → Run γ PUnit} (h : ∀ i, r.Judges Q (f i))
    (hkeeps : ∀ i, Run.Keeps Q (f i)) : r.Judges Q (is.forM f) := by
  induction is with
  | nil => exact .pure _
  | cons i is ih => exact .bind (h i) (hkeeps i) fun _ => ih

end Judges

namespace Sustains

variable {Q : List (Task TaskBody) → Interpreter γ → Prop} {fuel : Nat}
  (h : (ofFuel fuel).Sustains Q)
include h

omit h in
theorem settle_judges (line : Nat) (id : FutureId) :
    (ofFuel fuel).Judges (Q []) ((ofFuel fuel).settle line id (ofFuel (γ := γ) fuel).fuel) := by
  intro s hs line' t hverdict
  obtain ⟨rfl, -⟩ := pending_of_verdict hverdict
  exact ⟨id, s, hs, hverdict⟩

theorem runRoot_judges (line : Nat) (e : Expr) :
    (ofFuel fuel).Judges (Q []) ((ofFuel fuel).runRoot line e) := by
  refine .get_bind fun s => .bind (.of_hopeful (.modifyGet _)) ?_ fun id => settle_judges line id
  exact .modifyGet fun u hu => (h.kept []).spawn hu _

theorem runExpr_judges (line : Nat) (e : Expr) :
    (ofFuel fuel).Judges (Q []) ((ofFuel fuel).runExpr line e) := by
  refine .bind (h.runRoot_judges line e) (h.runRoot line e) fun v => ?_
  cases v with
  | future id => exact settle_judges line id
  | _ => exact .pure _

theorem runLet_judges (module line : Nat) (d : LetDecl) :
    (ofFuel fuel).Judges (Q []) ((ofFuel fuel).runLet module line d) := by
  refine .bind (h.runRoot_judges line d.value) (h.runRoot line d.value) fun v => ?_
  refine .bind (.of_hopeful ((checkOptional_hopeful fuel d.ty v line).atTop line))
    (.atTop (keeps_checkOptional (h.kept []) fuel d.ty v line) line) fun _ => .of_hopeful ?_
  exact .bind (.atTop (Run.destructure_hopeful d.pattern v) line) fun _ => .modifyGet _

theorem runItem_judges (module : Nat) (isMain : Bool) (i : Item) :
    (ofFuel fuel).Judges (Q []) ((ofFuel fuel).runItem module isMain i) := by
  refine .bind (.of_hopeful (.modifyGet _))
    (h.inside (fun _ => rfl) (fun _ => rfl) (fun _ => rfl) fun _ => rfl) fun _ => ?_
  cases i.kind with
  | binding d => exact h.runLet_judges module _ d
  | expr e =>
    refine .bind (h.runExpr_judges _ e) (h.runExpr _ e) fun v => .of_hopeful ?_
    split
    · exact .modifyGet _
    · exact .pure _
  | _ => exact .pure _

theorem after {s : Interpreter γ} (hs : Q [] s) (n : Nat) : Q [] ((ofFuel fuel).after n s) := by
  induction n generalizing s with
  | zero => exact hs
  | succ n ih => exact ih (h.step.endState hs)

variable (hany : ∀ s t : Interpreter γ,
  t.outside = s.outside → t.schemas = s.schemas → Q [] s → Q [] t)
include hany

theorem runUnits_judges (units : List ModuleUnit) :
    (ofFuel fuel).Judges (Q []) ((ofFuel fuel).runUnits units) := by
  have hitem (module : Nat) (isMain : Bool) (i : Item) :
      Run.Keeps (Q []) ((ofFuel fuel).runItem module isMain i) :=
    h.runItem module isMain i (fun _ _ _ _ => keeps_modifyGet hany (fun _ => rfl) fun _ => rfl)
      fun _ _ hs => hs
  induction units with
  | nil => exact .pure _
  | cons u rest ih =>
    refine .bind (.bind (.of_hopeful (Run.load_hopeful u)) (keeps_load hany u) fun module => ?_)
      (.bind (keeps_load hany u) fun module => .forM fun i _ => hitem module _ i) fun _ => ih
    exact .forM (h.runItem_judges module _) (hitem module _)

/-- A run that fails with the verdict fails in the loop that works for a future. -/
theorem verdict_of_execute {units : List ModuleUnit} {s t : Interpreter γ} {line : Nat}
    (hs : Q [] s) (hrun : s.execute fuel units = (.failed .neverResolves line, t)) :
    ∃ id u, Q [] u ∧
      (ofFuel fuel).settle line id fuel u = .error (.fail .neverResolves line) t := by
  have hjudges : (ofFuel fuel).Judges (Q []) ((ofFuel fuel).runProgram units) :=
    .bind (.of_hopeful (.modifyGet _)) (keeps_modifyGet hany (fun _ => rfl) fun _ => rfl) fun _ =>
      .bind (h.runUnits_judges hany units) (h.runUnits hany units) fun _ =>
        .of_hopeful (drain_hopeful _ _)
  refine hjudges s hs line t ?_
  unfold Interpreter.execute at hrun
  cases hprogram : (ofFuel fuel).runProgram units s with
  | ok _ u =>
    rw [hprogram] at hrun
    cases hrun
  | error w u =>
    rw [hprogram] at hrun
    cases w with
    | fail fault l => cases hrun; rfl
    | early | exhausted => cases hrun

omit hany in
/-- The last step of a run that ends without a failure makes no progress. -/
theorem last_step_of_drain {bound : Nat} {s t : Interpreter γ} (hs : Q [] s)
    (hdrain : (ofFuel fuel).drain bound s = .ok () t) :
    ∃ u, Q [] u ∧ (ofFuel fuel).step u = .ok false t := by
  induction bound generalizing s with
  | zero => cases hdrain
  | succ bound ih =>
    rw [Recur.drain] at hdrain
    have hend := h.step s hs
    cases hstep : (ofFuel fuel).step s with
    | error w u =>
      rw [Eval.bind_of_error hstep] at hdrain
      cases hdrain
    | ok moved u =>
      rw [hstep] at hend
      rw [Eval.bind_of_ok hstep] at hdrain
      cases moved with
      | true => exact ih hend hdrain
      | false =>
        cases hdrain
        exact ⟨s, hs, hstep⟩

theorem last_step_of_execute {units : List ModuleUnit} {s t : Interpreter γ} (hs : Q [] s)
    (hrun : s.execute fuel units = (.finished, t)) :
    ∃ u, Q [] u ∧ (ofFuel fuel).step u = .ok false t := by
  have hprogram : (ofFuel fuel).runProgram units s = .ok () t := by
    unfold Interpreter.execute at hrun
    cases hprogram : (ofFuel fuel).runProgram units s with
    | ok _ u =>
      rw [hprogram] at hrun
      cases hrun
      rfl
    | error w u =>
      rw [hprogram] at hrun
      cases w <;> cases hrun
  have hclear : Run.Keeps (Q []) (modify fun s : Interpreter γ => { s with results := #[] }) :=
    keeps_modifyGet hany (fun _ => rfl) fun _ => rfl
  obtain ⟨_, u, hcleared, hrest⟩ := Eval.bind_eq_ok hprogram
  obtain ⟨_, w, hunits, hdrain⟩ := Eval.bind_eq_ok hrest
  have hu : Q [] u := hclear.of_ok hs hcleared
  exact h.last_step_of_drain ((h.runUnits hany units).of_ok hu hunits) hdrain

end Sustains

end Recur

open Interpreter (OnCourse)

/-- With a provider that gives no answer out of nothing: when the loop that works for a future, in any state
that a program comes to, says that it never resolves, nothing can move in the state that is left, nor
after any number of steps from there; and before, the future was pending after every step. A run
that fails with the verdict fails in this loop, and a run that ends without a failure leaves nothing
that can move. (A program can fail a future with the words of the verdict; that is another fault.) -/
theorem deadlock_verdict_exact (hempty : Gateway.StaysEmpty γ) {checked : Checked}
    {options : Options} {gateway : γ} {cs : List Completion} {s : Interpreter γ}
    {out : List (Task TaskBody)}
    (h : (Interpreter.start checked options gateway).Course [] cs s out) (fuel : Nat) :
    Fault.neverResolves.message = "future can never resolve" ∧
    (∀ line id bound line' t,
      (Recur.ofFuel fuel).settle line id bound s = .error (.fail .neverResolves line') t →
      t.Deadlocked id ∧
        ∀ n, ((Recur.ofFuel fuel).after n s).scheduler.futures.state? id = some .pending) ∧
    (∀ units line t, s.execute fuel units = (.failed .neverResolves line, t) →
      ∃ id u, OnCourse s out [] u ∧
        (Recur.ofFuel fuel).settle line id fuel u = .error (.fail .neverResolves line) t ∧
        t.Deadlocked id ∧
        ∀ n, ((Recur.ofFuel fuel).after n u).scheduler.futures.state? id = some .pending) ∧
    ∀ units t, s.execute fuel units = (.finished, t) → t.AtRest := by
  have horderly := h.orderly (Interpreter.start_orderly checked options gateway)
  have hcourse : (Recur.ofFuel fuel).Sustains (OnCourse s out) := Recur.sustains_onCourse fuel
  have hany (u v : Interpreter γ) (houtside : v.outside = u.outside) (_ : v.schemas = u.schemas)
      (hu : OnCourse s out [] u) : OnCourse s out [] v :=
    hu.move fun _ => ⟨none, .inside houtside⟩
  have hinvariant (u : Interpreter γ) (hu : OnCourse s out [] u) :
      ∃ out', u.scheduler.Invariant out' := by
    obtain ⟨_, out', hreached⟩ := hu
    exact ⟨_, (hreached.orderly horderly).reached.invariant⟩
  have hverdict (u : Interpreter γ) (hu : OnCourse s out [] u) (line : Nat) (id : FutureId)
      (bound line' : Nat) (t : Interpreter γ)
      (hsettle : (Recur.ofFuel fuel).settle line id bound u =
        .error (.fail .neverResolves line') t) :=
    Recur.pending_after_verdict hempty (fun n => hinvariant _ (hcourse.after hu n)) hsettle
  have hstart : OnCourse s out [] s := ⟨[], out, .refl⟩
  refine ⟨rfl, hverdict s hstart, fun units line t hrun => ?_, fun units t hrun => ?_⟩
  · obtain ⟨id, u, hu, hsettle⟩ := hcourse.verdict_of_execute hany hstart hrun
    exact ⟨id, u, hu, hsettle, hverdict u hu _ _ _ _ _ hsettle⟩
  · obtain ⟨u, hu, hstep⟩ := hcourse.last_step_of_execute hany hstart hrun
    obtain ⟨out', hu'⟩ := hinvariant u hu
    exact (Recur.idled_of_step hu' hstep).atRest hu'

end

-- providers that need no world

namespace StockGateway

/-- A provider from which no answer is to come has none, and stays so. -/
theorem silent_of_outstanding {g : StockGateway} (h : outstanding g = 0) : Gateway.Silent g := by
  have hpoll (g : StockGateway) (hg : outstanding g = 0) :
      (poll g).1 = .ok none ∧ outstanding (poll g).2 = 0 := by
    cases g with
    | null queue | slow _ _ _ queue =>
      obtain rfl := List.eq_nil_of_length_eq_zero hg
      exact ⟨rfl, rfl⟩
    | scripted script =>
      have hqueue : script.queue = [] := List.eq_nil_of_length_eq_zero hg
      have hnone : script.takeRequest? = none := by
        unfold Script.takeRequest?
        rw [hqueue]
        split <;> rfl
      have hsame : script.poll = (none, script) := by rw [Script.poll, hnone]
      simp [poll, hsame, outstanding, hqueue]
    | offline message => exact ⟨rfl, rfl⟩
    | broken message count =>
      obtain rfl : count = 0 := hg
      exact ⟨rfl, rfl⟩
    | stalled limit message waits count => exact ⟨rfl, hg⟩
  have hwait (g : StockGateway) : outstanding (wait g).2 = outstanding g := by
    cases g <;> rfl
  intro k hk
  have hzero : outstanding k = 0 := by
    induction hk with
    | refl => exact h
    | poll _ hreply ih =>
      obtain rfl := congrArg Prod.snd hreply
      exact (hpoll _ ih).2
    | wait _ hreply ih =>
      obtain rfl := congrArg Prod.snd hreply
      exact (hwait _).trans ih
  intro c hc
  cases ((hpoll k hzero).1.symm.trans hc)

theorem staysEmpty : Gateway.StaysEmpty StockGateway :=
  fun _ _ _ hzero => silent_of_outstanding hzero

end StockGateway

/-- A new interpreter, with a provider that takes calls of `ask` and never answers them. -/
def withheldState : Interpreter StockGateway :=
  .start ⟨(Check.collectSchemas []).table, [], []⟩ .default (.scripted ⟨[], [.ask], false, [], []⟩)

/-- `await ask("q");`, on the first line. -/
def awaitWithheld : List ModuleUnit :=
  let ask : Expr := .call .none (.name .none "ask") [.literal .none (.text "q")]
  [⟨"main", ⟨[⟨.expr (.await .none ask), false, ⟨0, 0, 1, 1⟩⟩]⟩, []⟩]

/-- The line of the item, if a run ends with the verdict. -/
def Ending.verdictLine? : Ending → Option Nat
  | .failed .neverResolves line => some line
  | _ => none

theorem withheld_reply_is_deadlock :
    ∃ id t, withheldState.execute 10 awaitWithheld = (.failed .neverResolves 1, t) ∧
      t.Deadlocked id := by
  obtain ⟨-, -, hverdict, -⟩ := deadlock_verdict_exact StockGateway.staysEmpty
    (.refl : withheldState.Course [] [] withheldState []) 10
  have hline : (withheldState.execute 10 awaitWithheld).1.verdictLine? = some 1 := by
    decide +kernel
  unfold Ending.verdictLine? at hline
  split at hline
  case h_2 => cases hline
  case h_1 line hending =>
    cases hline
    have hrun : withheldState.execute 10 awaitWithheld = (.failed .neverResolves 1, _) :=
      Prod.ext hending rfl
    obtain ⟨id, -, -, -, hdead, -⟩ := hverdict awaitWithheld 1 _ hrun
    exact ⟨id, _, hrun, hdead⟩

end StreamLang
