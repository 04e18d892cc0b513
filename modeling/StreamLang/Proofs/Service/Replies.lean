import StreamLang.Gateway.Stock
import StreamLang.Proofs.Running
import StreamLang.Proofs.Scheduler.Delivery
import StreamLang.Proofs.Service.Course

/-! Requests and their answers. All that a run of a program does is a course of moves, so that in every
state a run comes to the table of requests is in order, and each request gets the first answer to it. -/

namespace StreamLang

variable {γ : Type} [Gateway γ]

namespace Interpreter

/-- What no move changes that leaves the same tasks out, no evaluation changes. -/
theorem kept_of_move {Q : Interpreter γ → Prop}
    (h : ∀ {s t}, Q s → (∀ out, ∃ c, s.Move out c t out) → Q t) : Kept Q where
  inside hs houtside _ _ _ := h hs fun _ => ⟨_, .inside houtside⟩
  log hs _ := h hs fun _ => ⟨_, .inside rfl⟩
  deeper hs _ := h hs fun _ => ⟨_, .inside rfl⟩
  shallower hs := h hs fun _ => ⟨_, .inside rfl⟩
  markObserved hs id := h hs fun _ => ⟨_, .markObserved id⟩
  settledFuture hs state hsettled := h hs fun _ => ⟨_, .settledFuture state hsettled⟩
  spawn hs body := h hs fun _ => ⟨_, .spawn body⟩
  dispatch hs op args := h hs fun _ => ⟨_, .dispatch op args⟩

end Interpreter

theorem Interpreter.Move.handBack (s : Interpreter γ) (before after : List (Task TaskBody))
    (task : Task TaskBody) (step : TaskStep) :
    s.Move (before ++ task :: after) none
      { s with scheduler := s.scheduler.handBack task step } (before ++ after) := by
  cases step with
  | complete v => exact .complete v
  | suspend on body => exact .suspend body on
  | fail f => exact .fail f

namespace Recur

/-- A property that the moves keep, whatever other tasks are out, is kept by all that is done around the
evaluator, if running a task keeps it. -/
theorem sustains_of_move {Q : List (Task TaskBody) → Interpreter γ → Prop} {fuel : Nat}
    (hmove : ∀ {held held' s t}, held ⊆ held' → Q held s →
      (∀ out, ∃ c, s.Move (held ++ out) c t (held' ++ out)) → Q held' t)
    (hrelease : ∀ {held s}, Q held s → Q [] s)
    (hrunTask : ∀ task, Run.Leads (Q []) (Q [task]) ((ofFuel fuel).runTask task) fun _ => Q []) :
    (ofFuel fuel).Sustains Q where
  kept held := Interpreter.kept_of_move fun hs h =>
    hmove (List.Subset.refl held) hs fun out => h (held ++ out)
  release := hrelease
  take hs hready := hmove (List.nil_subset _) hs fun _ => ⟨none, .take hready⟩
  idle hs hready := hmove (List.nil_subset _) hs fun _ => ⟨none, .idle hready⟩
  runTask := hrunTask
  answer hs hpoll := hmove (List.nil_subset _) hs fun _ => ⟨some _, .answer hpoll⟩
  poll hs hpoll hnone := hmove (List.nil_subset _) hs fun _ => ⟨none, .poll hpoll hnone⟩
  wait hs hwait := hmove (List.nil_subset _) hs fun _ => ⟨none, .wait hwait⟩

end Recur

namespace Interpreter

/-- A course leads to the state; the tasks `held` were taken out last. -/
def OnCourse (s₀ : Interpreter γ) (out₀ held : List (Task TaskBody)) (s : Interpreter γ) : Prop :=
  ∃ cs out, s₀.Course out₀ cs s (held ++ out)

variable {s₀ s t : Interpreter γ} {out₀ held held' : List (Task TaskBody)}

theorem OnCourse.move (h : OnCourse s₀ out₀ held s)
    (hmove : ∀ out, ∃ c, s.Move (held ++ out) c t (held' ++ out)) : OnCourse s₀ out₀ held' t := by
  obtain ⟨cs, out, hcourse⟩ := h
  obtain ⟨c, hmove⟩ := hmove out
  exact ⟨_, out, hcourse.move hmove⟩

/-- A task that is not handed back stays out. -/
theorem OnCourse.release (h : OnCourse s₀ out₀ held s) : OnCourse s₀ out₀ [] s := by
  obtain ⟨cs, out, hcourse⟩ := h
  exact ⟨cs, held ++ out, hcourse⟩

end Interpreter

open Interpreter (OnCourse)

section

variable {s₀ : Interpreter γ} {out₀ : List (Task TaskBody)} (fuel : Nat)

theorem Recur.sustains_onCourse : (ofFuel fuel).Sustains (OnCourse s₀ out₀) := by
  refine sustains_of_move (fun _ hs hmove => hs.move hmove) (fun hs => hs.release) fun task => ?_
  have hkept : Interpreter.Kept (OnCourse s₀ out₀ [task]) :=
    Interpreter.kept_of_move fun hs hmove => hs.move fun out => hmove ([task] ++ out)
  exact leads_runTask hkept fuel task (fun _ hs => hs.release) fun s step hs =>
    hs.move fun out => ⟨none, .handBack s [] out task step⟩

namespace Interpreter

/-- Whatever a program does, it does by moves. -/
theorem execute_onCourse (fuel : Nat) (units : List ModuleUnit) {s : Interpreter γ}
    (hs : OnCourse s₀ out₀ [] s) : OnCourse s₀ out₀ [] (s.execute fuel units).2 :=
  (Recur.sustains_onCourse fuel).execute
    (fun _ _ houtside _ hs => hs.move fun _ => ⟨none, .inside houtside⟩) units hs

omit [Gateway γ] in
theorem start_orderly (checked : Checked) (options : Options) (gateway : γ) :
    (start checked options gateway).Orderly [] where
  requests_nodup := List.nodup_nil
  futures_nodup := List.nodup_nil
  pending := List.forall_mem_nil _
  foreign := List.forall_mem_nil _
  reached := .empty
  owned_lt := by
    rintro f ⟨task, hplace, -⟩
    simp [start, Scheduler.empty] at hplace
  request_lt := List.forall_mem_nil _

/-- The value settles the future of the request, and no other, and the request leaves the table. -/
structure Answered (o : Outstanding) (v : Value) (s t : Interpreter γ) : Prop where
  scheduler : t.scheduler = s.scheduler.resolve o.future v
  state : t.scheduler.futures.state? o.future = some (.resolved v)
  others : ∀ f, f ≠ o.future → t.scheduler.futures.state? f = s.scheduler.futures.state? f
  requests : ∀ p, p ∈ t.requests ↔ p ∈ s.requests ∧ p ≠ o

omit [Gateway γ] in
theorem Orderly.receive (hs : s.Orderly out₀) {o : Outstanding} {c : Completion}
    (ho : o ∈ s.requests) (hid : o.request = c.id) :
    Answered o (Run.replyValue o.op c.reply) s (endState (Run.receive c s)) := by
  rw [Run.receive_of_some (hs.find?_eq_some.2 ⟨ho, hid⟩)]
  constructor
  case scheduler => rfl
  case state => exact Scheduler.state?_settle_self (hs.pending o ho) _
  case others => exact fun f hf => Scheduler.state?_settle_of_ne hf _
  case requests =>
    intro p
    change p ∈ s.requests.filter _ ↔ _
    rw [List.mem_filter, bne_iff_ne]
    refine and_congr_right fun hp => not_congr ⟨fun heq => ?_, fun heq => heq ▸ hid⟩
    exact hs.eq_of_request_eq hp ho (heq.trans hid.symm)

/-- What sending a request does: one that is refused gets neither a future nor an entry. -/
def Sent (op : ServiceOp) (reply : Except String Unit) (s t : Interpreter γ) : Prop :=
  match reply with
  | .error _ => t.scheduler = s.scheduler ∧ t.requests = s.requests
  | .ok _ => t.scheduler = s.scheduler.createFuture.2 ∧
      t.requests = s.requests ++ [⟨s.nextRequest, s.scheduler.futures.size, op⟩]

theorem dispatch_sent (op : ServiceOp) (args : List Json) (s : Interpreter γ) :
    Sent op (Gateway.dispatch ⟨s.nextRequest, op, args⟩ s.gateway).1 s
      (endState (Run.dispatch op args s)) := by
  cases hreply : Gateway.dispatch ⟨s.nextRequest, op, args⟩ s.gateway with
  | mk reply gateway => cases reply with
    | ok _ =>
      rw [Run.dispatch_of_ok hreply]
      exact ⟨rfl, rfl⟩
    | error message =>
      rw [Run.dispatch_of_error hreply]
      exact ⟨rfl, rfl⟩

end Interpreter

/-- In every state that a program comes to, whatever the provider does: the table of requests is in
order; an answer to a request in it settles the future of that request alone, with the value it gives;
any other answer changes nothing; and a request that is refused leaves no trace. So on every course
from there, and what a program does is such a course, each request gets the first answer to it, and
no other. -/
theorem first_answer_is_delivered {checked : Checked} {options : Options} {gateway : γ}
    {cs : List Completion} {s : Interpreter γ} {out : List (Task TaskBody)}
    (h : (Interpreter.start checked options gateway).Course [] cs s out) :
    s.TableInOrder out ∧
    (∀ c, ∀ o ∈ s.requests, o.request = c.id →
      ∃ v, o.op.Gives c.reply v ∧ Interpreter.Answered o v s (endState (Run.receive c s))) ∧
    (∀ c, (∀ o ∈ s.requests, o.request ≠ c.id) → endState (Run.receive c s) = s) ∧
    (∀ op args, Interpreter.Sent op (Gateway.dispatch ⟨s.nextRequest, op, args⟩ s.gateway).1 s
      (endState (Run.dispatch op args s))) ∧
    (∀ o ∈ s.requests, ∀ cs' t out', s.Course out cs' t out' → Interpreter.Delivered o cs' t) ∧
    ∀ fuel units, ∃ cs' out', s.Course out cs' (s.execute fuel units).2 out' := by
  have hs : s.Orderly out := h.orderly (Interpreter.start_orderly checked options gateway)
  refine ⟨hs.toTableInOrder, ?_, ?_, ?_, ?_, ?_⟩
  · intro c o ho hid
    exact ⟨_, Run.replyValue_gives o.op c.reply, hs.receive ho hid⟩
  · intro c hstray
    have hnone : s.requests.find? (·.request == c.id) = none := by
      rw [List.find?_eq_none]
      intro o ho
      simpa using hstray o ho
    rw [Run.receive_of_none hnone]
    rfl
  · intro op args
    exact Interpreter.dispatch_sent op args s
  · intro o ho cs' t out' hcourse
    exact (hcourse.delivered hs ho).1
  · intro fuel units
    exact Interpreter.execute_onCourse fuel units ⟨[], out, .refl⟩

/-- A program that has asked once, of a provider that answers all requests with an error. -/
def askedState : Interpreter StockGateway :=
  endState (Run.dispatch .ask []
    (Interpreter.start ⟨(Check.collectSchemas []).table, [], []⟩ .default (.null [])))

/-- The answer settles the only future, with its message, and takes the request out of the table. -/
theorem ask_gets_one_answer :
    askedState.requests = [⟨1, 0, .ask⟩] ∧
      Interpreter.Answered ⟨1, 0, .ask⟩ (.err (.text "closed")) askedState
        (endState (Run.receive ⟨1, .error "closed"⟩ askedState)) ∧
      askedState.TableInOrder [] := by
  have hrequests : askedState.requests = [⟨1, 0, .ask⟩] := rfl
  have hcourse : (Interpreter.start ⟨(Check.collectSchemas []).table, [], []⟩ .default
      (StockGateway.null [])).Course [] ([] ++ []) askedState [] :=
    .move .refl (.dispatch .ask [])
  obtain ⟨htable, hanswered, -⟩ := first_answer_is_delivered hcourse
  obtain ⟨v, hgives, hanswer⟩ := hanswered ⟨1, .error "closed"⟩ ⟨1, 0, .ask⟩ (by simp [hrequests]) rfl
  cases hgives
  exact ⟨hrequests, hanswer, htable⟩

end

end StreamLang

/-! The order of answers. To take several answers is to deliver their values, and so it does not
matter for futures, tasks and requests in which order they come, nor when they come between the
operations on tasks. -/

namespace StreamLang

variable {γ : Type}

/-- Takes answers one after the other. -/
def Run.receiveAll (cs : List Completion) : Run γ PUnit := cs.forM Run.receive

namespace Interpreter

variable {s : Interpreter γ} {out : List (Task TaskBody)}

/-- The future that the answer settles, with the value it gets. -/
def answer? (s : Interpreter γ) (c : Completion) : Option (FutureId × Value) :=
  (s.requests.find? (·.request == c.id)).map fun o => (o.future, Run.replyValue o.op c.reply)

/-- Answers to no request are dropped. -/
def answers (s : Interpreter γ) (cs : List Completion) : List (FutureId × Value) :=
  cs.filterMap s.answer?

/-- The state after the answers. -/
def answered (s : Interpreter γ) (cs : List Completion) : Interpreter γ :=
  { s with
    requests := s.requests.filter fun o => cs.all (o.request != ·.id)
    scheduler := s.scheduler.deliverAll (s.answers cs) }

theorem answer?_eq_some (h : s.Orderly out) {c : Completion} {d : FutureId × Value} :
    s.answer? c = some d ↔ ∃ o ∈ s.requests, o.request = c.id ∧
      (o.future, Run.replyValue o.op c.reply) = d := by
  simp only [answer?, Option.map_eq_some_iff, h.find?_eq_some, and_assoc]

/-- An answer does not change what the answers to other requests do. -/
theorem answer?_answered {c d : Completion} (hne : d.id ≠ c.id) :
    (s.answered [c]).answer? d = s.answer? d := by
  have hfind : (s.requests.filter fun o => [c].all (o.request != ·.id)).find?
      (·.request == d.id) = s.requests.find? (·.request == d.id) := by
    rw [List.find?_filter]
    congr 1
    funext o
    by_cases hid : o.request = d.id
    · simp [hid, hne]
    · simp [hid]
  simp only [answer?, answered, hfind]

theorem answered_nil : s.answered [] = s := by
  simp [answered, answers, Scheduler.deliverAll]

theorem answered_cons {c : Completion} {cs : List Completion} (hnew : ∀ d ∈ cs, d.id ≠ c.id) :
    (s.answered [c]).answered cs = s.answered (c :: cs) := by
  have hanswers : (s.answered [c]).answers cs = s.answers cs :=
    List.filterMap_congr fun d hd => answer?_answered (hnew d hd)
  have hall : s.answers (c :: cs) = s.answers [c] ++ s.answers cs := by
    rw [answers, answers, answers, ← List.filterMap_append, List.singleton_append]
  rw [answered, hanswers, answered, answered, hall]
  simp [Scheduler.deliverAll, List.filter_filter, Bool.and_comm]

theorem receive_eq (c : Completion) : Run.receive c s = .ok ⟨⟩ (s.answered [c]) := by
  cases hfind : s.requests.find? (·.request == c.id) with
  | none =>
    have hstray : s.requests.filter (·.request != c.id) = s.requests := by
      rw [List.filter_eq_self]
      intro o ho
      simpa using List.find?_eq_none.1 hfind o ho
    rw [Run.receive_of_none hfind]
    simp [answered, answers, answer?, hfind, hstray, Scheduler.deliverAll]
  | some o =>
    rw [Run.receive_of_some hfind]
    simp [answered, answers, answer?, hfind, Scheduler.deliverAll]

theorem receiveAll_eq {cs : List Completion}
    (hids : (cs.map Completion.id).Nodup) : Run.receiveAll cs s = .ok ⟨⟩ (s.answered cs) := by
  induction cs generalizing s with
  | nil => rw [answered_nil]; rfl
  | cons c rest ih =>
    obtain ⟨hnew, hids⟩ := List.nodup_cons.1 hids
    have hfirst := receive_eq (s := s) c
    rw [← answered_cons fun d hd heq => hnew (heq ▸ List.mem_map_of_mem hd), ← ih hids]
    simp [Run.receiveAll, bind, EStateM.bind, hfirst]

theorem answers_due (h : s.Orderly out) {cs : List Completion}
    (hids : (cs.map Completion.id).Nodup) : s.scheduler.Due (s.answers cs) where
  nodup := by
    rw [List.Nodup, List.pairwise_map, answers, List.pairwise_filterMap]
    rw [List.Nodup, List.pairwise_map] at hids
    refine hids.imp fun {c c'} hne d hd d' hd' heq => ?_
    obtain ⟨o, ho, hid, rfl⟩ := (answer?_eq_some h).1 hd
    obtain ⟨o', ho', hid', rfl⟩ := (answer?_eq_some h).1 hd'
    obtain rfl := h.eq_of_future_eq ho ho' heq
    exact hne (hid.symm.trans hid')
  pending d hd := by
    obtain ⟨c, -, hc⟩ := List.mem_filterMap.1 hd
    obtain ⟨o, ho, -, rfl⟩ := (answer?_eq_some h).1 hc
    exact h.pending o ho

end Interpreter

/-- In every state that a program comes to, whatever the provider does: several answers may come in
any order, and at any time between the same operations on tasks. In the end there are the same
futures, the same tasks, the same requests and the same tasks ready, and only the queue may stand in
another order. -/
theorem answers_in_any_order [Gateway γ] {checked : Checked} {options : Options} {gateway : γ}
    {before : List Completion} {s : Interpreter γ} {out : List (Task TaskBody)}
    (h : (Interpreter.start checked options gateway).Course [] before s out)
    {cs cs' : List Completion} (hids : (cs.map Completion.id).Nodup) (hperm : cs.Perm cs') :
    Run.receiveAll cs s = .ok ⟨⟩ (s.answered cs) ∧
    Run.receiveAll cs' s = .ok ⟨⟩ (s.answered cs') ∧
    s.answered cs' = { s.answered cs with scheduler := (s.answered cs').scheduler } ∧
    (s.answered cs).scheduler.SameWork (s.answered cs').scheduler ∧
    ∀ ops all all', Scheduler.Interleaves (s.answers cs) ops all →
      Scheduler.Interleaves (s.answers cs') ops all' → s.scheduler.AdmitsAll all →
      s.scheduler.AdmitsAll all' → (∀ op ∈ ops, ∀ o ∈ s.requests, op.settles ≠ some o.future) →
      (s.scheduler.performAll all).SameWork (s.scheduler.performAll all') := by
  have hs : s.Orderly out := h.orderly (Interpreter.start_orderly checked options gateway)
  have hdue := Interpreter.answers_due hs hids
  have hanswers : (s.answers cs).Perm (s.answers cs') := hperm.filterMap _
  refine ⟨Interpreter.receiveAll_eq hids,
    Interpreter.receiveAll_eq ((hperm.map _).nodup_iff.1 hids), ?_,
    Scheduler.deliverAll_perm hs.reached hdue hanswers, ?_⟩
  · have hall (o : Outstanding) : cs'.all (o.request != ·.id) = cs.all (o.request != ·.id) :=
      hperm.symm.all_eq
    simp only [Interpreter.answered, hall]
  · intro ops all all' hall hall' hadmits hadmits' hother
    refine Scheduler.interleavings_agree hs.reached hdue hanswers hall hall' hadmits hadmits' ?_
    intro op hop f v hv
    obtain ⟨c, -, hc⟩ := List.mem_filterMap.1 hv
    obtain ⟨o, ho, -, heq⟩ := (Interpreter.answer?_eq_some hs).1 hc
    cases heq
    exact hother op hop o ho

/-- A program that has asked twice. -/
def askedTwice : Interpreter StockGateway := endState (Run.dispatch .ask [] askedState)

/-- The two answers come in either order, and a task is spawned between them or after them. -/
theorem two_answers_in_either_order :
    askedTwice.requests = [⟨1, 0, .ask⟩, ⟨2, 1, .ask⟩] ∧
    Run.receiveAll [⟨1, .error "no"⟩, ⟨2, .ok .null⟩] askedTwice =
      .ok ⟨⟩ (askedTwice.answered [⟨1, .error "no"⟩, ⟨2, .ok .null⟩]) ∧
    (askedTwice.answered [⟨1, .error "no"⟩, ⟨2, .ok .null⟩]).scheduler.SameWork
      (askedTwice.answered [⟨2, .ok .null⟩, ⟨1, .error "no"⟩]).scheduler ∧
    ∀ body,
      (askedTwice.scheduler.performAll [.settle 0 (.resolved (.err (.text "no"))), .spawn body,
          .settle 1 (.resolved (.ok .void))]).SameWork
        (askedTwice.scheduler.performAll [.settle 1 (.resolved (.ok .void)),
          .settle 0 (.resolved (.err (.text "no"))), .spawn body]) := by
  have hrequests : askedTwice.requests = [⟨1, 0, .ask⟩, ⟨2, 1, .ask⟩] := rfl
  have hcourse : (Interpreter.start ⟨(Check.collectSchemas []).table, [], []⟩ .default
      (StockGateway.null [])).Course [] (([] ++ []) ++ []) askedTwice [] :=
    .move (.move .refl (.dispatch .ask [])) (.dispatch .ask [])
  have hids : (([⟨1, .error "no"⟩, ⟨2, .ok .null⟩] : List Completion).map Completion.id).Nodup := by
    decide
  obtain ⟨hfirst, -, -, hwork, hbetween⟩ := answers_in_any_order hcourse hids (.swap _ _ [])
  refine ⟨hrequests, hfirst, hwork, fun body => ?_⟩
  refine hbetween [.spawn body] _ _ (.deliver _ _ (.perform _ (.deliver _ _ .nil)))
    (.deliver _ _ (.deliver _ _ (.perform _ .nil))) ⟨trivial, trivial, trivial, trivial⟩
    ⟨trivial, trivial, trivial, trivial⟩ ?_
  simp [Scheduler.Op.settles]

end StreamLang
