import Mathlib.Data.List.Nodup
import StreamLang.Proofs.Keeps
import StreamLang.Proofs.Scheduler.Owners

/-! What can happen to the futures, tasks and requests of a program, move by move, whatever the
provider does. A table of requests that is in order stays so, and each request in it waits until the
first answer to it comes, which settles its future. -/

namespace StreamLang

variable {γ : Type}

namespace Run

/-- The requests in the table, and the future of the one that is answered. -/
theorem receive_of_some {c : Completion} {s : Interpreter γ} {o : Outstanding}
    (h : s.requests.find? (·.request == c.id) = some o) :
    receive c s = .ok () { s with
      requests := s.requests.filter (·.request != c.id)
      scheduler := s.scheduler.resolve o.future (replyValue o.op c.reply) } := by
  simp [receive, Eval.modify_apply, h]

theorem receive_of_none {c : Completion} {s : Interpreter γ}
    (h : s.requests.find? (·.request == c.id) = none) : receive c s = .ok () s := by
  simp [receive, Eval.modify_apply, h]

end Run

/-- What the program gets for an answer: `Err` with the message when the service refuses, and `Ok` with
the document otherwise, which is a model or a prediction when it comes from the operation that makes
one, and is read as plain data when it comes from any other. -/
inductive ServiceOp.Gives : ServiceOp → Except String Json → Value → Prop
  | error (op : ServiceOp) (message : String) : Gives op (.error message) (.err (.text message))
  | model (document : Json) : Gives .trainModel (.ok document) (.ok (.model document))
  | prediction (document : Json) : Gives .predict (.ok document) (.ok (.prediction document))
  | data {op : ServiceOp} (document : Json) (hmodel : op ≠ .trainModel)
      (hprediction : op ≠ .predict) : Gives op (.ok document) (.ok (.ofJson document))

theorem Run.replyValue_gives (op : ServiceOp) (reply : Except String Json) :
    op.Gives reply (replyValue op reply) := by
  cases reply with
  | error message => exact .error op message
  | ok document => cases op with
    | trainModel => exact .model document
    | predict => exact .prediction document
    | _ => exact .data document (by decide) (by decide)

namespace Interpreter

variable {s t : Interpreter γ} {out out' : List (Task TaskBody)} {c : Option Completion}

/-- What a move does to the table of requests. -/
inductive Effect (s : Interpreter γ) (out : List (Task TaskBody)) :
    Option Completion → Interpreter γ → List (Task TaskBody) → Prop
  /-- Nothing, and no answer came but one to a request that is not in it. -/
  | passes {c : Option Completion} {t : Interpreter γ} {out' : List (Task TaskBody)}
      (hstray : ∀ d, c = some d → s.requests.find? (·.request == d.id) = none)
      (hscheduler : s.scheduler.Passes out t.scheduler out') (hrequests : t.requests = s.requests)
      (hnext : s.nextRequest ≤ t.nextRequest) : Effect s out c t out'
  /-- A request is sent. -/
  | sent {t : Interpreter γ} (op : ServiceOp)
      (hscheduler : t.scheduler = s.scheduler.createFuture.2)
      (hrequests : t.requests = s.requests ++ [⟨s.nextRequest, s.scheduler.futures.size, op⟩])
      (hnext : t.nextRequest = s.nextRequest + 1) : Effect s out none t out
  /-- A request is answered. -/
  | answered {t : Interpreter γ} {c : Completion} {o : Outstanding}
      (hfind : s.requests.find? (·.request == c.id) = some o)
      (hscheduler : t.scheduler = s.scheduler.resolve o.future (Run.replyValue o.op c.reply))
      (hrequests : t.requests = s.requests.filter (·.request != c.id))
      (hnext : t.nextRequest = s.nextRequest) : Effect s out (some c) t out

theorem Effect.of_scheduler {scheduler : Scheduler TaskBody}
    (h : s.scheduler.Passes out scheduler out') :
    s.Effect out none { s with scheduler } out' :=
  .passes (by rintro d ⟨⟩) h rfl (Nat.le_refl _)

/-- The tasks and futures stay as they are. -/
theorem Effect.of_same (hs : s.scheduler.Reached out) (hscheduler : t.scheduler = s.scheduler)
    (hrequests : t.requests = s.requests) (hnext : s.nextRequest ≤ t.nextRequest)
    (hstray : ∀ d, c = some d → s.requests.find? (·.request == d.id) = none) :
    s.Effect out c t out := by
  refine .passes hstray ?_ hrequests hnext
  rw [hscheduler]
  exact .of_futures hs rfl (fun _ => rfl) fun _ h => h

/-- The table of requests is in order: it gives different requests different futures, which are
pending and belong to no task. -/
structure TableInOrder (s : Interpreter γ) (out : List (Task TaskBody)) : Prop where
  requests_nodup : (s.requests.map Outstanding.request).Nodup
  futures_nodup : (s.requests.map Outstanding.future).Nodup
  pending : ∀ o ∈ s.requests, s.scheduler.futures.state? o.future = some .pending
  foreign : ∀ o ∈ s.requests, ¬ s.scheduler.Owns out o.future

/-- What every move keeps. -/
structure Orderly (s : Interpreter γ) (out : List (Task TaskBody)) : Prop
    extends s.TableInOrder out where
  reached : s.scheduler.Reached out
  owned_lt : ∀ f, s.scheduler.Owns out f → f < s.scheduler.futures.size
  request_lt : ∀ o ∈ s.requests, o.request < s.nextRequest

namespace Orderly

theorem future_lt (h : s.Orderly out) {o : Outstanding} (ho : o ∈ s.requests) :
    o.future < s.scheduler.futures.size :=
  FutureTable.lt_size_of_state? (h.pending o ho)

theorem eq_of_request_eq (h : s.Orderly out) {o p : Outstanding} (ho : o ∈ s.requests)
    (hp : p ∈ s.requests) (heq : o.request = p.request) : o = p :=
  List.inj_on_of_nodup_map h.requests_nodup ho hp heq

theorem eq_of_future_eq (h : s.Orderly out) {o p : Outstanding} (ho : o ∈ s.requests)
    (hp : p ∈ s.requests) (heq : o.future = p.future) : o = p :=
  List.inj_on_of_nodup_map h.futures_nodup ho hp heq

/-- The table is searched for the number of a request. -/
theorem find?_eq_some (h : s.Orderly out) {id : RequestId} {o : Outstanding} :
    s.requests.find? (·.request == id) = some o ↔ o ∈ s.requests ∧ o.request = id := by
  constructor
  · intro hfind
    have hid := List.find?_some hfind
    exact ⟨List.mem_of_find?_eq_some hfind, eq_of_beq hid⟩
  · rintro ⟨ho, rfl⟩
    cases hfind : s.requests.find? (·.request == o.request) with
    | none =>
      have hnone := List.find?_eq_none.1 hfind o ho
      simp at hnone
    | some p =>
      have hp := List.find?_some hfind
      rw [h.eq_of_request_eq (List.mem_of_find?_eq_some hfind) ho (eq_of_beq hp)]

theorem passes (h : s.Orderly out) (hscheduler : s.scheduler.Passes out t.scheduler out')
    (hrequests : t.requests = s.requests) (hnext : s.nextRequest ≤ t.nextRequest) :
    t.Orderly out' where
  requests_nodup := hrequests ▸ h.requests_nodup
  futures_nodup := hrequests ▸ h.futures_nodup
  pending o ho := by
    rw [hrequests] at ho
    exact hscheduler.pending _ (h.pending o ho) (h.foreign o ho)
  foreign o ho howns := by
    rw [hrequests] at ho
    rcases hscheduler.owner _ howns with hold | ⟨hnew, _⟩
    · exact h.foreign o ho hold
    · exact absurd (h.future_lt ho) (Nat.not_lt.2 hnew)
  reached := hscheduler.reached
  owned_lt f hf := by
    rcases hscheduler.owner f hf with hold | ⟨_, hnew⟩
    · exact Nat.lt_of_lt_of_le (h.owned_lt f hold) hscheduler.size
    · exact hnew
  request_lt o ho := by
    rw [hrequests] at ho
    exact Nat.lt_of_lt_of_le (h.request_lt o ho) hnext

/-- A request that is sent has a new number and a new future. -/
theorem sent (h : s.Orderly out) {op : ServiceOp}
    (hscheduler : t.scheduler = s.scheduler.createFuture.2)
    (hrequests : t.requests = s.requests ++ [⟨s.nextRequest, s.scheduler.futures.size, op⟩])
    (hnext : t.nextRequest = s.nextRequest + 1) : t.Orderly out := by
  have hpasses := Scheduler.Passes.createFuture h.reached
  rw [← hscheduler] at hpasses
  exact {
    reached := hpasses.reached
    requests_nodup := by
      rw [hrequests, List.map_append, List.nodup_append]
      refine ⟨h.requests_nodup, List.nodup_singleton _, ?_⟩
      rintro id hid _ hnew rfl
      obtain ⟨o, ho, rfl⟩ := List.mem_map.1 hid
      have heq : o.request = s.nextRequest := by simpa using hnew
      exact Nat.ne_of_lt (h.request_lt o ho) heq
    futures_nodup := by
      rw [hrequests, List.map_append, List.nodup_append]
      refine ⟨h.futures_nodup, List.nodup_singleton _, ?_⟩
      rintro f hf _ hnew rfl
      obtain ⟨o, ho, rfl⟩ := List.mem_map.1 hf
      have heq : o.future = s.scheduler.futures.size := by simpa using hnew
      exact Nat.ne_of_lt (h.future_lt ho) heq
    pending := by
      intro o ho
      rw [hrequests, List.mem_append, List.mem_singleton] at ho
      rcases ho with ho | rfl
      · exact hpasses.pending _ (h.pending o ho) (h.foreign o ho)
      · rw [hscheduler]
        exact FutureTable.state?_create_self _
    foreign := by
      intro o ho howns
      rw [hscheduler] at howns
      rw [hrequests, List.mem_append, List.mem_singleton] at ho
      rcases ho with ho | rfl
      · exact h.foreign o ho howns
      · exact absurd (h.owned_lt _ howns) (Nat.lt_irrefl _)
    owned_lt := by
      intro f hf
      rw [hscheduler] at hf
      exact Nat.lt_of_lt_of_le (h.owned_lt f hf) hpasses.size
    request_lt := by
      intro o ho
      rw [hrequests, List.mem_append, List.mem_singleton] at ho
      rw [hnext]
      rcases ho with ho | rfl
      · exact Nat.lt_succ_of_lt (h.request_lt o ho)
      · exact Nat.lt_succ_self _ }

/-- The answered request leaves the table, and the others are not touched. -/
theorem answered (h : s.Orderly out) {d : Completion} {o : Outstanding}
    (hfind : s.requests.find? (·.request == d.id) = some o)
    (hscheduler : t.scheduler = s.scheduler.resolve o.future (Run.replyValue o.op d.reply))
    (hrequests : t.requests = s.requests.filter (·.request != d.id))
    (hnext : t.nextRequest = s.nextRequest) : t.Orderly out := by
  obtain ⟨ho, hid⟩ := h.find?_eq_some.1 hfind
  have hmem {p : Outstanding} (hp : p ∈ t.requests) : p ∈ s.requests ∧ p ≠ o := by
    rw [hrequests, List.mem_filter] at hp
    refine ⟨hp.1, ?_⟩
    rintro rfl
    simp [hid] at hp
  have hsublist : t.requests.Sublist s.requests := by
    rw [hrequests]
    exact List.filter_sublist
  have howner {f : FutureId} (hf : t.scheduler.Owns out f) : s.scheduler.Owns out f := by
    rw [hscheduler] at hf
    exact hf.of_settle
  exact {
    reached := by
      rw [hscheduler]
      exact h.reached.resolve _ _
    requests_nodup := (hsublist.map _).nodup h.requests_nodup
    futures_nodup := (hsublist.map _).nodup h.futures_nodup
    pending := by
      intro p hp
      obtain ⟨hp, hne⟩ := hmem hp
      have hfuture : p.future ≠ o.future := fun heq => hne (h.eq_of_future_eq hp ho heq)
      rw [hscheduler, Scheduler.resolve, Scheduler.state?_settle_of_ne hfuture]
      exact h.pending p hp
    foreign := by
      intro p hp howns
      exact h.foreign p (hmem hp).1 (howner howns)
    owned_lt := by
      intro f hf
      rw [hscheduler, Scheduler.resolve, Scheduler.size_settle]
      exact h.owned_lt f (howner hf)
    request_lt := by
      intro p hp
      rw [hnext]
      exact h.request_lt p (hmem hp).1 }

theorem effect (h : s.Orderly out) (heffect : s.Effect out c t out') : t.Orderly out' := by
  cases heffect with
  | passes _ hscheduler hrequests hnext => exact h.passes hscheduler hrequests hnext
  | sent op hscheduler hrequests hnext => exact h.sent hscheduler hrequests hnext
  | answered hfind hscheduler hrequests hnext => exact h.answered hfind hscheduler hrequests hnext

end Orderly

/-- What has become of a request when these answers have come: without an answer to it, it waits
still; otherwise its future holds what the first one gives, for good. -/
def Delivered (o : Outstanding) (cs : List Completion) (t : Interpreter γ) : Prop :=
  match cs.find? (·.id == o.request) with
  | none => o ∈ t.requests ∧ t.scheduler.futures.state? o.future = some .pending
  | some c => (∀ p ∈ t.requests, p.request ≠ o.request) ∧
      ∃ v, o.op.Gives c.reply v ∧ t.scheduler.futures.state? o.future = some (.resolved v)

/-- The request was made some time before. -/
theorem Effect.lt_nextRequest (h : s.Effect out c t out') {id : RequestId}
    (hid : id < s.nextRequest) : id < t.nextRequest := by
  cases h with
  | passes _ _ _ hnext => exact Nat.lt_of_lt_of_le hid hnext
  | sent op _ _ hnext =>
    rw [hnext]
    exact Nat.lt_succ_of_lt hid
  | answered _ _ _ hnext => rwa [hnext]

theorem Effect.later (h : s.Effect out c t out') :
    s.scheduler.futures.Later t.scheduler.futures := by
  cases h with
  | passes _ hscheduler =>
    exact ⟨hscheduler.size, fun hsettled hstate => hscheduler.settled _ _ hstate hsettled⟩
  | sent op hscheduler =>
    rw [hscheduler]
    exact .of_state? fun _ _ => FutureTable.state?_create_of_some
  | answered _ hscheduler =>
    rw [hscheduler]
    exact Scheduler.later_settle _ _ _

/-- One more move keeps a request waiting, unless it is answered. -/
theorem Delivered.effect {o : Outstanding} {cs : List Completion} (h : Delivered o cs s)
    (hs : s.Orderly out) (hnumber : o.request < s.nextRequest) (heffect : s.Effect out c t out') :
    Delivered o (cs ++ c.toList) t := by
  unfold Delivered at h ⊢
  rw [List.find?_append]
  cases hfirst : cs.find? (·.id == o.request) with
  | some first =>
    -- the answer has come already; the request is not in the table any more
    rw [hfirst] at h
    obtain ⟨hgone, v, hgives, hstate⟩ := h
    rw [Option.some_or]
    refine ⟨fun p hp => ?_, v, hgives, heffect.later.settled (by simp) hstate⟩
    cases heffect with
    | passes _ _ hrequests _ => exact hgone p (hrequests ▸ hp)
    | sent op _ hrequests _ =>
      rw [hrequests, List.mem_append, List.mem_singleton] at hp
      rcases hp with hp | rfl
      · exact hgone p hp
      · exact Nat.ne_of_gt hnumber
    | answered _ _ hrequests _ =>
      rw [hrequests] at hp
      exact hgone p (List.mem_of_mem_filter hp)
  | none =>
    rw [hfirst] at h
    obtain ⟨hwaits, hstate⟩ := h
    rw [Option.none_or]
    cases heffect with
    | passes hstray hscheduler hrequests _ =>
      have hnone : c.toList.find? (·.id == o.request) = none := by
        rw [List.find?_eq_none]
        intro d hd
        have hother := List.find?_eq_none.1 (hstray d (by simpa using hd)) o hwaits
        rw [beq_iff_eq] at hother ⊢
        exact Ne.symm hother
      rw [hnone, hrequests]
      exact ⟨hwaits, hscheduler.pending _ hstate (hs.foreign o hwaits)⟩
    | sent op hscheduler hrequests _ =>
      rw [Option.toList_none, List.find?_nil, hrequests, hscheduler]
      exact ⟨List.mem_append_left _ hwaits, FutureTable.state?_create_of_some hstate⟩
    | @answered _ d answered hfind hscheduler hrequests _ =>
      obtain ⟨hanswered, hid⟩ := hs.find?_eq_some.1 hfind
      rw [Option.toList_some, hrequests, hscheduler]
      by_cases heq : o.request = d.id
      · obtain rfl := hs.eq_of_request_eq hanswered hwaits (hid.trans heq.symm)
        have hfound : [d].find? (·.id == answered.request) = some d := by simp [heq]
        rw [hfound]
        refine ⟨?_, _, Run.replyValue_gives _ _, Scheduler.state?_settle_self hstate _⟩
        intro p hp
        simpa [heq] using List.of_mem_filter hp
      · have hnone : [d].find? (·.id == o.request) = none := by simp [Ne.symm heq]
        have hfuture : o.future ≠ answered.future := by
          intro hsame
          rw [← hs.eq_of_future_eq hwaits hanswered hsame] at hid
          exact heq hid
        rw [hnone]
        refine ⟨List.mem_filter.2 ⟨hwaits, by simpa using heq⟩, ?_⟩
        rwa [Scheduler.resolve, Scheduler.state?_settle_of_ne hfuture]

variable [Gateway γ]

/-- The single things that happen while a program runs, with the tasks that are taken out before and
after, and the answer that comes in. -/
inductive Move (s : Interpreter γ) :
    List (Task TaskBody) → Option Completion → Interpreter γ → List (Task TaskBody) → Prop
  /-- Something that does not touch futures, tasks and services. -/
  | inside {t : Interpreter γ} {out : List (Task TaskBody)} (houtside : t.outside = s.outside) :
    Move s out none t out
  | markObserved {out : List (Task TaskBody)} (id : FutureId) :
    Move s out none { s with scheduler := s.scheduler.markObserved id } out
  | settledFuture {out : List (Task TaskBody)} (state : FutureState)
      (hsettled : state.isPending = false) :
    Move s out none
      { s with scheduler := s.scheduler.createFuture.2.settle s.scheduler.createFuture.1 state } out
  | spawn {out : List (Task TaskBody)} (body : TaskBody) :
    Move s out none { s with scheduler := (s.scheduler.spawn body).2 } out
  | dispatch {out : List (Task TaskBody)} (op : ServiceOp) (args : List Json) :
    Move s out none (endState (Run.dispatch op args s)) out
  | take {out : List (Task TaskBody)} {task : Task TaskBody} {scheduler : Scheduler TaskBody}
      (hnext : s.scheduler.nextReady = (some task, scheduler)) :
    Move s out none { s with scheduler } (task :: out)
  | idle {out : List (Task TaskBody)} {scheduler : Scheduler TaskBody}
      (hnext : s.scheduler.nextReady = (none, scheduler)) :
    Move s out none { s with scheduler } out
  | suspend {before after : List (Task TaskBody)} {task : Task TaskBody} (body : TaskBody)
      (on : FutureId) :
    Move s (before ++ task :: after) none
      { s with scheduler := s.scheduler.suspend { task with body } on } (before ++ after)
  | complete {before after : List (Task TaskBody)} {task : Task TaskBody} (v : Value) :
    Move s (before ++ task :: after) none
      { s with scheduler := s.scheduler.complete task v } (before ++ after)
  | fail {before after : List (Task TaskBody)} {task : Task TaskBody} (f : Failed) :
    Move s (before ++ task :: after) none
      { s with scheduler := s.scheduler.fail task f } (before ++ after)
  /-- The provider gives an answer. -/
  | answer {out : List (Task TaskBody)} {c : Completion} {gateway : γ}
      (hpoll : Gateway.poll s.gateway = (.ok (some c), gateway)) :
    Move s out (some c) (endState (Run.receive c { s with gateway })) out
  | poll {out : List (Task TaskBody)} {reply : Except String (Option Completion)} {gateway : γ}
      (hpoll : Gateway.poll s.gateway = (reply, gateway)) (hnone : ∀ c, reply ≠ .ok (some c)) :
    Move s out none { s with gateway } out
  | wait {out : List (Task TaskBody)} {reply : Except String Unit} {gateway : γ}
      (hwait : Gateway.wait s.gateway = (reply, gateway)) : Move s out none { s with gateway } out

/-- Any number of moves, with the answers that came in. -/
inductive Course (s : Interpreter γ) (out : List (Task TaskBody)) :
    List Completion → Interpreter γ → List (Task TaskBody) → Prop
  | refl : Course s out [] s out
  | move {cs : List Completion} {t u : Interpreter γ} {out' out'' : List (Task TaskBody)}
      {c : Option Completion} (h : Course s out cs t out') (hmove : t.Move out' c u out'') :
    Course s out (cs ++ c.toList) u out''

theorem Move.effect (h : s.Move out c t out') (hs : s.scheduler.Reached out) :
    s.Effect out c t out' := by
  cases h with
  | inside houtside =>
    obtain ⟨hscheduler, -, hrequests, hnext⟩ := Outside.mk.inj houtside
    exact .of_same hs hscheduler hrequests (Nat.le_of_eq hnext.symm) (by rintro d ⟨⟩)
  | markObserved id => exact .of_scheduler (.markObserved hs id)
  | settledFuture state hsettled =>
    refine .of_scheduler (.settledFuture hs ?_)
    cases state with
    | pending => cases hsettled
    | resolved v => exact hs.createFuture.resolve _ v
    | failed f => exact hs.createFuture.reject _ f
  | spawn body => exact .of_scheduler (.spawn hs body)
  | dispatch op args =>
    cases hreply : Gateway.dispatch ⟨s.nextRequest, op, args⟩ s.gateway with
    | mk reply gateway => cases reply with
      | ok _ =>
        rw [Run.dispatch_of_ok hreply]
        exact .sent op rfl rfl rfl
      | error message =>
        rw [Run.dispatch_of_error hreply]
        exact .of_same hs rfl rfl (Nat.le_succ _) (by rintro d ⟨⟩)
  | take hnext => exact .of_scheduler (.take hs hnext)
  | idle hnext => exact .of_scheduler (.idle hs hnext)
  | suspend body on => exact .of_scheduler (.suspend hs body on)
  | complete v => exact .of_scheduler (.finish (hs.complete v))
  | fail f => exact .of_scheduler (.finish (hs.fail f))
  | @answer _ c gateway hpoll =>
    cases hfind : s.requests.find? (·.request == c.id) with
    | none =>
      rw [Run.receive_of_none (s := { s with gateway }) hfind]
      refine .of_same hs rfl rfl (Nat.le_refl _) ?_
      rintro d ⟨⟩
      exact hfind
    | some o =>
      rw [Run.receive_of_some (s := { s with gateway }) hfind]
      exact .answered hfind rfl rfl rfl
  | poll hpoll hnone => exact .of_same hs rfl rfl (Nat.le_refl _) (by rintro d ⟨⟩)
  | wait hwait => exact .of_same hs rfl rfl (Nat.le_refl _) (by rintro d ⟨⟩)

theorem Course.orderly {cs : List Completion} (h : s.Course out cs t out') (hs : s.Orderly out) :
    t.Orderly out' := by
  induction h with
  | refl => exact hs
  | move _ hmove ih => exact ih.effect (hmove.effect ih.reached)

/-- A request gets the first answer that comes to it, and no other. -/
theorem Course.delivered {cs : List Completion} (h : s.Course out cs t out') (hs : s.Orderly out)
    {o : Outstanding} (ho : o ∈ s.requests) : Delivered o cs t ∧ o.request < t.nextRequest := by
  induction h with
  | refl => exact ⟨⟨ho, hs.pending o ho⟩, hs.request_lt o ho⟩
  | move hcourse hmove ih =>
    have horderly := hcourse.orderly hs
    have heffect := hmove.effect horderly.reached
    exact ⟨ih.1.effect horderly ih.2 heffect, heffect.lt_nextRequest ih.2⟩

end Interpreter

end StreamLang
