import StreamLang.Gateway

/-!
Providers of services that need no world: one that knows no service, one that follows a script, and
several that fail or delay in one way each.
-/

namespace StreamLang

/-- What a script answers. -/
inductive ScriptedReply
  | answer (document : Json)
  | error (message : String)
  /-- The arguments of the request. -/
  | echo

/-- Answers to the calls of one service, in turn; the last one stays. -/
structure Handler where
  op : ServiceOp
  replies : List ScriptedReply

/-- A provider that follows a script, and keeps a journal of what it was asked. -/
structure Script where
  handlers : List Handler
  /-- Requests that are accepted and never answered. -/
  withheld : List ServiceOp
  /-- The last request is answered first. -/
  reverse : Bool
  queue : List ServiceRequest
  journal : List ServiceRequest

inductive StockGateway
  /-- Answers every request with an error. -/
  | null (queue : List ServiceRequest)
  | scripted (script : Script)
  /-- Refuses every request. -/
  | offline (message : String)
  /-- Fails when it is asked for an answer. -/
  | broken (message : String) (count : Nat)
  /-- Answers in order, each answer after some empty polls; once, if `stray` is set, it answers a
  request that was never made. -/
  | slow (delay left : Nat) (stray : Bool) (queue : List ServiceRequest)
  /-- Never answers, and fails when it was waited for too often. -/
  | stalled (limit : Nat) (message : String) (waits count : Nat)

namespace ScriptedReply

def reply (r : ScriptedReply) (args : List Json) : Except String Json :=
  match r with
  | answer document => .ok document
  | error message => .error message
  | echo => .ok (.array args)

end ScriptedReply

namespace Script

/-- Takes the request to be answered next. -/
def takeRequest? (s : Script) : Option (ServiceRequest × List ServiceRequest) :=
  if s.reverse then
    match s.queue.reverse with
    | [] => none
    | r :: rest => some (r, rest.reverse)
  else
    match s.queue with
    | [] => none
    | r :: rest => some (r, rest)

/-- The answer of the handlers to a request, and the handlers after it. -/
def answer (r : ServiceRequest) : List Handler → Except String Json × List Handler
  | [] => (.error s!"no handler for '{r.op.text}'", [])
  | h :: rest =>
    if h.op = r.op then
      match h.replies with
      | [] => (.error s!"no handler for '{r.op.text}'", h :: rest)
      | [last] => (last.reply r.args, h :: rest)
      | first :: more => (first.reply r.args, { h with replies := more } :: rest)
    else
      let found := answer r rest
      (found.1, h :: found.2)

def dispatch (s : Script) (r : ServiceRequest) : Script :=
  { s with
    journal := s.journal ++ [r]
    queue := if s.withheld.contains r.op then s.queue else s.queue ++ [r] }

def poll (s : Script) : Option Completion × Script :=
  match s.takeRequest? with
  | none => (none, s)
  | some (r, queue) =>
    let found := answer r s.handlers
    (some ⟨r.id, found.1⟩, { s with queue, handlers := found.2 })

end Script

namespace StockGateway

def dispatch (r : ServiceRequest) : StockGateway → Except String Unit × StockGateway
  | null queue => (.ok (), null (queue ++ [r]))
  | scripted script => (.ok (), scripted (script.dispatch r))
  | offline message => (.error message, offline message)
  | broken message count => (.ok (), broken message (count + 1))
  | slow delay left stray queue => (.ok (), slow delay left stray (queue ++ [r]))
  | stalled limit message waits count => (.ok (), stalled limit message waits (count + 1))

def poll : StockGateway → Except String (Option Completion) × StockGateway
  | null [] => (.ok none, null [])
  | null (r :: rest) =>
    (.ok (some ⟨r.id, .error s!"no service provider for '{r.op.text}'"⟩), null rest)
  | scripted script =>
    let r := script.poll
    (.ok r.1, scripted r.2)
  | offline message => (.ok none, offline message)
  | broken message count =>
    (if count = 0 then .ok none else .error message, broken message count)
  | slow delay _ stray [] => (.ok none, slow delay delay stray [])
  | slow delay left stray (r :: rest) =>
    if stray then (.ok (some ⟨999, .ok .null⟩), slow delay left false (r :: rest))
    else if left > 0 then (.ok none, slow delay (left - 1) false (r :: rest))
    else (.ok (some ⟨r.id, .ok (.array r.args)⟩), slow delay delay false rest)
  | stalled limit message waits count => (.ok none, stalled limit message waits count)

def outstanding : StockGateway → Nat
  | null queue => queue.length
  | scripted script => script.queue.length
  | offline _ => 0
  | broken _ count => count
  | slow _ _ _ queue => queue.length
  | stalled _ _ _ count => count

def wait : StockGateway → Except String Unit × StockGateway
  | stalled limit message waits count =>
    (if limit ≤ waits + 1 then .error message else .ok (),
      stalled limit message (waits + 1) count)
  | g => (.ok (), g)

/-- What was asked, if the provider keeps a journal. -/
def journal? : StockGateway → Option (List ServiceRequest)
  | scripted script => some script.journal
  | _ => none

instance : Gateway StockGateway := ⟨dispatch, poll, outstanding, wait⟩

end StockGateway

end StreamLang
