/-
The way of a notification: outbox, broker, worker (`internal/worker`).

A publisher sends an event's envelope to the broker and marks the event after it.
The broker holds messages; it may hold one twice, and whichever it hands out next
is up to it. A slot of a worker that receives a message makes the claim its event
id and queue ask for, and deletes its receipt when the answer is safe to
acknowledge (`processMessage`). It may claim again when it did not hear the
answer, it may take over the decision of another slot that holds a delivery of the
same event, and it may vanish at any point.

Two fields are history and decide nothing: the ids the broker has accepted, and
the ids a claim was answered `QUEUE_EMPTY` for.
-/
import TaskForge.Outbox

open Relational Fallible

namespace TaskForge

/-! ## The worker's decisions -/

/-- `workNotification` -/
structure WorkNotification where
  eventID : UUID
  queue : String
  trace : Option TraceContext
deriving DecidableEq

/-- `decodeWorkNotification`, on the envelope that was decoded. -/
def decodeWorkNotification (m : Envelope) : Option WorkNotification :=
  if m.eventType ≠ eventWorkAvailable ∨ m.schemaVersion ≠ workAvailableSchemaVersion then none
  else if m.eventID = uuidNil then none
  else if m.data.queue = "" then none
  else some ⟨m.eventID, m.data.queue, m.trace⟩

/-- The claim `processMessage` makes for a message; none for one it lets go. -/
def claimFor (workerID sessionID : UUID) (queue : String) (m : Envelope) : Option ClaimRequest :=
  match decodeWorkNotification m with
  | none => none
  | some note =>
    if note.queue ≠ queue then none
    else some ⟨workerID, sessionID, note.eventID, note.queue⟩

/-- `ClaimResult.SafeToAcknowledge` -/
def ClaimResult.safeToAcknowledge (r : ClaimResult) : Bool :=
  (r.disposition == .claimed && r.assignment.isSome) ||
    ((r.disposition == .queueEmpty || r.disposition == .duplicateNotification) &&
      r.assignment.isNone)

/-- What `processMessage` decides about its receipt. An error is never safe. -/
def safeAck : Except Failure Answer → Bool
  | .ok (.claimed r) => r.safeToAcknowledge
  | _ => false

/-! ## The traffic -/

/-- A delivery in the hands of a slot. -/
inductive Slot where
  | received (m : Envelope)
  | decided (m : Envelope) (safe : Bool)
deriving DecidableEq

def Slot.message : Slot → Envelope
  | .received m => m
  | .decided m _ => m

/-- The database, the messages the broker holds, and the slots of all workers. -/
structure Traffic where
  world : World
  broker : List Envelope
  slots : ℕ → Option Slot
  sent : List UUID
  empties : List UUID

/-- The id the call was answered `QUEUE_EMPTY` for. -/
def Label.emptied (l : Label) : List UUID :=
  match l.request.call, l.outcome with
  | .claim _ req, .ok (.claimed r) =>
    if r.disposition = .queueEmpty then [req.claimRequestID] else []
  | _, _ => []

/-- One step of the traffic, with the store's label if it is a store transaction. -/
inductive TrafficStep : Traffic → Option Label → Traffic → Prop where
  /-- A store transaction that no notification asked for. -/
  | store {t : Traffic} {l : Label} {w : World} (step : Step t.world l w)
      (call : ∀ scope req, l.request.call ≠ .claim scope req) :
      TrafficStep t (some l) { t with world := w }
  /-- A publisher's transaction. An event is marked after it was sent. -/
  | outbox {t : Traffic} {now : Int} {call : OutboxCall} {ans : OutboxAnswer} {db : DB}
      (run : call.run now t.world.db = .ok (ans, db))
      (marked : ∀ id, call = .markPublished id → id ∈ t.sent) :
      TrafficStep t none { t with world := ⟨db, t.world.clock⟩ }
  /-- The broker accepts the envelope of an event. -/
  | sent {t : Traffic} {e : OutboxEvent} (event : e ∈ t.world.db.outbox.rows) :
      TrafficStep t none
        { t with broker := (scanEvent e).envelope :: t.broker, sent := e.id :: t.sent }
  /-- The broker duplicates a message. -/
  | duplicated {t : Traffic} {m : Envelope} (held : m ∈ t.broker) :
      TrafficStep t none { t with broker := m :: t.broker }
  /-- A slot receives a message, early or late, in order or not. -/
  | received {t : Traffic} {n : ℕ} {m : Envelope} (held : m ∈ t.broker) (idle : t.slots n = none) :
      TrafficStep t none { t with slots := Function.update t.slots n (some (.received m)) }
  /-- A slot claims. Its answer is heard, or lost on the way. -/
  | claimed {t : Traffic} {n : ℕ} {m : Envelope} {workerID sessionID : UUID} {queue scope : String}
      {req : ClaimRequest} {l : Label} {w : World} (heard : Bool)
      (slot : t.slots n = some (.received m))
      (request : claimFor workerID sessionID queue m = some req)
      (call : l.request.call = .claim scope req) (step : Step t.world l w) :
      TrafficStep t (some l)
        { t with
          world := w
          slots := if heard then Function.update t.slots n (some (.decided m (safeAck l.outcome)))
            else t.slots
          empties := l.emptied ++ t.empties }
  /-- A slot takes over the decision of another delivery of its event. -/
  | followed {t : Traffic} {n k : ℕ} {m m' : Envelope} {safe : Bool}
      (slot : t.slots n = some (.received m)) (leader : t.slots k = some (.decided m' safe))
      (event : m'.eventID = m.eventID) :
      TrafficStep t none { t with slots := Function.update t.slots n (some (.decided m safe)) }
  /-- A slot deletes its receipt. -/
  | acknowledged {t : Traffic} {n : ℕ} {m : Envelope} (slot : t.slots n = some (.decided m true)) :
      TrafficStep t none { t with broker := t.broker.erase m }
  /-- A slot is done with its delivery, gives it up, or crashes. -/
  | released {t : Traffic} {n : ℕ} :
      TrafficStep t none { t with slots := Function.update t.slots n none }

/-- Nothing has been submitted, published or received yet. -/
structure Opening (t : Traffic) : Prop where
  initial : Initial t.world
  outbox : t.world.db.outbox.rows = []
  broker : t.broker = []
  slots : ∀ n, t.slots n = none
  sent : t.sent = []
  empties : t.empties = []

end TaskForge
