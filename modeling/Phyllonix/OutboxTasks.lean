import Phyllonix.PubSubWorker
import Phyllonix.PaymentWebhook
import Phyllonix.CommitIntentWorker
import Phyllonix.RelationalPool

/-!
# Deliveries and the workers of their messages

A delivery publishes the outbox event and the commit intent that it has committed. A worker takes
a message out of the queue and calls the subscribers of its event one after the other, each with a
session of its own; an exception ends the task, and goes no further than the worker's loop.
-/

namespace Phyllonix
open Relational
variable {n : ℕ}

def MAX_QUEUE_SIZE : ℕ := 1000

/-- A call with the keywords of the caller; the helper does nothing. -/
def simEmitOutboxEvent (keywords : List String) : Py Unit :=
  match keywords.find? (· ∉ ["topic", "payload", "agg_type", "agg_id"]) with
  | some keyword =>
    raiseApp (.typeError s!"sim_emit_outbox_event() got an unexpected keyword argument '{keyword}'")
  | none => pure ()

def markOutboxDone (outboxEventId : ℕ) : Py Unit := do
  let _ ← update .outboxEvent (fun e : OutboxEvent => e.id = outboxEventId)
    fun e : OutboxEvent => { e with status := OutboxEventStatus.done.value }
  commit

def outboxHandler (topic : String) (outboxEventId : ℕ) : Py Unit :=
  if topic = "order.paid" then do
    simEmitOutboxEvent ["topic", "payload", "agg_type", "agg_id"]
    markOutboxDone outboxEventId
  else if topic = "order.payment_pending" then do
    simEmitOutboxEvent ["topic", "payload", "aggregate_type", "aggregate_id"]
    markOutboxDone outboxEventId
  else pure ()

/-- The event under which a message is published. -/
def Message.event : Message → String
  | .outbox topic _ _ => topic
  | .commitIntent _ _ => "order_confirm_intent.created"

/-- What `register_subscribers` leaves. -/
def subscribers : String → List PubSub.Handler := PubSub.registerSubscribers fun _ => []

/-- A handler reads its own fields of the data; the data of another event lack them. -/
def handlerBody : PubSub.Handler → Message → Py Unit
  | .outboxHandler, .outbox topic outboxEventId _ => outboxHandler topic outboxEventId
  | .outboxHandler, .commitIntent _ _ => raiseApp .attributeError
  | .orderConfirmCommitintentHandler, .commitIntent ciId _ =>
    orderConfirmCommitintentHandler DEFAULT_MAX_ATTEMPTS (some ciId)
  | .orderConfirmCommitintentHandler, .outbox _ _ _ =>
    orderConfirmCommitintentHandler DEFAULT_MAX_ATTEMPTS none
  | .computeChecksumAndUpdateStatus, _ => pure ()

def callSubscribers (m : Message) : List PubSub.Handler → Py Unit
  | [] => pure ()
  | subfn :: rest => do
    let r ← (handlerBody subfn m).session
    Prog.ofExcept r
    callSubscribers m rest

def tasksExecutor (m : Message) : Py Unit := callSubscribers m (subscribers m.event)

/-- What a process has come to: the answer of a delivery, or the end of a task. -/
inductive TaskEnd where
  | idle
  | answered (r : Except (Exn AppErr) Reply)
  | handled (r : Except (Exn AppErr) Unit)

def workerTask (m : Message) : Py TaskEnd := do
  let r ← (tasksExecutor m).attempt
  pure (.handled r)

/-- A process without a delivery is a worker loop. -/
def basePubSubWorker (jobs : Fin n → Option WebhookRequest) :
    Workers shop shopHost n TaskEnd Message where
  published := HostState.published
  capacity := MAX_QUEUE_SIZE
  works i := (jobs i).isNone
  run := workerTask

def process (lib : Lib) : Option WebhookRequest → Py TaskEnd
  | some req => do
    let reply ← (razorpayWebhook lib req).session
    pure (.answered reply)
  | none => pure .idle

abbrev Application (n : ℕ) := Pool shop shopHost n TaskEnd Message

def application (lib : Lib) (jobs : Fin n → Option WebhookRequest) (w : World shop shopHost) :
    Application n where
  sys := .start w fun i => process lib (jobs i)

/-- The row of an outbox event is there, with the status DONE. -/
def OutboxDone (d : Db) (outboxEventId : ℕ) : Prop :=
  ∃ e, d.get .outboxEvent outboxEventId = some e ∧ OutboxEvent.status e = OutboxEventStatus.done.value

/-- What is expected of the outbox events that workers have taken. -/
structure OutboxLaw (s : Application n) : Prop where
  dispatched : ∀ i topic k payload, s.task i = some (.outbox topic k payload) → subscribers topic ≠ []
  done : ∀ i topic k payload, s.task i = some (.outbox topic k payload) →
    s.sys.outcome i = some (.handled (.ok ())) → OutboxDone s.sys.world.db k
  raises : ∀ i topic k payload, s.task i = some (.outbox topic k payload) →
    ∀ e, s.sys.outcome i = some (.handled (.error (.app e))) → False

end Phyllonix
