import Phyllonix.OrderRoutes

/-!
# Payment provider webhook

The handler of payment events. `json` stands for the document that `json.loads`
reads from the body, if it is one.
-/

namespace Phyllonix
open Relational

structure WebhookRequest where
  signature : Option String
  providerEventId : Option String
  body : String
  json : Option Json

/-- The returned response is not used by the caller; the bookkeeping before it raises. -/
def verifyRazorpaySignature (lib : Lib) (req : WebhookRequest) : Py Unit :=
  match req.signature with
  | none | some "" => markWebhookReceivedWithStatus
  | some sig =>
    if sig.toList.any fun c => 127 < c.toNat then
      raiseApp (.typeError "comparing strings with non-ASCII characters is not supported")
    else if lib.hmacHex req.body = sig then pure ()
    else markWebhookReceivedWithStatus

/-- `payload.get("payload", {}).get("payment", {}).get("entity", {}) or {}` -/
def paymentEntity (payload : Json) : Except AppErr Json := do
  let p ← payload.get "payload" (.obj [])
  let q ← p.get "payment" (.obj [])
  let e ← q.get "entity" (.obj [])
  pure (e.orElse (.obj []))

structure PaymentFields where
  providerPaymentId : Json
  providerOrderId : Json
  pspPayStatus : Json

def paymentFields (payload : Json) : Except AppErr PaymentFields := do
  let e ← paymentEntity payload
  let id ← e.get "id" .null
  let paymentId ← if id.truthy then pure id else e.get "payment_id" .null
  let orderId ← e.get "order_id" .null
  let status ← e.get "status" .null
  pure ⟨id.orElse paymentId, orderId, status⟩

/-- What the critical section leaves to be published. -/
structure Committed where
  topic : Option String
  outboxEventId : Option ℕ
  commitIntId : Option ℕ
  payload : OutboxPayload

def emitPaymentEvents (orderId : ℕ) (f : PaymentFields) (paymentStatus : ℕ) : Py Committed := do
  let payload : OutboxPayload := ⟨orderId, f.providerPaymentId, f.providerOrderId⟩
  if paymentStatus = PaymentStatus.captured.value then
    let items ← loadOrderItemsPidQty orderId
    let commitIntId ← createCommitIntent orderId "payment_succeeded" "order" ⟨orderId, items⟩
    let outboxEventId ← emitOutboxEvent "order.paid" payload "order" orderId
    pure ⟨some "order.paid", outboxEventId, commitIntId, payload⟩
  else if paymentStatus = PaymentStatus.failed.value then
    let outboxEventId ← emitOutboxEvent "order.pending_payment" payload "order" orderId
    pure ⟨some "order.pending_payment", outboxEventId, none, payload⟩
  else pure ⟨none, none, none, payload⟩

/-- `none` is the early return for a payment that does not move up. -/
def criticalSection (payId : ℕ) (f : PaymentFields) (st : PayOrderStatus) (evId : ℕ) :
    Py (Option Committed) := do
  match ← updatePayCompletionGetOrderid payId f.providerPaymentId st.paymentStatus with
  | none | some 0 => pure none
  | some orderId =>
    let _ ← updateOrderStatus orderId st.orderStatus
    let out ← emitPaymentEvents orderId f st.paymentStatus
    markWebhookProcessed evId
    commit
    pure (some out)

def recordWebhookError (evId : ℕ) (st : PayOrderStatus) : Py Unit := do
  let paymentStatus := st.paymentStatus
  let orderStatus := st.orderStatus
  rollback
  webhookErrorRecorded evId (some (s!"error while processing webhook current statuses: " ++
    s!"(payment_status={paymentStatus}, order_status={orderStatus})"))
  commit

def publishCommitted (out : Committed) : Py Unit := do
  match out.topic, out.outboxEventId with
  | some topic, some (outboxEventId + 1) =>
    publish (.outbox topic (outboxEventId + 1) out.payload)
    match out.commitIntId with
    | some (commitIntId + 1) => publish (.commitIntent (commitIntId + 1) out.payload.orderId)
    | _ => pure ()
  | _, _ => pure ()

def okNote (note : String) : Reply := ⟨200, .obj [("status", .str "ok"), ("note", .str note)]⟩

/-- The event is recorded and the payment is known: move payment and order together. -/
def processEvent (pay : PayRecord) (f : PaymentFields) (st : PayOrderStatus) (evId : ℕ) :
    Py Reply := do
  match ← Prog.attempt (criticalSection pay.id f st evId) with
  | .error e =>
    let _ ← Prog.attempt (recordWebhookError evId st)
    .raise e
  | .ok none => pure (okNote "event not in order")
  | .ok (some out) =>
    publishCommitted out
    pure (okNote st.note)

def receiveEvent (eventId : String) (payload event : Json) (pay : PayRecord) (f : PaymentFields) :
    Py Reply := do
  let st ← ofApp (payOrderStatusUtil f.pspPayStatus event)
  let ev ← markWebhookReceived (some eventId) "razorpay" (some payload) (some pay.orderId) none
    (some st.paymentStatus)
  if !st.isValidEvent then pure (okNote "ignored: no valid event")
  else match ev with
    | none => raiseApp (.typeError "'NoneType' object is not subscriptable")
    | some ev =>
      if ev.processedAt.isSome then pure (okNote "already processed")
      else processEvent pay f st ev.id

def razorpayWebhook (lib : Lib) (req : WebhookRequest) : Py Reply := do
  verifyRazorpaySignature lib req
  match req.json with
  | none => raiseApp (.other "JSONDecodeError")
  | some payload =>
    let event ← ofApp (payload.get "event" .null)
    match req.providerEventId with
    | none | some "" =>
      markWebhookReceivedWithStatus
      pure (okNote "ignored: missing event id")
    | some eventId =>
      let f ← ofApp (paymentFields payload)
      let payRecord ← getPayRecordByProviderOrderid f.providerOrderId "razorpay"
      match payRecord with
      | none | some ⟨_, 0⟩ =>
        let _ ← markWebhookReceived (some eventId) "razorpay" (some payload) none
          (some "no pay record found for provider_order_id")
          (some PaymentEventStatus.inconsistent.value)
        pure (okNote "ignored: payment not found")
      | some pay =>
        if !f.providerPaymentId.truthy then
          markWebhookReceivedWithStatus
          pure (okNote "ignored: no payment entity")
        else receiveEvent eventId payload event pay f

end Phyllonix
