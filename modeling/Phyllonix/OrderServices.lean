import Phyllonix.OrderRepository

/-!
# Order services

The availability check, the retry loop around the payment provider, the payment
intent, and the bookkeeping of webhook events.
-/

namespace Phyllonix
open Relational

structure Reply where
  status : ℕ
  body : Json

def validateItemsAvblty (cartItems : List SnapshotItem) : Py Unit :=
  itemsAvblty (cartItems.foldl
    (fun d it => dictSet it.productId ⟨it.productStock, it.quantity⟩ d) [])

def DEFAULT_RETRIES : ℕ := 3
def DEFAULT_BACKOFF_BASE : Rat := 1 / 2

abbrev PspResponse := List (String × Json)

structure PspResult where
  resp : Option PspResponse
  nonRetryableExc : Option (Exn AppErr)
  retryableExc : Option (Exn AppErr)
  attemptNo : ℕ

def httpStatusNote (code : Option ℕ) (note : String) : Json :=
  .obj [("http_status", (code.map fun c => Json.num c).getD .null), ("body", .str note)]

/-- The attempts with the numbers that are left. -/
def retryWrapper (func : Py PspResponse) (paymentId : ℕ) (maxRetries : ℕ) (backoffBase : Rat) :
    List ℕ → Option (Exn AppErr) → Py PspResult
  | [], retryableExc => pure ⟨none, none, retryableExc, maxRetries⟩
  | attemptIdx :: rest, retryableExc => do
    let attemptId ← recordPaymentAttempt paymentId attemptIdx PaymentAttemptStatus.pending.value
    let r ← Prog.attempt do
      let resp ← func
      updatePaymentAttemptResp attemptId PaymentAttemptStatus.success.value (.obj resp)
      pure resp
    let pause := min (backoffBase * 2 ^ (attemptIdx - 1)) 8
    match r with
    | .ok resp => pure ⟨some resp, none, none, attemptIdx⟩
    | .error (.app (.transient msg)) =>
      updatePaymentAttemptResp attemptId PaymentAttemptStatus.retrying.value (.str msg)
      sleep pause
      retryWrapper func paymentId maxRetries backoffBase rest (some (.app (.transient msg)))
    | .error (.app (.httpStatus code text)) =>
      if code.any fun c => 500 ≤ c && c < 600 then
        updatePaymentAttemptResp attemptId PaymentAttemptStatus.retrying.value
          (httpStatusNote code s!"5xx: {text}")
        sleep pause
        retryWrapper func paymentId maxRetries backoffBase rest (some (.app (.httpStatus code text)))
      else
        updatePaymentAttemptResp attemptId PaymentAttemptStatus.failed.value
          (httpStatusNote code s!"4xx: {text}")
        pure ⟨none, some (.app (.httpStatus code text)), retryableExc, attemptIdx⟩
    | .error ex =>
      updatePaymentAttemptResp attemptId PaymentAttemptStatus.failed.value (.str (exnText ex))
      pure ⟨none, some ex, retryableExc, attemptIdx⟩

def retryPayments (func : Py PspResponse) (paymentId : ℕ) (maxRetries : ℕ := DEFAULT_RETRIES)
    (backoffBase : Rat := DEFAULT_BACKOFF_BASE) : Py PspResult :=
  retryWrapper func paymentId maxRetries backoffBase (List.range' 1 maxRetries) none

def createPspOrder (req : PspRequest) : Py PspResponse := hostCall (.createPspOrder req)

def clientPayload (providerOrderId : Json) (pspResp : PspResponse) : Json :=
  .obj [("provider", .str "razorpay"),
    ("provider_order_id", providerOrderId),
    ("provider_raw", .obj pspResp),
    ("checkout_hint", .obj [("type", .str "provider_order"), ("order_id", providerOrderId),
      ("note", .str
        "Use Razorpay Checkout or construct UPI deeplink / checkout flow using provider SDK")])]

def Json.pyStr (lib : Lib) : Json → String
  | .str s => s
  | j => lib.jsonText j

def paymentResponseBody (lib : Lib) (orderData : OrderResponse) (payPublicId : UUID)
    (providerOrderId : Json) (pspResp : PspResponse) : Json :=
  .obj [("order_public_id", .str (uuidStr orderData.orderPublicId)),
    ("order_id", .num orderData.orderId),
    ("payment_public_id", .str (uuidStr payPublicId)),
    ("payment_provider_id", .str (providerOrderId.pyStr lib)),
    ("payment_client_payload", clientPayload providerOrderId pspResp),
    ("status", .str "PENDING"),
    ("message", .str "Provider order created; client should open provider checkout/deeplink.")]

def pspRequest (idempotencyKey : String) (orderTotals : FinalTotal) (orderData : OrderResponse)
    (payPublicId : UUID) : PspRequest where
  amount := orderTotals.total * 100
  currency := "INR"
  receipt := "order_" ++ String.ofList ((uuidStr orderData.orderPublicId).toList.take 20)
  notes := [("order_public_id", uuidStr orderData.orderPublicId),
    ("payment_public_id", uuidStr payPublicId)]
  idempotencyKey

/-- What follows the provider's answer. -/
def settlePspResult (lib : Lib) (idempotencyKey : String) (orderData : OrderResponse)
    (payPublicId : UUID) (payIntId : ℕ) (res : PspResult) : Py Json := do
  match res.nonRetryableExc, res.retryableExc, res.resp with
  | some ex, _, _ => httpException 400 ("Payment attempts failed due to " ++ exnText ex)
  | none, some ex, _ => httpException 502 ("Payment failed due to " ++ exnText ex)
  | none, none, none => raiseApp .attributeError
  | none, none, some pspResp =>
    match (pspResp.lookup "id").getD .null with
    | .null =>
      let _ ← recordPaymentAttempt payIntId (res.attemptNo + 1) PaymentAttemptStatus.unknown.value
      httpException 502 "Payment provider unreachable;order and payment in pending state"
    | providerOrderId =>
      updatePaymentStatusNprovider payIntId providerOrderId
      let responseBody := paymentResponseBody lib orderData payPublicId providerOrderId pspResp
      updateIdempotentResponse idempotencyKey 200 responseBody
      commit
      pure responseBody

def createPaymentIntent (lib : Lib) (idempotencyKey : String) (orderTotals : FinalTotal)
    (orderData : OrderResponse) (payPublicId : UUID) : Py Json := do
  match ← payIdByPublicPayid payPublicId with
  | none => .raise .integrity
  | some payIntId =>
    let res ← retryPayments
      (createPspOrder (pspRequest idempotencyKey orderTotals orderData payPublicId)) payIntId
    settlePspResult lib idempotencyKey orderData payPublicId payIntId res

/-! ## Webhook events -/

structure ReceivedEvent where
  id : ℕ
  processedAt : Option ℕ

def markWebhookReceived (providerEventId : Option String) (provider : String)
    (payload : Option Json) (orderId : Option ℕ) (lastError : Option String)
    (payStatus : Option ℕ) : Py (Option ReceivedEvent) := do
  let ev ← insertOnConflictDoNothing .paymentWebhookEvent fun n =>
    { id := n
      provider
      providerEventId
      orderId
      payload
      status := match payStatus with
        | none | some 0 => PaymentEventStatus.received.value
        | some s => s
      attempts := 1
      lastError
      processedAt := none }
  pure (ev.map fun e : PaymentWebhookEvent => ⟨e.id, e.processedAt⟩)

/-- A call of `mark_webhook_received` with the keyword `status`, which it does not have. -/
def markWebhookReceivedWithStatus : Py Unit :=
  raiseApp (.typeError "mark_webhook_received() got an unexpected keyword argument 'status'")

def markWebhookProcessed (evId : ℕ) (lastError : Option String := none) : Py Unit := do
  let t ← now
  let _ ← update .paymentWebhookEvent (fun e : PaymentWebhookEvent => e.id = evId)
    fun e : PaymentWebhookEvent => { e with processedAt := some t, lastError }

def loadOrderItemsPidQty (orderId : ℕ) : Py (List CommitItem) := do
  let rows ← select .orderItem fun it : OrderItem => it.orderId = orderId
  pure (rows.map fun it : OrderItem => ⟨it.productId, it.quantity⟩)

end Phyllonix
