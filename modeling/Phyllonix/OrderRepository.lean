import Phyllonix.OrderPricing

/-!
# Order repository

The statements of checkout, order, payment, outbox and commit-intent handling. A
statement that locks or inserts several rows takes one step for each row.
-/

namespace Phyllonix
open Relational

def RESERVATION_TTL_MINUTES : ℕ := 60
def UPI_RESERVATION_TTL_MINUTES : ℕ := 15

/-! ## Cart snapshot and reservations -/

structure CartSnapshot where
  cartId : ℕ
  items : List SnapshotItem

/-- The cart rows of a user joined with their products, in the snapshot of the statement. -/
def cartRows (d : Db) (userId : ℕ) : List (CartItem × Product) :=
  ((d .cart).filter fun c : Cart => c.userId = some userId).flatMap fun c : Cart =>
    ((d .cartItem).filter fun ci : CartItem => ci.cartId = some c.id).flatMap fun ci : CartItem =>
      ((d .product).filter fun p : Product => p.id = ci.productId).map fun p => (ci, p)

/-- Locks the product of every joined row and reads its latest version. -/
def lockCartProducts : List (CartItem × Product) → Py (List SnapshotItem)
  | [] => pure []
  | (ci, p) :: rows => do
    let ps ← selectForUpdate .product fun q : Product => q.id = p.id
    let rest ← lockCartProducts rows
    pure (ps.map (fun q : Product => ⟨ci.id, q.id, ci.quantity, q.basePrice, q.stockQty⟩) ++ rest)

def captureCartSnapshot (userId : ℕ) : Py CartSnapshot := do
  let rows ← Prog.call (.read fun d : Db => cartRows d userId : ShopAction)
  let items ← lockCartProducts rows
  match items with
  | [] => raiseApp .indexError
  | _ :: _ => pure ⟨(rows.head?.bind fun row => row.1.cartId).getD 0, items⟩

/-- A reservation that the availability check counts at time `t`. -/
def InventoryReservation.activeAt (r : InventoryReservation) (t : ℕ) : Bool :=
  r.status = InventoryReserveStatus.active.value && r.reservedUntil.any (t < ·)

/-- `sum(case when active then quantity else 0)` over the reservations of a product -/
def reservedQty (d : Db) (t productId : ℕ) : ℤ :=
  (((d .inventoryReservation).filter fun r : InventoryReservation => r.productId = productId).map
    fun r : InventoryReservation => if r.activeAt t then r.quantity else 0).sum

structure ProductData where
  stockQty : ℤ
  requestedQty : ℤ

/-- `d[k] = v` on a dictionary that keeps its order of insertion -/
def dictSet {α : Type} (k : ℕ) (v : α) : List (ℕ × α) → List (ℕ × α)
  | [] => [(k, v)]
  | (k', v') :: rest => if k' = k then (k, v) :: rest else (k', v') :: dictSet k v rest

def itemsAvblty (productData : List (ℕ × ProductData)) : Py Unit := do
  let t ← now
  let reserved ← Prog.call (.read fun d : Db => reservedQty d t : ShopAction)
  let itemErrs := productData.filterMap fun (pid, prod) =>
    let avbl := max 0 (prod.stockQty - reserved pid)
    if prod.requestedQty > avbl then
      let requested := prod.requestedQty
      some s!"Not enough stock for product {pid}: requested={requested}, available={avbl}"
    else none
  if itemErrs = [] then pure ()
  else raiseApp (.http 409
    (.obj [("errors", .arr (itemErrs.map fun e => .obj [("detail", .str e)]))]))

def reserveInventory : List SnapshotItem → ℕ → ℕ → Py Unit
  | [], _, _ => pure ()
  | it :: rest, csId, reservedUntil => do
    let _ ← insertOnConflictDoNothing .inventoryReservation fun n =>
      ⟨n, it.productId, csId, it.quantity, some reservedUntil, InventoryReserveStatus.active.value⟩
    reserveInventory rest csId reservedUntil

/-! ## Checkout sessions -/

def updateCheckoutActiveness (csId : ℕ) (isActive : Bool := false) : Py Unit := do
  let _ ← update .checkoutSession (fun c : CheckoutSession => c.id = csId)
    fun c : CheckoutSession => { c with isActive }
  commit

structure CheckoutDetails where
  csId : ℕ
  csExpiresAt : ℕ
  csCartSnap : Option (List SnapshotItem)
  csPayMethod : Option PaymentMethod

def getCheckoutDetails (checkoutId : UUID) (userId : ℕ) : Py CheckoutDetails := do
  let res ← select .checkoutSession fun c : CheckoutSession =>
    c.userId = userId && c.isActive && c.publicId = checkoutId
  match ← oneOrNone res with
  | none => httpException 403 "checkout session not found"
  | some cs =>
    if cs.expiresAt < (← now) then
      updateCheckoutActiveness cs.id
      httpException 410 "checkout session expired"
    else pure ⟨cs.id, cs.expiresAt, cs.cartSnapshot, cs.selectedPaymentMethod⟩

def updateCheckoutCartNPaymethod (csId : ℕ) (paymentMethod : PaymentMethod)
    (items : List SnapshotItem) : Py Unit := do
  let _ ← update .checkoutSession (fun c : CheckoutSession => c.id = csId)
    fun c : CheckoutSession =>
      { c with selectedPaymentMethod := some paymentMethod, cartSnapshot := some items }

def validateCheckoutGetItemsPaymethod (checkoutId : UUID) (userId : ℕ) :
    Py (ℕ × List SnapshotItem × PaymentMethod) := do
  let res ← selectForUpdate .checkoutSession fun c : CheckoutSession =>
    c.userId = userId && c.isActive && c.publicId = checkoutId
  match ← oneOrNone res with
  | none => httpException 403 "Checkout session not found or unauthorized"
  | some cs =>
    if cs.expiresAt < (← now) + seconds 40 then
      updateCheckoutActiveness cs.id
      httpException 410 "Checkout session expired"
    else match cs.selectedPaymentMethod with
      | none => httpException 409 "Payment method not selected"
      | some paymentMethod =>
        match cs.cartSnapshot.getD [] with
        | [] => httpException 409 "Checkout has no items"
        | items => pure (cs.id, items, paymentMethod)

/-! ## Idempotency keys -/

structure OrderDataByIk where
  responseBody : Option Json
  responseCode : Option ℕ
  ikId : ℕ
  csId : ℕ

def spcByIkey (iKey : String) (userId : ℕ) : Py (Option OrderDataByIk) := do
  let res ← select .idempotencyKey fun k : IdempotencyKey => k.key = iKey && k.createdBy = userId
  match ← oneOrNone res with
  | none => pure none
  | some k =>
    let t ← now
    match k.expiresAt with
    | none => raiseApp (.typeError "'<' not supported between instances of 'NoneType' and 'datetime'")
    | some expiresAt =>
      if expiresAt < t + seconds 40 then
        httpException 410 "Checkout and order idempotency already expired"
      else pure (some ⟨k.responseBody, k.responseCode, k.id, k.csId⟩)

def recordOrderIdempotency (idempotencyKey : String) (userIdentifier csId : ℕ) :
    Py (Option ℕ) := do
  let nowTs ← now
  let ik ← insertOnConflictDoNothing .idempotencyKey fun n =>
    { id := n
      key := idempotencyKey
      csId
      createdBy := userIdentifier
      ownerType := none
      ownerId := none
      responseCode := none
      responseBody := none
      status := OrderIdempotencyStatus.pending.value
      expiresAt := some (nowTs + seconds (24 * 60 * 60)) }
  pure (ik.map IdempotencyKey.id)

def updateOrderIdempotencyRecord (lib : Lib) (userId ikId ownerId : ℕ) (responseCode : Option ℕ)
    (responseBody : Option (List (String × PyVal))) (ownerType : String) : Py Unit := do
  let body ← match responseBody with
    | none => pure none
    | some [] => pure (some (.obj []))
    | some d => ofApp ((jsonDumps d).map fun j => some (.str (lib.jsonText j)))
  let _ ← update .idempotencyKey
    (fun k : IdempotencyKey => k.id = ikId && k.createdBy = userId)
    fun k : IdempotencyKey =>
      { k with ownerId := some ownerId, ownerType := some ownerType, responseBody := body,
               responseCode }

def updateIdempotentResponse (key : String) (code : ℕ) (body : Json) : Py Unit := do
  let _ ← update .idempotencyKey (fun k : IdempotencyKey => k.key = key)
    fun k : IdempotencyKey => { k with responseCode := some code, responseBody := some body }

/-! ## Orders and payments -/

def recordPaymentInitPending (orderId : ℕ) (orderTotal : ℤ) (provider : String) : Py UUID := do
  let publicId ← uuid7
  let payment ← insert .payment fun n =>
    { id := n
      publicId
      orderId
      provider := some provider
      providerPaymentId := none
      providerOrderId := none
      status := PaymentStatus.pending.value
      amount := orderTotal }
  pure payment.publicId

/-- The order items that one flush inserts. -/
def addOrderItems (lib : Lib) (orderId : ℕ) : List SnapshotItem → Py Unit
  | [] => pure ()
  | it :: rest => do
    let _ ← insert .orderItem fun n =>
      { id := n
        orderId
        productId := it.productId
        quantity := it.quantity
        unitPriceSnapshot := it.prodBasePrice
        taxSnapshot := lib.twoPercent (it.prodBasePrice * it.quantity)
        discountSnapshot := 0 }
    addOrderItems lib orderId rest

structure OrderResponse where
  orderPublicId : UUID
  orderId : ℕ
  status : ℕ
  payPublicId : Option UUID

def OrderResponse.fields (r : OrderResponse) : List (String × PyVal) :=
  [("order_public_id", .uuid r.orderPublicId), ("order_id", .json (.num r.orderId)),
    ("status", .json (.num r.status))] ++
    (r.payPublicId.map fun u => ("pay_public_id", PyVal.uuid u)).toList

def placeOrderWithItems (lib : Lib) (userId : ℕ) (paymentMethod : PaymentMethod)
    (orderTotals : FinalTotal) (iKey : ℕ) : Py OrderResponse := do
  let publicId ← uuid7
  let order ← insert .orders fun n =>
    { id := n
      publicId
      ikId := iKey
      userId := some userId
      status := if paymentMethod = .UPI then OrderStatus.pendingPayment.value
        else OrderStatus.confirmed.value
      subtotal := orderTotals.subtotal
      tax := orderTotals.tax
      shipping := orderTotals.shipping
      discount := orderTotals.discount
      total := orderTotals.total }
  addOrderItems lib order.id orderTotals.items
  let response : OrderResponse := ⟨order.publicId, order.id, order.status, none⟩
  if paymentMethod = .UPI then
    let payPublicId ← recordPaymentInitPending order.id orderTotals.total "razorpay"
    updateOrderIdempotencyRecord lib userId iKey order.id none none "pay_now"
    pure { response with payPublicId := some payPublicId }
  else
    updateOrderIdempotencyRecord lib userId iKey order.id (some 200) (some response.fields)
      "order_confirm"
    pure response

def updatePaymentStatusNprovider (payId : ℕ) (providerOrderId : Json) : Py Unit := do
  let poid ← ofApp (bindText providerOrderId)
  let _ ← update .payment (fun p : Payment => p.id = payId)
    fun p : Payment => { p with providerOrderId := poid, status := PaymentStatus.accepted.value }

def recordPaymentAttempt (paymentId attemptNo payStatus : ℕ) : Py ℕ := do
  let pa ← insert .paymentAttempt fun n => ⟨n, paymentId, attemptNo, payStatus, none⟩
  pure pa.id

def updatePaymentAttemptResp (attemptId status : ℕ) (pspResponse : Json) : Py Unit := do
  let _ ← update .paymentAttempt (fun a : PaymentAttempt => a.id = attemptId)
    fun a : PaymentAttempt => { a with status, providerResponse := some pspResponse }

def payIdByPublicPayid (payPublicId : UUID) : Py (Option ℕ) := do
  let res ← select .payment fun p : Payment => p.publicId = payPublicId
  let res ← oneOrNone res
  pure (res.map Payment.id)

/-! ## Webhook statements -/

structure PayRecord where
  id : ℕ
  orderId : ℕ

/-- `column == value`: a missing value compiles to `IS NULL`. -/
def getPayRecordByProviderOrderid (providerOrderId : Json) (provider : String) :
    Py (Option PayRecord) := do
  let poid ← ofApp (bindText providerOrderId)
  let res ← select .payment fun p : Payment => p.provider = some provider && p.providerOrderId = poid
  let res ← oneOrNone res
  pure (res.map fun p : Payment => ⟨p.id, p.orderId⟩)

def updatePayCompletionGetOrderid (payId : ℕ) (providerPaymentId : Json) (paymentStatus : ℕ) :
    Py (Option ℕ) := do
  let ppid ← ofApp (bindText providerPaymentId)
  let res ← update .payment (fun p : Payment => p.id = payId && p.status < paymentStatus)
    fun p : Payment => { p with status := paymentStatus, providerPaymentId := ppid }
  let res ← oneOrNone res
  pure (res.map Payment.orderId)

def webhookErrorRecorded (evId : ℕ) (lastError : Option String) : Py Unit := do
  let _ ← update .paymentWebhookEvent (fun e : PaymentWebhookEvent => e.id = evId)
    fun e : PaymentWebhookEvent => { e with lastError }

def updateOrderStatus (orderId orderStatus : ℕ) : Py (Option ℕ) := do
  let res ← update .orders (fun o : Orders => o.id = orderId)
    fun o : Orders => { o with status := orderStatus }
  let res ← oneOrNone res
  pure (res.map Orders.id)

def emitOutboxEvent (topic : String) (payload : OutboxPayload) (aggregateType : String)
    (aggregateId : ℕ) : Py (Option ℕ) := do
  let ev ← insertOnConflictDoNothing .outboxEvent fun n =>
    ⟨n, topic, payload, aggregateType, aggregateId, OutboxEventStatus.pending.value, 0⟩
  match ev with
  | some ev => pure (some (OutboxEvent.id ev))
  | none =>
    let res ← select .outboxEvent fun e : OutboxEvent =>
      e.aggregateId = aggregateId && e.aggregateType = aggregateType && e.topic = topic
    let res ← oneOrNone res
    pure (res.map OutboxEvent.id)

def createCommitIntent (orderId : ℕ) (reason aggrType : String) (payload : CommitPayload) :
    Py (Option ℕ) := do
  let ci ← insertOnConflictDoNothing .commitIntent fun n =>
    ⟨n, aggrType, orderId, reason, CommitIntentStatus.pending.value, some payload, 0, none⟩
  match ci with
  | some ci => pure (some (CommitIntent.id ci))
  | none =>
    let res ← select .commitIntent fun c : CommitIntent =>
      c.aggregateId = orderId && c.aggregateType = aggrType && c.reason = reason
    let res ← oneOrNone res
    pure (res.map CommitIntent.id)

end Phyllonix
