import Phyllonix.OrderServices

/-!
# Checkout routes

The handlers of order-summary and secure-confirm. A request runs in a session of
its own; what it has not committed when it ends is rolled back.
-/

namespace Phyllonix
open Relational

def buildSuccess (data : Json) : Json :=
  .obj [("status", .str "ok"), ("data", data), ("error", .null), ("trace_id", .null),
    ("request_id", .null)]

def jsonOk (content : Json) (status : ℕ := 200) : Reply := ⟨status, content⟩

/-- The status code that a request is answered with. -/
def statusCode : Except (Exn AppErr) Reply → ℕ
  | .ok r => r.status
  | .error (.app (.http s _)) => s
  | .error _ => 500

def PaymentMethod.text : PaymentMethod → String
  | .UPI => "UPI"
  | .COD => "COD"

def parsePaymentMethod : Json → Option PaymentMethod
  | .str "UPI" => some .UPI
  | .str "COD" => some .COD
  | _ => none

def SnapshotItem.toJson (it : SnapshotItem) : Json :=
  .obj [("cart_item_id", .num it.cartItemId), ("product_id", .num it.productId),
    ("quantity", .num it.quantity), ("prod_base_price", .num it.prodBasePrice),
    ("product_stock", .num it.productStock)]

def OrderSummary.toJson (s : OrderSummary) : Json :=
  .obj [("checkout_id", .str (uuidStr s.checkoutId)),
    ("selected_payment_method", .str s.selectedPaymentMethod.text),
    ("items", .arr (s.items.map SnapshotItem.toJson)),
    ("summary", .obj [("subtotal", .num s.summary.subtotal), ("tax", .num s.summary.tax),
      ("shipping", .num s.summary.shipping), ("cod_fee", .num s.summary.codFee),
      ("discount", .num s.summary.discount), ("total", .num s.summary.total)])]

def summaryReply (lib : Lib) (items : List SnapshotItem) (paymentMethod : PaymentMethod)
    (checkoutId : UUID) : Reply :=
  jsonOk (buildSuccess (computeOrderTotals lib items paymentMethod checkoutId).toJson)

structure SummaryRequest where
  userIdentifier : ℕ
  checkoutId : UUID
  paymentMethod : Json

/-- The part of order-summary that takes the snapshot and reserves it. -/
def reserveSnapshot (lib : Lib) (req : SummaryRequest) (paymentMethod : PaymentMethod)
    (cs : CheckoutDetails) : Py Reply := do
  let cart ← captureCartSnapshot req.userIdentifier
  validateItemsAvblty cart.items
  reserveInventory cart.items cs.csId cs.csExpiresAt
  updateCheckoutCartNPaymethod cs.csId paymentMethod cart.items
  commit
  pure (summaryReply lib cart.items paymentMethod req.checkoutId)

def getOrderSummary (lib : Lib) (req : SummaryRequest) : Py Reply := do
  match parsePaymentMethod req.paymentMethod with
  | none => httpException 400 "payment_method must be UPI or COD"
  | some paymentMethod =>
    let cs ← getCheckoutDetails req.checkoutId req.userIdentifier
    match cs.csCartSnap.getD [], cs.csPayMethod with
    | it :: items, some payMethod =>
      pure (summaryReply lib (it :: items) payMethod req.checkoutId)
    | _, _ => reserveSnapshot lib req paymentMethod cs

structure ConfirmRequest where
  userIdentifier : ℕ
  checkoutId : UUID
  idempotencyKey : String

def OrderDataByIk.toJson (d : OrderDataByIk) : Json :=
  .obj [("response_body", d.responseBody.getD .null),
    ("response_code", (d.responseCode.map fun c => Json.num c).getD .null),
    ("ik_id", .num d.ikId), ("cs_id", .num d.csId)]

def OrderResponse.toJson (r : OrderResponse) : Except AppErr Json := do
  let fields ← r.fields.mapM fun (x : String × PyVal) => do
    let j ← x.2.toJson
    pure (x.1, j)
  pure (.obj fields)

/-- Order, order items, payment and idempotency record are committed together, before
the payment provider is called; the checkout is deactivated after it answered. -/
def confirmOrder (lib : Lib) (req : ConfirmRequest) (csId : ℕ) (items : List SnapshotItem)
    (paymentMethod : PaymentMethod) (ikId : ℕ) : Py Reply := do
  let orderTotals := computeFinalTotal lib items paymentMethod
  let orderRespData ← placeOrderWithItems lib req.userIdentifier paymentMethod orderTotals ikId
  commit
  match orderRespData.payPublicId with
  | some payPublicId =>
    let orderPayRes ← createPaymentIntent lib req.idempotencyKey orderTotals orderRespData payPublicId
    updateCheckoutActiveness csId
    pure (jsonOk orderPayRes)
  | none =>
    let data ← ofApp orderRespData.toJson
    pure (jsonOk (buildSuccess data))

/-- The key has no stored response: record it, or find the record of another request. -/
def confirmUnanswered (lib : Lib) (req : ConfirmRequest) (csId : ℕ) (items : List SnapshotItem)
    (paymentMethod : PaymentMethod) : Py Reply := do
  match ← recordOrderIdempotency req.idempotencyKey req.userIdentifier csId with
  | some ikId => confirmOrder lib req csId items paymentMethod ikId
  | none =>
    sleep 5
    match ← spcByIkey req.idempotencyKey req.userIdentifier with
    | none => raiseApp (.typeError "'NoneType' object is not subscriptable")
    | some d =>
      if d.responseBody.isSome then pure (jsonOk (buildSuccess d.toJson))
      else confirmOrder lib req csId items paymentMethod d.ikId

def placeOrder (lib : Lib) (req : ConfirmRequest) : Py Reply := do
  if req.idempotencyKey = "" then
    httpException 400 "Idempotency-Key header is required for order confirm"
  else
    let (csId, items, paymentMethod) ←
      validateCheckoutGetItemsPaymethod req.checkoutId req.userIdentifier
    let _ ← Prog.call (.tryLock (idempotencyLockKey lib req.idempotencyKey) : ShopAction)
    match ← spcByIkey req.idempotencyKey req.userIdentifier with
    | none => confirmUnanswered lib req csId items paymentMethod
    | some d =>
      if d.csId ≠ csId then
        httpException 400 "Unauthorized checkout session for provided idempotency key"
      else if d.responseBody.isSome then pure (jsonOk (buildSuccess d.toJson))
      else confirmUnanswered lib req csId items paymentMethod

end Phyllonix
