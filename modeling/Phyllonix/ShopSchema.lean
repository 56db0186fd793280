import Phyllonix.PythonValues

/-!
# Tables of the shop

The tables and unique indexes that carts, checkout, orders, payments and stock
use, and the host that the handlers run on: the clock, fresh UUIDs, the payment
provider and the in-memory queue. Times are microseconds.
-/

namespace Phyllonix
open Relational

inductive OrderStatus where
  | pendingPayment | confirmed | cancelled | fulfilled | outForDelivery | delivered | returned
  deriving DecidableEq

def OrderStatus.value : OrderStatus → ℕ
  | .pendingPayment => 10
  | .confirmed => 20
  | .cancelled => 30
  | .fulfilled => 40
  | .outForDelivery => 50
  | .delivered => 60
  | .returned => 70

inductive InventoryReserveStatus where
  | active | commited | released | expired
  deriving DecidableEq

def InventoryReserveStatus.value : InventoryReserveStatus → ℕ
  | .active => 0
  | .commited => 10
  | .released => 20
  | .expired => 30

inductive OrderIdempotencyStatus where
  | pending | success | failure
  deriving DecidableEq

def OrderIdempotencyStatus.value : OrderIdempotencyStatus → ℕ
  | .pending => 0
  | .success => 10
  | .failure => 20

inductive PaymentStatus where
  | pending | accepted | authorized | failed | captured | refunded
  deriving DecidableEq

def PaymentStatus.value : PaymentStatus → ℕ
  | .pending => 0
  | .accepted => 5
  | .authorized => 10
  | .failed => 20
  | .captured => 30
  | .refunded => 40

inductive PaymentAttemptStatus where
  | pending | unknown | retrying | success | failed
  deriving DecidableEq

def PaymentAttemptStatus.value : PaymentAttemptStatus → ℕ
  | .pending => 0
  | .unknown => 10
  | .retrying => 20
  | .success => 30
  | .failed => 40

inductive PaymentEventStatus where
  | received | inconsistent | authorized | captured | failed | processed
  deriving DecidableEq

def PaymentEventStatus.value : PaymentEventStatus → ℕ
  | .received => 0
  | .inconsistent => 10
  | .authorized => 20
  | .captured => 30
  | .failed => 50
  | .processed => 60

inductive OutboxEventStatus where
  | pending | sent | done | failed
  deriving DecidableEq

def OutboxEventStatus.value : OutboxEventStatus → ℕ
  | .pending => 0
  | .sent => 10
  | .done => 20
  | .failed => 30

inductive CommitIntentStatus where
  | pending | processing | failed | done
  deriving DecidableEq

def CommitIntentStatus.value : CommitIntentStatus → ℕ
  | .pending => 0
  | .processing => 10
  | .failed => 20
  | .done => 30

/-- The values that order-summary lets into `selected_payment_method`. -/
inductive PaymentMethod where
  | UPI | COD
  deriving DecidableEq

structure Product where
  id : ℕ
  stockQty : ℤ
  basePrice : ℤ

structure Cart where
  id : ℕ
  userId : Option ℕ
  sessionId : Option ℕ

structure CartItem where
  id : ℕ
  cartId : Option ℕ
  productId : ℕ
  quantity : ℤ

/-- An item of a cart snapshot. -/
structure SnapshotItem where
  cartItemId : ℕ
  productId : ℕ
  quantity : ℤ
  prodBasePrice : ℤ
  productStock : ℤ
  deriving DecidableEq

structure CheckoutSession where
  id : ℕ
  publicId : UUID
  userId : ℕ
  cartSnapshot : Option (List SnapshotItem)
  selectedPaymentMethod : Option PaymentMethod
  isActive : Bool
  expiresAt : ℕ

structure InventoryReservation where
  id : ℕ
  productId : ℕ
  checkoutId : ℕ
  quantity : ℤ
  reservedUntil : Option ℕ
  status : ℕ

structure IdempotencyKey where
  id : ℕ
  key : String
  csId : ℕ
  createdBy : ℕ
  ownerType : Option String
  ownerId : Option ℕ
  responseCode : Option ℕ
  responseBody : Option Json
  status : ℕ
  expiresAt : Option ℕ

structure Orders where
  id : ℕ
  publicId : UUID
  ikId : ℕ
  userId : Option ℕ
  status : ℕ
  subtotal : ℤ
  tax : ℤ
  shipping : ℤ
  discount : ℤ
  total : ℤ

structure OrderItem where
  id : ℕ
  orderId : ℕ
  productId : ℕ
  quantity : ℤ
  unitPriceSnapshot : ℤ
  taxSnapshot : ℤ
  discountSnapshot : ℤ

structure Payment where
  id : ℕ
  publicId : UUID
  orderId : ℕ
  provider : Option String
  providerPaymentId : Option String
  providerOrderId : Option String
  status : ℕ
  amount : ℤ

structure PaymentAttempt where
  id : ℕ
  paymentId : ℕ
  attemptNo : ℕ
  status : ℕ
  providerResponse : Option Json

structure PaymentWebhookEvent where
  id : ℕ
  provider : String
  providerEventId : Option String
  orderId : Option ℕ
  payload : Option Json
  status : ℕ
  attempts : ℕ
  lastError : Option String
  processedAt : Option ℕ

structure OutboxPayload where
  orderId : ℕ
  paymentProviderId : Json
  providerOrderId : Json

structure OutboxEvent where
  id : ℕ
  topic : String
  payload : OutboxPayload
  aggregateType : String
  aggregateId : ℕ
  status : ℕ
  attempts : ℕ

structure CommitItem where
  productId : ℕ
  quantity : ℤ
  deriving DecidableEq

structure CommitPayload where
  orderId : ℕ
  items : List CommitItem
  deriving DecidableEq

structure CommitIntent where
  id : ℕ
  aggregateType : String
  aggregateId : ℕ
  reason : String
  status : ℕ
  payload : Option CommitPayload
  attempts : ℕ
  nextRetryAt : Option ℕ

inductive Table where
  | product | cart | cartItem | checkoutSession | inventoryReservation | idempotencyKey | orders
  | orderItem | payment | paymentAttempt | paymentWebhookEvent | outboxEvent | commitIntent
  deriving DecidableEq

@[reducible] def Table.Row : Table → Type
  | .product => Product
  | .cart => Cart
  | .cartItem => CartItem
  | .checkoutSession => CheckoutSession
  | .inventoryReservation => InventoryReservation
  | .idempotencyKey => IdempotencyKey
  | .orders => Orders
  | .orderItem => OrderItem
  | .payment => Payment
  | .paymentAttempt => PaymentAttempt
  | .paymentWebhookEvent => PaymentWebhookEvent
  | .outboxEvent => OutboxEvent
  | .commitIntent => CommitIntent

def rowId : {t : Table} → t.Row → ℕ
  | .product, r => r.id
  | .cart, r => r.id
  | .cartItem, r => r.id
  | .checkoutSession, r => r.id
  | .inventoryReservation, r => r.id
  | .idempotencyKey, r => r.id
  | .orders, r => r.id
  | .orderItem, r => r.id
  | .payment, r => r.id
  | .paymentAttempt, r => r.id
  | .paymentWebhookEvent, r => r.id
  | .outboxEvent, r => r.id
  | .commitIntent, r => r.id

inductive IndexKey where
  | publicId (u : UUID)
  | userId (u : ℕ)
  | sessionId (s : ℕ)
  | cartProduct (cart product : ℕ)
  | activeUser (u : ℕ)
  | productCheckout (product checkout : ℕ)
  | key (k : String)
  | ikId (n : ℕ)
  | orderProduct (order product : ℕ)
  | orderId (o : ℕ)
  | providerOrder (provider order : String)
  | providerPayment (provider payment : String)
  | providerEvent (provider event : String)
  | topicAggregate (topic ty : String) (aggregate : ℕ)
  | reasonAggregate (reason ty : String) (aggregate : ℕ)
  deriving DecidableEq

def providerKeys (p : Payment) : List IndexKey :=
  match p.provider with
  | none => []
  | some pr => (p.providerOrderId.map (.providerOrder pr)).toList ++
      (p.providerPaymentId.map (.providerPayment pr)).toList

def rowKeys : {t : Table} → t.Row → List IndexKey
  | .product, _ => []
  | .cart, r => (r.userId.map .userId).toList ++ (r.sessionId.map .sessionId).toList
  | .cartItem, r => (r.cartId.map (.cartProduct · r.productId)).toList
  | .checkoutSession, r => .publicId r.publicId :: if r.isActive then [.activeUser r.userId] else []
  | .inventoryReservation, r => [.productCheckout r.productId r.checkoutId]
  | .idempotencyKey, r => [.key r.key]
  | .orders, r => [.publicId r.publicId, .ikId r.ikId]
  | .orderItem, r => [.orderProduct r.orderId r.productId]
  | .payment, r => .publicId r.publicId :: .orderId r.orderId :: providerKeys r
  | .paymentAttempt, _ => []
  | .paymentWebhookEvent, r => (r.providerEventId.map (.providerEvent r.provider)).toList
  | .outboxEvent, r => [.topicAggregate r.topic r.aggregateType r.aggregateId]
  | .commitIntent, r => [.reasonAggregate r.reason r.aggregateType r.aggregateId]

@[reducible] def shop : Schema where
  Tbl := Table
  Row := Table.Row
  id := rowId
  Key := IndexKey
  keys := rowKeys

/-- An order request as it is sent to the payment provider. -/
structure PspRequest where
  amount : ℤ
  currency : String
  receipt : String
  notes : List (String × String)
  idempotencyKey : String

inductive Message where
  | outbox (topic : String) (outboxEventId : ℕ) (payload : OutboxPayload)
  | commitIntent (commitIntentId orderId : ℕ)

structure HostState where
  clock : ℕ
  uuids : UUID
  pspCalls : List PspRequest
  published : List Message

inductive HostAct where
  | now
  | uuid7
  | sleep (seconds : Rat)
  | createPspOrder (req : PspRequest)
  | publish (m : Message)

@[reducible] def HostAct.Res : HostAct → Type
  | .now => ℕ
  | .uuid7 => UUID
  | .sleep _ => Unit
  | .createPspOrder _ => List (String × Json)
  | .publish _ => Unit

/-- What the provider answers, and whether the queue has room. -/
inductive HostChoice where
  | proceed
  | response (body : List (String × Json))
  | fails (e : AppErr)
  | full

def HostAct.step : (a : HostAct) → HostChoice → HostState →
    Option (Except AppErr a.Res × HostState)
  | .now, .proceed, s => some (.ok s.clock, s)
  | .uuid7, .proceed, s => some (.ok s.uuids, { s with uuids := s.uuids + 1 })
  | .sleep _, .proceed, s => some (.ok (), s)
  | .createPspOrder req, .response body, s =>
    some (.ok body, { s with pspCalls := s.pspCalls ++ [req] })
  | .createPspOrder req, .fails e, s => some (.error e, { s with pspCalls := s.pspCalls ++ [req] })
  | .publish m, .proceed, s => some (.ok (), { s with published := s.published ++ [m] })
  | .publish _, .full, s => some (.error .queueFull, s)
  | _, _, _ => none

@[reducible] def shopHost : Host where
  State := HostState
  Act := HostAct
  Res := HostAct.Res
  Choice := HostChoice
  Err := AppErr
  step := HostAct.step
  Env := ℕ
  env d s := { s with clock := s.clock + d }

abbrev Py := Prog shop shopHost

abbrev ShopAction := Action shop shopHost

abbrev Db := Store shop

def seconds (n : ℕ) : ℕ := n * 1000000

def raiseApp {α : Type} (e : AppErr) : Py α := .raise (.app e)

def httpException {α : Type} (status : ℕ) (detail : String) : Py α :=
  raiseApp (.http status (.str detail))

def ofApp {α : Type} : Except AppErr α → Py α
  | .ok a => .ret a
  | .error e => raiseApp e

def hostCall (a : HostAct) : Py a.Res := .call (.host a : ShopAction)

def now : Py ℕ := hostCall .now

def uuid7 : Py UUID := hostCall .uuid7

def sleep (seconds : Rat) : Py Unit := hostCall (.sleep seconds)

def publish (m : Message) : Py Unit := hostCall (.publish m)

def select (t : Table) (p : t.Row → Bool) : Py (List t.Row) :=
  .call (.read fun d : Db => (d t).filter p)

def selectForUpdate (t : Table) (p : t.Row → Bool) : Py (List t.Row) :=
  .call (.lock t p : ShopAction)

def selectForUpdateSkipLocked (t : Table) (p : t.Row → Bool) : Py (List t.Row) :=
  .call (.lockSkip t p : ShopAction)

def update (t : Table) (p : t.Row → Bool) (f : t.Row → t.Row)
    (hf : ∀ r, rowId (f r) = rowId r := by intro _; rfl) : Py (List t.Row) :=
  .call (.update t p f hf : ShopAction)

def insert (t : Table) (mk : ℕ → t.Row) (hmk : ∀ n, rowId (mk n) = n := by intro _; rfl) :
    Py t.Row := do
  match ← .call (.insert t mk hmk false : ShopAction) with
  | some r => pure r
  | none => .raise .integrity

def insertOnConflictDoNothing (t : Table) (mk : ℕ → t.Row)
    (hmk : ∀ n, rowId (mk n) = n := by intro _; rfl) : Py (Option t.Row) :=
  .call (.insert t mk hmk true : ShopAction)

def commit : Py Unit := .call (.commit : ShopAction)

def rollback : Py Unit := .call (.rollback : ShopAction)

/-- `one_or_none` and `scalar_one_or_none` -/
def oneOrNone {α : Type} : List α → Py (Option α)
  | [] => pure none
  | [a] => pure (some a)
  | _ => raiseApp .multipleResultsFound

end Phyllonix
