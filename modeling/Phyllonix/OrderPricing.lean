import Phyllonix.ShopSchema
import Mathlib.Algebra.Order.Ring.Unbundled.Rat

/-!
# Order totals, payment states and the advisory lock key

The two price computations of the shop: the one that order-summary shows and the
one that secure-confirm stores and charges. `int(x * 0.02)` is a floating-point
product, so it is a given function of `x`.
-/

namespace Phyllonix

/-- Library functions that the handlers call. -/
structure Lib where
  twoPercent : ℤ → ℤ
  sha256 : String → List UInt8
  hmacHex : String → String
  jsonText : Json → String

def plainLib : Lib where
  twoPercent x := x / 50
  sha256 s := s.toUTF8.toList
  hmacHex s := s
  jsonText _ := ""

structure Totals where
  subtotal : ℤ
  tax : ℤ
  shipping : ℤ
  codFee : ℤ
  discount : ℤ
  total : ℤ
  deriving DecidableEq

structure OrderSummary where
  checkoutId : UUID
  selectedPaymentMethod : PaymentMethod
  items : List SnapshotItem
  summary : Totals

structure FinalTotal extends Totals where
  items : List SnapshotItem

def computeOrderTotals (lib : Lib) (items : List SnapshotItem) (paymentMethod : PaymentMethod)
    (checkoutPublicId : UUID) : OrderSummary :=
  let subtotal := (items.map fun it => it.prodBasePrice * it.quantity).sum
  let tax := lib.twoPercent subtotal
  let shipping := 50
  let discount := 0
  let codFee := if paymentMethod = .COD then 50 else 0
  let total := subtotal + tax + shipping + codFee - discount
  { checkoutId := checkoutPublicId
    selectedPaymentMethod := paymentMethod
    items
    summary := { subtotal, tax, shipping, codFee, discount, total } }

def computeFinalTotal (lib : Lib) (items : List SnapshotItem) (paymentMethod : PaymentMethod) :
    FinalTotal :=
  let subtotal := items.foldl (fun s it => s + it.prodBasePrice * it.quantity) 0
  let tax := lib.twoPercent subtotal
  let shipping := 0
  let discount := 0
  let codFee := if paymentMethod = .COD then 50 else 0
  let total := subtotal + tax + shipping + codFee - discount
  { items, subtotal, tax, shipping, codFee, discount, total }

/-- `int.from_bytes(h, "big", signed=False)` -/
def fromBytesBig (bs : List UInt8) : ℕ := bs.foldl (fun v b => v * 256 + b.toNat) 0

def idempotencyLockKey (lib : Lib) (ikey : String) : ℤ :=
  let h := (lib.sha256 ikey).take 8
  let val : ℤ := fromBytesBig h
  if val > 2 ^ 63 - 1 then val - 2 ^ 64 else val

structure PayOrderStatus where
  paymentStatus : ℕ
  orderStatus : ℕ
  isValidEvent : Bool
  note : String
  deriving DecidableEq

/-- `("failed")` is a string, so the first test asks for a substring of it, and it
raises on a status that is no string. -/
def payOrderStatusUtil (pspPayStatus event : Json) : Except AppErr PayOrderStatus :=
  match pspPayStatus with
  | .str s =>
    let r : PayOrderStatus :=
      ⟨PaymentStatus.pending.value, OrderStatus.pendingPayment.value, true,
        "processed order and pay failure"⟩
    let r := if s.toList <:+: "failed".toList then
        { r with paymentStatus := PaymentStatus.failed.value, note := "payment status failed" }
      else r
    let r := if s ∈ ["captured", "authorized", "success"] then
        if event.isStr "payment.authorized" then
          { r with paymentStatus := PaymentStatus.authorized.value, note := "payment authorized" }
        else if event.isStr "payment.captured" then
          { r with
            paymentStatus := PaymentStatus.captured.value
            orderStatus := OrderStatus.confirmed.value
            note := "payment captured" }
        else if event.isStr "order.paid" then
          { r with
            paymentStatus := PaymentStatus.captured.value
            orderStatus := OrderStatus.confirmed.value
            note := "order paid"
            isValidEvent := false }
        else r
      else r
    .ok (if s ∉ ["captured", "authorized", "failed", "success"] then
        { r with
          paymentStatus := PaymentStatus.failed.value
          note := "unknown payment status"
          isValidEvent := false }
      else r)
  | _ => .error (.typeError "'in <string>' requires string as left operand")

end Phyllonix
