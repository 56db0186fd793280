import Phyllonix.OrderRoutes
import Phyllonix.IsoDateTimes

/-!
# Checkout initiation

The handler of initiate: it creates the checkout of a user with a filled cart, or finds the
active one. The clock of the host counts microseconds from the beginning of 1970 in UTC.
-/

namespace Phyllonix
open Relational

/-- The cart of a user, once for each of its items. -/
def filledCarts (d : Db) (userId : ℕ) : List ℕ :=
  ((d .cart).filter fun c : Cart => c.userId = some userId).flatMap fun c : Cart =>
    ((d .cartItem).filter fun ci : CartItem => ci.cartId = some c.id).map fun _ => c.id

def ifCartExists (userId : ℕ) : Py Unit := do
  let rows ← Prog.call (.read fun d : Db => filledCarts d userId : ShopAction)
  match rows.head? with
  | none | some 0 => httpException 404 "Cart not found or Cart is empty"
  | some _ => pure ()

def getCheckoutSession (userId : ℕ) : Py (Option UUID) := do
  let res ← select .checkoutSession fun c : CheckoutSession => c.userId = userId && c.isActive
  match ← oneOrNone res with
  | none => pure none
  | some cs =>
    if cs.expiresAt < (← now) then
      updateCheckoutActiveness cs.id
      httpException 410 "checkout session expired"
    else pure (some cs.publicId)

/-- The insertion gives way to the active checkout of the user. A fresh UUID is taken to be
no other checkout's. -/
def getOrCreateCheckoutSession (userId reservedUntil : ℕ) : Py UUID := do
  let publicId ← uuid7
  let cs ← insertOnConflictDoNothing .checkoutSession fun n =>
    { id := n
      publicId
      userId
      cartSnapshot := none
      selectedPaymentMethod := none
      isActive := true
      expiresAt := reservedUntil }
  match cs with
  | some cs => pure (CheckoutSession.publicId cs)
  | none =>
    match ← getCheckoutSession userId with
    | some checkoutPid => pure checkoutPid
    | none => httpException 409 "Could not create checkout session please retry"

/-- Year, month and day of a number of days from the beginning of 1970; years are counted from
March, in cycles of 400. -/
def civilDate (days : ℕ) : ℕ × ℕ × ℕ :=
  let z := days + 719468
  let dayOfCycle := z % 146097
  let yearOfCycle :=
    (dayOfCycle - dayOfCycle / 1460 + dayOfCycle / 36524 - dayOfCycle / 146096) / 365
  let dayOfYear := dayOfCycle - (365 * yearOfCycle + yearOfCycle / 4 - yearOfCycle / 100)
  let month := (5 * dayOfYear + 2) / 153
  let year := yearOfCycle + z / 146097 * 400
  (if month < 10 then year else year + 1, if month < 10 then month + 3 else month - 9,
    dayOfYear - (153 * month + 2) / 5 + 1)

/-- `str` of an aware date-time in UTC -/
def datetimeStr (t : ℕ) : String :=
  let (year, month, day) := civilDate (t / seconds 86400)
  let second := t / seconds 1
  String.ofList (Numeral.fixed 10 4 year ++ '-' :: (Numeral.fixed 10 2 month ++ '-' ::
    (Numeral.fixed 10 2 day ++ ' ' ::
      (Iso.clockText (second / 3600 % 24) (second / 60 % 60) (second % 60) (t % seconds 1) ++
        "+00:00".toList))))

def initiateBuyNow (userIdentifier : ℕ) : Py Reply := do
  let reservedUntil := (← now) + seconds (RESERVATION_TTL_MINUTES * 60)
  ifCartExists userIdentifier
  let checkoutPublicId ← getOrCreateCheckoutSession userIdentifier reservedUntil
  commit
  pure (jsonOk (buildSuccess (.obj [("checkout_id", .str (uuidStr checkoutPublicId)),
    ("reserved_until", .str (datetimeStr reservedUntil))])) 201)

end Phyllonix
