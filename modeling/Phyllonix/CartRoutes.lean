import Phyllonix.OrderRoutes

/-!
# Cart routes

The handler of add-to-cart. The public ids of products are a function of the
primary key: no handler writes the column.
-/

namespace Phyllonix
open Relational

structure AddToCartRequest where
  productPublicId : UUID
  userId : Option ℕ
  sid : Option ℕ
  requestId : Option String

def successResponse (requestId : Option String) (data : Json) (status : ℕ := 200) : Reply :=
  jsonOk (.obj [("status", .str "ok"), ("data", data), ("error", .null), ("trace_id", .null),
    ("request_id", (requestId.map Json.str).getD .null)]) status

def cartIdWhere (p : Cart → Bool) : Py (Option ℕ) := do
  let res ← select .cart p
  let cart ← oneOrNone res
  pure (cart.map Cart.id)

/-- `session.refresh` -/
def refreshCart (cartId : ℕ) : Py Cart := do
  let res ← select .cart fun c : Cart => c.id = cartId
  match ← oneOrNone res with
  | some c => pure c
  | none => raiseApp (.other "Could not refresh instance")

/-- Another request may have added the cart since it was looked for. -/
def createCart (userId sessionId : Option ℕ) (wanted : Cart → Bool) : Py (Option ℕ) := do
  let created ← Prog.attempt (do
    let cart ← insert .cart fun n => ⟨n, userId, sessionId⟩
    commit
    refreshCart cart.id)
  match created with
  | .ok cart => pure (some cart.id)
  | .error .integrity =>
    rollback
    cartIdWhere wanted
  | .error e => .raise e

def getOrCreateCart (userId sessionId : Option ℕ) : Py (Option ℕ) := do
  match userId, sessionId with
  | some u, _ =>
    let wanted := fun c : Cart => decide (c.userId = some u)
    let cartId ← cartIdWhere wanted
    if cartId.any (· ≠ 0) then pure cartId else createCart userId sessionId wanted
  | none, some sid =>
    let wanted := fun c : Cart => decide (c.sessionId = some sid)
    let cartId ← cartIdWhere wanted
    if cartId.isSome then pure cartId else createCart none sessionId wanted
  | none, none => httpException 400 "Either session id or user id is required"

def getProductData (publicId : ℕ → UUID) (productPid : UUID) : Py Product := do
  let res ← select .product fun p : Product => publicId p.id = productPid
  match ← oneOrNone res with
  | some p => pure p
  | none => httpException 404 "Product not found"

/-- The item and whether it is new. -/
def addItemToCart (cartId : ℕ) (productData : Product) (maxItemQty : ℤ := 1000) :
    Py (CartItem × Bool) := do
  let res ← selectForUpdate .cartItem fun ci : CartItem =>
    ci.cartId = some cartId && ci.productId = productData.id
  match res with
  | row :: _ =>
    -- the quantity that an empty stock would keep is overwritten by this one
    let newQty := min (row.quantity + 1) maxItemQty
    let updated ← update .cartItem (fun ci : CartItem => ci.id = row.id)
      fun ci : CartItem => { ci with quantity := newQty }
    commit
    match updated with
    | [item] => pure (item, false)
    | _ => raiseApp (.other "No row was found when one was required")
  | [] =>
    let item ← insert .cartItem fun n => ⟨n, some cartId, productData.id, 1⟩
    commit
    pure (item, true)

def cartItemJson (cartId : ℕ) (productData : Product) (item : CartItem) (created : Bool) : Json :=
  .obj [("cart_id", .num cartId),
    ("item", .obj [("id", .num item.id), ("product_id", .num productData.id),
      ("quantity", .num item.quantity), ("created", .bool created)])]

def addToCart (publicId : ℕ → UUID) (req : AddToCartRequest) : Py Reply := do
  let productData ← getProductData publicId req.productPublicId
  let cartId ← getOrCreateCart req.userId req.sid
  match cartId with
  | none | some 0 => httpException 500 "Cart could not be created"
  | some cartId =>
    let (item, created) ← addItemToCart cartId productData
    pure (successResponse req.requestId (cartItemJson cartId productData item created))

end Phyllonix
