import Phyllonix.CatalogueSchema
import Phyllonix.NumeralTexts
import Phyllonix.OrderRoutes

/-!
# The product handlers

Creating a product with its categories, and updating a product of one's own. Payloads are
what validation lets through. A create request comes with the value of its call of `uuid7`.
-/

namespace Phyllonix.Products
open Relational

/-- What the handlers use of the standard library. -/
structure ProductLib where
  /-- `UUID(value)`, where it is one -/
  uuidOf : String → Option UUID
  /-- how a list of texts is written into a message -/
  listText : List String → String

structure ProductCreateIn where
  name : String
  description : Option String
  basePrice : ℤ
  stockQty : ℤ
  sku : Option String
  specs : Option Json
  categoryNames : Option (List String)
  name_le : name.length ≤ 255
  basePrice_nonneg : 0 ≤ basePrice
  stockQty_nonneg : 0 ≤ stockQty

/-- The outer option tells whether a field is set, the inner one whether it is null. -/
structure ProductUpdateIn where
  name : Option (Option String)
  description : Option (Option String)
  basePrice : Option (Option ℤ)
  stockQty : Option (Option ℤ)
  sku : Option (Option String)
  specs : Option (Option Json)
  categoryNames : Option (Option (List String))
  name_le : ∀ s, name = some (some s) → s.length ≤ 255
  basePrice_nonneg : ∀ z, basePrice = some (some z) → 0 ≤ z
  stockQty_nonneg : ∀ z, stockQty = some (some z) → 0 ≤ z

/-- The driver takes integers of four bytes. -/
def Int4 (z : ℤ) : Prop := -2147483648 ≤ z ∧ z ≤ 2147483647

instance (z : ℤ) : Decidable (Int4 z) := inferInstanceAs (Decidable (_ ∧ _))

/-- `VARCHAR(128)` -/
def skuFits (sku : Option String) : Bool := sku.all fun s => s.length ≤ 128

/-- `{name.strip() for name in names}` -/
def stripped (names : List String) : List String :=
  (names.map fun name => String.ofList (Numeral.strip name.toList)).dedup

/-! ## Creating -/

/-- The rows of one insert statement. -/
def insertLinks (productId : ℕ) : List ℕ → Py Unit
  | [] => pure ()
  | cid :: rest => do
    let _ ← insertOnConflictDoNothing .productCategoryLink fun n => ⟨n, productId, cid⟩
    insertLinks productId rest

def addProductCategories (productId : ℕ) (catNames : List String) : Py Unit := do
  let catNames := stripped catNames
  let rows ← select .productCategory fun c : ProductCategory => c.name ∈ catNames
  let catIds := rows.map ProductCategory.id
  if catIds.length ≠ catNames.length then httpException 409 "One or more categories do not exist"
  else insertLinks productId catIds

def createProductWithCatgs (payload : ProductCreateIn) (userId : ℕ) (uuid7 : UUID) : Py Product := do
  let createdAt ← now
  let updatedAt ← now
  if ¬(Int4 payload.basePrice ∧ Int4 payload.stockQty) || !skuFits payload.sku then raiseApp .dataError
  else
    let row ← insertOnConflictDoNothing .product fun n =>
      { id := n
        publicId := uuid7
        stockQty := payload.stockQty
        sku := payload.sku
        name := payload.name
        description := payload.description
        basePrice := payload.basePrice
        specs := payload.specs
        ownerId := some userId
        createdAt
        updatedAt
        deletedAt := none }
    match row with
    | none => httpException 409 "Product with same name already exists"
    | some (product : Product) =>
      match payload.categoryNames.getD [] with
      | [] => pure product
      | names => do
        addProductCategories product.id names
        pure product

def createdReply (publicId : UUID) (name : String) (basePrice stockQty : ℤ) : Reply :=
  jsonOk (buildSuccess (.obj [("message", .str "product created"),
    ("product", .obj [("public_id", .str (uuidStr publicId)), ("name", .str name),
      ("base_price", .num basePrice), ("stock_qty", .num stockQty)])])) 201

def createProduct (payload : ProductCreateIn) (userIdentifier : ℕ) (uuid7 : UUID) : Py Reply := do
  let product ← createProductWithCatgs payload userIdentifier uuid7
  commit
  pure (createdReply product.publicId product.name product.basePrice product.stockQty)

/-! ## Updating -/

def validateCategoriesByNames (lib : ProductLib) (categoryNames : Option (List String)) : Py (List ℕ) := do
  match categoryNames.getD [] with
  | [] => pure []
  | names =>
    let uniqueNames := stripped names
    let rows ← select .productCategory fun c : ProductCategory => c.name ∈ uniqueNames
    let missing := uniqueNames.filter fun name => rows.all fun c : ProductCategory => c.name ≠ name
    if missing ≠ [] then httpException 422 ("Categories not found: " ++ lib.listText missing)
    else pure (rows.map ProductCategory.id)

structure FoundProduct where
  productId : ℕ
  productOwnerId : Option ℕ

def findProductByPid (productPid : UUID) : Py FoundProduct := do
  let res ← select .product fun p : Product => p.publicId = productPid && p.deletedAt.isNone
  match ← oneOrNone res with
  | none => httpException 404 "Product not found"
  | some (p : Product) => pure ⟨p.id, p.ownerId⟩

/-- A set field that is null for a column that takes no null. -/
def setsNull {α : Type} : Option (Option α) → Bool
  | some none => true
  | _ => false

/-- What the database refuses when the update meets a row. -/
def ProductUpdateIn.refused (payload : ProductUpdateIn) : Option (Exn AppErr) :=
  if setsNull payload.name || setsNull payload.basePrice || setsNull payload.stockQty then some .integrity
  else if !skuFits payload.sku.join then some (.app .dataError)
  else none

def ProductUpdateIn.bound (payload : ProductUpdateIn) : Bool :=
  payload.basePrice.join.all (fun z => Int4 z) && payload.stockQty.join.all fun z => Int4 z

/-- `.values(**updates, updated_at=now())` -/
def Product.patch (payload : ProductUpdateIn) (t : ℕ) (p : Product) : Product :=
  { p with
    name := payload.name.join.getD p.name
    description := payload.description.getD p.description
    basePrice := payload.basePrice.join.getD p.basePrice
    stockQty := payload.stockQty.join.getD p.stockQty
    sku := payload.sku.getD p.sku
    specs := payload.specs.getD p.specs
    updatedAt := t }

def Product.patchable (userId productId : ℕ) (p : Product) : Bool :=
  p.id = productId && p.ownerId = some userId && p.deletedAt.isNone

def patchProduct (payload : ProductUpdateIn) (userId productId : ℕ) : Py UUID := do
  let t ← now
  if !payload.bound then raiseApp .dataError
  else
    match payload.refused with
    | some e =>
      match ← selectForUpdate .product (Product.patchable userId productId) with
      | [] => httpException 404 "Product not found "
      | _ :: _ => .raise e
    | none =>
      let res ← update .product (Product.patchable userId productId) (Product.patch payload t)
      match ← oneOrNone res with
      | none => httpException 404 "Product not found "
      | some (p : Product) => pure p.publicId

def updatedReply (productPid : UUID) : Reply :=
  jsonOk (buildSuccess (.obj [("message", .str ("product " ++ uuidStr productPid ++ " updated"))]))

/-- `value` is the text that `validate_uuid` reads. -/
def updateProduct (lib : ProductLib) (payload : ProductUpdateIn) (userIdentifier : ℕ) (value : String) :
    Py Reply := do
  match lib.uuidOf value with
  | none => httpException 400 "Invalid product_public_id"
  | some productPublicId =>
    -- the categories are checked and not used: updates leave the links alone
    let _ ← validateCategoriesByNames lib payload.categoryNames.join
    let product ← findProductByPid productPublicId
    if product.productOwnerId ≠ some userIdentifier then httpException 403 "Not authorized to update."
    else
      let productPid ← patchProduct payload userIdentifier product.productId
      commit
      pure (updatedReply productPid)

inductive ProductRequest where
  | create (userIdentifier : ℕ) (uuid7 : UUID) (payload : ProductCreateIn)
  | update (userIdentifier : ℕ) (value : String) (payload : ProductUpdateIn)

def ProductRequest.handler (lib : ProductLib) : ProductRequest → Py Reply
  | .create userIdentifier uuid7 payload => createProduct payload userIdentifier uuid7
  | .update userIdentifier value payload => updateProduct lib payload userIdentifier value

/-- Requests that run at the same time, each in a session of its own. -/
def productRequests {n : ℕ} (lib : ProductLib) (reqs : Fin n → ProductRequest) (w : World products productHost) :
    Sys products productHost n (Except (Exn AppErr) Reply) :=
  .start w fun i => ((reqs i).handler lib).session

end Phyllonix.Products
