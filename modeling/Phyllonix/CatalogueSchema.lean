import Phyllonix.RelationalStatements
import Phyllonix.PythonValues

/-!
# Tables of the catalogue

Products, their categories, and the links between them. The host of the product handlers is
the clock; times are microseconds.
-/

namespace Phyllonix.Products
open Relational

structure Product where
  id : ℕ
  publicId : UUID
  stockQty : ℤ
  sku : Option String
  name : String
  description : Option String
  /-- in paise -/
  basePrice : ℤ
  specs : Option Json
  ownerId : Option ℕ
  createdAt : ℕ
  updatedAt : ℕ
  deletedAt : Option ℕ

structure ProductCategory where
  id : ℕ
  name : String

structure ProductCategoryLink where
  id : ℕ
  productId : ℕ
  prodCategoryId : ℕ

inductive Table where
  | product | productCategory | productCategoryLink
  deriving DecidableEq

@[reducible] def Table.Row : Table → Type
  | .product => Product
  | .productCategory => ProductCategory
  | .productCategoryLink => ProductCategoryLink

def rowId : {t : Table} → t.Row → ℕ
  | .product, r => r.id
  | .productCategory, r => r.id
  | .productCategoryLink, r => r.id

inductive IndexKey where
  | publicId (u : UUID)
  | name (s : String)
  | productCategory (product category : ℕ)
  deriving DecidableEq

/-- The unique index on owner and name is implied by the one on the name. -/
def rowKeys : {t : Table} → t.Row → List IndexKey
  | .product, r => [.publicId r.publicId, .name r.name]
  | .productCategory, r => [.name r.name]
  | .productCategoryLink, r => [.productCategory r.productId r.prodCategoryId]

@[reducible] def products : Schema where
  Tbl := Table
  Row := Table.Row
  id := rowId
  Key := IndexKey
  keys := rowKeys

/-- The clock is read. -/
inductive HostAct where
  | now

@[reducible] def HostAct.Res : HostAct → Type
  | .now => ℕ

def HostAct.step : (a : HostAct) → Unit → ℕ → Option (Except AppErr a.Res × ℕ)
  | .now, _, clock => some (.ok clock, clock)

@[reducible] def productHost : Host where
  State := ℕ
  Act := HostAct
  Res := HostAct.Res
  Choice := Unit
  Err := AppErr
  step := HostAct.step
  Env := ℕ
  env d clock := clock + d

abbrev Py := Prog products productHost

abbrev ProductAction := Action products productHost

abbrev Db := Store products

def raiseApp {α : Type} (e : AppErr) : Py α := .raise (.app e)

def httpException {α : Type} (status : ℕ) (detail : String) : Py α :=
  raiseApp (.http status (.str detail))

def now : Py ℕ := .call (.host .now : ProductAction)

def select (t : Table) (p : t.Row → Bool) : Py (List t.Row) := Prog.select (S := products) t p

def selectForUpdate (t : Table) (p : t.Row → Bool) : Py (List t.Row) :=
  Prog.selectForUpdate (S := products) t p

/-- `UPDATE ... RETURNING` -/
def update (t : Table) (p : t.Row → Bool) (f : t.Row → t.Row)
    (hf : ∀ r, rowId (f r) = rowId r := by intro _; rfl) : Py (List t.Row) :=
  .call (.update t p f hf : ProductAction)

def insertOnConflictDoNothing (t : Table) (mk : ℕ → t.Row)
    (hmk : ∀ n, rowId (mk n) = n := by intro _; rfl) : Py (Option t.Row) :=
  .call (.insert t mk hmk true : ProductAction)

def commit : Py Unit := .call (.commit : ProductAction)

/-- `one_or_none` and `scalar_one_or_none` -/
def oneOrNone {α : Type} : List α → Py (Option α)
  | [] => pure none
  | [a] => pure (some a)
  | _ => raiseApp .multipleResultsFound

end Phyllonix.Products
