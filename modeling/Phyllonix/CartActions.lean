import Phyllonix.CartRoutes
import Phyllonix.ShopRules

/-!
# What add-to-cart does to the store

Add-to-cart reads, locks items of carts, sets their quantities, and inserts carts and items.
-/

namespace Phyllonix
open Relational

/-- `A` lets through all that is done to find or create a cart. -/
structure CartCreation (A : ShopAction → Prop) : Prop where
  read : ∀ {β : Type} (f : Db → β), A (.read f)
  create : ∀ mk hmk, A (.insert .cart mk hmk false)
  commit : A .commit
  rollback : A .rollback

/-- `A` lets through all that add-to-cart may do. -/
structure CartActs (A : ShopAction → Prop) : Prop extends CartCreation A where
  lock : ∀ p, A (.lock .cartItem p)
  update : ∀ p (q : ℤ) hf, A (.update .cartItem p (fun ci : CartItem => { ci with quantity := q }) hf)
  add : ∀ mk hmk, A (.insert .cartItem mk hmk false)

theorem insert_acts {A : ShopAction → Prop} {t : Table} {mk : ℕ → t.Row} {hmk : ∀ m, rowId (mk m) = m}
    (h : A (.insert t mk hmk false)) : (insert t mk hmk).Acts A := by
  apply Prog.Acts.bind (.call h)
  intro o
  cases o <;> trivial

section Carts
variable {A : ShopAction → Prop}

theorem CartCreation.select (hA : CartCreation A) (t : Table) (p : t.Row → Bool) : (select t p).Acts A :=
  .call (hA.read _)

theorem cartIdWhere_acts (hA : CartCreation A) (p : Cart → Bool) : (cartIdWhere p).Acts A :=
  (hA.select _ _).bind fun rows => (oneOrNone_acts rows).bind fun _ => .pure _

theorem refreshCart_acts (hA : CartCreation A) (cartId : ℕ) : (refreshCart cartId).Acts A := by
  apply (hA.select _ _).bind
  intro rows
  apply (oneOrNone_acts rows).bind
  intro o
  cases o <;> trivial

theorem createCart_acts (hA : CartCreation A) (userId sessionId : Option ℕ) (wanted : Cart → Bool) :
    (createCart userId sessionId wanted).Acts A := by
  have hbody : (do
      let cart ← insert .cart fun m => ⟨m, userId, sessionId⟩
      commit
      refreshCart cart.id : Py Cart).Acts A :=
    (insert_acts (hA.create _ _)).bind fun _ => (Prog.Acts.call hA.commit).bind fun _ => refreshCart_acts hA _
  apply hbody.attempt.bind
  intro created
  match created with
  | .ok cart => trivial
  | .error .integrity => exact (Prog.Acts.call hA.rollback).bind fun _ => cartIdWhere_acts hA _
  | .error .fault => trivial
  | .error .inFailedTransaction => trivial
  | .error (.app e) => trivial

theorem getOrCreateCart_acts (hA : CartCreation A) (userId sessionId : Option ℕ) :
    (getOrCreateCart userId sessionId).Acts A := by
  have hfind : ∀ (p : Cart → Bool) (c : Option ℕ → Bool) (u : Option ℕ),
      (do
        let cartId ← cartIdWhere p
        if c cartId then pure cartId else createCart u sessionId p : Py (Option ℕ)).Acts A := by
    intro p c u
    apply (cartIdWhere_acts hA p).bind
    intro cartId
    split
    · trivial
    · exact createCart_acts hA _ _ _
  match userId, sessionId with
  | some u, _ => exact hfind _ _ _
  | none, some sid => exact hfind _ _ _
  | none, none => trivial

theorem getProductData_acts (hA : CartCreation A) (publicId : ℕ → UUID) (productPid : UUID) :
    (getProductData publicId productPid).Acts A := by
  apply (hA.select _ _).bind
  intro rows
  apply (oneOrNone_acts rows).bind
  intro o
  cases o <;> trivial

theorem addItemToCart_acts (hA : CartActs A) (cartId : ℕ) (product : Product) (maxItemQty : ℤ) :
    (addItemToCart cartId product maxItemQty).Acts A := by
  apply Prog.Acts.bind (.call (hA.lock _))
  intro rows
  cases rows with
  | nil => exact (insert_acts (hA.add _ _)).bind fun _ => (Prog.Acts.call hA.commit).bind fun _ => .pure _
  | cons row rows =>
    apply Prog.Acts.bind (.call (hA.update _ _ _))
    intro updated
    apply (Prog.Acts.call hA.commit).bind
    intro _
    match updated with
    | [] => trivial
    | [_] => trivial
    | _ :: _ :: _ => trivial

theorem addToCart_acts (hA : CartActs A) (publicId : ℕ → UUID) (req : AddToCartRequest) :
    (addToCart publicId req).Acts A := by
  apply (getProductData_acts hA.toCartCreation _ _).bind
  intro product
  apply (getOrCreateCart_acts hA.toCartCreation _ _).bind
  intro cartId
  match cartId with
  | none => trivial
  | some 0 => trivial
  | some (k + 1) => exact (addItemToCart_acts hA _ _ _).bind fun _ => .pure _

end Carts

end Phyllonix
