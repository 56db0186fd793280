import Phyllonix.RelationalAllowance
import Phyllonix.ShopSchema

/-!
# Whose row it is

A row belongs to a user directly, or through its cart, checkout, order or payment. The columns
that decide it are never written after the insertion, so what belongs to a user goes on to.
-/

namespace Phyllonix
open Relational

/-- The columns that decide whose row it is, and the unique ones that requests select by. -/
def SameOwner : {t : Table} → t.Row → t.Row → Prop
  | .cart, r, r' => r'.userId = r.userId
  | .cartItem, r, r' => r'.cartId = r.cartId
  | .checkoutSession, r, r' => r'.userId = r.userId
  | .inventoryReservation, r, r' => r'.checkoutId = r.checkoutId
  | .idempotencyKey, r, r' => r'.key = r.key ∧ r'.createdBy = r.createdBy
  | .orders, r, r' => r'.userId = r.userId
  | .orderItem, r, r' => r'.orderId = r.orderId
  | .payment, r, r' => r'.publicId = r.publicId ∧ r'.orderId = r.orderId
  | .paymentAttempt, r, r' => r'.paymentId = r.paymentId
  | .product, _, _ | .paymentWebhookEvent, _, _ | .outboxEvent, _, _ | .commitIntent, _, _ => True

theorem SameOwner.refl {t : Table} (r : t.Row) : SameOwner r r := by
  cases t <;> simp [SameOwner]

theorem SameOwner.trans {t : Table} {r r' r'' : t.Row} (h : SameOwner r r') (h' : SameOwner r' r'') :
    SameOwner r r'' := by
  cases t <;> simp_all [SameOwner]

/-- Rows stay, and stay whose they are. -/
def ownerOrder : RowOrder shop where
  rel _ r r' := ∀ a, r = some a → ∃ b, r' = some b ∧ SameOwner a b
  refl _ _ a h := ⟨a, h, .refl a⟩
  trans h h' a ha := by
    obtain ⟨b, hb, hab⟩ := h a ha
    obtain ⟨c, hc, hbc⟩ := h' b hb
    exact ⟨c, hc, hab.trans hbc⟩

def CartOf (d : Db) (u cart : ℕ) : Prop :=
  ∃ c, d.get .cart cart = some c ∧ Cart.userId c = some u

def CheckoutOf (d : Db) (u checkout : ℕ) : Prop :=
  ∃ c, d.get .checkoutSession checkout = some c ∧ CheckoutSession.userId c = u

def OrderOf (d : Db) (u order : ℕ) : Prop :=
  ∃ o, d.get .orders order = some o ∧ Orders.userId o = some u

def PaymentOf (d : Db) (u payment : ℕ) : Prop :=
  ∃ p, d.get .payment payment = some p ∧ OrderOf d u (Payment.orderId p)

/-- The row belongs to user `u`. Stock, webhook events and worker tables belong to nobody. -/
def Belongs (d : Db) (u : ℕ) : {t : Table} → t.Row → Prop
  | .cart, r => r.userId = some u
  | .cartItem, r => ∃ cart, r.cartId = some cart ∧ CartOf d u cart
  | .checkoutSession, r => r.userId = u
  | .inventoryReservation, r => CheckoutOf d u r.checkoutId
  | .idempotencyKey, r => r.createdBy = u
  | .orders, r => r.userId = some u
  | .orderItem, r => OrderOf d u r.orderId
  | .payment, r => OrderOf d u r.orderId
  | .paymentAttempt, r => PaymentOf d u r.paymentId
  | .product, _ | .paymentWebhookEvent, _ | .outboxEvent, _ | .commitIntent, _ => False

section Later
variable {d d' : Db} {u v : ℕ}

theorem CartOf.later (h : Evolves ownerOrder d d') {k : ℕ} (hk : CartOf d u k) : CartOf d' u k := by
  obtain ⟨c, hc, hu⟩ := hk
  obtain ⟨c', hc', hsame⟩ := h .cart k c hc
  exact ⟨c', hc', Eq.trans hsame hu⟩

theorem CheckoutOf.later (h : Evolves ownerOrder d d') {k : ℕ} (hk : CheckoutOf d u k) :
    CheckoutOf d' u k := by
  obtain ⟨c, hc, hu⟩ := hk
  obtain ⟨c', hc', hsame⟩ := h .checkoutSession k c hc
  exact ⟨c', hc', Eq.trans hsame hu⟩

theorem OrderOf.later (h : Evolves ownerOrder d d') {k : ℕ} (hk : OrderOf d u k) : OrderOf d' u k := by
  obtain ⟨o, ho, hu⟩ := hk
  obtain ⟨o', ho', hsame⟩ := h .orders k o ho
  exact ⟨o', ho', Eq.trans hsame hu⟩

theorem PaymentOf.later (h : Evolves ownerOrder d d') {k : ℕ} (hk : PaymentOf d u k) :
    PaymentOf d' u k := by
  obtain ⟨p, hp, hu⟩ := hk
  obtain ⟨p', hp', hsame⟩ := h .payment k p hp
  refine ⟨p', hp', ?_⟩
  rw [hsame.2]
  exact hu.later h

/-- A row goes on to belong to its user, in every later version. -/
theorem Belongs.later (h : Evolves ownerOrder d d') {t : Table} {r r' : t.Row} (hsame : SameOwner r r')
    (hr : Belongs d u r) : Belongs d' u r' := by
  cases t with
  | cart => exact Eq.trans hsame hr
  | cartItem =>
    obtain ⟨k, hk, hu⟩ := hr
    exact ⟨k, Eq.trans hsame hk, hu.later h⟩
  | checkoutSession => exact Eq.trans hsame hr
  | inventoryReservation =>
    have hcheckout : CheckoutOf d' u r.checkoutId := CheckoutOf.later h hr
    have heq : r'.checkoutId = r.checkoutId := hsame
    rw [← heq] at hcheckout
    exact hcheckout
  | idempotencyKey => exact Eq.trans hsame.2 hr
  | orders => exact Eq.trans hsame hr
  | orderItem =>
    have horder : OrderOf d' u r.orderId := OrderOf.later h hr
    have heq : r'.orderId = r.orderId := hsame
    rw [← heq] at horder
    exact horder
  | payment =>
    have horder : OrderOf d' u r.orderId := OrderOf.later h hr
    have heq : r'.orderId = r.orderId := hsame.2
    rw [← heq] at horder
    exact horder
  | paymentAttempt =>
    have hpayment : PaymentOf d' u r.paymentId := PaymentOf.later h hr
    have heq : r'.paymentId = r.paymentId := hsame
    rw [← heq] at hpayment
    exact hpayment
  | product => exact hr
  | paymentWebhookEvent => exact hr
  | outboxEvent => exact hr
  | commitIntent => exact hr

theorem OrderOf.unique {k : ℕ} (hu : OrderOf d u k) (hv : OrderOf d v k) : u = v := by
  obtain ⟨o, ho, hu⟩ := hu
  obtain ⟨o', ho', hv⟩ := hv
  rw [ho] at ho'
  cases ho'
  exact Option.some.inj (hu.symm.trans hv)

/-- A row belongs to one user at most. -/
theorem Belongs.unique {t : Table} {r : t.Row} (hu : Belongs d u r) (hv : Belongs d v r) : u = v := by
  cases t with
  | cart => exact Option.some.inj (Eq.trans (Eq.symm hu) hv)
  | cartItem =>
    obtain ⟨k, hk, c, hc, hu⟩ := hu
    obtain ⟨k', hk', c', hc', hv⟩ := hv
    rw [hk] at hk'
    cases hk'
    rw [hc] at hc'
    cases hc'
    exact Option.some.inj (hu.symm.trans hv)
  | checkoutSession => exact Eq.trans (Eq.symm hu) hv
  | inventoryReservation =>
    obtain ⟨c, hc, hu⟩ := hu
    obtain ⟨c', hc', hv⟩ := hv
    rw [hc] at hc'
    cases hc'
    exact hu.symm.trans hv
  | idempotencyKey => exact Eq.trans (Eq.symm hu) hv
  | orders => exact Option.some.inj (Eq.trans (Eq.symm hu) hv)
  | orderItem => exact OrderOf.unique hu hv
  | payment => exact OrderOf.unique hu hv
  | paymentAttempt =>
    obtain ⟨p, hp, hu⟩ := hu
    obtain ⟨p', hp', hv⟩ := hv
    rw [hp] at hp'
    cases hp'
    exact hu.unique hv
  | product => exact hu.elim
  | paymentWebhookEvent => exact hu.elim
  | outboxEvent => exact hu.elim
  | commitIntent => exact hu.elim

end Later

/-- A user may write rows of their own. -/
def ownRows (u : ℕ) : Allowance ownerOrder where
  allows d v := Belongs d u v.row
  later h hv := hv.later h (.refl _)

/-- Every row that belongs to another user is the same in both stores. -/
def SameForOthers (u : ℕ) (d d' : Db) : Prop :=
  ∀ v ≠ u, ∀ (t : Table) (r : t.Row), (r ∈ d t ∧ Belongs d v r) ↔ (r ∈ d' t ∧ Belongs d' v r)

theorem SameForOthers.refl (u : ℕ) (d : Db) : SameForOthers u d d := fun _ _ _ _ => .rfl

theorem SameForOthers.trans {u : ℕ} {d d' d'' : Db} (h : SameForOthers u d d')
    (h' : SameForOthers u d' d'') : SameForOthers u d d'' :=
  fun v hv t r => (h v hv t r).trans (h' v hv t r)

section Publishes
variable {d d' : Db} {u v : ℕ}

/-- A row of another user is not among the published ones. -/
theorem published_other {ws : List (Write shop)}
    (hws : ∀ w ∈ ws, (ownRows u).allows (applyWrites ws d) w) (hv : v ≠ u) {t : Table} {i : ℕ} {r : t.Row}
    (hr : (applyWrites ws d).get t i = some r) (hbelongs : Belongs (applyWrites ws d) v r) :
    d.get t i = some r := by
  by_cases hw : Written ws t i
  · obtain ⟨r', hr', hmem⟩ := get_of_written hw d
    rw [hr] at hr'
    cases hr'
    exact absurd (hbelongs.unique (hws _ hmem)) hv
  · rw [← get_applyWrites_of_not_written hw d]
    exact hr

/-- What a user publishes leaves the rows of others alone. -/
theorem Publishes.sameForOthers (hd : d.Wf) (hd' : d'.Wf) (h : (ownRows u).Publishes d d') :
    SameForOthers u d d' := by
  obtain ⟨ws, rfl, hev, hws⟩ := h
  intro v hv t r
  have hback : ∀ {t : Table} {i : ℕ} {r : t.Row}, (applyWrites ws d).get t i = some r →
      Belongs (applyWrites ws d) v r → d.get t i = some r :=
    fun hr hb => published_other hws hv hr hb
  constructor
  · intro h
    obtain ⟨hr, hb⟩ := h
    obtain ⟨r', hr', hsame⟩ := hev t (rowId r) r (Store.get_of_mem hd.ids hr)
    have hold := hback hr' (hb.later hev hsame)
    rw [Store.get_of_mem hd.ids hr] at hold
    cases hold
    exact ⟨Store.mem_of_get hr', hb.later hev (.refl _)⟩
  · intro h
    obtain ⟨hr, hb⟩ := h
    have horder : ∀ {k}, OrderOf (applyWrites ws d) v k → OrderOf d v k := by
      intro k hk
      obtain ⟨o, ho, hu⟩ := hk
      exact ⟨o, hback ho hu, hu⟩
    refine ⟨Store.mem_of_get (hback (Store.get_of_mem hd'.ids hr) hb), ?_⟩
    cases t with
    | cartItem =>
      obtain ⟨k, hk, c, hc, hu⟩ := hb
      exact ⟨k, hk, c, hback hc hu, hu⟩
    | inventoryReservation =>
      obtain ⟨c, hc, hu⟩ := hb
      exact ⟨c, hback hc hu, hu⟩
    | orderItem => exact horder hb
    | payment => exact horder hb
    | paymentAttempt =>
      obtain ⟨p, hp, hu⟩ := hb
      exact ⟨p, hback hp hu, horder hu⟩
    | _ => exact hb

end Publishes
end Phyllonix
