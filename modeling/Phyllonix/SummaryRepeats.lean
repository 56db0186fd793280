import Phyllonix.CartSnapshots

/-!
# Repeated order-summary requests

What requests for one checkout can make of a store while cart, stock and the other reservations
stay as they are: nothing yet, or the snapshot and the reservations of a single request.
-/

namespace Phyllonix
open Relational

/-- The statement of the request finds the checkout. -/
def SummaryRequest.finds (req : SummaryRequest) (c : CheckoutSession) : Bool :=
  c.userId = req.userIdentifier && c.isActive && c.publicId = req.checkoutId

/-- The snapshot and payment method from which a request is answered at once. -/
def CheckoutSession.stored (c : CheckoutSession) : Option (List SnapshotItem × PaymentMethod) :=
  match c.cartSnapshot.getD [], c.selectedPaymentMethod with
  | it :: items, some m => some (it :: items, m)
  | _, _ => none

def cartSnapshotItems (d : Db) (u : ℕ) : List SnapshotItem :=
  (cartRows d u).map fun row => ⟨row.1.id, row.2.id, row.1.quantity, row.2.basePrice, row.2.stockQty⟩

/-- What the stock has left besides the reservations covers the item. -/
def Covered (d : Db) (t : ℕ) (it : SnapshotItem) : Prop :=
  it.quantity ≤ max 0 (it.productStock - reservedQty d t it.productId)

instance (d : Db) (t : ℕ) (it : SnapshotItem) : Decidable (Covered d t it) :=
  inferInstanceAs (Decidable (_ ≤ _))

/-- The answer to a request that is made on store `d` at time `t`. -/
inductive SummaryOf (lib : Lib) (req : SummaryRequest) (d : Db) (t : ℕ) : Reply → Prop
  | stored {c : CheckoutSession} {items : List SnapshotItem} {m : PaymentMethod} (hc : c ∈ d .checkoutSession)
      (hfound : req.finds c = true) (hitems : c.stored = some (items, m))
      (hm : (parsePaymentMethod req.paymentMethod).isSome) :
      SummaryOf lib req d t (summaryReply lib items m req.checkoutId)
  | taken {c : CheckoutSession} {m : PaymentMethod} (hc : c ∈ d .checkoutSession) (hfound : req.finds c = true)
      (hitems : c.stored = none) (hm : parsePaymentMethod req.paymentMethod = some m)
      (hfilled : cartSnapshotItems d req.userIdentifier ≠ [])
      (hcovered : ∀ it ∈ cartSnapshotItems d req.userIdentifier, Covered d t it) :
      SummaryOf lib req d t (summaryReply lib (cartSnapshotItems d req.userIdentifier) m req.checkoutId)

theorem finds_unique {req : SummaryRequest} {d : Db} (hd : d.Wf) {c c' : CheckoutSession}
    (hc : c ∈ d .checkoutSession) (hc' : c' ∈ d .checkoutSession) (hfound : req.finds c = true)
    (hfound' : req.finds c' = true) : c = c' := by
  simp only [SummaryRequest.finds, Bool.and_eq_true, decide_eq_true_eq] at hfound hfound'
  have hkey : IndexKey.publicId c.publicId ∈ rowKeys (t := .checkoutSession) c' := by
    simp [rowKeys, hfound.2, hfound'.2]
  exact hd.eq_of_key (t := .checkoutSession) hc hc' (by simp [rowKeys]) hkey

/-- There is one answer at most. -/
theorem SummaryOf.unique {lib : Lib} {req : SummaryRequest} {d : Db} (hd : d.Wf) {t : ℕ} {r r' : Reply}
    (h : SummaryOf lib req d t r) (h' : SummaryOf lib req d t r') : r = r' := by
  cases h with
  | stored hc hfound hitems =>
    cases h' with
    | stored hc' hfound' hitems' =>
      obtain rfl := finds_unique hd hc hc' hfound hfound'
      rw [hitems] at hitems'
      cases hitems'
      rfl
    | taken hc' hfound' hitems' =>
      obtain rfl := finds_unique hd hc hc' hfound hfound'
      rw [hitems] at hitems'
      cases hitems'
  | taken hc hfound hitems hm =>
    cases h' with
    | stored hc' hfound' hitems' =>
      obtain rfl := finds_unique hd hc hc' hfound hfound'
      rw [hitems] at hitems'
      cases hitems'
    | taken hc' hfound' hitems' hm' =>
      rw [hm] at hm'
      cases hm'
      rfl

/-! ## What a single request reserves -/

/-- The reservation that a request makes for an item. -/
def ReservedFor (c : CheckoutSession) (items : List SnapshotItem) (r : InventoryReservation) : Prop :=
  r.checkoutId = c.id ∧ r.reservedUntil = some c.expiresAt ∧ r.status = InventoryReserveStatus.active.value ∧
    ∃ it ∈ items, Reserves it r

/-- The reservations before are still there, and the others are for the checkout. -/
structure Grown (c : CheckoutSession) (items : List SnapshotItem) (d₀ d : Db) : Prop where
  kept : ∀ r : InventoryReservation, r ∈ d₀ .inventoryReservation → r ∈ d .inventoryReservation
  added : ∀ r : InventoryReservation, r ∈ d .inventoryReservation →
    r ∈ d₀ .inventoryReservation ∨ ReservedFor c items r

/-- Every item has its reservation. -/
def AllReserved (c : CheckoutSession) (items : List SnapshotItem) (d : Db) : Prop :=
  ∀ it ∈ items, ∃ r : InventoryReservation, r ∈ d .inventoryReservation ∧ r.productId = it.productId ∧
    r.checkoutId = c.id

/-- The checkout with what a request stores in it. -/
def CheckoutSession.summarised (c : CheckoutSession) (m : PaymentMethod) (items : List SnapshotItem) :
    CheckoutSession :=
  { c with selectedPaymentMethod := some m, cartSnapshot := some items }

/-- One request, or several with the same effect, has been committed on top of `d₀`. -/
structure SummedUp (req : SummaryRequest) (d₀ : Db) (t₀ : ℕ) (c : CheckoutSession) (m : PaymentMethod) (d : Db) :
    Prop where
  method : parsePaymentMethod req.paymentMethod = some m
  checkout : c ∈ d₀ .checkoutSession
  found : req.finds c = true
  unstored : c.stored = none
  filled : cartSnapshotItems d₀ req.userIdentifier ≠ []
  covered : ∀ it ∈ cartSnapshotItems d₀ req.userIdentifier, Covered d₀ t₀ it
  row : d.get .checkoutSession c.id = some (c.summarised m (cartSnapshotItems d₀ req.userIdentifier))
  others : ∀ i, i ≠ c.id → d.get .checkoutSession i = d₀.get .checkoutSession i
  rest : ∀ t, t ≠ .checkoutSession → t ≠ .inventoryReservation → d t = d₀ t
  grown : Grown c (cartSnapshotItems d₀ req.userIdentifier) d₀ d
  all : AllReserved c (cartSnapshotItems d₀ req.userIdentifier) d

def Repeated (req : SummaryRequest) (d₀ : Db) (t₀ : ℕ) (d : Db) : Prop :=
  d = d₀ ∨ ∃ c m, SummedUp req d₀ t₀ c m d

/-! ## Conditions on the steps -/

/-- Neither the checkout nor a reservation runs out between `t₀` and `t`. -/
def Steady (req : SummaryRequest) (d : Db) (t₀ t : ℕ) : Prop :=
  (∀ c : CheckoutSession, c ∈ d .checkoutSession → c.publicId = req.checkoutId → t < c.expiresAt) ∧
    ∀ r : InventoryReservation, r ∈ d .inventoryReservation → r.activeAt t = r.activeAt t₀

/-- With its own reservations, if there are active ones, the stock still covers the cart. -/
def LeavesRoom (req : SummaryRequest) (d : Db) (t : ℕ) : Prop :=
  ∀ c : CheckoutSession, c ∈ d .checkoutSession → req.finds c = true → ∀ r : InventoryReservation,
    r ∈ d .inventoryReservation → r.checkoutId = c.id → r.activeAt t = true →
      ∀ it ∈ cartSnapshotItems d req.userIdentifier, Covered d t it

section States
variable {req : SummaryRequest} {d₀ d : Db} {t₀ t t' : ℕ} {c : CheckoutSession} {m : PaymentMethod}

theorem reservedQty_congr (h : ∀ r : InventoryReservation, r ∈ d .inventoryReservation → r.activeAt t = r.activeAt t')
    (p : ℕ) : reservedQty d t p = reservedQty d t' p := by
  rw [reservedQty, reservedQty]
  congr 1
  apply List.map_congr_left
  intro r hr
  rw [h r (List.mem_filter.mp hr).1]

theorem activeAt_of_reservedFor {items : List SnapshotItem} {r : InventoryReservation}
    (h : ReservedFor c items r) (ht : t < c.expiresAt) : r.activeAt t = true := by
  obtain ⟨-, huntil, hstatus, -⟩ := h
  simp [InventoryReservation.activeAt, huntil, hstatus, ht]

theorem Steady.checkout (h : Steady req d₀ t₀ t) (hc : c ∈ d₀ .checkoutSession) (hfound : req.finds c = true) :
    t < c.expiresAt := by
  simp only [SummaryRequest.finds, Bool.and_eq_true, decide_eq_true_eq] at hfound
  exact h.1 c hc hfound.2

theorem SummedUp.activeAt_eq (h : SummedUp req d₀ t₀ c m d) (ht : Steady req d₀ t₀ t) (ht' : Steady req d₀ t₀ t')
    (r : InventoryReservation) (hr : r ∈ d .inventoryReservation) : r.activeAt t = r.activeAt t' := by
  cases h.grown.added r hr with
  | inl hold => rw [ht.2 r hold, ht'.2 r hold]
  | inr hnew =>
    rw [activeAt_of_reservedFor hnew (ht.checkout h.checkout h.found),
      activeAt_of_reservedFor hnew (ht'.checkout h.checkout h.found)]

/-- Without active reservations of its own a summed up checkout has reserved nothing. -/
theorem SummedUp.reservations_perm (h : SummedUp req d₀ t₀ c m d) (hd₀ : d₀.Wf) (hd : d.Wf) (ht : Steady req d₀ t₀ t)
    (hown : ∀ r : InventoryReservation, r ∈ d .inventoryReservation → r.checkoutId = c.id → r.activeAt t ≠ true) :
    (d .inventoryReservation).Perm (d₀ .inventoryReservation) := by
  apply (List.perm_ext_iff_of_nodup (hd.ids .inventoryReservation).of_map (hd₀.ids .inventoryReservation).of_map).mpr
  refine fun r => ⟨fun hr => ?_, h.grown.kept r⟩
  cases h.grown.added r hr with
  | inl hold => exact hold
  | inr hnew => exact absurd (activeAt_of_reservedFor hnew (ht.checkout h.checkout h.found)) (hown r hr hnew.1)

theorem cartSnapshotItems_congr {u : ℕ} (h : ∀ t, t ≠ .checkoutSession → t ≠ .inventoryReservation → d t = d₀ t) :
    cartSnapshotItems d u = cartSnapshotItems d₀ u := by
  rw [cartSnapshotItems, cartSnapshotItems, cartRows, cartRows, h .cart (by decide) (by decide),
    h .cartItem (by decide) (by decide), h .product (by decide) (by decide)]

theorem SummedUp.finds (h : SummedUp req d₀ t₀ c m d) :
    req.finds (c.summarised m (cartSnapshotItems d₀ req.userIdentifier)) = true := h.found

/-- Every check finds what the first one found. -/
theorem Repeated.covered_iff (h : Repeated req d₀ t₀ d) (hd₀ : d₀.Wf) (hd : d.Wf) (ht : Steady req d₀ t₀ t)
    (ht' : Steady req d₀ t₀ t') (hroom : LeavesRoom req d t') :
    (∀ it ∈ cartSnapshotItems d₀ req.userIdentifier, Covered d t it) ↔
      ∀ it ∈ cartSnapshotItems d₀ req.userIdentifier, Covered d₀ t₀ it := by
  rcases h with rfl | ⟨c, m, h⟩
  · simp only [Covered, reservedQty_congr ht.2]
  · refine ⟨fun _ => h.covered, fun _ it hit => ?_⟩
    rw [Covered, reservedQty_congr (h.activeAt_eq ht ht')]
    by_cases hown : ∃ r : InventoryReservation, r ∈ d .inventoryReservation ∧ r.checkoutId = c.id ∧ r.activeAt t' = true
    · obtain ⟨r, hr, hrc, hactive⟩ := hown
      rw [← cartSnapshotItems_congr h.rest] at hit
      exact hroom _ (Store.mem_of_get h.row) h.finds r hr hrc hactive it hit
    · have hperm := h.reservations_perm hd₀ hd ht' fun r hr hrc hactive => hown ⟨r, hr, hrc, hactive⟩
      have hqty : reservedQty d t' it.productId = reservedQty d₀ t₀ it.productId := by
        rw [← reservedQty_congr ht'.2, reservedQty, reservedQty]
        exact ((hperm.filter _).map _).sum_eq
      rw [hqty]
      exact h.covered it hit

end States
end Phyllonix
