import Phyllonix.OrderServices

/-!
# The amount shown and the amount charged

Order-summary and secure-confirm price one snapshot in two ways. They agree on
subtotal, tax, cash-on-delivery fee and discount, and differ in the shipping.
-/

namespace Phyllonix

theorem foldl_prices (items : List SnapshotItem) (s : ℤ) :
    items.foldl (fun s it => s + it.prodBasePrice * it.quantity) s =
      s + (items.map fun it => it.prodBasePrice * it.quantity).sum := by
  induction items generalizing s with
  | nil => simp
  | cons it items ih =>
    simp only [List.foldl_cons, ih, List.map_cons, List.sum_cons]
    omega

variable (lib : Lib) (items : List SnapshotItem) (paymentMethod : PaymentMethod) (checkoutId : UUID)

theorem subtotal_agrees : (computeFinalTotal lib items paymentMethod).subtotal =
    (computeOrderTotals lib items paymentMethod checkoutId).summary.subtotal := by
  simp only [computeFinalTotal, computeOrderTotals, foldl_prices]
  omega

/-- The shown totals are the charged ones with a shipping of 50. -/
theorem shown_eq_charged_add_shipping :
    (computeOrderTotals lib items paymentMethod checkoutId).summary =
      let charged := (computeFinalTotal lib items paymentMethod).toTotals
      { charged with shipping := 50, total := charged.total + 50 } := by
  have hs := subtotal_agrees lib items paymentMethod checkoutId
  simp only [computeFinalTotal, computeOrderTotals] at hs ⊢
  rw [hs]
  congr 1
  omega

/-- No snapshot and no payment method has the shown amount charged; the stored and
requested amounts follow the charged one. -/
theorem shown_ne_charged (idempotencyKey : String) (orderData : OrderResponse) (payPublicId : UUID) :
    let shown := (computeOrderTotals lib items paymentMethod checkoutId).summary
    let charged := computeFinalTotal lib items paymentMethod
    shown ≠ charged.toTotals ∧ shown.shipping ≠ charged.shipping ∧ shown.total ≠ charged.total ∧
      (pspRequest idempotencyKey charged orderData payPublicId).amount ≠ shown.total * 100 := by
  intro shown charged
  have h : shown = { charged.toTotals with shipping := 50, total := charged.total + 50 } :=
    shown_eq_charged_add_shipping lib items paymentMethod checkoutId
  have hship : charged.shipping = 0 := rfl
  have hamount : (pspRequest idempotencyKey charged orderData payPublicId).amount =
      charged.total * 100 := rfl
  have hshown : shown.shipping = 50 := by rw [h]
  have htotal : shown.total = charged.total + 50 := by rw [h]
  refine ⟨fun he => ?_, by omega, by omega, by omega⟩
  rw [he] at hshown
  omega

def oneItem : List SnapshotItem := [⟨1, 1, 2, 100, 5⟩]

theorem shown_ne_charged_one_item :
    ¬((computeOrderTotals plainLib oneItem .UPI 7).summary =
      (computeFinalTotal plainLib oneItem .UPI).toTotals) := by decide

end Phyllonix
