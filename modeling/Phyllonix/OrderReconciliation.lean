import Mathlib.Algebra.Order.BigOperators.Group.List
import Phyllonix.OrderEntries
import Phyllonix.OrderTotals
import Phyllonix.ConfirmRuns

/-!
# Orders and their lines

The tax of an order is rounded once, and the tax of each line once more; the fee of cash on
delivery is in the total, and in no other column. So the rows of an order agree only without the
fee, and only while the rounded off parts of the lines stay below one rupee.
-/

namespace Phyllonix
open Relational
variable {n : ℕ}

/-- The columns of the order add up to its total, and the taxes of the lines to its tax. -/
def Reconciles (o : Orders) (lines : List OrderItem) : Prop :=
  o.total = o.subtotal + o.tax + o.shipping - o.discount ∧ (lines.map OrderItem.taxSnapshot).sum = o.tax

instance (o : Orders) (lines : List OrderItem) : Decidable (Reconciles o lines) :=
  inferInstanceAs (Decidable (_ ∧ _))

/-- What the tax of a line leaves out, in fiftieths of a rupee. -/
def roundedOff (it : SnapshotItem) : ℤ := it.prodBasePrice * it.quantity % 50

theorem sum_taxes_add_roundedOff (items : List SnapshotItem) :
    50 * (items.map fun it => it.prodBasePrice * it.quantity / 50).sum + (items.map roundedOff).sum =
      (items.map fun it => it.prodBasePrice * it.quantity).sum := by
  induction items with
  | nil => rfl
  | cons it items ih =>
    have hdiv : 50 * (it.prodBasePrice * it.quantity / 50) + roundedOff it = it.prodBasePrice * it.quantity :=
      Int.mul_ediv_add_emod _ 50
    simp only [List.map_cons, List.sum_cons]
    omega

theorem roundedOff_sum_nonneg (items : List SnapshotItem) : 0 ≤ (items.map roundedOff).sum := by
  apply List.sum_nonneg
  intro q hq
  obtain ⟨it, -, rfl⟩ := List.mem_map.mp hq
  exact Int.emod_nonneg _ (by decide)

/-- Rounding each line agrees with rounding their sum just when less than a rupee is lost. -/
theorem taxes_agree_iff (items : List SnapshotItem) :
    (items.map fun it => it.prodBasePrice * it.quantity / 50).sum =
      (items.map fun it => it.prodBasePrice * it.quantity).sum / 50 ↔ (items.map roundedOff).sum < 50 := by
  have hsum := sum_taxes_add_roundedOff items
  have hnonneg := roundedOff_sum_nonneg items
  omega

section Lines
variable {lib : Lib} {items : List SnapshotItem} {m : PaymentMethod} {o : Orders} {lines : List OrderItem}

theorem lines_taxes (h : List.Forall₂ (LineOf lib o) items lines) :
    lines.map OrderItem.taxSnapshot = items.map fun it => lib.twoPercent (it.prodBasePrice * it.quantity) := by
  induction h with
  | nil => rfl
  | cons hline _ ih => rw [List.map_cons, List.map_cons, hline.tax, ih]

theorem Charged.subtotal_eq (h : Charged lib o items m) :
    o.subtotal = (items.map fun it => it.prodBasePrice * it.quantity).sum := by
  rw [h.subtotal, computeFinalTotal]
  exact (foldl_prices items 0).trans (zero_add _)

theorem Charged.tax_eq (h : Charged lib o items m) :
    o.tax = lib.twoPercent (items.map fun it => it.prodBasePrice * it.quantity).sum := by
  rw [← h.subtotal_eq, h.tax, h.subtotal]
  rfl

/-- The columns add up just when there is no fee. -/
theorem Charged.total_iff (h : Charged lib o items m) :
    o.total = o.subtotal + o.tax + o.shipping - o.discount ↔ m = .UPI := by
  have htotal : o.total = o.subtotal + o.tax + o.shipping + (computeFinalTotal lib items m).codFee - o.discount := by
    rw [h.total, h.subtotal, h.tax, h.shipping, h.discount]
    rfl
  have hfee : (computeFinalTotal lib items m).codFee = if m = .COD then 50 else 0 := rfl
  cases m with
  | UPI =>
    have hzero : (computeFinalTotal lib items .UPI).codFee = 0 := hfee
    exact ⟨fun _ => rfl, fun _ => by omega⟩
  | COD =>
    have hfifty : (computeFinalTotal lib items .COD).codFee = 50 := hfee
    exact ⟨fun _ => by omega, nofun⟩

theorem Charged.taxes_iff (hlib : ∀ a, 0 ≤ a → lib.twoPercent a = a / 50)
    (hitems : ∀ it ∈ items, 0 ≤ it.prodBasePrice ∧ 0 ≤ it.quantity) (h : Charged lib o items m)
    (hlines : List.Forall₂ (LineOf lib o) items lines) :
    (lines.map OrderItem.taxSnapshot).sum = o.tax ↔ (items.map roundedOff).sum < 50 := by
  have hnonneg : ∀ it ∈ items, 0 ≤ it.prodBasePrice * it.quantity := fun it hit =>
    Int.mul_nonneg (hitems it hit).1 (hitems it hit).2
  have hline : items.map (fun it => lib.twoPercent (it.prodBasePrice * it.quantity)) =
      items.map fun it => it.prodBasePrice * it.quantity / 50 :=
    List.map_congr_left fun it hit => hlib _ (hnonneg it hit)
  have hsum : 0 ≤ (items.map fun it => it.prodBasePrice * it.quantity).sum := by
    apply List.sum_nonneg
    intro a ha
    obtain ⟨it, hit, rfl⟩ := List.mem_map.mp ha
    exact hnonneg it hit
  rw [lines_taxes hlines, hline, h.tax_eq, hlib _ hsum]
  exact taxes_agree_iff items

theorem Charged.reconciles_iff (hlib : ∀ a, 0 ≤ a → lib.twoPercent a = a / 50)
    (hitems : ∀ it ∈ items, 0 ≤ it.prodBasePrice ∧ 0 ≤ it.quantity) (h : Charged lib o items m)
    (hlines : List.Forall₂ (LineOf lib o) items lines) :
    Reconciles o lines ↔ m = .UPI ∧ (items.map roundedOff).sum < 50 :=
  and_congr h.total_iff (h.taxes_iff hlib hitems hlines)

end Lines

/-! ## Among other programs -/

/-- Nothing is asked of the programs. -/
abbrev anarchy (n : ℕ) : Protocol shop shopHost n := evolution (RowOrder.any shop) (fun _ => True) fun _ => False

theorem safe_anarchy {α : Type} {G : Guard shop shopHost n} {i : Fin n} (p : Py α) {sh : Shared shop shopHost}
    {x : Unit} {l : Txn shop} : Safe (anarchy n) G i (fun _ _ _ _ => True) p sh x l := by
  induction p generalizing sh x l with
  | ret a => trivial
  | raise e => trivial
  | act a k ih =>
    intro w y hs c busy r w' l' _ _
    exact ⟨trivial, ⟨fun _ _ => trivial, nofun⟩, ih r⟩

theorem anarchy_indifferent : Indifferent (anarchy n) where
  inv _ _ := trivial
  next _ _ _ _ _ := rfl
  guar _ _ _ _ _ _ := ⟨.refl _ _, nofun⟩

/-- The rows of an order that `place_order_with_items` has built reconcile just when it is paid by
UPI and the lines lose less than a rupee to rounding. -/
theorem order_reconciles_iff (lib : Lib) (hlib : ∀ a, 0 ≤ a → lib.twoPercent a = a / 50)
    {ps : Fin n → Py (Except (Exn AppErr) OrderResponse)} {i : Fin n} {user ik : ℕ} {m : PaymentMethod}
    {items : List SnapshotItem} (hitems : ∀ it ∈ items, 0 ≤ it.prodBasePrice ∧ 0 ≤ it.quantity)
    (hi : ps i = (placeOrderWithItems lib user m (computeFinalTotal lib items m) ik).attempt)
    {w : World shop shopHost} (hw : w.Ok) {s : Sys shop shopHost n (Except (Exn AppErr) OrderResponse)}
    (hrun : Sys.Reach (.start w ps) s) {r : Except (Exn AppErr) OrderResponse} (hout : s.outcome i = some r)
    (hlive : (s.procs i).txn.aborted = false) :
    ∃ o, written Table.orders (s.procs i).txn.writes = [o] ∧
      List.Forall₂ (LineOf lib o) items (written Table.orderItem (s.procs i).txn.writes) ∧
      (Reconciles o (written Table.orderItem (s.procs i).txn.writes) ↔
        m = .UPI ∧ (items.map roundedOff).sum < 50) := by
  let built : Post (anarchy n) (Except (Exn AppErr) OrderResponse) := fun r sh _ l =>
    match r with
    | .ok r => l.aborted = false → Built lib user items m r sh.db l
    | .error _ => True
  have hprogs : ∀ j, Safe (anarchy n) (fun _ _ _ _ _ => True) j
      (Function.update (fun _ _ _ _ _ => True) i built j) (ps j) w.toShared () {} := by
    intro j
    by_cases hj : j = i
    · subst hj
      rw [Function.update_self, hi]
      apply Safe.attempt
      exact placeOrderWithItems_builds anarchy_indifferent lib user m items ik fun v hv => by cases hv
    · rw [Function.update_of_ne hj]
      exact safe_anarchy (ps j)
  have hinv := Sys.Run.inv (P := anarchy n) hrun (Sys.inv_start hw trivial hprogs)
  obtain ⟨sh, x, hsafe, -⟩ := hinv.safe i
  rw [Function.update_self, Sys.prog_of_outcome hout] at hsafe
  cases hsafe hlive with
  | charged hentered _ hcharged =>
    exact ⟨_, hentered.order, hentered.items ▸ hentered.forItems,
      hcharged.reconciles_iff hlib hitems (hentered.items ▸ hentered.forItems)⟩
  | unanswered hentered _ hcharged =>
    exact ⟨_, hentered.order, hentered.items ▸ hentered.forItems,
      hcharged.reconciles_iff hlib hitems (hentered.items ▸ hentered.forItems)⟩

def placing (m : PaymentMethod) (items : List SnapshotItem) :
    Sys shop shopHost 1 (Except (Exn AppErr) OrderResponse) :=
  .start oneCheckout fun _ => (placeOrderWithItems plainLib 9 m (computeFinalTotal plainLib items m) 7).attempt

/-- The steps of a call, for that many items. -/
def entering (m : PaymentMethod) (items : ℕ) : List (Label shopHost 1) :=
  [.proc 0 (.host .proceed), .proc 0 .go] ++ .replicate items (.proc 0 .go) ++
    if m = .UPI then [.proc 0 (.host .proceed), .proc 0 .go, .proc 0 .go] else []

theorem order_reconciles_iff_one_item : ∃ s o, Sys.Reach (placing .UPI oneItem) s ∧
    written Table.orders (s.procs 0).txn.writes = [o] ∧
    Reconciles o (written Table.orderItem (s.procs 0).txn.writes) := by
  have hexec : ((placing .UPI oneItem).exec (fun _ _ _ _ _ => True) (entering .UPI 1)).map (fun s =>
      ((s.outcome 0).isSome, (s.procs 0).txn.aborted)) = some (true, false) := by decide +kernel
  obtain ⟨s, hs, hst⟩ := Option.map_eq_some_iff.mp hexec
  obtain ⟨hended, hlive⟩ := Prod.mk.inj hst
  obtain ⟨⟨⟩, hrun⟩ := Sys.run_of_exec History.none () hs
  obtain ⟨r, hout⟩ := Option.isSome_iff_exists.mp hended
  have hitems : ∀ it ∈ oneItem, 0 ≤ it.prodBasePrice ∧ 0 ≤ it.quantity := by decide
  obtain ⟨o, horder, -, hiff⟩ := order_reconciles_iff plainLib (fun _ _ => rfl) hitems rfl oneCheckout_ok hrun
    hout hlive
  exact ⟨s, o, hrun, horder, hiff.mpr (by decide)⟩

/-- Two items of 25 rupees, whose taxes round to nothing. -/
def twoHalves : List SnapshotItem := [⟨1, 5, 1, 25, 8⟩, ⟨2, 6, 1, 25, 8⟩]

/-- Whether the rows that the ended call has built reconcile. -/
def reconciled (s : Sys shop shopHost 1 (Except (Exn AppErr) OrderResponse)) : Option (List Bool) :=
  if (s.outcome 0).isSome && !(s.procs 0).txn.aborted then
    some ((written Table.orders (s.procs 0).txn.writes).map fun o =>
      decide (Reconciles o (written Table.orderItem (s.procs 0).txn.writes)))
  else none

theorem exists_of_reconciled {s : Sys shop shopHost 1 (Except (Exn AppErr) OrderResponse)}
    (h : reconciled s = some [false]) : ∃ o, written Table.orders (s.procs 0).txn.writes = [o] ∧
      ¬Reconciles o (written Table.orderItem (s.procs 0).txn.writes) := by
  unfold reconciled at h
  split at h
  · obtain ⟨o, horder, hfalse⟩ := List.map_eq_singleton_iff.mp (Option.some.inj h)
    exact ⟨o, horder, of_decide_eq_false hfalse⟩
  · cases h

/-- By UPI the taxes of the two lines are short of the tax of the order, and a cash-on-delivery
order has a fee that no column shows. -/
theorem rows_unreconciled :
    (∃ s o, Sys.Reach (placing .UPI twoHalves) s ∧ written Table.orders (s.procs 0).txn.writes = [o] ∧
      ¬Reconciles o (written Table.orderItem (s.procs 0).txn.writes)) ∧
    ∃ s o, Sys.Reach (placing .COD oneItem) s ∧ written Table.orders (s.procs 0).txn.writes = [o] ∧
      ¬Reconciles o (written Table.orderItem (s.procs 0).txn.writes) := by
  have hupi : ((placing .UPI twoHalves).exec (fun _ _ _ _ _ => True) (entering .UPI 2)).map reconciled =
      some (some [false]) := by decide +kernel
  have hcod : ((placing .COD oneItem).exec (fun _ _ _ _ _ => True) (entering .COD 1)).map reconciled =
      some (some [false]) := by decide +kernel
  obtain ⟨s, hs, hst⟩ := Option.map_eq_some_iff.mp hupi
  obtain ⟨s', hs', hst'⟩ := Option.map_eq_some_iff.mp hcod
  obtain ⟨⟨⟩, hrun⟩ := Sys.run_of_exec History.none () hs
  obtain ⟨⟨⟩, hrun'⟩ := Sys.run_of_exec History.none () hs'
  obtain ⟨o, horder, hnot⟩ := exists_of_reconciled hst
  obtain ⟨o', horder', hnot'⟩ := exists_of_reconciled hst'
  exact ⟨⟨s, o, hrun, horder, hnot⟩, s', o', hrun', horder', hnot'⟩

end Phyllonix
