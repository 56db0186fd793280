import Phyllonix.ShopRules
import Phyllonix.OrderRoutes
import Mathlib.Algebra.Order.BigOperators.Group.List

/-!
# Reservations of order-summary requests

The availability check and the inserts are separate statements. What keeps them
together are the locks on the products that the cart snapshot takes first: only a
transaction that holds the lock of a product changes the reservations of it.
-/

namespace Phyllonix
open Relational
variable {n : ℕ}

/-! ## Reserved quantities -/

def activeQty (t p : ℕ) (r : InventoryReservation) : ℤ :=
  if r.productId = p then if r.activeAt t then r.quantity else 0 else 0

theorem reservedQty_eq_total (d : Db) (t p : ℕ) :
    reservedQty d t p = d.total .inventoryReservation (activeQty t p) := by
  have h := sum_map_ite (fun r : InventoryReservation => r.productId = p)
    (fun r : InventoryReservation => if r.activeAt t then r.quantity else 0) (d .inventoryReservation)
  simp only [decide_eq_true_eq] at h
  exact h.symm

theorem activeQty_anti {t t' : ℕ} (h : t ≤ t') (p : ℕ) {r : InventoryReservation}
    (hr : 0 ≤ r.quantity) : activeQty t' p r ≤ activeQty t p r := by
  have hactive : r.activeAt t' = true → r.activeAt t = true := by
    simp only [InventoryReservation.activeAt, Bool.and_eq_true, decide_eq_true_eq]
    rintro ⟨hs, hu⟩
    refine ⟨hs, ?_⟩
    cases hru : r.reservedUntil with
    | none =>
      rw [hru] at hu
      cases hu
    | some u =>
      rw [hru] at hu
      simp only [Option.any_some, decide_eq_true_eq] at hu ⊢
      omega
  simp only [activeQty]
  split
  · split
    · rename_i ha
      rw [if_pos (hactive ha)]
    · split <;> omega
  · exact le_rfl

/-- Reservations only expire as time advances. -/
theorem reservedQty_anti {d : Db}
    (hd : ∀ r : InventoryReservation, r ∈ d .inventoryReservation → 0 ≤ r.quantity) {t t' : ℕ}
    (h : t ≤ t') (p : ℕ) : reservedQty d t' p ≤ reservedQty d t p := by
  rw [reservedQty_eq_total, reservedQty_eq_total]
  apply List.sum_le_sum
  intro r hr
  exact activeQty_anti h p (hd r hr)

/-! ## The protocol -/

structure ReservationInv (products : List Product) (d : Db) (t : ℕ) : Prop where
  same : d .product = products
  within : ∀ q ∈ products, reservedQty d t q.id ≤ q.stockQty
  positive : ∀ r : InventoryReservation, r ∈ d .inventoryReservation → 0 ≤ r.quantity
  carts : ∀ ci : CartItem, ci ∈ d .cartItem → 0 < ci.quantity

/-- The reservations of the products that satisfy `p` are the same. -/
def SameReserved (d d' : Db) (p : ℕ → Prop) : Prop :=
  ∀ k, p k → ∀ t, reservedQty d' t k = reservedQty d t k

def reservationProtocol (products : List Product) (n : ℕ) : Protocol shop shopHost n where
  toHistory := History.none
  inv sh _ := ReservationInv products sh.db sh.host.clock
  rely _ l sh _ sh' _ := sh.host.clock ≤ sh'.host.clock ∧
    SameReserved sh.db sh'.db fun k => .row .product k ∈ l.locks
  guar _ l sh _ sh' := sh.host.clock ≤ sh'.host.clock ∧
    SameReserved sh.db sh'.db fun k => .row .product k ∉ l.locks
  next_same := History.none_same
  rely_refl _ _ _ _ := ⟨le_rfl, fun _ _ _ => rfl⟩
  rely_trans h h' := ⟨h.1.trans h'.1, fun k hk t => (h'.2 k hk t).trans (h.2 k hk t)⟩
  guar_same _ _ _ _ := ⟨le_rfl, fun _ _ _ => rfl⟩
  compat _ hlm _ _ _ hg := ⟨hg.1, fun k hk t => hg.2 k (fun hl => hlm _ hl hk) t⟩
  env_inv e _ _ h := ⟨h.same, fun q hq =>
    (reservedQty_anti h.positive (Nat.le_add_right _ e) q.id).trans (h.within q hq), h.positive, h.carts⟩
  env_rely e _ _ _ _ _ := ⟨Nat.le_add_right _ e, fun _ _ _ => rfl⟩

theorem reservation_quiet (products : List Product) : Quiet (reservationProtocol products n) where
  inv hs h := ⟨h.same, fun q hq => hs ▸ h.within q hq, h.positive, h.carts⟩
  next _ _ _ _ := rfl
  guar _ _ _ _ _ hs := ⟨hs.ge, fun _ _ _ => rfl⟩

/-- The writes reserve at most `added`, and only of locked products. -/
structure Reserved (added : ℕ → ℤ) (d : Db) (l : Txn shop) (ws : List (Write shop)) : Prop where
  wf : d.Wf
  only : ∀ w ∈ ws, w.tbl = Table.inventoryReservation
  change : ∀ t p, netChange ws d .inventoryReservation (activeQty t p) ≤ added p
  same : ∀ t p, Lock.row Table.product p ∉ l.locks →
    netChange ws d .inventoryReservation (activeQty t p) = 0
  positive : ∀ r : InventoryReservation, r ∈ applyWrites ws d .inventoryReservation → 0 ≤ r.quantity

section Commit
variable {products : List Product} {added : ℕ → ℤ} {d : Db} {l : Txn shop} {ws : List (Write shop)}

theorem reserved_nil (hd : d.Wf) {t : ℕ} (hinv : ReservationInv products d t) :
    Reserved (fun _ => 0) d l [] :=
  ⟨hd, by simp, by simp, by simp, hinv.positive⟩

/-- A commit of reservations that fit, with the checkout session on top or not. -/
theorem reservation_commit {t : ℕ} (hinv : ReservationInv products d t) (hres : Reserved added d l ws)
    (hfit : ∀ q ∈ products, reservedQty d t q.id + added q.id ≤ q.stockQty)
    (hws : ∀ tbl : Table, tbl ≠ .checkoutSession → l.view d tbl = applyWrites ws d tbl) :
    ReservationInv products (l.view d) t ∧
      SameReserved d (l.view d) fun k => .row .product k ∉ l.locks := by
  have hother : ∀ tbl : Table, tbl ≠ .checkoutSession → tbl ≠ .inventoryReservation →
      l.view d tbl = d tbl := fun tbl h1 h2 => by
    rw [hws tbl h1]
    exact applyWrites_of_untouched fun w hw he => h2 (he.symm.trans (hres.only w hw))
  have hsum : ∀ t p, reservedQty (l.view d) t p =
      reservedQty d t p + netChange ws d .inventoryReservation (activeQty t p) := fun t p => by
    simp only [reservedQty_eq_total, netChange, Store.total, hws .inventoryReservation (by decide)]
    omega
  refine ⟨⟨?_, fun q hq => ?_, fun r hr => ?_, fun ci hci => ?_⟩, fun k hk t => ?_⟩
  · rw [hother .product (by decide) (by decide), hinv.same]
  · have hc := hres.change t q.id
    have hf := hfit q hq
    rw [hsum]
    omega
  · rw [hws .inventoryReservation (by decide)] at hr
    exact hres.positive r hr
  · rw [hother .cartItem (by decide) (by decide)] at hci
    exact hinv.carts ci hci
  · rw [hsum, hres.same t k hk, add_zero]

end Commit
/-! ## The cart snapshot -/

theorem cart_unique {d : Db} (hd : d.Wf) {u : ℕ} {c c' : Cart} (hc : c ∈ d .cart) (hc' : c' ∈ d .cart)
    (hu : c.userId = some u) (hu' : c'.userId = some u) : c = c' := by
  have hkey : ∀ c : Cart, c.userId = some u → IndexKey.userId u ∈ rowKeys (t := .cart) c := fun c h => by
    simp [rowKeys, h]
  exact Store.Wf.eq_of_key hd (t := .cart) hc hc' (hkey c hu) (hkey c' hu')

theorem cartItem_unique {d : Db} (hd : d.Wf) {k : ℕ} {ci ci' : CartItem} (hci : ci ∈ d .cartItem)
    (hci' : ci' ∈ d .cartItem) (hk : ci.cartId = some k) (hk' : ci'.cartId = some k)
    (hp : ci.productId = ci'.productId) : ci = ci' := by
  have hkey : ∀ c : CartItem, c.cartId = some k →
      IndexKey.cartProduct k c.productId ∈ rowKeys (t := .cartItem) c := fun c h => by
    simp [rowKeys, h]
  exact Store.Wf.eq_of_key hd (t := .cartItem) hci hci' (hkey ci hk) (hp ▸ hkey ci' hk')

theorem mem_cartRows {d : Db} {u : ℕ} {row : CartItem × Product} (h : row ∈ cartRows d u) :
    row.1 ∈ d .cartItem ∧ row.2.id = row.1.productId := by
  simp only [cartRows, List.mem_flatMap, List.mem_filter, List.mem_map, decide_eq_true_eq] at h
  obtain ⟨c, -, ci, ⟨hci, -⟩, p, ⟨-, hp⟩, rfl⟩ := h
  exact ⟨hci, hp⟩

/-- A user has one cart, and a cart has one row for each product. -/
theorem cartRows_nodup {d : Db} (hd : d.Wf) (u : ℕ) :
    ((cartRows d u).map fun row => row.2.id).Nodup := by
  have hrows : ∀ t : Table, (d t).Nodup := fun t => (hd.ids t).of_map
  simp only [cartRows, List.map_flatMap, List.map_map]
  refine List.nodup_flatMap.mpr ⟨fun c hc => List.nodup_flatMap.mpr ⟨fun ci hci => ?_, ?_⟩, ?_⟩
  · exact (hd.ids .product).sublist (List.filter_sublist.map _)
  · refine ((hrows .cartItem).filter _).pairwise_of_forall_ne fun ci hci ci' hci' hne => ?_
    simp only [List.mem_filter, decide_eq_true_eq] at hci hci'
    intro k hk hk'
    simp only [List.mem_map, List.mem_filter, decide_eq_true_eq, Function.comp] at hk hk'
    obtain ⟨p, ⟨-, hp⟩, rfl⟩ := hk
    obtain ⟨p', ⟨-, hp'⟩, hpp⟩ := hk'
    have hprod : ci.productId = ci'.productId := by omega
    exact hne (cartItem_unique hd hci.1 hci'.1 hci.2 hci'.2 hprod)
  · refine ((hrows .cart).filter _).pairwise_of_forall_ne fun c hc c' hc' hne => ?_
    simp only [List.mem_filter, decide_eq_true_eq] at hc hc'
    exact absurd (cart_unique hd hc.1 hc'.1 hc.2 hc'.2) hne

section Requests
variable {products : List Product} {G : Guard shop shopHost n} {i : Fin n}
variable {sh : Shared shop shopHost} {x : Unit} {l : Txn shop}

/-- A snapshot item whose product is locked. -/
structure Priced (products : List Product) (l : Txn shop) (it : SnapshotItem) : Prop where
  positive : 0 < it.quantity
  locked : Lock.row Table.product it.productId ∈ l.locks
  stored : ∃ q ∈ products, q.id = it.productId ∧ q.stockQty = it.productStock

theorem Priced.grow {it : SnapshotItem} {l' : Txn shop} (h : Priced products l it)
    (hl : ∀ z ∈ l.locks, z ∈ l'.locks) : Priced products l' it :=
  ⟨h.positive, hl _ h.locked, h.stored⟩

theorem lockCartProducts_safe (rows : List (CartItem × Product))
    (hrows : ∀ row ∈ rows, 0 < row.1.quantity) (hl : l.writes = []) :
    Safe (reservationProtocol products n) G i (.ofOk fun items _ _ l' => l'.writes = [] ∧
        (∀ z ∈ l.locks, z ∈ l'.locks) ∧
        (items.map SnapshotItem.productId).Sublist (rows.map fun row => row.2.id) ∧
        ∀ it ∈ items, Priced products l' it)
      (lockCartProducts rows) sh x l := by
  induction rows generalizing sh x l with
  | nil => exact Safe.pure ⟨hl, fun _ h => h, .slnil, by simp⟩
  | cons row rows ih =>
    obtain ⟨ci, p⟩ := row
    have hpos : ∀ row ∈ rows, 0 < row.1.quantity := fun row h => hrows row (List.mem_cons_of_mem _ h)
    refine Safe.bind (safe_lockById (fun w y hs => ?_) fun _ _ _ _ _ _ _ => trivial)
    have hl₁ : ∀ xs, (l.acquire xs).writes = [] := fun _ => hl
    refine Safe.bind ((ih hpos (hl₁ _)).mono fun r sh' x' l' hr => ?_)
    cases r with
    | error e => trivial
    | ok rest =>
      obtain ⟨hw, hkeep, hsub, hpriced⟩ := hr
      cases hq : (l.view w.db).get .product p.id with
      | none =>
        simp only [hq] at hkeep ⊢
        exact Safe.pure ⟨hw, hkeep, hsub.cons _, hpriced⟩
      | some q =>
        have hid : q.id = p.id := Store.id_of_get hq
        simp only [hq] at hkeep ⊢
        refine Safe.pure ⟨hw, fun z hz => hkeep z (List.mem_cons_of_mem _ hz), ?_, ?_⟩
        · simpa [hid] using hsub.cons_cons p.id
        · intro it hit
          rcases List.mem_append.mp hit with hit | hit
          · simp only [Option.toList, List.map_cons, List.map_nil, List.mem_singleton] at hit
            subst hit
            have hstored : q ∈ products := by
              rw [Txn.view_of_no_writes hl] at hq
              have := Store.mem_of_get hq
              rwa [hs.inv.same] at this
            exact ⟨hrows _ List.mem_cons_self, hkeep _ List.mem_cons_self, q, hstored, rfl, rfl⟩
          · exact hpriced it hit

theorem captureCartSnapshot_safe (userId : ℕ) (hl : l.writes = []) :
    Safe (reservationProtocol products n) G i (.ofOk fun cart _ _ l' => l'.writes = [] ∧
        (cart.items.map SnapshotItem.productId).Nodup ∧ ∀ it ∈ cart.items, Priced products l' it)
      (captureCartSnapshot userId) sh x l := by
  refine Safe.bind (Safe.read (fun w y hs => ?_) fun _ _ _ _ _ _ _ => trivial)
  have hview : l.view w.db = w.db := Txn.view_of_no_writes hl _
  have hpos : ∀ row ∈ cartRows w.db userId, 0 < row.1.quantity := fun row hrow =>
    hs.inv.carts _ (mem_cartRows hrow).1
  have hnd := cartRows_nodup hs.world.wf userId
  simp only [hview]
  refine Safe.bind ((lockCartProducts_safe _ hpos hl).mono fun r sh' x' l' hr => ?_)
  cases r with
  | error e => trivial
  | ok items =>
    obtain ⟨hw, -, hsub, hpriced⟩ := hr
    cases items with
    | nil => exact Safe.raise trivial
    | cons it items => exact Safe.pure ⟨hw, hnd.sublist hsub, hpriced⟩

/-! ## The availability check -/

theorem dictSet_fresh {α : Type} {k : ℕ} (v : α) {d : List (ℕ × α)} (h : k ∉ d.map Prod.fst) :
    dictSet k v d = d ++ [(k, v)] := by
  induction d with
  | nil => rfl
  | cons a d ih =>
    simp only [List.map_cons, List.mem_cons, not_or] at h
    rw [dictSet, if_neg (Ne.symm h.1), ih h.2, List.cons_append]

theorem foldl_dictSet {α β : Type} (k : β → ℕ) (v : β → α) {items : List β} {d : List (ℕ × α)}
    (h : (d.map Prod.fst ++ items.map k).Nodup) :
    items.foldl (fun d it => dictSet (k it) (v it) d) d = d ++ items.map fun it => (k it, v it) := by
  induction items generalizing d with
  | nil => simp
  | cons it items ih =>
    have hk : k it ∉ d.map Prod.fst := fun hm =>
      (List.nodup_append.mp h).2.2 _ hm _ (by simp) rfl
    have hnext : ((d ++ [(k it, v it)]).map Prod.fst ++ items.map k).Nodup := by simpa using h
    rw [List.foldl_cons, dictSet_fresh _ hk, ih hnext]
    simp

/-- The item is available besides what is reserved. -/
def Fits (d : Db) (t : ℕ) (it : SnapshotItem) : Prop :=
  it.quantity + reservedQty d t it.productId ≤ it.productStock

/-- The items are locked and available. -/
def Available (products : List Product) (items : List SnapshotItem) (d : Db) (t : ℕ) (l : Txn shop) :
    Prop :=
  ∀ it ∈ items, Priced products l it ∧ Fits d t it

theorem Available.seen {items : List SnapshotItem}
    (h : Available products items sh.db sh.host.clock l) {w : World shop shopHost} {y : Unit}
    (hs : Seen (reservationProtocol products n) i l sh x w y) :
    Available products items w.db w.host.clock l := by
  intro it hit
  obtain ⟨hp, hf⟩ := h it hit
  refine ⟨hp, ?_⟩
  have hsame : reservedQty w.db sh.host.clock it.productId =
      reservedQty sh.db sh.host.clock it.productId := hs.rely.2 _ hp.locked _
  have hle := reservedQty_anti hs.inv.positive hs.rely.1 it.productId
  rw [Fits] at hf ⊢
  omega

theorem validateItemsAvblty_safe {items : List SnapshotItem} (hl : l.writes = [])
    (hnd : (items.map SnapshotItem.productId).Nodup) (hitems : ∀ it ∈ items, Priced products l it) :
    Safe (reservationProtocol products n) G i (.ofOk fun _ sh _ l' => l' = l ∧
        Available products items sh.db sh.host.clock l ∧ Reserved (fun _ => 0) sh.db l l.writes)
      (validateItemsAvblty items) sh x l := by
  have hdict := foldl_dictSet (d := []) SnapshotItem.productId
    (fun it : SnapshotItem => ProductData.mk it.productStock it.quantity) (by simpa using hnd)
  simp only [validateItemsAvblty]
  rw [hdict]
  refine Safe.bind (safe_now (reservation_quiet products) fun w y hs => ?_)
  refine Safe.bind (Safe.read (fun w₁ y₁ hs₁ => ?_) fun _ _ _ _ _ _ _ => trivial)
  have hview : l.view w₁.db = w₁.db := Txn.view_of_no_writes hl _
  simp only [hview]
  split
  · rename_i hok
    have hstart : Reserved (fun _ => 0) w₁.db l l.writes := hl ▸ reserved_nil hs₁.world.wf hs₁.inv
    refine Safe.pure ⟨rfl, fun it hit => ⟨hitems it hit, ?_⟩, hstart⟩
    have hfree := List.filterMap_eq_nil_iff.mp hok (it.productId, ⟨it.productStock, it.quantity⟩)
      (by simpa using ⟨it, hit, rfl, rfl, rfl⟩)
    have hpos := (hitems it hit).positive
    have hle := reservedQty_anti hs₁.inv.positive hs₁.rely.1 it.productId
    simp only [ite_eq_right_iff, reduceCtorEq, imp_false, not_lt] at hfree
    rw [Fits]
    change reservedQty w₁.db w₁.host.clock it.productId ≤
      reservedQty w₁.db w.host.clock it.productId at hle
    omega
  · exact Safe.raise trivial

/-! ## Reserving -/

def snapshotQty (items : List SnapshotItem) (p : ℕ) : ℤ :=
  (items.map fun it => if it.productId = p then it.quantity else 0).sum

theorem snapshotQty_of_mem {items : List SnapshotItem}
    (hnd : (items.map SnapshotItem.productId).Nodup) {it : SnapshotItem} (hit : it ∈ items) :
    snapshotQty items it.productId = it.quantity := by
  induction items with
  | nil => cases hit
  | cons u items ih =>
    simp only [List.map_cons, List.nodup_cons] at hnd
    simp only [snapshotQty, List.map_cons, List.sum_cons]
    rcases List.mem_cons.mp hit with rfl | hmem
    · have hzero : items.map (fun v => if v.productId = it.productId then v.quantity else 0) =
          items.map fun _ => 0 := by
        refine List.map_congr_left fun v hv => if_neg fun he => hnd.1 ?_
        exact he ▸ List.mem_map_of_mem hv
      rw [hzero]
      simp
    · have hne : ¬u.productId = it.productId := fun he => hnd.1 (he ▸ List.mem_map_of_mem hmem)
      rw [if_neg hne, zero_add]
      exact ih hnd.2 hmem

theorem snapshotQty_of_not_mem {items : List SnapshotItem} {p : ℕ}
    (h : ∀ it ∈ items, it.productId ≠ p) : snapshotQty items p = 0 := by
  have hzero : items.map (fun v => if v.productId = p then v.quantity else 0) =
      items.map fun _ => 0 := List.map_congr_left fun v hv => if_neg (h v hv)
  rw [snapshotQty, hzero]
  simp

theorem Reserved.seen {added : ℕ → ℤ} {ws : List (Write shop)} (h : Reserved added sh.db l ws)
    {w : World shop shopHost} {y : Unit} (hs : Seen (reservationProtocol products n) i l sh x w y)
    (hws : ∀ v ∈ ws, v ∈ l.writes) : Reserved added w.db l ws := by
  have hrow : ∀ v ∈ ws, w.db.get v.tbl (rowId v.row) = sh.db.get v.tbl (rowId v.row) := fun v hv =>
    hs.still.row _ _ (hs.ok.locked v (hws v hv))
  have hnet : ∀ t p, netChange ws w.db .inventoryReservation (activeQty t p) =
      netChange ws sh.db .inventoryReservation (activeQty t p) := fun t p =>
    netChange_congr h.wf.ids hs.world.wf.ids hrow _ _
  refine ⟨hs.world.wf, h.only, fun t p => hnet t p ▸ h.change t p, fun t p hp =>
    (hnet t p).trans (h.same t p hp), ?_⟩
  refine forall_applyWrites_congr (S := shop) (t := Table.inventoryReservation)
    (p := fun r : InventoryReservation => 0 ≤ r.quantity) hs.world.wf.ids (fun k hw => ?_)
    h.positive hs.inv.positive
  obtain ⟨v, hv, he⟩ := hw
  exact hs.still.row _ _ (hs.ok.written_locked ⟨v, hws v hv, he⟩)

theorem Reserved.grow {added : ℕ → ℤ} {d : Db} {ws : List (Write shop)} {l' : Txn shop}
    (h : Reserved added d l ws) (hl : ∀ z ∈ l.locks, z ∈ l'.locks) : Reserved added d l' ws :=
  ⟨h.wf, h.only, h.change, fun t p hp => h.same t p fun hm => hp (hl _ hm), h.positive⟩

theorem Reserved.mono {added added' : ℕ → ℤ} {d : Db} {ws : List (Write shop)}
    (h : Reserved added d l ws) (hle : ∀ p, added p ≤ added' p) : Reserved added' d l ws :=
  ⟨h.wf, h.only, fun t p => (h.change t p).trans (hle p), h.same, h.positive⟩

theorem Reserved.insert {added : ℕ → ℤ} {d : Db} (h : Reserved added d l l.writes)
    {r : InventoryReservation} (hfresh : (l.view d).get .inventoryReservation r.id = none)
    (hlock : Lock.row Table.product r.productId ∈ l.locks) (hpos : 0 ≤ r.quantity) {l' : Txn shop}
    (hw : l'.writes = ⟨.inventoryReservation, r⟩ :: l.writes) (hl : ∀ z ∈ l.locks, z ∈ l'.locks) :
    Reserved (fun p => added p + if r.productId = p then r.quantity else 0) d l' l'.writes := by
  have hnet : ∀ t p, netChange l'.writes d .inventoryReservation (activeQty t p) =
      netChange l.writes d .inventoryReservation (activeQty t p) + activeQty t p r := fun t p => by
    rw [hw, netChange_cons (S := shop) (t := Table.inventoryReservation) h.wf.ids r (activeQty t p)]
    change _ + _ - ((l.view d).get Table.inventoryReservation r.id).elim 0 (activeQty t p) = _
    rw [hfresh]
    simp only [Option.elim]
    omega
  refine ⟨h.wf, fun w hmem => ?_, fun t p => ?_, fun t p hp => ?_, fun u hu => ?_⟩
  · rw [hw] at hmem
    rcases List.mem_cons.mp hmem with rfl | hmem
    · rfl
    · exact h.only w hmem
  · have hc := h.change t p
    rw [hnet]
    simp only [activeQty]
    split
    · split <;> omega
    · omega
  · have hne : ¬r.productId = p := fun he => hp (hl _ (he ▸ hlock))
    rw [hnet, h.same t p fun hm => hp (hl _ hm), activeQty, if_neg hne, add_zero]
  · rw [hw, applyWrites, Store.put_self] at hu
    rcases mem_putRow.mp hu with ⟨hu, -⟩ | rfl
    · exact h.positive u hu
    · exact hpos

theorem reserveInventory_safe {all : List SnapshotItem} (csId reservedUntil : ℕ)
    (items : List SnapshotItem) {added : ℕ → ℤ} (hall : Available products all sh.db sh.host.clock l)
    (hitems : ∀ it ∈ items, it ∈ all) (hres : Reserved added sh.db l l.writes) :
    Safe (reservationProtocol products n) G i (.ofOk fun _ sh _ l' =>
        Available products all sh.db sh.host.clock l' ∧
        Reserved (fun p => added p + snapshotQty items p) sh.db l' l'.writes)
      (reserveInventory items csId reservedUntil) sh x l := by
  induction items generalizing sh x l added with
  | nil =>
    refine Safe.pure ⟨hall, ?_⟩
    simpa [snapshotQty] using hres
  | cons it rest ih =>
    have hrest : ∀ it ∈ rest, it ∈ all := fun v hv => hitems v (List.mem_cons_of_mem _ hv)
    have hit := hitems it List.mem_cons_self
    have hsum : ∀ p, added p + snapshotQty (it :: rest) p =
        added p + (if it.productId = p then it.quantity else 0) + snapshotQty rest p := fun p => by
      simp only [snapshotQty, List.map_cons, List.sum_cons]
      omega
    refine Safe.bind (Safe.insert (fun w y hs m hm hfree => ?_) (fun _ w y hs m hc => ?_)
      fun _ _ _ _ _ _ => trivial)
    · have hall₁ := hall.seen hs
      have hres₁ := hres.seen hs fun _ h => h
      have hpriced := (hall₁ it hit).1
      have hnone : (l.view w.db).get .inventoryReservation m = none :=
        Store.get_eq_none_iff.mpr fun r hr => (hm r hr).ne
      let r : InventoryReservation := ⟨m, it.productId, csId, it.quantity, some reservedUntil,
        InventoryReserveStatus.active.value⟩
      have hgrow : ∀ z ∈ l.locks, z ∈ (l.write Table.inventoryReservation [] r).locks :=
        fun z hz => List.mem_append_right _ hz
      have hnext := hres₁.insert (r := r) hnone hpriced.locked hpriced.positive.le rfl hgrow
      have hall₂ : Available products all w.db w.host.clock
          (l.write Table.inventoryReservation [] r) :=
        fun v hv => ⟨(hall₁ v hv).1.grow hgrow, (hall₁ v hv).2⟩
      refine (ih hall₂ hrest hnext).mono fun r sh x l hr => ?_
      cases r with
      | error e => trivial
      | ok _ =>
        refine ⟨hr.1, ?_⟩
        simpa only [hsum] using hr.2
    · have hall₁ := hall.seen hs
      have hpos := (hall₁ it hit).1.positive
      have hle : ∀ p, added p ≤ added p + if it.productId = p then it.quantity else 0 := fun p => by
        split <;> omega
      refine (ih hall₁ hrest ((hres.seen hs fun _ h => h).mono hle)).mono fun r sh x l hr => ?_
      cases r with
      | error e => trivial
      | ok _ =>
        refine ⟨hr.1, ?_⟩
        simpa only [hsum] using hr.2

/-- Available items fit together with what is reserved, product by product. -/
theorem Available.fits {items : List SnapshotItem} {d : Db} {t : ℕ}
    (h : Available products items d t l) (hnd : (items.map SnapshotItem.productId).Nodup)
    (hd : d.Wf) (hinv : ReservationInv products d t) :
    ∀ q ∈ products, reservedQty d t q.id + snapshotQty items q.id ≤ q.stockQty := by
  intro q hq
  by_cases hit : ∃ it ∈ items, it.productId = q.id
  · obtain ⟨it, hit, hp⟩ := hit
    obtain ⟨q', hq', hid, hstock⟩ := (h it hit).1.stored
    have hqq : q' = q := by
      rw [← hinv.same] at hq hq'
      exact Store.Wf.eq_of_id hd (t := .product) hq' hq (hid.trans hp)
    have hfit := (h it hit).2
    rw [← hp, snapshotQty_of_mem hnd hit]
    rw [hqq] at hstock
    rw [Fits] at hfit
    omega
  · have hnone : ∀ it ∈ items, it.productId ≠ q.id := fun it h he => hit ⟨it, h, he⟩
    rw [snapshotQty_of_not_mem hnone, add_zero]
    exact hinv.within q hq

theorem view_of_updated {g : CheckoutSession → CheckoutSession} {o : Option CheckoutSession}
    {l' : Txn shop} (hu : Updated (S := shop) (t := .checkoutSession) g o.toList l l') (d : Db)
    {tbl : Table} (h : tbl ≠ .checkoutSession) : l'.view d tbl = applyWrites l.writes d tbl := by
  rw [Txn.view, hu.writes]
  cases o with
  | none => rfl
  | some c => exact Store.put_of_ne (S := shop) _ _ h

/-- The update of the checkout session and the commit of the reservations. -/
theorem commitSnapshot_safe {items : List SnapshotItem} (csId : ℕ) (paymentMethod : PaymentMethod)
    (reply : Reply) (hall : Available products items sh.db sh.host.clock l)
    (hnd : (items.map SnapshotItem.productId).Nodup)
    (hres : Reserved (snapshotQty items) sh.db l l.writes) :
    Safe (reservationProtocol products n) G i (.ofOk fun _ _ _ _ => True)
      (do updateCheckoutCartNPaymethod csId paymentMethod items; commit; pure reply) sh x l := by
  refine Safe.bind (Safe.bind (safe_updateOne (fun w y hs l' hu => ?_) fun _ _ _ _ _ _ _ => trivial))
  refine Safe.pure (Safe.bind (Safe.commit (fun w₁ y₁ hs₁ _ => ?_) fun _ _ _ _ _ _ _ => trivial))
  have hmem : ∀ v ∈ l.writes, v ∈ l'.writes := fun v hv =>
    hu.writes ▸ List.mem_append_right _ hv
  have hall₁ : Available products items w.db w.host.clock l' := fun it hit =>
    ⟨((hall.seen hs) it hit).1.grow hu.keeps, ((hall.seen hs) it hit).2⟩
  have hres₁ := ((hres.seen hs fun _ h => h).grow hu.keeps).seen hs₁ hmem
  have hfit := (hall₁.seen hs₁).fits hnd hs₁.world.wf hs₁.inv
  obtain ⟨h1, h2⟩ := reservation_commit hs₁.inv hres₁ hfit fun tbl h => view_of_updated hu w₁.db h
  exact ⟨h1, ⟨le_rfl, h2⟩, Safe.pure trivial⟩

theorem updateCheckoutActiveness_safe (csId : ℕ) (active : Bool) (hl : l.writes = []) :
    Safe (reservationProtocol products n) G i (.ofOk fun _ _ _ _ => True)
      (updateCheckoutActiveness csId active) sh x l := by
  refine Safe.bind (safe_updateOne (fun w y hs l' hu => ?_) fun _ _ _ _ _ _ _ => trivial)
  refine Safe.commit (fun w₁ y₁ hs₁ _ => ?_) fun _ _ _ _ _ _ _ => trivial
  have hws : ∀ tbl : Table, tbl ≠ .checkoutSession → l'.view w₁.db tbl = applyWrites [] w₁.db tbl :=
    fun tbl h => (view_of_updated hu w₁.db h).trans (by rw [hl])
  have hfit : ∀ q ∈ products, reservedQty w₁.db w₁.host.clock q.id + 0 ≤ q.stockQty := fun q hq => by
    rw [add_zero]
    exact hs₁.inv.within q hq
  obtain ⟨h1, h2⟩ := reservation_commit hs₁.inv (reserved_nil hs₁.world.wf hs₁.inv) hfit hws
  exact ⟨h1, ⟨le_rfl, h2⟩, trivial⟩

theorem getCheckoutDetails_safe (checkoutId userId : ℕ) (hl : l.writes = []) :
    Safe (reservationProtocol products n) G i (.ofOk fun _ _ _ l' => l'.writes = [])
      (getCheckoutDetails checkoutId userId) sh x l := by
  refine Safe.bind (Safe.read (fun w y hs => ?_) fun _ _ _ _ _ _ _ => trivial)
  refine Safe.bind (safe_oneOrNone (fun _ => Safe.raise trivial) (fun cs _ => ?_) trivial)
  refine Safe.bind (safe_now (reservation_quiet products) fun w₁ y₁ hs₁ => ?_)
  simp only
  split
  · refine Safe.bind ((updateCheckoutActiveness_safe _ _ hl).mono fun r sh x l hr => ?_)
    cases r with
    | error e => trivial
    | ok _ => exact Safe.raise trivial
  · exact Safe.pure hl

theorem getOrderSummary_safe (lib : Lib) (req : SummaryRequest) :
    Safe (reservationProtocol products n) G i (.ofOk fun _ _ _ _ => True) (getOrderSummary lib req)
      sh x {} := by
  rw [getOrderSummary]
  split
  · exact Safe.raise trivial
  rename_i paymentMethod _
  refine Safe.bind ((getCheckoutDetails_safe _ _ rfl).mono fun r sh x l hr => ?_)
  cases r with
  | error e => trivial
  | ok cs =>
    simp only
    split
    · exact Safe.pure trivial
    refine Safe.bind ((captureCartSnapshot_safe _ hr).mono fun r sh x l hr => ?_)
    cases r with
    | error e => trivial
    | ok cart =>
      obtain ⟨hl, hnd, hpriced⟩ := hr
      refine Safe.bind ((validateItemsAvblty_safe hl hnd hpriced).mono fun r sh x l' hr => ?_)
      cases r with
      | error e => trivial
      | ok _ =>
        obtain ⟨rfl, hall, hres⟩ := hr
        refine Safe.bind ((reserveInventory_safe _ _ _ hall (fun _ h => h) hres).mono
          fun r sh x l hr => ?_)
        cases r with
        | error e => trivial
        | ok _ =>
          obtain ⟨hall, hres⟩ := hr
          exact commitSnapshot_safe _ _ _ hall hnd (hres.mono fun p => by simp)

end Requests

/-! ## Runs -/

def summaryRequests (lib : Lib) (reqs : Fin n → SummaryRequest) (w : World shop shopHost) :
    Sys shop shopHost n (Except (Exn AppErr) Reply) :=
  .start w fun i => (getOrderSummary lib (reqs i)).session

/-- No over-reservation. -/
theorem no_overreservation (lib : Lib) {reqs : Fin n → SummaryRequest} {w : World shop shopHost}
    (hw : w.Ok)
    (hwithin : ∀ q : Product, q ∈ w.db .product → reservedQty w.db w.host.clock q.id ≤ q.stockQty)
    (hcarts : ∀ ci : CartItem, ci ∈ w.db .cartItem → 0 < ci.quantity)
    (hpositive : ∀ r : InventoryReservation, r ∈ w.db .inventoryReservation → 0 ≤ r.quantity)
    {s : Sys shop shopHost n (Except (Exn AppErr) Reply)}
    (hrun : Sys.Reach (summaryRequests lib reqs w) s) :
    ∀ q : Product, q ∈ s.world.db .product →
      reservedQty s.world.db s.world.host.clock q.id ≤ q.stockQty := by
  have hinv : ReservationInv (w.db .product) w.db w.host.clock := ⟨rfl, hwithin, hpositive, hcarts⟩
  have hs := Sys.Run.inv (P := reservationProtocol (w.db .product) n) hrun
    (Sys.inv_start (Q := fun _ _ _ _ _ => True) hw hinv fun i => Safe.session
      ((getOrderSummary_safe lib (reqs i)).mono fun _ _ _ _ _ _ _ _ => trivial))
  intro q hq
  rw [hs.inv.same] at hq
  exact hs.inv.within q hq

/-- Two users with three pieces each in their carts, and five pieces in stock. -/
def twoShoppers : World shop shopHost where
  db
    | .product => [⟨1, 5, 100⟩]
    | .cart => [⟨1, some 1, none⟩, ⟨2, some 2, none⟩]
    | .cartItem => [⟨1, some 1, 1, 3⟩, ⟨2, some 2, 1, 3⟩]
    | .checkoutSession => [⟨1, 11, 1, none, none, true, 100⟩, ⟨2, 12, 2, none, none, true, 100⟩]
    | _ => []
  host := ⟨0, 0, [], []⟩
  seq _ := 3

theorem twoShoppers_ok : twoShoppers.Ok :=
  ⟨Store.wf_of_pairwise fun t => by cases t <;> decide, fun t => by cases t <;> decide⟩

def twoSummaries : Fin 2 → SummaryRequest := fun i => ⟨i + 1, i + 11, .str "UPI"⟩

/-- The second request reads its cart first, and waits for the product. -/
def twoSummariesRun : List (Label shopHost 2) :=
  [.proc 0 .go, .proc 0 (.host .proceed), .proc 1 .go, .env 10, .proc 1 (.host .proceed),
    .proc 0 .go, .proc 1 .go, .proc 0 .go, .proc 0 (.host .proceed), .proc 0 .go, .proc 0 .go,
    .proc 0 .go, .proc 0 .go, .proc 1 .go, .proc 1 (.host .proceed), .proc 1 .go, .proc 1 .go]

theorem no_overreservation_two_shoppers : ∃ s,
    Sys.Reach (summaryRequests plainLib twoSummaries twoShoppers) s ∧
      reservedQty s.world.db s.world.host.clock 1 = 3 ∧
      ∀ q : Product, q ∈ s.world.db .product →
        reservedQty s.world.db s.world.host.clock q.id ≤ q.stockQty := by
  have hexec : ((summaryRequests plainLib twoSummaries twoShoppers).exec (fun _ _ _ _ _ => True)
      twoSummariesRun).map (fun s => reservedQty s.world.db s.world.host.clock 1) = some 3 := by
    decide +kernel
  obtain ⟨s, hs, hqty⟩ := Option.map_eq_some_iff.mp hexec
  obtain ⟨⟨⟩, hrun⟩ := Sys.run_of_exec History.none () hs
  exact ⟨s, hrun, hqty, no_overreservation plainLib twoShoppers_ok (by decide) (by decide) (by decide)
    hrun⟩

end Phyllonix
