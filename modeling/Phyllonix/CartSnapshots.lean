import Phyllonix.CartActions
import Phyllonix.CheckoutReservations

/-!
# Snapshots and their reservations

An order-summary request looks for a snapshot before it locks the products. A
request that overlaps another one keeps the reservations of the first, and puts
its own snapshot over the other. The two agree as long as the later snapshot
lists what the earlier one listed.
-/

namespace Phyllonix
open Relational
variable {n : ℕ}

/-! ## What the requests do to reservations and checkout sessions -/

/-- Reservations stay as they are, and no row disappears. -/
def reservationOrder : RowOrder shop where
  rel t r r' := (r.isSome → r'.isSome) ∧ (t = .inventoryReservation → r.isSome → r' = r)
  refl _ _ := ⟨id, fun _ _ => rfl⟩
  trans := by
    intro t r r' r'' h h'
    constructor
    · intro hr
      exact h'.1 (h.1 hr)
    · intro ht hr
      rw [h'.2 ht (h.1 hr), h.2 ht hr]

abbrev KeepsReservations : ShopAction → Prop := Action.Keeps reservationOrder

def Reserves (it : SnapshotItem) (r : InventoryReservation) : Prop :=
  r.productId = it.productId ∧ r.quantity = it.quantity

/-- A reservation of the snapshot `items` for the checkout session `csId`. -/
def ReservationFor (csId : ℕ) (items : List SnapshotItem) : Write shop → Prop
  | ⟨.inventoryReservation, r⟩ => r.checkoutId = csId ∧ ∃ it ∈ items, Reserves it r
  | _ => False

abbrev InReserving (W : Write shop → Prop) : ShopAction → Prop := fun a =>
  (a.Keeps reservationOrder ∧ a.Within) ∧ a.Confined W

theorem update_keeps {t : Table} (ht : t ≠ .inventoryReservation) (p : t.Row → Bool)
    (f : t.Row → t.Row) (hf : ∀ r, rowId (f r) = rowId r) :
    KeepsReservations (.update t p f hf : ShopAction) :=
  fun _ => ⟨fun _ => rfl, fun h => absurd h ht⟩

theorem insert_keeps (t : Table) (mk : ℕ → t.Row) (hmk : ∀ m, rowId (mk m) = m) (skip : Bool) :
    KeepsReservations (.insert t mk hmk skip : ShopAction) :=
  fun _ => ⟨fun h => (Bool.noConfusion h), fun _ h => (Bool.noConfusion h)⟩

theorem lockCartProducts_acts {W : Write shop → Prop} (rows : List (CartItem × Product)) :
    (lockCartProducts rows).Acts (InReserving W) := by
  induction rows with
  | nil => trivial
  | cons row rows ih =>
    apply Prog.Acts.bind (.call ⟨⟨trivial, trivial⟩, trivial⟩)
    intro ps
    apply ih.bind
    intro rest
    trivial

theorem captureCartSnapshot_acts {W : Write shop → Prop} (userId : ℕ) :
    (captureCartSnapshot userId).Acts (InReserving W) := by
  apply Prog.Acts.bind (.call ⟨⟨trivial, trivial⟩, trivial⟩)
  intro rows
  apply (lockCartProducts_acts rows).bind
  intro items
  cases items <;> trivial

theorem validateItemsAvblty_acts {W : Write shop → Prop} (items : List SnapshotItem) :
    (validateItemsAvblty items).Acts (InReserving W) := by
  apply Prog.Acts.bind (.call ⟨⟨trivial, trivial⟩, trivial⟩)
  intro t
  apply Prog.Acts.bind (.call ⟨⟨trivial, trivial⟩, trivial⟩)
  intro reserved
  simp only
  split <;> trivial

theorem reserveInventory_acts {all : List SnapshotItem} (items : List SnapshotItem)
    (hitems : ∀ it ∈ items, it ∈ all) (csId reservedUntil : ℕ) :
    (reserveInventory items csId reservedUntil).Acts (InReserving (ReservationFor csId all)) := by
  induction items with
  | nil => trivial
  | cons it items ih =>
    have hit := hitems it List.mem_cons_self
    have hrest : ∀ it' ∈ items, it' ∈ all := fun it' h => hitems it' (List.mem_cons_of_mem _ h)
    apply Prog.Acts.bind (.call ⟨⟨insert_keeps _ _ _ _, trivial⟩, fun _ => ⟨rfl, it, hit, rfl, rfl⟩⟩)
    intro r
    exact ih hrest

theorem updateCheckoutActiveness_acts (csId : ℕ) (active : Bool) :
    (updateCheckoutActiveness csId active).Acts KeepsReservations := by
  apply Prog.Acts.bind (.call (update_keeps (by decide) _ _ _))
  intro rows
  exact .call trivial

theorem getCheckoutDetails_acts (checkoutId userId : ℕ) :
    (getCheckoutDetails checkoutId userId).Acts KeepsReservations := by
  apply Prog.Acts.bind (.call trivial)
  intro rows
  apply (oneOrNone_acts rows).bind
  intro o
  cases o with
  | none => trivial
  | some cs =>
    apply Prog.Acts.bind (.call trivial)
    intro t
    split
    · exact (updateCheckoutActiveness_acts _ _).bind fun _ => .raise _
    · trivial

theorem getOrderSummary_acts (lib : Lib) (req : SummaryRequest) :
    (getOrderSummary lib req).Acts KeepsReservations := by
  rw [getOrderSummary]
  split
  · trivial
  apply (getCheckoutDetails_acts _ _).bind
  intro cs
  split
  · trivial
  have hkeeps : ∀ {α : Type} {W : Write shop → Prop} {p : Py α}, p.Acts (InReserving W) →
      p.Acts KeepsReservations := fun h => h.mono fun _ ha => ha.1.1
  apply (hkeeps (captureCartSnapshot_acts (W := fun _ => True) _)).bind
  intro cart
  apply (hkeeps (validateItemsAvblty_acts (W := fun _ => True) _)).bind
  intro _
  apply (hkeeps (reserveInventory_acts _ (fun _ h => h) _ _)).bind
  intro _
  apply Prog.Acts.bind (Prog.Acts.bind (.call (update_keeps (by decide) _ _ _)) fun _ => .pure _)
  intro _
  exact (Prog.Acts.call trivial).bind fun _ => .pure _

/-- Add-to-cart writes carts and their items. -/
def OfCart (v : Write shop) : Prop := v.tbl = .cart ∨ v.tbl = .cartItem

abbrev InCart : ShopAction → Prop := fun a => a.Keeps reservationOrder ∧ a.Confined OfCart

theorem inCart_acts : CartActs InCart where
  read _ := ⟨trivial, trivial⟩
  lock _ := ⟨trivial, trivial⟩
  update _ _ _ := ⟨update_keeps (by decide) _ _ _, fun _ _ => .inr rfl⟩
  create _ _ := ⟨insert_keeps _ _ _ _, fun _ => .inl rfl⟩
  add _ _ := ⟨insert_keeps _ _ _ _, fun _ => .inr rfl⟩
  commit := ⟨trivial, trivial⟩
  rollback := ⟨trivial, trivial⟩

/-! ## Agreement -/

instance (it : SnapshotItem) (r : InventoryReservation) : Decidable (Reserves it r) :=
  inferInstanceAs (Decidable (_ ∧ _))

/-- The reservations of a checkout session are the items of its snapshot. -/
structure Agrees (d : Db) (c : CheckoutSession) : Prop where
  reserved : ∀ it ∈ c.cartSnapshot.getD [], ∃ r : InventoryReservation,
    r ∈ d .inventoryReservation ∧ r.checkoutId = c.id ∧ Reserves it r
  listed : ∀ r : InventoryReservation, r ∈ d .inventoryReservation → r.checkoutId = c.id →
    ∃ it ∈ c.cartSnapshot.getD [], Reserves it r

instance (d : Db) (c : CheckoutSession) : Decidable (Agrees d c) :=
  decidable_of_iff
    ((∀ it ∈ c.cartSnapshot.getD [], ∃ r : InventoryReservation, r ∈ d .inventoryReservation ∧
      r.checkoutId = c.id ∧ Reserves it r) ∧
    ∀ r : InventoryReservation, r ∈ d .inventoryReservation → r.checkoutId = c.id →
      ∃ it ∈ c.cartSnapshot.getD [], Reserves it r)
    ⟨fun h => ⟨h.1, h.2⟩, fun h => ⟨h.1, h.2⟩⟩

def SnapshotInv (d : Db) : Prop := ∀ c : CheckoutSession, c ∈ d .checkoutSession → Agrees d c

instance (d : Db) : Decidable (SnapshotInv d) :=
  inferInstanceAs (Decidable (∀ c ∈ d .checkoutSession, Agrees d c))

/-- The item is listed with the same quantity. -/
def Lists (items : List SnapshotItem) (it : SnapshotItem) : Prop :=
  ∃ it' ∈ items, it'.productId = it.productId ∧ it'.quantity = it.quantity

instance (items : List SnapshotItem) (it : SnapshotItem) : Decidable (Lists items it) :=
  inferInstanceAs (Decidable (∃ it' ∈ items, _ ∧ _))

/-- A pending version of a checkout session lists what the committed one lists. -/
def KeepsSnapshot (d : Db) (c : CheckoutSession) : Prop :=
  ∀ it ∈ ((d.get .checkoutSession c.id).bind fun c₀ : CheckoutSession => c₀.cartSnapshot).getD [],
    Lists (c.cartSnapshot.getD []) it

instance (d : Db) (c : CheckoutSession) : Decidable (KeepsSnapshot d c) :=
  inferInstanceAs (Decidable (∀ it ∈ _, Lists _ it))

/-- No commit puts a snapshot over another one that lists something else. -/
def keepsSnapshots : Guard shop shopHost n := fun _ sh l a _ =>
  match a with
  | .commit => ∀ c ∈ written (S := shop) .checkoutSession l.writes, KeepsSnapshot sh.db c
  | _ => True

instance (i : Fin n) (sh : Shared shop shopHost) (l : Txn shop) (a : ShopAction) (c : Choice shopHost) :
    Decidable (keepsSnapshots i sh l a c) :=
  match a with
  | .commit => inferInstanceAs (Decidable (∀ c ∈ _, KeepsSnapshot sh.db c))
  | .read _ | .lock .. | .lockSkip .. | .update .. | .insert .. | .tryLock _ | .rollback | .host _ => .isTrue trivial

theorem snapshotInv_untouched {d : Db} {ws : List (Write shop)} (hws : ∀ v ∈ ws, OfCart v)
    (h : SnapshotInv d) : SnapshotInv (applyWrites ws d) := by
  have hsame : ∀ t : Table, t ≠ .cart → t ≠ .cartItem → applyWrites ws d t = d t := by
    intro t hc hi
    apply applyWrites_of_untouched
    intro v hv
    rcases hws v hv with hv | hv <;> rw [hv]
    · exact hc.symm
    · exact hi.symm
  have hres := hsame .inventoryReservation (by decide) (by decide)
  have hcs := hsame .checkoutSession (by decide) (by decide)
  intro c hc
  rw [hcs] at hc
  exact ⟨hres ▸ (h c hc).reserved, hres ▸ (h c hc).listed⟩

theorem snapshotInv_put {d : Db} (h : SnapshotInv d) {c c₀ : CheckoutSession}
    (hget : d.get .checkoutSession c.id = some c₀) (hsnap : c.cartSnapshot = c₀.cartSnapshot) :
    SnapshotInv (d.put .checkoutSession c) := by
  have hid : c₀.id = c.id := Store.id_of_get hget
  have hres : d.put .checkoutSession c .inventoryReservation = d .inventoryReservation :=
    Store.put_of_ne (S := shop) _ _ (by decide)
  intro c' hc'
  rw [Store.put_self] at hc'
  rcases mem_putRow.mp hc' with ⟨hc', -⟩ | rfl
  · exact ⟨hres ▸ (h c' hc').reserved, hres ▸ (h c' hc').listed⟩
  · obtain ⟨hreserved, hlisted⟩ := h c₀ (Store.mem_of_get hget)
    rw [← hsnap, hid, ← hres] at hreserved
    rw [← hsnap, hid, ← hres] at hlisted
    exact ⟨hreserved, hlisted⟩

/-! ## One request -/

def Held (d : Db) (csId : ℕ) (it : SnapshotItem) : Prop :=
  ∃ r : InventoryReservation, d.get .inventoryReservation r.id = some r ∧ r.checkoutId = csId ∧
    r.productId = it.productId

theorem reservation_stays {d d' : Db} (hev : Evolves reservationOrder d d')
    {r : InventoryReservation} (hr : d.get .inventoryReservation r.id = some r) :
    d'.get .inventoryReservation r.id = some r :=
  ((hev .inventoryReservation r.id).2 rfl (by rw [hr]; rfl)).trans hr

theorem Held.evolves {d d' : Db} {csId : ℕ} {it : SnapshotItem} (h : Held d csId it)
    (hev : Evolves reservationOrder d d') : Held d' csId it := by
  obtain ⟨r, hr, hcs, hp⟩ := h
  exact ⟨r, reservation_stays hev hr, hcs, hp⟩

/-- A transaction that has reserved the snapshot `items`. -/
structure Reserving (csId : ℕ) (items : List SnapshotItem) (d : Db) (l : Txn shop) : Prop where
  present : (d.get .checkoutSession csId).isSome
  own : ∀ v ∈ l.writes, ReservationFor csId items v
  held : ∀ it ∈ items, Held (l.view d) csId it

section Commit
variable {d : Db} {ws : List (Write shop)} {csId : ℕ} {items : List SnapshotItem}

/-- What is reserved after the commit was reserved before it, or is of the snapshot. -/
theorem reservation_cases (hws : ∀ v ∈ ws, ReservationFor csId items v) {r : InventoryReservation}
    (hr : r ∈ applyWrites ws d .inventoryReservation) :
    r ∈ d .inventoryReservation ∨ (r.checkoutId = csId ∧ ∃ it ∈ items, Reserves it r) := by
  rcases mem_applyWrites (S := shop) hr with hr | hr
  · exact .inl hr
  · exact .inr (hws _ hr)

theorem snapshot_commit (hd : d.Wf) (hinv : SnapshotInv d) {c : CheckoutSession}
    (hkeep : KeepsSnapshot d c) (hsnap : c.cartSnapshot = some items)
    (hnd : (items.map SnapshotItem.productId).Nodup)
    (hws : ∀ v ∈ ws, ReservationFor c.id items v)
    (hev : Evolves reservationOrder d ((applyWrites ws d).put .checkoutSession c))
    (hheld : ∀ it ∈ items, Held ((applyWrites ws d).put .checkoutSession c) c.id it)
    (hexists : (d.get .checkoutSession c.id).isSome) :
    SnapshotInv ((applyWrites ws d).put .checkoutSession c) := by
  have hres : (applyWrites ws d).put .checkoutSession c .inventoryReservation =
      applyWrites ws d .inventoryReservation := Store.put_of_ne (S := shop) _ _ (by decide)
  have hcs : applyWrites ws d .checkoutSession = d .checkoutSession := by
    apply applyWrites_of_untouched
    rintro ⟨t, r⟩ hv rfl
    exact hws _ hv
  obtain ⟨c₀, hget⟩ := Option.isSome_iff_exists.mp hexists
  have hid : c₀.id = c.id := Store.id_of_get hget
  have hold := hinv c₀ (Store.mem_of_get hget)
  -- the reservations of this checkout session are items of the new snapshot
  have hlisted : ∀ r : InventoryReservation, r ∈ applyWrites ws d .inventoryReservation →
      r.checkoutId = c.id → ∃ it ∈ items, Reserves it r := by
    intro r hr hrc
    rcases reservation_cases hws hr with hr | ⟨-, hit⟩
    · obtain ⟨it₀, hit₀, hp₀, hq₀⟩ := hold.listed r hr (hrc.trans hid.symm)
      obtain ⟨it, hit, hp, hq⟩ := hkeep it₀ (by rw [hget]; exact hit₀)
      rw [hsnap] at hit
      exact ⟨it, hit, hp₀.trans hp.symm, hq₀.trans hq.symm⟩
    · exact hit
  intro c' hc'
  rw [Store.put_self, hcs] at hc'
  rcases mem_putRow.mp hc' with ⟨hc', hne⟩ | rfl
  · have hother := hinv c' hc'
    constructor
    · intro it hit
      obtain ⟨r, hr, hrc, hrit⟩ := hother.reserved it hit
      have hget := reservation_stays hev (Store.get_of_mem (S := shop) hd.ids hr)
      exact ⟨r, Store.mem_of_get hget, hrc, hrit⟩
    · intro r hr hrc
      rw [hres] at hr
      rcases reservation_cases hws hr with hr | ⟨hrc', -⟩
      · exact hother.listed r hr hrc
      · exact absurd (hrc.symm.trans hrc') hne
  · have hgetD : c'.cartSnapshot.getD [] = items := by rw [hsnap, Option.getD_some]
    constructor
    · intro it hit
      rw [hgetD] at hit
      obtain ⟨r, hget, hrc, hrp⟩ := hheld it hit
      have hr := Store.mem_of_get (S := shop) hget
      rw [hres] at hr
      obtain ⟨it', hit', hp, hq⟩ := hlisted r hr hrc
      have hsame : it' = it := List.inj_on_of_nodup_map hnd hit' hit (hp.symm.trans hrp)
      rw [hres]
      exact ⟨r, hr, hrc, hrp, hsame ▸ hq⟩
    · intro r hr hrc
      rw [hres] at hr
      rw [hgetD]
      exact hlisted r hr hrc

end Commit

section Requests
variable {G : Guard shop shopHost n} {i : Fin n}

section Capture
variable {P : Protocol shop shopHost n} {sh : Shared shop shopHost} {x : P.Val} {l : Txn shop}

theorem lockCartProducts_lists (rows : List (CartItem × Product)) :
    Safe P G i (.ofOk fun items _ _ _ =>
        (items.map SnapshotItem.productId).Sublist (rows.map fun row => row.2.id))
      (lockCartProducts rows) sh x l := by
  induction rows generalizing sh x l with
  | nil => exact Safe.pure .slnil
  | cons row rows ih =>
    obtain ⟨ci, p⟩ := row
    apply Safe.bind
    refine safe_lockById (fun w y hs => ?_) fun _ _ _ _ _ _ _ => trivial
    refine Safe.bind (ih.mono fun r sh' x' l' hr => ?_)
    cases r with
    | error e => trivial
    | ok rest =>
      have hsub : (rest.map SnapshotItem.productId).Sublist (rows.map fun row => row.2.id) := hr
      cases hq : (l.view w.db).get .product p.id with
      | none => exact Safe.pure (hsub.cons _)
      | some q =>
        have hid : q.id = p.id := Store.id_of_get hq
        apply Safe.pure
        simpa [Post.ofOk, hid] using hsub.cons_cons p.id

theorem captureCartSnapshot_nodup (userId : ℕ) :
    Safe P G i (.ofOk fun cart _ _ _ => (cart.items.map SnapshotItem.productId).Nodup)
      (captureCartSnapshot userId) sh x l := by
  refine Safe.bind (Safe.read (fun w y hs => ?_) fun _ _ _ _ _ _ _ => trivial)
  have hnd := cartRows_nodup hs.ok.wf userId
  refine Safe.bind ((lockCartProducts_lists _).mono fun r sh x l hr => ?_)
  cases r with
  | error e => trivial
  | ok items =>
    cases items with
    | nil => exact Safe.raise trivial
    | cons it items => exact Safe.pure (hnd.sublist hr)

end Capture

abbrev snapshotProtocol (n : ℕ) : Protocol shop shopHost n :=
  evolution reservationOrder SnapshotInv fun _ => False

variable {sh : Shared shop shopHost} {x : Unit} {l : Txn shop}

/-- After the inserts each item has a reservation, by this request or by another one. -/
theorem reserveInventory_held (items : List SnapshotItem) (csId reservedUntil : ℕ) :
    Safe (snapshotProtocol n) G i (.ofOk fun _ sh' _ l' =>
        ∀ it ∈ items, Held (l'.view sh'.db) csId it)
      (reserveInventory items csId reservedUntil) sh x l := by
  induction items generalizing sh x l with
  | nil => exact Safe.pure fun it hit => by cases hit
  | cons it items ih =>
    have hrest : ∀ {w : World shop shopHost} {y : Unit} {l' : Txn shop}, Held (l'.view w.db) csId it →
        Safe (snapshotProtocol n) G i (.ofOk fun _ sh' _ l' =>
            ∀ it' ∈ it :: items, Held (l'.view sh'.db) csId it')
          (reserveInventory items csId reservedUntil) w.toShared y l' := by
      intro w y l' hit
      refine (ih.and (Safe.of_within ((reserveInventory_acts items (fun _ h => h) _ _).mono
        fun _ ha => ha.1))).mono
        fun r sh x l'' hr => ?_
      cases r with
      | error e => trivial
      | ok _ =>
        intro it' hit'
        rcases List.mem_cons.mp hit' with rfl | hit'
        · exact hit.evolves hr.2.2
        · exact hr.1 it' hit'
    apply Safe.bind
    refine Safe.insert (fun w y hs m _ hfree => ?_) (fun _ w y hs m hc => ?_) fun _ _ _ _ _ _ => trivial
    · let r : InventoryReservation := ⟨m, it.productId, csId, it.quantity, some reservedUntil,
        InventoryReserveStatus.active.value⟩
      have hget := Store.get_put_self (S := shop) (l.view w.db) .inventoryReservation r
      exact hrest ⟨r, hget, rfl, rfl⟩
    · -- another reservation of this product and this checkout session is in the way
      apply hrest
      simp only [Store.Free, not_forall, not_not] at hc
      obtain ⟨r, hr, k, hk, hkr⟩ := hc
      obtain rfl := List.mem_singleton.mp hk
      have hkey := List.mem_singleton.mp hkr
      simp only [IndexKey.productCheckout.injEq] at hkey
      exact ⟨r, Store.get_of_mem hs.ok.wf.ids hr, hkey.2.symm, hkey.1.symm⟩

theorem Reserving.seen {csId : ℕ} {items : List SnapshotItem} (h : Reserving csId items sh.db l)
    {w : World shop shopHost} {y : Unit} (hs : Seen (snapshotProtocol n) i l sh x w y) :
    Reserving csId items w.db l := by
  have hrely : Evolves reservationOrder sh.db w.db := hs.rely
  have hview : Evolves reservationOrder (l.view sh.db) (l.view w.db) := hrely.view hs.ok hs.still
  exact ⟨(hrely .checkoutSession csId).1 h.present, h.own, fun it hit => (h.held it hit).evolves hview⟩

theorem Reserving.get_view {csId : ℕ} {items : List SnapshotItem} {d : Db}
    (h : Reserving csId items d l) :
    (l.view d).get .checkoutSession csId = d.get .checkoutSession csId := by
  apply get_applyWrites_of_not_written
  rintro ⟨⟨t, r⟩, hv, rfl, -⟩
  exact h.own _ hv

/-- The snapshot is written over the checkout session, and the commit publishes both. -/
theorem commitSnapshot_agrees {csId : ℕ} {items : List SnapshotItem} (paymentMethod : PaymentMethod)
    (reply : Reply) (hres : Reserving csId items sh.db l)
    (hnd : (items.map SnapshotItem.productId).Nodup) :
    Safe (snapshotProtocol n) (keepsSnapshots.evolving reservationOrder) i (.ofOk fun _ _ _ _ => True)
      (do updateCheckoutCartNPaymethod csId paymentMethod items; commit; pure reply) sh x l := by
  refine Safe.bind (Safe.bind (safe_updateOne (fun w y hs l' hu => ?_) fun _ _ _ _ _ _ _ => trivial))
  refine Safe.pure (Safe.bind (Safe.commit (fun w₁ y₁ hs₁ hg => ?_) fun _ _ _ _ _ _ _ => trivial))
  obtain ⟨_, hkeep, hev⟩ := hg
  have hres₁ := hres.seen hs
  obtain ⟨c, hc⟩ := Option.isSome_iff_exists.mp hres₁.present
  obtain ⟨hwr, -⟩ := updated_one hu (hres₁.get_view.trans hc)
  have hid : c.id = csId := Store.id_of_get hc
  let c' : CheckoutSession :=
    { c with selectedPaymentMethod := some paymentMethod, cartSnapshot := some items }
  have hview : ∀ d : Db, l'.view d = (applyWrites l.writes d).put .checkoutSession c' := fun d => by
    rw [Txn.view, hwr]
    rfl
  have hrely : Evolves reservationOrder w.db w₁.db := hs₁.rely
  have hlater : Evolves reservationOrder (l'.view w.db) (l'.view w₁.db) :=
    hrely.view hs₁.ok hs₁.still
  have hheld : ∀ it ∈ items, Held (l'.view w₁.db) c'.id it := by
    intro it hit
    apply Held.evolves _ hlater
    obtain ⟨r, hr, hrc, hrp⟩ := hres₁.held it hit
    refine ⟨r, ?_, hrc.trans hid.symm, hrp⟩
    rw [hview, Store.get_put_of_ne (S := shop) _ _ (by simp)]
    exact hr
  have hown : ∀ v ∈ l.writes, ReservationFor c'.id items v := fun v hv => hid ▸ hres.own v hv
  have hkeep' : KeepsSnapshot w₁.db c' := hkeep c' (by rw [hwr, written_cons_self]; simp [c'])
  have hexists : (w₁.db.get .checkoutSession c'.id).isSome :=
    (hrely .checkoutSession c'.id).1 (hid ▸ hres₁.present)
  have hinv : SnapshotInv (l'.view w₁.db) := by
    have hev' : Evolves reservationOrder w₁.db (l'.view w₁.db) := hev
    rw [hview] at hheld hev' ⊢
    exact snapshot_commit hs₁.world.wf hs₁.inv hkeep' rfl hnd hown hev' hheld hexists
  exact ⟨hinv, ⟨hev, fun h => h.elim⟩, Safe.pure trivial⟩

/-- An expired checkout session is deactivated with the snapshot that it has. -/
theorem updateCheckoutActiveness_agrees (csId : ℕ) (active : Bool) (hl : l.writes = []) :
    Safe (snapshotProtocol n) (G.evolving reservationOrder) i (.ofOk fun _ _ _ _ => True)
      (updateCheckoutActiveness csId active) sh x l := by
  refine Safe.bind (safe_updateOne (fun w y hs l' hu => ?_) fun _ _ _ _ _ _ _ => trivial)
  refine Safe.commit_evolving id (fun w₁ y₁ hs₁ hev => ?_) fun _ _ _ _ _ _ _ => trivial
  refine ⟨?_, trivial⟩
  have hempty : l.view w.db = w.db := Txn.view_of_no_writes hl _
  cases hc : w.db.get .checkoutSession csId with
  | none =>
    have hwr : l'.writes = [] := (updated_none hu (by rw [hempty, hc])).trans hl
    have hview : l'.view w₁.db = w₁.db := Txn.view_of_no_writes hwr _
    rw [hview]
    exact hs₁.inv
  | some c =>
    obtain ⟨hwr, hlock⟩ := updated_one hu (by rw [hempty, hc])
    have hid : c.id = csId := Store.id_of_get hc
    have hget : w₁.db.get .checkoutSession c.id = some c := by
      rw [hid]
      exact (hs₁.still.row _ _ hlock).trans hc
    have hview : l'.view w₁.db = w₁.db.put .checkoutSession { c with isActive := active } := by
      rw [Txn.view, hwr, hl]
      rfl
    rw [hview]
    exact snapshotInv_put hs₁.inv hget rfl

theorem getCheckoutDetails_found (checkoutId userId : ℕ) (hl : l.writes = []) :
    Safe (snapshotProtocol n) (G.evolving reservationOrder) i (.ofOk fun cs sh' _ l' =>
        l'.writes = [] ∧ (sh'.db.get .checkoutSession cs.csId).isSome)
      (getCheckoutDetails checkoutId userId) sh x l := by
  refine Safe.bind (Safe.read (fun w y hs => ?_) fun _ _ _ _ _ _ _ => trivial)
  refine Safe.bind (safe_oneOrNone (fun _ => Safe.raise trivial) (fun cs hcs => ?_) trivial)
  have hempty : l.view w.db = w.db := Txn.view_of_no_writes hl _
  have hmem : cs ∈ w.db .checkoutSession := by
    have hrow : cs ∈ (l.view w.db .checkoutSession).filter _ := hcs ▸ List.mem_singleton_self cs
    exact hempty ▸ (List.mem_filter.mp hrow).1
  have hget := Store.get_of_mem (S := shop) hs.world.wf.ids hmem
  refine Safe.bind (safe_now (evolution_quiet _ _ _) fun w₁ y₁ hs₁ => ?_)
  have hrely : Evolves reservationOrder w.db w₁.db := hs₁.rely
  have hfound : (w₁.db.get .checkoutSession cs.id).isSome :=
    (hrely .checkoutSession cs.id).1 (Option.isSome_iff_exists.mpr ⟨cs, hget⟩)
  simp only
  split
  · refine Safe.bind ((updateCheckoutActiveness_agrees _ _ hl).mono fun r sh x l hr => ?_)
    cases r with
    | error e => trivial
    | ok _ => exact Safe.raise trivial
  · exact Safe.pure ⟨hl, hfound⟩

/-- A part of the request that writes rows of the kind `W`. -/
theorem safe_reserving {α : Type} {W : Write shop → Prop} {p : Py α} (hp : p.Acts (InReserving W))
    (hl : l.writes = []) :
    Safe (snapshotProtocol n) G i (fun _ sh' _ l' => Evolves reservationOrder sh.db sh'.db ∧
      ∀ v ∈ l'.writes, W v) p sh x l := by
  have hown : ∀ v ∈ l.writes, W v := by simp [hl]
  have hsafe : Safe (snapshotProtocol n) G i _ p sh x l :=
    Safe.of_confined (hp.mono fun _ ha => ha.1) (hp.mono fun _ ha => ha.2) hown
  exact hsafe.mono fun _ _ _ _ h => h.2

theorem getOrderSummary_agrees (lib : Lib) (req : SummaryRequest) :
    Safe (snapshotProtocol n) (keepsSnapshots.evolving reservationOrder) i (.ofOk fun _ _ _ _ => True)
      (getOrderSummary lib req) sh x {} := by
  rw [getOrderSummary]
  split
  · exact Safe.raise trivial
  rename_i paymentMethod _
  refine Safe.bind ((getCheckoutDetails_found _ _ rfl).mono fun r sh x l hr => ?_)
  cases r with
  | error e => trivial
  | ok cs =>
    obtain ⟨hl, hfound⟩ := hr
    simp only
    split
    · exact Safe.pure trivial
    refine Safe.bind (((captureCartSnapshot_nodup _).and (safe_reserving
      (captureCartSnapshot_acts (W := fun _ => False) _) hl)).mono fun r sh₁ x l hr => ?_)
    cases r with
    | error e => trivial
    | ok cart =>
      obtain ⟨hnd, hev₁, hl⟩ := hr
      have hl := List.eq_nil_iff_forall_not_mem.mpr hl
      refine Safe.bind ((safe_reserving (validateItemsAvblty_acts (W := fun _ => False) _) hl).mono
        fun r sh₂ x l hr => ?_)
      cases r with
      | error e => trivial
      | ok _ =>
        obtain ⟨hev₂, hl⟩ := hr
        have hl := List.eq_nil_iff_forall_not_mem.mpr hl
        refine Safe.bind (((reserveInventory_held _ _ _).and (safe_reserving
          (reserveInventory_acts cart.items (fun _ h => h) _ _) hl)).mono fun r sh₃ x l hr => ?_)
        cases r with
        | error e => trivial
        | ok _ =>
          obtain ⟨hheld, hev₃, hown⟩ := hr
          have hpresent := (((hev₁.trans hev₂).trans hev₃) .checkoutSession cs.csId).1 hfound
          exact commitSnapshot_agrees _ _ ⟨hpresent, hown, hheld⟩ hnd

end Requests

/-! ## Runs -/

inductive CartRequest where
  | summary (req : SummaryRequest)
  | add (req : AddToCartRequest)

def CartRequest.handler (lib : Lib) (publicId : ℕ → UUID) : CartRequest → Py Reply
  | .summary req => getOrderSummary lib req
  | .add req => addToCart publicId req

def cartRequests (lib : Lib) (publicId : ℕ → UUID) (reqs : Fin n → CartRequest)
    (w : World shop shopHost) : Sys shop shopHost n (Except (Exn AppErr) Reply) :=
  .start w fun i => ((reqs i).handler lib publicId).session

theorem cartRequest_agrees (lib : Lib) (publicId : ℕ → UUID) (req : CartRequest) {i : Fin n}
    {sh : Shared shop shopHost} {x : Unit} :
    Safe (snapshotProtocol n) (keepsSnapshots.evolving reservationOrder) i (fun _ _ _ _ => True)
      (req.handler lib publicId).session sh x {} := by
  cases req with
  | summary req =>
    apply Safe.session
    exact (getOrderSummary_agrees lib req).mono fun _ _ _ _ _ _ _ _ => trivial
  | add req =>
    apply Safe.of_inert id ((addToCart_acts inCart_acts publicId req).session ⟨trivial, trivial⟩)
    · exact fun d _ ws hws h => snapshotInv_untouched hws h
    · exact .refl _ _
    · exact fun v hv => by cases hv

/-- As long as no snapshot that lists something else is put over a committed one, the
reservations of every checkout session are the items of its snapshot. -/
theorem snapshots_agree (lib : Lib) (publicId : ℕ → UUID) {reqs : Fin n → CartRequest}
    {w : World shop shopHost} (hw : w.Ok) (hinv : SnapshotInv w.db)
    {s : Sys shop shopHost n (Except (Exn AppErr) Reply)}
    (hrun : Sys.Run keepsSnapshots History.none (cartRequests lib publicId reqs w) () s ()) :
    SnapshotInv s.world.db := by
  have hacts : ∀ i, (((reqs i).handler lib publicId).session).Acts KeepsReservations := by
    intro i
    apply Prog.Acts.session _ trivial
    cases reqs i with
    | summary req => exact getOrderSummary_acts lib req
    | add req => exact (addToCart_acts inCart_acts publicId req).mono fun _ ha => ha.1
  have hguarded := hrun.guarded (Sys.evolving_start hw hacts)
  have hs := Sys.Run.inv (P := snapshotProtocol n) hguarded
    (Sys.inv_start hw hinv fun i => cartRequest_agrees lib publicId (reqs i))
  exact hs.inv

/-- One piece of a product in the cart, and five in stock. -/
def oneCart : World shop shopHost where
  db
    | .product => [⟨1, 5, 100⟩]
    | .cart => [⟨1, some 1, none⟩]
    | .cartItem => [⟨1, some 1, 1, 1⟩]
    | .checkoutSession => [⟨1, 11, 1, none, none, true, 100⟩]
    | _ => []
  host := ⟨0, 0, [], []⟩
  seq _ := 2

theorem oneCart_ok : oneCart.Ok :=
  ⟨Store.wf_of_pairwise fun t => by cases t <;> decide, fun t => by cases t <;> decide⟩

def twoSummariesOneAdd : Fin 3 → CartRequest
  | 0 | 1 => .summary ⟨1, 11, .str "UPI"⟩
  | 2 => .add ⟨7, some 1, none, none⟩

/-- The first request, from the cart to the commit. -/
def firstSummary : List (Label shopHost 3) :=
  [.proc 0 .go, .proc 0 .go, .proc 0 (.host .proceed), .proc 0 .go, .proc 0 .go, .proc 0 .go,
    .proc 0 .go]

def oneAdd : List (Label shopHost 3) :=
  [.proc 2 .go, .proc 2 .go, .proc 2 .go, .proc 2 .go, .proc 2 .go]

theorem snapshots_agree_sequential : ∃ s,
    Sys.Run keepsSnapshots History.none
      (cartRequests plainLib (· + 6) twoSummariesOneAdd oneCart) () s () ∧
    (∃ c : CheckoutSession, c ∈ s.world.db .checkoutSession ∧ c.cartSnapshot.isSome) ∧
    SnapshotInv s.world.db := by
  have hexec : ((cartRequests plainLib (· + 6) twoSummariesOneAdd oneCart).exec keepsSnapshots
      ([.proc 0 .go, .proc 0 (.host .proceed)] ++ firstSummary ++ oneAdd)).map (fun s =>
        decide (∃ c ∈ s.world.db .checkoutSession, c.cartSnapshot.isSome)) = some true := by
    decide +kernel
  obtain ⟨s, hs, hsnap⟩ := Option.map_eq_some_iff.mp hexec
  obtain ⟨⟨⟩, hrun⟩ := Sys.run_of_exec History.none () hs
  exact ⟨s, hrun, of_decide_eq_true hsnap,
    snapshots_agree plainLib (· + 6) oneCart_ok (by decide) hrun⟩

/-- The second request reads the cart after a piece was added, keeps the reservation
of one piece, and stores a snapshot of two. -/
theorem overlapping_summaries_disagree : SnapshotInv oneCart.db ∧ ∃ s,
    Sys.Reach (cartRequests plainLib (· + 6) twoSummariesOneAdd oneCart) s ∧
      ¬SnapshotInv s.world.db := by
  refine ⟨by decide, ?_⟩
  have hexec : ((cartRequests plainLib (· + 6) twoSummariesOneAdd oneCart).exec
      (fun _ _ _ _ _ => True)
      ([.proc 0 .go, .proc 0 (.host .proceed), .proc 1 .go, .proc 1 (.host .proceed)] ++
        firstSummary ++ oneAdd ++ [.proc 1 .go, .proc 1 .go, .proc 1 (.host .proceed), .proc 1 .go,
          .proc 1 .go, .proc 1 .go, .proc 1 .go])).map (fun s =>
        decide (SnapshotInv s.world.db)) = some false := by
    decide +kernel
  obtain ⟨s, hs, hdis⟩ := Option.map_eq_some_iff.mp hexec
  obtain ⟨⟨⟩, hrun⟩ := Sys.run_of_exec History.none () hs
  exact ⟨s, hrun, of_decide_eq_false hdis⟩

end Phyllonix
