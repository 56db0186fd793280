import Phyllonix.SummaryRepeats
import Phyllonix.ShopPlays

/-!
# Answers to repeated order-summary requests

Whoever holds the lock of a product of the cart is alone with the checkout. A request that takes
the locks after another one has committed finds the reservations of that one in its check.
-/

namespace Phyllonix
open Relational
variable {n : ℕ}

def isProductLock : Lock shop → Bool
  | .row t _ => t = Table.product
  | _ => false

/-- Statements take place, and nothing runs out. The check, which is the one read under a lock on
a product, finds room for the cart besides the active reservations of the checkout itself. -/
def roomy (req : SummaryRequest) (d₀ : Db) (t₀ : ℕ) : Guard shop shopHost n := fun _ sh l a c =>
  (match c with
    | .fault => False
    | _ => True) ∧ Steady req d₀ t₀ sh.host.clock ∧
    match a with
    | .read _ => l.locks.any isProductLock = true → LeavesRoom req sh.db sh.host.clock
    | _ => True

def HoldsOne (req : SummaryRequest) (d₀ : Db) (l : Txn shop) : Prop :=
  ∃ it ∈ cartSnapshotItems d₀ req.userIdentifier, Lock.row Table.product it.productId ∈ l.locks

def HoldsAll (req : SummaryRequest) (d₀ : Db) (l : Txn shop) : Prop :=
  cartSnapshotItems d₀ req.userIdentifier ≠ [] ∧
    ∀ it ∈ cartSnapshotItems d₀ req.userIdentifier, Lock.row Table.product it.productId ∈ l.locks

theorem HoldsAll.one {req : SummaryRequest} {d₀ : Db} {l : Txn shop} (h : HoldsAll req d₀ l) :
    HoldsOne req d₀ l := by
  obtain ⟨hne, hall⟩ := h
  obtain ⟨it, hit⟩ := List.exists_mem_of_ne_nil _ hne
  exact ⟨it, hit, hall it hit⟩

theorem HoldsAll.grow {req : SummaryRequest} {d₀ : Db} {l l' : Txn shop} (h : HoldsAll req d₀ l)
    (hl : ∀ z ∈ l.locks, z ∈ l'.locks) : HoldsAll req d₀ l' :=
  ⟨h.1, fun it hit => hl _ (h.2 it hit)⟩

def summaryProtocol (req : SummaryRequest) (d₀ : Db) (t₀ : ℕ) (n : ℕ) : Protocol shop shopHost n where
  toHistory := History.none
  inv sh _ := Repeated req d₀ t₀ sh.db
  rely _ l sh _ sh' _ := (∀ c m, SummedUp req d₀ t₀ c m sh.db → SummedUp req d₀ t₀ c m sh'.db) ∧
    (HoldsOne req d₀ l → sh'.db = sh.db)
  guar _ l sh _ sh' := (∀ c m, SummedUp req d₀ t₀ c m sh.db → SummedUp req d₀ t₀ c m sh'.db) ∧
    (sh'.db = sh.db ∨ HoldsAll req d₀ l)
  next_same := History.none_same
  rely_refl _ _ _ _ := ⟨fun _ _ h => h, fun _ => rfl⟩
  rely_trans h h' := ⟨fun c m hs => h'.1 c m (h.1 c m hs), fun hl => (h'.2 hl).trans (h.2 hl)⟩
  guar_same _ _ _ _ := ⟨fun _ _ h => h, .inl rfl⟩
  compat _ hlm _ _ _ hg := ⟨hg.1, fun ⟨it, hit, hm⟩ => hg.2.resolve_right fun hl => hlm _ (hl.2 it hit) hm⟩
  env_inv _ _ _ h := h
  env_rely _ _ _ _ _ _ := ⟨fun _ _ h => h, fun _ => rfl⟩

section Requests
variable {req : SummaryRequest} {d₀ : Db} {t₀ : ℕ} {i : Fin n} {sh : Shared shop shopHost} {x : Unit}
variable {l : Txn shop}

theorem not_fails {α : Type} {Q : Post (summaryProtocol req d₀ t₀ n) α} (hl : l.aborted = false) {a : ShopAction}
    (h : ∃ sh', Fails (roomy req d₀ t₀) i sh' l a) : OnError Q i sh x l := by
  obtain ⟨sh', hfault | haborted⟩ := h
  · exact hfault.1.elim
  · rw [hl] at haborted
    cases haborted

theorem safe_now_steady {Q : Post (summaryProtocol req d₀ t₀ n) ℕ}
    (h : ∀ w y, Seen (summaryProtocol req d₀ t₀ n) i l sh x w y → Steady req d₀ t₀ w.host.clock →
      Q (.ok w.host.clock) w.toShared y l) :
    Safe (summaryProtocol req d₀ t₀ n) (roomy req d₀ t₀) i Q now sh x l := by
  apply Safe.call_same
  intro w y hs c busy r w' l' hg hr
  cases c with
  | go => cases hr
  | fault => cases hr
  | host c =>
    cases c <;> simp only [Action.run, HostAct.step, Option.map_some, Option.map_none, Option.some.injEq,
      Prod.mk.injEq, reduceCtorEq] at hr
    obtain ⟨rfl, rfl, rfl⟩ := hr
    exact ⟨rfl, h w y hs hg.2.1⟩

theorem Repeated.rest {d : Db} (h : Repeated req d₀ t₀ d) {t : Table} (ht : t ≠ .checkoutSession)
    (ht' : t ≠ .inventoryReservation) : d t = d₀ t := by
  rcases h with rfl | ⟨c, m, h⟩
  · rfl
  · exact h.rest t ht ht'

/-! ## The checkout -/

/-- The row of the checkout, as it was or with what a request has stored in it. -/
def CheckoutRow (req : SummaryRequest) (d₀ : Db) (t₀ : ℕ) (d : Db) (c : CheckoutSession) : Prop :=
  (c ∈ d₀ .checkoutSession ∧ req.finds c = true) ∨
    ∃ c₀ m, SummedUp req d₀ t₀ c₀ m d ∧ c = c₀.summarised m (cartSnapshotItems d₀ req.userIdentifier)

/-- No request can be answered. -/
def NoSummary (lib : Lib) (req : SummaryRequest) (d₀ : Db) (t₀ : ℕ) : Prop :=
  ∀ reply, ¬SummaryOf lib req d₀ t₀ reply

theorem SummaryOf.exists_checkout {lib : Lib} {reply : Reply} (h : SummaryOf lib req d₀ t₀ reply) :
    ∃ c : CheckoutSession, c ∈ d₀ .checkoutSession ∧ req.finds c = true := by
  cases h with
  | stored hc hfound => exact ⟨_, hc, hfound⟩
  | taken hc hfound => exact ⟨_, hc, hfound⟩

theorem Repeated.found {d : Db} (h : Repeated req d₀ t₀ d) (hd : d.Wf) {c : CheckoutSession}
    (hc : c ∈ d .checkoutSession) (hfound : req.finds c = true) : CheckoutRow req d₀ t₀ d c := by
  rcases h with rfl | ⟨c₀, m, h⟩
  · exact .inl ⟨hc, hfound⟩
  · exact .inr ⟨c₀, m, h, finds_unique hd hc (Store.mem_of_get h.row) hfound h.finds⟩

theorem Repeated.exists_found {d : Db} (h : Repeated req d₀ t₀ d) {c : CheckoutSession}
    (hc : c ∈ d₀ .checkoutSession) (hfound : req.finds c = true) :
    ∃ c' : CheckoutSession, c' ∈ d .checkoutSession ∧ req.finds c' = true := by
  rcases h with rfl | ⟨c₀, m, h⟩
  · exact ⟨c, hc, hfound⟩
  · exact ⟨_, Store.mem_of_get h.row, h.finds⟩

theorem CheckoutRow.expiresAt {d : Db} {c : CheckoutSession} (h : CheckoutRow req d₀ t₀ d c) {t : ℕ}
    (ht : Steady req d₀ t₀ t) : t < c.expiresAt := by
  rcases h with ⟨hc, hfound⟩ | ⟨c₀, m, h, rfl⟩
  · exact ht.checkout hc hfound
  · change t < c₀.expiresAt
    exact Steady.checkout (c := c₀) ht h.checkout h.found

theorem CheckoutRow.seen {c : CheckoutSession} (h : CheckoutRow req d₀ t₀ sh.db c)
    {w : World shop shopHost} {y : Unit} (hs : Seen (summaryProtocol req d₀ t₀ n) i l sh x w y) :
    CheckoutRow req d₀ t₀ w.db c :=
  h.imp id fun ⟨c₀, m, h, hc⟩ => ⟨c₀, m, hs.rely.1 c₀ m h, hc⟩

theorem getCheckoutDetails_repeats (lib : Lib) :
    Safe (summaryProtocol req d₀ t₀ n) (roomy req d₀ t₀) i (fun r sh' _ l' => match r with
      | .ok cs => l' = {} ∧ ∃ c, CheckoutRow req d₀ t₀ sh'.db c ∧
        cs = ⟨c.id, c.expiresAt, c.cartSnapshot, c.selectedPaymentMethod⟩
      | .error _ => NoSummary lib req d₀ t₀)
      (getCheckoutDetails req.checkoutId req.userIdentifier) sh x {} := by
  apply Safe.bind
  apply Safe.read _ (not_fails rfl)
  intro w y hs
  have hinv : Repeated req d₀ t₀ w.db := hs.inv
  change Safe _ _ _ _ (oneOrNone ((w.db .checkoutSession).filter req.finds) >>= _) _ _ _
  have hrows : oneOrNone ((w.db .checkoutSession).filter req.finds) =
      pure ((w.db .checkoutSession).filter req.finds).head? := by
    have hnd : ((w.db .checkoutSession).filter req.finds).Nodup := (hs.world.wf.ids .checkoutSession).of_map.filter _
    apply oneOrNone_unique hnd
    intro a ha b hb
    obtain ⟨ha, hfa⟩ := List.mem_filter.mp ha
    obtain ⟨hb, hfb⟩ := List.mem_filter.mp hb
    exact finds_unique hs.world.wf ha hb hfa hfb
  rw [hrows]
  apply Safe.bind
  apply Safe.pure
  cases hhead : ((w.db .checkoutSession).filter req.finds).head? with
  | none =>
    apply Safe.raise
    intro reply hsum
    obtain ⟨c, hc, hfound⟩ := hsum.exists_checkout
    obtain ⟨c', hc', hfound'⟩ := hinv.exists_found hc hfound
    have hmem : c' ∈ (w.db .checkoutSession).filter req.finds := List.mem_filter.mpr ⟨hc', hfound'⟩
    rw [List.head?_eq_none_iff.mp hhead] at hmem
    cases hmem
  | some c =>
    obtain ⟨hc, hfound⟩ := List.mem_filter.mp (List.mem_of_head? hhead)
    have hrow := hinv.found hs.world.wf hc hfound
    apply Safe.bind
    apply safe_now_steady
    intro w₁ y₁ hs₁ hsteady
    have hrow₁ : CheckoutRow req d₀ t₀ w₁.db c := CheckoutRow.seen hrow hs₁
    have hlate : ¬c.expiresAt < w₁.host.clock := Nat.not_lt.mpr (hrow₁.expiresAt hsteady).le
    dsimp only
    rw [if_neg hlate]
    exact Safe.pure ⟨rfl, c, hrow₁, rfl⟩

/-! ## The cart -/

theorem product_of_cartRows {d : Db} {u : ℕ} {row : CartItem × Product} (h : row ∈ cartRows d u) :
    row.2 ∈ d .product := by
  simp only [cartRows, List.mem_flatMap, List.mem_filter, List.mem_map] at h
  obtain ⟨c, -, ci, -, p, ⟨hp, -⟩, rfl⟩ := h
  exact hp

theorem cartSnapshotItems_nodup (hd₀ : d₀.Wf) (u : ℕ) :
    ((cartSnapshotItems d₀ u).map SnapshotItem.productId).Nodup := by
  rw [cartSnapshotItems, List.map_map]
  exact cartRows_nodup hd₀ u

/-- A transaction that has only taken locks. -/
structure Reading (l : Txn shop) : Prop where
  unwritten : l.writes = []
  live : l.aborted = false

theorem lockCartProducts_repeats (rows : List (CartItem × Product)) (hrows : ∀ row ∈ rows, row.2 ∈ d₀ .product)
    (hl : Reading l) :
    Safe (summaryProtocol req d₀ t₀ n) (roomy req d₀ t₀) i (fun r _ _ l' => match r with
      | .ok items =>
        items = rows.map (fun row =>
          ⟨row.1.id, row.2.id, row.1.quantity, row.2.basePrice, row.2.stockQty⟩) ∧ Reading l' ∧
          (∀ z ∈ l.locks, z ∈ l'.locks) ∧ ∀ row ∈ rows, Lock.row Table.product row.2.id ∈ l'.locks
      | .error _ => False) (lockCartProducts rows) sh x l := by
  induction rows generalizing sh x l with
  | nil => exact Safe.pure ⟨rfl, hl, fun _ h => h, fun _ h => by cases h⟩
  | cons row rows ih =>
    obtain ⟨ci, p⟩ := row
    have hrest : ∀ row ∈ rows, row.2 ∈ d₀ .product := fun row h => hrows row (List.mem_cons_of_mem _ h)
    apply Safe.bind
    apply safe_lockById
    · intro w y hs
      have hinv : Repeated req d₀ t₀ w.db := hs.inv
      have hmem : p ∈ w.db .product := by
        rw [hinv.rest (by decide) (by decide)]
        exact hrows _ List.mem_cons_self
      have hget : (l.view w.db).get .product p.id = some p := by
        rw [Txn.view_of_no_writes hl.unwritten]
        exact Store.get_of_mem (S := shop) hs.world.wf.ids hmem
      rw [hget]
      apply Safe.bind
      have hl₁ : Reading (l.acquire [.row .product p.id]) := ⟨hl.unwritten, hl.live⟩
      refine (ih hrest hl₁).mono fun r sh' x' l' hr => ?_
      cases r with
      | error e => exact hr.elim
      | ok rest =>
        obtain ⟨rfl, hl', hkeep, hlocked⟩ := hr
        refine Safe.pure ⟨rfl, hl', fun z hz => hkeep z (List.mem_cons_of_mem _ hz), fun row hrow => ?_⟩
        rcases List.mem_cons.mp hrow with rfl | hrow
        · exact hkeep _ List.mem_cons_self
        · exact hlocked row hrow
    · exact fun ⟨sh', a, hf⟩ => not_fails hl.live ⟨sh', hf⟩

theorem captureCartSnapshot_repeats :
    Safe (summaryProtocol req d₀ t₀ n) (roomy req d₀ t₀) i (fun r _ _ l' => match r with
      | .ok cart => cart.items = cartSnapshotItems d₀ req.userIdentifier ∧ Reading l' ∧ HoldsAll req d₀ l'
      | .error _ => cartSnapshotItems d₀ req.userIdentifier = [])
      (captureCartSnapshot req.userIdentifier) sh x {} := by
  apply Safe.bind
  refine Safe.read (fun w y hs => ?_) (not_fails rfl)
  have hinv : Repeated req d₀ t₀ w.db := hs.inv
  have hrows : cartRows w.db req.userIdentifier = cartRows d₀ req.userIdentifier := by
    rw [cartRows, cartRows, hinv.rest (t := .cart) (by decide) (by decide),
      hinv.rest (t := .cartItem) (by decide) (by decide), hinv.rest (t := .product) (by decide) (by decide)]
  change Safe _ _ _ _ (lockCartProducts (cartRows w.db req.userIdentifier) >>= _) _ _ _
  rw [hrows]
  apply Safe.bind
  refine (lockCartProducts_repeats _ (fun row => product_of_cartRows) ⟨rfl, rfl⟩).mono fun r sh x l hr => ?_
  cases r with
  | error e => exact hr.elim
  | ok items =>
    obtain ⟨hitems, hl, -, hlocked⟩ := hr
    have hitems : items = cartSnapshotItems d₀ req.userIdentifier := hitems
    cases items with
    | nil => exact Safe.raise hitems.symm
    | cons it items =>
      refine Safe.pure ⟨hitems, hl, fun hnil => ?_, fun it' hit' => ?_⟩
      · rw [hnil] at hitems
        cases hitems
      · obtain ⟨row, hrow, rfl⟩ := List.mem_map.mp hit'
        exact hlocked row hrow

theorem validateItemsAvblty_repeats (hd₀ : d₀.Wf) (hl : Reading l) (hlocks : HoldsAll req d₀ l) :
    Safe (summaryProtocol req d₀ t₀ n) (roomy req d₀ t₀) i (fun r _ _ l' => match r with
      | .ok _ => l' = l ∧ ∀ it ∈ cartSnapshotItems d₀ req.userIdentifier, Covered d₀ t₀ it
      | .error _ => ¬∀ it ∈ cartSnapshotItems d₀ req.userIdentifier, Covered d₀ t₀ it)
      (validateItemsAvblty (cartSnapshotItems d₀ req.userIdentifier)) sh x l := by
  have hdict := foldl_dictSet (d := []) SnapshotItem.productId
    (fun it : SnapshotItem => ProductData.mk it.productStock it.quantity)
    (by simpa using cartSnapshotItems_nodup hd₀ req.userIdentifier)
  simp only [validateItemsAvblty]
  rw [hdict]
  apply Safe.bind
  apply safe_now_steady
  intro w y hs hsteady
  apply Safe.bind
  refine Safe.read_guarded (fun w₁ y₁ hs₁ hg => ?_) (not_fails hl.live)
  obtain ⟨c, -, hsteady₁, hroom⟩ := hg
  have hlocked : l.locks.any isProductLock = true := by
    obtain ⟨it, -, hit⟩ := hlocks.one
    exact List.any_eq_true.mpr ⟨_, hit, by simp [isProductLock]⟩
  have hinv : Repeated req d₀ t₀ w₁.db := hs₁.inv
  have hcovered := hinv.covered_iff hd₀ hs₁.world.wf hsteady hsteady₁ (hroom hlocked)
  have hview : l.view w₁.db = w₁.db := Txn.view_of_no_writes hl.unwritten _
  simp only [hview]
  split
  · rename_i hok
    refine Safe.pure ⟨rfl, hcovered.mp fun it hit => ?_⟩
    have hfree := List.filterMap_eq_nil_iff.mp hok (it.productId, ⟨it.productStock, it.quantity⟩)
      (by simpa using ⟨it, hit, rfl, rfl, rfl⟩)
    simp only [ite_eq_right_iff, reduceCtorEq, imp_false, not_lt, gt_iff_lt] at hfree
    exact hfree
  · rename_i herrs
    refine Safe.raise fun hall => herrs (List.filterMap_eq_nil_iff.mpr fun a ha => ?_)
    obtain ⟨it, hit, rfl⟩ := List.mem_map.mp ha
    have hle := hcovered.mpr hall it hit
    rw [Covered] at hle
    simp only [ite_eq_right_iff, reduceCtorEq, imp_false, not_lt, gt_iff_lt]
    exact hle

/-! ## The reservations -/

theorem ReservedFor.snapshot {c : CheckoutSession} {items : List SnapshotItem} {it : SnapshotItem} (hit : it ∈ items)
    (m : ℕ) : ReservedFor c items ⟨m, it.productId, c.id, it.quantity, some c.expiresAt,
      InventoryReserveStatus.active.value⟩ :=
  ⟨rfl, rfl, rfl, it, hit, rfl, rfl⟩

theorem Grown.refl (c : CheckoutSession) (items : List SnapshotItem) (d : Db) : Grown c items d d :=
  ⟨fun _ h => h, fun _ h => .inl h⟩

theorem Grown.trans {c : CheckoutSession} {items : List SnapshotItem} {d d' d'' : Db} (h : Grown c items d d')
    (h' : Grown c items d' d'') : Grown c items d d'' := by
  refine ⟨fun r hr => h'.kept r (h.kept r hr), fun r hr => ?_⟩
  cases h'.added r hr with
  | inl hold => exact h.added r hold
  | inr hnew => exact .inr hnew

theorem Grown.put {c : CheckoutSession} {items : List SnapshotItem} {d : Db} {r : InventoryReservation}
    (hfresh : ∀ u : InventoryReservation, u ∈ d .inventoryReservation → u.id < r.id) (hr : ReservedFor c items r) :
    Grown c items d (d.put .inventoryReservation r) := by
  refine ⟨fun u hu => ?_, fun u hu => ?_⟩
  · rw [Store.put_self]
    exact mem_putRow.mpr (.inl ⟨hu, (hfresh u hu).ne⟩)
  · rw [Store.put_self] at hu
    rcases mem_putRow.mp hu with ⟨hu, -⟩ | rfl
    · exact .inl hu
    · exact .inr hr

/-- Besides the reservations of the items that are done, nothing has been written. -/
structure Filled (c : CheckoutSession) (items done : List SnapshotItem) (d : Db) (l : Txn shop) : Prop where
  live : l.aborted = false
  same : ∀ t, t ≠ .inventoryReservation → l.view d t = d t
  grown : Grown c items d (l.view d)
  all : AllReserved c done (l.view d)

theorem Filled.start (c : CheckoutSession) (items : List SnapshotItem) (d : Db) (hl : Reading l) :
    Filled c items [] d l := by
  have hview : l.view d = d := Txn.view_of_no_writes hl.unwritten d
  exact ⟨hl.live, fun t _ => by rw [hview], hview.symm ▸ .refl c items d, fun it hit => by cases hit⟩

/-- Whoever holds the products finds the store as it was. -/
theorem HoldsAll.db_eq (h : HoldsAll req d₀ l) {w : World shop shopHost} {y : Unit}
    (hs : Seen (summaryProtocol req d₀ t₀ n) i l sh x w y) : w.db = sh.db := hs.rely.2 h.one

theorem reserveInventory_repeats {c : CheckoutSession} {all : List SnapshotItem} (items : List SnapshotItem)
    {done : List SnapshotItem} (hitems : ∀ it ∈ items, it ∈ all) (hlocks : HoldsAll req d₀ l)
    (hl : Filled c all done sh.db l) :
    Safe (summaryProtocol req d₀ t₀ n) (roomy req d₀ t₀) i (fun r sh' _ l' => match r with
      | .ok _ => sh'.db = sh.db ∧ HoldsAll req d₀ l' ∧ Filled c all (items ++ done) sh'.db l'
      | .error _ => False) (reserveInventory items c.id c.expiresAt) sh x l := by
  induction items generalizing sh x l done with
  | nil => exact Safe.pure ⟨rfl, hlocks, hl⟩
  | cons it items ih =>
    have hrest : ∀ it' ∈ items, it' ∈ all := fun it' h => hitems it' (List.mem_cons_of_mem _ h)
    have hnext : ∀ {w : World shop shopHost} {y : Unit} {l' : Txn shop}, w.db = sh.db → HoldsAll req d₀ l' →
        Filled c all (it :: done) w.db l' →
        Safe (summaryProtocol req d₀ t₀ n) (roomy req d₀ t₀) i (fun r sh' _ l' => match r with
          | .ok _ => sh'.db = sh.db ∧ HoldsAll req d₀ l' ∧ Filled c all (it :: items ++ done) sh'.db l'
          | .error _ => False) (reserveInventory items c.id c.expiresAt) w.toShared y l' := by
      intro w y l' hdb hlocks' hl'
      refine (ih hrest hlocks' hl').mono fun r sh' x' l'' hr => ?_
      cases r with
      | error e => exact hr.elim
      | ok _ =>
        obtain ⟨hdb', hlocks'', hl''⟩ := hr
        refine ⟨hdb'.trans hdb, hlocks'', hl''.live, hl''.same, hl''.grown, fun it' hit' => hl''.all it' ?_⟩
        simp only [List.cons_append, List.mem_cons, List.mem_append] at hit' ⊢
        tauto
    apply Safe.bind
    refine Safe.insertSkip (fun w y hs _ m hm => ?_) (fun w y hs _ m hc => ?_) (not_fails hl.live)
    · have hdb := hlocks.db_eq hs
      have hl₁ : Filled c all done w.db l := hdb.symm ▸ hl
      let r : InventoryReservation := ⟨m, it.productId, c.id, it.quantity, some c.expiresAt,
        InventoryReserveStatus.active.value⟩
      have hgrow : Grown c all (l.view w.db) ((l.view w.db).put .inventoryReservation r) :=
        Grown.put (r := r) hm (ReservedFor.snapshot (hitems it List.mem_cons_self) m)
      have hkeep : ∀ z ∈ l.locks, z ∈ (l.write (S := shop) Table.inventoryReservation [] r).locks :=
        fun z hz => List.mem_append_right _ hz
      refine hnext hdb (hlocks.grow hkeep) ⟨hl₁.live, fun t ht => ?_, hl₁.grown.trans hgrow, ?_⟩
      · exact (Store.put_of_ne (S := shop) _ _ ht).trans (hl₁.same t ht)
      · intro it' hit'
        rcases List.mem_cons.mp hit' with rfl | hit'
        · have hget := Store.get_put_self (S := shop) (l.view w.db) .inventoryReservation r
          exact ⟨r, Store.mem_of_get hget, rfl, rfl⟩
        · obtain ⟨r, hr, hp, hrc⟩ := hl₁.all it' hit'
          exact ⟨r, hgrow.kept r hr, hp, hrc⟩
    · have hdb := hlocks.db_eq hs
      have hl₁ : Filled c all done w.db l := hdb.symm ▸ hl
      refine hnext hdb hlocks ⟨hl₁.live, hl₁.same, hl₁.grown, fun it' hit' => ?_⟩
      rcases List.mem_cons.mp hit' with rfl | hit'
      · -- a reservation of this product and this checkout is in the way
        simp only [Store.Free, not_forall, not_not] at hc
        obtain ⟨r, hr, k, hk, hkr⟩ := hc
        obtain rfl := List.mem_singleton.mp hk
        have hkey := List.mem_singleton.mp hkr
        simp only [IndexKey.productCheckout.injEq] at hkey
        exact ⟨r, hr, hkey.1.symm, hkey.2.symm⟩
      · exact hl₁.all it' hit'

/-! ## The commit -/

/-- A checkout without a snapshot for which the cart can be reserved. -/
structure Reservable (req : SummaryRequest) (d₀ : Db) (t₀ : ℕ) (c : CheckoutSession) (m : PaymentMethod) : Prop where
  method : parsePaymentMethod req.paymentMethod = some m
  checkout : c ∈ d₀ .checkoutSession
  found : req.finds c = true
  unstored : c.stored = none
  filled : cartSnapshotItems d₀ req.userIdentifier ≠ []
  covered : ∀ it ∈ cartSnapshotItems d₀ req.userIdentifier, Covered d₀ t₀ it

section Commit
variable {c : CheckoutSession} {m : PaymentMethod} {d : Db}

theorem SummedUp.same (h : SummedUp req d₀ t₀ c m d) (hd₀ : d₀.Wf) {c' : CheckoutSession} {m' : PaymentMethod}
    (h' : Reservable req d₀ t₀ c' m') : c = c' ∧ m = m' := by
  have hmethod := h.method.symm.trans h'.method
  exact ⟨finds_unique hd₀ h.checkout h'.checkout h.found h'.found, Option.some.inj hmethod⟩

theorem Repeated.row (h : Repeated req d₀ t₀ d) (hd₀ : d₀.Wf) (hc : Reservable req d₀ t₀ c m)
    (items : List SnapshotItem) : ∃ c₁, d.get .checkoutSession c.id = some c₁ ∧
      CheckoutSession.summarised c₁ m items = c.summarised m items := by
  rcases h with rfl | ⟨c', m', h⟩
  · exact ⟨c, Store.get_of_mem (S := shop) hd₀.ids hc.checkout, rfl⟩
  · obtain ⟨rfl, rfl⟩ := h.same hd₀ hc
    exact ⟨_, h.row, rfl⟩

/-- The commit of a request, the first one or a later one, leaves what a single request leaves. -/
theorem Repeated.commit (h : Repeated req d₀ t₀ d) (hd₀ : d₀.Wf) (hc : Reservable req d₀ t₀ c m)
    (hl : Filled c (cartSnapshotItems d₀ req.userIdentifier) (cartSnapshotItems d₀ req.userIdentifier) d l) :
    SummedUp req d₀ t₀ c m ((l.view d).put .checkoutSession
      (c.summarised m (cartSnapshotItems d₀ req.userIdentifier))) := by
  have hput : ∀ t, t ≠ .checkoutSession → (l.view d).put .checkoutSession
      (c.summarised m (cartSnapshotItems d₀ req.userIdentifier)) t = l.view d t :=
    fun t ht => Store.put_of_ne (S := shop) _ _ ht
  have hsessions : (l.view d) .checkoutSession = d .checkoutSession := hl.same _ (by decide)
  have hbefore : Grown c (cartSnapshotItems d₀ req.userIdentifier) d₀ d := by
    rcases h with rfl | ⟨c', m', h⟩
    · exact .refl _ _ _
    · obtain ⟨rfl, rfl⟩ := h.same hd₀ hc
      exact h.grown
  refine ⟨hc.method, hc.checkout, hc.found, hc.unstored, hc.filled, hc.covered, ?_, ?_, ?_, ?_, ?_⟩
  · exact Store.get_put_self (S := shop) _ .checkoutSession _
  · intro k hk
    have hget : d.get .checkoutSession k = d₀.get .checkoutSession k := by
      rcases h with rfl | ⟨c', m', h⟩
      · rfl
      · obtain ⟨rfl, rfl⟩ := h.same hd₀ hc
        exact h.others k hk
    have hview : (l.view d).get .checkoutSession k = d.get .checkoutSession k := by
      rw [Store.get, Store.get, hsessions]
    refine Eq.trans ?_ (hview.trans hget)
    exact Store.get_put_of_ne (S := shop) (t := .checkoutSession) _ _ fun hk' => hk hk'.2
  · intro t ht ht'
    rw [hput t ht, hl.same t ht']
    exact h.rest ht ht'
  · have hgrown := hbefore.trans hl.grown
    refine ⟨fun r hr => ?_, fun r hr => ?_⟩
    · rw [hput _ (by decide)]
      exact hgrown.kept r hr
    · rw [hput _ (by decide)] at hr
      exact hgrown.added r hr
  · intro it hit
    obtain ⟨r, hr, hp, hrc⟩ := hl.all it hit
    refine ⟨r, ?_, hp, hrc⟩
    rw [hput _ (by decide)]
    exact hr

theorem commitSummary_repeats (reply : Reply) (hd₀ : d₀.Wf) (hc : Reservable req d₀ t₀ c m)
    (hlocks : HoldsAll req d₀ l)
    (hl : Filled c (cartSnapshotItems d₀ req.userIdentifier) (cartSnapshotItems d₀ req.userIdentifier) sh.db l) :
    Safe (summaryProtocol req d₀ t₀ n) (roomy req d₀ t₀) i (fun r sh' _ _ => match r with
      | .ok r' => r' = reply ∧ SummedUp req d₀ t₀ c m sh'.db
      | .error _ => False)
      (do updateCheckoutCartNPaymethod c.id m (cartSnapshotItems d₀ req.userIdentifier); commit; pure reply)
      sh x l := by
  apply Safe.bind
  apply Safe.bind
  apply safe_updateOne (t := .checkoutSession)
  · intro w y hs l' hu
    have hdb := hlocks.db_eq hs
    obtain ⟨c₁, hget, hsum⟩ := Repeated.row (c := c) hs.inv hd₀ hc (cartSnapshotItems d₀ req.userIdentifier)
    have hview : (l.view w.db).get .checkoutSession c.id = some c₁ := by
      rw [← hget, Store.get, Store.get, hdb, hl.same _ (by decide)]
    obtain ⟨hw, -⟩ := updated_one (r := c₁) hu hview
    have hlocks' : HoldsAll req d₀ l' := hlocks.grow hu.keeps
    apply Safe.pure
    apply Safe.bind
    apply Safe.commit
    · intro w₁ y₁ hs₁ _
      have hdb₁ : w₁.db = sh.db := (hlocks'.db_eq hs₁).trans hdb
      have hnew : SummedUp req d₀ t₀ c m (l'.view w₁.db) := by
        have hinv : Repeated req d₀ t₀ w₁.db := hs₁.inv
        have hcommit := hinv.commit hd₀ hc (hdb₁.symm ▸ hl)
        rw [← hsum] at hcommit
        rw [Txn.view, hw]
        exact hcommit
      refine ⟨.inr ⟨c, m, hnew⟩, ⟨fun c' m' h => ?_, .inr hlocks'⟩, Safe.pure ⟨rfl, hnew⟩⟩
      obtain ⟨rfl, rfl⟩ := h.same hd₀ hc
      exact hnew
    · exact not_fails (hu.aborted.trans hl.live)
  · rintro (⟨sh', a, hf⟩ | ⟨r, hr⟩)
    · exact not_fails hl.live ⟨sh', hf⟩
    · exact absurd rfl hr

end Commit

/-! ## One request -/

/-- The checkout had a snapshot from the start, or a request for it has been committed. -/
def HasSummary (req : SummaryRequest) (d₀ : Db) (t₀ : ℕ) (d : Db) : Prop :=
  (∃ c : CheckoutSession, c ∈ d₀ .checkoutSession ∧ req.finds c = true ∧ c.stored.isSome) ∨
    ∃ c m, SummedUp req d₀ t₀ c m d

/-- A request is answered as the first one would have been, or none can be answered. -/
def SummaryEnd (lib : Lib) (req : SummaryRequest) (d₀ : Db) (t₀ : ℕ) (r : Except (Exn AppErr) Reply) (d : Db) :
    Prop :=
  match r with
  | .ok reply => SummaryOf lib req d₀ t₀ reply ∧ HasSummary req d₀ t₀ d
  | .error _ => NoSummary lib req d₀ t₀

theorem SummaryEnd.seen {lib : Lib} {r : Except (Exn AppErr) Reply} (h : SummaryEnd lib req d₀ t₀ r sh.db)
    {w : World shop shopHost} {y : Unit} (hs : Seen (summaryProtocol req d₀ t₀ n) i l sh x w y) :
    SummaryEnd lib req d₀ t₀ r w.db := by
  cases r with
  | error e => exact h
  | ok reply => exact ⟨h.1, h.2.imp id fun ⟨c, m, hsum⟩ => ⟨c, m, hs.rely.1 c m hsum⟩⟩

theorem SummaryOf.method {lib : Lib} {reply : Reply} (h : SummaryOf lib req d₀ t₀ reply) :
    (parsePaymentMethod req.paymentMethod).isSome := by
  cases h with
  | stored hc hfound hitems hm => exact hm
  | taken hc hfound hitems hm => exact Option.isSome_iff_exists.mpr ⟨_, hm⟩

theorem SummedUp.summaryOf {lib : Lib} {c : CheckoutSession} {m : PaymentMethod} {d : Db}
    (h : SummedUp req d₀ t₀ c m d) :
    SummaryOf lib req d₀ t₀ (summaryReply lib (cartSnapshotItems d₀ req.userIdentifier) m req.checkoutId) :=
  .taken h.checkout h.found h.unstored h.method h.filled h.covered

/-- Without a snapshot from the start, an answer needs items that are available. -/
theorem noSummary_of_unstored {lib : Lib} (hd₀ : d₀.Wf) {c : CheckoutSession} (hc : c ∈ d₀ .checkoutSession)
    (hfound : req.finds c = true) (hunstored : c.stored = none)
    (h : cartSnapshotItems d₀ req.userIdentifier ≠ [] →
      ¬∀ it ∈ cartSnapshotItems d₀ req.userIdentifier, Covered d₀ t₀ it) : NoSummary lib req d₀ t₀ := by
  intro reply hsum
  cases hsum with
  | stored hc' hfound' hitems =>
    obtain rfl := finds_unique hd₀ hc hc' hfound hfound'
    rw [hunstored] at hitems
    cases hitems
  | taken hc' hfound' hitems hm hfilled hcovered => exact h hfilled hcovered

theorem CheckoutSession.stored_summarised (c : CheckoutSession) (m : PaymentMethod) {items : List SnapshotItem}
    (h : items ≠ []) : (c.summarised m items).stored = some (items, m) := by
  cases items with
  | nil => exact absurd rfl h
  | cons it items => rfl

/-- Found with a snapshot, the checkout answers for the request that took it. -/
theorem CheckoutRow.summaryOf {lib : Lib} {d : Db} {c : CheckoutSession} (h : CheckoutRow req d₀ t₀ d c)
    {items : List SnapshotItem} {m : PaymentMethod} (hstored : c.stored = some (items, m))
    (hm : (parsePaymentMethod req.paymentMethod).isSome) :
    SummaryOf lib req d₀ t₀ (summaryReply lib items m req.checkoutId) ∧ HasSummary req d₀ t₀ d := by
  rcases h with ⟨hc, hfound⟩ | ⟨c₀, m₀, hsum, rfl⟩
  · exact ⟨.stored hc hfound hstored hm, .inl ⟨c, hc, hfound, Option.isSome_iff_exists.mpr ⟨_, hstored⟩⟩⟩
  · rw [c₀.stored_summarised m₀ hsum.filled] at hstored
    cases hstored
    exact ⟨hsum.summaryOf, .inr ⟨c₀, _, hsum⟩⟩

/-- Found without a snapshot, the checkout is as it was. -/
theorem CheckoutRow.unstored {d : Db} {c : CheckoutSession} (h : CheckoutRow req d₀ t₀ d c)
    (hstored : c.stored = none) : c ∈ d₀ .checkoutSession ∧ req.finds c = true := by
  rcases h with h | ⟨c₀, m₀, hsum, rfl⟩
  · exact h
  · rw [c₀.stored_summarised m₀ hsum.filled] at hstored
    cases hstored

theorem reserveSnapshot_repeats (lib : Lib) (hd₀ : d₀.Wf) {c : CheckoutSession} {m : PaymentMethod}
    (hm : parsePaymentMethod req.paymentMethod = some m) (hc : c ∈ d₀ .checkoutSession) (hfound : req.finds c = true)
    (hunstored : c.stored = none) {cs : CheckoutDetails} (hid : cs.csId = c.id)
    (hexpires : cs.csExpiresAt = c.expiresAt) :
    Safe (summaryProtocol req d₀ t₀ n) (roomy req d₀ t₀) i (fun r sh' _ _ => SummaryEnd lib req d₀ t₀ r sh'.db)
      (reserveSnapshot lib req m cs) sh x {} := by
  apply Safe.bind
  refine captureCartSnapshot_repeats.mono fun r sh x l hr => ?_
  cases r with
  | error e => exact noSummary_of_unstored hd₀ hc hfound hunstored fun hfilled => absurd hr hfilled
  | ok cart =>
    obtain ⟨hitems, hl, hlocks⟩ := hr
    dsimp only
    rw [hitems]
    apply Safe.bind
    refine (validateItemsAvblty_repeats hd₀ hl hlocks).mono fun r sh x l' hr => ?_
    cases r with
    | error e => exact noSummary_of_unstored hd₀ hc hfound hunstored fun _ => hr
    | ok _ =>
      obtain ⟨rfl, hcovered⟩ := hr
      have hres : Reservable req d₀ t₀ c m := ⟨hm, hc, hfound, hunstored, hlocks.1, hcovered⟩
      dsimp only
      rw [hid, hexpires]
      apply Safe.bind
      refine (reserveInventory_repeats _ (fun _ h => h) hlocks (Filled.start c _ sh.db hl)).mono
        fun r sh x l hr => ?_
      cases r with
      | error e => exact hr.elim
      | ok _ =>
        obtain ⟨-, hlocks', hfilled⟩ := hr
        rw [List.append_nil] at hfilled
        refine (commitSummary_repeats _ hd₀ hres hlocks' hfilled).mono fun r sh x l hr => ?_
        cases r with
        | error e => exact hr.elim
        | ok reply =>
          obtain ⟨rfl, hsum⟩ := hr
          exact ⟨hsum.summaryOf, .inr ⟨c, m, hsum⟩⟩

theorem getOrderSummary_repeats (lib : Lib) (hd₀ : d₀.Wf) :
    Safe (summaryProtocol req d₀ t₀ n) (roomy req d₀ t₀) i (fun r sh' _ _ => SummaryEnd lib req d₀ t₀ r sh'.db)
      (getOrderSummary lib req) sh x {} := by
  rw [getOrderSummary]
  split
  · rename_i hnone
    refine Safe.raise fun reply hsum => ?_
    have hm := hsum.method
    rw [hnone] at hm
    cases hm
  rename_i m hm
  apply Safe.bind
  refine (getCheckoutDetails_repeats lib).mono fun r sh x l hr => ?_
  cases r with
  | error e => exact hr
  | ok cs =>
    obtain ⟨rfl, c, hrow, rfl⟩ := hr
    dsimp only
    split
    · rename_i it items payMethod hsnap hmethod
      apply Safe.pure
      apply hrow.summaryOf _ (Option.isSome_iff_exists.mpr ⟨m, hm⟩)
      simp only [CheckoutSession.stored, hsnap, hmethod]
    · rename_i hneither
      have hunstored : c.stored = none := by
        rw [CheckoutSession.stored]
        split
        · rename_i it items payMethod hsnap hmethod
          exact (hneither it items payMethod hsnap hmethod).elim
        · rfl
      obtain ⟨hc, hfound⟩ := hrow.unstored hunstored
      exact reserveSnapshot_repeats lib hd₀ hm hc hfound hunstored rfl rfl

end Requests

/-! ## Runs -/

/-- What is expected of the requests, all of them for one checkout. -/
structure SummaryLaw (req : SummaryRequest) (w : World shop shopHost)
    (s : Sys shop shopHost n (Except (Exn AppErr) Reply)) : Prop where
  same : ∀ i j reply r, s.outcome i = some (.ok reply) → s.outcome j = some r → r = .ok reply
  single : Repeated req w.db w.host.clock s.world.db
  taken : ∀ i reply, s.outcome i = some (.ok reply) → HasSummary req w.db w.host.clock s.world.db
  uncounted : ∀ t, Steady req w.db w.host.clock t → LeavesRoom req s.world.db t →
    ((∀ it ∈ cartSnapshotItems w.db req.userIdentifier, Covered s.world.db t it) ↔
      ∀ it ∈ cartSnapshotItems w.db req.userIdentifier, Covered w.db w.host.clock it)

theorem summary_idempotent (lib : Lib) (req : SummaryRequest) {w : World shop shopHost} (hw : w.Ok)
    {s : Sys shop shopHost n (Except (Exn AppErr) Reply)}
    (hrun : Sys.Run (roomy req w.db w.host.clock) History.none (summaryRequests lib (fun _ => req) w) () s ()) :
    SummaryLaw req w s := by
  have hstart : Repeated req w.db w.host.clock w.db := .inl rfl
  have hs := Sys.Run.inv (P := summaryProtocol req w.db w.host.clock n) hrun
    (Sys.inv_start (Q := fun _ r sh _ _ => ∀ r', r = .ok r' → SummaryEnd lib req w.db w.host.clock r' sh.db)
      hw hstart fun i => Safe.session ((getOrderSummary_repeats lib hw.wf).mono
        fun r sh x l hr w' y hs r' hr' => by cases hr'; exact hr.seen hs))
  have hends : ∀ i r, s.outcome i = some r → SummaryEnd lib req w.db w.host.clock r s.world.db := by
    intro i r hr
    obtain ⟨sh, y, hsafe, hseen⟩ := hs.seen i
    rw [Sys.prog_of_outcome hr] at hsafe
    exact SummaryEnd.seen (hsafe r rfl) hseen
  refine ⟨fun i j reply r hi hj => ?_, hs.inv, fun i reply hi => (hends i _ hi).2, fun t ht hroom => ?_⟩
  · have hfirst := (hends i _ hi).1
    have hother := hends j _ hj
    cases r with
    | error e => exact absurd hfirst (hother reply)
    | ok reply' => rw [SummaryOf.unique hw.wf hfirst hother.1]
  · exact Repeated.covered_iff hs.inv hw.wf hs.ok.world.wf ht ht hroom

instance (req : SummaryRequest) (d : Db) (t₀ t : ℕ) : Decidable (Steady req d t₀ t) :=
  inferInstanceAs (Decidable ((∀ c ∈ (d .checkoutSession : List CheckoutSession), c.publicId = req.checkoutId →
    t < c.expiresAt) ∧ ∀ r ∈ (d .inventoryReservation : List InventoryReservation), r.activeAt t = r.activeAt t₀))

instance (req : SummaryRequest) (d : Db) (t : ℕ) : Decidable (LeavesRoom req d t) :=
  inferInstanceAs (Decidable (∀ c ∈ (d .checkoutSession : List CheckoutSession), req.finds c = true →
    ∀ r ∈ (d .inventoryReservation : List InventoryReservation), r.checkoutId = c.id → r.activeAt t = true →
      ∀ it ∈ cartSnapshotItems d req.userIdentifier, Covered d t it))

instance (req : SummaryRequest) (d₀ : Db) (t₀ : ℕ) (i : Fin n) (sh : Shared shop shopHost) (l : Txn shop)
    (a : ShopAction) (c : Choice shopHost) : Decidable (roomy req d₀ t₀ i sh l a c) :=
  match c with
  | .fault => .isFalse And.left
  | .go | .host _ => match a with
    | .read _ => inferInstanceAs (Decidable (True ∧ Steady .. ∧
        (l.locks.any isProductLock = true → LeavesRoom req sh.db sh.host.clock)))
    | .lock .. | .lockSkip .. | .update .. | .insert .. | .tryLock _ | .commit | .rollback | .host _ =>
      inferInstanceAs (Decidable (True ∧ Steady .. ∧ True))

/-- The status with which request `i` was answered, or with which it was refused. -/
def statusAt (s : Sys shop shopHost n (Except (Exn AppErr) Reply)) (i : Fin n) : Option (Except ℕ ℕ) :=
  match s.outcome i with
  | some (.ok reply) => some (.ok reply.status)
  | some (.error (.app (.http status _))) => some (.error status)
  | _ => none

theorem ok_of_statusAt {s : Sys shop shopHost n (Except (Exn AppErr) Reply)} {i : Fin n} {status : ℕ}
    (h : statusAt s i = some (.ok status)) : ∃ reply, s.outcome i = some (.ok reply) := by
  rw [statusAt] at h
  split at h
  · exact ⟨_, by assumption⟩
  · cases h
  · cases h

theorem error_of_statusAt {s : Sys shop shopHost n (Except (Exn AppErr) Reply)} {i : Fin n} {status : ℕ}
    (h : statusAt s i = some (.error status)) : ∃ e, s.outcome i = some (.error e) := by
  rw [statusAt] at h
  split at h
  · cases h
  · exact ⟨_, by assumption⟩
  · cases h

/-- One piece of a product in the cart, and `stock` pieces of it. -/
def oneInCart (stock : ℤ) : World shop shopHost where
  db
    | .product => [⟨1, stock, 100⟩]
    | .cart => [⟨1, some 1, none⟩]
    | .cartItem => [⟨1, some 1, 1, 1⟩]
    | .checkoutSession => [⟨1, 11, 1, none, none, true, 100⟩]
    | _ => []
  host := ⟨0, 0, [], []⟩
  seq _ := 2

theorem oneInCart_ok (stock : ℤ) : (oneInCart stock).Ok :=
  ⟨Store.wf_of_pairwise fun t => by cases t <;> simp [oneInCart, rowId, rowKeys], fun t => by
    cases t <;> simp [oneInCart, rowId]⟩

abbrev upiSummary : SummaryRequest := ⟨1, 11, .str "UPI"⟩

def summaryTwice (stock : ℤ) : Sys shop shopHost 2 (Except (Exn AppErr) Reply) :=
  summaryRequests plainLib (fun _ => upiSummary) (oneInCart stock)

/-- Both requests find the checkout without a snapshot, then the first one is completed. -/
def firstOfTwo : List (Label shopHost 2) :=
  [.proc 0 .go, .proc 0 (.host .proceed), .proc 1 .go, .proc 1 (.host .proceed), .proc 0 .go, .proc 0 .go,
    .proc 0 (.host .proceed)] ++ .replicate 5 (.proc 0 .go)

/-- The second request takes `rest` steps after its `now`. -/
def secondOfTwo (rest : ℕ) : List (Label shopHost 2) :=
  [.proc 1 .go, .proc 1 .go, .proc 1 (.host .proceed)] ++ .replicate rest (.proc 1 .go)

theorem summary_idempotent_ample : ∃ s,
    Sys.Run (roomy upiSummary (oneInCart 5).db 0) History.none (summaryTwice 5) () s () ∧
      statusAt s 0 = some (.ok 200) ∧ statusAt s 1 = some (.ok 200) ∧ SummaryLaw upiSummary (oneInCart 5) s := by
  have hexec : ((summaryTwice 5).exec (roomy upiSummary (oneInCart 5).db 0) (firstOfTwo ++ secondOfTwo 5)).map
      (fun s => (statusAt s 0, statusAt s 1)) = some (some (.ok 200), some (.ok 200)) := by decide +kernel
  obtain ⟨s, hs, hstatus⟩ := Option.map_eq_some_iff.mp hexec
  obtain ⟨⟨⟩, hrun⟩ := Sys.run_of_exec History.none () hs
  obtain ⟨h0, h1⟩ := Prod.mk.injEq .. ▸ hstatus
  exact ⟨s, hrun, h0, h1, summary_idempotent plainLib upiSummary (oneInCart_ok 5) hrun⟩

/-- With one piece in stock the second check finds it reserved, by the first request. -/
theorem last_piece_refused : ∃ s, Sys.Reach (summaryTwice 1) s ∧
    statusAt s 0 = some (.ok 200) ∧ statusAt s 1 = some (.error 409) ∧ ¬SummaryLaw upiSummary (oneInCart 1) s := by
  have hexec : ((summaryTwice 1).exec (fun _ _ _ _ _ => True) (firstOfTwo ++ secondOfTwo 2)).map
      (fun s => (statusAt s 0, statusAt s 1)) = some (some (.ok 200), some (.error 409)) := by decide +kernel
  obtain ⟨s, hs, hstatus⟩ := Option.map_eq_some_iff.mp hexec
  obtain ⟨⟨⟩, hrun⟩ := Sys.run_of_exec History.none () hs
  obtain ⟨h0, h1⟩ := Prod.mk.injEq .. ▸ hstatus
  refine ⟨s, hrun, h0, h1, fun hlaw => ?_⟩
  obtain ⟨reply, hreply⟩ := ok_of_statusAt h0
  obtain ⟨e, herr⟩ := error_of_statusAt h1
  cases hlaw.same 0 1 reply _ hreply herr

end Phyllonix
