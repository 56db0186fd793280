import Phyllonix.ConfirmProtocol

/-!
# One secure-confirm request

The request keeps the protocol: it holds the lock of its checkout from the
validation to the commit of order and record, it commits no second order for a
record, and it stores the response in its own record only.
-/

namespace Phyllonix
open Relational
variable {n : ℕ}

/-- The exceptions with which a request reports a failure of the payment provider. -/
def PspFailed : Exn AppErr → Prop
  | .app (.http 502 _) => True
  | .app (.http 400 (.str s)) => "Payment attempts failed due to ".toList <+: s.toList
  | _ => False

theorem not_pspFailed (e : StatementError shopHost) : ¬PspFailed e.1 := by
  obtain ⟨e, he⟩ := e
  cases e with
  | app a => exact absurd rfl (he a)
  | fault | inFailedTransaction | integrity => exact id

section Requests
variable {lib : Lib} {reqs : Fin n → ConfirmRequest} {strict : Prop} {d₀ : Db}
variable {G : Guard shop shopHost n} {i : Fin n}
variable {sh : Shared shop shopHost} {x : ℕ → Option (Fin n)} {l : Txn shop}

/-- No exception comes from the payment provider. -/
def beforePsp {P : Protocol shop shopHost n} {α : Type}
    (Q : α → Shared shop shopHost → P.Val → Txn shop → Prop) : Post P α
  | .ok a, sh, x, l => Q a sh x l
  | .error e, _, _, _ => ¬PspFailed e

theorem beforePsp_onError {P : Protocol shop shopHost n} {x : P.Val} {α : Type}
    (Q : α → Shared shop shopHost → P.Val → Txn shop → Prop) :
    OnError (beforePsp Q) i sh x l := fun _ _ _ e _ _ => not_pspFailed e

/-! ## Commits without a new record -/

/-- The pending writes leave orders and items alone, and change records only in what
they may change. -/
structure Late (req : ConfirmRequest) (d₀ : Db) (i : Fin n) (l : Txn shop) (d : Db)
    (x : ℕ → Option (Fin n)) : Prop where
  checkouts : ∀ c, ((l.view d).get .checkoutSession c).map CheckoutSession.fixed =
    (d.get .checkoutSession c).map CheckoutSession.fixed
  orders : l.view d .orders = d .orders
  items : l.view d .orderItem = d .orderItem
  kept : IkKept d (l.view d)
  rows : ∀ id, ((l.view d).get .idempotencyKey id).isSome = (d.get .idempotencyKey id).isSome
  others : ∀ id j, x id = some j → j ≠ i →
    (l.view d).get .idempotencyKey id = d.get .idempotencyKey id
  presents : SameOrders d (l.view d) ∨ OwnKey d₀ req d

theorem Late.back {req : ConfirmRequest} {d : Db} (h : Late req d₀ i l d x) {id : ℕ}
    {k' : IdempotencyKey} (hk' : (l.view d).get .idempotencyKey id = some k') :
    ∃ k, d.get .idempotencyKey id = some k ∧ IkGrows k k' := by
  have hsome := h.rows id
  rw [hk'] at hsome
  obtain ⟨k, hk⟩ := Option.isSome_iff_exists.mp hsome.symm
  obtain ⟨k₁, hk₁, hgrows⟩ := h.kept id k hk
  obtain rfl := Option.some.inj (hk₁.symm.trans hk')
  exact ⟨k, hk, hgrows⟩

theorem Late.inv {req : ConfirmRequest} {d : Db} (h : Late req d₀ i l d x)
    (hinv : ConfirmInv lib strict d₀ d x) : ConfirmInv lib strict d₀ (l.view d) x := by
  refine ⟨fun c => (h.checkouts c).trans (hinv.checkouts c), fun id k' hk' => ?_, fun o ho => ?_,
    fun it hit => ?_, fun id j hx => ?_, fun hstrict id id' k k' hk hk' hcs => ?_⟩
  · obtain ⟨k, hk, -⟩ := h.back hk'
    rw [h.orders]
    exact hinv.ordered id k hk
  · rw [h.orders] at ho
    obtain ⟨k, hk, huser, items, m, pub, hchosen, hcharged, hcopies⟩ := hinv.built o ho
    obtain ⟨k', hk', hgrows⟩ := h.kept _ _ hk
    refine ⟨k', hk', by rw [huser, hgrows.createdBy], items, m, pub, ?_, hcharged, ?_⟩
    · rw [hgrows.csId, hgrows.createdBy]
      exact hchosen
    · rw [orderItems, h.items]
      exact hcopies
  · rw [h.items] at hit
    have hsome := hinv.items it hit
    rwa [Store.get, h.orders]
  · rw [h.rows]
    exact hinv.owned id j hx
  · obtain ⟨k₁, hk₁, hg⟩ := h.back hk
    obtain ⟨k₁', hk₁', hg'⟩ := h.back hk'
    exact hinv.single hstrict id id' k₁ k₁' hk₁ hk₁' (by rw [← hg.csId, ← hg'.csId, hcs])

theorem Late.guar {req : ConfirmRequest} {d : Db} (h : Late req d₀ i l d x) :
    ConfirmGuar d₀ req i l d (l.view d) x := by
  refine ⟨h.kept, h.others, fun id k hnone hk => ?_, h.presents⟩
  obtain ⟨k', hk', -⟩ := h.back hk
  rw [hnone] at hk'
  cases hk'

theorem safe_lateCommit {Q : Post (confirmProtocol lib reqs strict d₀) Unit}
    (h : ∀ (w : World shop shopHost) y, Seen (confirmProtocol lib reqs strict d₀) i l sh x w y →
      Late (reqs i) d₀ i l w.db y ∧ Q (.ok ()) ⟨l.view w.db, w.host⟩ y l.committed)
    (he : OnError Q i sh x l) :
    Safe (confirmProtocol lib reqs strict d₀) G i Q commit sh x l := by
  refine Safe.commit (fun w y hs _ => ?_) fun _ => he
  obtain ⟨hlate, hq⟩ := h w y hs
  have hnext : (recorders n).next i w.toShared ⟨l.view w.db, w.host⟩ y = y :=
    recorders_same _ _ _ _ hlate.rows
  change ConfirmInv lib strict d₀ (l.view w.db) ((recorders n).next i w.toShared _ y) ∧
    ConfirmGuar d₀ (reqs i) i l w.db (l.view w.db) y ∧ Q _ _ ((recorders n).next i w.toShared _ y) _
  rw [hnext]
  exact ⟨hlate.inv hs.inv, hlate.guar, hq⟩

/-! ## Own records -/

/-- The records that the request committed, as they are. -/
def Mine (i : Fin n) (own : List IdempotencyKey) (d : Db) (x : ℕ → Option (Fin n)) : Prop :=
  ∀ k ∈ own, x k.id = some i ∧ d.get .idempotencyKey k.id = some k

theorem Mine.seen {own : List IdempotencyKey} (h : Mine i own sh.db x) {w : World shop shopHost}
    {y : ℕ → Option (Fin n)} (hs : Seen (confirmProtocol lib reqs strict d₀) i l sh x w y) :
    Mine i own w.db y := by
  intro k hk
  obtain ⟨hx, hget⟩ := h k hk
  obtain ⟨hy, hsame⟩ := hs.rely.own k.id hx
  exact ⟨hy, hsame.trans hget⟩

/-- The writes set whether one checkout is active. -/
def SetsActive (d : Db) (ws : List (Write shop)) : Prop :=
  ws = [] ∨ ∃ (c : CheckoutSession) (b : Bool), d.get .checkoutSession c.id = some c ∧
    ws = [⟨.checkoutSession, { c with isActive := b }⟩]

theorem SetsActive.view {d : Db} (h : SetsActive d l.writes) {t : Table} (ht : t ≠ .checkoutSession) :
    l.view d t = d t := by
  rcases h with hw | ⟨c, b, -, hw⟩ <;> rw [Txn.view, hw]
  · rfl
  · exact Store.put_of_ne (S := shop) d _ ht

theorem SetsActive.late {req : ConfirmRequest} {d : Db} (h : SetsActive d l.writes) :
    Late req d₀ i l d x := by
  have hik : ∀ id, (l.view d).get .idempotencyKey id = d.get .idempotencyKey id := fun id => by
    rw [Store.get, h.view (by decide)]
    rfl
  refine ⟨fun k => ?_, h.view (by decide), h.view (by decide),
    fun id k hk => ⟨k, (hik id).trans hk, .refl k⟩, fun id => by rw [hik], fun id j _ _ => hik id,
    .inl fun t ht => h.view ?_⟩
  · rcases h with hw | ⟨c, b, hc, hw⟩ <;> rw [Txn.view, hw]
    · rfl
    · by_cases hk : k = c.id
      · subst hk
        have hput : (d.put .checkoutSession { c with isActive := b }).get .checkoutSession c.id =
            some { c with isActive := b } := Store.get_put_self d .checkoutSession _
        rw [hc]
        exact Eq.trans (congrArg (Option.map CheckoutSession.fixed) hput) rfl
      · exact congrArg (Option.map CheckoutSession.fixed)
          (Store.get_put_of_ne (S := shop) d (t := .checkoutSession) _ fun he => hk he.2)
  · rintro rfl
    simp at ht

theorem updateCheckoutActiveness_confirm (csId : ℕ) (active : Bool) {own : List IdempotencyKey}
    (hl : l.writes = []) (hmine : Mine i own sh.db x) :
    Safe (confirmProtocol lib reqs strict d₀) G i (beforePsp fun _ sh x l' =>
        Mine i own sh.db x ∧ l'.writes = []) (updateCheckoutActiveness csId active) sh x l := by
  refine Safe.bind (safe_updateOne (fun w y hs l' hu => ?_) fun _ => beforePsp_onError _)
  have hmine₁ : Mine i own w.db y := hmine.seen hs
  have hsets : SetsActive w.db l'.writes := by
    have hview : l.view w.db = w.db := Txn.view_of_no_writes hl _
    cases hc : (l.view w.db).get .checkoutSession csId with
    | none => exact .inl ((updated_none hu hc).trans hl)
    | some c =>
      have hid : c.id = csId := Store.id_of_get hc
      rw [hview] at hc
      exact .inr ⟨c, active, hid ▸ hc, by rw [(updated_one hu (hview ▸ hc)).1, hl]⟩
  refine safe_lateCommit (fun w₁ y₁ hs₁ => ?_) (beforePsp_onError _)
  have hsets₁ : SetsActive w₁.db l'.writes := by
    rcases hsets with hw | ⟨c, b, hc, hw⟩
    · exact .inl hw
    · refine .inr ⟨c, b, ?_, hw⟩
      have hlock := hs₁.ok.locked ⟨.checkoutSession, { c with isActive := b }⟩ (hw ▸ List.mem_cons_self)
      exact (hs₁.still.row _ _ hlock).trans hc
  refine ⟨hsets₁.late, fun k hk => ?_, rfl⟩
  obtain ⟨hy, hget⟩ := (hmine₁.seen hs₁) k hk
  refine ⟨hy, ?_⟩
  rw [← hget, Store.get, Store.get]
  exact congrArg _ (hsets₁.view (by decide))

/-! ## Validation -/

/-- The request holds its checkout; in a strict run the records of the checkout are under
its own key. -/
structure Holding (strict : Prop) (req : ConfirmRequest) (csId : ℕ) (d : Db) (l : Txn shop) :
    Prop where
  locked : Lock.row Table.checkoutSession csId ∈ l.locks
  alone : strict → ∀ id k, d.get .idempotencyKey id = some k → k.csId = csId →
    k.key = req.idempotencyKey

/-- So it stands before it writes. -/
structure Ready (strict : Prop) (req : ConfirmRequest) (csId : ℕ) (d : Db) (l : Txn shop) : Prop
    extends Holding strict req csId d l where
  nothing : l.writes = []

theorem Holding.seen {req : ConfirmRequest} {csId : ℕ} (h : Holding strict req csId sh.db l)
    {w : World shop shopHost} {y : ℕ → Option (Fin n)}
    (hs : Seen (confirmProtocol lib reqs strict d₀) i l sh x w y) :
    Holding strict req csId w.db l := by
  refine ⟨h.locked, fun hstrict id k hk hcs => ?_⟩
  obtain ⟨k', hk'⟩ := Option.isSome_iff_exists.mp (hs.rely.locked csId h.locked id k hk hcs)
  obtain ⟨k₁, hk₁, hgrows⟩ := hs.rely.kept id k' hk'
  obtain rfl := Option.some.inj (hk₁.symm.trans hk)
  rw [hgrows.key]
  exact h.alone hstrict id k' hk' (hgrows.csId.symm.trans hcs)

theorem Holding.more {req : ConfirmRequest} {csId : ℕ} {d : Db} {l' : Txn shop}
    (h : Holding strict req csId d l) (hl : ∀ y ∈ l.locks, y ∈ l'.locks) :
    Holding strict req csId d l' := ⟨hl _ h.locked, h.alone⟩

theorem Ready.seen {req : ConfirmRequest} {csId : ℕ} (h : Ready strict req csId sh.db l)
    {w : World shop shopHost} {y : ℕ → Option (Fin n)}
    (hs : Seen (confirmProtocol lib reqs strict d₀) i l sh x w y) :
    Ready strict req csId w.db l := ⟨h.toHolding.seen hs, h.nothing⟩

/-- In a strict run, a request that finds a checkout finds no record of it under another key. -/
def ChecksKey (strict : Prop) (reqs : Fin n → ConfirmRequest) (G : Guard shop shopHost n)
    (i : Fin n) : Prop :=
  strict → ∀ sh l (p : CheckoutSession → Bool) c, G i sh l (.lock Table.checkoutSession p) c →
    ∀ r : CheckoutSession, r ∈ sh.db .checkoutSession → p r = true →
      ∀ k : IdempotencyKey, k ∈ sh.db .idempotencyKey → k.csId = r.id →
        k.key = (reqs i).idempotencyKey

theorem chosen_of_row {d : Db} {c : CheckoutSession} {items : List SnapshotItem} {m : PaymentMethod}
    (hinv : ConfirmInv lib strict d₀ d x) (hc : d.get .checkoutSession c.id = some c)
    (hitems : c.cartSnapshot = some items) (hne : items ≠ [])
    (hm : c.selectedPaymentMethod = some m) : Chosen d₀ c.id c.userId items m c.publicId := by
  have hfixed := hinv.checkouts c.id
  rw [hc] at hfixed
  obtain ⟨c₀, hc₀, he⟩ := Option.map_eq_some_iff.mp hfixed.symm
  simp only [CheckoutSession.fixed, CheckoutSession.mk.injEq] at he
  obtain ⟨-, hpub, huser, hsnap, hpay, -⟩ := he
  exact ⟨⟨c₀, hc₀, huser, hpub, hsnap.trans hitems, hpay.trans hm⟩, hne⟩

theorem validate_safe (hG : ChecksKey strict reqs G i) :
    Safe (confirmProtocol lib reqs strict d₀) G i (beforePsp fun v sh _ l' =>
        Ready strict (reqs i) v.1 sh.db l' ∧
        Chosen d₀ v.1 (reqs i).userIdentifier v.2.1 v.2.2 (reqs i).checkoutId)
      (validateCheckoutGetItemsPaymethod (reqs i).checkoutId (reqs i).userIdentifier) sh x {} := by
  refine Safe.bind (Safe.lock (fun w y hs hg => ?_) fun _ => beforePsp_onError _)
  have hview : ({} : Txn shop).view w.db = w.db := rfl
  rw [hview]
  refine Safe.bind (safe_oneOrNone (fun _ => Safe.raise id) (fun cs hcs => ?_) id)
  have hmem : cs ∈ (w.db .checkoutSession).filter fun c : CheckoutSession =>
      c.userId = (reqs i).userIdentifier && c.isActive && c.publicId = (reqs i).checkoutId :=
    hcs ▸ List.mem_cons_self
  obtain ⟨hrow, hp⟩ := List.mem_filter.mp hmem
  obtain ⟨⟨huser, -⟩, hpub⟩ := by simpa only [Bool.and_eq_true, decide_eq_true_eq] using hp
  obtain ⟨c, hg⟩ := hg
  have hready : Ready strict (reqs i) cs.id w.db (({} : Txn shop).acquire
      (((w.db .checkoutSession).filter fun c : CheckoutSession =>
        c.userId = (reqs i).userIdentifier && c.isActive && c.publicId = (reqs i).checkoutId).map
          fun c : CheckoutSession => Lock.row (S := shop) Table.checkoutSession c.id)) := by
    refine ⟨⟨List.mem_append_left _ (List.mem_map_of_mem hmem), fun hstrict id k hk hkcs => ?_⟩, rfl⟩
    exact hG hstrict _ _ _ c hg cs hrow hp k (Store.mem_of_get hk) hkcs
  have hget : w.db.get .checkoutSession cs.id = some cs := Store.get_of_mem hs.world.wf.ids hrow
  have hinv : ConfirmInv lib strict d₀ w.db y := hs.inv
  refine Safe.bind (safe_now (confirm_quiet lib reqs strict d₀) fun w₁ y₁ hs₁ => ?_)
  have hready₁ := hready.seen hs₁
  simp only
  split
  · have hnone : Mine i [] w₁.db y₁ := fun k hk => by cases hk
    refine Safe.bind ((updateCheckoutActiveness_confirm _ _ rfl hnone).mono fun r sh x l hr => ?_)
    cases r with
    | error e => exact hr
    | ok _ => exact Safe.raise id
  · split
    · exact Safe.raise id
    · rename_i m hm
      cases hitems : cs.cartSnapshot.getD [] with
      | nil => exact Safe.raise id
      | cons it items =>
        have hsnap : cs.cartSnapshot = some (it :: items) := by
          cases hcart : cs.cartSnapshot with
          | none =>
            rw [hcart] at hitems
            cases hitems
          | some its =>
            rw [hcart] at hitems
            exact congrArg some hitems
        have hchosen := chosen_of_row hinv hget hsnap (by simp) hm
        rw [huser, hpub] at hchosen
        exact Safe.pure ⟨hready₁, hchosen⟩

/-! ## Reading the record -/

/-- A committed record under the key and of the user of the request. -/
structure Found (req : ConfirmRequest) (d : Db) (k : IdempotencyKey) : Prop where
  row : d.get .idempotencyKey k.id = some k
  key : k.key = req.idempotencyKey
  user : k.createdBy = req.userIdentifier

/-- The lookup returned an earlier version of the record `k`. -/
structure ReadFrom (r : OrderDataByIk) (k : IdempotencyKey) : Prop where
  ikId : r.ikId = k.id
  csId : r.csId = k.csId
  response : r.responseBody.isSome → k.responseBody = r.responseBody ∧ k.responseCode = r.responseCode

theorem Found.kept {req : ConfirmRequest} {d d' : Db} {k : IdempotencyKey} {r : OrderDataByIk}
    (h : Found req d k) (hr : ReadFrom r k) (hkept : IkKept d d') :
    ∃ k', Found req d' k' ∧ ReadFrom r k' := by
  obtain ⟨k', hk', hgrows⟩ := hkept k.id k h.row
  have hid : k'.id = k.id := Store.id_of_get hk'
  refine ⟨k', ⟨by rwa [hid], hgrows.key.trans h.key, hgrows.createdBy.trans h.user⟩,
    hr.ikId.trans hid.symm, hr.csId.trans hgrows.csId.symm, fun hsome => ?_⟩
  obtain ⟨hb, hc⟩ := hr.response hsome
  obtain ⟨hb', hc'⟩ := hgrows.response (by rwa [hb])
  exact ⟨hb'.trans hb, hc'.trans hc⟩

theorem spcByIkey_safe {csId : ℕ} (hready : Ready strict (reqs i) csId sh.db l) :
    Safe (confirmProtocol lib reqs strict d₀) G i (beforePsp fun o sh _ l' =>
        Ready strict (reqs i) csId sh.db l' ∧
        ∀ r, o = some r → ∃ k, Found (reqs i) sh.db k ∧ ReadFrom r k)
      (spcByIkey (reqs i).idempotencyKey (reqs i).userIdentifier) sh x l := by
  refine Safe.bind (Safe.read (fun w y hs => ?_) fun _ => beforePsp_onError _)
  have hview : l.view w.db = w.db := Txn.view_of_no_writes hready.nothing _
  have hready₁ := hready.seen hs
  rw [hview]
  refine Safe.bind (safe_oneOrNone (fun _ => Safe.pure ⟨hready₁, fun d hd => by cases hd⟩)
    (fun k hk => ?_) id)
  have hmem : k ∈ (w.db .idempotencyKey).filter fun k : IdempotencyKey =>
      k.key = (reqs i).idempotencyKey && k.createdBy = (reqs i).userIdentifier :=
    hk ▸ List.mem_cons_self
  obtain ⟨hrow, hp⟩ := List.mem_filter.mp hmem
  obtain ⟨hkey, huser⟩ := by simpa only [Bool.and_eq_true, decide_eq_true_eq] using hp
  have hfound : Found (reqs i) w.db k := ⟨Store.get_of_mem hs.world.wf.ids hrow, hkey, huser⟩
  refine Safe.bind (safe_now (confirm_quiet lib reqs strict d₀) fun w₁ y₁ hs₁ => ?_)
  have hready₂ := hready₁.seen hs₁
  have hread : ReadFrom ⟨k.responseBody, k.responseCode, k.id, k.csId⟩ k :=
    ⟨rfl, rfl, fun _ => ⟨rfl, rfl⟩⟩
  obtain ⟨k₁, hfound₁, hread₁⟩ := hfound.kept hread hs₁.rely.kept
  simp only
  split
  · exact Safe.raise id
  · split
    · exact Safe.raise id
    · refine Safe.pure ⟨hready₂, fun r hr => ?_⟩
      cases hr
      exact ⟨k₁, hfound₁, hread₁⟩

/-! ## Recording the order -/

/-- The pending writes of a request that records the order `o` under the record `k`. -/
structure Draft (lib : Lib) (req : ConfirmRequest) (items : List SnapshotItem) (m : PaymentMethod)
    (k : IdempotencyKey) (o : Orders) (its : List OrderItem) (d : Db) (l : Txn shop) : Prop where
  inserts : Inserts (fun t => t = Table.orders ∨ t = Table.orderItem) l.writes d
  order : written Table.orders l.writes = [o]
  lines : written Table.orderItem l.writes = its
  checkouts : ∀ w ∈ l.writes, w.tbl ≠ Table.checkoutSession
  record : (l.view d).get .idempotencyKey k.id = some k
  fresh : d.get .idempotencyKey k.id = none
  alone : ∀ id, id ≠ k.id → ¬Written l.writes Table.idempotencyKey id
  locked : Lock.row Table.idempotencyKey k.id ∈ l.locks
  ikId : o.ikId = k.id
  user : o.userId = some req.userIdentifier
  charged : Charged lib o items m
  ofOrder : ∀ it ∈ its, it.orderId = o.id

/-- The record of the request, before it has a response. -/
structure NewRecord (req : ConfirmRequest) (csId : ℕ) (k : IdempotencyKey) : Prop where
  key : k.key = req.idempotencyKey
  user : k.createdBy = req.userIdentifier
  checkout : k.csId = csId
  unanswered : k.responseBody = none

section Draft
variable {items : List SnapshotItem} {m : PaymentMethod} {k : IdempotencyKey} {o : Orders}
variable {its : List OrderItem} {csId : ℕ}

theorem Draft.seen (h : Draft lib (reqs i) items m k o its sh.db l) {w : World shop shopHost}
    {y : ℕ → Option (Fin n)} (hs : Seen (confirmProtocol lib reqs strict d₀) i l sh x w y) :
    Draft lib (reqs i) items m k o its w.db l :=
  ⟨h.inserts.congr fun v hv => hs.still.row _ _ (hs.ok.locked v hv), h.order, h.lines, h.checkouts,
    (hs.still.get_view h.locked).trans h.record, (hs.still.row _ _ h.locked).trans h.fresh, h.alone,
    h.locked, h.ikId, h.user, h.charged, h.ofOrder⟩

theorem Draft.view_orders {d : Db} (h : Draft lib (reqs i) items m k o its d l) :
    l.view d .orders = d .orders ++ [o] := by
  rw [Txn.view, applyWrites_written h.inserts (.inl rfl), h.order]

theorem Draft.view_record {d : Db} (h : Draft lib (reqs i) items m k o its d l) {id : ℕ}
    (hid : id ≠ k.id) : (l.view d).get .idempotencyKey id = d.get .idempotencyKey id :=
  get_applyWrites_of_not_written (h.alone id hid) d

/-- The items of an order are those that it had, or those of the draft. -/
theorem Draft.view_items {d : Db} (h : Draft lib (reqs i) items m k o its d l) (q : ℕ) :
    orderItems (l.view d) q = orderItems d q ++ if q = o.id then its else [] := by
  have hview : l.view d .orderItem = d .orderItem ++ its := by
    rw [Txn.view, applyWrites_written h.inserts (.inr rfl), h.lines]
  rw [orderItems, hview, List.filter_append, orderItems]
  congr 1
  split
  · rename_i hq
    exact List.filter_eq_self.mpr fun it hit => by simp [h.ofOrder it hit, hq]
  · rename_i hq
    exact List.filter_eq_nil_iff.mpr fun it hit => by simp [h.ofOrder it hit, Ne.symm hq]

theorem Draft.order_fresh {d : Db} (h : Draft lib (reqs i) items m k o its d l)
    (hv : (l.view d).Wf) : ∀ o' : Orders, o' ∈ d .orders → o'.id ≠ o.id := by
  have hnd := hv.ids .orders
  rw [h.view_orders, List.map_append] at hnd
  intro o' ho' he
  have hmem : o'.id ∈ List.map (shop.id (t := Table.orders)) [o] := List.mem_singleton.mpr he
  exact (List.nodup_append.mp hnd).2.2 _ (List.mem_map_of_mem ho') _ hmem rfl

/-- An order of the store keeps its record and its items. -/
theorem Draft.built_old {d : Db} {y : ℕ → Option (Fin n)} (h : Draft lib (reqs i) items m k o its d l)
    (hinv : ConfirmInv lib strict d₀ d y) (hv : (l.view d).Wf) {o' : Orders} (ho' : o' ∈ d .orders) :
    ∃ k', (l.view d).get .idempotencyKey o'.ikId = some k' ∧ BuiltFrom lib d₀ (l.view d) k' o' := by
  obtain ⟨k', hk', huser, items', m', pub, hchosen, hcharged, hcopies⟩ := hinv.built o' ho'
  have hid : o'.ikId ≠ k.id := fun he => by
    rw [he, h.fresh] at hk'
    cases hk'
  have hitems : orderItems (l.view d) o'.id = orderItems d o'.id := by
    rw [h.view_items, if_neg (h.order_fresh hv o' ho'), List.append_nil]
  exact ⟨k', (h.view_record hid).trans hk', huser, items', m', pub, hchosen, hcharged,
    by rwa [hitems]⟩

theorem Draft.built_new {d : Db} {y : ℕ → Option (Fin n)} (h : Draft lib (reqs i) items m k o its d l)
    (hinv : ConfirmInv lib strict d₀ d y) (hv : (l.view d).Wf) (hnew : NewRecord (reqs i) csId k)
    (hchosen : Chosen d₀ csId (reqs i).userIdentifier items m (reqs i).checkoutId)
    (hcopies : Copies its items) : BuiltFrom lib d₀ (l.view d) k o := by
  have hnone : orderItems d o.id = [] := by
    refine List.filter_eq_nil_iff.mpr fun it hit => ?_
    obtain ⟨o', ho'⟩ := Option.isSome_iff_exists.mp (hinv.items it hit)
    have hid : o'.id = it.orderId := Store.id_of_get ho'
    have hne := h.order_fresh hv o' (Store.mem_of_get ho')
    simpa [← hid] using hne
  have hitems : orderItems (l.view d) o.id = its := by
    rw [h.view_items, if_pos rfl, hnone, List.nil_append]
  refine ⟨by rw [h.user, hnew.user], items, m, (reqs i).checkoutId, ?_, h.charged, by rwa [hitems]⟩
  rw [hnew.checkout, hnew.user]
  exact hchosen

theorem Draft.inv {d : Db} {y : ℕ → Option (Fin n)} (h : Draft lib (reqs i) items m k o its d l)
    (hinv : ConfirmInv lib strict d₀ d y) (hv : (l.view d).Wf) (hnew : NewRecord (reqs i) csId k)
    (hchosen : Chosen d₀ csId (reqs i).userIdentifier items m (reqs i).checkoutId)
    (hcopies : Copies its items) (hkey : ∀ id k', d.get .idempotencyKey id = some k' →
      k'.key ≠ (reqs i).idempotencyKey)
    (halone : strict → ∀ id k', d.get .idempotencyKey id = some k' → k'.csId = csId →
      k'.key = (reqs i).idempotencyKey) :
    ConfirmInv lib strict d₀ (l.view d) fun id => if id = k.id then some i else y id := by
  have hother : strict → ∀ id k', d.get .idempotencyKey id = some k' → k'.csId ≠ k.csId :=
    fun hstrict id k' hk' he =>
      hkey id k' hk' (halone hstrict id k' hk' (he.trans hnew.checkout))
  have hrecords : ∀ id k', (l.view d).get .idempotencyKey id = some k' →
      (id = k.id ∧ k' = k) ∨ d.get .idempotencyKey id = some k' := fun id k' hk' => by
    by_cases hid : id = k.id
    · subst hid
      exact .inl ⟨rfl, Option.some.inj (hk'.symm.trans h.record)⟩
    · exact .inr ((h.view_record hid).symm.trans hk')
  refine ⟨fun c => ?_, fun id k' hk' => ?_, fun o' ho' => ?_, fun it hit => ?_, fun id j hj => ?_,
    fun hstrict id id' k₁ k₂ hk₁ hk₂ hcs => ?_⟩
  · have hcheckouts : l.view d .checkoutSession = d .checkoutSession :=
      applyWrites_of_untouched h.checkouts
    rw [Store.get, hcheckouts]
    exact hinv.checkouts c
  · rw [h.view_orders]
    rcases hrecords id k' hk' with ⟨rfl, rfl⟩ | hd
    · exact ⟨o, by simp, h.ikId⟩
    · obtain ⟨o', ho', hik⟩ := hinv.ordered id k' hd
      exact ⟨o', List.mem_append_left _ ho', hik⟩
  · rw [h.view_orders] at ho'
    rcases List.mem_append.mp ho' with ho' | ho'
    · exact h.built_old hinv hv ho'
    · obtain rfl := List.mem_singleton.mp ho'
      exact ⟨k, by rw [h.ikId]; exact h.record, h.built_new hinv hv hnew hchosen hcopies⟩
  · have hview : l.view d .orderItem = d .orderItem ++ its := by
      rw [Txn.view, applyWrites_written h.inserts (.inr rfl), h.lines]
    rw [hview] at hit
    rcases List.mem_append.mp hit with hit | hit
    · exact Sys.isSome_get_applyWrites (hinv.items it hit) _
    · have ho : o ∈ l.view d .orders := by rw [h.view_orders]; simp
      rw [h.ofOrder it hit]
      have hget : (l.view d).get .orders o.id = some o := Store.get_of_mem hv.ids ho
      rw [hget]
      rfl
  · by_cases hid : id = k.id
    · rw [hid, h.record]
      rfl
    · rw [if_neg hid] at hj
      rw [h.view_record hid]
      exact hinv.owned id j hj
  · rcases hrecords id k₁ hk₁ with ⟨rfl, rfl⟩ | hd₁ <;> rcases hrecords id' k₂ hk₂ with ⟨rfl, rfl⟩ | hd₂
    · rfl
    · exact absurd hcs.symm (hother hstrict _ _ hd₂)
    · exact absurd hcs (hother hstrict _ _ hd₁)
    · exact hinv.single hstrict id id' k₁ k₂ hd₁ hd₂ hcs

theorem Draft.key_fresh {d : Db} (h : Draft lib (reqs i) items m k o its d l) (hv : (l.view d).Wf)
    (hnew : NewRecord (reqs i) csId k) : ∀ id k', d.get .idempotencyKey id = some k' →
      k'.key ≠ (reqs i).idempotencyKey := by
  intro id k' hk' he
  have hid : id ≠ k.id := fun hid => by
    rw [hid, h.fresh] at hk'
    cases hk'
  have hview := (h.view_record hid).trans hk'
  have hkey : IndexKey.key k'.key = .key k.key := by rw [he, hnew.key]
  have hsame : id = k.id := hv.unique ⟨k', hview, List.mem_singleton.mpr rfl⟩
    ⟨k, h.record, List.mem_singleton.mpr hkey⟩
  exact hid hsame

theorem Draft.next {w : World shop shopHost} {y : ℕ → Option (Fin n)}
    (h : Draft lib (reqs i) items m k o its w.db l) :
    (recorders n).next i w.toShared ⟨l.view w.db, w.host⟩ y =
      fun id => if id = k.id then some i else y id := by
  funext id
  by_cases hid : id = k.id
  · subst hid
    have hnew : (w.db.get .idempotencyKey k.id).isNone ∧
        ((l.view w.db).get .idempotencyKey k.id).isSome := by
      rw [h.fresh, h.record]
      exact ⟨rfl, rfl⟩
    exact (if_pos hnew).trans (if_pos rfl).symm
  · refine Eq.trans (if_neg fun hc => ?_) (if_neg hid).symm
    simp only [h.view_record hid] at hc
    cases hg : w.db.get .idempotencyKey id <;> simp [hg] at hc

theorem Draft.guar {d : Db} {y : ℕ → Option (Fin n)} (h : Draft lib (reqs i) items m k o its d l)
    (hinv : ConfirmInv lib strict d₀ d y) (hv : (l.view d).Wf) (hnew : NewRecord (reqs i) csId k)
    (hheld : Lock.row Table.checkoutSession csId ∈ l.locks) :
    ConfirmGuar d₀ (reqs i) i l d (l.view d) y := by
  refine ⟨fun id k' hk' => ?_, fun id j hj _ => ?_, fun id k' hnone hk' => ?_, .inr ?_⟩
  · have hid : id ≠ k.id := fun hid => by
      rw [hid, h.fresh] at hk'
      cases hk'
    exact ⟨k', (h.view_record hid).trans hk', .refl k'⟩
  · have hsome := hinv.owned id j hj
    have hid : id ≠ k.id := fun hid => by
      rw [hid, h.fresh] at hsome
      cases hsome
    exact h.view_record hid
  · by_cases hid : id = k.id
    · rw [hid, h.record] at hk'
      cases hk'
      rwa [hnew.checkout]
    · rw [h.view_record hid, hnone] at hk'
      cases hk'
  · intro id k' hk' hkey
    exact absurd hkey (h.key_fresh hv hnew id k' hk')

theorem Draft.safe_commit {Q : Post (confirmProtocol lib reqs strict d₀) Unit}
    (h : Draft lib (reqs i) items m k o its sh.db l) (hnew : NewRecord (reqs i) csId k)
    (hheld : Holding strict (reqs i) csId sh.db l)
    (hchosen : Chosen d₀ csId (reqs i).userIdentifier items m (reqs i).checkoutId)
    (hcopies : Copies its items)
    (hq : ∀ (w : World shop shopHost) y, Mine i [k] w.db y →
      Q (.ok ()) w.toShared y l.committed) (he : OnError Q i sh x l) :
    Safe (confirmProtocol lib reqs strict d₀) G i Q commit sh x l := by
  refine Safe.commit (fun w y hs _ => ?_) fun _ => he
  have hdraft := h.seen hs
  have hheld₁ := hheld.seen hs
  have hv : (l.view w.db).Wf := hs.ok.wf
  have hnext := hdraft.next (y := y)
  change ConfirmInv lib strict d₀ (l.view w.db) ((recorders n).next i w.toShared _ y) ∧
    ConfirmGuar d₀ (reqs i) i l w.db (l.view w.db) y ∧ Q _ _ ((recorders n).next i w.toShared _ y) _
  rw [hnext]
  refine ⟨hdraft.inv hs.inv hv hnew hchosen hcopies (hdraft.key_fresh hv hnew) hheld₁.alone,
    hdraft.guar hs.inv hv hnew hheld₁.locked, hq ⟨⟨l.view w.db, w.host⟩, w.seq⟩ _ fun k' hk' => ?_⟩
  obtain rfl := List.mem_singleton.mp hk'
  exact ⟨if_pos rfl, hdraft.record⟩

/-! ## Building the draft -/

/-- A pending insertion of a record. -/
structure Recorded (k : IdempotencyKey) (d : Db) (l : Txn shop) : Prop where
  writes : l.writes = [⟨.idempotencyKey, k⟩]
  locked : Lock.row Table.idempotencyKey k.id ∈ l.locks
  fresh : d.get .idempotencyKey k.id = none

theorem Recorded.seen (h : Recorded k sh.db l) {w : World shop shopHost} {y : ℕ → Option (Fin n)}
    (hs : Seen (confirmProtocol lib reqs strict d₀) i l sh x w y) : Recorded k w.db l :=
  ⟨h.writes, h.locked, (hs.still.row _ _ h.locked).trans h.fresh⟩

theorem recordOrderIdempotency_safe (hready : Ready strict (reqs i) csId sh.db l) :
    Safe (confirmProtocol lib reqs strict d₀) G i (beforePsp fun r sh _ l' =>
        match r with
        | some ikId => ∃ k, k.id = ikId ∧ NewRecord (reqs i) csId k ∧ Recorded k sh.db l' ∧
            Holding strict (reqs i) csId sh.db l'
        | none => Ready strict (reqs i) csId sh.db l')
      (recordOrderIdempotency (reqs i).idempotencyKey (reqs i).userIdentifier csId) sh x l := by
  refine Safe.bind (safe_now (confirm_quiet lib reqs strict d₀) fun w y hs => ?_)
  have hready₁ := hready.seen hs
  refine Safe.bind (Safe.insert (fun w₁ y₁ hs₁ m hlt hfree => ?_) (fun _ w₁ y₁ hs₁ m _ => ?_)
    (beforePsp_onError _))
  · have hview : l.view w₁.db = w₁.db := Txn.view_of_no_writes hready.nothing _
    rw [hview] at hlt
    have hfresh : w₁.db.get .idempotencyKey m = none :=
      Store.get_eq_none_iff.mpr fun r hr => (hlt r hr).ne
    refine Safe.pure ⟨_, rfl, ⟨rfl, rfl, rfl, rfl⟩, ⟨?_, List.mem_cons_self, hfresh⟩,
      (hready₁.toHolding.seen hs₁).more fun y hy => List.mem_append_right _ hy⟩
    simp [Txn.write, hready.nothing]
  · exact Safe.pure (hready₁.seen hs₁)

theorem Draft.start {d : Db} (h : Recorded k d l) (hikId : o.ikId = k.id)
    (huser : o.userId = some (reqs i).userIdentifier) (hcharged : Charged lib o items m)
    (hfresh : (l.view d).get .orders o.id = none) {l' : Txn shop}
    (hw : l'.writes = ⟨.orders, o⟩ :: l.writes) (hl : ∀ y ∈ l.locks, y ∈ l'.locks) :
    Draft lib (reqs i) items m k o [] d l' := by
  have hrecord : (l.view d).get .idempotencyKey k.id = some k := by
    rw [Txn.view, h.writes]
    exact Store.get_put_self d .idempotencyKey k
  have hrest : l'.writes = [⟨.orders, o⟩, ⟨.idempotencyKey, k⟩] := by rw [hw, h.writes]
  refine ⟨?_, ?_, ?_, ?_, ?_, h.fresh, ?_, hl _ h.locked, hikId, huser, hcharged, by simp⟩
  · rw [hw]
    refine ⟨fun _ => hfresh, ?_⟩
    rw [h.writes]
    exact ⟨fun hp => by simp at hp, trivial⟩
  · rw [hrest, written_cons_self, written_cons_of_ne (by decide)]
    rfl
  · rw [hrest, written_cons_of_ne (by decide), written_cons_of_ne (by decide)]
    rfl
  · rw [hrest]
    intro w hw
    rcases List.mem_cons.mp hw with rfl | hw
    · simp
    · obtain rfl := List.mem_singleton.mp hw
      simp
  · rw [← hrecord, Txn.view, hw]
    exact Store.get_put_of_ne (S := shop) _ (t := .orders) o (by simp)
  · rw [hrest]
    rintro id hid ⟨w, hw, ht, he⟩
    rcases List.mem_cons.mp hw with rfl | hw
    · cases ht
    · obtain rfl := List.mem_singleton.mp hw
      exact hid he.symm

/-- One more write, which sets the record, adds an item, or goes to another table. -/
theorem Draft.put {d : Db} (h : Draft lib (reqs i) items m k o its d l) {t : Table} {r : t.Row}
    {k' : IdempotencyKey} {its' : List OrderItem} {l' : Txn shop}
    (hw : l'.writes = ⟨t, r⟩ :: l.writes) (hl : ∀ y ∈ l.locks, y ∈ l'.locks) (ht : t ≠ .orders)
    (htc : t ≠ .checkoutSession) (hitem : t = .orderItem → (l.view d).get t (rowId r) = none)
    (hik : t = .idempotencyKey → rowId r = k.id) (hid : k'.id = k.id)
    (hrecord : (l'.view d).get .idempotencyKey k.id = some k')
    (hlines : written Table.orderItem l'.writes = its') (hof : ∀ it ∈ its', it.orderId = o.id) :
    Draft lib (reqs i) items m k' o its' d l' := by
  refine ⟨?_, ?_, hlines, ?_, by rwa [hid], by rw [hid]; exact h.fresh, fun id hne => ?_, ?_,
    h.ikId.trans hid.symm, h.user, h.charged, hof⟩
  · rw [hw]
    exact ⟨fun hp => hitem (hp.resolve_left ht), h.inserts⟩
  · rw [hw, written_cons_of_ne ht, h.order]
  · rw [hw]
    intro w hw
    rcases List.mem_cons.mp hw with rfl | hw
    · exact htc
    · exact h.checkouts w hw
  · rw [hid] at hne
    rw [hw]
    rintro ⟨w, hw, hwt, he⟩
    rcases List.mem_cons.mp hw with rfl | hw
    · exact hne (he.symm.trans (hik hwt))
    · exact h.alone id hne ⟨w, hw, hwt, he⟩
  · rw [hid]
    exact hl _ h.locked

theorem Draft.addItem {d : Db} (h : Draft lib (reqs i) items m k o its d l) {it : OrderItem}
    (hid : it.orderId = o.id) (hfresh : (l.view d).get .orderItem it.id = none) {l' : Txn shop}
    (hw : l'.writes = ⟨.orderItem, it⟩ :: l.writes) (hl : ∀ y ∈ l.locks, y ∈ l'.locks) :
    Draft lib (reqs i) items m k o (its ++ [it]) d l' := by
  have hrecord : (l'.view d).get .idempotencyKey k.id = some k := by
    rw [← h.record, Txn.view, hw]
    exact Store.get_put_of_ne (S := shop) _ (t := .orderItem) it (by simp)
  have hlines : written Table.orderItem l'.writes = its ++ [it] := by
    rw [hw, written_cons_self, h.lines]
  refine h.put hw hl (by decide) (by decide) (fun _ => hfresh) (fun ht => by cases ht) rfl hrecord hlines
    fun it' hit' => ?_
  rcases List.mem_append.mp hit' with hit' | hit'
  · exact h.ofOrder it' hit'
  · rwa [List.mem_singleton.mp hit']

theorem Draft.addPayment {d : Db} (h : Draft lib (reqs i) items m k o its d l) {p : Payment}
    {l' : Txn shop} (hw : l'.writes = ⟨.payment, p⟩ :: l.writes)
    (hl : ∀ y ∈ l.locks, y ∈ l'.locks) : Draft lib (reqs i) items m k o its d l' := by
  have hrecord : (l'.view d).get .idempotencyKey k.id = some k := by
    rw [← h.record, Txn.view, hw]
    exact Store.get_put_of_ne (S := shop) _ (t := .payment) p (by simp)
  have hlines : written Table.orderItem l'.writes = its := by
    rw [hw, written_cons_of_ne (by decide), h.lines]
  exact h.put hw hl (by decide) (by decide) (fun ht => by simp at ht) (fun ht => by cases ht) rfl hrecord hlines
    h.ofOrder

theorem Draft.setRecord {d : Db} (h : Draft lib (reqs i) items m k o its d l) {k' : IdempotencyKey}
    (hid : k'.id = k.id) {l' : Txn shop} (hw : l'.writes = ⟨.idempotencyKey, k'⟩ :: l.writes)
    (hl : ∀ y ∈ l.locks, y ∈ l'.locks) : Draft lib (reqs i) items m k' o its d l' := by
  have hrecord : (l'.view d).get .idempotencyKey k.id = some k' := by
    rw [← hid, Txn.view, hw]
    exact Store.get_put_self (S := shop) _ (.idempotencyKey) k'
  have hlines : written Table.orderItem l'.writes = its := by
    rw [hw, written_cons_of_ne (by decide), h.lines]
  exact h.put hw hl (by decide) (by decide) (fun ht => by simp at ht) (fun _ => hid) hid hrecord hlines h.ofOrder

/-! ## Placing the order -/

theorem addOrderItems_safe {rest done : List SnapshotItem}
    (h : Draft lib (reqs i) items m k o its sh.db l) (hheld : Holding strict (reqs i) csId sh.db l)
    (hcopies : Copies its done) :
    Safe (confirmProtocol lib reqs strict d₀) G i (beforePsp fun _ sh _ l' =>
        ∃ its', Draft lib (reqs i) items m k o its' sh.db l' ∧
          Holding strict (reqs i) csId sh.db l' ∧ Copies its' (done ++ rest))
      (addOrderItems lib o.id rest) sh x l := by
  induction rest generalizing done its sh x l with
  | nil =>
    rw [List.append_nil]
    exact Safe.pure ⟨its, h, hheld, hcopies⟩
  | cons it rest ih =>
    rw [List.append_cons]
    refine Safe.bind (safe_insert (fun w y hs n hlt hfree => ?_) (beforePsp_onError _))
    have hfresh : (l.view w.db).get .orderItem n = none :=
      Store.get_eq_none_iff.mpr fun r hr => (hlt r hr).ne
    refine ih ((h.seen hs).addItem rfl hfresh rfl l.write_keeps) ((hheld.seen hs).more l.write_keeps) ?_
    rw [Copies, List.map_append, List.map_append, hcopies]
    rfl

/-- An order response holds a UUID, which is not serialised. -/
theorem updateOrderIdempotencyRecord_fields (userId ikId ownerId : ℕ) (code : Option ℕ)
    (r : OrderResponse) (ty : String) :
    updateOrderIdempotencyRecord lib userId ikId ownerId code (some r.fields) ty =
      raiseApp (.typeError "Object of type UUID is not JSON serializable") := rfl

theorem updateOrderIdempotencyRecord_safe {ty : String}
    (h : Draft lib (reqs i) items m k o its sh.db l) (hnew : NewRecord (reqs i) csId k)
    (hheld : Holding strict (reqs i) csId sh.db l) :
    Safe (confirmProtocol lib reqs strict d₀) G i (beforePsp fun _ sh _ l' =>
        ∃ k', NewRecord (reqs i) csId k' ∧ Draft lib (reqs i) items m k' o its sh.db l' ∧
          Holding strict (reqs i) csId sh.db l')
      (updateOrderIdempotencyRecord lib (reqs i).userIdentifier k.id o.id none none ty) sh x l := by
  refine Safe.bind (Safe.pure (Safe.bind (Safe.update (fun w y hs l' hu => ?_)
    fun _ => beforePsp_onError _)))
  have hdraft := h.seen hs
  have hrows : (l.view w.db .idempotencyKey).filter (fun r : IdempotencyKey =>
      decide (r.id = k.id) && decide (r.createdBy = (reqs i).userIdentifier)) = [k] := by
    have hbyId := Store.filter_id_and (S := shop) hs.ok.wf.ids .idempotencyKey k.id
      fun r : IdempotencyKey => decide (r.createdBy = (reqs i).userIdentifier)
    rw [hdraft.record] at hbyId
    refine hbyId.trans ?_
    simp [Option.filter, hnew.user]
  rw [hrows] at hu
  have hw := hu.writes
  simp only [updateWrites, List.map_cons, List.map_nil, List.reverse_singleton,
    List.singleton_append] at hw
  refine Safe.pure ⟨_, ?_, hdraft.setRecord ?_ hw hu.keeps, (hheld.seen hs).more hu.keeps⟩
  · exact ⟨hnew.key, hnew.user, hnew.checkout, rfl⟩
  · rfl

theorem placeOrderWithItems_safe (hrec : Recorded k sh.db l) (hnew : NewRecord (reqs i) csId k)
    (hheld : Holding strict (reqs i) csId sh.db l) :
    Safe (confirmProtocol lib reqs strict d₀) G i (beforePsp fun res sh _ l' =>
        res.payPublicId.isSome ∧ ∃ k' o its, NewRecord (reqs i) csId k' ∧
          Draft lib (reqs i) items m k' o its sh.db l' ∧ Holding strict (reqs i) csId sh.db l' ∧
          Copies its items)
      (placeOrderWithItems lib (reqs i).userIdentifier m (computeFinalTotal lib items m) k.id)
      sh x l := by
  refine Safe.bind (safe_uuid7 (confirm_quiet lib reqs strict d₀) fun w y hs u s hc => ?_)
  let sh₁ : Shared shop shopHost := ⟨w.db, s⟩
  have hrec₁ : Recorded k sh₁.db l := hrec.seen hs
  have hheld₁ : Holding strict (reqs i) csId sh₁.db l := hheld.seen hs
  have hnone : Copies [] [] := rfl
  refine Safe.bind (safe_insert (fun w₁ y₁ hs₁ n hlt hfree => ?_) (beforePsp_onError _))
  have hfresh : (l.view w₁.db).get .orders n = none :=
    Store.get_eq_none_iff.mpr fun r hr => (hlt r hr).ne
  refine Safe.bind ((addOrderItems_safe (Draft.start (hrec₁.seen hs₁) rfl rfl
    ⟨rfl, rfl, rfl, rfl, rfl⟩ hfresh rfl l.write_keeps)
    ((hheld₁.seen hs₁).more l.write_keeps) hnone).mono fun r sh x l hr => ?_)
  cases r with
  | error e => exact hr
  | ok _ =>
  obtain ⟨its, hdraft₁, hheld₂, hcopies⟩ := hr
  simp only
  split
  · refine Safe.bind (Safe.bind (safe_uuid7 (confirm_quiet lib reqs strict d₀) fun w₂ y₂ hs₂ v t ht => ?_))
    let sh₂ : Shared shop shopHost := ⟨w₂.db, t⟩
    have hdraft₂ : Draft lib (reqs i) items m k _ its sh₂.db l := hdraft₁.seen hs₂
    have hheld₃ : Holding strict (reqs i) csId sh₂.db l := hheld₂.seen hs₂
    refine Safe.bind (safe_insert (fun w₃ y₃ hs₃ p _ _ => Safe.pure ?_) (beforePsp_onError _))
    refine Safe.bind ((updateOrderIdempotencyRecord_safe ((hdraft₂.seen hs₃).addPayment rfl
      (Txn.write_keeps _)) hnew ((hheld₃.seen hs₃).more (Txn.write_keeps _))).mono
      fun r sh x l hr => ?_)
    cases r with
    | error e => exact hr
    | ok _ =>
      obtain ⟨k', hnew', hdraft', hheld'⟩ := hr
      exact Safe.pure ⟨rfl, k', _, its, hnew', hdraft', hheld', hcopies⟩
  · rw [updateOrderIdempotencyRecord_fields]
    exact Safe.raise id

end Draft

end Requests
end Phyllonix