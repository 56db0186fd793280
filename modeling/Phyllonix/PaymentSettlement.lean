import Phyllonix.ShopRules
import Phyllonix.PaymentWebhook

/-!
# Settlement of payments by webhook deliveries

A delivery moves a payment up, and its order, commit intent and outbox event with
it. The update of the payment locks it until the commit, and it finds the payment
below the captured status; so no other delivery settles the same order meanwhile.
-/

namespace Phyllonix
open Relational
variable {n : ℕ}

/-! ## What belongs to an order -/

def isPaidIntent (o : ℕ) (c : CommitIntent) : Bool :=
  c.aggregateId = o && c.aggregateType = "order" && c.reason = "payment_succeeded"

def isPaidEvent (o : ℕ) (e : OutboxEvent) : Bool :=
  e.aggregateId = o && e.aggregateType = "order" && e.topic = "order.paid"

def paidIntents (d : Db) (o : ℕ) : List CommitIntent := (d .commitIntent).filter (isPaidIntent o)

def paidEvents (d : Db) (o : ℕ) : List OutboxEvent := (d .outboxEvent).filter (isPaidEvent o)

def orderPairs (d : Db) (o : ℕ) : List CommitItem :=
  ((d .orderItem).filter fun it : OrderItem => it.orderId = o).map
    fun it : OrderItem => ⟨it.productId, it.quantity⟩

structure OrderState where
  status : Option ℕ
  intents : List (Option CommitPayload)
  events : ℕ
  deriving DecidableEq

def orderState (d : Db) (o : ℕ) : OrderState :=
  ⟨(d.get .orders o).map Orders.status, (paidIntents d o).map CommitIntent.payload,
    (paidEvents d o).length⟩

def OrderState.unpaid : OrderState := ⟨some OrderStatus.pendingPayment.value, [], 0⟩

def OrderState.paid (o : ℕ) (items : List CommitItem) : OrderState :=
  ⟨some OrderStatus.confirmed.value, [some ⟨o, items⟩], 1⟩

/-- The state of order `o` after one more write. -/
def OrderState.after (o : ℕ) : Write shop → OrderState → OrderState
  | ⟨.orders, r⟩, s => if r.id = o then { s with status := some r.status } else s
  | ⟨.commitIntent, c⟩, s => if isPaidIntent o c then { s with intents := s.intents ++ [c.payload] } else s
  | ⟨.outboxEvent, e⟩, s => if isPaidEvent o e then { s with events := s.events + 1 } else s
  | _, s => s

/-- The tables whose rows are counted for an order. -/
def Counted (t : Table) : Prop := t = .commitIntent ∨ t = .outboxEvent

theorem OrderState.after_of_ne {w : Write shop} (h1 : w.tbl ≠ .orders) (h2 : ¬Counted w.tbl) (o : ℕ)
    (s : OrderState) : s.after o w = s := by
  obtain ⟨t, r⟩ := w
  cases t <;> first
    | rfl
    | exact absurd rfl h1
    | exact absurd (.inl rfl) h2
    | exact absurd (.inr rfl) h2

theorem filter_put_of_fresh {d : Db} {t : Table} {r : t.Row} (h : d.get t (rowId r) = none)
    (p : t.Row → Bool) : (d.put t r t).filter p = (d t).filter p ++ [r].filter p := by
  have hfresh := Store.get_eq_none_iff.mp h
  rw [Store.put_self, putRow_of_fresh hfresh, List.filter_append]

theorem orderState_put_of_ne {d : Db} {t : Table} (r : t.Row) (o : ℕ) (h1 : t ≠ .orders)
    (h2 : ¬Counted t) : orderState (d.put t r) o = orderState d o := by
  simp only [Counted, not_or] at h2
  have hget : (d.put t r).get .orders o = d.get .orders o :=
    Store.get_put_of_ne _ _ fun he => h1 he.1.symm
  have hci : d.put t r .commitIntent = d .commitIntent := Store.put_of_ne d r (Ne.symm h2.1)
  have hev : d.put t r .outboxEvent = d .outboxEvent := Store.put_of_ne d r (Ne.symm h2.2)
  simp only [orderState, paidIntents, paidEvents, hget, hci, hev]

theorem orderState_put {o : ℕ} (d : Db) (w : Write shop)
    (h : Counted w.tbl → d.get w.tbl (rowId w.row) = none) :
    orderState (d.put w.tbl w.row) o = (orderState d o).after o w := by
  obtain ⟨t, r⟩ := w
  by_cases hc : Counted t
  · have hfresh := h hc
    rcases hc with rfl | rfl
    · have hget : (d.put .commitIntent r).get .orders o = d.get .orders o :=
        Store.get_put_of_ne _ _ (by simp)
      have hev : d.put .commitIntent r .outboxEvent = d .outboxEvent :=
        Store.put_of_ne d r (by decide)
      simp only [orderState, paidIntents, paidEvents, hget, hev, filter_put_of_fresh hfresh,
        OrderState.after]
      by_cases hr : isPaidIntent o r <;> simp [hr]
    · have hget : (d.put .outboxEvent r).get .orders o = d.get .orders o :=
        Store.get_put_of_ne _ _ (by simp)
      have hci : d.put .outboxEvent r .commitIntent = d .commitIntent :=
        Store.put_of_ne d r (by decide)
      simp only [orderState, paidIntents, paidEvents, hget, hci, filter_put_of_fresh hfresh,
        OrderState.after]
      by_cases hr : isPaidEvent o r <;> simp [hr]
  · by_cases ht : t = .orders
    · subst ht
      have hci : d.put .orders r .commitIntent = d .commitIntent := Store.put_of_ne d r (by decide)
      have hev : d.put .orders r .outboxEvent = d .outboxEvent := Store.put_of_ne d r (by decide)
      simp only [orderState, paidIntents, paidEvents, hci, hev, OrderState.after]
      by_cases hr : r.id = o
      · subst hr
        have hget : (d.put .orders r).get .orders r.id = some r := Store.get_put_self d .orders r
        rw [hget, if_pos rfl]
        rfl
      · have hget : (d.put .orders r).get .orders o = d.get .orders o :=
          Store.get_put_of_ne _ _ fun he => hr he.2.symm
        rw [hget, if_neg hr]
    · rw [orderState_put_of_ne r o ht hc, OrderState.after_of_ne ht hc]

theorem orderState_applyWrites {d : Db} {ws : List (Write shop)} (o : ℕ)
    (h : Inserts Counted ws d) :
    orderState (applyWrites ws d) o = ws.foldr (OrderState.after o) (orderState d o) :=
  applyWrites_foldr (f := fun d => orderState d o) (fun d w hw => orderState_put d w hw) h

/-! ## The protocol -/

/-- A row of a payment that is new, the same, or of a higher status. -/
def Rises (r r' : Option Payment) : Prop :=
  r' = r ∨ ∃ p p', r = some p ∧ r' = some p' ∧ p.status < p'.status

theorem Rises.trans {r r' r'' : Option Payment} (h : Rises r r') (h' : Rises r' r'') :
    Rises r r'' := by
  rcases h' with rfl | ⟨p', p'', hp', hp'', hlt'⟩
  · exact h
  · rcases h with rfl | ⟨p, q, hp, hq, hlt⟩
    · exact .inr ⟨p', p'', hp', hp'', hlt'⟩
    · obtain rfl : q = p' := Option.some.inj (hq.symm.trans hp')
      exact .inr ⟨p, p'', hp, hp'', hlt.trans hlt'⟩

/-- What an order looks like while its payment has the status `st`. -/
def expectedState (d : Db) (o st : ℕ) : OrderState :=
  if st = PaymentStatus.captured.value then .paid o (orderPairs d o) else .unpaid

structure SettlementInv (orders : Set ℕ) (payId : ℕ → ℕ) (d₀ d : Db) : Prop where
  items : d .orderItem = d₀ .orderItem
  rises : ∀ k, Rises (d₀.get .payment k) (d.get .payment k)
  agrees : ∀ o ∈ orders, ∃ p, d.get .payment (payId o) = some p ∧ p.orderId = o ∧
    p.status ≤ PaymentStatus.captured.value ∧ orderState d o = expectedState d₀ o p.status

def settlementProtocol (orders : Set ℕ) (payId : ℕ → ℕ) (d₀ : Db) (n : ℕ) :
    Protocol shop shopHost n where
  toHistory := History.none
  inv sh _ := SettlementInv orders payId d₀ sh.db
  rely _ _ _ _ _ _ := True
  guar _ _ sh _ sh' := ∀ k, Rises (sh.db.get .payment k) (sh'.db.get .payment k)
  next_same := History.none_same
  rely_refl _ _ _ _ := trivial
  rely_trans _ _ := trivial
  guar_same _ _ _ _ _ := .inl rfl
  compat _ _ _ _ _ _ := trivial
  env_inv _ _ _ h := h
  env_rely _ _ _ _ _ _ := trivial

theorem settlement_quiet (orders : Set ℕ) (payId : ℕ → ℕ) (d₀ : Db) :
    Quiet (settlementProtocol orders payId d₀ n) where
  inv _ h := h
  next _ _ _ _ := rfl
  guar _ _ _ _ _ _ _ := .inl rfl

theorem payment_unique {d : Db} (hd : d.Wf) {p q : Payment} (hp : p ∈ d .payment)
    (hq : q ∈ d .payment) (ho : p.orderId = q.orderId) : p = q :=
  Store.Wf.eq_of_key hd (t := .payment) hp hq (k := .orderId p.orderId) (by simp [rowKeys])
    (by simp [rowKeys, ho])

/-! ## A delivery that holds its payment -/

/-- The transaction has moved payment `pid` of order `o` to the status `st`, and its
other writes bring an unpaid order `o` to the state `target`. -/
structure Settling (orders : Set ℕ) (pid o st : ℕ) (target : OrderState) (d : Db) (l : Txn shop) :
    Prop where
  below : ∃ p, d.get .payment pid = some p ∧ p.orderId = o ∧ p.status < st
  moved : ∃ p, (l.view d).get .payment pid = some p ∧ p.orderId = o ∧ p.status = st
  le : st ≤ PaymentStatus.captured.value
  locked : Lock.row Table.payment pid ∈ l.locks
  payments : ∀ k, k ≠ pid → ¬Written l.writes Table.payment k
  items : ∀ w ∈ l.writes, w.tbl ≠ Table.orderItem
  inserts : Inserts Counted l.writes d
  others : ∀ o', o' ≠ o → ∀ s, l.writes.foldr (OrderState.after o') s = s
  own : o ∈ orders → l.writes.foldr (OrderState.after o) .unpaid = target

section Deliveries
variable {orders : Set ℕ} {payId : ℕ → ℕ} {d₀ : Db} {G : Guard shop shopHost n} {i : Fin n}
variable {sh : Shared shop shopHost} {x : Unit} {l : Txn shop}
variable {pid o st : ℕ} {target : OrderState}

theorem Settling.seen (h : Settling orders pid o st target sh.db l) {w : World shop shopHost} {y : Unit}
    (hs : Seen (settlementProtocol orders payId d₀ n) i l sh x w y) :
    Settling orders pid o st target w.db l := by
  obtain ⟨p, hp, hpo, hlt⟩ := h.below
  obtain ⟨q, hq, hqo, hqs⟩ := h.moved
  have hrow := hs.still.row _ _ h.locked
  exact ⟨⟨p, hrow.trans hp, hpo, hlt⟩, ⟨q, (hs.still.get_view h.locked).trans hq, hqo, hqs⟩, h.le,
    h.locked, h.payments, h.items,
    h.inserts.congr fun w hw => hs.still.row _ _ (hs.ok.locked w hw), h.others, h.own⟩

/-- The payment of an order of the protocol is the one that the invariant names. -/
theorem Settling.payId_eq {d : Db} (h : Settling orders pid o st target d l) (hd : d.Wf)
    (hinv : SettlementInv orders payId d₀ d) (ho : o ∈ orders) : payId o = pid := by
  obtain ⟨p, hp, hpo, -⟩ := h.below
  obtain ⟨q, hq, hqo, -⟩ := hinv.agrees o ho
  have hpq := payment_unique hd (Store.mem_of_get hp) (Store.mem_of_get hq) (hpo.trans hqo.symm)
  have hidp : p.id = pid := Store.id_of_get hp
  have hidq : q.id = payId o := Store.id_of_get hq
  rw [← hidp, ← hidq, hpq]

/-- Below the captured status the order is unpaid. -/
theorem Settling.state {d : Db} (h : Settling orders pid o st target d l) (hd : d.Wf)
    (hinv : SettlementInv orders payId d₀ d) (ho : o ∈ orders) :
    orderState (l.view d) o = target := by
  obtain ⟨p, hp, hpo, hlt⟩ := h.below
  obtain ⟨q, hq, -, -, hstate⟩ := hinv.agrees o ho
  rw [h.payId_eq hd hinv ho, hp] at hq
  obtain rfl := Option.some.inj hq
  have hne : p.status ≠ PaymentStatus.captured.value := by
    have := h.le
    omega
  rw [expectedState, if_neg hne] at hstate
  rw [Txn.view, orderState_applyWrites o h.inserts, hstate, h.own ho]

theorem Settling.orderPairs {d : Db} (h : Settling orders pid o st target d l)
    (hinv : SettlementInv orders payId d₀ d) (o' : ℕ) :
    orderPairs (l.view d) o' = orderPairs d₀ o' := by
  simp only [Phyllonix.orderPairs, Txn.view, applyWrites_of_untouched h.items, hinv.items]

theorem Settling.commit {d : Db} (h : Settling orders pid o st target d l) (hd : d.Wf)
    (hinv : SettlementInv orders payId d₀ d) (htarget : target = expectedState d₀ o st) :
    SettlementInv orders payId d₀ (l.view d) ∧
      ∀ k, Rises (d.get .payment k) ((l.view d).get .payment k) := by
  obtain ⟨p, hp, hpo, hlt⟩ := h.below
  obtain ⟨q, hq, hqo, hqs⟩ := h.moved
  have hother : ∀ k, k ≠ pid → (l.view d).get .payment k = d.get .payment k := fun k hk =>
    get_applyWrites_of_not_written (h.payments k hk) d
  have hrise : ∀ k, Rises (d.get .payment k) ((l.view d).get .payment k) := fun k => by
    by_cases hk : k = pid
    · subst hk
      exact .inr ⟨p, q, hp, hq, by omega⟩
    · exact .inl (hother k hk)
  refine ⟨⟨?_, fun k => (hinv.rises k).trans (hrise k), fun o' ho' => ?_⟩, hrise⟩
  · rw [Txn.view, applyWrites_of_untouched h.items, hinv.items]
  · by_cases hoo : o' = o
    · subst hoo
      rw [h.payId_eq hd hinv ho']
      exact ⟨q, hq, hqo, hqs ▸ h.le, by rw [h.state hd hinv ho', htarget, hqs]⟩
    · obtain ⟨r, hr, hro, hle, hstate⟩ := hinv.agrees o' ho'
      have hne : payId o' ≠ pid := fun he => by
        rw [he, hp] at hr
        obtain rfl := Option.some.inj hr
        exact hoo (hro.symm.trans hpo)
      refine ⟨r, (hother _ hne).trans hr, hro, hle, ?_⟩
      rw [Txn.view, orderState_applyWrites o' h.inserts, h.others o' hoo, hstate]

theorem Settling.write {d : Db} (h : Settling orders pid o st target d l) {v : Write shop} {l' : Txn shop}
    (hw : l'.writes = v :: l.writes) (hl : ∀ z ∈ l.locks, z ∈ l'.locks)
    (hpay : v.tbl ≠ .payment) (hitem : v.tbl ≠ .orderItem)
    (hfresh : Counted v.tbl → (l.view d).get v.tbl (rowId v.row) = none)
    (hother : ∀ o', o' ≠ o → ∀ s : OrderState, s.after o' v = s) :
    Settling orders pid o st (target.after o v) d l' := by
  obtain ⟨q, hq, hqo, hqs⟩ := h.moved
  have hview : l'.view d = (l.view d).put v.tbl v.row := by rw [Txn.view, hw]; rfl
  refine ⟨h.below, ⟨q, ?_, hqo, hqs⟩, h.le, hl _ h.locked, fun k hk => ?_, fun w hmem => ?_, ?_,
    fun o' ho' s => ?_, ?_⟩
  · rw [hview, Store.get_put_of_ne _ _ fun he => hpay he.1.symm, hq]
  · rintro ⟨w, hmem, ht, hid⟩
    rw [hw] at hmem
    rcases List.mem_cons.mp hmem with rfl | hmem
    · exact hpay ht
    · exact h.payments k hk ⟨w, hmem, ht, hid⟩
  · rw [hw] at hmem
    rcases List.mem_cons.mp hmem with rfl | hmem
    · exact hitem
    · exact h.items w hmem
  · rw [hw]
    exact ⟨hfresh, h.inserts⟩
  · rw [hw, List.foldr_cons, h.others o' ho', hother o' ho']
  · intro ho
    rw [hw, List.foldr_cons, h.own ho]

theorem Settling.grow {d : Db} (h : Settling orders pid o st target d l) {l' : Txn shop}
    (hw : l'.writes = l.writes) (hl : ∀ z ∈ l.locks, z ∈ l'.locks) :
    Settling orders pid o st target d l' := by
  obtain ⟨h1, h2, h3, h4, h5, h6, h7, h8, h9⟩ := h
  simp only [Txn.view, ← hw] at h2 h5 h6 h7 h8 h9
  exact ⟨h1, h2, h3, hl _ h4, h5, h6, h7, h8, h9⟩

/-- Nothing is promised about other orders. -/
theorem Settling.retarget {d : Db} (h : Settling orders pid o st target d l) (ho : o ∉ orders)
    (target' : OrderState) : Settling orders pid o st target' d l :=
  ⟨h.below, h.moved, h.le, h.locked, h.payments, h.items, h.inserts, h.others, fun h => absurd h ho⟩

/-! ## The statements of the critical section -/

def EventsOnly (ws : List (Write shop)) : Prop := ∀ w ∈ ws, w.tbl = Table.paymentWebhookEvent

theorem EventsOnly.inserts {ws : List (Write shop)} (h : EventsOnly ws) (d : Db) :
    Inserts Counted ws d := by
  induction ws with
  | nil => trivial
  | cons w ws ih =>
    refine ⟨fun hc => ?_, ih fun v hv => h v (List.mem_cons_of_mem _ hv)⟩
    rw [h w List.mem_cons_self] at hc
    rcases hc with hc | hc <;> cases hc

theorem EventsOnly.foldr_after {ws : List (Write shop)} (h : EventsOnly ws) (o : ℕ) (s : OrderState) :
    ws.foldr (OrderState.after o) s = s := by
  induction ws with
  | nil => rfl
  | cons w ws ih =>
    have hw := h w List.mem_cons_self
    rw [List.foldr_cons, ih fun v hv => h v (List.mem_cons_of_mem _ hv),
      OrderState.after_of_ne (by simp [hw]) (by simp [hw, Counted])]

theorem EventsOnly.not_written {ws : List (Write shop)} (h : EventsOnly ws) {t : Table}
    (ht : t ≠ .paymentWebhookEvent) (k : ℕ) : ¬Written ws t k := not_written_of_tbl h ht k

/-- The update of the payment over a transaction that only recorded the event. -/
theorem settling_start {d : Db} {p q : Payment} {l' : Txn shop} (hp : d.get .payment pid = some p)
    (hlt : p.status < st) (hle : st ≤ PaymentStatus.captured.value) (hl : EventsOnly l.writes)
    (hw : l'.writes = ⟨.payment, q⟩ :: l.writes) (hlock : Lock.row Table.payment pid ∈ l'.locks)
    (hid : q.id = pid) (ho : q.orderId = p.orderId) (hst : q.status = st) :
    Settling orders pid p.orderId st .unpaid d l' := by
  refine ⟨⟨p, hp, rfl, hlt⟩, ⟨q, ?_, ho, hst⟩, hle, hlock, fun k hk => ?_, fun v hv => ?_, ?_,
    fun o' _ s => ?_, fun _ => ?_⟩
  · rw [Txn.view, hw, ← hid]
    exact Store.get_put_self _ _ _
  · rintro ⟨v, hv, ht, hvk⟩
    rw [hw] at hv
    rcases List.mem_cons.mp hv with rfl | hv
    · exact hk (hvk.symm.trans hid)
    · exact hl.not_written (by decide) k ⟨v, hv, ht, hvk⟩
  · rw [hw] at hv
    rcases List.mem_cons.mp hv with rfl | hv
    · simp
    · rw [hl v hv]
      decide
  · rw [hw]
    refine ⟨fun hc => ?_, hl.inserts d⟩
    rcases hc with hc | hc <;> cases hc
  · rw [hw, List.foldr_cons, hl.foldr_after]
    rfl
  · rw [hw, List.foldr_cons, hl.foldr_after]
    rfl

theorem updatePayCompletion_safe (ppid : Json) (hle : st ≤ PaymentStatus.captured.value)
    (hl : EventsOnly l.writes) :
    Safe (settlementProtocol orders payId d₀ n) G i (.ofOk fun r sh _ l' => ∀ o, r = some o →
        Settling orders pid o st .unpaid sh.db l')
      (updatePayCompletionGetOrderid pid ppid st) sh x l := by
  refine Safe.bind (safe_ofApp (fun ppid _ => ?_) fun _ => trivial)
  · refine Safe.bind (Safe.update (fun w y hs l' hu => ?_) fun _ _ _ _ _ _ _ => trivial)
    have hrows := Store.filter_id_and (S := shop) hs.ok.wf.ids .payment pid
      fun p : Payment => decide (p.status < st)
    have hrows' : (l.view w.db .payment).filter
        (fun p : Payment => decide (p.id = pid) && decide (p.status < st)) =
          (((l.view w.db).get .payment pid).filter fun p : Payment => decide (p.status < st)).toList :=
      hrows
    rw [hrows'] at hu ⊢
    have hsame : (l.view w.db).get .payment pid = w.db.get .payment pid :=
      get_applyWrites_of_not_written (hl.not_written (by decide) _) w.db
    rw [hsame] at hu ⊢
    cases hp : w.db.get .payment pid with
    | none => exact Safe.pure fun o ho => by cases ho
    | some p =>
      by_cases hlt : p.status < st
      · have hid : p.id = pid := Store.id_of_get hp
        simp only [hp, Option.filter, hlt, decide_true, if_true, Option.toList] at hu ⊢
        have hwr := hu.writes
        simp only [updateWrites, List.map_cons, List.map_nil, List.reverse_cons, List.reverse_nil,
          List.nil_append, List.cons_append] at hwr
        refine Safe.pure fun o ho => ?_
        cases ho
        exact settling_start (p := p) hp hlt hle hl hwr (hid ▸ hu.locked p List.mem_cons_self) hid rfl rfl
      · simp only [hp, Option.filter, hlt, decide_false, Option.toList] at hu ⊢
        exact Safe.pure fun o ho => by cases ho

theorem updateOrderStatus_safe (ost : ℕ) (h : Settling orders pid o st .unpaid sh.db l) :
    Safe (settlementProtocol orders payId d₀ n) G i (.ofOk fun _ sh _ l' =>
        Settling orders pid o st { OrderState.unpaid with status := some ost } sh.db l')
      (updateOrderStatus o ost) sh x l := by
  refine Safe.bind (safe_updateOne (fun w y hs l' hu => ?_) fun _ _ _ _ _ _ _ => trivial)
  have h₁ := h.seen hs
  have hnext : Settling orders pid o st { OrderState.unpaid with status := some ost } w.db l' := by
    cases ho : (l.view w.db).get .orders o with
    | none =>
      have hnot : o ∉ orders := fun hmem => by
        have hstate := h₁.state hs.world.wf hs.inv hmem
        have hstatus := congrArg OrderState.status hstate
        rw [orderState, ho] at hstatus
        cases hstatus
      exact (h₁.grow (updated_none hu ho) hu.keeps).retarget hnot _
    | some r =>
      have hid : r.id = o := Store.id_of_get ho
      have hafter : ∀ (o' : ℕ) (s : OrderState), s.after o' ⟨.orders, { r with status := ost }⟩ =
          if o = o' then { s with status := some ost } else s := fun o' s => by
        simp only [OrderState.after, hid]
      have hnext := h₁.write (updated_one hu ho).1 hu.keeps (by simp) (by simp) (by simp [Counted])
        fun o' hne s => by rw [hafter, if_neg (Ne.symm hne)]
      rwa [hafter, if_pos rfl] at hnext
  refine Safe.bind ?_
  refine safe_oneOrNone (fun hnil => Safe.pure hnext) (fun r hr => Safe.pure hnext) trivial

theorem loadOrderItems_safe (h : Settling orders pid o st target sh.db l) :
    Safe (settlementProtocol orders payId d₀ n) G i (.ofOk fun items sh _ l' =>
        items = orderPairs d₀ o ∧ Settling orders pid o st target sh.db l')
      (loadOrderItemsPidQty o) sh x l := by
  refine Safe.bind (Safe.read (fun w y hs => ?_) fun _ _ _ _ _ _ _ => trivial)
  have h₁ := h.seen hs
  exact Safe.pure ⟨h₁.orderPairs hs.inv o, h₁⟩

theorem Settling.insert {d : Db} (h : Settling orders pid o st target d l) {t : Table} {r : t.Row}
    (hc : Counted t) (hfresh : ∀ s ∈ l.view d t, rowId s < rowId r)
    (hother : ∀ o', o' ≠ o → ∀ s : OrderState, s.after o' ⟨t, r⟩ = s) :
    Settling orders pid o st (target.after o ⟨t, r⟩) d (l.write t [] r) := by
  have hnone : (l.view d).get t (rowId r) = none :=
    Store.get_eq_none_iff.mpr fun s hs => (hfresh s hs).ne
  have hne : t ≠ .payment ∧ t ≠ .orderItem := by
    rcases hc with rfl | rfl <;> decide
  exact h.write rfl (fun z hz => List.mem_append_right _ hz) hne.1 hne.2 (fun _ => hnone) hother

theorem free_of_no_intent {d : Db} {o : ℕ} (h : paidIntents d o = []) :
    d.Free .commitIntent [.reasonAggregate "payment_succeeded" "order" o] := by
  intro c hc k hk hkc
  simp only [rowKeys, List.mem_singleton] at hk hkc
  rw [hk, IndexKey.reasonAggregate.injEq] at hkc
  obtain ⟨hreason, hty, haggr⟩ := hkc
  have hno := List.filter_eq_nil_iff.mp h c hc
  exact hno (by simp [isPaidIntent, ← hreason, ← hty, ← haggr])

theorem free_of_no_event {d : Db} {o : ℕ} (h : paidEvents d o = []) :
    d.Free .outboxEvent [.topicAggregate "order.paid" "order" o] := by
  intro e he k hk hke
  simp only [rowKeys, List.mem_singleton] at hk hke
  rw [hk, IndexKey.topicAggregate.injEq] at hke
  obtain ⟨htopic, hty, haggr⟩ := hke
  have hno := List.filter_eq_nil_iff.mp h e he
  exact hno (by simp [isPaidEvent, ← htopic, ← hty, ← haggr])

theorem createCommitIntent_safe (payload : CommitPayload) (hempty : target.intents = [])
    (h : Settling orders pid o st target sh.db l) :
    Safe (settlementProtocol orders payId d₀ n) G i (.ofOk fun _ sh _ l' =>
        Settling orders pid o st { target with intents := [some payload] } sh.db l')
      (createCommitIntent o "payment_succeeded" "order" payload) sh x l := by
  refine Safe.bind (Safe.insert (fun w y hs m hm _ => ?_) (fun _ w y hs m hfree => ?_)
    fun _ _ _ _ _ _ => trivial)
  · have h₁ := h.seen hs
    let c : CommitIntent := ⟨m, "order", o, "payment_succeeded", CommitIntentStatus.pending.value,
      some payload, 0, none⟩
    have hpaid : isPaidIntent o c = true := by simp [isPaidIntent, c]
    have hother : ∀ o', o' ≠ o → ∀ s : OrderState, s.after o' ⟨.commitIntent, c⟩ = s := by
      intro o' hne s
      have hnot : isPaidIntent o' c = false := by simp [isPaidIntent, c, Ne.symm hne]
      simp only [OrderState.after, hnot]
      rfl
    have hnext := h₁.insert (t := .commitIntent) (r := c) (.inl rfl) hm hother
    simp only [OrderState.after, hpaid, if_true, hempty, List.nil_append] at hnext
    exact Safe.pure hnext
  · have h₁ := h.seen hs
    have hnot : o ∉ orders := fun hmem => by
      have hstate := congrArg OrderState.intents (h₁.state hs.world.wf hs.inv hmem)
      rw [hempty] at hstate
      exact hfree (free_of_no_intent (List.map_eq_nil_iff.mp hstate))
    refine Safe.bind (Safe.read (fun w₁ y₁ hs₁ => ?_) fun _ _ _ _ _ _ _ => trivial)
    have hdone := (h₁.seen hs₁).retarget hnot { target with intents := [some payload] }
    exact Safe.bind (safe_oneOrNone (fun _ => Safe.pure hdone) (fun _ _ => Safe.pure hdone) trivial)

/-- The event of a captured payment counts for its order, any other event for none. -/
theorem emitOutboxEvent_safe (topic : String) (payload : OutboxPayload) (hzero : target.events = 0)
    (h : Settling orders pid o st target sh.db l) :
    Safe (settlementProtocol orders payId d₀ n) G i (.ofOk fun _ sh _ l' =>
        Settling orders pid o st
          (if topic = "order.paid" then { target with events := 1 } else target) sh.db l')
      (emitOutboxEvent topic payload "order" o) sh x l := by
  refine Safe.bind (Safe.insert (fun w y hs m hm _ => ?_) (fun _ w y hs m hfree => ?_)
    fun _ _ _ _ _ _ => trivial)
  · have h₁ := h.seen hs
    let e : OutboxEvent := ⟨m, topic, payload, "order", o, OutboxEventStatus.pending.value, 0⟩
    have hpaid : isPaidEvent o e = decide (topic = "order.paid") := by simp [isPaidEvent, e]
    have hother : ∀ o', o' ≠ o → ∀ s : OrderState, s.after o' ⟨.outboxEvent, e⟩ = s := by
      intro o' hne s
      have hnot : isPaidEvent o' e = false := by simp [isPaidEvent, e, Ne.symm hne]
      simp only [OrderState.after, hnot]
      rfl
    have hnext := h₁.insert (t := .outboxEvent) (r := e) (.inr rfl) hm hother
    simp only [OrderState.after, hpaid, decide_eq_true_eq, hzero, zero_add] at hnext
    exact Safe.pure hnext
  · have h₁ := h.seen hs
    have hdone : Settling orders pid o st
        (if topic = "order.paid" then { target with events := 1 } else target) w.db l := by
      split
      · rename_i htopic
        have hnot : o ∉ orders := fun hmem => by
          have hstate := congrArg OrderState.events (h₁.state hs.world.wf hs.inv hmem)
          rw [hzero] at hstate
          subst htopic
          exact hfree (free_of_no_event (List.length_eq_zero_iff.mp hstate))
        exact h₁.retarget hnot _
      · exact h₁
    refine Safe.bind (Safe.read (fun w₁ y₁ hs₁ => ?_) fun _ _ _ _ _ _ _ => trivial)
    have hseen := hdone.seen hs₁
    exact Safe.bind (safe_oneOrNone (fun _ => Safe.pure hseen) (fun _ _ => Safe.pure hseen) trivial)

theorem markWebhookProcessed_safe (evId : ℕ) (lastError : Option String)
    (h : Settling orders pid o st target sh.db l) :
    Safe (settlementProtocol orders payId d₀ n) G i (.ofOk fun _ sh _ l' =>
        Settling orders pid o st target sh.db l')
      (markWebhookProcessed evId lastError) sh x l := by
  refine Safe.bind (safe_now (settlement_quiet orders payId d₀) fun w y hs => ?_)
  have h₁ := h.seen hs
  refine Safe.bind (safe_updateOne (fun w₁ y₁ hs₁ l' hu => ?_) fun _ _ _ _ _ _ _ => trivial)
  have h₂ := h₁.seen hs₁
  refine Safe.pure ?_
  cases he : (l.view w₁.db).get .paymentWebhookEvent evId with
  | none => exact h₂.grow (updated_none hu he) hu.keeps
  | some e =>
    have hafter : ∀ (o' : ℕ) (s : OrderState) (e : PaymentWebhookEvent),
        s.after o' ⟨.paymentWebhookEvent, e⟩ = s := fun _ _ _ => rfl
    have hnext := h₂.write (updated_one hu he).1 hu.keeps (by simp) (by simp) (by simp [Counted])
      fun o' _ s => hafter o' s _
    rwa [hafter] at hnext

/-- What the status computation allows: a captured payment confirms its order. -/
theorem payOrderStatusUtil_spec {status event : Json} {r : PayOrderStatus}
    (h : payOrderStatusUtil status event = .ok r) :
    (r.paymentStatus = PaymentStatus.captured.value ∧ r.orderStatus = OrderStatus.confirmed.value) ∨
      (r.paymentStatus < PaymentStatus.captured.value ∧
        r.orderStatus = OrderStatus.pendingPayment.value) := by
  cases status with
  | str s =>
    simp only [payOrderStatusUtil, Except.ok.injEq] at h
    subst h
    have hknown : s ∉ ["captured", "authorized", "failed", "success"] →
        s ∉ ["captured", "authorized", "success"] := fun hs hc => hs (by
      simp only [List.mem_cons, List.not_mem_nil, or_false] at hc ⊢
      tauto)
    by_cases hs : s ∉ ["captured", "authorized", "failed", "success"]
    · rw [if_pos hs, if_neg (hknown hs)]
      right
      split_ifs <;> exact ⟨by decide, rfl⟩
    · rw [if_neg hs]
      split_ifs
      all_goals first
        | exact .inl ⟨rfl, rfl⟩
        | exact .inr ⟨by decide, rfl⟩
  | null | bool _ | num _ | arr _ | obj _ => cases h

theorem emitPaymentEvents_safe (f : PaymentFields)
    (h : Settling orders pid o st { OrderState.unpaid with status := some ost } sh.db l) :
    Safe (settlementProtocol orders payId d₀ n) G i (.ofOk fun _ sh _ l' =>
        Settling orders pid o st
          (if st = PaymentStatus.captured.value then
            { OrderState.paid o (orderPairs d₀ o) with status := some ost }
          else { OrderState.unpaid with status := some ost }) sh.db l')
      (emitPaymentEvents o f st) sh x l := by
  rw [emitPaymentEvents]
  split
  · refine Safe.bind ((loadOrderItems_safe h).mono fun r sh x l hr => ?_)
    cases r with
    | error e => trivial
    | ok items =>
      obtain ⟨rfl, h₁⟩ := hr
      refine Safe.bind ((createCommitIntent_safe ⟨o, orderPairs d₀ o⟩ rfl h₁).mono
        fun r sh x l hr => ?_)
      cases r with
      | error e => trivial
      | ok ciId =>
        refine Safe.bind ((emitOutboxEvent_safe "order.paid" _ rfl hr).mono fun r sh x l hr => ?_)
        cases r with
        | error e => trivial
        | ok evId =>
          rw [if_pos rfl] at hr
          exact Safe.pure hr
  · split
    · refine Safe.bind ((emitOutboxEvent_safe "order.pending_payment" _ rfl h).mono
        fun r sh x l hr => ?_)
      cases r with
      | error e => trivial
      | ok evId =>
        rw [if_neg (by decide)] at hr
        exact Safe.pure hr
    · exact Safe.pure h

theorem criticalSection_safe {status event : Json} {f : PaymentFields} {r : PayOrderStatus}
    (evId : ℕ) (hr : payOrderStatusUtil status event = .ok r) (hl : EventsOnly l.writes) :
    Safe (settlementProtocol orders payId d₀ n) G i (.ofOk fun _ _ _ _ => True)
      (criticalSection pid f r evId) sh x l := by
  have hst := payOrderStatusUtil_spec hr
  have hle : r.paymentStatus ≤ PaymentStatus.captured.value := by
    rcases hst with ⟨he, -⟩ | ⟨hlt, -⟩ <;> omega
  refine Safe.bind ((updatePayCompletion_safe _ hle hl).mono fun o sh x l ho => ?_)
  cases o with
  | error e => trivial
  | ok o =>
    match o with
    | none => exact Safe.pure trivial
    | some 0 => exact Safe.pure trivial
    | some (o + 1) =>
      refine Safe.bind ((updateOrderStatus_safe _ (ho _ rfl)).mono fun res sh x l hr => ?_)
      cases res with
      | error e => trivial
      | ok _ =>
        refine Safe.bind ((emitPaymentEvents_safe f hr).mono fun res sh x l hr => ?_)
        cases res with
        | error e => trivial
        | ok out =>
          refine Safe.bind ((markWebhookProcessed_safe evId none hr).mono fun res sh x l hr => ?_)
          cases res with
          | error e => trivial
          | ok _ =>
            refine Safe.bind (Safe.commit (fun w y hs _ => ?_) fun _ _ _ _ _ _ _ => trivial)
            have htarget : (if r.paymentStatus = PaymentStatus.captured.value then
                { OrderState.paid (o + 1) (orderPairs d₀ (o + 1)) with status := some r.orderStatus }
              else { OrderState.unpaid with status := some r.orderStatus }) =
                expectedState d₀ (o + 1) r.paymentStatus := by
              rcases hst with ⟨he, ho⟩ | ⟨hlt, ho⟩
              · rw [expectedState, if_pos he, if_pos he, ho]
                rfl
              · have hne : r.paymentStatus ≠ PaymentStatus.captured.value := by omega
                rw [expectedState, if_neg hne, if_neg hne, ho]
                rfl
            obtain ⟨hinv, hrise⟩ := (hr.seen hs).commit hs.world.wf hs.inv htarget
            exact ⟨hinv, hrise, Safe.pure trivial⟩

end Deliveries

end Phyllonix
