import Phyllonix.RelationalFootprints
import Phyllonix.OrderMachine
import Phyllonix.CommitIntentStock
import Phyllonix.WebhookFrame

/-!
# Orders in the tables

What the tables say of an order: the status of its row, its lines, its payment, the commit intent
of the payment and the outbox event. The store represents an order book when it says this of the
orders in the book and nothing of any other order.
-/

namespace Phyllonix.Fulfilment
open Relational

def Stage.status : Stage → ℕ
  | .waiting => CommitIntentStatus.pending.value
  | .taking => CommitIntentStatus.processing.value
  | .givenUp => CommitIntentStatus.failed.value
  | .taken => CommitIntentStatus.done.value

theorem Stage.status_injective : Function.Injective Stage.status := by
  intro s s' h
  cases s <;> cases s' <;> first | rfl | exact absurd h (by decide)

def Progress.stage : Progress → Option Stage
  | .paid s => some s
  | _ => none

def Progress.paymentStatus : Progress → ℕ
  | .pending => PaymentStatus.pending.value
  | .accepted => PaymentStatus.accepted.value
  | .authorized => PaymentStatus.authorized.value
  | .failed => PaymentStatus.failed.value
  | .paid _ => PaymentStatus.captured.value

def Progress.orderStatus (p : Progress) : ℕ :=
  p.stage.elim OrderStatus.pendingPayment.value fun _ => OrderStatus.confirmed.value

/-- The level of a payment is the order of the values of its status. -/
theorem level_lt {p q : Progress} (h : p.paymentStatus < q.paymentStatus) : p.level < q.level := by
  cases p <;> cases q <;> simp [Progress.paymentStatus, PaymentStatus.value, Progress.level] at h ⊢

theorem stage_eq_none {p q : Progress} (h : p.paymentStatus < q.paymentStatus) : p.stage = none := by
  cases p with
  | paid s => cases q <;> simp [Progress.paymentStatus, PaymentStatus.value] at h
  | _ => rfl

/-! ## Views -/

structure OrderView where
  status : Option ℕ
  items : List CommitItem
  payment : Option (ℕ × Bool)
  intent : Option (Option CommitPayload × ℕ)
  paid : Bool

def OrderView.blank : OrderView := ⟨none, [], none, none, false⟩

def paymentOf (d : Db) (o : ℕ) : Option Payment := (d .payment).find? fun p : Payment => p.orderId = o

def intentOf (d : Db) (o : ℕ) : Option CommitIntent := (d .commitIntent).find? (isPaidIntent o)

def eventOf (d : Db) (o : ℕ) : Option OutboxEvent := (d .outboxEvent).find? (isPaidEvent o)

/-- A payment shows its status, and whether the provider knows the order. -/
def orderView (d : Db) (o : ℕ) : OrderView where
  status := (d.get .orders o).map Orders.status
  items := orderPairs d o
  payment := (paymentOf d o).map fun p => (p.status, p.providerOrderId.isSome)
  intent := (intentOf d o).map fun c => (c.payload, c.status)
  paid := (eventOf d o).isSome

/-- What the tables say of order `o` while it is as far as `p`. -/
def Progress.view (o : ℕ) (items : List CommitItem) (p : Progress) : OrderView where
  status := some p.orderStatus
  items := items
  payment := some (p.paymentStatus, decide (p ≠ .pending))
  intent := p.stage.map fun s => (some ⟨o, items⟩, s.status)
  paid := p.stage.isSome

def Shows (o : ℕ) (v : OrderView) : Option Order → Prop
  | none => v = .blank
  | some b => v = b.progress.view o v.items ∧ itemsQty v.items = b.wants

structure Represents (d : Db) (f : OrderBook) : Prop where
  orders : ∀ o, Shows o (orderView d o) (f o)
  intents : ∀ c : CommitIntent, c ∈ d .commitIntent → isPaidIntent c.aggregateId c = true

/-- The tables that the views are about. -/
def Booked (t : Table) : Prop :=
  t = .orders ∨ t = .orderItem ∨ t = .payment ∨ t = .commitIntent ∨ t = .outboxEvent

theorem orderView_congr {d d' : Db} (h : ∀ t, Booked t → d' t = d t) (o : ℕ) : orderView d' o = orderView d o := by
  have horders : d' .orders = d .orders := h _ (.inl rfl)
  have hitems : d' .orderItem = d .orderItem := h _ (.inr (.inl rfl))
  have hpayments : d' .payment = d .payment := h _ (.inr (.inr (.inl rfl)))
  have hintents : d' .commitIntent = d .commitIntent := h _ (.inr (.inr (.inr (.inl rfl))))
  have hevents : d' .outboxEvent = d .outboxEvent := h _ (.inr (.inr (.inr (.inr rfl))))
  simp only [orderView, Store.get, orderPairs, paymentOf, intentOf, eventOf, horders, hitems, hpayments, hintents,
    hevents]

theorem Represents.congr {d d' : Db} {f : OrderBook} (h : Represents d f) (hsame : ∀ t, Booked t → d' t = d t) :
    Represents d' f := by
  refine ⟨fun o => ?_, fun c hc => ?_⟩
  · rw [orderView_congr hsame]
    exact h.orders o
  · rw [hsame .commitIntent (.inr (.inr (.inr (.inl rfl))))] at hc
    exact h.intents c hc

/-- Without orders the book is empty. -/
theorem represents_of_empty {d : Db} (h : ∀ t, Booked t → d t = []) : Represents d fun _ => none := by
  refine ⟨fun o => ?_, fun c hc => ?_⟩
  · have horders : d .orders = [] := h _ (.inl rfl)
    have hitems : d .orderItem = [] := h _ (.inr (.inl rfl))
    have hpayments : d .payment = [] := h _ (.inr (.inr (.inl rfl)))
    have hintents : d .commitIntent = [] := h _ (.inr (.inr (.inr (.inl rfl))))
    have hevents : d .outboxEvent = [] := h _ (.inr (.inr (.inr (.inr rfl))))
    simp only [Shows, orderView, Store.get, orderPairs, paymentOf, intentOf, eventOf, horders, hitems, hpayments,
      hintents, hevents]
    rfl
  · rw [h _ (.inr (.inr (.inr (.inl rfl))))] at hc
    cases hc

/-! ## Rows and views -/

section Rows
variable {d : Db} {f : OrderBook} {o : ℕ} {b : Order}

theorem paymentOf_eq (hd : d.Wf) {p : Payment} (hp : p ∈ d .payment) : paymentOf d p.orderId = some p := by
  apply find_of_sole (S := shop) (t := .payment) hp (by simp)
  intro q hq ho
  exact payment_unique hd hq hp (of_decide_eq_true ho)

theorem mem_of_paymentOf {p : Payment} (h : paymentOf d o = some p) : p ∈ d .payment ∧ p.orderId = o := by
  have hfound := List.find?_some h
  exact ⟨List.mem_of_find?_eq_some h, of_decide_eq_true hfound⟩

theorem isPaidIntent_key {c : CommitIntent} (h : isPaidIntent o c = true) :
    IndexKey.reasonAggregate "payment_succeeded" "order" o ∈ rowKeys (t := .commitIntent) c := by
  simp only [isPaidIntent, Bool.and_eq_true, decide_eq_true_eq] at h
  obtain ⟨⟨ho, htype⟩, hreason⟩ := h
  simp [rowKeys, ho, htype, hreason]

theorem isPaidEvent_key {e : OutboxEvent} (h : isPaidEvent o e = true) :
    IndexKey.topicAggregate "order.paid" "order" o ∈ rowKeys (t := .outboxEvent) e := by
  simp only [isPaidEvent, Bool.and_eq_true, decide_eq_true_eq] at h
  obtain ⟨⟨ho, htype⟩, htopic⟩ := h
  simp [rowKeys, ho, htype, htopic]

theorem intentOf_eq (hd : d.Wf) {c : CommitIntent} (hc : c ∈ d .commitIntent) (h : isPaidIntent o c = true) :
    intentOf d o = some c := by
  apply find_of_sole (S := shop) (t := .commitIntent) hc h
  intro c' hc' h'
  exact hd.eq_of_key (t := .commitIntent) hc' hc (isPaidIntent_key h') (isPaidIntent_key h)

theorem aggregate_of_paid {c : CommitIntent} (h : isPaidIntent o c = true) : c.aggregateId = o := by
  simp only [isPaidIntent, Bool.and_eq_true, decide_eq_true_eq] at h
  exact h.1.1

theorem aggregate_of_paidEvent {e : OutboxEvent} (h : isPaidEvent o e = true) : e.aggregateId = o := by
  simp only [isPaidEvent, Bool.and_eq_true, decide_eq_true_eq] at h
  exact h.1.1

theorem Represents.view (h : Represents d f) (hb : f o = some b) :
    orderView d o = b.progress.view o (orderPairs d o) ∧ itemsQty (orderPairs d o) = b.wants := by
  have hshows := h.orders o
  rw [hb] at hshows
  exact hshows

theorem Represents.blank (h : Represents d f) (hb : f o = none) : orderView d o = .blank := by
  have hshows := h.orders o
  rw [hb] at hshows
  exact hshows

theorem Represents.status (h : Represents d f) (hb : f o = some b) :
    (d.get .orders o).map Orders.status = some b.progress.orderStatus := congrArg OrderView.status (h.view hb).1

/-- An order that is not paid has no commit intent and no event. -/
theorem Represents.no_intent (h : Represents d f) (hb : f o = some b) (hunpaid : b.progress.stage = none) :
    intentOf d o = none := by
  have hnone := congrArg OrderView.intent (h.view hb).1
  simp only [Progress.view, hunpaid, Option.map_none] at hnone
  exact Option.map_eq_none_iff.mp hnone

theorem Represents.no_event (h : Represents d f) (hb : f o = some b) (hunpaid : b.progress.stage = none) :
    eventOf d o = none := by
  have hpaid : (eventOf d o).isSome = b.progress.stage.isSome := congrArg OrderView.paid (h.view hb).1
  rw [hunpaid] at hpaid
  exact Option.not_isSome_iff_eq_none.mp (by simp [hpaid])

theorem pending_of_status {p : Progress} (h : p.paymentStatus = PaymentStatus.pending.value) : p = .pending := by
  cases p with
  | pending => rfl
  | _ => exact absurd h (by simp [Progress.paymentStatus, PaymentStatus.value])

/-- The orders in the book are those with a row. -/
theorem Represents.isSome (h : Represents d f) (o : ℕ) : (f o).isSome = (d.get .orders o).isSome := by
  have hstatus : (orderView d o).status.isSome = (d.get .orders o).isSome := Option.isSome_map
  rw [← hstatus]
  cases hb : f o with
  | none => rw [h.blank hb]; rfl
  | some b => rw [(h.view hb).1]; rfl

theorem Represents.fresh (h : Represents d f) (ho : d.get .orders o = none) : f o = none := by
  have hsome := h.isSome o
  rw [ho] at hsome
  exact Option.not_isSome_iff_eq_none.mp (by simp [hsome])

/-- A payment belongs to an order of the book and stands where the order stands. -/
theorem Represents.payment (h : Represents d f) (hd : d.Wf) {p : Payment} (hp : p ∈ d .payment) :
    ∃ b, f p.orderId = some b ∧ p.status = b.progress.paymentStatus ∧
      (p.providerOrderId.isSome = true ↔ b.progress ≠ .pending) := by
  have hview : (orderView d p.orderId).payment = some (p.status, p.providerOrderId.isSome) := by
    rw [orderView, paymentOf_eq hd hp]
    rfl
  cases hb : f p.orderId with
  | none =>
    rw [h.blank hb] at hview
    cases hview
  | some b =>
    rw [(h.view hb).1] at hview
    obtain ⟨hstatus, hsome⟩ := Prod.mk.inj (Option.some.inj hview)
    refine ⟨b, rfl, hstatus.symm, ?_⟩
    rw [← hsome, decide_eq_true_eq]

/-- A commit intent belongs to a paid order of the book. -/
theorem Represents.intent (h : Represents d f) (hd : d.Wf) {c : CommitIntent} (hc : c ∈ d .commitIntent) :
    ∃ b s, f c.aggregateId = some b ∧ b.progress = .paid s ∧ c.status = s.status ∧
      c.payload = some ⟨c.aggregateId, orderPairs d c.aggregateId⟩ := by
  have hview : (orderView d c.aggregateId).intent = some (c.payload, c.status) := by
    rw [orderView, intentOf_eq hd hc (h.intents c hc)]
    rfl
  cases hb : f c.aggregateId with
  | none =>
    rw [h.blank hb] at hview
    cases hview
  | some b =>
    rw [(h.view hb).1] at hview
    obtain ⟨s, hs, heq⟩ := Option.map_eq_some_iff.mp hview
    obtain ⟨hpayload, hstatus⟩ := Prod.mk.inj heq
    refine ⟨b, s, rfl, ?_, hstatus.symm, hpayload.symm⟩
    cases hp : b.progress with
    | paid s' =>
      rw [hp] at hs
      cases hs
      rfl
    | _ =>
      rw [hp] at hs
      cases hs

theorem Represents.item (h : Represents d f) {it : OrderItem} (hit : it ∈ d .orderItem) :
    (f it.orderId).isSome := by
  cases hb : f it.orderId with
  | some b => rfl
  | none =>
    have hnil : orderPairs d it.orderId = [] := congrArg OrderView.items (h.blank hb)
    have hmem : it ∈ (d .orderItem).filter fun it' : OrderItem => it'.orderId = it.orderId :=
      List.mem_filter.mpr ⟨hit, by simp⟩
    rw [List.map_eq_nil_iff.mp hnil] at hmem
    cases hmem

end Rows

/-! ## One order changes -/

section Changes
variable {d d' : Db} {f : OrderBook}

theorem Represents.change (h : Represents d f) {o : ℕ} {b : Order}
    (hother : ∀ o', o' ≠ o → orderView d' o' = orderView d o') (hown : Shows o (orderView d' o) (some b))
    (hintents : ∀ c : CommitIntent, c ∈ d' .commitIntent → isPaidIntent c.aggregateId c = true) :
    Represents d' (Function.update f o (some b)) := by
  refine ⟨fun o' => ?_, hintents⟩
  by_cases ho : o' = o
  · subst ho
    rw [Function.update_self]
    exact hown
  · rw [Function.update_of_ne ho, hother o' ho]
    exact h.orders o'

theorem find_append_of_not {α : Type} {q : α → Bool} {xs ys : List α} (h : ∀ y ∈ ys, q y = false) :
    (xs ++ ys).find? q = xs.find? q := by
  have hnone : ys.find? q = none := List.find?_eq_none.mpr fun y hy => by simp [h y hy]
  rw [List.find?_append, hnone, Option.or_none]

/-- A new order with its lines and its payment. -/
structure Placed (d d' : Db) (r : Orders) (p : Payment) (lines : List OrderItem) : Prop where
  fresh : d.get .orders r.id = none
  orders : d' .orders = d .orders ++ [r]
  payments : d' .payment = d .payment ++ [p]
  items : d' .orderItem = d .orderItem ++ lines
  intents : d' .commitIntent = d .commitIntent
  events : d' .outboxEvent = d .outboxEvent
  ofOrder : ∀ it ∈ lines, it.orderId = r.id
  status : r.status = OrderStatus.pendingPayment.value
  forOrder : p.orderId = r.id
  pending : p.status = PaymentStatus.pending.value
  unsent : p.providerOrderId = none

theorem Placed.pairs {r : Orders} {p : Payment} {lines : List OrderItem} (h : Placed d d' r p lines) (o : ℕ) :
    orderPairs d' o = orderPairs d o ++
      if o = r.id then lines.map fun it : OrderItem => ⟨it.productId, it.quantity⟩ else [] := by
  rw [orderPairs, h.items, List.filter_append, List.map_append, orderPairs]
  congr 1
  split
  · rename_i ho
    rw [List.filter_eq_self.mpr fun it hit => by simp [h.ofOrder it hit, ho]]
  · rename_i ho
    rw [List.filter_eq_nil_iff.mpr fun it hit => by simp [h.ofOrder it hit, Ne.symm ho]]
    rfl

theorem Represents.placed (h : Represents d f) {r : Orders} {p : Payment} {lines : List OrderItem}
    (hp : Placed d d' r p lines) :
    Represents d' (Function.update f r.id (some ⟨itemsQty (orderPairs d' r.id), .pending⟩)) := by
  have hfresh := h.blank (h.fresh hp.fresh)
  have horders : ∀ o, d'.get .orders o = (d.get .orders o).or (if r.id = o then some r else none) := by
    intro o
    rw [Store.get, hp.orders, List.find?_append]
    congr 1
    by_cases ho : r.id = o <;> simp [ho, rowId]
  have hintent : ∀ o, intentOf d' o = intentOf d o := fun o => by rw [intentOf, hp.intents, intentOf]
  have hevent : ∀ o, eventOf d' o = eventOf d o := fun o => by rw [eventOf, hp.events, eventOf]
  apply h.change
  · intro o ho
    have hpay : paymentOf d' o = paymentOf d o := by
      rw [paymentOf, hp.payments]
      apply find_append_of_not
      intro q hq
      rw [List.mem_singleton.mp hq, hp.forOrder]
      simpa using Ne.symm ho
    simp only [orderView, horders, hp.pairs, hpay, hintent, hevent, if_neg (Ne.symm ho), if_neg ho, Option.or_none,
      List.append_nil]
  · refine ⟨?_, rfl⟩
    have hnopay : paymentOf d r.id = none := Option.map_eq_none_iff.mp (congrArg OrderView.payment hfresh)
    have hpay : paymentOf d' r.id = some p := by
      rw [paymentOf, hp.payments, List.find?_append]
      rw [paymentOf] at hnopay
      rw [hnopay, Option.none_or]
      exact List.find?_cons_of_pos (by simp [hp.forOrder])
    have hnointent : intentOf d r.id = none := Option.map_eq_none_iff.mp (congrArg OrderView.intent hfresh)
    have hnoevent : eventOf d r.id = none := by
      have hpaid : (eventOf d r.id).isSome = false := congrArg OrderView.paid hfresh
      exact Option.not_isSome_iff_eq_none.mp (by simp [hpaid])
    simp only [orderView, horders, hp.fresh, hpay, hintent, hevent, hnointent, hnoevent, if_true, Option.none_or,
      Option.map_some, hp.status, hp.pending, hp.unsent]
    rfl
  · intro c hc
    rw [hp.intents] at hc
    exact h.intents c hc

/-- A payment moves, and with it the status of its order, the commit intents and the outbox events. -/
structure Moved (d d' : Db) (p p' : Payment) (q : Progress) (intents : List CommitIntent)
    (events : List OutboxEvent) : Prop where
  stored : p ∈ d .payment
  id : p'.id = p.id
  order : p'.orderId = p.orderId
  status : p'.status = q.paymentStatus
  sent : p'.providerOrderId.isSome = decide (q ≠ .pending)
  payments : d' .payment = putRow (S := shop) (t := .payment) p' (d .payment)
  orders : ∀ o, (d'.get .orders o).map Orders.status =
    if o = p.orderId then some q.orderStatus else (d.get .orders o).map Orders.status
  items : d' .orderItem = d .orderItem
  commitIntents : d' .commitIntent = d .commitIntent ++ intents
  outboxEvents : d' .outboxEvent = d .outboxEvent ++ events
  paidIntents : ∀ c ∈ intents, isPaidIntent p.orderId c = true
  ownEvents : ∀ e ∈ events, e.aggregateId = p.orderId
  intent : intents.head?.map (fun c => (c.payload, c.status)) =
    q.stage.map fun s => (some ⟨p.orderId, orderPairs d p.orderId⟩, s.status)
  event : events.any (isPaidEvent p.orderId) = q.stage.isSome

theorem Represents.moved (h : Represents d f) (hd : d.Wf) {p p' : Payment} {q : Progress}
    {intents : List CommitIntent} {events : List OutboxEvent} (hm : Moved d d' p p' q intents events) {b : Order}
    (hb : f p.orderId = some b) (hunpaid : b.progress.stage = none) :
    Represents d' (Function.update f p.orderId (some ⟨b.wants, q⟩)) := by
  obtain ⟨hview, hwants⟩ := h.view hb
  have hpairs : ∀ o, orderPairs d' o = orderPairs d o := fun o => by rw [orderPairs, hm.items, orderPairs]
  apply h.change
  · intro o ho
    have hpay : paymentOf d' o = paymentOf d o := by
      rw [paymentOf, hm.payments]
      have hnot : decide (p'.orderId = o) = false := by rw [hm.order]; exact decide_eq_false (Ne.symm ho)
      apply find_putRow_of_not (S := shop) (t := .payment) hnot
      intro s hs hid
      have hsp : s = p := hd.eq_of_id (t := .payment) hs hm.stored (hid.trans hm.id)
      rw [hsp]
      exact decide_eq_false (Ne.symm ho)
    have hintent : intentOf d' o = intentOf d o := by
      rw [intentOf, hm.commitIntents]
      apply find_append_of_not
      intro c hc
      cases hpaid : isPaidIntent o c with
      | false => rfl
      | true =>
        have haggr := aggregate_of_paid (hm.paidIntents c hc)
        exact absurd ((aggregate_of_paid hpaid).symm.trans haggr) ho
    have hevent : eventOf d' o = eventOf d o := by
      rw [eventOf, hm.outboxEvents]
      apply find_append_of_not
      intro e he
      cases hpaid : isPaidEvent o e with
      | false => rfl
      | true => exact absurd ((aggregate_of_paidEvent hpaid).symm.trans (hm.ownEvents e he)) ho
    simp only [orderView, hm.orders, hpairs, hpay, hintent, hevent, if_neg ho]
  · have hpay : paymentOf d' p.orderId = some p' := by
      rw [paymentOf, hm.payments]
      apply find_putRow (S := shop) (t := .payment)
      · rw [hm.order]
        exact decide_eq_true rfl
      · intro s hs ho
        rw [payment_unique hd hs hm.stored (of_decide_eq_true ho)]
        exact hm.id.symm
    have hnointent := h.no_intent hb hunpaid
    have hnoevent := h.no_event hb hunpaid
    have hintent : intentOf d' p.orderId = intents.head? := by
      rw [intentOf] at hnointent
      rw [intentOf, hm.commitIntents, List.find?_append, hnointent, Option.none_or]
      have hall := hm.paidIntents
      cases intents with
      | nil => rfl
      | cons c cs => exact List.find?_cons_of_pos (hall c List.mem_cons_self)
    have hevent : (eventOf d' p.orderId).isSome = q.stage.isSome := by
      rw [eventOf] at hnoevent
      rw [eventOf, hm.outboxEvents, List.find?_append, hnoevent, Option.none_or, ← hm.event]
      rw [Bool.eq_iff_iff, List.find?_isSome, List.any_eq_true]
    refine ⟨?_, ?_⟩
    · simp only [orderView, hm.orders, hpairs, hpay, hintent, hevent, if_pos, Option.map_some, hm.status, hm.sent,
        hm.intent]
      rfl
    · change itemsQty (orderPairs d' p.orderId) = b.wants
      rw [hpairs, hwants]
  · intro c hc
    rw [hm.commitIntents] at hc
    rcases List.mem_append.mp hc with hc | hc
    · exact h.intents c hc
    · have hpaid := hm.paidIntents c hc
      rwa [aggregate_of_paid hpaid]

/-- The intent of a payment goes on to a status of a stage. -/
structure GoesOn (c c' : CommitIntent) : Prop where
  aggregateId : c'.aggregateId = c.aggregateId
  aggregateType : c'.aggregateType = c.aggregateType
  reason : c'.reason = c.reason
  payload : c'.payload = c.payload
  stage : ∃ s : Stage, c'.status = s.status

theorem GoesOn.isPaidIntent {c c' : CommitIntent} (h : GoesOn c c') (o : ℕ) :
    isPaidIntent o c' = isPaidIntent o c := by
  rw [Phyllonix.isPaidIntent, Phyllonix.isPaidIntent, h.aggregateId, h.aggregateType, h.reason]

def Advances (r r' : Option CommitIntent) : Prop :=
  r' = r ∨ ∃ c c', r = some c ∧ r' = some c' ∧ GoesOn c c'

theorem Advances.trans {r r' r'' : Option CommitIntent} (h : Advances r r') (h' : Advances r' r'') :
    Advances r r'' := by
  rcases h' with rfl | ⟨c', c'', hc', hc'', hgo'⟩
  · exact h
  rcases h with rfl | ⟨c, u, hc, hu, hgo⟩
  · exact .inr ⟨c', c'', hc', hc'', hgo'⟩
  obtain rfl : u = c' := Option.some.inj (hu.symm.trans hc')
  exact .inr ⟨c, c'', hc, hc'', hgo'.aggregateId.trans hgo.aggregateId, hgo'.aggregateType.trans hgo.aggregateType,
    hgo'.reason.trans hgo.reason, hgo'.payload.trans hgo.payload, hgo'.stage⟩

/-- Of the tables of orders only the commit intent `k` has changed. -/
structure Worked (k : ℕ) (d d' : Db) : Prop where
  rest : ∀ t, Booked t → t ≠ .commitIntent → d' t = d t
  others : ∀ c, c ≠ k → d'.get .commitIntent c = d.get .commitIntent c
  own : Advances (d.get .commitIntent k) (d'.get .commitIntent k)

theorem intentOf_eq_some_iff (hd : d.Wf) {o : ℕ} {c : CommitIntent} :
    intentOf d o = some c ↔ d.get .commitIntent c.id = some c ∧ isPaidIntent o c = true := by
  constructor
  · intro h
    exact ⟨Store.get_of_mem hd.ids (List.mem_of_find?_eq_some h), List.find?_some h⟩
  · rintro ⟨hget, hpaid⟩
    exact intentOf_eq hd (Store.mem_of_get hget) hpaid

theorem Worked.orderView {k : ℕ} (h : Worked k d d') {o : ℕ} (hintent : intentOf d' o = intentOf d o) :
    orderView d' o = Fulfilment.orderView d o := by
  have horders : d' .orders = d .orders := h.rest _ (.inl rfl) (by decide)
  have hitems : d' .orderItem = d .orderItem := h.rest _ (.inr (.inl rfl)) (by decide)
  have hpayments : d' .payment = d .payment := h.rest _ (.inr (.inr (.inl rfl))) (by decide)
  have hevents : d' .outboxEvent = d .outboxEvent := h.rest _ (.inr (.inr (.inr (.inr rfl)))) (by decide)
  simp only [Fulfilment.orderView, Store.get, orderPairs, paymentOf, eventOf, horders, hitems, hpayments, hevents,
    hintent]

/-- The order of the intent `k` stays as it is, or its goods come to another stage. -/
theorem Represents.worked (h : Represents d f) (hd : d.Wf) (hd' : d'.Wf) {k : ℕ} (hw : Worked k d d') :
    Represents d' f ∨ ∃ c b s s', d.get .commitIntent k = some c ∧ f c.aggregateId = some b ∧
      b.progress = .paid s ∧ Represents d' (Function.update f c.aggregateId (some ⟨b.wants, .paid s'⟩)) := by
  have hfound : ∀ {d₁ d₂ : Db}, d₁.Wf → d₂.Wf → ∀ {o}, (∀ c : CommitIntent, isPaidIntent o c = true →
      (d₁.get .commitIntent c.id = some c ↔ d₂.get .commitIntent c.id = some c)) →
      intentOf d₁ o = intentOf d₂ o := by
    intro d₁ d₂ hd₁ hd₂ o hsame
    refine Option.ext fun c => ?_
    rw [intentOf_eq_some_iff hd₁, intentOf_eq_some_iff hd₂]
    exact and_congr_left fun hpaid => hsame c hpaid
  rcases hw.own with hsame | ⟨c, c', hc, hc', hgo⟩
  · left
    have hget : ∀ id, d'.get .commitIntent id = d.get .commitIntent id := by
      intro id
      by_cases hid : id = k
      · rw [hid, hsame]
      · exact hw.others id hid
    refine ⟨fun o => ?_, fun c hc => ?_⟩
    · rw [hw.orderView (hfound hd' hd fun c _ => by rw [hget])]
      exact h.orders o
    · have hstored := Store.get_of_mem hd'.ids hc
      exact h.intents c (Store.mem_of_get ((hget _).symm.trans hstored))
  · right
    have hidc : c.id = k := Store.id_of_get hc
    have hidc' : c'.id = k := Store.id_of_get hc'
    obtain ⟨b, s, hb, hpaid, hstatus, hpayload⟩ := h.intent hd (Store.mem_of_get hc)
    obtain ⟨s', hs'⟩ := hgo.stage
    obtain ⟨hview, hwants⟩ := h.view hb
    have hpaidc := h.intents c (Store.mem_of_get hc)
    refine ⟨c, b, s, s', hc, hb, hpaid, h.change ?_ ⟨?_, ?_⟩ ?_⟩
    · intro o ho
      refine hw.orderView (hfound hd' hd fun u hu => ?_)
      by_cases hid : u.id = k
      · rw [hid, hc, hc']
        have hnot : ∀ v : CommitIntent, isPaidIntent o v = true → v.aggregateId = c.aggregateId → False :=
          fun v hv hagg => ho ((aggregate_of_paid hv).symm.trans hagg)
        constructor
        · intro heq
          exact (hnot u hu (by rw [← Option.some.inj heq, hgo.aggregateId])).elim
        · intro heq
          exact (hnot u hu (by rw [← Option.some.inj heq])).elim
      · rw [hw.others _ hid]
    · have hpairs : orderPairs d' c.aggregateId = orderPairs d c.aggregateId := by
        rw [orderPairs, hw.rest .orderItem (.inr (.inl rfl)) (by decide), orderPairs]
      have hown : intentOf d' c.aggregateId = some c' := by
        rw [intentOf_eq_some_iff hd', hidc', hgo.isPaidIntent]
        exact ⟨hc', hpaidc⟩
      have horders : d'.get .orders c.aggregateId = d.get .orders c.aggregateId := by
        rw [Store.get, hw.rest .orders (.inl rfl) (by decide), Store.get]
      have hpay : paymentOf d' c.aggregateId = paymentOf d c.aggregateId := by
        rw [paymentOf, hw.rest .payment (.inr (.inr (.inl rfl))) (by decide), paymentOf]
      have hevent : eventOf d' c.aggregateId = eventOf d c.aggregateId := by
        rw [eventOf, hw.rest .outboxEvent (.inr (.inr (.inr (.inr rfl)))) (by decide), eventOf]
      have hsome : (eventOf d c.aggregateId).isSome = true := by
        have hshown : (eventOf d c.aggregateId).isSome = b.progress.stage.isSome := congrArg OrderView.paid hview
        rw [hshown, hpaid]
        rfl
      have hshown := congrArg OrderView.payment hview
      have hrow := congrArg OrderView.status hview
      rw [hpaid] at hshown hrow
      simp only [Fulfilment.orderView] at hshown hrow
      simp only [Fulfilment.orderView, horders, hrow, hpairs, hpay, hshown, hown, hevent, hsome, Option.map_some,
        hgo.payload, hpayload, hs']
      rfl
    · change itemsQty (orderPairs d' c.aggregateId) = b.wants
      rw [orderPairs, hw.rest .orderItem (.inr (.inl rfl)) (by decide)]
      exact hwants
    · intro u hu
      have hstored := Store.get_of_mem hd'.ids hu
      by_cases hid : u.id = k
      · have hgetk : d'.get .commitIntent k = some u := hid ▸ hstored
        obtain rfl : u = c' := Option.some.inj (hgetk.symm.trans hc')
        rw [hgo.aggregateId, hgo.isPaidIntent]
        exact hpaidc
      · exact h.intents u (Store.mem_of_get ((hw.others _ hid).symm.trans hstored))

end Changes
end Phyllonix.Fulfilment
