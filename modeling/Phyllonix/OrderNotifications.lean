import Phyllonix.OrderWorkers

/-!
# Notifications and the order book

A signed notification settles the order of the payment that it names. Payment, order, commit
intent and outbox event are written in one transaction, which holds the rows of payment and order.
-/

namespace Phyllonix.Fulfilment
open Relational
variable {n : ℕ} {lib : Lib} {reqs : Fin n → ShopRequest} {G : Guard shop shopHost n} {i : Fin n}
variable {sh : Shared shop shopHost} {x : ℕ → Option (Fin n)} {l l' : Txn shop} {req : WebhookRequest} {d : Db}

/-- The payload names a provider order. -/
def NamesOrder (req : WebhookRequest) : Prop :=
  ∀ payload f, req.json = some payload → paymentFields payload = .ok f → f.providerOrderId ≠ .null

/-- What the status of a notification makes of a payment that the provider has accepted. -/
theorem payOrderStatusUtil_settles {status event : Json} {st : PayOrderStatus}
    (h : payOrderStatusUtil status event = .ok st) (hp : st.paymentStatus ≠ PaymentStatus.pending.value) :
    ∃ q : Progress, q.Settles ∧ st.paymentStatus = q.paymentStatus ∧ st.orderStatus = q.orderStatus := by
  cases status with
  | str s =>
    simp only [payOrderStatusUtil, Except.ok.injEq] at h
    subst h
    have hauthorized : Progress.authorized.Settles := .inl rfl
    have hfailed : Progress.failed.Settles := .inr (.inl rfl)
    have hpaid : (Progress.paid .waiting).Settles := .inr (.inr rfl)
    have hknown : s ∉ ["captured", "authorized", "failed", "success"] → s ∉ ["captured", "authorized", "success"] := by
      intro hs hc
      apply hs
      simp only [List.mem_cons, List.not_mem_nil, or_false] at hc ⊢
      tauto
    by_cases hs : s ∉ ["captured", "authorized", "failed", "success"]
    · rw [if_pos hs, if_neg (hknown hs)]
      refine ⟨_, hfailed, rfl, ?_⟩
      split_ifs <;> rfl
    · rw [if_neg hs] at hp ⊢
      split_ifs at hp ⊢
      all_goals first
        | exact ⟨_, hauthorized, rfl, rfl⟩
        | exact ⟨_, hfailed, rfl, rfl⟩
        | exact ⟨_, hpaid, rfl, rfl⟩
        | exact absurd rfl hp
  | null => cases h
  | bool _ => cases h
  | num _ => cases h
  | arr _ => cases h
  | obj _ => cases h

/-! ## The payment -/

/-- The transaction moves payment `p` to `p'` and holds its row. -/
structure Holding (req : WebhookRequest) (p p' : Payment) (d : Db) (l : Txn shop) : Prop where
  stored : d.get .payment p.id = some p
  named : NamedBy req p
  locked : Lock.row Table.payment p.id ∈ l.locks
  same : p' = { p with status := p'.status, providerPaymentId := p'.providerPaymentId }
  rises : p.status < p'.status
  inserts : Inserts Counted l.writes d

section Payment
variable {p p' : Payment}

theorem Holding.seen (h : Holding req p p' sh.db l) {w : World shop shopHost} {y : ℕ → Option (Fin n)}
    (hs : Seen (orderly lib reqs) i l sh x w y) : Holding req p p' w.db l :=
  ⟨(hs.still.row _ _ h.locked).trans h.stored, h.named, h.locked, h.same, h.rises,
    h.inserts.congr fun v hv => hs.still.row _ _ (hs.ok.locked v hv)⟩

theorem Holding.append (h : Holding req p p' d l) {ws : List (Write shop)} (hw : l'.writes = ws ++ l.writes)
    (hws : ∀ v ∈ ws, ¬Counted v.tbl) (hlocks : ∀ z ∈ l.locks, z ∈ l'.locks) : Holding req p p' d l' := by
  refine ⟨h.stored, h.named, hlocks _ h.locked, h.same, h.rises, ?_⟩
  rw [hw]
  exact h.inserts.append_untouched hws

theorem Holding.insert (h : Holding req p p' d l) {t : Table} {r : t.Row}
    (hfresh : ∀ s ∈ l.view d t, rowId s < rowId r) : Holding req p p' d (l.write t [] r) := by
  refine ⟨h.stored, h.named, List.mem_append_right _ h.locked, h.same, h.rises, fun _ => ?_, h.inserts⟩
  exact Store.get_eq_none_iff.mpr fun s hs => (hfresh s hs).ne

theorem Holding.order (h : Holding req p p' d l) : p'.orderId = p.orderId := by rw [h.same]

/-- The provider has accepted the payment, and the order is not paid. -/
theorem Holding.found (h : Holding req p p' d l) (hd : d.Wf) {f : OrderBook} (hf : Represents d f) {q : Progress}
    (hq : p'.status = q.paymentStatus) : ∃ b, f p.orderId = some b ∧ p.status = b.progress.paymentStatus ∧
      b.progress ≠ .pending ∧ b.progress.stage = none ∧ b.progress.level < q.level := by
  obtain ⟨b, hb, hstatus, hsent⟩ := hf.payment hd (Store.mem_of_get h.stored)
  obtain ⟨-, -, -, o, -, -, -, ho⟩ := h.named
  have hrises := h.rises
  rw [hstatus, hq] at hrises
  exact ⟨b, hb, hstatus, hsent.mp (by rw [ho]; rfl), stage_eq_none hrises, level_lt hrises⟩

theorem updatePayCompletion_holds {pid st : ℕ} (ppid : Json) (hl : EventsOnly l.writes)
    (hk : ∃ q, sh.db.get .payment pid = some q ∧ NamedBy req q) :
    Safe (orderly lib reqs) G i (.ofOk fun r sh' _ l' => ∀ o, r = some o → ∃ p p', o = p.orderId ∧
        p'.status = st ∧ Holding req p p' sh'.db l' ∧ Moving p' [] [] [] l')
      (updatePayCompletionGetOrderid pid ppid st) sh x l := by
  apply Safe.bind
  apply safe_ofApp _ fun _ => trivial
  intro ppid _
  apply Safe.bind
  apply Safe.update _ fun _ _ _ _ _ _ _ => trivial
  intro w y hs l' hu
  have hrows : (l.view w.db .payment).filter (fun p : Payment => decide (p.id = pid) && decide (p.status < st)) =
      (((l.view w.db).get .payment pid).filter fun p : Payment => decide (p.status < st)).toList :=
    Store.filter_id_and (S := shop) hs.ok.wf.ids .payment pid fun p : Payment => decide (p.status < st)
  have hsame : (l.view w.db).get .payment pid = w.db.get .payment pid :=
    get_applyWrites_of_not_written (hl.not_written (by decide) _) w.db
  obtain ⟨q, hq, hnamed⟩ := hk
  obtain ⟨p, hp, -, hprov, hpo⟩ := hs.rely.1.payments pid q hq
  have hnamed' : NamedBy req p := named_later hnamed hprov hpo
  have hid : p.id = pid := Store.id_of_get hp
  rw [hrows, hsame, hp] at hu ⊢
  by_cases hlt : p.status < st
  · simp only [Option.filter, hlt, decide_true, if_true, Option.toList] at hu ⊢
    apply Safe.pure
    intro o ho
    cases ho
    have hbeside : ∀ v ∈ l.writes, ¬Watched v.tbl := by
      intro v hv
      rw [hl v hv]
      decide
    refine ⟨p, _, rfl, rfl, ⟨by rw [hid]; exact hp, hnamed', hu.locked p List.mem_cons_self, rfl, hlt, ?_⟩,
      Moving.start hbeside hu.writes⟩
    rw [hu.writes]
    refine ⟨fun hc => ?_, hl.inserts _⟩
    rcases hc with hc | hc <;> cases hc
  · simp only [Option.filter, hlt, decide_false, Option.toList] at hu ⊢
    exact Safe.pure fun o ho => by cases ho

end Payment

/-! ## The order -/

section Order
variable {p p' : Payment} {q : Progress}

/-- The transaction holds the row of the order as well. -/
structure HoldingOrder (req : WebhookRequest) (p p' : Payment) (r : Orders) (d : Db) (l : Txn shop) : Prop
    extends Holding req p p' d l where
  row : d.get .orders p.orderId = some r
  rowLocked : Lock.row Table.orders p.orderId ∈ l.locks

theorem HoldingOrder.seen {r : Orders} (h : HoldingOrder req p p' r sh.db l) {w : World shop shopHost}
    {y : ℕ → Option (Fin n)} (hs : Seen (orderly lib reqs) i l sh x w y) : HoldingOrder req p p' r w.db l :=
  ⟨h.toHolding.seen hs, (hs.still.row _ _ h.rowLocked).trans h.row, h.rowLocked⟩

theorem HoldingOrder.append {r : Orders} (h : HoldingOrder req p p' r d l) {ws : List (Write shop)}
    (hw : l'.writes = ws ++ l.writes) (hws : ∀ v ∈ ws, ¬Counted v.tbl) (hlocks : ∀ z ∈ l.locks, z ∈ l'.locks) :
    HoldingOrder req p p' r d l' := ⟨h.toHolding.append hw hws hlocks, h.row, hlocks _ h.rowLocked⟩

theorem HoldingOrder.insert {r : Orders} (h : HoldingOrder req p p' r d l) {t : Table} {s : t.Row}
    (hfresh : ∀ u ∈ l.view d t, rowId u < rowId s) : HoldingOrder req p p' r d (l.write t [] s) :=
  ⟨h.toHolding.insert hfresh, h.row, List.mem_append_right _ h.rowLocked⟩

theorem updateOrderStatus_holds (ost : ℕ) (hq : p'.status = q.paymentStatus) (h : Holding req p p' sh.db l)
    (hm : Moving p' [] [] [] l) :
    Safe (orderly lib reqs) G i (.ofOk fun _ sh' _ l' => ∃ r, HoldingOrder req p p' r sh'.db l' ∧
        Moving p' [{ r with status := ost }] [] [] l') (updateOrderStatus p.orderId ost) sh x l := by
  apply Safe.bind
  apply safe_updateOne (t := .orders) (k := p.orderId) _ fun _ _ _ _ _ _ _ => trivial
  intro w y hs l' hu
  have hnow := h.seen hs
  obtain ⟨f, hf⟩ := hs.inv.book
  obtain ⟨b, hb, -⟩ := hnow.found hs.world.wf hf hq
  have hsome : (w.db.get .orders p.orderId).isSome := by
    rw [← hf.isSome, hb]
    rfl
  obtain ⟨r, hr⟩ := Option.isSome_iff_exists.mp hsome
  have hview : (l.view w.db).get .orders p.orderId = some r := by
    rw [Store.get, view_of_written_nil hm.orders]
    exact hr
  obtain ⟨hwrites, hlock⟩ := updated_one hu hview
  have hheld : HoldingOrder req p p' r w.db l' := by
    have happended : l'.writes = [⟨.orders, { r with status := ost }⟩] ++ l.writes := hwrites
    refine ⟨hnow.append happended ?_ hu.keeps, hr, hlock⟩
    intro v hv
    rw [List.mem_singleton.mp hv]
    rintro (hc | hc) <;> cases hc
  have hmoving : Moving p' [{ r with status := ost }] [] [] l' := by
    constructor
    · rw [hwrites, written_cons_of_ne (by decide), hm.payments]
    · rw [hwrites, written_cons_self, hm.orders]
      rfl
    · rw [hwrites, written_cons_of_ne (by decide), hm.items]
    · rw [hwrites, written_cons_of_ne (by decide), hm.intents]
    · rw [hwrites, written_cons_of_ne (by decide), hm.events]
    · rw [hwrites, written_cons_of_ne (by decide), hm.products]
  apply Safe.bind
  exact safe_oneOrNone (fun _ => Safe.pure ⟨r, hheld, hmoving⟩) (fun _ _ => Safe.pure ⟨r, hheld, hmoving⟩) trivial

/-! ## Commit intent and event -/

variable {r : Orders} {rs : List Orders} {cs : List CommitIntent} {es : List OutboxEvent}

/-- What is filed for an order that comes to `q`. -/
structure Filed (d : Db) (o : ℕ) (q : Progress) (cs : List CommitIntent) (es : List OutboxEvent) : Prop where
  paidIntents : ∀ c ∈ cs, isPaidIntent o c = true
  ownEvents : ∀ e ∈ es, e.aggregateId = o
  intent : cs.head?.map (fun c => (c.payload, c.status)) =
    q.stage.map fun s => (some ⟨o, orderPairs d o⟩, s.status)
  event : es.any (isPaidEvent o) = q.stage.isSome

theorem Filed.later {d' : Db} {o : ℕ} (h : Filed d o q cs es) (hlater : Later d d') (ho : (d.get .orders o).isSome) :
    Filed d' o q cs es := by
  refine ⟨h.paidIntents, h.ownEvents, ?_, h.event⟩
  rw [hlater.items o ho]
  exact h.intent

theorem Moving.addIntent {c : CommitIntent} (h : Moving p' rs cs es l) :
    Moving p' rs (cs ++ [c]) es (l.write .commitIntent [] c) := by
  constructor
  · rw [Txn.write, written_cons_of_ne (by decide), h.payments]
  · rw [Txn.write, written_cons_of_ne (by decide), h.orders]
  · rw [Txn.write, written_cons_of_ne (by decide), h.items]
  · rw [Txn.write, written_cons_self, h.intents]
  · rw [Txn.write, written_cons_of_ne (by decide), h.events]
  · rw [Txn.write, written_cons_of_ne (by decide), h.products]

theorem Moving.addEvent {e : OutboxEvent} (h : Moving p' rs cs es l) :
    Moving p' rs cs (es ++ [e]) (l.write .outboxEvent [] e) := by
  constructor
  · rw [Txn.write, written_cons_of_ne (by decide), h.payments]
  · rw [Txn.write, written_cons_of_ne (by decide), h.orders]
  · rw [Txn.write, written_cons_of_ne (by decide), h.items]
  · rw [Txn.write, written_cons_of_ne (by decide), h.intents]
  · rw [Txn.write, written_cons_self, h.events]
  · rw [Txn.write, written_cons_of_ne (by decide), h.products]

theorem paidIntents_eq_nil {o : ℕ} (h : intentOf d o = none) : paidIntents d o = [] :=
  List.filter_eq_nil_iff.mpr (List.find?_eq_none.mp h)

theorem paidEvents_eq_nil {o : ℕ} (h : eventOf d o = none) : paidEvents d o = [] :=
  List.filter_eq_nil_iff.mpr (List.find?_eq_none.mp h)

/-- The order is not paid yet, so that the intent is new. -/
theorem createCommitIntent_holds (payload : CommitPayload) (hq : p'.status = q.paymentStatus)
    (h : HoldingOrder req p p' r sh.db l) (hm : Moving p' rs [] es l) :
    Safe (orderly lib reqs) G i (.ofOk fun _ sh' _ l' => Later sh.db sh'.db ∧ HoldingOrder req p p' r sh'.db l' ∧
        ∃ c, Moving p' rs [c] es l' ∧ isPaidIntent p.orderId c = true ∧ c.payload = some payload ∧
          c.status = CommitIntentStatus.pending.value)
      (createCommitIntent p.orderId "payment_succeeded" "order" payload) sh x l := by
  apply Safe.bind
  apply Safe.insert
  · intro w y hs m hm' _
    have hnow := h.seen hs
    apply Safe.pure
    refine ⟨hs.rely.1, hnow.insert hm', _, hm.addIntent, ?_, rfl, rfl⟩
    simp [isPaidIntent]
  · intro _ w y hs m hfree
    have hnow := h.seen hs
    obtain ⟨f, hf⟩ := hs.inv.book
    obtain ⟨b, hb, -, -, hunpaid, -⟩ := hnow.found hs.world.wf hf hq
    have hnone : paidIntents (l.view w.db) p.orderId = [] := by
      rw [paidIntents, view_of_written_nil hm.intents]
      exact paidIntents_eq_nil (hf.no_intent hb hunpaid)
    exact absurd (free_of_no_intent hnone) hfree
  · exact fun _ _ _ _ _ _ => trivial

theorem emitOutboxEvent_holds (topic : String) (payload : OutboxPayload) (hq : p'.status = q.paymentStatus)
    (h : HoldingOrder req p p' r sh.db l) (hm : Moving p' rs cs [] l) :
    Safe (orderly lib reqs) G i (.ofOk fun _ sh' _ l' => Later sh.db sh'.db ∧ HoldingOrder req p p' r sh'.db l' ∧
        ∃ es, Moving p' rs cs es l' ∧ (∀ e ∈ es, e.aggregateId = p.orderId) ∧
          es.any (isPaidEvent p.orderId) = decide (topic = "order.paid"))
      (emitOutboxEvent topic payload "order" p.orderId) sh x l := by
  apply Safe.bind
  apply Safe.insert
  · intro w y hs m hm' _
    have hnow := h.seen hs
    apply Safe.pure
    refine ⟨hs.rely.1, hnow.insert hm', _, hm.addEvent, ?_, ?_⟩
    · intro e he
      rw [List.nil_append] at he
      rw [List.mem_singleton.mp he]
    · simp [isPaidEvent]
  · intro _ w y hs m hfree
    have hnow := h.seen hs
    obtain ⟨f, hf⟩ := hs.inv.book
    obtain ⟨b, hb, -, -, hunpaid, -⟩ := hnow.found hs.world.wf hf hq
    have htopic : topic ≠ "order.paid" := by
      rintro rfl
      have hnone : paidEvents (l.view w.db) p.orderId = [] := by
        rw [paidEvents, view_of_written_nil hm.events]
        exact paidEvents_eq_nil (hf.no_event hb hunpaid)
      exact hfree (free_of_no_event hnone)
    apply Safe.bind
    apply Safe.read _ fun _ _ _ _ _ _ _ => trivial
    intro w₁ y₁ hs₁
    have hdone : Later sh.db w₁.db ∧ HoldingOrder req p p' r w₁.db l ∧ ∃ es, Moving p' rs cs es l ∧
        (∀ e ∈ es, e.aggregateId = p.orderId) ∧ es.any (isPaidEvent p.orderId) = decide (topic = "order.paid") :=
      ⟨hs.rely.1.trans hs₁.rely.1, hnow.seen hs₁, [], hm, (fun e he => by cases he),
        (decide_eq_false htopic).symm⟩
    exact Safe.bind (safe_oneOrNone (fun _ => Safe.pure hdone) (fun _ _ => Safe.pure hdone) trivial)
  · exact fun _ _ _ _ _ _ => trivial

theorem emitPaymentEvents_holds (f : PaymentFields) (hsettles : q.Settles) (hq : p'.status = q.paymentStatus)
    (h : HoldingOrder req p p' r sh.db l) (hm : Moving p' rs [] [] l) :
    Safe (orderly lib reqs) G i (.ofOk fun _ sh' _ l' => HoldingOrder req p p' r sh'.db l' ∧
        ∃ cs es, Moving p' rs cs es l' ∧ Filed sh'.db p.orderId q cs es)
      (emitPaymentEvents p.orderId f q.paymentStatus) sh x l := by
  have hnil : ∀ {P : CommitIntent → Prop}, ∀ c ∈ ([] : List CommitIntent), P c := fun c hc => by cases hc
  have hnil' : ∀ {P : OutboxEvent → Prop}, ∀ e ∈ ([] : List OutboxEvent), P e := fun e he => by cases he
  rw [emitPaymentEvents]
  rcases hsettles with rfl | rfl | rfl
  · exact Safe.pure ⟨h, [], [], hm, ⟨hnil, hnil', rfl, rfl⟩⟩
  · apply Safe.bind
    apply (emitOutboxEvent_holds "order.pending_payment" _ hq h hm).mono
    intro out sh₁ x₁ l₁ hout
    cases out with
    | error e => trivial
    | ok _ =>
      obtain ⟨-, hheld, es, hmoving, hown, hany⟩ := hout
      exact Safe.pure ⟨hheld, [], es, hmoving, ⟨hnil, hown, rfl, hany⟩⟩
  · apply Safe.bind
    apply Safe.bind
    apply Safe.read _ fun _ _ _ _ _ _ _ => trivial
    intro w y hs
    have hnow := h.seen hs
    have hitems : orderPairs (l.view w.db) p.orderId = orderPairs w.db p.orderId := by
      rw [orderPairs, view_of_written_nil hm.items, orderPairs]
    apply Safe.pure
    apply Safe.bind
    apply (createCommitIntent_holds ⟨p.orderId, orderPairs (l.view w.db) p.orderId⟩ hq hnow hm).mono
    intro out sh₁ x₁ l₁ hout
    cases out with
    | error e => trivial
    | ok _ =>
      obtain ⟨hlater₁, hheld₁, c, hmoving₁, hpaid, hpayload, hstatus⟩ := hout
      apply Safe.bind
      apply (emitOutboxEvent_holds "order.paid" _ hq hheld₁ hmoving₁).mono
      intro out sh₂ x₂ l₂ hout
      cases out with
      | error e => trivial
      | ok _ =>
        obtain ⟨hlater₂, hheld₂, es, hmoving₂, hown, hany⟩ := hout
        have hsome : (w.db.get .orders p.orderId).isSome := by
          rw [hnow.row]
          rfl
        refine Safe.pure ⟨hheld₂, [c], es, hmoving₂, ?_, hown, ?_, hany⟩
        · intro c' hc'
          rw [List.mem_singleton.mp hc']
          exact hpaid
        · rw [(hlater₁.trans hlater₂).items _ hsome, ← hitems]
          change some (c.payload, c.status) = _
          rw [hpayload, hstatus]
          rfl

/-! ## The commit -/

theorem HoldingOrder.get_orders {ost : ℕ} (h : HoldingOrder req p p' r d l)
    (hm : Moving p' [{ r with status := ost }] cs es l) (o : ℕ) :
    (l.view d).get .orders o = if o = p.orderId then some { r with status := ost } else d.get .orders o := by
  have hrows : l.view d .orders = putRow (S := shop) (t := .orders) { r with status := ost } (d .orders) := by
    rw [Txn.view, applyWrites_rows, hm.orders]
    rfl
  have hid : r.id = p.orderId := Store.id_of_get h.row
  rw [Store.get_putRow hrows, ← hid]
  rfl

theorem HoldingOrder.moved (h : HoldingOrder req p p' r d l) (hsettles : q.Settles)
    (hq : p'.status = q.paymentStatus) (hm : Moving p' [{ r with status := q.orderStatus }] cs es l)
    (hfiled : Filed d p.orderId q cs es) : Moved d (l.view d) p p' q cs es := by
  obtain ⟨-, -, -, po, -, -, -, hpo⟩ := h.named
  constructor
  · exact Store.mem_of_get h.stored
  · rw [h.same]
  · exact h.order
  · exact hq
  · have hsent : p'.providerOrderId = some po := by
      rw [h.same]
      exact hpo
    rw [hsent]
    rcases hsettles with rfl | rfl | rfl <;> rfl
  · exact hm.view_payments d
  · intro o
    rw [h.get_orders hm]
    split <;> rfl
  · exact view_of_written_nil hm.items d
  · rw [Txn.view, applyWrites_written h.inserts (.inl rfl), hm.intents]
  · rw [Txn.view, applyWrites_written h.inserts (.inr rfl), hm.events]
  · exact hfiled.paidIntents
  · exact hfiled.ownEvents
  · exact hfiled.intent
  · exact hfiled.event

theorem HoldingOrder.turned (hreq : reqs i = .webhook req) (hsigned : ∃ sig, Signed lib req sig)
    (hreports : Reports req q) (hsettles : q.Settles) (hd : d.Wf) (hbook : Orderly d x)
    (h : HoldingOrder req p p' r d l) (hq : p'.status = q.paymentStatus)
    (hm : Moving p' [{ r with status := q.orderStatus }] cs es l) (hfiled : Filed d p.orderId q cs es) :
    Later d (l.view d) ∧ LeavesPending (fun o => x o ≠ some i) d (l.view d) ∧ Turned lib (reqs i) d (l.view d) := by
  have hmoved := h.moved hsettles hq hm hfiled
  have hprov : p'.provider = p.provider := by rw [h.same]
  have hsent : p'.providerOrderId = p.providerOrderId := by rw [h.same]
  refine ⟨hmoved.later hd ?_ hprov (fun _ hpo => hsent.trans hpo) (view_of_written_nil hm.products d), ?_, ?_⟩
  · intro o u hu
    rw [h.get_orders hm]
    split
    · rename_i ho
      rw [ho, h.row] at hu
      cases hu
      exact ⟨_, rfl, rfl⟩
    · exact ⟨u, hu, rfl⟩
  · refine hmoved.leaves hd fun hpending _ => ?_
    obtain ⟨f, hf⟩ := hbook.book
    obtain ⟨b, -, hstatus, hne, -⟩ := h.found hd hf hq
    exact hne (pending_of_status (hstatus.symm.trans hpending))
  · intro f hf
    obtain ⟨b, hb, -, hne, hunpaid, hlevel⟩ := h.found hd hf hq
    refine .inr ⟨_, .settle p.orderId q, hf.moved hd hmoved hb hunpaid, .settle hb hne hlevel hsettles, ?_⟩
    rw [hreq]
    refine .settle hsigned hreports ⟨p.id, p', ?_, ?_, h.order⟩
    · rw [hmoved.get_payment, if_pos rfl]
    · exact named_later h.named hprov fun _ hpo => hsent.trans hpo

end Order

/-! ## A notification -/

section Request
variable {st : PayOrderStatus} {f : PaymentFields}

theorem settle_orderly (hreq : reqs i = .webhook req) (hsigned : ∃ sig, Signed lib req sig) {q : Progress}
    {p p' : Payment} (hreports : Reports req q) (hsettles : q.Settles) (evId : ℕ) (hq : p'.status = q.paymentStatus)
    (h : Holding req p p' sh.db l) (hm : Moving p' [] [] [] l) :
    Safe (orderly lib reqs) G i (.ofOk fun _ _ _ _ => True) (do
      let _ ← updateOrderStatus p.orderId q.orderStatus
      let out ← emitPaymentEvents p.orderId f q.paymentStatus
      markWebhookProcessed evId
      commit
      pure (some out)) sh x l := by
  apply Safe.bind
  apply (updateOrderStatus_holds q.orderStatus hq h hm).mono
  intro res sh₁ x₁ l₁ hres
  cases res with
  | error e => trivial
  | ok _ =>
    obtain ⟨r, hheld₁, hmoving₁⟩ := hres
    apply Safe.bind
    apply (emitPaymentEvents_holds f hsettles hq hheld₁ hmoving₁).mono
    intro out sh₂ x₂ l₂ hout
    cases out with
    | error e => trivial
    | ok out =>
      obtain ⟨hheld₂, cs, es, hmoving₂, hfiled⟩ := hout
      have hknown : (sh₂.db.get .orders p.orderId).isSome := by
        rw [hheld₂.row]
        rfl
      apply Safe.bind
      apply Safe.bind
      apply safe_now orderly_quiet
      intro w y hs
      apply Safe.bind
      apply Safe.update _ fun _ _ _ _ _ _ _ => trivial
      intro w₃ y₃ hs₃ l₃ hu
      have hbeside : ∀ v ∈ updateWrites (S := shop) (t := .paymentWebhookEvent)
          (fun e : PaymentWebhookEvent => { e with processedAt := some w.host.clock, lastError := none })
          ((l₂.view w₃.db .paymentWebhookEvent).filter fun e : PaymentWebhookEvent => e.id = evId),
          v.tbl = Table.paymentWebhookEvent := by
        intro v hv
        obtain ⟨e, -, rfl⟩ := List.mem_map.mp (List.mem_reverse.mp hv)
        rfl
      have hheld₃ := ((hheld₂.seen hs).seen hs₃).append hu.writes
        (fun v hv => by rw [hbeside v hv]; rintro (hc | hc) <;> cases hc) hu.keeps
      have hmoving₃ := hmoving₂.append hu.writes fun v hv => by rw [hbeside v hv]; decide
      have hlater₃ : Later sh₂.db w₃.db := hs.rely.1.trans hs₃.rely.1
      apply Safe.pure
      apply Safe.bind
      apply safe_commit_turned _ fun _ _ _ _ _ _ => trivial
      intro w₄ y₄ hs₄
      have hfiled₄ := hfiled.later (hlater₃.trans hs₄.rely.1) hknown
      obtain ⟨hlater, hleaves, hturned⟩ := (hheld₃.seen hs₄).turned hreq hsigned hreports hsettles
        hs₄.world.wf hs₄.inv hq hmoving₃ hfiled₄
      exact ⟨hlater, hleaves, hturned, Safe.pure trivial⟩

theorem criticalSection_orderly (hreq : reqs i = .webhook req) (hsigned : ∃ sig, Signed lib req sig)
    {status event : Json} (hst : payOrderStatusUtil status event = .ok st)
    (hreports : ∀ q : Progress, st.paymentStatus = q.paymentStatus → Reports req q) (pid evId : ℕ)
    (hl : EventsOnly l.writes) (hk : ∃ q, sh.db.get .payment pid = some q ∧ NamedBy req q) :
    Safe (orderly lib reqs) G i (.ofOk fun _ _ _ _ => True) (criticalSection pid f st evId) sh x l := by
  apply Safe.bind
  apply (updatePayCompletion_holds _ hl hk).mono
  intro o sh₁ x₁ l₁ ho
  cases o with
  | error e => trivial
  | ok o =>
    cases o with
    | none => trivial
    | some o =>
      cases o with
      | zero => trivial
      | succ o =>
        obtain ⟨p, p', horder, hstatus, hheld, hmoving⟩ := ho _ rfl
        have hrises := hheld.rises
        rw [hstatus] at hrises
        have hmoves : st.paymentStatus ≠ PaymentStatus.pending.value := (Nat.zero_le _).trans_lt hrises |>.ne'
        obtain ⟨q, hsettles, hpay, hord⟩ := payOrderStatusUtil_settles hst hmoves
        have hrest := settle_orderly (f := f) (G := G) (x := x₁) hreq hsigned (hreports q hpay) hsettles
          evId (hstatus.trans hpay) hheld hmoving
        rw [← horder, ← hpay, ← hord] at hrest
        exact hrest

theorem receiveEvent_orderly (hreq : reqs i = .webhook req) (hsigned : ∃ sig, Signed lib req sig)
    {payload event : Json} (hjson : req.json = some payload) (hevent : payload.get "event" .null = .ok event)
    (hf : paymentFields payload = .ok f) (eventId : String) {pay : PayRecord} (hl : EventsOnly l.writes)
    (hk : ∃ q, sh.db.get .payment pay.id = some q ∧ NamedBy req q) :
    Safe (orderly lib reqs) G i (fun _ _ _ _ => True) (receiveEvent eventId payload event pay f) sh x l := by
  apply Safe.bind
  apply safe_ofApp _ fun _ => trivial
  intro st hst
  have hreports : ∀ q : Progress, st.paymentStatus = q.paymentStatus → Reports req q := fun q hq =>
    ⟨payload, event, f, st, hjson, hevent, hf, hst, hq⟩
  have hstays : ∀ w y, Seen (orderly lib reqs) i l sh x w y →
      ∃ q, w.db.get .payment pay.id = some q ∧ NamedBy req q := by
    intro w y hs
    obtain ⟨q, hq, hnamed⟩ := hk
    obtain ⟨q', hq', -, hprov, hpo⟩ := hs.rely.1.payments _ q hq
    exact ⟨q', hq', named_later hnamed hprov hpo⟩
  apply Safe.bind
  apply Safe.bind
  apply Safe.insert
  · intro w y hs m _ _
    apply Safe.pure
    simp only
    split
    · trivial
    · apply processEvent_safe orderly_quiet orderly_commitsEvents
      exact criticalSection_orderly hreq hsigned hst hreports _ _ (hl.cons _) (hstays w y hs)
  · intro _ w y hs m _
    apply Safe.pure
    dsimp only
    split <;> trivial
  · exact fun _ _ _ _ _ _ => trivial

theorem signed_of_verified {req : WebhookRequest} (h : verifyRazorpaySignature lib req = pure ()) :
    ∃ sig, Signed lib req sig := by
  rw [verifyRazorpaySignature] at h
  split at h
  · cases h
  · cases h
  · rename_i sig hne hsig
    split at h
    · cases h
    · rename_i hascii
      split at h
      · rename_i hmac
        exact ⟨sig, hsig, hne, by simpa using hascii, hmac⟩
      · cases h

theorem razorpayWebhook_orderly (hreq : reqs i = .webhook req) (hnames : NamesOrder req) :
    Safe (orderly lib reqs) G i (fun _ _ _ _ => True) (razorpayWebhook lib req) sh x {} := by
  rcases verifyRazorpaySignature_cases lib req with hv | ⟨m, hv⟩
  · have hsigned := signed_of_verified hv
    rw [razorpayWebhook, hv]
    apply Safe.bind
    apply Safe.pure
    cases hjson : req.json with
    | none => trivial
    | some payload =>
      apply Safe.bind
      apply safe_ofApp _ fun _ => trivial
      intro event hevent
      dsimp only
      split
      · trivial
      · trivial
      rename_i eventId _ _
      apply Safe.bind
      apply safe_ofApp _ fun _ => trivial
      intro f hf
      apply Safe.bind
      apply Safe.bind
      apply safe_ofApp _ fun _ => trivial
      intro poid hpoid
      apply Safe.bind
      apply Safe.read _ fun _ _ _ _ _ _ _ => trivial
      intro w y hs
      apply Safe.bind
      apply safe_oneOrNone
      · exact fun _ => Safe.pure (unmatched_safe _ _ _ _ _ .nil)
      · intro p hone
        have hmem : p ∈ (w.db .payment).filter fun p : Payment =>
            p.provider = some "razorpay" && p.providerOrderId = poid := by
          have hrows : (w.db .payment).filter (fun p : Payment =>
            p.provider = some "razorpay" && p.providerOrderId = poid) = [p] := hone
          exact hrows ▸ List.mem_cons_self
        simp only [List.mem_filter, Bool.and_eq_true, decide_eq_true_eq] at hmem
        obtain ⟨hp, hprov, hpo⟩ := hmem
        have hget : w.db.get .payment p.id = some p := Store.get_of_mem hs.world.wf.ids hp
        have hnamed : NamedBy req p := by
          rcases found_payment hpoid with ⟨o, ho, hoo⟩ | ⟨hnull, -⟩
          · exact ⟨hprov, payload, f, o, hjson, hf, ho, hpo.trans hoo⟩
          · exact absurd hnull (hnames payload f hjson hf)
        apply Safe.pure
        simp only [Option.map_some]
        split
        · exact unmatched_safe _ _ _ _ _ .nil
        · exact unmatched_safe _ _ _ _ _ .nil
        rename_i pay _ hpay
        cases hpay
        split
        · trivial
        · exact receiveEvent_orderly hreq hsigned hjson hevent hf eventId .nil ⟨p, hget, hnamed⟩
      · trivial
  · rw [razorpayWebhook, hv]
    trivial

end Request
end Phyllonix.Fulfilment
