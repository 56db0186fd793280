import Phyllonix.OrderRefinement

/-!
# What the machine says of the tables

The runs of the machine, read in the tables: where the missing stock is, how an order has come to
be confirmed, that the rows of an order agree, and that no order falls back.
-/

namespace Phyllonix.Fulfilment
open Relational Abstract
variable {n : ℕ} {lib : Lib} {publicId : ℕ → UUID} {reqs : Fin n → ShopRequest} {w : World shop shopHost}
variable {s s' : Sys shop shopHost n (Except (Exn AppErr) (Option Reply))} {f₀ : OrderBook}

/-! ## Stock -/

section Stock
variable {d : Db} {f : OrderBook} {o : ℕ} {b : Order}

/-- The commit intent of the order is done. -/
def GoodsTaken (d : Db) (o : ℕ) : Prop :=
  ∃ c : CommitIntent, c ∈ d .commitIntent ∧ isPaidIntent o c = true ∧ c.status = CommitIntentStatus.done.value

theorem Represents.taken (h : Represents d f) (hd : d.Wf) : Taken f o ↔ GoodsTaken d o := by
  constructor
  · rintro ⟨b, hb, htaken⟩
    have hintent := congrArg OrderView.intent (h.view hb).1
    rw [htaken] at hintent
    obtain ⟨c, hc, heq⟩ := Option.map_eq_some_iff.mp hintent
    exact ⟨c, List.mem_of_find?_eq_some hc, List.find?_some hc, (Prod.mk.inj heq).2⟩
  · rintro ⟨c, hc, hpaid, hdone⟩
    obtain ⟨b, s, hb, hprogress, hstatus, -⟩ := h.intent hd hc
    rw [aggregate_of_paid hpaid] at hb
    have hs : s = .taken := Stage.status_injective (hstatus.symm.trans hdone)
    exact ⟨b, hb, hs ▸ hprogress⟩

theorem Represents.wanted (h : Represents d f) (hb : f o = some b) (p : ℕ) :
    Fulfilment.wanted f o p = itemsQty (orderPairs d o) p := by
  rw [Fulfilment.wanted, hb]
  exact (congrFun (h.view hb).2 p).symm

/-- A paid order is confirmed and its payment captured. -/
structure PaidFor (d : Db) (o : ℕ) : Prop where
  confirmed : (d.get .orders o).map Orders.status = some OrderStatus.confirmed.value
  captured : ∃ p : Payment, p ∈ d .payment ∧ p.orderId = o ∧ p.status = PaymentStatus.captured.value

theorem Represents.paidFor (h : Represents d f) {g : Stage} (hb : f o = some b) (hpaid : b.progress = .paid g) :
    PaidFor d o := by
  constructor
  · rw [h.status hb, hpaid]
    rfl
  · have hpayment := congrArg OrderView.payment (h.view hb).1
    rw [hpaid] at hpayment
    obtain ⟨p, hp, heq⟩ := Option.map_eq_some_iff.mp hpayment
    obtain ⟨hmem, ho⟩ := mem_of_paymentOf hp
    exact ⟨p, hmem, ho, (Prod.mk.inj heq).1⟩

/-- The stock has lost what the taken orders list, each of them once. -/
structure Sold (d₀ d : Db) (taken : List ℕ) : Prop where
  once : taken.Nodup
  exact : ∀ o, o ∈ taken ↔ GoodsTaken d o ∧ ¬GoodsTaken d₀ o
  paid : ∀ o ∈ taken, PaidFor d o
  stock : ∀ p, stocks d p = (stocks d₀ p).map fun q => q - (taken.map fun o => itemsQty (orderPairs d o) p).sum

/-- Over a whole run the stock is missing exactly what the orders list whose goods were taken in it,
and these are paid for. -/
theorem stock_accounted (hnames : AllName reqs) (hw : w.Ok) (hf₀ : Represents w.db f₀)
    (hrun : Sys.Run recoveryAllowed History.none (shopRequests lib publicId reqs w) () s ()) :
    ∃ taken, Sold w.db s.world.db taken := by
  obtain ⟨log, f, h⟩ := accounts_of_run hnames hw hf₀ hrun
  have hwf := (hrun.ok (Sys.start_ok hw _)).world.wf
  have htaken : ∀ o, o ∈ taking (log.map Prod.snd) → ∃ b, f o = some b ∧ b.progress = .paid .taken :=
    fun o ho => (runs_taken h.runs).mpr (.inr ho)
  obtain ⟨honce, hfresh⟩ := runs_taking_once h.runs
  refine ⟨taking (log.map Prod.snd), honce, fun o => ?_, fun o ho => ?_, fun p => ?_⟩
  · rw [← h.represents.taken hwf, ← hf₀.taken hw.wf, runs_taken h.runs]
    constructor
    · exact fun ho => ⟨.inr ho, hfresh o ho⟩
    · rintro ⟨htaken | ho, hnot⟩
      · exact absurd htaken hnot
      · exact ho
  · obtain ⟨b, hb, hpaid⟩ := htaken o ho
    exact h.represents.paidFor hb hpaid
  · have hlists : (taking (log.map Prod.snd)).map (fun o => wanted f o p) =
        (taking (log.map Prod.snd)).map fun o => itemsQty (orderPairs s.world.db o) p := by
      refine List.map_congr_left fun o ho => ?_
      obtain ⟨b, hb, -⟩ := htaken o ho
      exact h.represents.wanted hb p
    rw [← hlists]
    exact runs_stock h.runs p

/-- The goods of order 6 are missing. -/
theorem stock_accounted_sale : ∃ (s : Sys shop shopHost 3 (Except (Exn AppErr) (Option Reply))) (taken : List ℕ),
    stocks s.world.db 5 = some 6 ∧ Sold freshShop.db s.world.db taken := by
  obtain ⟨s, hrun, -, hstock, -⟩ := sale_run
  obtain ⟨taken, h⟩ := stock_accounted sale_names freshShop_ok freshShop_empty hrun
  exact ⟨s, taken, hstock, h⟩

end Stock

/-! ## How an order came to be confirmed -/

section Trails
variable {d d₀ : Db} {f : OrderBook} {log : List (Fin n × Operation)} {o : ℕ} {b : Order}

theorem confirmed_stage {p : Progress} (h : p.orderStatus = OrderStatus.confirmed.value) : ∃ g, p = .paid g := by
  cases p with
  | paid g => exact ⟨g, rfl⟩
  | _ => exact absurd h (by decide)

theorem trail_of_paid (g : Stage) (o : ℕ) (wants : ℕ → ℤ) :
    [.place o wants, .accept o, .settle o (.paid .waiting)].Sublist ((Progress.paid g).trail o wants) := by
  cases g with
  | taken => exact List.sublist_append_left [_, _, _] [_]
  | _ => exact List.Sublist.refl _

theorem two_operations {l : List (Fin n × Operation)} {a b : Operation} (h : [a, b] = l.map Prod.snd) :
    ∃ i j, l = [(i, a), (j, b)] := by
  obtain ⟨⟨i, a'⟩, l₁, rfl, rfl, h₁⟩ := List.map_eq_cons_iff.mp h.symm
  obtain ⟨⟨j, b'⟩, l₂, rfl, rfl, h₂⟩ := List.map_eq_cons_iff.mp h₁
  exact ⟨i, j, by rw [List.map_eq_nil_iff.mp h₂]⟩

theorem three_operations {l : List (Fin n × Operation)} {a b c : Operation} (h : [a, b, c] = l.map Prod.snd) :
    ∃ i j k, l = [(i, a), (j, b), (k, c)] := by
  obtain ⟨⟨i, a'⟩, l₁, rfl, rfl, h₁⟩ := List.map_eq_cons_iff.mp h.symm
  obtain ⟨j, k, rfl⟩ := two_operations h₁.symm
  exact ⟨i, j, k, rfl⟩

/-- The order was placed and accepted in confirmations of its user, then settled by a signed notification that reports
its payment captured. If its goods are taken, a worker for its intent took them last. -/
structure Confirmed (lib : Lib) (reqs : Fin n → ShopRequest) (d : Db) (log : List (Fin n × Operation)) (r : Orders) :
    Prop where
  paid : ∃ i j k req₁ req₂ req₃ wants p, [(i, .place r.id wants), (j, .accept r.id),
      (k, .settle r.id (.paid .waiting))].Sublist log ∧
    reqs i = .secureConfirm req₁ ∧ r.userId = some req₁.userIdentifier ∧ wants = itemsQty (orderPairs d r.id) ∧
    reqs j = .secureConfirm req₂ ∧ r.userId = some req₂.userIdentifier ∧
    reqs k = .webhook req₃ ∧ (∃ sig, Signed lib req₃ sig) ∧ Reports req₃ (.paid .waiting) ∧
    p ∈ d .payment ∧ p.orderId = r.id ∧ NamedBy req₃ p
  taken : GoodsTaken d r.id → ∃ k m max c, [(k, Operation.settle r.id (.paid .waiting)),
      (m, .work r.id .taken)].Sublist log ∧ reqs m = .commitIntent max (some c.id) ∧ c ∈ d .commitIntent ∧
    c.aggregateId = r.id

theorem Accounts.confirmed (h : Accounts lib reqs d₀ d f₀ log f) (hd : d.Wf) {r : Orders}
    (hnew : f₀ r.id = none) (hr : d.get .orders r.id = some r) (hstatus : r.status = OrderStatus.confirmed.value) :
    Confirmed lib reqs d log r := by
  have hsome := h.represents.isSome r.id
  rw [hr] at hsome
  obtain ⟨b, hb⟩ := Option.isSome_iff_exists.mp hsome
  have hshown := h.represents.status hb
  rw [hr, Option.map_some, hstatus] at hshown
  obtain ⟨g, hg⟩ := confirmed_stage (Option.some.inj hshown).symm
  have htrail := runs_trail h.runs hnew hb
  rw [hg] at htrail
  have hown : ∀ {i op}, (i, op) ∈ log → Does lib d (reqs i) op := fun hmem => h.does _ hmem
  constructor
  · obtain ⟨l, hl, hmap⟩ := List.sublist_map_iff.mp ((trail_of_paid g r.id b.wants).trans htrail)
    obtain ⟨i, j, k, rfl⟩ := three_operations hmap
    have hplace := hown (hl.subset List.mem_cons_self)
    have haccept := hown (hl.subset (List.mem_cons_of_mem _ List.mem_cons_self))
    have hsettle := hown (hl.subset (List.mem_cons_of_mem _ (List.mem_cons_of_mem _ List.mem_cons_self)))
    obtain ⟨req₁, hreq₁, r₁, hr₁, huser₁⟩ := hplace.place_request
    obtain ⟨req₂, hreq₂, r₂, hr₂, huser₂⟩ := haccept.accept_request
    obtain ⟨req₃, hreq₃, hsigned, hreports, q, p, hp, hnamed, ho⟩ := hsettle.settle_request
    cases hr.symm.trans hr₁
    cases hr.symm.trans hr₂
    exact ⟨i, j, k, req₁, req₂, req₃, b.wants, p, hl, hreq₁, huser₁, (h.represents.view hb).2.symm, hreq₂, huser₂,
      hreq₃, hsigned, hreports, Store.mem_of_get hp, ho, hnamed⟩
  · intro hgoods
    obtain ⟨b', hb', htaken⟩ := (h.represents.taken hd).mpr hgoods
    cases hb.symm.trans hb'
    cases hg.symm.trans htaken
    have hlast : [Operation.settle r.id (.paid .waiting), .work r.id .taken].Sublist
        ((Progress.paid .taken).trail r.id b.wants) := List.sublist_append_right [_, _] [_, _]
    obtain ⟨l, hl, hmap⟩ := List.sublist_map_iff.mp (hlast.trans htrail)
    obtain ⟨k, m, rfl⟩ := two_operations hmap
    have hwork := hown (hl.subset (List.mem_cons_of_mem _ List.mem_cons_self))
    obtain ⟨max, q, hreq, c, hc, hagg⟩ := hwork.work_request
    have hid : c.id = q := Store.id_of_get hc
    exact ⟨k, m, max, c, hl, hid ▸ hreq, Store.mem_of_get hc, hagg⟩

/-- What led to an order that was placed in the run and is confirmed is in the log of the run, in this order. -/
theorem confirmed_trail (hnames : AllName reqs) (hw : w.Ok) (hf₀ : Represents w.db f₀)
    (hrun : Sys.Run recoveryAllowed History.none (shopRequests lib publicId reqs w) () s ()) :
    ∃ log f, Accounts lib reqs w.db s.world.db f₀ log f ∧ ∀ r : Orders, r ∈ s.world.db .orders →
      w.db.get .orders r.id = none → r.status = OrderStatus.confirmed.value → Confirmed lib reqs s.world.db log r := by
  obtain ⟨log, f, h⟩ := accounts_of_run hnames hw hf₀ hrun
  have hwf := (hrun.ok (Sys.start_ok hw _)).world.wf
  refine ⟨log, f, h, fun r hr hnew hstatus => ?_⟩
  exact h.confirmed hwf (hf₀.fresh hnew) (Store.get_of_mem hwf.ids hr) hstatus

theorem confirmed_trail_sale : ∃ (s : Sys shop shopHost 3 (Except (Exn AppErr) (Option Reply))) (log : _) (r : Orders),
    r ∈ s.world.db .orders ∧ Confirmed plainLib sale s.world.db log r := by
  obtain ⟨s, hrun, horder, -, -⟩ := sale_run
  obtain ⟨log, f, -, h⟩ := confirmed_trail sale_names freshShop_ok freshShop_empty hrun
  obtain ⟨r, hr, hstatus⟩ := Option.map_eq_some_iff.mp horder
  exact ⟨s, log, r, Store.mem_of_get hr, h r (Store.mem_of_get hr) rfl hstatus⟩

end Trails

/-! ## The rows of an order -/

section Rows
variable {d : Db} {f : OrderBook} {o : ℕ}

theorem filter_eq_find {S : Schema} {t : S.Tbl} {rows : List (S.Row t)} {q : S.Row t → Bool} (hrows : rows.Nodup)
    (hsole : ∀ r ∈ rows, ∀ r' ∈ rows, q r = true → q r' = true → r = r') : rows.filter q = (rows.find? q).toList := by
  have hnodup := hrows.filter q
  have hhead : (rows.filter q).head? = rows.find? q := List.head?_filter
  cases hfilter : rows.filter q with
  | nil =>
    rw [← hhead, hfilter]
    rfl
  | cons r rs =>
    rw [← hhead, hfilter]
    cases rs with
    | nil => rfl
    | cons r' rs =>
      rw [hfilter] at hnodup
      have hr := List.mem_filter.mp (hfilter ▸ List.mem_cons_self : r ∈ rows.filter q)
      have hr' := List.mem_filter.mp (hfilter ▸ List.mem_cons_of_mem _ List.mem_cons_self : r' ∈ rows.filter q)
      have heq := hsole r hr.1 r' hr'.1 hr.2 hr'.2
      exact absurd (heq ▸ List.mem_cons_self) (List.nodup_cons.mp hnodup).1

theorem paidIntents_eq (hd : d.Wf) (o : ℕ) : paidIntents d o = (intentOf d o).toList := by
  apply filter_eq_find (S := shop) (t := .commitIntent) (hd.ids .commitIntent).of_map
  intro c hc c' hc' h h'
  exact hd.eq_of_key (t := .commitIntent) hc hc' (isPaidIntent_key h) (isPaidIntent_key h')

theorem paidEvents_eq (hd : d.Wf) (o : ℕ) : paidEvents d o = (eventOf d o).toList := by
  apply filter_eq_find (S := shop) (t := .outboxEvent) (hd.ids .outboxEvent).of_map
  intro e he e' he' h h'
  exact hd.eq_of_key (t := .outboxEvent) he he' (isPaidEvent_key h) (isPaidEvent_key h')

theorem paymentsOf_eq (hd : d.Wf) (o : ℕ) :
    (d .payment).filter (fun p : Payment => p.orderId = o) = (paymentOf d o).toList := by
  apply filter_eq_find (S := shop) (t := .payment) (hd.ids .payment).of_map
  intro p hp q hq hpo hqo
  exact payment_unique hd hp hq ((of_decide_eq_true hpo).trans (of_decide_eq_true hqo).symm)

/-- Each order has one payment, and its status, its commit intents and its outbox events are what the status of the
payment demands. Without an order there is nothing of it. -/
structure Consistent (d : Db) : Prop where
  paid : ∀ r : Orders, r ∈ d .orders → ∃ p, (d .payment).filter (fun p : Payment => p.orderId = r.id) = [p] ∧
    orderState d r.id = expectedState d r.id p.status
  absent : ∀ o, d.get .orders o = none → (∀ p : Payment, p ∈ d .payment → p.orderId ≠ o) ∧
    (∀ it : OrderItem, it ∈ d .orderItem → it.orderId ≠ o) ∧ paidIntents d o = [] ∧ paidEvents d o = []

theorem captured_iff {p : Progress} : p.paymentStatus = PaymentStatus.captured.value ↔ p.stage.isSome := by
  cases p <;> simp [Progress.paymentStatus, PaymentStatus.value, Progress.stage]

theorem Represents.orderState_eq (h : Represents d f) (hd : d.Wf) {b : Order} (hb : f o = some b) :
    orderState d o = expectedState d o b.progress.paymentStatus := by
  rw [orderState, paidIntents_eq hd, paidEvents_eq hd, h.status hb]
  cases hstage : b.progress.stage with
  | none =>
    have hunpaid : b.progress.paymentStatus ≠ PaymentStatus.captured.value := by
      rw [Ne, captured_iff, hstage]
      exact Bool.false_ne_true
    rw [h.no_intent hb hstage, h.no_event hb hstage, Progress.orderStatus, hstage, expectedState, if_neg hunpaid]
    rfl
  | some g =>
    have hview := (h.view hb).1
    have hintent := congrArg OrderView.intent hview
    have hevent : (eventOf d o).isSome = b.progress.stage.isSome := congrArg OrderView.paid hview
    obtain ⟨e, he⟩ := Option.isSome_iff_exists.mp (hevent.trans (by rw [hstage]; rfl))
    simp only [Progress.view, hstage, Option.map_some] at hintent
    obtain ⟨c, hc, heq⟩ := Option.map_eq_some_iff.mp hintent
    obtain ⟨hpayload, -⟩ := Prod.mk.inj heq
    have hpaid : b.progress.paymentStatus = PaymentStatus.captured.value := by
      rw [captured_iff, hstage]
      rfl
    rw [hc, he, Progress.orderStatus, hstage, expectedState, if_pos hpaid, OrderState.paid, ← hpayload]
    rfl

theorem Represents.consistent (h : Represents d f) (hd : d.Wf) : Consistent d := by
  constructor
  · intro r hr
    have hget : d.get .orders r.id = some r := Store.get_of_mem hd.ids hr
    have hsome := h.isSome r.id
    rw [hget] at hsome
    obtain ⟨b, hb⟩ := Option.isSome_iff_exists.mp hsome
    obtain ⟨p, hp, heq⟩ := Option.map_eq_some_iff.mp (congrArg OrderView.payment (h.view hb).1)
    obtain ⟨hstatus, -⟩ := Prod.mk.inj heq
    refine ⟨p, ?_, ?_⟩
    · rw [paymentsOf_eq hd, hp]
      rfl
    · rw [hstatus]
      exact h.orderState_eq hd hb
  · intro o ho
    have hnone := h.fresh ho
    have hblank := h.blank hnone
    have hintent : intentOf d o = none := Option.map_eq_none_iff.mp (congrArg OrderView.intent hblank)
    have hpaid : (eventOf d o).isSome = false := congrArg OrderView.paid hblank
    have hevent : eventOf d o = none := Option.not_isSome_iff_eq_none.mp (by simp [hpaid])
    refine ⟨?_, ?_, ?_, ?_⟩
    · rintro p hp rfl
      obtain ⟨b, hb, -⟩ := h.payment hd hp
      exact Option.some_ne_none _ (hb.symm.trans hnone)
    · rintro it hit rfl
      have hfound := h.item hit
      rw [hnone] at hfound
      cases hfound
    · rw [paidIntents_eq hd, hintent]
      rfl
    · rw [paidEvents_eq hd, hevent]
      rfl

end Rows

/-! ## Orders go on -/

section Onward
variable {d d' : Db} {f f' : OrderBook} {log : List (Fin n × Operation)} {o : ℕ} {b b' : Order}

theorem paymentStatus_le {p q : Progress} (h : p.level ≤ q.level) : p.paymentStatus ≤ q.paymentStatus := by
  cases p <;> cases q <;> simp [Progress.paymentStatus, PaymentStatus.value, Progress.level] at h ⊢

theorem Onward.paid (h : Onward b b') {g : Stage} (hb : b.progress = .paid g) : ∃ g', b'.progress = .paid g' := by
  have hlevel := h.level
  rw [hb] at hlevel
  cases hb' : b'.progress with
  | paid g' => exact ⟨g', rfl⟩
  | _ =>
    rw [hb'] at hlevel
    exact absurd hlevel (by simp [Progress.level])

/-- The order lists what it listed, and its payment has not fallen to a lower status. Once it is paid it stays so, and
goods that are taken are not given back. -/
structure GoneOn (d d' : Db) (o : ℕ) : Prop where
  lists : itemsQty (orderPairs d' o) = itemsQty (orderPairs d o)
  payment : ∃ p p', paymentOf d o = some p ∧ paymentOf d' o = some p' ∧ p.status ≤ p'.status
  paid : PaidFor d o → PaidFor d' o
  taken : GoodsTaken d o → GoodsTaken d' o

theorem Represents.paymentOf (h : Represents d f) (hb : f o = some b) :
    ∃ p, Fulfilment.paymentOf d o = some p ∧ p.status = b.progress.paymentStatus := by
  obtain ⟨p, hp, heq⟩ := Option.map_eq_some_iff.mp (congrArg OrderView.payment (h.view hb).1)
  exact ⟨p, hp, (Prod.mk.inj heq).1⟩

theorem Represents.stage_of_paidFor (h : Represents d f) (hb : f o = some b) (hpaid : PaidFor d o) :
    ∃ g, b.progress = .paid g := by
  have hstatus := hpaid.confirmed
  rw [h.status hb] at hstatus
  exact confirmed_stage (Option.some.inj hstatus)

theorem Accounts.goneOn (h : Accounts lib reqs d d' f log f') (hf : Represents d f) (hd : d.Wf) (hd' : d'.Wf)
    (hb : f o = some b) : GoneOn d d' o := by
  obtain ⟨b', hb', hon⟩ := runs_onward h.runs hb
  constructor
  · rw [(h.represents.view hb').2, (hf.view hb).2]
    exact hon.wants
  · obtain ⟨p, hp, hstatus⟩ := hf.paymentOf hb
    obtain ⟨p', hp', hstatus'⟩ := h.represents.paymentOf hb'
    refine ⟨p, p', hp, hp', ?_⟩
    rw [hstatus, hstatus']
    exact paymentStatus_le hon.level
  · intro hpaid
    obtain ⟨g, hg⟩ := hf.stage_of_paidFor hb hpaid
    obtain ⟨g', hg'⟩ := hon.paid hg
    exact h.represents.paidFor hb' hg'
  · intro htaken
    rw [← h.represents.taken hd']
    exact (runs_taken h.runs).mpr (.inl ((hf.taken hd).mpr htaken))

/-- From any state of a run on, no order falls back. -/
theorem orders_go_on (hnames : AllName reqs) (hw : w.Ok) (hf₀ : Represents w.db f₀)
    (hrun : Sys.Run recoveryAllowed History.none (shopRequests lib publicId reqs w) () s ())
    (hrest : Sys.Run recoveryAllowed History.none s () s' ()) :
    ∀ r : Orders, r ∈ s.world.db .orders → GoneOn s.world.db s'.world.db r.id := by
  intro r hr
  have hok := hrun.ok (Sys.start_ok hw _)
  obtain ⟨f, hf⟩ := represented_of_run hnames hw hf₀ hrun
  obtain ⟨log, f', h⟩ := accounts_between hnames hw hf₀ hrun hf hrest
  have hget : s.world.db.get .orders r.id = some r := Store.get_of_mem hok.world.wf.ids hr
  have hsome := hf.isSome r.id
  rw [hget] at hsome
  obtain ⟨b, hb⟩ := Option.isSome_iff_exists.mp hsome
  exact h.goneOn hf hok.world.wf (hrest.ok hok).world.wf hb

/-- The order is accepted and not yet paid when the notification arrives. -/
theorem orders_go_on_sale : ∃ s s' : Sys shop shopHost 3 (Except (Exn AppErr) (Option Reply)),
    (s.world.db.get .orders 6).map Orders.status = some OrderStatus.pendingPayment.value ∧
    (s'.world.db.get .orders 6).map Orders.status = some OrderStatus.confirmed.value ∧
    GoneOn s.world.db s'.world.db 6 := by
  have hexec : ((shopRequests plainLib id sale freshShop).exec recoveryAllowed (saleSteps.take 27)).bind (fun s =>
      (s.exec recoveryAllowed (saleSteps.drop 27)).map fun s' =>
        ((s.world.db.get .orders 6).map Orders.status, (s'.world.db.get .orders 6).map Orders.status)) =
      some (some OrderStatus.pendingPayment.value, some OrderStatus.confirmed.value) := by
    decide +kernel
  obtain ⟨s, hs, hrest⟩ := Option.bind_eq_some_iff.mp hexec
  obtain ⟨s', hs', heq⟩ := Option.map_eq_some_iff.mp hrest
  obtain ⟨hbefore, hafter⟩ := Prod.mk.inj heq
  obtain ⟨⟨⟩, hrun⟩ := Sys.run_of_exec History.none () hs
  obtain ⟨⟨⟩, hrun'⟩ := Sys.run_of_exec History.none () hs'
  obtain ⟨r, hr, -⟩ := Option.map_eq_some_iff.mp hbefore
  have hgone := orders_go_on sale_names freshShop_ok freshShop_empty hrun hrun' r (Store.mem_of_get hr)
  have hid : r.id = 6 := Store.id_of_get hr
  exact ⟨s, s', hbefore, hafter, hid ▸ hgone⟩

end Onward
end Phyllonix.Fulfilment
