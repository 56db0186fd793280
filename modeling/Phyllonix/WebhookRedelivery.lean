import Phyllonix.WebhookAnswers

/-!
# Redeliveries of processed events

A processed event was matched with a payment, and it goes on to be matched. So its
redelivery comes as far as the insertion of the event, which finds the event there
and returns no row. The handler then raises before it has changed anything.
-/

namespace Phyllonix
open Relational
variable {n : ℕ}

/-- The handler has processed the event of the request, and the store shows it. -/
def Processed (d : Db) (req : WebhookRequest) : Prop :=
  ∃ e ∈ d .paymentWebhookEvent, PaymentWebhookEvent.provider e = "razorpay" ∧
    PaymentWebhookEvent.providerEventId e = req.providerEventId ∧
    PaymentWebhookEvent.payload e = req.json ∧ (PaymentWebhookEvent.processedAt e).isSome

/-- A payload that takes the handler into its critical section, once a payment is found. -/
structure Settleable (payload event : Json) (f : PaymentFields) (st : PayOrderStatus)
    (o : Option String) : Prop where
  named : payload.get "event" .null = .ok event
  fields : paymentFields payload = .ok f
  bound : bindText f.providerOrderId = .ok o
  truthy : f.providerPaymentId.truthy = true
  status : payOrderStatusUtil f.pspPayStatus event = .ok st
  valid : st.isValidEvent = true

def Matched (d : Db) (payload : Json) : Prop :=
  ∃ event f st o k oid, Settleable payload event f st o ∧ OnlyPayment d o k oid ∧ oid ≠ 0

/-- The row at `k` is the event with this identifier and payload. -/
def HeldAt (d : Db) (k : ℕ) (eventId : String) (payload : Json) : Prop :=
  ∃ e, d.get .paymentWebhookEvent k = some e ∧ e.provider = "razorpay" ∧
    e.providerEventId = some eventId ∧ e.payload = some payload

structure EventMatched (d : Db) (e : PaymentWebhookEvent) : Prop where
  provider : e.provider = "razorpay"
  matched : ∃ eventId payload, e.providerEventId = some eventId ∧ eventId ≠ "" ∧
    e.payload = some payload ∧ Matched d payload

def EventsMatched (d : Db) : Prop :=
  ∀ k e, d.get .paymentWebhookEvent k = some e → e.processedAt.isSome = true → EventMatched d e

section Evolution
variable {d d' : Db} {k : ℕ} {eventId : String} {payload : Json}

theorem Matched.evolves (h : Matched d payload) (he : Evolves deliveryOrder d d') :
    Matched d' payload := by
  obtain ⟨event, f, st, o, k, oid, hset, honly, hoid⟩ := h
  exact ⟨event, f, st, o, k, oid, hset, honly.evolves he, hoid⟩

theorem EventMatched.evolves {e : PaymentWebhookEvent} (h : EventMatched d e)
    (he : Evolves deliveryOrder d d') : EventMatched d' e := by
  obtain ⟨eventId, payload, hid, hne, hp, hm⟩ := h.matched
  exact ⟨h.provider, eventId, payload, hid, hne, hp, hm.evolves he⟩

theorem HeldAt.evolves (h : HeldAt d k eventId payload) (he : Evolves deliveryOrder d d') :
    HeldAt d' k eventId payload := by
  obtain ⟨e, hk, hp, hid, hpay⟩ := h
  obtain ⟨e', hk', hkept⟩ := he .paymentWebhookEvent k e hk
  exact ⟨e', hk', hkept.provider.trans hp, hkept.eventId.trans hid, hkept.payload.trans hpay⟩

/-- Events that the transaction did not write are matched as before. -/
theorem eventsMatched_view {l : Txn shop} (hd : EventsMatched d)
    (he : Evolves deliveryOrder d (l.view d)) (hl : ∀ v ∈ l.writes, EventOf k v)
    (hk : ∀ e, (l.view d).get .paymentWebhookEvent k = some e → e.processedAt.isSome = true →
      EventMatched (l.view d) e) : EventsMatched (l.view d) := by
  intro j e hj hproc
  by_cases hjk : j = k
  · subst hjk
    exact hk e hj hproc
  · have hnot : ¬Written l.writes Table.paymentWebhookEvent j := by
      rintro ⟨v, hv, ht, hid⟩
      exact hjk (hid.symm.trans (hl v hv ht))
    rw [Txn.view, get_applyWrites_of_not_written hnot] at hj
    exact (hd j e hj hproc).evolves he

end Evolution

/-! ## Deliveries keep processed events matched -/

section Others
variable {J : Set (Fin n)} {G : Guard shop shopHost n} {i : Fin n}
variable {sh : Shared shop shopHost} {x : Unit} {l : Txn shop}
variable {evId : ℕ} {eventId : String} {payload event : Json} {f : PaymentFields}
variable {st : PayOrderStatus} {o : Option String}

abbrev redeliveryProtocol (J : Set (Fin n)) : Protocol shop shopHost n :=
  evolution deliveryOrder EventsMatched fun i => i ∈ J

/-- The transaction holds its own event and writes no other. -/
structure HoldsEvent (d : Db) (l : Txn shop) (evId : ℕ) (eventId : String) (payload : Json) : Prop where
  held : HeldAt (l.view d) evId eventId payload
  nonempty : eventId ≠ ""
  matched : Matched d payload
  own : ∀ v ∈ l.writes, EventOf evId v

theorem HoldsEvent.step {α : Type} {p : Py α} (hp : p.Acts (InSettling evId))
    (h : HoldsEvent sh.db l evId eventId payload) :
    Safe (redeliveryProtocol J) G i (fun _ sh' _ l' => HoldsEvent sh'.db l' evId eventId payload) p
      sh x l :=
  (Safe.of_confined (hp.mono fun _ ha => ha.1) (hp.mono fun _ ha => ha.2) h.own).mono
    fun _ _ _ _ hs => ⟨h.held.evolves hs.1, h.nonempty, h.matched.evolves hs.2.1, hs.2.2⟩

theorem HoldsEvent.commit (hi : i ∉ J) (h : HoldsEvent sh.db l evId eventId payload) :
    Safe (redeliveryProtocol J) (G.evolving deliveryOrder) i (fun _ _ _ _ => True) commit sh x l := by
  refine Safe.commit_evolving hi (fun w y hs hev => ⟨?_, trivial⟩) fun _ _ _ _ _ _ _ => trivial
  have hrely : Evolves deliveryOrder sh.db w.db := hs.rely
  refine eventsMatched_view hs.inv hev h.own fun e he _ => ?_
  obtain ⟨e', he', hp, hid, hpay⟩ := h.held.evolves (hrely.view hs.ok hs.still)
  rw [he] at he'
  cases he'
  exact ⟨hp, eventId, payload, hid, h.nonempty, hpay, (h.matched.evolves hrely).evolves hev⟩

theorem recordWebhookError_matched (hi : i ∉ J) (evId : ℕ) (st : PayOrderStatus) :
    Safe (redeliveryProtocol J) (G.evolving deliveryOrder) i (fun _ _ _ _ => True)
      (recordWebhookError evId st) sh x l := by
  refine Safe.bind (Safe.rollback fun w y hs r => ?_)
  cases r with
  | error e => trivial
  | ok _ =>
    refine Safe.bind (Safe.bind (safe_updateOne (fun w₁ y₁ hs₁ l' hu => ?_)
      fun _ _ _ _ _ _ _ => trivial))
    refine Safe.pure (Safe.commit_evolving hi (fun w₂ y₂ hs₂ hev => ⟨?_, trivial⟩)
      fun _ _ _ _ _ _ _ => trivial)
    have hreset : ∀ d, (l.reset.view d).get .paymentWebhookEvent evId =
        d.get .paymentWebhookEvent evId := fun _ => rfl
    cases he : (l.reset.view w₁.db).get .paymentWebhookEvent evId with
    | none =>
      have hw := updated_none hu he
      refine eventsMatched_view (k := evId) hs₂.inv hev (by rw [hw]; exact fun v hv => by cases hv)
        fun e he' hproc => ?_
      rw [Txn.view, hw] at he'
      exact (hs₂.inv evId e he' hproc).evolves hev
    | some e =>
      obtain ⟨hw, hlock⟩ := updated_one hu he
      have hid : e.id = evId := Store.id_of_get he
      refine eventsMatched_view (k := evId) hs₂.inv hev ?_ fun e' he' hproc => ?_
      · rw [hw]
        intro v hv ht
        obtain rfl := List.mem_singleton.mp hv
        exact hid
      · -- the row is locked since the update, so its committed version is the updated one
        have hrow : w₂.db.get .paymentWebhookEvent evId = some e :=
          (hs₂.still.row _ _ hlock).trans ((hreset _).symm.trans he)
        subst hid
        obtain rfl := Option.some.inj ((Txn.get_view_cons hw w₂.db).symm.trans he')
        have hold := hs₂.inv e.id e hrow hproc
        obtain ⟨eventId, payload, h1, h2, h3, h4⟩ := hold.matched
        exact ⟨hold.provider, eventId, payload, h1, h2, h3, h4.evolves hev⟩

theorem criticalSection_matched (hi : i ∉ J) {pay : PayRecord}
    (h : HoldsEvent sh.db l evId eventId payload) :
    Safe (redeliveryProtocol J) (G.evolving deliveryOrder) i (fun _ _ _ _ => True)
      (criticalSection pay.id f st evId) sh x l := by
  refine Safe.bind ((h.step (updatePayCompletion_acts _ _ _)).mono fun r sh x l h₁ => ?_)
  match r with
  | .error e => trivial
  | .ok none => exact Safe.pure trivial
  | .ok (some 0) => exact Safe.pure trivial
  | .ok (some (o + 1)) =>
    refine Safe.bind ((h₁.step (updateOrderStatus_acts _ _)).mono fun r sh x l h₂ => ?_)
    cases r with
    | error e => trivial
    | ok _ =>
      refine Safe.bind ((h₂.step (emitPaymentEvents_acts _ _ _)).mono fun r sh x l h₃ => ?_)
      cases r with
      | error e => trivial
      | ok out =>
        refine Safe.bind ((h₃.step (markWebhookProcessed_acts _ _)).mono fun r sh x l h₄ => ?_)
        cases r with
        | error e => trivial
        | ok _ =>
          refine Safe.bind ((h₄.commit hi).mono fun r sh x l _ => ?_)
          cases r with
          | error e => trivial
          | ok _ => exact Safe.pure trivial

theorem processEvent_matched (hi : i ∉ J) {pay : PayRecord}
    (h : HoldsEvent sh.db l evId eventId payload) :
    Safe (redeliveryProtocol J) (G.evolving deliveryOrder) i (fun _ _ _ _ => True)
      (processEvent pay f st evId) sh x l := by
  refine Safe.bind (Safe.attempt ((criticalSection_matched hi h).mono fun r sh x l _ => ?_))
  match r with
  | .error e =>
    refine Safe.bind (Safe.attempt ((recordWebhookError_matched hi evId st).mono fun _ sh x l _ => ?_))
    exact Safe.raise trivial
  | .ok none => exact Safe.pure trivial
  | .ok (some out) =>
    have hpublish : Safe (redeliveryProtocol J) (G.evolving deliveryOrder) i (fun _ _ _ _ => True)
        (publishCommitted out) sh x l :=
      (Safe.of_within ((publishCommitted_acts (k := 0) out).mono fun _ ha => ha.1)).mono
        fun _ _ _ _ _ => trivial
    refine Safe.bind (hpublish.mono fun r sh x l _ => ?_)
    cases r with
    | error e => trivial
    | ok _ => exact Safe.pure trivial

theorem findPayment_only (poid : Json) :
    Safe (redeliveryProtocol J) G i (.ofOk fun pay sh' _ l' => l' = {} ∧ ∀ r, pay = some r →
        ∃ o, bindText poid = .ok o ∧ OnlyPayment sh'.db o r.id r.orderId)
      (getPayRecordByProviderOrderid poid "razorpay") sh x {} := by
  refine Safe.bind (safe_ofApp (fun o ho => ?_) fun _ => trivial)
  refine Safe.bind (Safe.read (fun w y hs => ?_) fun _ _ _ _ _ _ _ => trivial)
  refine Safe.bind (safe_oneOrNone (fun _ => Safe.pure ⟨rfl, fun r hr => ?_⟩)
    (fun p hp => Safe.pure ⟨rfl, fun r hr => ?_⟩) trivial)
  · cases hr
  · cases hr
    have hone : paymentsOf w.db o = [p] := hp
    exact ⟨o, ho, onlyPayment_of_eq hs.world.wf.ids hone⟩

theorem receiveEvent_matched (hi : i ∉ J) {pay : PayRecord} (hne : eventId ≠ "")
    (hev : payload.get "event" .null = .ok event) (hf : paymentFields payload = .ok f)
    (ho : bindText f.providerOrderId = .ok o) (hpay : OnlyPayment sh.db o pay.id pay.orderId)
    (hord : pay.orderId ≠ 0) (ht : f.providerPaymentId.truthy = true) (hl : l.writes = []) :
    Safe (redeliveryProtocol J) (G.evolving deliveryOrder) i (fun _ _ _ _ => True)
      (receiveEvent eventId payload event pay f) sh x l := by
  refine Safe.bind (safe_ofApp (fun st hst => ?_) fun _ => trivial)
  refine Safe.bind (Safe.bind (Safe.insert (fun w y hs m _ _ => Safe.pure ?_)
    (fun _ w y hs m _ => Safe.pure ?_) fun _ _ _ _ _ _ => trivial))
  · simp only
    split
    · exact Safe.pure trivial
    · rename_i hv
      have hset : Settleable payload event f st o := ⟨hev, hf, ho, ht, hst, by simpa using hv⟩
      have hmatched : Matched w.db payload :=
        ⟨event, f, st, o, pay.id, pay.orderId, hset, hpay.evolves hs.rely, hord⟩
      refine processEvent_matched hi
        (.mk ⟨_, Txn.get_view_cons rfl _, rfl, rfl, rfl⟩ hne hmatched fun v hv _ => ?_)
      rcases List.mem_cons.mp hv with rfl | hv
      · rfl
      · rw [hl] at hv
        cases hv
  · simp only
    split
    · exact Safe.pure trivial
    · exact Safe.raise trivial

theorem razorpayWebhook_matched (hi : i ∉ J) (lib : Lib) (req : WebhookRequest) :
    Safe (redeliveryProtocol J) (G.evolving deliveryOrder) i (fun _ _ _ _ => True)
      (razorpayWebhook lib req) sh x {} := by
  refine Safe.bind ((verifyRazorpaySignature_safe lib req).mono fun r sh x l hl => ?_)
  match r with
  | .error e => trivial
  | .ok _ =>
    obtain ⟨rfl, rfl, rfl⟩ := hl
    match req.json with
    | none => exact Safe.raise trivial
    | some payload =>
      refine Safe.bind (safe_ofApp (fun event hev => ?_) fun _ => trivial)
      simp only
      split
      · exact Safe.raise trivial
      · exact Safe.raise trivial
      rename_i eventId hne hid
      refine Safe.bind (safe_ofApp (fun f hf => ?_) fun _ => trivial)
      refine Safe.bind ((findPayment_only f.providerOrderId).mono fun pay sh x l hpay => ?_)
      match pay with
      | .error e => trivial
      | .ok none => 
        obtain ⟨rfl, -⟩ := hpay
        exact unmatched_safe _ _ _ _ _ .nil
      | .ok (some ⟨k, 0⟩) => 
        obtain ⟨rfl, -⟩ := hpay
        exact unmatched_safe _ _ _ _ _ .nil
      | .ok (some ⟨k, oid + 1⟩) =>
        obtain ⟨rfl, hpay⟩ := hpay
        obtain ⟨o, ho, honly⟩ := hpay _ rfl
        simp only
        split
        · exact Safe.raise trivial
        · rename_i ht
          exact receiveEvent_matched hi hne hev hf ho honly (by simp) (by simpa using ht) rfl

end Others

/-! ## A redelivery is refused -/

section Redelivery
variable {J : Set (Fin n)} {G : Guard shop shopHost n} {i : Fin n}
variable {sh : Shared shop shopHost} {x : Unit} {eventId : String} {payload event : Json}
variable {f : PaymentFields} {st : PayOrderStatus} {o : Option String} {req : WebhookRequest}

theorem statusCode_statement (e : StatementError shopHost) : statusCode (.error e.1) = 500 := by
  obtain ⟨e, he⟩ := e
  cases e with
  | app a => exact absurd rfl (he a)
  | _ => rfl

theorem safe_ofApp_ok {α : Type} {P : Protocol shop shopHost n} {x : P.Val} {l : Txn shop}
    {r : Except AppErr α} {a : α} {Q : Post P α} (hr : r = .ok a) (h : Q (.ok a) sh x l) :
    Safe P G i Q (ofApp r) sh x l := by
  subst hr
  exact h

/-- The event is there, so nothing is inserted and no row is returned. -/
theorem receiveEvent_refused {pay : PayRecord} (hset : Settleable payload event f st o)
    (hheld : EventHeld sh.db eventId) :
    Safe (redeliveryProtocol J) G i (fun r _ _ _ => statusCode r = 500)
      (receiveEvent eventId payload event pay f) sh x {} := by
  refine Safe.bind (safe_ofApp_ok hset.status ?_)
  refine Safe.bind (Safe.bind (Safe.insert (fun w y hs m _ hfree => ?_)
    (fun _ w y hs m _ => Safe.pure ?_) fun w y _ e l' _ => ?_))
  · obtain ⟨k, e, hk, hp, hid⟩ := hheld.evolves hs.rely
    refine absurd ?_ (hfree e (Store.mem_of_get hk) (.providerEvent "razorpay" eventId) ?_)
    · simp [rowKeys, hp, hid]
    · simp [rowKeys]
  · simp only [hset.valid]
    exact Safe.raise rfl
  · exact statusCode_statement e

theorem razorpayWebhook_refused (lib : Lib) (hjson : req.json = some payload)
    (hid : req.providerEventId = some eventId) (hheld : EventHeld sh.db eventId)
    (hm : Matched sh.db payload) :
    Safe (redeliveryProtocol J) G i (fun r _ _ _ => statusCode r = 500) (razorpayWebhook lib req)
      sh x {} := by
  obtain ⟨event, f, st, o, k, oid, hset, honly, hoid⟩ := hm
  rw [razorpayWebhook, hjson]
  rcases verifyRazorpaySignature_cases lib req with hv | ⟨m, hv⟩
  · rw [hv]
    refine Safe.bind (Safe.pure ?_)
    refine Safe.bind (safe_ofApp_ok hset.named ?_)
    simp only
    split
    · exact Safe.raise rfl
    · exact Safe.raise rfl
    rename_i eventId' _ heq
    obtain rfl : eventId = eventId' := Option.some.inj (hid.symm.trans heq)
    refine Safe.bind (safe_ofApp_ok hset.fields ?_)
    refine Safe.bind (Safe.bind (safe_ofApp_ok hset.bound ?_))
    refine Safe.bind (Safe.read (fun w y hs => ?_) fun _ w y _ e l' _ => statusCode_statement e)
    obtain ⟨p, hone, hp, hpo⟩ := (honly.evolves hs.rely).eq hs.world.wf.ids
    have hrows : (Txn.view {} w.db .payment).filter
        (fun p : Payment => p.provider = some "razorpay" && p.providerOrderId = o) = [p] := hone
    rw [hrows]
    refine Safe.pure ?_
    subst hpo
    obtain ⟨oid, hoid'⟩ := Nat.exists_eq_succ_of_ne_zero hoid
    simp only [Option.map_some, hoid', hset.truthy]
    exact receiveEvent_refused hset (hheld.evolves hs.rely)
  · rw [hv]
    exact Safe.raise rfl

end Redelivery
/-! ## Runs -/

theorem session_isAct (p : Py Reply) : ∃ a k, p.session = .act a k := by
  cases p with
  | ret a => exact ⟨_, _, rfl⟩
  | raise e => exact ⟨_, _, rfl⟩
  | act a k => exact ⟨_, _, rfl⟩

/-- The deliveries in `J` have not been made yet. -/
def holdBack (J : Set (Fin n)) : Guard shop shopHost n := fun i _ _ _ _ => i ∉ J

theorem eventsMatched_of_fresh {d : Db}
    (h : ∀ e ∈ d .paymentWebhookEvent, PaymentWebhookEvent.processedAt e = none) :
    EventsMatched d := by
  intro k e he hproc
  rw [h e (Store.mem_of_get he)] at hproc
  cases hproc

/-- A processed event of a matched store has what its redelivery needs. -/
theorem Processed.known {d : Db} (hd : ∀ t, ((d t).map rowId).Nodup) (hm : EventsMatched d)
    {req : WebhookRequest} (h : Processed d req) : ∃ eventId payload,
      req.json = some payload ∧ req.providerEventId = some eventId ∧ EventHeld d eventId ∧
        Matched d payload := by
  obtain ⟨e, he, hprov, hid, hjson, hproc⟩ := h
  have hget : d.get .paymentWebhookEvent (rowId (t := .paymentWebhookEvent) e) = some e :=
    Store.get_of_mem hd he
  obtain ⟨eventId, payload, hid', -, hpay, hmatched⟩ := (hm _ e hget hproc).matched
  exact ⟨eventId, payload, hjson.symm.trans hpay, hid.symm.trans hid', ⟨_, e, hget, hprov, hid'⟩,
    hmatched⟩

instance (J : Set (Fin n)) [DecidablePred (· ∈ J)] (i : Fin n) (sh : Shared shop shopHost)
    (l : Txn shop) (a : ShopAction) (c : Choice shopHost) : Decidable (holdBack J i sh l a c) :=
  inferInstanceAs (Decidable (i ∉ J))

/-- The same capture, delivered twice. -/
def captureTwice : Fin 2 → WebhookRequest := fun _ => captureAndFailure 0

def firstDelivery : List (Label shopHost 2) :=
  .replicate 7 (.proc 0 .go) ++ [.proc 0 (.host .proceed)] ++ .replicate 2 (.proc 0 .go) ++
    .replicate 2 (.proc 0 (.host .proceed)) ++ [.proc 0 .go]

/-- The test that `Processed` states. -/
def processedTest (d : Db) (req : WebhookRequest) : Bool :=
  (d .paymentWebhookEvent).any fun e : PaymentWebhookEvent =>
    e.provider = "razorpay" && e.providerEventId = req.providerEventId && e.processedAt.isSome &&
      match e.payload, req.json with
      | some a, some b => a.same b
      | _, _ => false

theorem processed_of_test {d : Db} {req : WebhookRequest} (h : processedTest d req = true) :
    Processed d req := by
  obtain ⟨e, he, ht⟩ := List.any_eq_true.mp h
  simp only [Bool.and_eq_true, decide_eq_true_eq] at ht
  obtain ⟨⟨⟨hprov, hid⟩, hproc⟩, hpay⟩ := ht
  refine ⟨e, he, hprov, hid, ?_, hproc⟩
  split at hpay
  · rename_i a b ha hb
    rw [ha, hb, Json.eq_of_same hpay]
  · cases hpay

theorem firstDelivery_processed : ∃ s,
    Sys.Run (holdBack {1}) History.none (deliveries plainLib captureTwice oneAccepted) () s () ∧
      Processed s.world.db (captureTwice 1) ∧
      ∃ s' r, Sys.Reach s s' ∧ s'.outcome 1 = some r ∧ statusCode r = 500 := by
  have hexec : ((deliveries plainLib captureTwice oneAccepted).exec (holdBack {1})
      firstDelivery).map (fun s => (processedTest s.world.db (captureTwice 1),
        (s.exec (fun _ _ _ _ _ => True) (.replicate 3 (.proc 1 .go))).map fun s' =>
          (s'.outcome 1).map statusCode)) = some (true, some (some 500)) := by decide +kernel
  obtain ⟨s, hs, hout⟩ := Option.map_eq_some_iff.mp hexec
  obtain ⟨htest, hnext⟩ := Prod.mk.inj hout
  obtain ⟨s', hs', hcode⟩ := Option.map_eq_some_iff.mp hnext
  obtain ⟨r, hr, hcode⟩ := Option.map_eq_some_iff.mp hcode
  obtain ⟨⟨⟩, hrun⟩ := Sys.run_of_exec History.none () hs
  obtain ⟨⟨⟩, hrun'⟩ := Sys.run_of_exec History.none () hs'
  exact ⟨s, hrun, processed_of_test htest, s', r, hrun', hr, hcode⟩

theorem oneAccepted_unprocessed :
    ∀ e ∈ oneAccepted.db .paymentWebhookEvent, PaymentWebhookEvent.processedAt e = none :=
  fun _ he => by cases he

end Phyllonix
