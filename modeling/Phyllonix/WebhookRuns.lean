import Phyllonix.PaymentSettlement

/-!
# Runs of webhook deliveries

Any number of deliveries run concurrently and any of their statements may fail.
Payment, order, commit intent and outbox event of an accepted order move together.
-/

namespace Phyllonix
open Relational
variable {n : ℕ}

theorem EventsOnly.nil : EventsOnly [] := fun _ h => by cases h

theorem EventsOnly.cons {ws : List (Write shop)} (h : EventsOnly ws) (e : PaymentWebhookEvent) :
    EventsOnly (⟨.paymentWebhookEvent, e⟩ :: ws) := by
  intro w hw
  rcases List.mem_cons.mp hw with rfl | hw
  · rfl
  · exact h w hw

/-! ## Around the critical section -/

section AnyProtocol
variable {P : Protocol shop shopHost n} {G : Guard shop shopHost n} {i : Fin n}
variable {sh : Shared shop shopHost} {x : P.Val} {l : Txn shop}

/-- Commits of nothing but webhook events keep the protocol. -/
def CommitsEvents (P : Protocol shop shopHost n) (G : Guard shop shopHost n) (i : Fin n) : Prop :=
  ∀ {sh x l}, EventsOnly l.writes → Safe P G i (fun _ _ _ _ => True) commit sh x l

theorem recordWebhookError_safe (hP : CommitsEvents P G i) (evId : ℕ) (st : PayOrderStatus) :
    Safe P G i (fun _ _ _ _ => True) (recordWebhookError evId st) sh x l := by
  refine Safe.bind (Safe.rollback fun w y hs r => ?_)
  cases r with
  | error e => trivial
  | ok _ =>
    refine Safe.bind (Safe.bind (safe_updateOne (fun w₁ y₁ hs₁ l' hu => ?_)
      fun _ _ _ _ _ _ _ => trivial))
    refine Safe.pure (hP ?_)
    cases he : (l.reset.view w₁.db).get .paymentWebhookEvent evId with
    | none =>
      rw [updated_none hu he]
      exact .nil
    | some e =>
      rw [(updated_one hu he).1]
      exact EventsOnly.nil.cons _

theorem publishCommitted_safe (hP : Quiet P) (out : Committed) :
    Safe P G i (fun _ _ _ _ => True) (publishCommitted out) sh x l := by
  have hpublish : ∀ {sh x l} (m : Message), Safe P G i (fun _ _ _ _ => True) (publish m) sh x l :=
    fun m => safe_hostCall hP fun _ _ _ _ _ _ _ _ => trivial
  rw [publishCommitted]
  split
  · refine Safe.bind ((hpublish _).mono fun r sh x l _ => ?_)
    cases r with
    | error e => trivial
    | ok _ =>
      simp only
      split
      · exact hpublish _
      · exact Safe.pure trivial
  · exact Safe.pure trivial

theorem processEvent_safe (hP : Quiet P) (hcommit : CommitsEvents P G i) {pay : PayRecord}
    {f : PaymentFields} {st : PayOrderStatus} {evId : ℕ}
    (h : Safe P G i (.ofOk fun _ _ _ _ => True) (criticalSection pay.id f st evId) sh x l) :
    Safe P G i (fun _ _ _ _ => True) (processEvent pay f st evId) sh x l := by
  refine Safe.bind (Safe.attempt (h.mono fun out sh x l _ => ?_))
  match out with
  | .error e =>
    refine Safe.bind (Safe.attempt ((recordWebhookError_safe hcommit evId st).mono
      fun _ sh x l _ => ?_))
    exact Safe.raise trivial
  | .ok none => exact Safe.pure trivial
  | .ok (some out) =>
    refine Safe.bind ((publishCommitted_safe hP out).mono fun res sh x l _ => ?_)
    cases res with
    | error e => trivial
    | ok _ => exact Safe.pure trivial

theorem markWebhookReceived_safe (eventId : Option String) (provider : String)
    (payload : Option Json) (orderId : Option ℕ) (lastError : Option String) (status : Option ℕ)
    (hl : EventsOnly l.writes) :
    Safe P G i (.ofOk fun _ _ _ l' => EventsOnly l'.writes)
      (markWebhookReceived eventId provider payload orderId lastError status) sh x l := by
  refine Safe.bind (Safe.insert (fun w y hs m _ _ => ?_) (fun _ w y hs m _ => ?_)
    fun _ _ _ _ _ _ => trivial)
  · exact Safe.pure (hl.cons _)
  · exact Safe.pure hl

/-- The signature check passes or raises, before any statement. -/
theorem verifyRazorpaySignature_cases (lib : Lib) (req : WebhookRequest) :
    verifyRazorpaySignature lib req = pure () ∨
      ∃ m, verifyRazorpaySignature lib req = raiseApp (.typeError m) := by
  rw [verifyRazorpaySignature]
  split
  · exact .inr ⟨_, rfl⟩
  · exact .inr ⟨_, rfl⟩
  · split
    · exact .inr ⟨_, rfl⟩
    · split
      · exact .inl rfl
      · exact .inr ⟨_, rfl⟩

theorem verifyRazorpaySignature_safe (lib : Lib) (req : WebhookRequest) :
    Safe P G i (.ofOk fun _ sh' x' l' => sh' = sh ∧ x' = x ∧ l' = l)
      (verifyRazorpaySignature lib req) sh x l := by
  rcases verifyRazorpaySignature_cases lib req with hv | ⟨m, hv⟩ <;> rw [hv]
  · exact Safe.pure ⟨rfl, rfl, rfl⟩
  · exact Safe.raise trivial

theorem unmatched_safe (eventId : String) (payload : Option Json) (orderId : Option ℕ)
    (lastError : Option String) (status : Option ℕ) (hl : EventsOnly l.writes) :
    Safe P G i (fun _ _ _ _ => True) (do
      let _ ← markWebhookReceived (some eventId) "razorpay" payload orderId lastError status
      pure (okNote "ignored: payment not found")) sh x l := by
  refine Safe.bind ((markWebhookReceived_safe _ _ _ _ _ _ hl).mono fun r sh x l _ => ?_)
  cases r with
  | error e => trivial
  | ok _ => exact Safe.pure trivial

end AnyProtocol

section Deliveries
variable {orders : Set ℕ} {payId : ℕ → ℕ} {d₀ : Db} {G : Guard shop shopHost n} {i : Fin n}
variable {sh : Shared shop shopHost} {x : Unit} {l : Txn shop}

theorem settlement_commitsEvents :
    CommitsEvents (settlementProtocol orders payId d₀ n) G i := by
  intro sh x l hl
  refine Safe.commit (fun w y hs _ => ?_) fun _ _ _ _ _ _ _ => trivial
  have hrow : ∀ {t : Table}, t ≠ .paymentWebhookEvent → ∀ k, (l.view w.db).get t k = w.db.get t k :=
    fun ht k => get_applyWrites_of_not_written (hl.not_written ht k) w.db
  have hinv := hs.inv
  refine ⟨⟨?_, fun k => ?_, fun o ho => ?_⟩, fun k => .inl (hrow (by decide) k), trivial⟩
  · have hitems : l.view w.db .orderItem = w.db .orderItem :=
      applyWrites_of_untouched fun v hv he => by
        rw [hl v hv] at he
        cases he
    exact hitems.trans hinv.items
  · rw [hrow (by decide)]
    exact hinv.rises k
  · obtain ⟨p, hp, hpo, hle, hstate⟩ := hinv.agrees o ho
    refine ⟨p, (hrow (by decide) _).trans hp, hpo, hle, ?_⟩
    rw [Txn.view, orderState_applyWrites o (hl.inserts w.db), hl.foldr_after]
    exact hstate

theorem receiveEvent_safe (eventId : String) (payload event : Json) (pay : PayRecord)
    (f : PaymentFields) (hl : l.writes = []) :
    Safe (settlementProtocol orders payId d₀ n) G i (fun _ _ _ _ => True)
      (receiveEvent eventId payload event pay f) sh x l := by
  refine Safe.bind (safe_ofApp (fun r hr => ?_) fun _ => trivial)
  have hevents : EventsOnly l.writes := hl ▸ .nil
  refine Safe.bind ((markWebhookReceived_safe _ _ _ _ _ _ hevents).mono fun ev sh x l' hl' => ?_)
  match ev with
  | .error e => trivial
  | .ok ev =>
    simp only
    split
    · exact Safe.pure trivial
    · match ev with
      | none => exact Safe.raise trivial
      | some ev =>
        simp only
        split
        · exact Safe.pure trivial
        · exact processEvent_safe (settlement_quiet orders payId d₀) settlement_commitsEvents
            (criticalSection_safe ev.id hr hl')

theorem getPayRecord_safe (providerOrderId : Json) (provider : String) :
    Safe (settlementProtocol orders payId d₀ n) G i (.ofOk fun _ _ _ l' => l' = l)
      (getPayRecordByProviderOrderid providerOrderId provider) sh x l := by
  refine Safe.bind (safe_ofApp (fun poid _ => ?_) fun _ => trivial)
  refine Safe.bind (Safe.read (fun w y hs => ?_) fun _ _ _ _ _ _ _ => trivial)
  exact Safe.bind (safe_oneOrNone (fun _ => Safe.pure rfl) (fun _ _ => Safe.pure rfl) trivial)

theorem razorpayWebhook_safe (lib : Lib) (req : WebhookRequest) :
    Safe (settlementProtocol orders payId d₀ n) G i (fun _ _ _ _ => True)
      (razorpayWebhook lib req) sh x {} := by
  refine Safe.bind ((verifyRazorpaySignature_safe lib req).mono fun r sh x l hl => ?_)
  match r with
  | .error e => trivial
  | .ok _ =>
    obtain ⟨rfl, rfl, rfl⟩ := hl
    match req.json with
    | none => exact Safe.raise trivial
    | some payload =>
      refine Safe.bind (safe_ofApp (fun event _ => ?_) fun _ => trivial)
      simp only
      split
      · exact Safe.raise trivial
      · exact Safe.raise trivial
      rename_i eventId _ _
      refine Safe.bind (safe_ofApp (fun f _ => ?_) fun _ => trivial)
      refine Safe.bind ((getPayRecord_safe f.providerOrderId "razorpay").mono fun r sh x l hl => ?_)
      cases r with
      | error e => trivial
      | ok pay =>
        obtain rfl : l = {} := hl
        simp only
        split
        · exact unmatched_safe _ _ _ _ _ .nil
        · exact unmatched_safe _ _ _ _ _ .nil
        · split
          · exact Safe.raise trivial
          · exact receiveEvent_safe _ _ _ _ _ rfl

end Deliveries

/-! ## Runs -/

def deliveries (lib : Lib) (reqs : Fin n → WebhookRequest) (w : World shop shopHost) :
    Sys shop shopHost n (Except (Exn AppErr) Reply) :=
  .start w fun i => (razorpayWebhook lib (reqs i)).session

/-- An order that waits for its payment. -/
structure AcceptedOrder (d : Db) (o k : ℕ) : Prop where
  payment : ∃ p, d.get .payment k = some p ∧ p.orderId = o ∧
    p.status = PaymentStatus.accepted.value
  unpaid : orderState d o = .unpaid

/-- Payment, order, commit intent and outbox event agree on whether the order is paid. -/
structure OrderAgrees (d : Db) (p : Payment) (o : Orders) : Prop where
  confirmed : p.status = PaymentStatus.captured.value ↔ o.status = OrderStatus.confirmed.value
  intent : o.status = OrderStatus.confirmed.value ↔ (paidIntents d o.id).length = 1
  event : (paidIntents d o.id).length = 1 ↔ (paidEvents d o.id).length = 1
  items : ∀ c ∈ paidIntents d o.id, c.payload = some ⟨o.id, orderPairs d o.id⟩

theorem orderAgrees_of_state {d : Db} {p : Payment} {o : ℕ} {r : Orders}
    (h : orderState d o = expectedState d o p.status) (hr : d.get .orders o = some r) :
    OrderAgrees d p r := by
  have hid : r.id = o := Store.id_of_get hr
  subst hid
  by_cases hp : p.status = PaymentStatus.captured.value
  · rw [expectedState, if_pos hp, orderState, hr, OrderState.paid, OrderState.mk.injEq] at h
    obtain ⟨hstatus, hintents, hevents⟩ := h
    have hstatus : r.status = OrderStatus.confirmed.value := Option.some.inj hstatus
    have hlen : (paidIntents d r.id).length = 1 := by
      simpa using congrArg List.length hintents
    refine ⟨iff_of_true hp hstatus, iff_of_true hstatus hlen, iff_of_true hlen hevents, fun c hc => ?_⟩
    have hmem : c.payload ∈ (paidIntents d r.id).map CommitIntent.payload := List.mem_map_of_mem hc
    rw [hintents] at hmem
    exact List.mem_singleton.mp hmem
  · rw [expectedState, if_neg hp, orderState, hr, OrderState.unpaid, OrderState.mk.injEq] at h
    obtain ⟨hstatus, hintents, hevents⟩ := h
    have hstatus : r.status = OrderStatus.pendingPayment.value := Option.some.inj hstatus
    have hne : r.status ≠ OrderStatus.confirmed.value := by
      rw [hstatus]
      decide
    have hnil : paidIntents d r.id = [] := List.map_eq_nil_iff.mp hintents
    refine ⟨iff_of_false hp hne, iff_of_false hne (by simp [hnil]), ?_, fun c hc => ?_⟩
    · rw [hevents, hnil]
      simp
    · rw [hnil] at hc
      cases hc

theorem order_of_state {d : Db} {o st : ℕ} (h : orderState d o = expectedState d o st) :
    ∃ r, d.get .orders o = some r := by
  have hstatus := congrArg OrderState.status h
  cases hr : d.get .orders o with
  | some r => exact ⟨r, rfl⟩
  | none =>
    simp only [orderState, hr, expectedState] at hstatus
    split at hstatus <;> cases hstatus

/-- Payments only rise, and with a captured payment its order is confirmed, and a
commit intent of the items of the order and an outbox event exist. -/
theorem payments_settle (lib : Lib) {reqs : Fin n → WebhookRequest} {w : World shop shopHost}
    (hw : w.Ok) {orders : Set ℕ} (horders : ∀ o ∈ orders, ∃ k, AcceptedOrder w.db o k)
    {s : Sys shop shopHost n (Except (Exn AppErr) Reply)}
    (hrun : Sys.Reach (deliveries lib reqs w) s) :
    (∀ k, Rises (w.db.get .payment k) (s.world.db.get .payment k)) ∧
      (∀ i c s', s.step (.proc i c) = some s' → ∀ k,
        Rises (s.world.db.get .payment k) (s'.world.db.get .payment k)) ∧
      ∀ o ∈ orders, ∃ p r, p ∈ s.world.db .payment ∧ p.orderId = o ∧
        s.world.db.get .orders o = some r ∧ OrderAgrees s.world.db p r := by
  choose! payId hpay using horders
  have hinv : SettlementInv orders payId w.db w.db := by
    refine ⟨rfl, fun _ => .inl rfl, fun o ho => ?_⟩
    obtain ⟨⟨p, hp, hpo, hst⟩, hunpaid⟩ := hpay o ho
    refine ⟨p, hp, hpo, by rw [hst]; decide, ?_⟩
    rw [hunpaid, hst]
    rfl
  have hs := Sys.Run.inv (P := settlementProtocol orders payId w.db n) hrun
    (Sys.inv_start (Q := fun _ _ _ _ _ => True) hw hinv fun i => Safe.session
      ((razorpayWebhook_safe lib (reqs i)).mono fun _ _ _ _ _ _ _ _ => trivial))
  refine ⟨hs.inv.rises, fun i c s' hstep => hs.guar (Sys.allows_true s i c) hstep, fun o ho => ?_⟩
  obtain ⟨p, hp, hpo, -, hstate⟩ := hs.inv.agrees o ho
  have hpairs : expectedState w.db o p.status = expectedState s.world.db o p.status := by
    simp only [expectedState, orderPairs, hs.inv.items]
  rw [hpairs] at hstate
  obtain ⟨r, hr⟩ := order_of_state hstate
  exact ⟨p, r, Store.mem_of_get hp, hpo, hr, orderAgrees_of_state hstate hr⟩

/-- An order of two pieces of product 5 whose payment has a provider order. -/
def oneAccepted : World shop shopHost where
  db
    | .orders => [⟨1, 21, 1, some 9, OrderStatus.pendingPayment.value, 200, 4, 0, 0, 204⟩]
    | .orderItem => [⟨1, 1, 5, 2, 100, 4, 0⟩]
    | .payment => [⟨1, 31, 1, some "razorpay", none, some "po1", PaymentStatus.accepted.value, 204⟩]
    | _ => []
  host := ⟨0, 0, [], []⟩
  seq _ := 2

theorem oneAccepted_ok : oneAccepted.Ok :=
  ⟨Store.wf_of_pairwise fun t => by cases t <;> decide, fun t => by cases t <;> decide⟩

def paymentEvent (event status paymentId : String) : Json :=
  .obj [("event", .str event), ("payload", .obj [("payment", .obj [("entity", .obj
    [("id", .str paymentId), ("order_id", .str "po1"), ("status", .str status)])])])]

/-- A capture, and a failure that is delivered after it. -/
def captureAndFailure : Fin 2 → WebhookRequest
  | 0 => ⟨some "s", some "e1", "s", some (paymentEvent "payment.captured" "captured" "pay1")⟩
  | 1 => ⟨some "s", some "e2", "s", some (paymentEvent "payment.failed" "failed" "pay0")⟩

theorem payments_settle_late_failure : ∃ s,
    Sys.Reach (deliveries plainLib captureAndFailure oneAccepted) s ∧
      (s.world.db.get .payment 1).map Payment.status = some PaymentStatus.captured.value ∧
      (∀ k, Rises (oneAccepted.db.get .payment k) (s.world.db.get .payment k)) ∧
      (∀ i c s', s.step (.proc i c) = some s' → ∀ k,
        Rises (s.world.db.get .payment k) (s'.world.db.get .payment k)) ∧
      ∀ o ∈ ({1} : Set ℕ), ∃ p r, p ∈ s.world.db .payment ∧ p.orderId = o ∧
        s.world.db.get .orders o = some r ∧ OrderAgrees s.world.db p r := by
  have hexec : ((deliveries plainLib captureAndFailure oneAccepted).exec (fun _ _ _ _ _ => True)
      ([.proc 1 .go, .proc 1 .go] ++ .replicate 7 (.proc 0 .go) ++ [.proc 0 (.host .proceed)] ++
        .replicate 2 (.proc 0 .go) ++ [.proc 1 .go])).map
        (fun s => (s.world.db.get .payment 1).map Payment.status) =
      some (some PaymentStatus.captured.value) := by decide +kernel
  obtain ⟨s, hs, hst⟩ := Option.map_eq_some_iff.mp hexec
  obtain ⟨⟨⟩, hrun⟩ := Sys.run_of_exec History.none () hs
  have horders : ∀ o ∈ ({1} : Set ℕ), ∃ k, AcceptedOrder oneAccepted.db o k := by
    rintro o rfl
    exact ⟨1, ⟨_, rfl, rfl, rfl⟩, rfl⟩
  exact ⟨s, hrun, hst, payments_settle plainLib oneAccepted_ok horders hrun⟩

end Phyllonix
