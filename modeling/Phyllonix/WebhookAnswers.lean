import Phyllonix.RelationalEvolution
import Phyllonix.WebhookFrame

/-!
# What deliveries are answered with

A forged delivery does nothing. An event is recorded in the committed store when
its delivery reaches the commit; the other exits leave what they inserted to the
rollback of the session. A redelivery of a processed event inserts nothing, and
the handler then reads a field of the missing row.
-/

namespace Phyllonix
open Relational
variable {n : ℕ}

/-! ## Forged deliveries -/

/-- The header is not the signature of the body. -/
def Forged (lib : Lib) (req : WebhookRequest) : Prop := req.signature ≠ some (lib.hmacHex req.body)

theorem verifyRazorpaySignature_forged {lib : Lib} {req : WebhookRequest} (h : Forged lib req) :
    ∃ m, verifyRazorpaySignature lib req = raiseApp (.typeError m) := by
  rw [verifyRazorpaySignature]
  split
  · exact ⟨_, rfl⟩
  · exact ⟨_, rfl⟩
  · rename_i sig _ hsig
    split
    · exact ⟨_, rfl⟩
    · rw [if_neg fun he => h (by rw [hsig, he])]
      exact ⟨_, rfl⟩

def isRollback : ShopAction → Prop
  | .rollback => True
  | _ => False

/-- Every rejection raises before the first statement, so the session only rolls back. -/
theorem forged_acts {lib : Lib} {req : WebhookRequest} (h : Forged lib req) :
    (razorpayWebhook lib req).session.Acts isRollback := by
  obtain ⟨m, hm⟩ := verifyRazorpaySignature_forged h
  have hraise : razorpayWebhook lib req = raiseApp (.typeError m) := by
    rw [razorpayWebhook, hm]
    rfl
  rw [hraise]
  exact (Prog.Acts.raise _).session trivial

/-- No step of a forged delivery changes the store, the queue or anything else,
whatever runs beside it. -/
theorem forged_delivery_inert (lib : Lib) {req : WebhookRequest} (hreq : Forged lib req)
    {ps : Fin n → Py (Except (Exn AppErr) Reply)} {i : Fin n}
    (hi : ps i = (razorpayWebhook lib req).session) {w : World shop shopHost}
    {s s' : Sys shop shopHost n (Except (Exn AppErr) Reply)} (hrun : Sys.Reach (.start w ps) s)
    {c : Choice shopHost} (hstep : s.step (.proc i c) = some s') : s'.world = s.world := by
  have hstart : (ps i).Acts isRollback := hi ▸ forged_acts hreq
  have hacts := Sys.Run.acts hrun hstart
  obtain ⟨a, k, r, w', l', hp, hact, rfl⟩ := Sys.step_proc hstep
  rw [hp] at hacts
  cases a with
  | rollback =>
    cases c with
    | host c => cases hact
    | go =>
      simp only [Action.run, Option.some.injEq, Prod.mk.injEq] at hact
      exact hact.2.1.symm
    | fault =>
      simp only [Action.run, Option.some.injEq, Prod.mk.injEq] at hact
      exact hact.2.1.symm
  | _ => exact hacts.1.elim

/-- The capture of `captureAndFailure` under a header that is not its signature. -/
def forgedCapture : Fin 2 → WebhookRequest
  | 0 => ⟨some "t", some "e1", "s", some (paymentEvent "payment.captured" "captured" "pay1")⟩
  | 1 => captureAndFailure 1

theorem forged_delivery_inert_capture : ∃ s',
    (deliveries plainLib forgedCapture oneAccepted).step (.proc 0 .go) = some s' ∧
      s'.world = oneAccepted := by
  have hforged : Forged plainLib (forgedCapture 0) := by simp [Forged, forgedCapture, plainLib]
  have hrun : Sys.Reach (deliveries plainLib forgedCapture oneAccepted)
      (deliveries plainLib forgedCapture oneAccepted) := .start
  exact ⟨_, rfl, forged_delivery_inert plainLib hforged (i := 0) rfl hrun (c := .go) rfl⟩

/-! ## What deliveries do to payments and events -/

/-- What a later version of an event keeps. -/
structure EventKept (e e' : PaymentWebhookEvent) : Prop where
  provider : e'.provider = e.provider
  eventId : e'.providerEventId = e.providerEventId
  payload : e'.payload = e.payload
  processed : e.processedAt.isSome → e'.processedAt.isSome

theorem EventKept.refl (e : PaymentWebhookEvent) : EventKept e e := ⟨rfl, rfl, rfl, id⟩

theorem EventKept.trans {e e' e'' : PaymentWebhookEvent} (h : EventKept e e') (h' : EventKept e' e'') :
    EventKept e e'' :=
  ⟨h'.provider.trans h.provider, h'.eventId.trans h.eventId, h'.payload.trans h.payload,
    fun hp => h'.processed (h.processed hp)⟩

structure PaymentIdent where
  provider : Option String
  providerOrderId : Option String
  orderId : ℕ

def Payment.ident (p : Payment) : PaymentIdent := ⟨p.provider, p.providerOrderId, p.orderId⟩

/-- Payments keep their order at the provider, and events what they were received with. -/
def deliveryOrder : RowOrder shop where
  rel
    | .payment, r, r' => r'.map Payment.ident = r.map Payment.ident
    | .paymentWebhookEvent, r, r' => ∀ e, r = some e → ∃ e', r' = some e' ∧ EventKept e e'
    | _, _, _ => True
  refl t r := by
    cases t with
    | payment => rfl
    | paymentWebhookEvent => exact fun e he => ⟨e, he, .refl e⟩
    | _ => trivial
  trans := by
    intro t r r' r'' h h'
    cases t with
    | payment => exact Eq.trans h' h
    | paymentWebhookEvent =>
      intro e he
      obtain ⟨e', he', hk⟩ := h e he
      obtain ⟨e'', he'', hk'⟩ := h' e' he'
      exact ⟨e'', he'', hk.trans hk'⟩
    | _ => trivial

abbrev KeepsDeliveries : ShopAction → Prop := Action.Keeps deliveryOrder

abbrev InDelivery : ShopAction → Prop := fun a => a.Keeps deliveryOrder ∧ a.Within

/-- Of the events only row `k` is written. -/
def EventOf (k : ℕ) (v : Write shop) : Prop := v.tbl = .paymentWebhookEvent → rowId v.row = k

abbrev InSettling (k : ℕ) : ShopAction → Prop := fun a => InDelivery a ∧ a.Confined (EventOf k)

theorem select_acts {k : ℕ} (t : Table) (p : t.Row → Bool) : (select t p).Acts (InSettling k) :=
  .call ⟨⟨trivial, trivial⟩, trivial⟩

theorem hostCall_acts {k : ℕ} (a : HostAct) : (hostCall a).Acts (InSettling k) :=
  .call ⟨⟨trivial, trivial⟩, trivial⟩

theorem markWebhookReceived_acts (eventId : Option String) (provider : String)
    (payload : Option Json) (orderId : Option ℕ) (lastError : Option String) (status : Option ℕ) :
    (markWebhookReceived eventId provider payload orderId lastError status).Acts InDelivery := by
  refine (Prog.Acts.call ⟨?_, trivial⟩).bind fun _ => .pure _
  intro m e he
  cases he

theorem updateEvent_acts (k : ℕ) (f : PaymentWebhookEvent → PaymentWebhookEvent)
    (hf : ∀ e, rowId (t := .paymentWebhookEvent) (f e) = rowId (t := .paymentWebhookEvent) e)
    (hkept : ∀ e, EventKept e (f e)) :
    (update .paymentWebhookEvent (fun e : PaymentWebhookEvent => e.id = k) f hf).Acts
      (InSettling k) := by
  refine .call ⟨⟨fun e _ he => ⟨f e, rfl, Option.some.inj he ▸ hkept e⟩, trivial⟩, ?_⟩
  intro e he _
  have hid : e.id = k := of_decide_eq_true he
  exact (hf e).trans hid

theorem insertAside_acts {k : ℕ} {t : Table} (ht : t ≠ .payment) (ht' : t ≠ .paymentWebhookEvent)
    (mk : ℕ → t.Row) (hmk : ∀ m, rowId (mk m) = m) :
    (insertOnConflictDoNothing t mk hmk).Acts (InSettling k) := by
  refine Prog.Acts.call ⟨⟨?_, trivial⟩, fun m he => absurd he ht'⟩
  intro m
  cases t <;> first | exact absurd rfl ht | exact absurd rfl ht' | trivial

theorem createCommitIntent_acts {k : ℕ} (orderId : ℕ) (reason ty : String) (payload : CommitPayload) :
    (createCommitIntent orderId reason ty payload).Acts (InSettling k) := by
  refine (insertAside_acts (by decide) (by decide) _ _).bind fun ci => ?_
  cases ci with
  | some ci => exact .pure _
  | none => exact (select_acts _ _).bind fun rows => (oneOrNone_acts rows).bind fun _ => .pure _

theorem emitOutboxEvent_acts {k : ℕ} (topic ty : String) (payload : OutboxPayload) (orderId : ℕ) :
    (emitOutboxEvent topic payload ty orderId).Acts (InSettling k) := by
  refine (insertAside_acts (by decide) (by decide) _ _).bind fun ev => ?_
  cases ev with
  | some ev => exact .pure _
  | none => exact (select_acts _ _).bind fun rows => (oneOrNone_acts rows).bind fun _ => .pure _

theorem emitPaymentEvents_acts {k : ℕ} (orderId : ℕ) (f : PaymentFields) (st : ℕ) :
    (emitPaymentEvents orderId f st).Acts (InSettling k) := by
  rw [emitPaymentEvents]
  split
  · refine ((select_acts _ _).bind fun _ => .pure _).bind fun items => ?_
    refine (createCommitIntent_acts _ _ _ _).bind fun _ => ?_
    exact (emitOutboxEvent_acts _ _ _ _).bind fun _ => .pure _
  · split
    · exact (emitOutboxEvent_acts _ _ _ _).bind fun _ => .pure _
    · exact .pure _

theorem markWebhookProcessed_acts (k : ℕ) (lastError : Option String) :
    (markWebhookProcessed k lastError).Acts (InSettling k) := by
  refine (hostCall_acts _).bind fun t => Prog.Acts.bind (updateEvent_acts _ _ _ ?_) fun _ => .pure _
  exact fun e => ⟨rfl, rfl, rfl, fun _ => rfl⟩

theorem updatePayCompletion_acts {k : ℕ} (payId : ℕ) (ppid : Json) (st : ℕ) :
    (updatePayCompletionGetOrderid payId ppid st).Acts (InSettling k) := by
  refine (ofApp_acts _).bind fun ppid => (Prog.Acts.call ⟨⟨?_, trivial⟩, ?_⟩).bind fun rows =>
    (oneOrNone_acts rows).bind fun _ => .pure _
  · intro p
    rfl
  · intro p _ he
    cases he

theorem updateOrderStatus_acts {k : ℕ} (orderId orderStatus : ℕ) :
    (updateOrderStatus orderId orderStatus).Acts (InSettling k) := by
  refine (Prog.Acts.call ⟨⟨?_, trivial⟩, ?_⟩).bind fun rows =>
    (oneOrNone_acts rows).bind fun _ => .pure _
  · exact fun _ => trivial
  · intro o _ he
    cases he

theorem publishCommitted_acts {k : ℕ} (out : Committed) :
    (publishCommitted out).Acts (InSettling k) := by
  rw [publishCommitted]
  split
  · refine (hostCall_acts _).bind fun _ => ?_
    split
    · exact hostCall_acts _
    · exact .pure _
  · exact .pure _

theorem keeps_of_settling {k : ℕ} {α : Type} {p : Py α} (h : p.Acts (InSettling k)) :
    p.Acts KeepsDeliveries := h.mono fun _ ha => ha.1.1

theorem criticalSection_acts (payId : ℕ) (f : PaymentFields) (st : PayOrderStatus) (evId : ℕ) :
    (criticalSection payId f st evId).Acts KeepsDeliveries := by
  refine (keeps_of_settling (updatePayCompletion_acts (k := evId) _ _ _)).bind fun o => ?_
  match o with
  | none => exact .pure _
  | some 0 => exact .pure _
  | some (o + 1) =>
    refine (keeps_of_settling (updateOrderStatus_acts (k := evId) _ _)).bind fun _ => ?_
    refine (keeps_of_settling (emitPaymentEvents_acts (k := evId) _ _ _)).bind fun _ => ?_
    refine (keeps_of_settling (markWebhookProcessed_acts _ _)).bind fun _ => ?_
    exact (Prog.Acts.call trivial).bind fun _ => .pure _

theorem recordWebhookError_acts (evId : ℕ) (st : PayOrderStatus) :
    (recordWebhookError evId st).Acts KeepsDeliveries := by
  refine (Prog.Acts.call trivial).bind fun _ => Prog.Acts.bind ?_ fun _ => .call trivial
  refine Prog.Acts.bind (keeps_of_settling (updateEvent_acts _ _ _ ?_)) fun _ => .pure _
  exact fun e => ⟨rfl, rfl, rfl, id⟩

theorem processEvent_acts (pay : PayRecord) (f : PaymentFields) (st : PayOrderStatus) (evId : ℕ) :
    (processEvent pay f st evId).Acts KeepsDeliveries := by
  refine (criticalSection_acts _ _ _ _).attempt.bind fun r => ?_
  match r with
  | .error e => exact (recordWebhookError_acts _ _).attempt.bind fun _ => .raise _
  | .ok none => exact .pure _
  | .ok (some out) =>
    exact (keeps_of_settling (publishCommitted_acts (k := evId) out)).bind fun _ => .pure _

theorem receiveEvent_acts (eventId : String) (payload event : Json) (pay : PayRecord)
    (f : PaymentFields) : (receiveEvent eventId payload event pay f).Acts KeepsDeliveries := by
  refine (ofApp_acts _).bind fun st =>
    ((markWebhookReceived_acts _ _ _ _ _ _).mono fun _ ha => ha.1).bind fun ev => ?_
  split
  · exact .pure _
  · match ev with
    | none => exact .raise _
    | some ev =>
      simp only
      split
      · exact .pure _
      · exact processEvent_acts _ _ _ _

theorem verifyRazorpaySignature_acts {A : ShopAction → Prop} (lib : Lib) (req : WebhookRequest) :
    (verifyRazorpaySignature lib req).Acts A := by
  rcases verifyRazorpaySignature_cases lib req with hv | ⟨m, hv⟩ <;> rw [hv]
  · exact .pure _
  · exact .raise _

theorem getPayRecord_acts {k : ℕ} (poid : Json) (provider : String) :
    (getPayRecordByProviderOrderid poid provider).Acts (InSettling k) :=
  (ofApp_acts _).bind fun _ => (select_acts _ _).bind fun rows =>
    (oneOrNone_acts rows).bind fun _ => .pure _

theorem razorpayWebhook_acts (lib : Lib) (req : WebhookRequest) :
    (razorpayWebhook lib req).Acts KeepsDeliveries := by
  refine (verifyRazorpaySignature_acts lib req).bind fun _ => ?_
  match req.json with
  | none => exact .raise _
  | some payload =>
    refine (ofApp_acts _).bind fun event => ?_
    split
    · exact .raise _
    · exact .raise _
    rename_i eventId _ _
    have hunmatched : ∀ e : String, (markWebhookReceived (some eventId) "razorpay" (some payload) none
        (some e) (some PaymentEventStatus.inconsistent.value)).Acts KeepsDeliveries := fun _ =>
      (markWebhookReceived_acts _ _ _ _ _ _).mono fun _ ha => ha.1
    refine (ofApp_acts _).bind fun f =>
      (keeps_of_settling (getPayRecord_acts (k := 0) _ _)).bind fun pay => ?_
    split
    · exact (hunmatched _).bind fun _ => .pure _
    · exact (hunmatched _).bind fun _ => .pure _
    · split
      · exact .raise _
      · exact receiveEvent_acts _ _ _ _ _

/-! ## What a delivery finds -/

def EventRecorded (d : Db) (eventId : String) : Prop :=
  ∃ e ∈ d .paymentWebhookEvent, PaymentWebhookEvent.provider e = "razorpay" ∧
    PaymentWebhookEvent.providerEventId e = some eventId

instance (d : Db) (eventId : String) : Decidable (EventRecorded d eventId) :=
  inferInstanceAs (Decidable (∃ e ∈ d .paymentWebhookEvent,
    PaymentWebhookEvent.provider e = "razorpay" ∧
      PaymentWebhookEvent.providerEventId e = some eventId))

/-- The row of the delivery or of an earlier one with its event id. -/
def RecordedFor (d : Db) (req : WebhookRequest) : Prop :=
  match req.providerEventId with
  | none | some "" => ∃ e ∈ d .paymentWebhookEvent, PaymentWebhookEvent.provider e = "razorpay" ∧
      PaymentWebhookEvent.providerEventId e = none ∧ PaymentWebhookEvent.payload e = req.json
  | some eventId => EventRecorded d eventId

def paymentsOf (d : Db) (poid : Option String) : List Payment :=
  (d .payment).filter fun p : Payment => p.provider = some "razorpay" && p.providerOrderId = poid

/-- The payload leads to an answer 200 before the commit. -/
def endsEarly (d : Db) (payload : Json) : Except AppErr Bool := do
  let event ← payload.get "event" .null
  let f ← paymentFields payload
  let poid ← bindText f.providerOrderId
  match paymentsOf d poid with
  | [] => pure true
  | [p] =>
    if p.orderId = 0 then pure true
    else if !f.providerPaymentId.truthy then pure false
    else do
      let st ← payOrderStatusUtil f.pspPayStatus event
      if !st.isValidEvent then pure true
      else do
        let _ ← bindText f.providerPaymentId
        pure (st.paymentStatus ≤ p.status)
  | _ => pure false

/-- The event is not recorded yet, and its delivery ends without a commit. -/
def drops (d : Db) (req : WebhookRequest) : Bool :=
  match req.json, req.providerEventId with
  | some payload, some eventId =>
    eventId ≠ "" && !decide (EventRecorded d eventId) && match endsEarly d payload with
      | .ok b => b
      | .error _ => false
  | _, _ => false

def EventHeld (d : Db) (eventId : String) : Prop :=
  ∃ k e, d.get .paymentWebhookEvent k = some e ∧ e.provider = "razorpay" ∧
    e.providerEventId = some eventId

theorem EventHeld.recorded {d : Db} {eventId : String} (h : EventHeld d eventId) :
    EventRecorded d eventId := by
  obtain ⟨k, e, he, hp, hid⟩ := h
  exact ⟨e, Store.mem_of_get he, hp, hid⟩

theorem EventRecorded.held {d : Db} (hd : ∀ t, ((d t).map rowId).Nodup) {eventId : String}
    (h : EventRecorded d eventId) : EventHeld d eventId := by
  obtain ⟨e, he, hp, hid⟩ := h
  exact ⟨_, e, Store.get_of_mem hd he, hp, hid⟩

theorem EventHeld.evolves {d d' : Db} {eventId : String} (h : EventHeld d eventId)
    (he : Evolves deliveryOrder d d') : EventHeld d' eventId := by
  obtain ⟨k, e, hk, hp, hid⟩ := h
  obtain ⟨e', hk', hkept⟩ := he .paymentWebhookEvent k e hk
  exact ⟨k, e', hk', hkept.provider.trans hp, hkept.eventId.trans hid⟩

/-- The one payment of a provider order, and its order. -/
structure OnlyPayment (d : Db) (poid : Option String) (k o : ℕ) : Prop where
  found : (d.get .payment k).map Payment.ident = some ⟨some "razorpay", poid, o⟩
  only : ∀ j o', (d.get .payment j).map Payment.ident = some ⟨some "razorpay", poid, o'⟩ → j = k

theorem OnlyPayment.evolves {d d' : Db} {poid : Option String} {k o : ℕ}
    (h : OnlyPayment d poid k o) (he : Evolves deliveryOrder d d') : OnlyPayment d' poid k o := by
  have hsame : ∀ j, (d'.get .payment j).map Payment.ident = (d.get .payment j).map Payment.ident :=
    fun j => he .payment j
  exact ⟨(hsame k).trans h.found, fun j o' hj => h.only j o' ((hsame j).symm.trans hj)⟩

theorem mem_paymentsOf {d : Db} {poid : Option String} {p : Payment} :
    p ∈ paymentsOf d poid ↔ p ∈ d .payment ∧ p.ident = ⟨some "razorpay", poid, p.orderId⟩ := by
  simp [paymentsOf, Payment.ident]

theorem onlyPayment_of_eq {d : Db} (hd : ∀ t, ((d t).map rowId).Nodup) {poid : Option String}
    {p : Payment} (h : paymentsOf d poid = [p]) : OnlyPayment d poid p.id p.orderId := by
  have hmem : ∀ q : Payment, q ∈ paymentsOf d poid ↔ q = p := by simp [h]
  obtain ⟨hp, hident⟩ := mem_paymentsOf.mp ((hmem p).mpr rfl)
  have hget : d.get .payment p.id = some p := Store.get_of_mem hd hp
  refine ⟨by rw [hget, ← hident]; rfl, fun j o' hj => ?_⟩
  obtain ⟨q, hq, hqi⟩ := Option.map_eq_some_iff.mp hj
  have hqo : q.orderId = o' := congrArg PaymentIdent.orderId hqi
  have hqp : q = p := (hmem q).mp (mem_paymentsOf.mpr ⟨Store.mem_of_get hq, by rw [hqi, hqo]⟩)
  have hid : q.id = j := Store.id_of_get hq
  rw [← hid, hqp]

theorem OnlyPayment.eq {d : Db} (hd : ∀ t, ((d t).map rowId).Nodup) {poid : Option String}
    {k o : ℕ} (h : OnlyPayment d poid k o) :
    ∃ p, paymentsOf d poid = [p] ∧ d.get .payment k = some p ∧ p.orderId = o := by
  obtain ⟨p, hp, hident⟩ := Option.map_eq_some_iff.mp h.found
  have ho : p.orderId = o := congrArg PaymentIdent.orderId hident
  have hmem : p ∈ paymentsOf d poid :=
    mem_paymentsOf.mpr ⟨Store.mem_of_get hp, by rw [hident, ho]⟩
  refine ⟨p, eq_singleton ?_ hmem fun q hq => ?_, hp, ho⟩
  · exact ((hd .payment).of_map).filter _
  · obtain ⟨hq, hqi⟩ := mem_paymentsOf.mp hq
    have hgetq : d.get .payment q.id = some q := Store.get_of_mem hd hq
    have hk := h.only q.id q.orderId (by rw [hgetq, ← hqi]; rfl)
    rw [hk, hp] at hgetq
    exact (Option.some.inj hgetq).symm

section Drops
variable {d : Db} {req : WebhookRequest} {payload event : Json} {eventId : String} {f : PaymentFields}
variable {o : Option String}

/-- A payment that the event moves up. -/
structure MovesUp (f : PaymentFields) (event : Json) (p : Payment) : Prop where
  ordered : p.orderId ≠ 0
  valid : f.providerPaymentId.truthy = true → ∀ st, payOrderStatusUtil f.pspPayStatus event = .ok st →
    st.isValidEvent = true
  below : f.providerPaymentId.truthy = true → ∀ st, payOrderStatusUtil f.pspPayStatus event = .ok st →
    ∀ ppid, bindText f.providerPaymentId = .ok ppid → p.status < st.paymentStatus

theorem drops_cases (h : drops d req = false) (hjson : req.json = some payload)
    (hid : req.providerEventId = some eventId) (hne : eventId ≠ "")
    (hev : payload.get "event" .null = .ok event) (hf : paymentFields payload = .ok f)
    (ho : bindText f.providerOrderId = .ok o) :
    EventRecorded d eventId ∨
      paymentsOf d o ≠ [] ∧ ∀ p, paymentsOf d o = [p] → MovesUp f event p := by
  by_cases hrec : EventRecorded d eventId
  · exact .inl hrec
  have hends : endsEarly d payload ≠ .ok true := fun he => by
    simp [drops, hjson, hid, hne, hrec, he] at h
  simp only [endsEarly, bind, Except.bind, pure, Except.pure, hev, hf, ho] at hends
  refine .inr ⟨fun hnil => hends (by rw [hnil]), fun p hp => ?_⟩
  simp only [hp] at hends
  have hord : p.orderId ≠ 0 := fun hz => hends (if_pos hz)
  rw [if_neg hord] at hends
  refine ⟨hord, fun ht st hst => ?_, fun ht st hst ppid hppid => ?_⟩
  · by_contra hv
    exact hends (by simp [ht, hst, hv])
  · by_contra hle
    have hst' : st.paymentStatus ≤ p.status := Nat.le_of_not_lt hle
    exact hends (by by_cases hv : st.isValidEvent <;> simp [ht, hst, hv, hppid, hst'])

end Drops

/-! ## Acknowledged deliveries -/

section Acknowledged
variable {G : Guard shop shopHost n} {i : Fin n} {req : WebhookRequest} {payload event : Json}
variable {eventId : String} {f : PaymentFields} {o : Option String}
variable {sh : Shared shop shopHost} {x : Unit} {l : Txn shop}

/-- Deliveries whose other programs may do what deliveries do. -/
abbrev deliveryProtocol (n : ℕ) : Protocol shop shopHost n :=
  evolution deliveryOrder (fun _ => True) fun _ => False

/-- The request has an event id, a document and the fields of a payment. -/
structure Parsed (req : WebhookRequest) (payload event : Json) (eventId : String)
    (f : PaymentFields) : Prop where
  json : req.json = some payload
  identified : req.providerEventId = some eventId
  nonempty : eventId ≠ ""
  named : payload.get "event" .null = .ok event
  fields : paymentFields payload = .ok f

/-- What the payment lookup tells, when no delivery drops its event. -/
structure LookedUp (d : Db) (eventId : String) (event : Json) (f : PaymentFields)
    (o : Option String) (pay : PayRecord) : Prop where
  bound : bindText f.providerOrderId = .ok o
  only : OnlyPayment d o pay.id pay.orderId
  ordered : pay.orderId = 0 → EventHeld d eventId
  valid : f.providerPaymentId.truthy = true → ∀ st, payOrderStatusUtil f.pspPayStatus event = .ok st →
    st.isValidEvent = false → EventHeld d eventId

theorem findPayment_acked (hreq : Parsed req payload event eventId f)
    (hG : ∀ {sh l a c}, G i sh l a c → drops sh.db req = false) :
    Safe (deliveryProtocol n) (G.evolving deliveryOrder) i (.ofOk fun pay sh' _ l' => l' = {} ∧
        match pay with
        | none => EventHeld sh'.db eventId
        | some pay => ∃ o, LookedUp sh'.db eventId event f o pay)
      (getPayRecordByProviderOrderid f.providerOrderId "razorpay") sh x {} := by
  refine Safe.bind (safe_ofApp (fun o ho => ?_) fun _ => trivial)
  refine Safe.bind (Safe.read_guarded (fun w y hs hg => ?_) fun _ _ _ _ _ _ _ => trivial)
  obtain ⟨c, hg, -⟩ := hg
  have hids := hs.world.wf.ids
  have hcases := drops_cases (hG hg) hreq.json hreq.identified hreq.nonempty hreq.named hreq.fields ho
  refine Safe.bind (safe_oneOrNone (fun hnil => Safe.pure ⟨rfl, ?_⟩) (fun p hp => Safe.pure ⟨rfl, ?_⟩)
    trivial)
  · rcases hcases with hrec | ⟨hne, -⟩
    · exact hrec.held hids
    · exact absurd hnil hne
  · have hone : paymentsOf w.db o = [p] := hp
    refine ⟨o, ho, onlyPayment_of_eq hids hone, fun hz => ?_, fun ht st hst hv => ?_⟩
    · rcases hcases with hrec | ⟨-, hmoves⟩
      · exact hrec.held hids
      · exact absurd hz (hmoves p hone).ordered
    · rcases hcases with hrec | ⟨-, hmoves⟩
      · exact hrec.held hids
      · rw [(hmoves p hone).valid ht st hst] at hv
        cases hv

theorem eventHeld_insert (l : Txn shop) (d : Db) {e : PaymentWebhookEvent}
    (hp : e.provider = "razorpay") (hid : e.providerEventId = some eventId) :
    EventHeld ((l.write .paymentWebhookEvent [] e).view d) eventId :=
  ⟨e.id, e, Store.get_put_self (S := shop) (l.view d) .paymentWebhookEvent e, hp, hid⟩

/-- A row that the statement returns is a new one, which is not processed yet. -/
theorem markWebhookReceived_held (lastError : Option String) (orderId : Option ℕ)
    (status : Option ℕ) :
    Safe (deliveryProtocol n) (G.evolving deliveryOrder) i (.ofOk fun ev sh' _ l' =>
        Evolves deliveryOrder sh.db sh'.db ∧ (EventsOnly l.writes → EventsOnly l'.writes) ∧
          ∀ r, ev = some r → r.processedAt = none ∧ EventHeld (l'.view sh'.db) eventId)
      (markWebhookReceived (some eventId) "razorpay" (some payload) orderId lastError status)
      sh x l := by
  refine Safe.bind (Safe.insert (fun w y hs m _ _ => ?_) (fun _ w y hs m _ => ?_)
    fun _ _ _ _ _ _ => trivial)
  · refine Safe.pure ⟨hs.rely, fun hl => hl.cons _, fun r hr => ?_⟩
    cases hr
    exact ⟨rfl, eventHeld_insert l w.db rfl rfl⟩
  · refine Safe.pure ⟨hs.rely, id, fun r hr => ?_⟩
    cases hr

/-- The exit "event not in order" leaves an event that was recorded before. -/
theorem updatePayment_acked {pay : PayRecord} {st : PayOrderStatus}
    (hreq : Parsed req payload event eventId f)
    (hG : ∀ {sh l a c}, G i sh l a c → drops sh.db req = false)
    (hpay : LookedUp sh.db eventId event f o pay) (ht : f.providerPaymentId.truthy = true)
    (hst : payOrderStatusUtil f.pspPayStatus event = .ok st) (hl : EventsOnly l.writes)
    (hown : EventHeld (l.view sh.db) eventId) :
    Safe (deliveryProtocol n) (G.evolving deliveryOrder) i (.ofOk fun r sh' _ l' =>
        EventHeld (l'.view sh'.db) eventId ∧ (r = none ∨ r = some 0 → EventHeld sh'.db eventId))
      (updatePayCompletionGetOrderid pay.id f.providerPaymentId st.paymentStatus) sh x l := by
  refine Safe.bind (safe_ofApp (fun ppid hppid => ?_) fun _ => trivial)
  refine Safe.bind (Safe.update_guarded (fun w y hs hg l' hu => ?_) fun _ _ _ _ _ _ _ => trivial)
  obtain ⟨c, hg, -⟩ := hg
  have hids := hs.world.wf.ids
  have hrely : Evolves deliveryOrder sh.db w.db := hs.rely
  have hview : EventHeld (l'.view w.db) eventId := by
    have hseen : EventHeld (l.view w.db) eventId := hown.evolves (hrely.view hs.ok hs.still)
    obtain ⟨k, e, hk, he⟩ := hseen
    refine ⟨k, e, ?_, he⟩
    have hrest : Extends (fun t => t = .payment) l l' := ⟨_, hu.writes, fun v hv => by
      simp only [updateWrites, List.mem_reverse, List.mem_map] at hv
      obtain ⟨r, -, rfl⟩ := hv
      rfl⟩
    rw [Store.get, hrest.view (by decide)]
    exact hk
  obtain ⟨p, hone, hp, hord⟩ := (hpay.only.evolves hrely).eq hids
  have hrows : (l.view w.db .payment).filter
      (fun q : Payment => decide (q.id = pay.id) && decide (q.status < st.paymentStatus)) =
        ((w.db.get .payment pay.id).filter fun q : Payment => decide (q.status < st.paymentStatus)).toList := by
    rw [← get_applyWrites_of_not_written (hl.not_written (t := .payment) (by decide) pay.id) w.db]
    exact Store.filter_id_and (S := shop) hs.ok.wf.ids .payment pay.id
      fun q : Payment => decide (q.status < st.paymentStatus)
  rw [hrows, hp]
  rcases drops_cases (hG hg) hreq.json hreq.identified hreq.nonempty hreq.named hreq.fields
    hpay.bound with hrec | ⟨-, hmoves⟩
  · have hheld := hrec.held hids
    exact Safe.bind (safe_oneOrNone (fun _ => Safe.pure ⟨hview, fun _ => hheld⟩)
      (fun _ _ => Safe.pure ⟨hview, fun _ => hheld⟩) trivial)
  · have hp' := hmoves p hone
    have hlt := hp'.below ht st hst ppid hppid
    refine Safe.bind (safe_oneOrNone (fun hnil => ?_) (fun q hq => ?_) trivial)
    · simp [Option.filter, hlt] at hnil
    · refine Safe.pure ⟨hview, fun hr => absurd hp'.ordered ?_⟩
      have hq' : q.orderId = p.orderId := by
        simp only [Option.filter, hlt, decide_true, if_true, Option.toList, List.map_cons,
          List.map_nil, List.cons.injEq, and_true] at hq
        rw [← hq]
      rw [← hq']
      rcases hr with hr | hr
      · cases hr
      · exact fun hne => hne (Option.some.inj hr)

theorem criticalSection_acked {pay : PayRecord} {st : PayOrderStatus} (evId : ℕ)
    (hreq : Parsed req payload event eventId f)
    (hG : ∀ {sh l a c}, G i sh l a c → drops sh.db req = false)
    (hpay : LookedUp sh.db eventId event f o pay) (ht : f.providerPaymentId.truthy = true)
    (hst : payOrderStatusUtil f.pspPayStatus event = .ok st) (hl : EventsOnly l.writes)
    (hown : EventHeld (l.view sh.db) eventId) :
    Safe (deliveryProtocol n) (G.evolving deliveryOrder) i
      (.ofOk fun _ sh' _ _ => EventHeld sh'.db eventId) (criticalSection pay.id f st evId) sh x l := by
  have hstep : ∀ {α : Type} {p : Py α} {sh₁ : Shared shop shopHost} {x₁ : Unit} {l₁ : Txn shop},
      p.Acts (InSettling evId) → EventHeld (l₁.view sh₁.db) eventId →
      Safe (deliveryProtocol n) (G.evolving deliveryOrder) i
        (fun _ sh' _ l' => EventHeld (l'.view sh'.db) eventId) p sh₁ x₁ l₁ := fun hp hheld =>
    (Safe.of_within (hp.mono fun _ ha => ha.1)).mono fun _ _ _ _ hev => hheld.evolves hev.2
  refine Safe.bind ((updatePayment_acked hreq hG hpay ht hst hl hown).mono fun r sh x l hr => ?_)
  match r with
  | .error e => trivial
  | .ok none => exact Safe.pure (hr.2 (.inl rfl))
  | .ok (some 0) => exact Safe.pure (hr.2 (.inr rfl))
  | .ok (some (o + 1)) =>
    refine Safe.bind ((hstep (updateOrderStatus_acts _ _) hr.1).mono fun r sh x l h₁ => ?_)
    cases r with
    | error e => trivial
    | ok _ =>
      refine Safe.bind ((hstep (emitPaymentEvents_acts _ _ _) h₁).mono fun r sh x l h₂ => ?_)
      cases r with
      | error e => trivial
      | ok out =>
        refine Safe.bind ((hstep (markWebhookProcessed_acts _ _) h₂).mono fun r sh x l h₃ => ?_)
        cases r with
        | error e => trivial
        | ok _ =>
          refine Safe.bind (Safe.commit_evolving id (fun w y hs _ => ⟨trivial, ?_⟩)
            fun _ _ _ _ _ _ _ => trivial)
          exact Safe.pure (h₃.evolves (Evolves.view hs.rely hs.ok hs.still))

theorem publishCommitted_acked (out : Committed) (h : EventHeld sh.db eventId) :
    Safe (deliveryProtocol n) (G.evolving deliveryOrder) i
      (fun _ sh' _ _ => EventHeld sh'.db eventId) (publishCommitted out) sh x l :=
  (Safe.of_within ((publishCommitted_acts (k := 0) out).mono fun _ ha => ha.1)).mono fun _ _ _ _ hev => h.evolves hev.1

theorem processEvent_acked {pay : PayRecord} {st : PayOrderStatus} (evId : ℕ)
    (hreq : Parsed req payload event eventId f)
    (hG : ∀ {sh l a c}, G i sh l a c → drops sh.db req = false)
    (hpay : LookedUp sh.db eventId event f o pay) (ht : f.providerPaymentId.truthy = true)
    (hst : payOrderStatusUtil f.pspPayStatus event = .ok st) (hl : EventsOnly l.writes)
    (hown : EventHeld (l.view sh.db) eventId) :
    Safe (deliveryProtocol n) (G.evolving deliveryOrder) i
      (.ofOk fun _ sh' _ _ => EventHeld sh'.db eventId) (processEvent pay f st evId) sh x l := by
  refine Safe.bind (Safe.attempt ((criticalSection_acked evId hreq hG hpay ht hst hl hown).mono
    fun r sh x l hr => ?_))
  match r with
  | .error e =>
    have hrecord : Safe (deliveryProtocol n) (G.evolving deliveryOrder) i (fun _ _ _ _ => True)
        (recordWebhookError evId st) sh x l := by
      refine recordWebhookError_safe (fun _ => ?_) evId st
      exact Safe.commit_evolving id (fun _ _ _ _ => ⟨trivial, trivial⟩) fun _ _ _ _ _ _ _ => trivial
    refine Safe.bind (Safe.attempt (hrecord.mono fun _ sh x l _ => ?_))
    exact Safe.raise trivial
  | .ok none => exact Safe.pure hr
  | .ok (some out) =>
    refine Safe.bind ((publishCommitted_acked out hr).mono fun r sh x l hr => ?_)
    cases r with
    | error e => trivial
    | ok _ => exact Safe.pure hr

theorem receiveEvent_acked {pay : PayRecord} (hreq : Parsed req payload event eventId f)
    (hG : ∀ {sh l a c}, G i sh l a c → drops sh.db req = false)
    (hpay : LookedUp sh.db eventId event f o pay) (ht : f.providerPaymentId.truthy = true)
    (hl : l.writes = []) :
    Safe (deliveryProtocol n) (G.evolving deliveryOrder) i
      (.ofOk fun _ sh' _ _ => EventHeld sh'.db eventId)
      (receiveEvent eventId payload event pay f) sh x l := by
  refine Safe.bind (safe_ofApp (fun st hst => ?_) fun _ => trivial)
  refine Safe.bind ((markWebhookReceived_held _ _ _).mono fun ev sh' x l' hev => ?_)
  match ev with
  | .error e => trivial
  | .ok ev =>
    obtain ⟨hrely, hevents, hown⟩ := hev
    have hpay' : LookedUp sh'.db eventId event f o pay :=
      ⟨hpay.bound, hpay.only.evolves hrely, fun hz => (hpay.ordered hz).evolves hrely,
        fun ht st hst hv => (hpay.valid ht st hst hv).evolves hrely⟩
    simp only
    split
    · rename_i hv
      exact Safe.pure (hpay'.valid ht st hst (by simpa using hv))
    · match ev with
      | none => exact Safe.raise trivial
      | some ev =>
        obtain ⟨hnew, hheld⟩ := hown ev rfl
        simp only [hnew]
        exact processEvent_acked ev.id hreq hG hpay' ht hst (hevents (hl ▸ .nil)) hheld

/-- Every answer of the handler acknowledges an event of the committed store. -/
theorem razorpayWebhook_acked (lib : Lib) (req : WebhookRequest)
    (hG : ∀ {sh l a c}, G i sh l a c → drops sh.db req = false) :
    Safe (deliveryProtocol n) (G.evolving deliveryOrder) i (.ofOk fun _ sh' _ _ =>
        ∃ eventId, req.providerEventId = some eventId ∧ eventId ≠ "" ∧ EventHeld sh'.db eventId)
      (razorpayWebhook lib req) sh x {} := by
  refine Safe.bind ((verifyRazorpaySignature_safe lib req).mono fun r sh x l hl => ?_)
  match r with
  | .error e => trivial
  | .ok _ =>
    obtain ⟨rfl, rfl, rfl⟩ := hl
    cases hjson : req.json with
    | none => exact Safe.raise trivial
    | some payload =>
      refine Safe.bind (safe_ofApp (fun event hev => ?_) fun _ => trivial)
      simp only
      split
      · exact Safe.raise trivial
      · exact Safe.raise trivial
      rename_i eventId hne hid
      refine Safe.bind (safe_ofApp (fun f hf => ?_) fun _ => trivial)
      have hreq : Parsed req payload event eventId f := ⟨hjson, hid, hne, hev, hf⟩
      have hunmatched : ∀ {sh x l lastError}, EventHeld sh.db eventId →
          Safe (deliveryProtocol n) (G.evolving deliveryOrder) i
            (.ofOk fun _ sh' _ _ => ∃ eventId, req.providerEventId = some eventId ∧ eventId ≠ "" ∧
              EventHeld sh'.db eventId) (do
                let _ ← markWebhookReceived (some eventId) "razorpay" (some payload) none lastError
                  (some PaymentEventStatus.inconsistent.value)
                pure (okNote "ignored: payment not found")) sh x l := fun hheld => by
        refine Safe.bind ((markWebhookReceived_held _ _ _).mono fun r sh' x l' hr => ?_)
        cases r with
        | error e => trivial
        | ok _ => exact Safe.pure ⟨eventId, hid, hreq.nonempty, hheld.evolves hr.1⟩
      refine Safe.bind ((findPayment_acked hreq hG).mono fun pay sh x l hpay => ?_)
      match pay with
      | .error e => trivial
      | .ok none =>
        obtain ⟨rfl, hheld⟩ := hpay
        exact hunmatched hheld
      | .ok (some ⟨k, 0⟩) =>
        obtain ⟨rfl, o, hlook⟩ := hpay
        exact hunmatched (hlook.ordered rfl)
      | .ok (some ⟨k, oid + 1⟩) =>
        obtain ⟨rfl, o, hlook⟩ := hpay
        simp only
        split
        · exact Safe.raise trivial
        · rename_i ht
          refine (receiveEvent_acked hreq hG hlook (by simpa using ht) rfl).mono fun r _ _ _ hr => ?_
          cases r with
          | error e => trivial
          | ok _ => exact ⟨eventId, hid, hreq.nonempty, hr⟩

end Acknowledged
/-- No delivery takes a step from a state in which its event would be dropped. -/
def dropsNothing (reqs : Fin n → WebhookRequest) : Guard shop shopHost n :=
  fun i sh _ _ _ => drops sh.db (reqs i) = false

instance (reqs : Fin n → WebhookRequest) (i : Fin n) (sh : Shared shop shopHost) (l : Txn shop)
    (a : ShopAction) (c : Choice shopHost) : Decidable (dropsNothing reqs i sh l a c) :=
  inferInstanceAs (Decidable (drops sh.db (reqs i) = false))

/-- An answered delivery has its event in the committed store. -/
theorem acknowledged_recorded (lib : Lib) {reqs : Fin n → WebhookRequest} {w : World shop shopHost}
    (hw : w.Ok) {s : Sys shop shopHost n (Except (Exn AppErr) Reply)}
    (hrun : Sys.Run (dropsNothing reqs) History.none (deliveries lib reqs w) () s ()) {i : Fin n}
    {r : Reply} (hr : s.outcome i = some (.ok r)) : RecordedFor s.world.db (reqs i) := by
  have hstart : (deliveries lib reqs w).Evolving deliveryOrder :=
    Sys.evolving_start hw fun i => (razorpayWebhook_acts lib (reqs i)).session trivial
  let Q : Fin n → Post (deliveryProtocol n) (Except (Exn AppErr) Reply) := fun i out sh _ _ =>
    ∀ r, out = .ok (.ok r) → ∃ eventId, (reqs i).providerEventId = some eventId ∧ eventId ≠ "" ∧
      EventHeld sh.db eventId
  have hsafe : ∀ i, Safe (deliveryProtocol n) ((dropsNothing reqs).evolving deliveryOrder) i (Q i)
      (razorpayWebhook lib (reqs i)).session w.toShared () {} := by
    intro i
    refine Safe.session ((razorpayWebhook_acked lib (reqs i) fun h => h).mono ?_)
    intro out sh x l hout w₁ y hs r hr
    cases hr
    obtain ⟨eventId, hid, hne, hheld⟩ := hout
    exact ⟨eventId, hid, hne, hheld.evolves hs.rely⟩
  have hinv := Sys.Run.inv (hrun.guarded hstart) (Sys.inv_start hw trivial hsafe)
  obtain ⟨sh, y, hdone, hseen⟩ := hinv.seen i
  rw [Sys.prog_of_outcome hr] at hdone
  obtain ⟨eventId, hid, hne, hheld⟩ := hdone r rfl
  have hrec : EventRecorded s.world.db eventId := (hheld.evolves hseen.rely).recorded
  rw [RecordedFor, hid]
  split
  · contradiction
  · rename_i he
    exact absurd (Option.some.inj he) hne
  · rename_i he
    rwa [← Option.some.inj he]

theorem acknowledged_recorded_capture : ∃ s r,
    Sys.Run (dropsNothing captureAndFailure) History.none
        (deliveries plainLib captureAndFailure oneAccepted) () s () ∧
      s.outcome 0 = some (.ok r) ∧ RecordedFor s.world.db (captureAndFailure 0) := by
  have hexec : (((deliveries plainLib captureAndFailure oneAccepted).exec
      (dropsNothing captureAndFailure) (.replicate 7 (.proc 0 .go) ++ [.proc 0 (.host .proceed)] ++
        .replicate 2 (.proc 0 .go) ++ .replicate 2 (.proc 0 (.host .proceed)) ++
        [.proc 0 .go])).map fun s => ((s.outcome 0).bind Except.toOption).map Reply.status) =
      some (some 200) := by decide +kernel
  obtain ⟨s, hs, hout⟩ := Option.map_eq_some_iff.mp hexec
  obtain ⟨⟨⟩, hrun⟩ := Sys.run_of_exec History.none () hs
  obtain ⟨r, hr, -⟩ := Option.map_eq_some_iff.mp hout
  have hr := ok_of_toOption hr
  exact ⟨s, r, hrun, hr, acknowledged_recorded plainLib oneAccepted_ok hrun hr⟩

/-- A capture of a provider order that no payment has. -/
def strayCapture : Fin 1 → WebhookRequest
  | 0 => ⟨some "s", some "e1", "s", some (.obj [("event", .str "payment.captured"),
      ("payload", .obj [("payment", .obj [("entity", .obj [("id", .str "pay1"),
        ("order_id", .str "po9"), ("status", .str "captured")])])])])⟩

theorem stray_capture_dropped : ¬∀ (lib : Lib) (reqs : Fin 1 → WebhookRequest)
    (w : World shop shopHost), w.Ok → (∀ i, ∃ sig, Signed lib (reqs i) sig) →
      ∀ s, Sys.Reach (deliveries lib reqs w) s → ∀ i r, s.outcome i = some (.ok r) →
        RecordedFor s.world.db (reqs i) := by
  intro h
  have hsigned : ∀ i, ∃ sig, Signed plainLib (strayCapture i) sig := fun 0 =>
    ⟨"s", rfl, by decide, by decide, rfl⟩
  have hexec : (((deliveries plainLib strayCapture oneAccepted).exec (fun _ _ _ _ _ => True)
      (.replicate 3 (.proc 0 .go))).map fun s => (((s.outcome 0).bind Except.toOption).isSome,
        decide (EventRecorded s.world.db "e1"))) = some (true, false) := by
    decide +kernel
  obtain ⟨s, hs, hout⟩ := Option.map_eq_some_iff.mp hexec
  obtain ⟨⟨⟩, hrun⟩ := Sys.run_of_exec History.none () hs
  obtain ⟨hsome, hnone⟩ := Prod.mk.inj hout
  obtain ⟨r, hr⟩ := Option.isSome_iff_exists.mp hsome
  exact of_decide_eq_false hnone (h plainLib strayCapture oneAccepted oneAccepted_ok hsigned s hrun
    0 r (ok_of_toOption hr))

end Phyllonix
