import Phyllonix.OutboxTasks
import Phyllonix.WebhookRuns
import Phyllonix.WebhookRedelivery
import Phyllonix.CommitIntentStock

/-!
# Which outbox events reach their handler

The webhook publishes the event of a failed payment under a topic that has no subscriber, the
event of a captured payment under one whose handler marks the event DONE.
-/

namespace Phyllonix
open Relational
variable {n : ℕ}

/-! ## What messages say of the store -/

/-- What a later version of an outbox event keeps. -/
structure OutboxKept (e e' : OutboxEvent) : Prop where
  topic : e'.topic = e.topic
  done : e.status = OutboxEventStatus.done.value → e'.status = OutboxEventStatus.done.value

/-- Outbox events keep their topic, and stay DONE. -/
def outboxOrder : RowOrder shop where
  rel
    | .outboxEvent, r, r' => ∀ e, r = some e → ∃ e', r' = some e' ∧ OutboxKept e e'
    | _, _, _ => True
  refl t r := by
    cases t with
    | outboxEvent => exact fun e he => ⟨e, he, rfl, id⟩
    | _ => trivial
  trans := by
    intro t r r' r'' h h'
    cases t with
    | outboxEvent =>
      intro e he
      obtain ⟨e', he', hkept⟩ := h e he
      obtain ⟨e'', he'', hkept'⟩ := h' e' he'
      exact ⟨e'', he'', hkept'.topic.trans hkept.topic, fun hd => hkept'.done (hkept.done hd)⟩
    | _ => trivial

def messages : Gauge shopHost where
  Val := List Message
  read := HostState.published
  env _ _ := rfl

/-- A topic under which the webhook publishes. -/
def Emitted (topic : String) : Prop := topic = "order.paid" ∨ topic = "order.pending_payment"

def EventStored (d : Db) (k : ℕ) (topic : String) : Prop :=
  ∃ e, d.get .outboxEvent k = some e ∧ OutboxEvent.topic e = topic

/-- The outbox event of a message is in the store. -/
def Message.Stored (d : Db) : Message → Prop
  | .outbox topic k _ => Emitted topic ∧ EventStored d k topic
  | .commitIntent _ _ => True

abbrev AllStored (ms : List Message) (d : Db) : Prop := ∀ m ∈ ms, m.Stored d

abbrev outboxProtocol (n : ℕ) : Protocol shop shopHost n := heralding messages outboxOrder AllStored

section Evolution
variable {d d' : Db} {k : ℕ}

theorem EventStored.evolves {topic : String} (h : EventStored d k topic) (he : Evolves outboxOrder d d') :
    EventStored d' k topic := by
  obtain ⟨e, hk, htopic⟩ := h
  obtain ⟨e', hk', hkept⟩ := he .outboxEvent k e hk
  exact ⟨e', hk', hkept.topic.trans htopic⟩

theorem OutboxDone.evolves (h : OutboxDone d k) (he : Evolves outboxOrder d d') : OutboxDone d' k := by
  obtain ⟨e, hk, hdone⟩ := h
  obtain ⟨e', hk', hkept⟩ := he .outboxEvent k e hk
  exact ⟨e', hk', hkept.done hdone⟩

theorem allStored_evolves {ms : List Message} (he : Evolves outboxOrder d d') (h : AllStored ms d) :
    AllStored ms d' := by
  intro m hm
  have hstored := h m hm
  cases m with
  | outbox topic k payload => exact ⟨hstored.1, hstored.2.evolves he⟩
  | commitIntent c o => trivial

end Evolution

/-! ## Actions that publish nothing -/

/-- Also commits are among them. -/
abbrev Unheard (a : ShopAction) : Prop := a.Keeps outboxOrder ∧ a.Mute messages

/-- The transaction stays open. -/
abbrev UnheardWithin (a : ShopAction) : Prop := a.Keeps outboxOrder ∧ a.Within ∧ a.Mute messages

section Unheard

theorem unheard_of_within {α : Type} {p : Py α} (h : p.Acts UnheardWithin) : p.Acts Unheard :=
  h.mono fun _ ha => ⟨ha.1, ha.2.2⟩

theorem select_unheard (t : Table) (p : t.Row → Bool) : (select t p).Acts UnheardWithin :=
  .call ⟨trivial, trivial, trivial⟩

theorem keeps_outbox_update {t : Table} (ht : t ≠ .outboxEvent) (p : t.Row → Bool) (f : t.Row → t.Row)
    (hf : ∀ r, rowId (f r) = rowId r) : (Action.update t p f hf : ShopAction).Keeps outboxOrder := by
  intro r
  cases t <;> first | exact absurd rfl ht | trivial

theorem update_unheard {t : Table} (ht : t ≠ .outboxEvent) (p : t.Row → Bool) (f : t.Row → t.Row)
    (hf : ∀ r, rowId (f r) = rowId r) : (update t p f hf).Acts UnheardWithin :=
  .call ⟨keeps_outbox_update ht p f hf, trivial, trivial⟩

theorem insert_unheard {t : Table} (mk : ℕ → t.Row) (hmk : ∀ m, rowId (mk m) = m) :
    (insertOnConflictDoNothing t mk hmk).Acts UnheardWithin := by
  refine .call ⟨fun m => ?_, trivial, trivial⟩
  cases t with
  | outboxEvent => exact fun e he => by cases he
  | _ => trivial

theorem host_mute {a : HostAct} (ha : ∀ m, a ≠ .publish m) : (Action.host a : ShopAction).Mute messages := by
  intro c s r s' hst
  cases a with
  | publish m => exact absurd rfl (ha m)
  | _ =>
    cases c <;> simp only [HostAct.step, Option.some.injEq, Prod.mk.injEq, reduceCtorEq] at hst <;>
      obtain ⟨-, rfl⟩ := hst <;> rfl

theorem now_unheard : now.Acts UnheardWithin := .call ⟨trivial, trivial, host_mute fun _ h => by cases h⟩

theorem createCommitIntent_unheard (orderId : ℕ) (reason ty : String) (payload : CommitPayload) :
    (createCommitIntent orderId reason ty payload).Acts UnheardWithin := by
  apply (insert_unheard _ _).bind
  intro ci
  cases ci with
  | some ci => trivial
  | none => exact (select_unheard _ _).bind fun rows => (oneOrNone_acts rows).bind fun _ => .pure _

theorem emitOutboxEvent_unheard (topic ty : String) (payload : OutboxPayload) (orderId : ℕ) :
    (emitOutboxEvent topic payload ty orderId).Acts UnheardWithin := by
  apply (insert_unheard _ _).bind
  intro ev
  cases ev with
  | some ev => trivial
  | none => exact (select_unheard _ _).bind fun rows => (oneOrNone_acts rows).bind fun _ => .pure _

theorem emitPaymentEvents_unheard (orderId : ℕ) (f : PaymentFields) (st : ℕ) :
    (emitPaymentEvents orderId f st).Acts UnheardWithin := by
  rw [emitPaymentEvents]
  split
  · apply ((select_unheard _ _).bind fun _ => .pure _).bind
    intro items
    apply (createCommitIntent_unheard _ _ _ _).bind
    exact fun _ => (emitOutboxEvent_unheard _ _ _ _).bind fun _ => .pure _
  · split
    · exact (emitOutboxEvent_unheard _ _ _ _).bind fun _ => .pure _
    · trivial

theorem updatePayCompletion_unheard (payId : ℕ) (ppid : Json) (st : ℕ) :
    (updatePayCompletionGetOrderid payId ppid st).Acts UnheardWithin := by
  apply (ofApp_acts _).bind
  intro ppid
  apply (update_unheard (by decide) _ _ _).bind
  exact fun rows => (oneOrNone_acts rows).bind fun _ => .pure _

theorem updateOrderStatus_unheard (orderId orderStatus : ℕ) :
    (updateOrderStatus orderId orderStatus).Acts UnheardWithin :=
  (update_unheard (by decide) _ _ _).bind fun rows => (oneOrNone_acts rows).bind fun _ => .pure _

theorem markWebhookProcessed_unheard (k : ℕ) (lastError : Option String) :
    (markWebhookProcessed k lastError).Acts UnheardWithin :=
  now_unheard.bind fun _ => (update_unheard (by decide) _ _ _).bind fun _ => .pure _

theorem markWebhookReceived_unheard (eventId : Option String) (provider : String) (payload : Option Json)
    (orderId : Option ℕ) (lastError : Option String) (status : Option ℕ) :
    (markWebhookReceived eventId provider payload orderId lastError status).Acts UnheardWithin :=
  (insert_unheard _ _).bind fun _ => .pure _

theorem getPayRecord_unheard (providerOrderId : Json) (provider : String) :
    (getPayRecordByProviderOrderid providerOrderId provider).Acts UnheardWithin :=
  (ofApp_acts _).bind fun _ => (select_unheard _ _).bind fun rows => (oneOrNone_acts rows).bind fun _ => .pure _

theorem criticalSection_unheard (payId : ℕ) (f : PaymentFields) (st : PayOrderStatus) (evId : ℕ) :
    (criticalSection payId f st evId).Acts Unheard := by
  apply (unheard_of_within (updatePayCompletion_unheard _ _ _)).bind
  intro o
  match o with
  | none => trivial
  | some 0 => trivial
  | some (o + 1) =>
    apply (unheard_of_within (updateOrderStatus_unheard _ _)).bind
    intro _
    apply (unheard_of_within (emitPaymentEvents_unheard _ _ _)).bind
    intro out
    apply (unheard_of_within (markWebhookProcessed_unheard _ _)).bind
    exact fun _ => (Prog.Acts.call ⟨trivial, trivial⟩).bind fun _ => .pure _

theorem recordWebhookError_unheard (evId : ℕ) (st : PayOrderStatus) :
    (recordWebhookError evId st).Acts Unheard := by
  apply (Prog.Acts.call ⟨trivial, trivial⟩).bind
  intro _
  apply Prog.Acts.bind
  · exact unheard_of_within ((update_unheard (by decide) _ _ _).bind fun _ => .pure _)
  · exact fun _ => .call ⟨trivial, trivial⟩

theorem orderConfirmCommitintentHandler_unheard (maxAttempts : ℕ) (ciId : Option ℕ) :
    (orderConfirmCommitintentHandler maxAttempts ciId).session.Acts Unheard := by
  apply Prog.Acts.session _ ⟨trivial, trivial⟩
  apply orderConfirmCommitintentHandler_acts
  exact {
    lockSkip := fun _ => ⟨trivial, trivial⟩
    lock := fun _ => ⟨trivial, trivial⟩
    read := fun _ => ⟨trivial, trivial⟩
    commit := ⟨trivial, trivial⟩
    rollback := ⟨trivial, trivial⟩
    now := ⟨trivial, host_mute fun _ h => by cases h⟩
    product := fun p f hf => ⟨keeps_outbox_update (by decide) p f hf, trivial⟩
    intent := fun k _ f hf =>
      ⟨keeps_outbox_update (by decide) (fun c : CommitIntent => c.id = k) f hf, trivial⟩ }

end Unheard

/-! ## Deliveries -/

section Deliveries
variable {G : Guard shop shopHost n} {i : Fin n} {sh : Shared shop shopHost} {x : Unit} {l : Txn shop}

/-- What the transaction has written may be committed. -/
def Committable (sh : Shared shop shopHost) (l : Txn shop) : Prop :=
  Evolves outboxOrder sh.db (l.view sh.db)

theorem committable_of_no_writes (hl : l.writes = []) : Committable sh l := by
  rw [Committable, Txn.view_of_no_writes hl]
  exact .refl _ _

theorem safe_unheard {α : Type} {p : Py α} (hp : p.Acts Unheard) (hview : Committable sh l) :
    Safe (outboxProtocol n) G i (fun _ sh' _ l' => Evolves outboxOrder sh.db sh'.db ∧ Committable sh' l')
      p sh x l :=
  Safe.of_mute (I := AllStored) allStored_evolves hp hview

theorem safe_commit_stored {Q : Post (outboxProtocol n) Unit} (hview : Committable sh l)
    (h : ∀ w y, Seen (outboxProtocol n) i l sh x w y → Q (.ok ()) ⟨l.view w.db, w.host⟩ y l.committed)
    (he : OnError Q i sh x l) : Safe (outboxProtocol n) G i Q commit sh x l :=
  Safe.commit_heralding (o := messages) (I := AllStored) allStored_evolves hview h he

/-- The outbox event that is to be published is seen. -/
def Committed.Stored (d : Db) (out : Committed) : Prop :=
  ∀ topic k, out.topic = some topic → out.outboxEventId = some k → Emitted topic ∧ EventStored d k topic

theorem Committed.Stored.evolves {d d' : Db} {out : Committed} (h : out.Stored d)
    (he : Evolves outboxOrder d d') : out.Stored d' :=
  fun topic k htopic hk => ⟨(h topic k htopic hk).1, (h topic k htopic hk).2.evolves he⟩

/-- Inserted now or found, the event has the topic. -/
theorem emitOutboxEvent_stored (topic ty : String) (payload : OutboxPayload) (orderId : ℕ) :
    Safe (outboxProtocol n) G i (.ofOk fun r sh' _ l' => ∀ k, r = some k → EventStored (l'.view sh'.db) k topic)
      (emitOutboxEvent topic payload ty orderId) sh x l := by
  apply Safe.bind
  apply Safe.insert
  · intro w y hs m _ _
    refine Safe.pure fun k hk => ?_
    cases hk
    exact ⟨_, Store.get_put_self (S := shop) (l.view w.db) .outboxEvent _, rfl⟩
  · intro _ w y hs m _
    apply Safe.bind
    refine Safe.read (fun w₁ y₁ hs₁ => ?_) fun _ _ _ _ _ _ _ => trivial
    apply Safe.bind
    refine safe_oneOrNone (fun _ => Safe.pure fun k hk => by cases hk) (fun e he => ?_) trivial
    refine Safe.pure fun k hk => ?_
    cases hk
    have hmem : e ∈ (l.view w₁.db .outboxEvent).filter fun e : OutboxEvent =>
        e.aggregateId = orderId && e.aggregateType = ty && e.topic = topic := by
      rw [he]
      exact List.mem_singleton_self e
    obtain ⟨hrow, hcond⟩ := List.mem_filter.1 hmem
    rw [Bool.and_eq_true] at hcond
    exact ⟨e, Store.get_of_mem hs₁.ok.wf.ids hrow, of_decide_eq_true hcond.2⟩
  · exact fun _ _ _ _ _ _ => trivial

theorem emitPaymentEvents_stored (orderId : ℕ) (f : PaymentFields) (st : ℕ) :
    Safe (outboxProtocol n) G i (.ofOk fun out sh' _ l' => out.Stored (l'.view sh'.db))
      (emitPaymentEvents orderId f st) sh x l := by
  have hemit : ∀ {sh : Shared shop shopHost} {x l} topic (f : Option ℕ → Committed), Emitted topic →
      (∀ k, (f k).topic = some topic ∧ (f k).outboxEventId = k) → ∀ payload,
      Safe (outboxProtocol n) G i (.ofOk fun out sh' _ l' => out.Stored (l'.view sh'.db))
        (do let k ← emitOutboxEvent topic payload "order" orderId; pure (f k)) sh x l := by
    intro sh x l topic f htopic hf payload
    apply Safe.bind
    refine (emitOutboxEvent_stored topic "order" payload orderId).mono fun r sh' x' l' hr => ?_
    cases r with
    | error e => trivial
    | ok r =>
      refine Safe.pure fun topic' k htopic' hk => ?_
      cases (hf r).1.symm.trans htopic'
      exact ⟨htopic, hr k ((hf r).2.symm.trans hk)⟩
  rw [emitPaymentEvents]
  split
  · apply Safe.bind
    refine (Safe.of_mute_within ((select_unheard _ _).bind fun _ => .pure _)).mono fun r sh' x' l' _ => ?_
    cases r with
    | error e => trivial
    | ok items =>
      apply Safe.bind
      refine (Safe.of_mute_within (createCommitIntent_unheard _ _ _ _)).mono fun r sh' x' l' _ => ?_
      cases r with
      | error e => trivial
      | ok ci => exact hemit "order.paid" _ (Or.inl rfl) (fun _ => ⟨rfl, rfl⟩) _
  · split
    · exact hemit "order.pending_payment" _ (Or.inr rfl) (fun _ => ⟨rfl, rfl⟩) _
    · exact Safe.pure fun topic k htopic _ => by cases htopic

/-- The commit makes the event visible before it is published. -/
theorem criticalSection_stored (payId : ℕ) (f : PaymentFields) (st : PayOrderStatus) (evId : ℕ)
    (hview : Committable sh l) :
    Safe (outboxProtocol n) G i (.ofOk fun out sh' _ _ => ∀ out', out = some out' → out'.Stored sh'.db)
      (criticalSection payId f st evId) sh x l := by
  apply Safe.bind
  refine (safe_unheard (unheard_of_within (updatePayCompletion_unheard _ _ _)) hview).mono
    fun r sh x l hstep => ?_
  match r with
  | .error e => trivial
  | .ok none => exact Safe.pure fun _ h => by cases h
  | .ok (some 0) => exact Safe.pure fun _ h => by cases h
  | .ok (some (o + 1)) =>
    apply Safe.bind
    refine (safe_unheard (unheard_of_within (updateOrderStatus_unheard _ _)) hstep.2).mono
      fun r sh x l hstep => ?_
    cases r with
    | error e => trivial
    | ok _ =>
      apply Safe.bind
      refine ((safe_unheard (unheard_of_within (emitPaymentEvents_unheard _ _ _)) hstep.2).and
        (emitPaymentEvents_stored _ _ _)).mono fun r sh x l hstep => ?_
      cases r with
      | error e => trivial
      | ok out =>
        obtain ⟨⟨-, hview⟩, hstored⟩ := hstep
        apply Safe.bind
        refine ((safe_unheard (unheard_of_within (markWebhookProcessed_unheard _ _)) hview).and
          (Safe.of_mute_within (markWebhookProcessed_unheard _ _))).mono fun r sh' x' l' hstep => ?_
        cases r with
        | error e => trivial
        | ok _ =>
          have hstored' : out.Stored (l'.view sh'.db) := Committed.Stored.evolves hstored hstep.2.2
          apply Safe.bind
          apply safe_commit_stored hstep.1.2
          · intro w y hs
            refine Safe.pure fun out' hout => ?_
            cases hout
            have hrely : Evolves outboxOrder sh'.db w.db := hs.rely
            exact hstored'.evolves (hrely.view hs.ok hs.still)
          · exact fun _ _ _ _ _ _ => trivial

/-- Only messages about stored events are published. -/
theorem publish_stored {m : Message} (hm : m.Stored sh.db) :
    Safe (outboxProtocol n) G i (fun _ sh' _ _ => Evolves outboxOrder sh.db sh'.db) (publish m) sh x l := by
  apply Safe.host
  intro w y hs c r s hstep
  have hinv : AllStored w.host.published w.db := hs.inv
  have hm' : AllStored [m] w.db := allStored_evolves hs.rely fun m' hm' => List.mem_singleton.1 hm' ▸ hm
  refine ⟨?_, .refl _ _, hs.rely⟩
  cases c <;> simp only [HostAct.step, Option.some.injEq, Prod.mk.injEq, reduceCtorEq] at hstep <;>
    obtain ⟨-, rfl⟩ := hstep
  · exact List.forall_mem_append.2 ⟨hinv, hm'⟩
  · exact hinv

theorem publishCommitted_stored {out : Committed} (hout : out.Stored sh.db) :
    Safe (outboxProtocol n) G i (fun _ _ _ _ => True) (publishCommitted out) sh x l := by
  rw [publishCommitted]
  split
  · rename_i topic k htopic hk
    apply Safe.bind
    refine (publish_stored (m := .outbox topic (k + 1) out.payload) (hout topic (k + 1) htopic hk)).mono
      fun r sh' x' l' _ => ?_
    cases r with
    | error e => trivial
    | ok _ =>
      dsimp only
      split
      · exact (publish_stored (m := .commitIntent _ _) trivial).mono fun _ _ _ _ _ => trivial
      · exact Safe.pure trivial
  · exact Safe.pure trivial

theorem processEvent_stored (pay : PayRecord) (f : PaymentFields) (st : PayOrderStatus) (evId : ℕ)
    (hview : Committable sh l) :
    Safe (outboxProtocol n) G i (fun _ _ _ _ => True) (processEvent pay f st evId) sh x l := by
  apply Safe.bind
  apply Safe.attempt
  refine ((safe_unheard (criticalSection_unheard _ _ _ _) hview).and
    (criticalSection_stored pay.id f st evId hview)).mono fun r sh' x' l' hr => ?_
  match r with
  | .error e =>
    apply Safe.bind
    apply Safe.attempt
    exact (safe_unheard (recordWebhookError_unheard evId st) hr.1.2).mono fun _ _ _ _ _ => Safe.raise trivial
  | .ok none => exact Safe.pure trivial
  | .ok (some out) =>
    apply Safe.bind
    refine (publishCommitted_stored (hr.2 out rfl)).mono fun r _ _ _ _ => ?_
    cases r with
    | error e => trivial
    | ok _ => exact Safe.pure trivial

theorem receiveEvent_stored (eventId : String) (payload event : Json) (pay : PayRecord) (f : PaymentFields)
    (hview : Committable sh l) :
    Safe (outboxProtocol n) G i (fun _ _ _ _ => True) (receiveEvent eventId payload event pay f) sh x l := by
  apply Safe.bind
  refine safe_ofApp (fun st _ => ?_) fun _ => trivial
  apply Safe.bind
  refine (safe_unheard (unheard_of_within (markWebhookReceived_unheard _ _ _ _ _ _)) hview).mono
    fun ev sh x l hev => ?_
  match ev with
  | .error e => trivial
  | .ok ev =>
    dsimp only
    split
    · exact Safe.pure trivial
    · match ev with
      | none => exact Safe.raise trivial
      | some ev =>
        dsimp only
        split
        · exact Safe.pure trivial
        · exact processEvent_stored _ _ _ _ hev.2

theorem razorpayWebhook_stored (lib : Lib) (req : WebhookRequest) (hview : Committable sh l) :
    Safe (outboxProtocol n) G i (fun _ _ _ _ => True) (razorpayWebhook lib req) sh x l := by
  have hignored : ∀ (eventId : String) (payload : Json) (err : String) (st : ℕ) {sh x l}, Committable sh l →
      Safe (outboxProtocol n) G i (fun _ _ _ _ => True) (do
        let _ ← markWebhookReceived (some eventId) "razorpay" (some payload) none (some err) (some st)
        pure (okNote "ignored: payment not found")) sh x l := by
    intro eventId payload err st sh x l hview
    apply Safe.bind
    refine (safe_unheard (unheard_of_within (markWebhookReceived_unheard _ _ _ _ _ _)) hview).mono
      fun r _ _ _ _ => ?_
    cases r with
    | error e => trivial
    | ok _ => exact Safe.pure trivial
  apply Safe.bind
  refine (verifyRazorpaySignature_safe lib req).mono fun r sh' x' l' hl => ?_
  match r with
  | .error e => trivial
  | .ok _ =>
    obtain ⟨rfl, rfl, rfl⟩ := hl
    match req.json with
    | none => exact Safe.raise trivial
    | some payload =>
      apply Safe.bind
      refine safe_ofApp (fun event _ => ?_) fun _ => trivial
      dsimp only
      split
      · exact Safe.raise trivial
      · exact Safe.raise trivial
      rename_i eventId _ _
      apply Safe.bind
      refine safe_ofApp (fun f _ => ?_) fun _ => trivial
      apply Safe.bind
      refine (safe_unheard (unheard_of_within (getPayRecord_unheard f.providerOrderId "razorpay")) hview).mono
        fun r sh x l hpay => ?_
      cases r with
      | error e => trivial
      | ok pay =>
        dsimp only
        split
        · exact hignored _ _ _ _ hpay.2
        · exact hignored _ _ _ _ hpay.2
        · split
          · exact Safe.raise trivial
          · exact receiveEvent_stored _ _ _ _ _ hpay.2

end Deliveries

/-! ## Tasks -/

section Tasks
variable {G : Guard shop shopHost n} {i : Fin n} {sh : Shared shop shopHost} {x : Unit} {l : Txn shop}

/-- The event is DONE, or a statement has failed. -/
def Handled (k : ℕ) (r : Except (Exn AppErr) Unit) (d : Db) : Prop :=
  match r with
  | .ok _ => OutboxDone d k
  | .error e => ∀ a, e ≠ .app a

theorem Handled.evolves {k : ℕ} {r : Except (Exn AppErr) Unit} {d d' : Db} (h : Handled k r d)
    (he : Evolves outboxOrder d d') : Handled k r d' := by
  cases r with
  | ok _ => exact OutboxDone.evolves h he
  | error e => exact h

theorem markOutboxDone_handled {topic : String} {k : ℕ} (hk : EventStored sh.db k topic) (hl : l.writes = []) :
    Safe (outboxProtocol n) G i (fun r sh' _ _ => Handled k r sh'.db) (markOutboxDone k) sh x l := by
  apply Safe.bind
  apply safe_updateOne (t := .outboxEvent)
  · intro w y hs l' hu
    obtain ⟨e, he, -⟩ := hk.evolves (hs.rely : Evolves outboxOrder sh.db w.db)
    have hrow : (l.view w.db).get .outboxEvent k = some e := by
      rw [Txn.view_of_no_writes hl]
      exact he
    obtain ⟨hw, -⟩ := updated_one (r := e) hu hrow
    have hid : e.id = k := Store.id_of_get he
    have hview : l'.view w.db = w.db.put .outboxEvent { e with status := OutboxEventStatus.done.value } := by
      rw [Txn.view, hw, hl]
      rfl
    apply safe_commit_stored
    · rw [Committable, hview]
      apply Evolves.put
      intro e₁ he₁
      change w.db.get .outboxEvent e.id = some e₁ at he₁
      rw [hid, he] at he₁
      cases he₁
      exact ⟨_, rfl, rfl, fun _ => rfl⟩
    · intro w' y' hs'
      have hget := Txn.get_view_cons hw w'.db
      change (l'.view w'.db).get .outboxEvent e.id = _ at hget
      rw [hid] at hget
      exact ⟨_, hget, rfl⟩
    · exact fun _ _ _ e _ _ => e.2
  · exact fun _ _ _ _ e _ _ => e.2

/-- The handler has a branch for the topic of a captured payment, and calls the helper as it is declared. -/
theorem outboxHandler_handled {k : ℕ} (hk : EventStored sh.db k "order.paid") (hl : l.writes = []) :
    Safe (outboxProtocol n) G i (fun r sh' _ _ => Handled k r sh'.db) (outboxHandler "order.paid" k) sh x l :=
  markOutboxDone_handled hk hl

/-- What the end of the task of a message says. -/
def taskPost : Option Message → Post (outboxProtocol n) TaskEnd
  | some (.outbox topic k _), r, sh, _, _ =>
    topic = "order.paid" → ∀ r', r = .ok (.handled r') → Handled k r' sh.db
  | _, _, _, _, _ => True

theorem workerTask_safe {m : Message} (hm : m.Stored sh.db) :
    Safe (outboxProtocol n) G i (taskPost (some m)) (workerTask m) sh x {} := by
  cases m with
  | outbox topic k payload =>
    obtain ⟨rfl | rfl, hk⟩ := hm
    · apply Safe.bind
      apply Safe.attempt
      apply Safe.bind
      apply Safe.session
      refine (outboxHandler_handled hk rfl).mono fun r sh' x' l' hr w y hs => ?_
      have hr' : Handled k r w.db := hr.evolves hs.rely
      cases r with
      | ok _ => exact fun _ r' h => by cases h; exact hr'
      | error e => exact fun _ r' h => by cases h; exact hr'
    · exact fun h => absurd h (by decide)
  | commitIntent ci o =>
    apply Safe.bind
    apply Safe.attempt
    apply Safe.bind
    refine (safe_unheard (orderConfirmCommitintentHandler_unheard _ _) (committable_of_no_writes rfl)).mono
      fun r sh' x' l' _ => ?_
    match r with
    | .error e => exact trivial
    | .ok (.ok _) => exact trivial
    | .ok (.error e) => exact trivial

theorem process_safe (lib : Lib) (job : Option WebhookRequest) :
    Safe (outboxProtocol n) G i (taskPost none) (process lib job) sh x {} := by
  cases job with
  | none => trivial
  | some req =>
    apply Safe.bind
    apply Safe.session
    refine (razorpayWebhook_stored lib req (committable_of_no_writes rfl)).mono fun _ _ _ _ _ _ _ _ => ?_
    trivial

end Tasks

/-! ## Runs -/

section Runs
variable {lib : Lib} {jobs : Fin n → Option WebhookRequest} {w : World shop shopHost} {s : Application n}
variable {G : Guard shop shopHost n} {x : Unit}

/-- The events that workers have taken are stored, and the tasks of paid orders end as they should. -/
theorem outbox_tasks (hw : w.Ok) (hstored : AllStored w.host.published w.db)
    (hrun : Pool.Run (basePubSubWorker jobs) G History.none (application lib jobs w) () s x) :
    (∀ i topic k payload, s.task i = some (.outbox topic k payload) → Emitted topic) ∧
      ∀ i k payload, s.task i = some (.outbox "order.paid" k payload) →
        ∀ r, s.sys.outcome i = some (.handled r) → Handled k r s.sys.world.db := by
  have hjobs : ∀ i, Safe (outboxProtocol n) G i (taskPost none) (process lib (jobs i)) w.toShared () {} :=
    fun i => process_safe lib (jobs i)
  have hstart : (application lib jobs w).sys.Inv (outboxProtocol n) G (fun _ => taskPost none) () :=
    Sys.inv_start hw hstored hjobs
  obtain ⟨hinv, htopic⟩ := Pool.Run.inv (P := outboxProtocol n) (W := basePubSubWorker jobs)
    (fun _ => taskPost) (fun m => ∃ d, Message.Stored d m) hrun hstart (fun _ _ hm => by cases hm)
    (fun sh _ h m hm => ⟨sh.db, h m hm⟩) fun _ m _ _ h hm => workerTask_safe (h m hm)
  refine ⟨fun i topic k payload hi => ?_, fun i k payload hi r hr => ?_⟩
  · obtain ⟨d, hm⟩ := htopic i _ hi
    exact hm.1
  · obtain ⟨sh, y, hsafe, hs⟩ := hinv.seen i
    rw [Sys.prog_of_outcome hr, hi] at hsafe
    exact Handled.evolves (hsafe rfl r rfl) hs.rely

/-- An event reaches a handler that marks it DONE exactly when it is the event of a captured payment. -/
theorem outbox_law_iff (hw : w.Ok) (hempty : w.host.published = [])
    (hrun : Pool.Run (basePubSubWorker jobs) G History.none (application lib jobs w) () s x) :
    OutboxLaw s ↔ ∀ i topic k payload, s.task i = some (.outbox topic k payload) → topic = "order.paid" := by
  have hstored : AllStored w.host.published w.db := by
    rw [hempty]
    exact fun _ hm => by cases hm
  obtain ⟨htopics, hhandled⟩ := outbox_tasks hw hstored hrun
  constructor
  · intro hlaw i topic k payload hi
    rcases htopics i topic k payload hi with hpaid | hpending
    · exact hpaid
    · subst hpending
      exact absurd (by decide) (hlaw.dispatched i _ k payload hi)
  · intro hpaid
    refine ⟨fun i topic k payload hi => ?_, fun i topic k payload hi hr => ?_,
      fun i topic k payload hi e hr => ?_⟩ <;> obtain rfl := hpaid i topic k payload hi
    · decide
    · exact hhandled i k payload hi _ hr
    · exact hhandled i k payload hi _ hr e rfl

end Runs

/-- One process delivers an event, the other is a worker. -/
def deliverTo (req : WebhookRequest) : Fin 2 → Option WebhookRequest
  | 0 => some req
  | 1 => none

/-- From `oneAccepted`, the states of the runs in which the event is delivered. -/
def OneDelivery (req : WebhookRequest) (s : Application 2) : Prop :=
  Pool.Run (basePubSubWorker (deliverTo req)) (fun _ _ _ _ _ => True) History.none
    (application plainLib (deliverTo req) oneAccepted) () s ()

theorem oneDelivery_of_exec {req : WebhookRequest} {xs : List (PoolLabel shopHost 2)} {s : Application 2}
    (h : (application plainLib (deliverTo req) oneAccepted).exec (basePubSubWorker (deliverTo req))
      (fun _ _ _ _ _ => True) xs = some s) : OneDelivery req s := by
  obtain ⟨⟨⟩, hrun⟩ := Pool.Run.exec (K := History.none) .start h
  exact hrun

def TaskEnd.normal : TaskEnd → Bool
  | .handled (.ok _) => true
  | _ => false

/-- The status of event `k`, the events of the messages that were taken, and whether the worker's task
has ended normally. -/
def outboxReport (k : ℕ) (s : Application 2) : Option ℕ × Option String × Option String × Option Bool :=
  ((s.sys.world.db.get .outboxEvent k).map OutboxEvent.status, (s.task 0).map Message.event,
    (s.task 1).map Message.event, (s.sys.outcome 1).map TaskEnd.normal)

def captureHandled : List (PoolLabel shopHost 2) :=
  firstDelivery.map .sys ++ [.take 1] ++ .replicate 3 (.sys (.proc 1 .go))

theorem outbox_law_iff_capture : ∃ s, OneDelivery (captureAndFailure 0) s ∧
    outboxReport 2 s = (some OutboxEventStatus.done.value, none, some "order.paid", some true) ∧ OutboxLaw s := by
  have hexec : ((application plainLib (deliverTo (captureAndFailure 0)) oneAccepted).exec
      (basePubSubWorker (deliverTo (captureAndFailure 0))) (fun _ _ _ _ _ => True) captureHandled).map
        (outboxReport 2) = some (some OutboxEventStatus.done.value, none, some "order.paid", some true) := by
    decide +kernel
  obtain ⟨s, hs, hreport⟩ := Option.map_eq_some_iff.mp hexec
  have hrun : OneDelivery (captureAndFailure 0) s := oneDelivery_of_exec hs
  refine ⟨s, hrun, hreport, (outbox_law_iff oneAccepted_ok rfl hrun).mpr fun i topic k payload hi => ?_⟩
  simp only [outboxReport, Prod.mk.injEq] at hreport
  obtain ⟨-, h0, h1, -⟩ := hreport
  match i with
  | 0 =>
    rw [hi] at h0
    cases h0
  | 1 =>
    rw [hi] at h1
    exact Option.some.inj h1

def failureTaken : List (PoolLabel shopHost 2) :=
  (.replicate 5 (.proc 0 .go) ++ [.proc 0 (.host .proceed)] ++ .replicate 2 (.proc 0 .go) ++
    [.proc 0 (.host .proceed), .proc 0 .go] : List (Label shopHost 2)).map .sys ++ [.take 1]

/-- The task of a failed payment's event ends without an error, and the event stays PENDING. -/
theorem failure_unhandled : ∃ s, OneDelivery (captureAndFailure 1) s ∧
    outboxReport 2 s = (some OutboxEventStatus.pending.value, none, some "order.pending_payment", some true) ∧
    ¬OutboxLaw s := by
  have hexec : ((application plainLib (deliverTo (captureAndFailure 1)) oneAccepted).exec
      (basePubSubWorker (deliverTo (captureAndFailure 1))) (fun _ _ _ _ _ => True) failureTaken).map
        (outboxReport 2) =
      some (some OutboxEventStatus.pending.value, none, some "order.pending_payment", some true) := by
    decide +kernel
  obtain ⟨s, hs, hreport⟩ := Option.map_eq_some_iff.mp hexec
  refine ⟨s, oneDelivery_of_exec hs, hreport, fun hlaw => ?_⟩
  simp only [outboxReport, Prod.mk.injEq] at hreport
  obtain ⟨m, hm, hevent⟩ := Option.map_eq_some_iff.mp hreport.2.2.1
  cases m with
  | outbox topic k payload =>
    have htopic : topic = "order.pending_payment" := hevent
    subst htopic
    exact hlaw.dispatched 1 _ k payload hm (by decide)
  | commitIntent ci o =>
    have hintent : "order_confirm_intent.created" = "order.pending_payment" := hevent
    exact absurd hintent (by decide)

end Phyllonix
