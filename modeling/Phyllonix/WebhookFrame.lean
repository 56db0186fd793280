import Phyllonix.WebhookRuns
import Phyllonix.ConfirmRuns
import Phyllonix.ShopPlays

/-!
# What one delivery changes

A delivery finds its payment through the provider order id of the payload. A
payload without one compiles to `IS NULL`, and this finds the payment that has no
provider order yet. Apart from that case a delivery changes the payment with the
provider order id of the payload and the order of that payment.
-/

namespace Phyllonix
open Relational

structure Signed (lib : Lib) (req : WebhookRequest) (sig : String) : Prop where
  signature : req.signature = some sig
  nonempty : sig ≠ ""
  ascii : (sig.toList.any fun c => 127 < c.toNat) = false
  hmac : lib.hmacHex req.body = sig

/-- The payment with the provider order id that the payload carries. -/
def NamedBy (req : WebhookRequest) (p : Payment) : Prop :=
  p.provider = some "razorpay" ∧ ∃ payload f o, req.json = some payload ∧
    paymentFields payload = .ok f ∧ f.providerOrderId = .str o ∧ p.providerOrderId = some o

structure Framed (req : WebhookRequest) (d d' : Db) : Prop where
  payments : ∀ k, d'.get .payment k ≠ d.get .payment k → ∃ p, d.get .payment k = some p ∧ NamedBy req p
  orders : ∀ k, d'.get .orders k ≠ d.get .orders k → ∃ p, p ∈ d .payment ∧ NamedBy req p ∧ p.orderId = k

def awaitsProvider (p : Payment) : Bool := p.provider = some "razorpay" && p.providerOrderId = none

/-- The payload names no provider order, the only payment without one stands below the
status of the event, and nothing stops the event. -/
structure TakesPending (req : WebhookRequest) (d : Db) (payload event : Json)
    (eventId ppid : String) (f : PaymentFields) (st : PayOrderStatus) (p : Payment) : Prop where
  document : req.json = some payload
  named : payload.get "event" .null = .ok event
  identified : req.providerEventId = some eventId
  nonempty : eventId ≠ ""
  fields : paymentFields payload = .ok f
  noOrder : f.providerOrderId = .null
  only : (d .payment).filter awaitsProvider = [p]
  ordered : p.orderId ≠ 0
  paymentId : f.providerPaymentId = .str ppid
  truthy : ppid ≠ ""
  status : payOrderStatusUtil f.pspPayStatus event = .ok st
  valid : st.isValidEvent = true
  fresh : ∀ e : PaymentWebhookEvent, e ∈ d .paymentWebhookEvent → e.provider = "razorpay" →
    e.providerEventId ≠ some eventId
  below : p.status < st.paymentStatus
  free : ∀ q : Payment, q ∈ d .payment → q.provider = some "razorpay" →
    q.providerPaymentId = some ppid → q = p

def PendingTaken (req : WebhookRequest) (d : Db) : Prop :=
  ∃ payload event eventId ppid f st p, TakesPending req d payload event eventId ppid f st p

/-! ## Statements that leave payments and orders alone -/

def Extends (T : Table → Prop) (l l' : Txn shop) : Prop :=
  ∃ ws, l'.writes = ws ++ l.writes ∧ ∀ w ∈ ws, T w.tbl

section Extends
variable {n : ℕ} {P : Protocol shop shopHost n} {G : Guard shop shopHost n} {i : Fin n}
variable {sh : Shared shop shopHost} {x : P.Val} {l l' l'' : Txn shop} {T : Table → Prop}

theorem Extends.refl (T : Table → Prop) (l : Txn shop) : Extends T l l := ⟨[], rfl, by simp⟩

theorem Extends.trans (h : Extends T l l') (h' : Extends T l' l'') : Extends T l l'' := by
  obtain ⟨ws, hw, hT⟩ := h
  obtain ⟨ws', hw', hT'⟩ := h'
  refine ⟨ws' ++ ws, by rw [hw', hw, List.append_assoc], fun w hmem => ?_⟩
  rcases List.mem_append.mp hmem with hmem | hmem
  · exact hT' w hmem
  · exact hT w hmem

theorem Extends.write {t : Table} (ht : T t) (ks : List IndexKey) (r : t.Row) :
    Extends T l (l.write t ks r) := by
  refine ⟨[⟨t, r⟩], rfl, fun w hw => ?_⟩
  obtain rfl := List.mem_singleton.mp hw
  exact ht

theorem Extends.view (h : Extends T l l') {t : Table} (ht : ¬T t) (d : Db) : l'.view d t = l.view d t := by
  obtain ⟨ws, hw, hT⟩ := h
  rw [Txn.view, Txn.view, hw]
  clear hw
  induction ws with
  | nil => rfl
  | cons v ws ih =>
    have hv : t ≠ v.tbl := fun he => ht (he ▸ hT v List.mem_cons_self)
    rw [List.cons_append, applyWrites, Store.put_of_ne _ _ hv]
    exact ih fun u hu => hT u (List.mem_cons_of_mem _ hu)

def Aside (t : Table) : Prop := t ≠ .payment ∧ t ≠ .orders

instance (t : Table) : Decidable (Aside t) := inferInstanceAs (Decidable (_ ∧ _))

theorem createCommitIntent_extends (o : ℕ) (reason ty : String) (payload : CommitPayload) :
    Safe P G i (.ofOk fun _ _ _ l' => Extends Aside l l') (createCommitIntent o reason ty payload)
      sh x l := by
  refine Safe.bind (Safe.insert (fun w y hs m _ _ => ?_) (fun _ w y hs m _ => ?_)
    fun _ _ _ _ _ _ => trivial)
  · exact Safe.pure (Extends.write (by decide) _ _)
  · refine Safe.bind (Safe.read (fun w₁ y₁ hs₁ => ?_) fun _ _ _ _ _ _ _ => trivial)
    exact Safe.bind (safe_oneOrNone (fun _ => Safe.pure (.refl _ _))
      (fun _ _ => Safe.pure (.refl _ _)) trivial)

theorem emitOutboxEvent_extends (topic ty : String) (payload : OutboxPayload) (o : ℕ) :
    Safe P G i (.ofOk fun _ _ _ l' => Extends Aside l l') (emitOutboxEvent topic payload ty o)
      sh x l := by
  refine Safe.bind (Safe.insert (fun w y hs m _ _ => ?_) (fun _ w y hs m _ => ?_)
    fun _ _ _ _ _ _ => trivial)
  · exact Safe.pure (Extends.write (by decide) _ _)
  · refine Safe.bind (Safe.read (fun w₁ y₁ hs₁ => ?_) fun _ _ _ _ _ _ _ => trivial)
    exact Safe.bind (safe_oneOrNone (fun _ => Safe.pure (.refl _ _))
      (fun _ _ => Safe.pure (.refl _ _)) trivial)

theorem markWebhookProcessed_extends (hP : Quiet P) (evId : ℕ) (lastError : Option String) :
    Safe P G i (.ofOk fun _ _ _ l' => Extends Aside l l') (markWebhookProcessed evId lastError)
      sh x l := by
  refine Safe.bind (safe_now hP fun w y hs => ?_)
  refine Safe.bind (Safe.update (fun w₁ y₁ hs₁ l' hu => ?_) fun _ _ _ _ _ _ _ => trivial)
  refine Safe.pure ⟨_, hu.writes, fun v hv => ?_⟩
  simp only [updateWrites, List.mem_reverse, List.mem_map] at hv
  obtain ⟨r, -, rfl⟩ := hv
  exact ⟨by simp, by simp⟩

theorem emitPaymentEvents_extends (o : ℕ) (f : PaymentFields) (st : ℕ) :
    Safe P G i (.ofOk fun _ _ _ l' => Extends Aside l l') (emitPaymentEvents o f st) sh x l := by
  rw [emitPaymentEvents]
  split
  · refine Safe.bind (Safe.bind (Safe.read (fun w y hs => ?_) fun _ _ _ _ _ _ _ => trivial))
    refine Safe.pure (Safe.bind ((createCommitIntent_extends _ _ _ _).mono fun r sh x l₁ h₁ => ?_))
    cases r with
    | error e => trivial
    | ok _ =>
      refine Safe.bind ((emitOutboxEvent_extends _ _ _ _).mono fun r sh x l₂ h₂ => ?_)
      cases r with
      | error e => trivial
      | ok _ => exact Safe.pure (Extends.trans h₁ h₂)
  · split
    · refine Safe.bind ((emitOutboxEvent_extends _ _ _ _).mono fun r sh x l₁ h₁ => ?_)
      cases r with
      | error e => trivial
      | ok _ => exact Safe.pure h₁
    · exact Safe.pure (.refl _ _)

end Extends

/-! ## The delivery keeps the frame -/

def frameProtocol (req : WebhookRequest) (d₀ : Db) : Protocol shop shopHost 1 where
  toHistory := History.none
  inv sh _ := Framed req d₀ sh.db
  rely _ _ sh _ sh' _ := sh'.db = sh.db
  guar _ _ _ _ _ := True
  next_same _ _ _ := rfl
  rely_refl _ _ _ _ := rfl
  rely_trans h h' := h'.trans h
  guar_same _ _ _ _ := trivial
  compat hij _ _ _ _ _ := absurd (Subsingleton.elim _ _) hij
  env_inv _ _ _ h := h
  env_rely _ _ _ _ _ _ := rfl

theorem frame_quiet (req : WebhookRequest) (d₀ : Db) : Quiet (frameProtocol req d₀) where
  inv _ h := h
  next _ _ _ _ := rfl
  guar _ _ _ _ _ _ := trivial

/-- Of payments and orders the transaction wrote only `p` and its order. -/
structure Touches (p : Payment) (ws : List (Write shop)) : Prop where
  payment : ∀ k, Written ws Table.payment k → k = p.id
  order : ∀ k, Written ws Table.orders k → k = p.orderId

theorem Touches.cons {p : Payment} {ws : List (Write shop)} (h : Touches p ws) {v : Write shop}
    (hpay : v.tbl = .payment → rowId v.row = p.id)
    (horder : v.tbl = .orders → rowId v.row = p.orderId) : Touches p (v :: ws) := by
  constructor
  · rintro k ⟨w, hw, ht, hid⟩
    rcases List.mem_cons.mp hw with rfl | hw
    · exact hid.symm.trans (hpay ht)
    · exact h.payment k ⟨w, hw, ht, hid⟩
  · rintro k ⟨w, hw, ht, hid⟩
    rcases List.mem_cons.mp hw with rfl | hw
    · exact hid.symm.trans (horder ht)
    · exact h.order k ⟨w, hw, ht, hid⟩

theorem Touches.of_events {p : Payment} {ws : List (Write shop)} (h : EventsOnly ws) : Touches p ws :=
  ⟨fun k hk => absurd hk (h.not_written (by decide) k),
    fun k hk => absurd hk (h.not_written (by decide) k)⟩

theorem Touches.extends {p : Payment} {l l' : Txn shop} (h : Touches p l.writes)
    (he : Extends Aside l l') : Touches p l'.writes := by
  obtain ⟨ws, hw, hT⟩ := he
  rw [hw]
  clear hw
  induction ws with
  | nil => exact h
  | cons v ws ih =>
    have hv := hT v List.mem_cons_self
    exact (ih fun u hu => hT u (List.mem_cons_of_mem _ hu)).cons (fun ht => absurd ht hv.1)
      fun ht => absurd ht hv.2

theorem Touches.framed {req : WebhookRequest} {p : Payment} {d₀ d : Db} {l : Txn shop}
    (h : Touches p l.writes) (hd : Framed req d₀ d) (hp : d₀.get .payment p.id = some p)
    (hnamed : NamedBy req p) : Framed req d₀ (l.view d) := by
  refine ⟨fun k hk => ?_, fun k hk => ?_⟩
  · by_cases hw : Written l.writes Table.payment k
    · rw [h.payment k hw]
      exact ⟨p, hp, hnamed⟩
    · exact hd.payments k fun he => hk ((get_applyWrites_of_not_written hw d).trans he)
  · by_cases hw : Written l.writes Table.orders k
    · exact ⟨p, Store.mem_of_get hp, hnamed, (h.order k hw).symm⟩
    · exact hd.orders k fun he => hk ((get_applyWrites_of_not_written hw d).trans he)

section Frame
variable {req : WebhookRequest} {d₀ : Db} {G : Guard shop shopHost 1} {i : Fin 1}
variable {sh : Shared shop shopHost} {x : Unit} {l : Txn shop} {p : Payment}

theorem truthy_bindText {j : Json} {o : Option String} (ht : j.truthy = true)
    (hb : bindText j = .ok o) : ∃ s, j = .str s ∧ s ≠ "" ∧ o = some s := by
  cases j with
  | str s =>
    simp only [bindText, Except.ok.injEq] at hb
    exact ⟨s, rfl, by simpa [Json.truthy] using ht, hb.symm⟩
  | null => simp [Json.truthy] at ht
  | bool _ | num _ | arr _ | obj _ => cases hb

/-- The updated payment, in a transaction that still reads the store of the start. -/
structure Completed (d₀ : Db) (p : Payment) (st : ℕ) (ppid : String) (l l' : Txn shop) : Prop where
  below : p.status < st
  writes : l'.writes =
    ⟨.payment, { p with status := st, providerPaymentId := some ppid }⟩ :: l.writes

theorem completePayment_safe {f : PaymentFields} {st : ℕ} (hdb : sh.db = d₀)
    (hp : d₀.get .payment p.id = some p) (hl : EventsOnly l.writes)
    (ht : f.providerPaymentId.truthy = true) :
    Safe (frameProtocol req d₀) G i (.ofOk fun r sh _ l' => sh.db = d₀ ∧ ∀ o, r = some o →
        o = p.orderId ∧ ∃ ppid, f.providerPaymentId = .str ppid ∧ ppid ≠ "" ∧
          Completed d₀ p st ppid l l')
      (updatePayCompletionGetOrderid p.id f.providerPaymentId st) sh x l := by
  refine Safe.bind (safe_ofApp (fun o ho => ?_) fun _ => trivial)
  obtain ⟨ppid, hppid, hne, rfl⟩ := truthy_bindText ht ho
  refine Safe.bind (Safe.update (fun w y hs l' hu => ?_) fun _ _ _ _ _ _ _ => trivial)
  have hw : w.db = d₀ := Eq.trans hs.rely hdb
  have hrows : (l.view w.db .payment).filter
      (fun q : Payment => decide (q.id = p.id) && decide (q.status < st)) =
        (((l.view w.db).get .payment p.id).filter fun q : Payment => decide (q.status < st)).toList :=
    Store.filter_id_and (S := shop) hs.ok.wf.ids .payment p.id fun q : Payment => decide (q.status < st)
  have hget : (l.view w.db).get .payment p.id = some p := by
    rw [hw]
    exact (get_applyWrites_of_not_written (hl.not_written (by decide) _) d₀).trans hp
  rw [hrows, hget] at hu ⊢
  by_cases hlt : p.status < st
  · simp only [Option.filter, hlt, decide_true, if_true, Option.toList] at hu ⊢
    refine Safe.pure ⟨hw, fun o ho => ?_⟩
    cases ho
    exact ⟨rfl, ppid, hppid, hne, hlt, hu.writes⟩
  · simp only [Option.filter, hlt, decide_false, Option.toList] at hu ⊢
    exact Safe.pure ⟨hw, fun o ho => by cases ho⟩

/-- The unique index on the provider's payment id, in the view after the update. -/
theorem Completed.free {st : ℕ} {ppid : String} {l' : Txn shop}
    (h : Completed d₀ p st ppid l l') (hl : EventsOnly l.writes) (hprov : p.provider = some "razorpay")
    (hp : d₀.get .payment p.id = some p) (hids : ∀ t, ((d₀ t).map rowId).Nodup)
    (hwf : (l'.view d₀).Wf) {q : Payment} (hq : q ∈ d₀ .payment) (hqp : q.provider = some "razorpay")
    (hqid : q.providerPaymentId = some ppid) : q = p := by
  let p' : Payment := { p with status := st, providerPaymentId := some ppid }
  have hview : l'.view d₀ = (l.view d₀).put .payment p' := by
    rw [Txn.view, h.writes]
    rfl
  have hgetq : d₀.get .payment q.id = some q := Store.get_of_mem hids hq
  have hkey : ∀ r : Payment, r.provider = some "razorpay" → r.providerPaymentId = some ppid →
      IndexKey.providerPayment "razorpay" ppid ∈ rowKeys (t := .payment) r := fun r hr hr' => by
    simp [rowKeys, providerKeys, hr, hr']
  have hp' : (l'.view d₀).get .payment p.id = some p' := by
    rw [hview]
    exact Store.get_put_self (l.view d₀) .payment p'
  by_contra hne
  have hid : q.id ≠ p.id := fun he => by
    rw [he, hp] at hgetq
    exact hne (Option.some.inj hgetq).symm
  have hq' : (l'.view d₀).get .payment q.id = some q := by
    rw [hview, Store.get_put_of_ne _ _ fun he => hid he.2]
    exact (get_applyWrites_of_not_written (hl.not_written (by decide) _) d₀).trans hgetq
  have hholds : ∀ {r : Payment} {k}, (l'.view d₀).get .payment k = some r →
      r.provider = some "razorpay" → r.providerPaymentId = some ppid →
      (l'.view d₀).Holds .payment (.providerPayment "razorpay" ppid) k := fun hr h1 h2 =>
    ⟨_, hr, hkey _ h1 h2⟩
  exact hid (hwf.unique (hholds hq' hqp hqid) (hholds hp' hprov rfl))

/-- What the delivery has to know of its payment to keep the frame. -/
def NamedOnceMoved (req : WebhookRequest) (d₀ : Db) (f : PaymentFields) (st : PayOrderStatus)
    (p : Payment) : Prop :=
  ∀ ppid, f.providerPaymentId = .str ppid → ppid ≠ "" → p.status < st.paymentStatus →
    (∀ q : Payment, q ∈ d₀ .payment → q.provider = some "razorpay" →
      q.providerPaymentId = some ppid → q = p) → NamedBy req p

theorem criticalSection_framed {f : PaymentFields} {st : PayOrderStatus} (evId : ℕ) (hdb : sh.db = d₀)
    (hp : d₀.get .payment p.id = some p) (hprov : p.provider = some "razorpay")
    (hl : EventsOnly l.writes) (ht : f.providerPaymentId.truthy = true)
    (hnamed : NamedOnceMoved req d₀ f st p) :
    Safe (frameProtocol req d₀) G i (.ofOk fun _ _ _ _ => True) (criticalSection p.id f st evId)
      sh x l := by
  refine Safe.bind ((completePayment_safe hdb hp hl ht).mono fun o sh x l' ho => ?_)
  cases o with
  | error e => trivial
  | ok o =>
    obtain ⟨hdb, ho⟩ := ho
    match o with
    | none => exact Safe.pure trivial
    | some 0 => exact Safe.pure trivial
    | some (o + 1) =>
      obtain ⟨hoid, ppid, hppid, hne, hdone⟩ := ho _ rfl
      refine Safe.bind (Safe.bind (safe_updateOne (fun w y hs l'' hu => ?_)
        fun _ _ _ _ _ _ _ => trivial))
      have hw : w.db = d₀ := Eq.trans hs.rely hdb
      have hnp : NamedBy req p := by
        have hids := hs.world.wf.ids
        have hwf := hs.ok.wf
        rw [hw] at hids hwf
        exact hnamed ppid hppid hne hdone.below fun q hq => hdone.free hl hprov hp hids hwf hq
      have htouch : Touches p l''.writes := by
        have hpaid : Touches p l'.writes := by
          rw [hdone.writes]
          exact (Touches.of_events hl).cons (fun _ => rfl) fun he => by cases he
        cases hord : (l'.view w.db).get .orders (o + 1) with
        | none =>
          rw [updated_none hu hord]
          exact hpaid
        | some r =>
          rw [(updated_one hu hord).1]
          exact hpaid.cons (fun he => by cases he) fun _ => (Store.id_of_get hord).trans hoid
      have hrest : Safe (frameProtocol req d₀) G i (.ofOk fun _ _ _ _ => True) (do
          let out ← emitPaymentEvents (o + 1) f st.paymentStatus
          markWebhookProcessed evId
          commit
          pure (some out)) w.toShared y l'' := by
        refine Safe.bind ((emitPaymentEvents_extends _ _ _).mono fun r sh x l₁ h₁ => ?_)
        cases r with
        | error e => trivial
        | ok out =>
          refine Safe.bind ((markWebhookProcessed_extends (frame_quiet req d₀) _ _).mono
            fun r sh x l₂ h₂ => ?_)
          cases r with
          | error e => trivial
          | ok _ =>
            refine Safe.bind (Safe.commit (fun w₁ y₁ hs₁ _ => ?_) fun _ _ _ _ _ _ _ => trivial)
            have hframed := (htouch.extends (Extends.trans h₁ h₂)).framed hs₁.inv hp hnp
            exact ⟨hframed, trivial, Safe.pure trivial⟩
      exact Safe.bind (safe_oneOrNone (fun _ => Safe.pure hrest) (fun _ _ => Safe.pure hrest) trivial)

theorem frame_commitsEvents : CommitsEvents (frameProtocol req d₀) G i := by
  intro sh x l hl
  refine Safe.commit (fun w y hs _ => ?_) fun _ _ _ _ _ _ _ => trivial
  have hrow : ∀ {t : Table}, t ≠ .paymentWebhookEvent → ∀ k, (l.view w.db).get t k = w.db.get t k :=
    fun ht k => get_applyWrites_of_not_written (hl.not_written ht k) w.db
  have hinv : Framed req d₀ w.db := hs.inv
  refine ⟨⟨fun k hk => hinv.payments k ?_, fun k hk => hinv.orders k ?_⟩, trivial, trivial⟩
  · rwa [← hrow (t := .payment) (by decide) k]
  · rwa [← hrow (t := .orders) (by decide) k]

theorem receiveEvent_framed {eventId : String} {payload event : Json} {f : PaymentFields}
    (hdb : sh.db = d₀) (hp : d₀.get .payment p.id = some p) (hprov : p.provider = some "razorpay")
    (hl : l.writes = []) (ht : f.providerPaymentId.truthy = true)
    (hnamed : ∀ st, payOrderStatusUtil f.pspPayStatus event = .ok st → st.isValidEvent = true →
      (∀ e : PaymentWebhookEvent, e ∈ d₀ .paymentWebhookEvent → e.provider = "razorpay" →
        e.providerEventId ≠ some eventId) → NamedOnceMoved req d₀ f st p) :
    Safe (frameProtocol req d₀) G i (fun _ _ _ _ => True)
      (receiveEvent eventId payload event ⟨p.id, p.orderId⟩ f) sh x l := by
  refine Safe.bind (safe_ofApp (fun st hst => ?_) fun _ => trivial)
  refine Safe.bind (Safe.bind (Safe.insert (fun w y hs m _ hfree => ?_) (fun _ w y hs m _ => ?_)
    fun _ _ _ _ _ _ => trivial))
  · have hw : w.db = d₀ := Eq.trans hs.rely hdb
    have hview : l.view w.db = d₀ := by rw [Txn.view, hl, applyWrites, hw]
    refine Safe.pure ?_
    simp only
    split
    · exact Safe.pure trivial
    rename_i hvalid
    refine processEvent_safe (frame_quiet req d₀) frame_commitsEvents ?_
    refine criticalSection_framed _ hw hp hprov (EventsOnly.cons (hl ▸ .nil) _) ht ?_
    refine hnamed st hst (by simpa using hvalid) fun e he hpr hid => ?_
    rw [hview] at hfree
    exact hfree e he _ List.mem_cons_self (by simp [rowKeys, hpr, hid])
  · refine Safe.pure ?_
    simp only
    split
    · exact Safe.pure trivial
    · exact Safe.raise trivial

/-- A payment that the lookup finds is the one the payload names, or the payload names none
and the payment waits for its provider order. -/
theorem found_payment {j : Json} {poid : Option String} (hb : bindText j = .ok poid) :
    (∃ o, j = .str o ∧ poid = some o) ∨ (j = .null ∧ poid = none) := by
  cases j with
  | str s =>
    simp only [bindText, Except.ok.injEq] at hb
    exact .inl ⟨s, rfl, hb.symm⟩
  | null =>
    simp only [bindText, Except.ok.injEq] at hb
    exact .inr ⟨rfl, hb.symm⟩
  | bool _ | num _ | arr _ | obj _ => cases hb

theorem razorpayWebhook_framed (lib : Lib) (hdb : sh.db = d₀) (hnot : ¬PendingTaken req d₀) :
    Safe (frameProtocol req d₀) G i (fun _ _ _ _ => True) (razorpayWebhook lib req) sh x {} := by
  refine Safe.bind ((verifyRazorpaySignature_safe lib req).mono fun r sh x l hl => ?_)
  match r with
  | .error e => trivial
  | .ok _ =>
    obtain ⟨rfl, rfl, rfl⟩ := hl
    cases hjson : req.json with
    | none => exact Safe.raise trivial
    | some payload =>
      refine Safe.bind (safe_ofApp (fun event hevent => ?_) fun _ => trivial)
      simp only
      split
      · exact Safe.raise trivial
      · exact Safe.raise trivial
      rename_i eventId hne heid
      refine Safe.bind (safe_ofApp (fun f hf => ?_) fun _ => trivial)
      refine Safe.bind (Safe.bind (safe_ofApp (fun poid hpoid => ?_) fun _ => trivial))
      refine Safe.bind (Safe.read (fun w y hs => ?_) fun _ _ _ _ _ _ _ => trivial)
      have hw : w.db = d₀ := Eq.trans hs.rely hdb
      refine Safe.bind (safe_oneOrNone (fun _ => ?_) (fun p hone => ?_) trivial)
      · exact Safe.pure (unmatched_safe _ _ _ _ _ .nil)
      refine Safe.pure ?_
      have hrows : (w.db .payment).filter (fun p : Payment =>
          p.provider = some "razorpay" && p.providerOrderId = poid) = [p] := hone
      have hmem : p ∈ (w.db .payment).filter fun p : Payment =>
          p.provider = some "razorpay" && p.providerOrderId = poid := hrows ▸ List.mem_cons_self
      simp only [List.mem_filter, Bool.and_eq_true, decide_eq_true_eq] at hmem
      obtain ⟨hp, hprov, hpo⟩ := hmem
      have hget : w.db.get .payment p.id = some p := Store.get_of_mem hs.world.wf.ids hp
      rw [hw] at hget hp hrows
      simp only [Option.map_some]
      split
      · exact unmatched_safe _ _ _ _ _ .nil
      · exact unmatched_safe _ _ _ _ _ .nil
      rename_i pay hord hpay
      cases hpay
      split
      · exact Safe.raise trivial
      rename_i htruthy
      refine receiveEvent_framed hw hget hprov rfl (by simpa using htruthy)
        fun st hst hvalid hfresh ppid hppid hne' hbelow hfree => ?_
      rcases found_payment hpoid with ⟨o, ho, hoo⟩ | ⟨hnull, hoo⟩
      · exact ⟨hprov, payload, f, o, hjson, hf, ho, hpo.trans hoo⟩
      · subst hoo
        have hord' : p.orderId ≠ 0 := fun h0 => hord p.id (by rw [h0])
        exact absurd ⟨payload, event, eventId, ppid, f, st, p, hjson, hevent, heid, hne, hf, hnull, hrows,
          hord', hppid, hne', hst, hvalid, hfresh, hbelow, hfree⟩ hnot

end Frame

/-! ## A delivery that is taken for a payment without a provider order -/

section Plays
variable {C : HostAct → HostChoice → Prop} {w : World shop shopHost} {l : Txn shop}

/-- The statement succeeded, nothing was committed, and payments and orders are as before. -/
structure Aids {α : Type} (w : World shop shopHost) (l : Txn shop) (r : Except (Exn AppErr) α)
    (w' : World shop shopHost) (l' : Txn shop) : Prop where
  ok : ∃ a, r = .ok a
  db : w'.db = w.db
  alive : l'.aborted = false
  writes : Extends Aside l l'

theorem Aids.after {α β : Type} {w' w'' : World shop shopHost} {l' l'' : Txn shop}
    {r : Except (Exn AppErr) α} {r' : Except (Exn AppErr) β} (h : Aids w l r w' l')
    (h' : Aids w' l' r' w'' l'') : Aids w l r' w'' l'' :=
  ⟨h'.ok, h'.db.trans h.db, h'.alive, Extends.trans h.writes h'.writes⟩

theorem Aids.bind {α β : Type} {p : Py α} {f : α → Py β} (h : Ends C (Aids w l) p w l)
    (hf : ∀ a w' l', l'.aborted = false → Ends C (Aids w' l') (f a) w' l') :
    Ends C (Aids w l) (p >>= f) w l := by
  refine Ends.bind (h.mono fun r w' l' _ _ hr => ?_)
  obtain ⟨a, rfl⟩ := hr.ok
  exact (hf a w' l' hr.alive).mono fun r w'' l'' _ _ hr' => hr.after hr'

/-- A statement that reads rows with one unique index entry. -/
theorem selectUnique_ends {α : Type} {t : Table} {p : t.Row → Bool} {k : IndexKey}
    (g : Option t.Row → α) (ha : l.aborted = false)
    (hkey : ∀ r : t.Row, p r = true → k ∈ rowKeys r) :
    Ends C (Aids w l) (do
      let res ← select t p
      let res ← oneOrNone res
      pure (g res)) w l := by
  refine Ends.bind (Ends.read ha fun hw hl => ?_)
  have hnd : (((l.view w.db) t).filter p).Nodup := ((hl.wf.ids t).of_map).filter _
  have huniq : ∀ a ∈ ((l.view w.db) t).filter p, ∀ b ∈ ((l.view w.db) t).filter p, a = b := by
    intro a hmem b hmem'
    rw [List.mem_filter] at hmem hmem'
    exact Store.Wf.eq_of_key hl.wf hmem.1 hmem'.1 (hkey a hmem.2) (hkey b hmem'.2)
  simp only [oneOrNone_unique hnd huniq]
  exact Ends.pure ⟨⟨_, rfl⟩, rfl, ha, .refl _ _⟩

theorem createCommitIntent_ends (o : ℕ) (reason ty : String) (payload : CommitPayload)
    (ha : l.aborted = false) :
    Ends C (Aids w l) (createCommitIntent o reason ty payload) w l := by
  by_cases hfree : (l.view w.db).Free .commitIntent [.reasonAggregate reason ty o]
  · refine Ends.bind (Ends.insert ha fun hw hl => ⟨hfree, Ends.pure ⟨⟨_, rfl⟩, rfl, ha, ?_⟩⟩)
    exact Extends.write (by decide) _ _
  · refine Ends.bind (Ends.insert_skip ha fun hw hl => ⟨hfree, ?_⟩)
    refine selectUnique_ends (k := .reasonAggregate reason ty o) _ ha fun c hc => ?_
    simp only [Bool.and_eq_true, decide_eq_true_eq] at hc
    simp [rowKeys, hc]

theorem emitOutboxEvent_ends (topic ty : String) (payload : OutboxPayload) (o : ℕ)
    (ha : l.aborted = false) :
    Ends C (Aids w l) (emitOutboxEvent topic payload ty o) w l := by
  by_cases hfree : (l.view w.db).Free .outboxEvent [.topicAggregate topic ty o]
  · refine Ends.bind (Ends.insert ha fun hw hl => ⟨hfree, Ends.pure ⟨⟨_, rfl⟩, rfl, ha, ?_⟩⟩)
    exact Extends.write (by decide) _ _
  · refine Ends.bind (Ends.insert_skip ha fun hw hl => ⟨hfree, ?_⟩)
    refine selectUnique_ends (k := .topicAggregate topic ty o) _ ha fun e he => ?_
    simp only [Bool.and_eq_true, decide_eq_true_eq] at he
    simp [rowKeys, he]

theorem emitPaymentEvents_ends (o : ℕ) (f : PaymentFields) (st : ℕ) (ha : l.aborted = false) :
    Ends C (Aids w l) (emitPaymentEvents o f st) w l := by
  rw [emitPaymentEvents]
  split
  · refine Aids.bind (Ends.bind (Ends.read ha fun _ _ => ?_)) fun items w' l' ha' => ?_
    · exact Ends.pure ⟨⟨_, rfl⟩, rfl, ha, .refl _ _⟩
    refine Aids.bind (createCommitIntent_ends _ _ _ _ ha') fun ciId w' l' ha' => ?_
    refine Aids.bind (emitOutboxEvent_ends _ _ _ _ ha') fun evId w' l' ha' => ?_
    exact Ends.pure ⟨⟨_, rfl⟩, rfl, ha', .refl _ _⟩
  · split
    · refine Aids.bind (emitOutboxEvent_ends _ _ _ _ ha) fun evId w' l' ha' => ?_
      exact Ends.pure ⟨⟨_, rfl⟩, rfl, ha', .refl _ _⟩
    · exact Ends.pure ⟨⟨_, rfl⟩, rfl, ha, .refl _ _⟩

theorem markWebhookProcessed_ends (hC : Ordinary C) (evId : ℕ) (lastError : Option String)
    (ha : l.aborted = false) : Ends C (Aids w l) (markWebhookProcessed evId lastError) w l := by
  refine Ends.bind (ends_now hC ?_)
  refine Ends.bind (ends_updateOne ha (fun _ => List.Subset.refl _) (fun _ _ _ => ?_) fun _ _ e _ => ?_)
  · exact Ends.pure ⟨⟨_, rfl⟩, rfl, ha, .refl _ _⟩
  · exact Ends.pure ⟨⟨_, rfl⟩, rfl, ha, Extends.write (by decide) _ _⟩

theorem providerPayment_mem {p : Payment} {pr pp : String} :
    IndexKey.providerPayment pr pp ∈ rowKeys (t := .payment) p ↔
      p.provider = some pr ∧ p.providerPaymentId = some pp := by
  cases hp : p.provider <;> cases hid : p.providerPaymentId <;> cases ho : p.providerOrderId <;>
    simp [rowKeys, providerKeys, hp, hid, ho, eq_comm]

theorem completed_gains {p : Payment} {st : ℕ} {pr pp : String} {k : IndexKey}
    (hprov : p.provider = some pr)
    (hk : k ∈ rowKeys (t := .payment) { p with status := st, providerPaymentId := some pp })
    (hnot : k ∉ rowKeys (t := .payment) p) : k = .providerPayment pr pp := by
  simp only [rowKeys, providerKeys, hprov, Option.map_some, Option.toList, List.mem_cons,
    List.mem_append, List.not_mem_nil, or_false] at hk hnot
  tauto

/-- The delivery moved the payment. -/
def Moved (p : Payment) (st : ℕ) (d : Db) : Prop :=
  ∃ q, d.get .payment p.id = some q ∧ q.status = st

theorem criticalSection_moves (hC : Ordinary C) {f : PaymentFields} {st : PayOrderStatus}
    {p : Payment} {ppid : String} (evId : ℕ) (hprov : p.provider = some "razorpay")
    (hp : w.db.get .payment p.id = some p) (hppid : f.providerPaymentId = .str ppid)
    (hord : p.orderId ≠ 0) (hlt : p.status < st.paymentStatus)
    (hfree : ∀ q : Payment, q ∈ w.db .payment → q.provider = some "razorpay" →
      q.providerPaymentId = some ppid → q = p)
    (hl : EventsOnly l.writes) (ha : l.aborted = false) :
    Ends C (fun r w' _ => (∃ out, r = .ok (some out)) ∧ Moved p st.paymentStatus w'.db)
      (criticalSection p.id f st evId) w l := by
  let p' : Payment := { p with status := st.paymentStatus, providerPaymentId := some ppid }
  have hview : l.view w.db .payment = w.db .payment := applyWrites_of_untouched fun v hv he => by
    rw [hl v hv] at he
    cases he
  obtain ⟨o, ho⟩ := Nat.exists_eq_succ_of_ne_zero hord
  have hrow : Ends C (fun r w' l' => r = .ok (some (o + 1)) ∧ w' = w ∧
      l' = l.write .payment (rowKeys (t := .payment) p) p')
      (updatePayCompletionGetOrderid p.id f.providerPaymentId st.paymentStatus) w l := by
    rw [updatePayCompletionGetOrderid, hppid]
    refine Ends.bind (Ends.pure (Ends.bind (Ends.update_one (r := p) ha fun hw hl => ⟨?_, ?_, ?_⟩)))
    · have hrows := Store.filter_id_and (S := shop) hl.wf.ids .payment p.id
        fun q : Payment => decide (q.status < st.paymentStatus)
      have hget : (l.view w.db).get .payment p.id = some p := by
        rw [Store.get, hview]
        exact hp
      rw [hget] at hrows
      refine hrows.trans ?_
      simp [Option.filter, hlt]
    · intro q hq k hk hkq
      rw [hview] at hq
      simp only [List.mem_filter, decide_eq_true_eq] at hk
      obtain rfl := completed_gains hprov hk.1 hk.2
      obtain ⟨hqp, hqid⟩ := providerPayment_mem.mp hkq
      exact hk.2 (hfree q hq hqp hqid ▸ hkq)
    · exact Ends.pure ⟨congrArg (fun k => Except.ok (some k)) ho, rfl, rfl⟩
  refine Ends.bind (hrow.mono fun r w' l₁ _ _ hr => ?_)
  obtain ⟨rfl, hw', hl₁⟩ := hr
  subst hw'
  have hmoved : Moved p st.paymentStatus (l₁.view w'.db) := by
    rw [hl₁]
    exact ⟨p', Store.get_put_self (l.view w'.db) .payment p', rfl⟩
  have ha₁ : l₁.aborted = false := by rw [hl₁]; exact ha
  have hrest : ∀ l₂ : Txn shop, l₂.aborted = false → Extends (fun t => t ≠ Table.payment) l₁ l₂ →
      Ends C (fun r w'' _ => (∃ out, r = .ok (some out)) ∧ Moved p st.paymentStatus w''.db) (do
        let out ← emitPaymentEvents (o + 1) f st.paymentStatus
        markWebhookProcessed evId
        commit
        pure (some out)) w' l₂ := fun l₂ ha₂ he => by
    refine Ends.bind ((emitPaymentEvents_ends (o + 1) f st.paymentStatus ha₂).mono
      fun r w₃ l₃ _ _ h₃ => ?_)
    obtain ⟨out, rfl⟩ := h₃.ok
    refine Ends.bind ((markWebhookProcessed_ends hC evId none h₃.alive).mono
      fun r w₄ l₄ _ _ h₄ => ?_)
    obtain ⟨_, rfl⟩ := h₄.ok
    refine Ends.bind (Ends.commit h₄.alive fun _ _ => Ends.pure ⟨⟨out, rfl⟩, ?_⟩)
    have hall := h₃.after h₄
    have hpay : l₄.view w₄.db .payment = l₁.view w'.db .payment := by
      rw [hall.db, hall.writes.view (by decide), he.view (by simp)]
    obtain ⟨q, hq, hst⟩ := hmoved
    refine ⟨q, ?_, hst⟩
    change (l₄.view w₄.db).get .payment p.id = some q
    rw [← hq, Store.get, Store.get, hpay]
  refine Ends.bind (Ends.bind (ends_updateOne ha₁ (fun _ => List.Subset.refl _) (fun _ _ _ => ?_)
    fun _ _ r _ => ?_))
  · exact Ends.pure (hrest l₁ ha₁ (.refl _ _))
  · exact Ends.pure (hrest _ ha₁ (Extends.write (by simp) _ _))

theorem publishCommitted_stays (out : Committed) (d : Db) (hd : w.db = d)
    (hC : ∀ m, C (.publish m) .proceed) :
    Ends C (fun _ w' _ => w'.db = d) (publishCommitted out) w l := by
  have hpublish : ∀ {w : World shop shopHost} {l} (m : Message), w.db = d →
      Ends C (fun r w' _ => w'.db = d) (publish m) w l := fun m hd =>
    Ends.host ⟨.proceed, hC m, rfl⟩ fun _ _ _ _ _ _ _ => hd
  rw [publishCommitted]
  split
  · refine Ends.bind ((hpublish _ hd).mono fun r w' l' _ _ hr => ?_)
    cases r with
    | error e => exact hr
    | ok _ =>
      simp only
      split
      · exact hpublish _ hr
      · exact Ends.pure hr
  · exact Ends.pure hd

/-- Every play of such a delivery moves the payment. -/
theorem razorpayWebhook_takes (lib : Lib) {req : WebhookRequest} {sig : String}
    (hsigned : Signed lib req sig) {payload event : Json} {eventId ppid : String} {f : PaymentFields}
    {st : PayOrderStatus} {p : Payment}
    (h : TakesPending req w.db payload event eventId ppid f st p) :
    Ends (fun _ _ => True) (fun _ w' _ => Moved p st.paymentStatus w'.db)
      (razorpayWebhook lib req) w {} := by
  have hverify : verifyRazorpaySignature lib req = .ret () := by
    rw [verifyRazorpaySignature, hsigned.signature]
    split
    · rename_i he
      cases he
    · rename_i he
      exact absurd (Option.some.inj he) hsigned.nonempty
    · rename_i he
      cases he
      rw [hsigned.ascii, hsigned.hmac]
      simp
      rfl
  have hnew : ({} : Txn shop).aborted = false := rfl
  have hfields : EventsOnly ({} : Txn shop).writes := .nil
  have hget : w.Ok → w.db.get .payment p.id = some p := fun hw =>
    Store.get_of_mem hw.wf.ids (List.mem_of_mem_filter (h.only ▸ List.mem_cons_self))
  have hprov : p.provider = some "razorpay" := by
    have hp : p ∈ (w.db .payment).filter awaitsProvider := h.only ▸ List.mem_cons_self
    have ha := (List.mem_filter.mp hp).2
    simp only [awaitsProvider, Bool.and_eq_true, decide_eq_true_eq] at ha
    exact ha.1
  refine Ends.of_ok fun hw _ => ?_
  rw [razorpayWebhook, hverify, h.document, h.identified]
  refine Ends.bind (Ends.pure (Ends.bind (ends_ofApp h.named ?_)))
  simp only
  split
  · rename_i he
    cases he
  · rename_i he
    exact absurd (Option.some.inj he) h.nonempty
  rename_i eventId' _ he
  cases he
  refine Ends.bind (ends_ofApp h.fields (Ends.bind (Ends.bind (ends_ofApp (a := none) ?_ ?_))))
  · rw [h.noOrder]
    rfl
  refine Ends.bind (Ends.read hnew fun _ _ => ?_)
  have hrows : ((({} : Txn shop).view w.db) .payment).filter (fun p : Payment =>
      p.provider = some "razorpay" && p.providerOrderId = none) = [p] := h.only
  rw [hrows]
  refine Ends.bind (Ends.pure (Ends.pure ?_))
  simp only [Option.map_some]
  split
  · rename_i he
    cases he
  · rename_i he
    exact absurd (congrArg PayRecord.orderId (Option.some.inj he)) h.ordered
  rename_i pay _ he
  cases he
  have htruthy : f.providerPaymentId.truthy = true := by
    rw [h.paymentId]
    simpa [Json.truthy] using h.truthy
  simp only [htruthy, Bool.not_true, Bool.false_eq_true, if_false]
  refine Ends.bind (ends_ofApp h.status (Ends.bind (Ends.bind (Ends.insert hnew
    fun _ _ => ⟨?_, Ends.pure ?_⟩))))
  · intro e hmem k hk hke
    obtain rfl : k = .providerEvent "razorpay" eventId := by simpa [rowKeys] using hk
    have hevent : e.provider = "razorpay" ∧ e.providerEventId = some eventId := by
      cases hid : e.providerEventId <;> simp_all [rowKeys]
    exact h.fresh e hmem hevent.1 hevent.2
  simp only [h.valid, Bool.not_true, Bool.false_eq_true, if_false, Option.map_some, Option.isSome_none]
  refine Ends.bind (Ends.attempt (Ends.mono (fun r w' l' _ _ hr => ?_)
    (criticalSection_moves ⟨trivial, trivial, fun _ => trivial⟩ _ hprov (hget hw) h.paymentId
      h.ordered h.below h.free (EventsOnly.nil.cons _) rfl)))
  obtain ⟨⟨out, rfl⟩, hmoved⟩ := hr
  refine Ends.bind ((publishCommitted_stays out w'.db rfl fun _ => trivial).mono
    fun r w'' l'' _ _ hdb => ?_)
  cases r with
  | error e => exact hdb ▸ hmoved
  | ok _ => exact Ends.pure (hdb ▸ hmoved)

end Plays

/-! ## Exactly when the frame is kept -/

/-- The provider refuses the order. -/
def refusedConfirm : List (Label shopHost 1) :=
  [.proc 0 .go, .proc 0 (.host .proceed), .proc 0 .go, .proc 0 .go, .proc 0 (.host .proceed),
    .proc 0 .go, .proc 0 (.host .proceed), .proc 0 .go, .proc 0 .go, .proc 0 (.host .proceed)] ++
    .replicate 5 (.proc 0 .go) ++
    [.proc 0 (.host (.fails (.httpStatus (some 400) "refused"))), .proc 0 .go, .proc 0 .go]

def unnamedCapture : WebhookRequest where
  signature := some "s"
  providerEventId := some "e1"
  body := "s"
  json := some (.obj [("event", .str "payment.captured"), ("payload", .obj [("payment", .obj
    [("entity", .obj [("id", .str "pay1"), ("status", .str "captured")])])])])

end Phyllonix
