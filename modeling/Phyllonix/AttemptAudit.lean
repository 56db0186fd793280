import Phyllonix.PaymentAttempts
import Phyllonix.RelationalLog
import Phyllonix.ConfirmRuns

/-!
# Which attempts are committed

The order and its payment are committed before the provider is called; the attempts only with
the order id of the provider. On every other exit the session rolls them back.
-/

namespace Phyllonix
open Relational
variable {n : ℕ}

/-- The foreign key of attempts. -/
def AttemptsOfPayments (d : Db) : Prop :=
  ∀ a : PaymentAttempt, a ∈ d .paymentAttempt → (d.get .payment a.paymentId).isSome

/-- Payment `m` is the one that has come in. -/
structure NewPayment (d₀ d : Db) (m : ℕ) : Prop where
  fresh : d₀.get .payment m = none
  row : (d.get .payment m).isSome
  others : ∀ i, i ≠ m → d.get .payment i = d₀.get .payment i

/-- The attempts of the payment are one for each call, with its number and outcome. -/
def Audited (outs : ℕ → HostChoice) (calls : ℕ) (d : Db) (paymentId : ℕ) : Prop :=
  (attemptLog d paymentId).Perm (expectedLog outs calls)

/-- The body holds an order id, and no payment of the provider has it. -/
def FreshOrderId (body : PspResponse) (d : Db) : Prop :=
  ∃ poid, body.lookup "id" = some (.str poid) ∧
    ∀ p : Payment, p ∈ d .payment → p.provider = some "razorpay" → p.providerOrderId ≠ some poid

/-- After outcomes that are retried the provider creates the order, under an id of its own. -/
def Accepts (outs : ℕ → HostChoice) (d : Db) : Prop :=
  ∃ k < DEFAULT_RETRIES, (∀ j < k, (outs j).retried) ∧ ∃ body, outs k = .response body ∧ FreshOrderId body d

theorem Verdict.accepts_iff {outs : ℕ → HostChoice} {d : Db} {k : ℕ} {body : PspResponse}
    (hk : k < DEFAULT_RETRIES) (hall : ∀ j < k, (outs j).retried) (hout : outs k = .response body) :
    Accepts outs d ↔ FreshOrderId body d := by
  refine ⟨fun ⟨k', _, hall', body', hout', hfresh⟩ => ?_, fun h => ⟨k, hk, hall, body, hout, h⟩⟩
  rcases Nat.lt_trichotomy k k' with h | rfl | h
  · have hretried := hall' k h
    rw [hout] at hretried
    cases hretried
  · rw [hout] at hout'
    cases hout'
    exact hfresh
  · have hretried := hall k' h
    rw [hout'] at hretried
    cases hretried

theorem Verdict.not_accepts {outs : ℕ → HostChoice} {d : Db} {calls : ℕ} {res : PspResult}
    (h : Verdict outs DEFAULT_RETRIES calls res) (hres : res.resp = none) : ¬Accepts outs d := by
  rintro ⟨k', hk', hall', body, hout', -⟩
  cases h with
  | answered hk hall hout => cases hres
  | @refused k _ e ex exc hall hout hfinal =>
    rcases Nat.lt_trichotomy k k' with h | rfl | h
    · rw [hall' k h] at hfinal
      cases hfinal
    · rw [hout] at hout'
      cases hout'
    · have hretried := hall k' h
      rw [hout'] at hretried
      cases hretried
  | exhausted hall =>
    have hretried := hall k' hk'
    rw [hout'] at hretried
    cases hretried

/-! ## Up to the payment -/

/-- Payments and attempts are left alone. -/
def paymentsKept : RowOrder shop where
  rel t r r' := t = .payment ∨ t = .paymentAttempt → r' = r
  refl _ _ _ := rfl
  trans h h' ht := (h' ht).trans (h ht)

def Calm (a : ShopAction) : Prop := a.Keeps paymentsKept ∧ a.Mute providerCalls

section Calm

theorem select_calm (t : Table) (p : t.Row → Bool) : (select t p).Acts Calm := .call ⟨trivial, trivial⟩

theorem hostCall_calm {a : HostAct} (ha : ∀ req, a ≠ .createPspOrder req) : (hostCall a).Acts Calm := by
  apply Prog.Acts.call
  refine ⟨trivial, fun c s r s' hst => ?_⟩
  cases a with
  | createPspOrder req => exact absurd rfl (ha req)
  | _ =>
    cases c <;> simp only [HostAct.step, Option.some.injEq, Prod.mk.injEq, reduceCtorEq] at hst <;>
      obtain ⟨-, rfl⟩ := hst <;> rfl

theorem now_calm : now.Acts Calm := hostCall_calm fun _ h => by cases h

theorem uuid7_calm : uuid7.Acts Calm := hostCall_calm fun _ h => by cases h

theorem sleep_calm (q : Rat) : (sleep q).Acts Calm := hostCall_calm fun _ h => by cases h

theorem update_calm {t : Table} (ht : ¬(t = .payment ∨ t = .paymentAttempt)) (p : t.Row → Bool) (f : t.Row → t.Row)
    (hf : ∀ r, rowId (f r) = rowId r) : (update t p f hf).Acts fun a => Calm a ∧ a.Within :=
  .call ⟨⟨fun _ h => absurd h ht, trivial⟩, trivial⟩

theorem insert_calm {t : Table} (ht : ¬(t = .payment ∨ t = .paymentAttempt)) (mk : ℕ → t.Row)
    (hmk : ∀ m, rowId (mk m) = m) : (insert t mk hmk).Acts Calm := by
  apply Prog.Acts.bind (.call ⟨fun _ h => absurd h ht, trivial⟩)
  intro r
  cases r <;> trivial

theorem updateCheckoutActiveness_calm (csId : ℕ) (active : Bool) :
    (updateCheckoutActiveness csId active).Acts Calm :=
  ((update_calm (by decide) _ _ _).mono fun _ h => h.1).bind fun _ => .call ⟨trivial, trivial⟩

theorem validate_calm (checkoutId : UUID) (userId : ℕ) :
    (validateCheckoutGetItemsPaymethod checkoutId userId).Acts Calm := by
  apply Prog.Acts.bind (.call ⟨trivial, trivial⟩)
  intro rows
  apply (oneOrNone_acts rows).bind
  intro o
  cases o with
  | none => trivial
  | some cs =>
    apply now_calm.bind
    intro t
    split
    · exact (updateCheckoutActiveness_calm _ _).bind fun _ => trivial
    · split
      · trivial
      · split <;> trivial

theorem spcByIkey_calm (key : String) (userId : ℕ) : (spcByIkey key userId).Acts Calm := by
  apply (select_calm _ _).bind
  intro rows
  apply (oneOrNone_acts rows).bind
  intro o
  cases o with
  | none => trivial
  | some k =>
    apply now_calm.bind
    intro t
    split
    · trivial
    · split <;> trivial

theorem recordOrderIdempotency_calm (key : String) (userId csId : ℕ) :
    (recordOrderIdempotency key userId csId).Acts Calm := by
  apply now_calm.bind
  intro t
  apply Prog.Acts.bind (.call ⟨fun _ h => by simp at h, trivial⟩)
  exact fun _ => trivial

theorem addOrderItems_calm (lib : Lib) (orderId : ℕ) (items : List SnapshotItem) :
    (addOrderItems lib orderId items).Acts Calm := by
  induction items with
  | nil => trivial
  | cons it items ih => exact (insert_calm (by decide) _ _).bind fun _ => ih

theorem updateOrderIdempotencyRecord_calm (lib : Lib) (userId ikId ownerId : ℕ) (code : Option ℕ)
    (body : Option (List (String × PyVal))) (ownerType : String) :
    (updateOrderIdempotencyRecord lib userId ikId ownerId code body ownerType).Acts fun a => Calm a ∧ a.Within := by
  unfold updateOrderIdempotencyRecord
  match body with
  | none => exact (update_calm (by decide) _ _ _).bind fun _ => trivial
  | some [] => exact (update_calm (by decide) _ _ _).bind fun _ => trivial
  | some (_ :: _) =>
    exact (ofApp_acts _).bind fun _ => (update_calm (by decide) _ _ _).bind fun _ => trivial

end Calm

section Statements
variable {i₀ : Fin n} {answers : HostAct → ℕ → HostChoice → Prop} {d₀ d : Db} {v : ℕ} {l : Txn shop}
variable {α β : Type}

/-- The store and what the transaction sees have the payments and attempts of `d₀`. -/
structure Before (d₀ d : Db) (l : Txn shop) : Prop where
  store : Evolves paymentsKept d₀ d
  view : Evolves paymentsKept d (l.view d)

theorem plays_calm {p : Py α} (hp : p.Acts Calm) (h : Before d₀ d l) :
    Plays (o := providerCalls) answers i₀ (fun _ d' v' l' => v' = v ∧ Before d₀ d' l') p d v l := by
  apply (Plays.evolves hp h.view).mono
  rintro r d' v' l' ⟨hv, hd, hl⟩
  exact ⟨hv, h.store.trans hd, hl⟩

theorem plays_bind_calm {p : Py α} {f : α → Py β} {Q : Except (Exn AppErr) β → Db → ℕ → Txn shop → Prop}
    (hp : p.Acts Calm) (h : Before d₀ d l)
    (hf : ∀ a d' l', Before d₀ d' l' → Plays (o := providerCalls) answers i₀ Q (f a) d' v l')
    (he : ∀ e d' l', Before d₀ d' l' → Q (.error e) d' v l') :
    Plays (o := providerCalls) answers i₀ Q (p >>= f) d v l := by
  apply Plays.bind
  apply (plays_calm hp h).mono
  rintro r d' v' l' ⟨rfl, hb⟩
  cases r with
  | ok a => exact hf a d' l' hb
  | error e => exact he e d' l' hb

/-- Payment `m` came in with the public id; the other payments and the attempts are those of `d₀`. -/
structure Placed (d₀ d : Db) (m : ℕ) (pub : UUID) : Prop where
  fresh : d₀.get .payment m = none
  row : ∃ o total, d.get .payment m =
    some ⟨m, pub, o, some "razorpay", none, none, PaymentStatus.pending.value, total⟩
  others : ∀ i, i ≠ m → d.get .payment i = d₀.get .payment i
  attempts : ∀ i, d.get .paymentAttempt i = d₀.get .paymentAttempt i

theorem Placed.later {d' : Db} {m : ℕ} {pub : UUID} (h : Placed d₀ d m pub) (hev : Evolves paymentsKept d d') :
    Placed d₀ d' m pub := by
  have hpay : ∀ i, d'.get .payment i = d.get .payment i := fun i => hev .payment i (.inl rfl)
  have hatt : ∀ i, d'.get .paymentAttempt i = d.get .paymentAttempt i := fun i => hev .paymentAttempt i (.inr rfl)
  obtain ⟨o, total, hrow⟩ := h.row
  exact ⟨h.fresh, ⟨o, total, (hpay m).trans hrow⟩, fun i hi => (hpay i).trans (h.others i hi),
    fun i => (hatt i).trans (h.attempts i)⟩

theorem Placed.new {m : ℕ} {pub : UUID} (h : Placed d₀ d m pub) : NewPayment d₀ d m := by
  obtain ⟨o, total, hrow⟩ := h.row
  exact ⟨h.fresh, by rw [hrow]; rfl, h.others⟩

/-- A payment that has just come in has no attempts. -/
theorem Placed.attemptLog_nil {m : ℕ} {pub : UUID} (h : Placed d₀ d m pub) (hd : d.Wf)
    (href : AttemptsOfPayments d₀) : attemptLog d m = [] := by
  have hnone : (d .paymentAttempt).filter (fun a : PaymentAttempt => a.paymentId = m) = [] := by
    apply List.filter_eq_nil_iff.mpr
    intro a ha hm
    simp only [decide_eq_true_eq] at hm
    have hget := Store.get_of_mem (S := shop) hd.ids ha
    rw [h.attempts] at hget
    have hsome := href a (Store.mem_of_get hget)
    rw [hm, h.fresh] at hsome
    cases hsome
  rw [attemptLog, hnone]
  rfl

theorem plays_recordPaymentInitPending (h : Before d₀ d l) (orderId : ℕ) (total : ℤ) :
    Plays (o := providerCalls) answers i₀ (fun r d' v' l' => v' = v ∧ d' = d ∧
      ∀ pub, r = .ok pub → ∃ m, Placed d₀ (l'.view d) m pub)
      (recordPaymentInitPending orderId total "razorpay") d v l := by
  have huuid : (uuid7.Acts fun a : ShopAction => a.Keeps paymentsKept ∧ a.Within ∧ a.Mute providerCalls) :=
    .call ⟨trivial, trivial, uuid7_calm.1.2⟩
  apply Plays.bind
  apply (Plays.within huuid).mono
  rintro r d' v' l' ⟨rfl, rfl, hev⟩
  cases r with
  | error e => exact ⟨rfl, rfl, nofun⟩
  | ok pub =>
    apply Plays.bind
    apply Plays.bind
    apply Plays.insert
    · intro m hm _ _
      have hall := (h.store.trans h.view).trans hev
      have hpay : ∀ i, (l'.view d').get .payment i = d₀.get .payment i := fun i => hall .payment i (.inl rfl)
      have hatt : ∀ i, (l'.view d').get .paymentAttempt i = d₀.get .paymentAttempt i :=
        fun i => hall .paymentAttempt i (.inr rfl)
      have hnone : (l'.view d').get .payment m = none :=
        Store.get_eq_none_iff.mpr fun r hr => Nat.ne_of_lt (hm r hr)
      apply Plays.pure
      apply Plays.pure
      refine ⟨rfl, rfl, fun pub' hpub => ⟨m, ?_⟩⟩
      cases hpub
      refine ⟨(hpay m).symm.trans hnone, ⟨orderId, total, ?_⟩, fun i hi => ?_, fun i => ?_⟩
      · exact Store.get_put_self (S := shop) _ .payment _
      · exact (Store.get_put_of_ne (S := shop) _ _ fun hc => hi hc.2).trans (hpay i)
      · exact (Store.get_put_of_ne (S := shop) _ _ fun hc => by cases hc.1).trans (hatt i)
    · exact fun m _ => ⟨nofun, rfl, rfl, nofun⟩
    · exact fun _ => ⟨rfl, rfl, nofun⟩

/-- When the order is to be paid now, its payment has come in. -/
theorem placeOrderWithItems_plays (lib : Lib) (userId : ℕ) (method : PaymentMethod) (totals : FinalTotal)
    (iKey : ℕ) (h : Before d₀ d l) :
    Plays (o := providerCalls) answers i₀ (fun r d' v' l' => v' = v ∧ ∀ resp, r = .ok resp →
      match resp.payPublicId with
      | none => Before d₀ d' l'
      | some pub => ∃ m, Placed d₀ (l'.view d') m pub)
      (placeOrderWithItems lib userId method totals iKey) d v l := by
  apply plays_bind_calm uuid7_calm h
  · intro publicId d₁ l₁ h₁
    apply plays_bind_calm (insert_calm (by decide) _ _) h₁
    · intro order d₂ l₂ h₂
      apply plays_bind_calm (addOrderItems_calm lib _ _) h₂
      · intro _ d₃ l₃ h₃
        dsimp only
        split
        · apply Plays.bind
          apply (plays_recordPaymentInitPending h₃ _ _).mono
          rintro r d₄ v' l₄ ⟨rfl, rfl, hplaced⟩
          cases r with
          | error e => exact ⟨rfl, nofun⟩
          | ok pub =>
            obtain ⟨m, hm⟩ := hplaced pub rfl
            apply Plays.bind
            apply (Plays.within (R := paymentsKept) ((updateOrderIdempotencyRecord_calm lib _ _ _ _ _ _).mono
              fun a ha => ⟨ha.1.1, ha.2, ha.1.2⟩)).mono
            rintro r d₅ v₅ l₅ ⟨rfl, rfl, hev⟩
            cases r with
            | error e => exact ⟨rfl, nofun⟩
            | ok _ =>
              apply Plays.pure
              refine ⟨rfl, fun resp hresp => ?_⟩
              cases hresp
              exact ⟨m, hm.later hev⟩
        · apply plays_bind_calm ((updateOrderIdempotencyRecord_calm lib _ _ _ _ _ _).mono fun a ha => ha.1) h₃
          · intro _ d₄ l₄ h₄
            apply Plays.pure
            refine ⟨rfl, fun resp hresp => ?_⟩
            cases hresp
            exact h₄
          · exact fun _ _ _ _ => ⟨rfl, nofun⟩
      · exact fun _ _ _ _ => ⟨rfl, nofun⟩
    · exact fun _ _ _ _ => ⟨rfl, nofun⟩
  · exact fun _ _ _ _ => ⟨rfl, nofun⟩

end Statements

/-! ## After the calls -/

theorem view_updated_of_ne {l l' : Txn shop} {d : Db} {t t' : Table} {f : t.Row → t.Row} {rows : List t.Row}
    (h : Updated (S := shop) f rows l l') (ht : t' ≠ t) : l'.view d t' = l.view d t' := by
  have hview : l'.view d = applyWrites (updateWrites (S := shop) f rows) (l.view d) := by
    rw [Txn.view, h.writes, Txn.view]
    induction updateWrites (S := shop) f rows with
    | nil => rfl
    | cons v ws ih => simp only [List.cons_append, applyWrites, ih]
  rw [hview]
  apply applyWrites_of_untouched
  intro v hv
  obtain ⟨r, -, rfl⟩ := List.mem_map.mp (List.mem_reverse.mp hv)
  exact ht.symm

theorem mem_keys_providerOrder {p : Payment} {provider order : String} :
    IndexKey.providerOrder provider order ∈ rowKeys (t := .payment) p ↔
      p.provider = some provider ∧ p.providerOrderId = some order := by
  cases hprov : p.provider <;> cases hid : p.providerOrderId <;> simp [rowKeys, providerKeys, hprov, hid, eq_comm]

/-- What is left after the provider's answer: a new payment, with its attempts or without any. -/
structure Settled (outs : ℕ → HostChoice) (d₀ d : Db) (m calls : ℕ) : Prop where
  new : NewPayment d₀ d m
  kept : Accepts outs d₀ → attemptLog d m = expectedLog outs calls
  lost : ¬Accepts outs d₀ → attemptLog d m = []

section Settling
variable {i₀ : Fin n} {answers : HostAct → ℕ → HostChoice → Prop} {d₀ d : Db} {v m : ℕ} {l : Txn shop}
variable {pub : UUID} {outs : ℕ → HostChoice} {calls : ℕ}

theorem Placed.settled (h : Placed d₀ d m pub) (hlog : attemptLog d m = []) (hnot : ¬Accepts outs d₀) :
    Settled outs d₀ d m calls :=
  ⟨h.new, fun ha => absurd ha hnot, fun _ => hlog⟩

/-- The order id is free for the new payment when no payment had it. -/
theorem Placed.free_iff (h : Placed d₀ d m pub) (hd₀ : d₀.Wf) (hd : d.Wf) {V : Db}
    (hV : V .payment = d .payment) {p p' : Payment} (hp : d.get .payment m = some p) {poid : String}
    (hp' : p' = { p with providerOrderId := some poid, status := PaymentStatus.accepted.value }) :
    V.Free .payment ((rowKeys (t := .payment) p').filter fun k => k ∉ rowKeys (t := .payment) p) ↔
      ∀ q : Payment, q ∈ d₀ .payment → q.provider = some "razorpay" → q.providerOrderId ≠ some poid := by
  obtain ⟨o, total, hrow⟩ := h.row
  obtain rfl : _ = p := Option.some.inj (hrow.symm.trans hp)
  subst hp'
  have hkeys : (rowKeys (t := .payment)
      ⟨m, pub, o, some "razorpay", none, some poid, PaymentStatus.accepted.value, total⟩).filter
      (fun k => k ∉ rowKeys (t := .payment)
        ⟨m, pub, o, some "razorpay", none, none, PaymentStatus.pending.value, total⟩) =
      [.providerOrder "razorpay" poid] := by
    simp [rowKeys, providerKeys]
  rw [hkeys]
  constructor
  · intro hfree q hq hprov hid
    have hget := Store.get_of_mem (S := shop) hd₀.ids hq
    have hne : q.id ≠ m := by
      rintro rfl
      have hnone := hget.symm.trans h.fresh
      cases hnone
    have hmem : q ∈ V .payment := by
      rw [hV]
      exact Store.mem_of_get (S := shop) ((h.others q.id hne).trans hget)
    exact hfree q hmem _ List.mem_cons_self (mem_keys_providerOrder.mpr ⟨hprov, hid⟩)
  · intro hnone q hq k hk hkey
    obtain rfl := List.mem_singleton.mp hk
    obtain ⟨hprov, hid⟩ := mem_keys_providerOrder.mp hkey
    rw [hV] at hq
    have hget := Store.get_of_mem (S := shop) hd.ids hq
    by_cases hqm : q.id = m
    · change d.get .payment q.id = _ at hget
      rw [hqm, hrow] at hget
      cases hget
      cases hid
    · exact hnone q (Store.mem_of_get (S := shop) ((h.others q.id hqm).symm.trans hget)) hprov hid

/-- The provider's order id is stored together with the attempts. -/
theorem storeOrderId_plays (key : String) (responseBody : Json) {poid : String} {body : PspResponse}
    (h : Placed d₀ d m pub) (hd₀ : d₀.Wf) (hd : d.Wf) (hlog : attemptLog d m = [])
    (htried : Tried outs d d m calls l) (haccepts : Accepts outs d₀ ↔ FreshOrderId body d₀)
    (hid : body.lookup "id" = some (.str poid)) :
    Plays (o := providerCalls) answers i₀ (fun r d' v' l' => v' = v ∧ Settled outs d₀ d' m calls ∧
      ∀ body, r = .ok body → l'.writes = [])
      (updatePaymentStatusNprovider m (.str poid) >>= fun _ => updateIdempotentResponse key 200 responseBody >>=
        fun _ => commit >>= fun _ => pure responseBody) d v l := by
  obtain ⟨o, total, hrow⟩ := h.row
  have hfresh : Accepts outs d₀ ↔ ∀ q : Payment, q ∈ d₀ .payment → q.provider = some "razorpay" →
      q.providerOrderId ≠ some poid := by
    refine haccepts.trans ⟨fun haccept => ?_, fun hno => ⟨poid, hid, hno⟩⟩
    obtain ⟨poid', hid', hno⟩ := haccept
    rw [hid] at hid'
    cases hid'
    exact hno
  have hlive : l.aborted ≠ true := by simp [htried.live]
  apply Plays.bind
  apply Plays.bind
  apply Plays.pure (a := some poid)
  apply Plays.bind
  apply Plays.update_one (S := shop) (t := .payment)
    (r := ⟨m, pub, o, some "razorpay", none, none, PaymentStatus.pending.value, total⟩)
  · intro hwf
    have hfilter := Store.filter_id (S := shop) hwf.ids .payment m
    have hget : (l.view d).get .payment m = d.get .payment m := by
      rw [Store.get, htried.payments, Store.get]
    rw [hget, hrow] at hfilter
    exact hfilter
  · intro _ hwf hfree
    have hacc : Accepts outs d₀ := hfresh.mpr ((h.free_iff hd₀ hd htried.payments hrow rfl).mp hfree)
    apply Plays.pure
    apply Plays.bind
    apply Plays.bind
    apply Plays.update (S := shop) (t := .idempotencyKey)
    · exact fun _ => rfl
    · intro _ _ l₂ hu
      apply Plays.pure
      apply Plays.bind
      apply Plays.commit
      · intro _
        apply Plays.pure
        have hget : ∀ i, (l₂.view d).get .payment i = ((l.view d).put .payment ⟨m, pub, o, some "razorpay", none,
            some poid, PaymentStatus.accepted.value, total⟩).get .payment i := by
          intro i
          rw [Store.get, view_updated_of_ne hu (by decide)]
          rfl
        refine ⟨rfl, ⟨⟨h.fresh, ?_, fun i hi => ?_⟩, fun _ => ?_, fun hnot => absurd hacc hnot⟩, fun _ _ => rfl⟩
        · rw [hget]
          exact congrArg Option.isSome (Store.get_put_self (S := shop) _ .payment _)
        · rw [hget, Store.get_put_of_ne (S := shop) _ _ fun hc => hi hc.2, Store.get, htried.payments]
          exact h.others i hi
        · rw [← htried.log, attemptLog, view_updated_of_ne hu (by decide)]
          rfl
      · exact fun ha => absurd (hu.aborted.symm.trans ha) hlive
    · exact fun ha => absurd ha hlive
  · intro hwf htaken
    have hnot : ¬Accepts outs d₀ := fun ha =>
      htaken ((h.free_iff hd₀ hd htried.payments hrow rfl).mpr (hfresh.mp ha))
    exact ⟨rfl, h.settled hlog hnot, fun _ hr => by cases hr⟩
  · exact fun ha => absurd ha hlive

theorem settlePspResult_plays (lib : Lib) (key : String) (orderData : OrderResponse) {res : PspResult}
    (h : Placed d₀ d m pub) (hd₀ : d₀.Wf) (hd : d.Wf) (hlog : attemptLog d m = [])
    (htried : Tried outs d d m calls l) (hverdict : Verdict outs DEFAULT_RETRIES calls res) :
    Plays (o := providerCalls) answers i₀ (fun r d' v' l' => v' = v ∧ Settled outs d₀ d' m calls ∧
      ∀ body, r = .ok body → l'.writes = [])
      (settlePspResult lib key orderData pub m res) d v l := by
  have hleft : ¬Accepts outs d₀ → ∀ {e : Exn AppErr} {l' : Txn shop}, v = v ∧ Settled outs d₀ d m calls ∧
      ∀ body : Json, (.error e : Except (Exn AppErr) Json) = .ok body → l'.writes = [] :=
    fun hnot _ _ => ⟨rfl, h.settled hlog hnot, nofun⟩
  have hfails : res.resp = none → ¬Accepts outs d₀ := hverdict.not_accepts
  cases hverdict with
  | refused hall hout hfinal => exact Plays.raise (hleft (hfails rfl))
  | exhausted hall => exact Plays.raise (hleft (hfails rfl))
  | @answered k _ body hk hall hout =>
    have haccepts := Verdict.accepts_iff (d := d₀) hk hall hout
    unfold settlePspResult
    dsimp only
    have hother : ∀ j : Json, (body.lookup "id").getD .null = j → (∀ s, j ≠ .str s) → ¬Accepts outs d₀ := by
      intro j hj hstr hacc
      obtain ⟨poid, hid, -⟩ := haccepts.mp hacc
      rw [hid] at hj
      exact hstr poid hj.symm
    split
    · rename_i hid
      apply Plays.bind
      apply (Plays.within (R := .any shop) _).mono
      · rintro r d' v' l' ⟨rfl, rfl, -⟩
        cases r with
        | error e => exact hleft (hother _ hid nofun)
        | ok _ => exact Plays.raise (hleft (hother _ hid nofun))
      · apply Prog.Acts.bind
        · apply Prog.Acts.bind (.call ⟨Action.keeps_any _, trivial, trivial⟩)
          intro r
          cases r <;> trivial
        · exact fun _ => trivial
    · rename_i hnull
      cases hj : (body.lookup "id").getD .null with
      | null => exact absurd hj hnull
      | str poid =>
        have hid : body.lookup "id" = some (.str poid) := by
          cases hl : body.lookup "id" with
          | none =>
            rw [hl] at hj
            cases hj
          | some j =>
            rw [hl] at hj
            exact congrArg some hj
        exact storeOrderId_plays key _ h hd₀ hd hlog htried haccepts hid
      | _ =>
        apply Plays.bind
        apply Plays.bind
        exact Plays.raise (hleft (hother _ hj nofun))

/-- No call has been made, or a new payment has come in. -/
def Accounted (outs : ℕ → HostChoice) (d₀ : Db) (base : ℕ) (d : Db) (v : ℕ) : Prop :=
  v = base ∨ ∃ m calls, v = base + calls ∧ 0 < calls ∧ Settled outs d₀ d m calls

theorem createPaymentIntent_plays (lib : Lib) (key : String) (totals : FinalTotal) (orderData : OrderResponse)
    {base : ℕ} (h : Placed d₀ d m pub) (hd₀ : d₀.Wf) (href : AttemptsOfPayments d₀) (hlive : l.aborted = false)
    (hl : l.writes = []) :
    Plays (o := providerCalls) (providerAnswers outs base) i₀ (fun r d' v' l' => Accounted outs d₀ base d' v' ∧
      ∀ body, r = .ok body → l'.writes = [])
      (createPaymentIntent lib key totals orderData pub) d base l := by
  obtain ⟨o, total, hrow⟩ := h.row
  have hview : l.view d = d := Txn.view_of_no_writes hl d
  apply Plays.bind
  apply Plays.bind
  apply Plays.read
  · intro hwf _
    rw [hview] at hwf ⊢
    have hrows : (d .payment).filter (fun p : Payment => decide (p.publicId = pub)) =
        [⟨m, pub, o, some "razorpay", none, none, PaymentStatus.pending.value, total⟩] := by
      apply hwf.filter_key (k := .publicId pub) (Store.mem_of_get hrow) (by simp)
      intro q hq
      simp only [decide_eq_true_eq] at hq
      simp [rowKeys, hq]
    rw [hrows]
    apply Plays.bind
    apply Plays.pure
    apply Plays.pure
    have hlog := h.attemptLog_nil hwf href
    have htried : Tried outs d d m 0 l := by
      refine ⟨hlive, ?_, ?_⟩
      · rw [hview, hlog]
        rfl
      · rw [hview]
    apply Plays.bind
    have hloop : Plays (o := providerCalls) (providerAnswers outs base) i₀
        (Concluded outs d d base m DEFAULT_RETRIES)
        (retryPayments (createPspOrder (pspRequest key totals orderData pub)) m) d (base + 0) l :=
      retryWrapper_plays _ _ htried (Nat.zero_add _) (by decide) (fun i hi => absurd hi (Nat.not_lt_zero i))
        fun hj => absurd hj (Nat.lt_irrefl 0)
    apply hloop.mono
    rintro r d' v' l' ⟨res, calls, rfl, rfl, rfl, hpos, htried', hverdict⟩
    apply (settlePspResult_plays lib key orderData h hd₀ hwf hlog htried' hverdict).mono
    rintro r' d'' v'' l'' ⟨rfl, hsettled, hok⟩
    exact ⟨.inr ⟨m, calls, rfl, hpos, hsettled⟩, hok⟩
  · intro ha
    rw [hlive] at ha
    cases ha

/-- The checkout is deactivated, and nothing else. -/
theorem updateCheckoutActiveness_plays (csId : ℕ) (hl : l.writes = []) :
    Plays (o := providerCalls) answers i₀ (fun _ d' v' _ => v' = v ∧ ∀ t, t ≠ .checkoutSession → d' t = d t)
      (updateCheckoutActiveness csId) d v l := by
  have hacts : (updateCheckoutActiveness csId).Acts fun a =>
      a.Confined (fun u : Write shop => u.tbl = Table.checkoutSession) ∧ a.Mute providerCalls :=
    .bind (.call ⟨fun _ _ => rfl, trivial⟩) fun _ => .call ⟨trivial, trivial⟩
  apply (Plays.confined hacts (by simp [hl])).mono
  rintro r d' v' l' ⟨hv, hsame⟩
  exact ⟨hv, fun t ht => hsame t fun u hu => hu ▸ ht.symm⟩

theorem Accounted.later {base : ℕ} {d' : Db} (h : Accounted outs d₀ base d v)
    (hpay : d' .payment = d .payment) (hatt : d' .paymentAttempt = d .paymentAttempt) :
    Accounted outs d₀ base d' v := by
  have hget : ∀ i, d'.get .payment i = d.get .payment i := fun i => by rw [Store.get, hpay, Store.get]
  have hlog : ∀ k, attemptLog d' k = attemptLog d k := fun k => by rw [attemptLog, hatt, attemptLog]
  refine h.imp id fun hcalls => ?_
  obtain ⟨k, calls, hv, hpos, hs⟩ := hcalls
  refine ⟨k, calls, hv, hpos, ⟨hs.new.fresh, ?_, fun i hi => ?_⟩, ?_, ?_⟩
  · rw [hget]
    exact hs.new.row
  · rw [hget]
    exact hs.new.others i hi
  · rw [hlog]
    exact hs.kept
  · rw [hlog]
    exact hs.lost

theorem confirmOrder_plays (lib : Lib) (req : ConfirmRequest) (csId : ℕ) (items : List SnapshotItem)
    (method : PaymentMethod) (ikId : ℕ) {base : ℕ} (h : Before d₀ d l) (hd₀ : d₀.Wf) (href : AttemptsOfPayments d₀) :
    Plays (o := providerCalls) (providerAnswers outs base) i₀ (fun _ d' v' _ => Accounted outs d₀ base d' v')
      (confirmOrder lib req csId items method ikId) d base l := by
  apply Plays.bind
  apply (placeOrderWithItems_plays lib _ _ _ _ h).mono
  rintro r d₁ v₁ l₁ ⟨rfl, hresp⟩
  cases r with
  | error e => exact .inl rfl
  | ok resp =>
    have hplaced := hresp resp rfl
    apply Plays.bind
    apply Plays.commit
    · intro _
      dsimp only
      split
      · rename_i pub hpub
        rw [hpub] at hplaced
        obtain ⟨m, hm⟩ := hplaced
        apply Plays.bind
        apply (createPaymentIntent_plays lib _ _ _ hm hd₀ href rfl rfl).mono
        rintro r d₂ v₂ l₂ ⟨hacc, hwrites⟩
        cases r with
        | error e => exact hacc
        | ok body =>
          apply Plays.bind
          apply (updateCheckoutActiveness_plays csId (hwrites body rfl)).mono
          rintro r d₃ v₃ l₃ ⟨rfl, hsame⟩
          have hacc' := hacc.later (hsame .payment (by decide)) (hsame .paymentAttempt (by decide))
          cases r with
          | error e => exact hacc'
          | ok _ => exact Plays.pure hacc'
      · apply Plays.bind
        cases resp.toJson with
        | error e => exact Plays.raise (.inl rfl)
        | ok j =>
          apply Plays.pure
          exact Plays.pure (.inl rfl)
    · exact fun _ => .inl rfl

theorem confirmUnanswered_plays (lib : Lib) (req : ConfirmRequest) (csId : ℕ) (items : List SnapshotItem)
    (method : PaymentMethod) {base : ℕ} (h : Before d₀ d l) (hd₀ : d₀.Wf) (href : AttemptsOfPayments d₀) :
    Plays (o := providerCalls) (providerAnswers outs base) i₀ (fun _ d' v' _ => Accounted outs d₀ base d' v')
      (confirmUnanswered lib req csId items method) d base l := by
  apply plays_bind_calm (recordOrderIdempotency_calm _ _ _) h _ fun _ _ _ _ => .inl rfl
  intro o d₁ l₁ h₁
  cases o with
  | some ikId => exact confirmOrder_plays lib req csId items method ikId h₁ hd₀ href
  | none =>
    apply plays_bind_calm (sleep_calm 5) h₁ _ fun _ _ _ _ => .inl rfl
    intro _ d₂ l₂ h₂
    apply plays_bind_calm (spcByIkey_calm _ _) h₂ _ fun _ _ _ _ => .inl rfl
    intro found d₃ l₃ h₃
    cases found with
    | none => exact Plays.raise (.inl rfl)
    | some r =>
      dsimp only
      split
      · exact Plays.pure (.inl rfl)
      · exact confirmOrder_plays lib req csId items method r.ikId h₃ hd₀ href

theorem placeOrder_plays (lib : Lib) (req : ConfirmRequest) {base : ℕ} (hd₀ : d₀.Wf) (href : AttemptsOfPayments d₀) :
    Plays (o := providerCalls) (providerAnswers outs base) i₀ (fun _ d' v' _ => Accounted outs d₀ base d' v')
      (placeOrder lib req) d₀ base {} := by
  unfold placeOrder
  split
  · exact Plays.raise (.inl rfl)
  · apply plays_bind_calm (validate_calm _ _) ⟨.refl _ _, .refl _ _⟩ _ fun _ _ _ _ => .inl rfl
    rintro ⟨csId, items, method⟩ d₁ l₁ h₁
    have hlock : (Prog.call (.tryLock (idempotencyLockKey lib req.idempotencyKey) : ShopAction)).Acts Calm :=
      .call ⟨trivial, trivial⟩
    apply plays_bind_calm hlock h₁ _ fun _ _ _ _ => .inl rfl
    intro _ d₂ l₂ h₂
    apply plays_bind_calm (spcByIkey_calm _ _) h₂ _ fun _ _ _ _ => .inl rfl
    intro found d₃ l₃ h₃
    cases found with
    | none => exact confirmUnanswered_plays lib req csId items method h₃ hd₀ href
    | some r =>
      dsimp only
      split
      · exact Plays.raise (.inl rfl)
      · split
        · exact Plays.pure (.inl rfl)
        · exact confirmUnanswered_plays lib req csId items method h₃ hd₀ href

end Settling

/-- Only request `i₀` runs, statements take place, and an answer of the provider passes the test. -/
def passes (test : ℕ → HostChoice → Bool) (sh : Shared shop shopHost) : ShopAction → Choice shopHost → Bool
  | _, .fault => false
  | .host (.createPspOrder _), .host c => test sh.host.pspCalls.length c
  | _, _ => true

def Guard.tested (test : ℕ → HostChoice → Bool) (i₀ : Fin n) : Guard shop shopHost n :=
  fun i sh _ a c => i = i₀ ∧ passes test sh a c = true

instance (test : ℕ → HostChoice → Bool) (i₀ i : Fin n) (sh : Shared shop shopHost) (l : Txn shop)
    (a : ShopAction) (c : Choice shopHost) : Decidable (Guard.tested test i₀ i sh l a c) :=
  inferInstanceAs (Decidable (_ ∧ _))

/-- A test that accepts the answers of the script only. -/
theorem Guard.tested.scripted {test : ℕ → HostChoice → Bool} {outs : ℕ → HostChoice} {base : ℕ}
    (htest : ∀ calls c, test calls c = true → c = outs (calls - base)) {i₀ i : Fin n} {sh : Shared shop shopHost}
    {l : Txn shop} {a : ShopAction} {c : Choice shopHost} (h : Guard.tested test i₀ i sh l a c) :
    Guard.scripted providerCalls (providerAnswers outs base) i₀ i sh l a c := by
  obtain ⟨hi, hpass⟩ := h
  refine ⟨hi, ?_⟩
  cases c with
  | fault => cases a <;> cases hpass
  | go => cases a <;> trivial
  | host c =>
    cases a with
    | host a =>
      cases a with
      | createPspOrder req => exact htest _ _ hpass
      | _ => trivial
    | _ => trivial

/-- The provider refuses every order. -/
def refusing : ℕ → HostChoice := fun _ => .fails (.httpStatus (some 400) "refused")

def isRefusal (_ : ℕ) : HostChoice → Bool
  | .fails (.httpStatus (some 400) "refused") => true
  | _ => false

theorem refusing_of_isRefusal (calls : ℕ) (c : HostChoice) (h : isRefusal calls c = true) :
    c = refusing (calls - 0) := by
  unfold isRefusal at h
  split at h
  · rfl
  · cases h

/-- The first call times out, the second creates the order. -/
def oneTimeout : ℕ → HostChoice
  | 0 => .fails (.transient "timeout")
  | _ => .response [("id", .str "order_1")]

def isOneTimeout : ℕ → HostChoice → Bool
  | 0, .fails (.transient "timeout") => true
  | _ + 1, .response [("id", .str "order_1")] => true
  | _, _ => false

theorem oneTimeout_of_test (calls : ℕ) (c : HostChoice) (h : isOneTimeout calls c = true) :
    c = oneTimeout (calls - 0) := by
  unfold isOneTimeout at h
  split at h
  · rfl
  · rfl
  · cases h

def timeoutThenOrder : List (Label shopHost 1) :=
  ordering 0 ++ .replicate 2 (.proc 0 .go) ++
    [.proc 0 (.host (.fails (.transient "timeout"))), .proc 0 .go, .proc 0 (.host .proceed), .proc 0 .go,
      .proc 0 (.host (.response [("id", .str "order_1")]))] ++ .replicate 7 (.proc 0 .go)

end Phyllonix
