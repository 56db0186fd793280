import Phyllonix.ConfirmRequests

/-!
# What a secure-confirm request answers

After the commit of order and record the payment provider is asked. The record
gets the provider's answer, and nothing else changes it: a request that answers
200 hands out a stored response, and after a failure of the provider the record
has none.
-/

namespace Phyllonix
open Relational
variable {n : ℕ}

/-- The body is the stored response `b`, or holds it among the data of a replay. -/
def Carries (reply : Reply) (b : Json) : Prop :=
  reply.body = b ∨ ∃ r : OrderDataByIk, r.responseBody = some b ∧ reply.body = buildSuccess r.toJson

structure Answered (req : ConfirmRequest) (d : Db) (reply : Reply) : Prop where
  status : reply.status = 200
  stored : ∃ k b, Found req d k ∧ k.responseBody = some b ∧ Carries reply b

/-- The request committed a record, and the record has no response. -/
def Unpaid (i : Fin n) (req : ConfirmRequest) (d : Db) (x : ℕ → Option (Fin n)) : Prop :=
  ∃ k, Found req d k ∧ x k.id = some i ∧ k.responseBody = none

section Answers
variable {lib : Lib} {reqs : Fin n → ConfirmRequest} {strict : Prop} {d₀ : Db}
variable {G : Guard shop shopHost n} {i : Fin n}
variable {sh : Shared shop shopHost} {x : ℕ → Option (Fin n)} {l : Txn shop}
variable {items : List SnapshotItem} {m : PaymentMethod} {k : IdempotencyKey} {csId : ℕ}

/-- When the provider is the reason of an exception, the record has no response. -/
def orUnpaid (i : Fin n) {α : Type}
    (Q : α → Shared shop shopHost → (ℕ → Option (Fin n)) → Txn shop → Prop) :
    Post (confirmProtocol lib reqs strict d₀) α
  | .ok a, sh, x, l => Q a sh x l
  | .error e, sh, x, _ => PspFailed e → Unpaid i (reqs i) sh.db x

section Bind
variable {α β : Type} {Q : α → Shared shop shopHost → (ℕ → Option (Fin n)) → Txn shop → Prop}
variable {R : β → Shared shop shopHost → (ℕ → Option (Fin n)) → Txn shop → Prop}

theorem orUnpaid_onError :
    OnError (P := confirmProtocol lib reqs strict d₀) (orUnpaid i Q) i sh x l :=
  fun _ _ _ e _ _ hp => absurd hp (not_pspFailed e)

theorem orUnpaid_bind {p : Py α} {f : α → Py β}
    (hp : Safe (confirmProtocol lib reqs strict d₀) G i (orUnpaid i Q) p sh x l)
    (hf : ∀ a sh x l, Q a sh x l →
      Safe (confirmProtocol lib reqs strict d₀) G i (orUnpaid i R) (f a) sh x l) :
    Safe (confirmProtocol lib reqs strict d₀) G i (orUnpaid i R) (p >>= f) sh x l := by
  refine Safe.bind (hp.mono fun r sh x l hr => ?_)
  cases r with
  | ok a => exact hf a sh x l hr
  | error e => exact hr

/-- A part of the request that does not ask the provider. -/
theorem safe_beforePsp {p : Py α} {f : α → Py β}
    (hp : Safe (confirmProtocol lib reqs strict d₀) G i (beforePsp Q) p sh x l)
    (hf : ∀ a sh x l, Q a sh x l →
      Safe (confirmProtocol lib reqs strict d₀) G i (orUnpaid i R) (f a) sh x l) :
    Safe (confirmProtocol lib reqs strict d₀) G i (orUnpaid i R) (p >>= f) sh x l := by
  refine orUnpaid_bind (hp.mono fun r sh x l hr => ?_) hf
  cases r with
  | ok a => exact hr
  | error e => exact fun hpsp => absurd hpsp hr

end Bind

/-! ## Attempts -/

/-- The record `k` is committed, and only payment attempts are pending. -/
structure Paying (i : Fin n) (k : IdempotencyKey) (d : Db) (x : ℕ → Option (Fin n)) (l : Txn shop) :
    Prop where
  mine : Mine i [k] d x
  attempts : ∀ w ∈ l.writes, w.tbl = Table.paymentAttempt

theorem Paying.seen (h : Paying i k sh.db x l) {w : World shop shopHost} {y : ℕ → Option (Fin n)}
    (hs : Seen (confirmProtocol lib reqs strict d₀) i l sh x w y) : Paying i k w.db y l :=
  ⟨h.mine.seen hs, h.attempts⟩

theorem recordPaymentAttempt_safe (payId no st : ℕ) (h : Paying i k sh.db x l) :
    Safe (confirmProtocol lib reqs strict d₀) G i (beforePsp fun _ sh x l' => Paying i k sh.db x l')
      (recordPaymentAttempt payId no st) sh x l := by
  refine Safe.bind (safe_insert (fun w y hs m _ _ => Safe.pure ⟨h.mine.seen hs, fun v hv => ?_⟩)
    (beforePsp_onError _))
  rcases List.mem_cons.mp hv with rfl | hv
  · rfl
  · exact h.attempts v hv

/-- The answer of an attempt is noted, unless the transaction has failed. -/
theorem safe_noteAttempt {α : Type} (attemptId st : ℕ) (resp : Json) {f : Unit → Py α}
    {Q : Post (confirmProtocol lib reqs strict d₀) α}
    (h : Paying i k sh.db x l ∨ l.aborted = true)
    (hok : ∀ sh x l, Paying i k sh.db x l →
      Safe (confirmProtocol lib reqs strict d₀) G i Q (f ()) sh x l) (herr : OnError Q i sh x l) :
    Safe (confirmProtocol lib reqs strict d₀) G i Q
      (updatePaymentAttemptResp attemptId st resp >>= f) sh x l := by
  rcases h with h | h
  · refine Safe.bind (Safe.bind (Safe.update (fun w y hs l' hu => ?_) fun _ => herr))
    refine Safe.pure (hok _ _ _ ⟨h.mine.seen hs, fun v hv => ?_⟩)
    rw [hu.writes] at hv
    rcases List.mem_append.mp hv with hv | hv
    · obtain ⟨a, -, rfl⟩ := List.mem_map.mp (List.mem_reverse.mp hv)
      rfl
    · exact h.attempts v hv
  · exact Safe.bind (Safe.bind (Safe.of_aborted rfl h herr))

theorem callPsp_safe (req : PspRequest) (attemptId st : ℕ) (h : Paying i k sh.db x l) :
    Safe (confirmProtocol lib reqs strict d₀) G i (fun r sh x l => match r with
        | .ok _ => Paying i k sh.db x l
        | .error _ => Paying i k sh.db x l ∨ l.aborted = true) (do
          let resp ← createPspOrder req
          updatePaymentAttemptResp attemptId st (.obj resp)
          pure resp) sh x l := by
  refine Safe.bind (safe_hostCall (confirm_quiet lib reqs strict d₀) fun w y hs c r s _ _ => ?_)
  have hpaying : Paying i k (⟨w.db, s⟩ : Shared shop shopHost).db y l := h.seen hs
  cases r with
  | error e => exact .inl hpaying
  | ok resp =>
    refine safe_noteAttempt _ _ _ (.inl hpaying) (fun sh x l hp => Safe.pure hp) ?_
    exact fun _ _ _ e _ hl => .inr hl.aborted

/-- The loop around the provider: whatever the provider answers, the record is as it was. -/
theorem retryWrapper_safe (req : PspRequest) (payId max : ℕ) (base : Rat) {attempts : List ℕ}
    {exc : Option (Exn AppErr)} (h : Paying i k sh.db x l) :
    Safe (confirmProtocol lib reqs strict d₀) G i (beforePsp fun _ sh x l' => Paying i k sh.db x l')
      (retryWrapper (createPspOrder req) payId max base attempts exc) sh x l := by
  induction attempts generalizing exc sh x l with
  | nil => exact Safe.pure h
  | cons idx rest ih =>
    refine Safe.bind ((recordPaymentAttempt_safe payId idx _ h).mono fun r sh x l hr => ?_)
    cases r with
    | error e => exact hr
    | ok attemptId =>
    have hnext : ∀ {sh x l st resp} {e : Exn AppErr}, (Paying i k sh.db x l ∨ l.aborted = true) →
        Safe (confirmProtocol lib reqs strict d₀) G i
          (beforePsp fun _ sh x l' => Paying i k sh.db x l') (do
            updatePaymentAttemptResp attemptId st resp
            sleep (min (base * 2 ^ (idx - 1)) 8)
            retryWrapper (createPspOrder req) payId max base rest (some e)) sh x l := by
      intro sh x l st resp e hp
      refine safe_noteAttempt _ _ _ hp (fun sh x l hp => ?_) (beforePsp_onError _)
      exact Safe.bind (safe_sleep (confirm_quiet lib reqs strict d₀) fun w y hs => ih (hp.seen hs))
    have hstop : ∀ {sh x l st resp} {res : PspResult}, (Paying i k sh.db x l ∨ l.aborted = true) →
        Safe (confirmProtocol lib reqs strict d₀) G i
          (beforePsp fun _ sh x l' => Paying i k sh.db x l') (do
            updatePaymentAttemptResp attemptId st resp
            pure res) sh x l := by
      intro sh x l st resp res hp
      exact safe_noteAttempt _ _ _ hp (fun sh x l hp => Safe.pure hp) (beforePsp_onError _)
    refine Safe.bind (Safe.attempt ((callPsp_safe req attemptId _ hr).mono fun r sh x l hr => ?_))
    simp only
    split
    · exact Safe.pure hr
    · exact hnext hr
    · split
      · exact hnext hr
      · exact hstop hr
    · exact hstop hr

/-! ## Storing the response -/

/-- The key of the request is that of its own record, which was made for its checkout. -/
structure Owned (d₀ : Db) (req : ConfirmRequest) (k : IdempotencyKey) : Prop where
  key : k.key = req.idempotencyKey
  user : k.createdBy = req.userIdentifier
  unanswered : k.responseBody = none
  chosen : ∃ items m, Chosen d₀ k.csId req.userIdentifier items m req.checkoutId

theorem Owned.unpaid (h : Owned d₀ (reqs i) k) {d : Db} (hmine : Mine i [k] d x) :
    Unpaid i (reqs i) d x := by
  obtain ⟨hx, hget⟩ := hmine k List.mem_cons_self
  exact ⟨k, ⟨hget, h.key, h.user⟩, hx, h.unanswered⟩

theorem key_unique {d : Db} (hd : d.Wf) {k k' : IdempotencyKey}
    (hk : d.get .idempotencyKey k.id = some k) (hk' : k' ∈ d .idempotencyKey) (h : k'.key = k.key) :
    k' = k := by
  have hkeys : IndexKey.key k.key ∈ rowKeys (t := .idempotencyKey) k' :=
    List.mem_singleton.mpr (congrArg _ h.symm)
  exact hd.eq_of_key hk' (Store.mem_of_get hk) hkeys (List.mem_singleton.mpr rfl)

theorem Owned.ownKey (h : Owned d₀ (reqs i) k) {d : Db} (hd : d.Wf)
    (hk : d.get .idempotencyKey k.id = some k) : OwnKey d₀ (reqs i) d := by
  intro id k' hk' hkey
  obtain rfl := key_unique hd hk (Store.mem_of_get hk') (hkey.trans h.key.symm)
  obtain ⟨items, m, hchosen⟩ := h.chosen
  exact ⟨items, m, hchosen, h.user⟩

theorem eq_singleton {α : Type} {rows : List α} (hnd : rows.Nodup) {a : α} (ha : a ∈ rows)
    (h : ∀ b ∈ rows, b = a) : rows = [a] := by
  match rows with
  | [] => cases ha
  | [b] => rw [h b List.mem_cons_self]
  | b :: c :: rest =>
    have hbc : b = c := (h b (by simp)).trans (h c (by simp)).symm
    simp [hbc] at hnd

/-- The pending writes set the record `k'` and rows of payments. -/
structure Settles (k' : IdempotencyKey) (l : Txn shop) : Prop where
  writes : ∃ ws, l.writes = ⟨.idempotencyKey, k'⟩ :: ws ∧
    ∀ w ∈ ws, w.tbl = Table.payment ∨ w.tbl = Table.paymentAttempt

theorem Settles.view {k' : IdempotencyKey} (h : Settles k' l) (d : Db) {t : Table}
    (hp : t ≠ .payment) (ha : t ≠ .paymentAttempt) (hk : t ≠ .idempotencyKey) :
    l.view d t = d t := by
  obtain ⟨ws, hw, hws⟩ := h.writes
  refine applyWrites_of_untouched fun w hmem => ?_
  rw [hw] at hmem
  rcases List.mem_cons.mp hmem with rfl | hmem
  · exact hk.symm
  · rcases hws w hmem with ht | ht <;> rw [ht]
    · exact hp.symm
    · exact ha.symm

theorem Settles.record {k' : IdempotencyKey} (h : Settles k' l) (d : Db) (id : ℕ) :
    (l.view d).get .idempotencyKey id =
      if id = k'.id then some k' else d.get .idempotencyKey id := by
  obtain ⟨ws, hw, hws⟩ := h.writes
  have hrest : applyWrites ws d .idempotencyKey = d .idempotencyKey :=
    applyWrites_of_untouched fun w hmem => by
      rcases hws w hmem with ht | ht <;> rw [ht] <;> exact nofun
  rw [Txn.view, hw, applyWrites]
  split
  · rename_i hid
    rw [hid]
    exact Store.get_put_self (S := shop) _ (.idempotencyKey) k'
  · rename_i hid
    rw [Store.get_put_of_ne (S := shop) _ (t := .idempotencyKey) k' fun he => hid he.2, Store.get,
      hrest]
    rfl

theorem Settles.late {k' : IdempotencyKey} (h : Settles k' l) {d : Db} (hd : d.Wf)
    (hmine : Mine i [k] d x) (howned : Owned d₀ (reqs i) k) (hid : k'.id = k.id)
    (hgrows : IkGrows k k') : Late (reqs i) d₀ i l d x := by
  obtain ⟨hx, hget⟩ := hmine k List.mem_cons_self
  have hother : ∀ id, id ≠ k.id → (l.view d).get .idempotencyKey id = d.get .idempotencyKey id := by
    intro id hne
    rw [h.record, if_neg (hid ▸ hne)]
  have hown : (l.view d).get .idempotencyKey k.id = some k' := by rw [h.record, hid, if_pos rfl]
  refine ⟨fun c => ?_, h.view d nofun nofun nofun, h.view d nofun nofun nofun, fun id k₁ hk₁ => ?_,
    fun id => ?_, fun id j hj hne => ?_, .inr (howned.ownKey hd hget)⟩
  · have hsame : l.view d .checkoutSession = d .checkoutSession := h.view d nofun nofun nofun
    rw [Store.get, hsame]
    rfl
  · by_cases hne : id = k.id
    · subst hne
      obtain rfl := Option.some.inj (hk₁.symm.trans hget)
      exact ⟨k', hown, hgrows⟩
    · exact ⟨k₁, (hother id hne).trans hk₁, .refl k₁⟩
  · by_cases hne : id = k.id
    · subst hne
      rw [hown, hget]
      rfl
    · rw [hother id hne]
  · refine hother id fun he => hne ?_
    rw [he, hx] at hj
    exact (Option.some.inj hj).symm

/-- The response is stored in the record of the request. -/
structure Stored (req : ConfirmRequest) (i : Fin n) (b : Json) (d : Db) (x : ℕ → Option (Fin n)) :
    Prop where
  record : ∃ k, Mine i [k] d x ∧ k.key = req.idempotencyKey ∧ k.createdBy = req.userIdentifier ∧
    k.responseBody = some b

theorem Stored.answered {b : Json} {d : Db} (h : Stored (reqs i) i b d x) :
    Answered (reqs i) d (jsonOk b) := by
  obtain ⟨k, hmine, hkey, huser, hb⟩ := h.record
  exact ⟨rfl, k, b, ⟨(hmine k List.mem_cons_self).2, hkey, huser⟩, hb, .inl rfl⟩

theorem storeResponse_safe (code : ℕ) (body : Json) (howned : Owned d₀ (reqs i) k)
    (hmine : Mine i [k] sh.db x)
    (hl : ∀ w ∈ l.writes, w.tbl = Table.payment ∨ w.tbl = Table.paymentAttempt) :
    Safe (confirmProtocol lib reqs strict d₀) G i (orUnpaid i fun b sh x l' =>
        Stored (reqs i) i b sh.db x ∧ l'.writes = []) (do
          updateIdempotentResponse (reqs i).idempotencyKey code body
          commit
          pure body) sh x l := by
  refine Safe.bind (Safe.bind (Safe.update (fun w y hs l' hu => ?_) fun _ => orUnpaid_onError))
  have hmine₁ : Mine i [k] w.db y := hmine.seen hs
  obtain ⟨-, hget⟩ := hmine₁ k List.mem_cons_self
  have hview : l.view w.db .idempotencyKey = w.db .idempotencyKey :=
    applyWrites_of_untouched fun v hv => by
      rcases hl v hv with ht | ht <;> rw [ht] <;> exact nofun
  have hrows : (l.view w.db .idempotencyKey).filter
      (fun r : IdempotencyKey => decide (r.key = (reqs i).idempotencyKey)) = [k] := by
    rw [hview]
    refine eq_singleton ((hs.world.wf.ids .idempotencyKey).of_map.filter _) ?_ fun r hr => ?_
    · exact List.mem_filter.mpr ⟨Store.mem_of_get hget, by simp [howned.key]⟩
    · obtain ⟨hmem, hkey⟩ := List.mem_filter.mp hr
      exact key_unique hs.world.wf hget hmem ((of_decide_eq_true hkey).trans howned.key.symm)
  rw [hrows] at hu
  have hw := hu.writes
  simp only [updateWrites, List.map_cons, List.map_nil, List.reverse_singleton,
    List.singleton_append] at hw
  have hset : ∃ k', l'.writes = ⟨.idempotencyKey, k'⟩ :: l.writes ∧ k'.id = k.id ∧ IkGrows k k' ∧
      k'.responseBody = some body := by
    refine ⟨_, hw, rfl, ⟨rfl, rfl, rfl, rfl, fun hk => ?_⟩, rfl⟩
    rw [howned.unanswered] at hk
    cases hk
  obtain ⟨k', hwrites, hid, hgrows, hbody⟩ := hset
  have hsettles : Settles k' l' := ⟨_, hwrites, hl⟩
  refine Safe.pure (Safe.bind (safe_lateCommit (fun w₁ y₁ hs₁ => ?_) orUnpaid_onError))
  have hmine₂ := hmine₁.seen hs₁
  refine ⟨hsettles.late hs₁.world.wf hmine₂ howned hid hgrows, Safe.pure ⟨⟨k', fun r hr => ?_,
    hgrows.key.trans howned.key, hgrows.createdBy.trans howned.user, hbody⟩, rfl⟩⟩
  obtain rfl := List.mem_singleton.mp hr
  refine ⟨?_, ?_⟩
  · rw [hid]
    exact (hmine₂ k List.mem_cons_self).1
  · rw [hsettles.record, if_pos rfl]

theorem settlePspResult_safe (orderData : OrderResponse) (payPublicId : UUID) (payId : ℕ)
    (res : PspResult) (howned : Owned d₀ (reqs i) k) (h : Paying i k sh.db x l) :
    Safe (confirmProtocol lib reqs strict d₀) G i (orUnpaid i fun body sh x l' =>
        Stored (reqs i) i body sh.db x ∧ l'.writes = [])
      (settlePspResult lib (reqs i).idempotencyKey orderData payPublicId payId res) sh x l := by
  have hunpaid : Unpaid i (reqs i) sh.db x := howned.unpaid h.mine
  rw [settlePspResult]
  split
  · exact Safe.raise fun _ => hunpaid
  · exact Safe.raise fun _ => hunpaid
  · exact Safe.raise fun _ => hunpaid
  · rename_i psp _
    split
    · refine safe_beforePsp (recordPaymentAttempt_safe payId _ _ h) fun _ sh x l hp => ?_
      exact Safe.raise fun _ => howned.unpaid hp.mine
    · refine Safe.bind (Safe.bind (safe_ofApp (fun poid _ => ?_) fun _ _ => hunpaid))
      refine Safe.bind (Safe.update (fun w y hs l' hu => ?_) fun _ => orUnpaid_onError)
      have hl : ∀ v ∈ l'.writes, v.tbl = Table.payment ∨ v.tbl = Table.paymentAttempt := by
        intro v hv
        rw [hu.writes] at hv
        rcases List.mem_append.mp hv with hv | hv
        · obtain ⟨a, -, rfl⟩ := List.mem_map.mp (List.mem_reverse.mp hv)
          exact .inl rfl
        · exact .inr (h.attempts v hv)
      exact Safe.pure (storeResponse_safe 200 _ howned (h.mine.seen hs) hl)

theorem createPaymentIntent_safe (totals : FinalTotal) (orderData : OrderResponse)
    (payPublicId : UUID) (howned : Owned d₀ (reqs i) k) (hmine : Mine i [k] sh.db x)
    (hl : l.writes = []) :
    Safe (confirmProtocol lib reqs strict d₀) G i (orUnpaid i fun body sh x l' =>
        Stored (reqs i) i body sh.db x ∧ l'.writes = [])
      (createPaymentIntent lib (reqs i).idempotencyKey totals orderData payPublicId) sh x l := by
  have hattempts : ∀ w ∈ l.writes, w.tbl = Table.paymentAttempt := by rw [hl]; exact nofun
  refine safe_beforePsp (Q := fun _ sh x l' => Paying i k sh.db x l') ?_ fun payId sh x l hp => ?_
  · refine Safe.bind (Safe.read (fun w y hs => ?_) fun _ => beforePsp_onError _)
    have hpaying : Paying i k w.db y l := ⟨hmine.seen hs, hattempts⟩
    exact Safe.bind (safe_oneOrNone (fun _ => Safe.pure hpaying) (fun _ _ => Safe.pure hpaying) id)
  · cases payId with
    | none => exact Safe.raise fun hpsp => absurd hpsp id
    | some payId =>
      refine safe_beforePsp (retryWrapper_safe _ payId _ _ hp) fun res sh x l hp' => ?_
      exact settlePspResult_safe _ _ payId res howned hp'

/-! ## The whole request -/

def confirmed (lib : Lib) (reqs : Fin n → ConfirmRequest) (strict : Prop) (d₀ : Db) (i : Fin n) :
    Post (confirmProtocol lib reqs strict d₀) Reply :=
  orUnpaid i fun reply sh _ _ => Answered (reqs i) sh.db reply

theorem confirmOrder_safe (hrec : Recorded k sh.db l) (hnew : NewRecord (reqs i) csId k)
    (hheld : Holding strict (reqs i) csId sh.db l)
    (hchosen : Chosen d₀ csId (reqs i).userIdentifier items m (reqs i).checkoutId) :
    Safe (confirmProtocol lib reqs strict d₀) G i (confirmed lib reqs strict d₀ i)
      (confirmOrder lib (reqs i) csId items m k.id) sh x l := by
  refine safe_beforePsp (placeOrderWithItems_safe hrec hnew hheld) fun resp sh x l hr => ?_
  obtain ⟨hpay, k', o, its, hnew', hdraft, hheld', hcopies⟩ := hr
  refine Safe.bind (hdraft.safe_commit hnew' hheld' hchosen hcopies (fun w y hmine => ?_)
    orUnpaid_onError)
  have howned : Owned d₀ (reqs i) k' :=
    ⟨hnew'.key, hnew'.user, hnew'.unanswered, items, m, hnew'.checkout ▸ hchosen⟩
  cases hpub : resp.payPublicId with
  | none =>
    rw [hpub] at hpay
    cases hpay
  | some payPublicId =>
    refine orUnpaid_bind (createPaymentIntent_safe _ resp payPublicId howned hmine rfl)
      fun body sh x l hbody => ?_
    obtain ⟨⟨k'', hmine', hstored⟩, hl⟩ := hbody
    refine safe_beforePsp (updateCheckoutActiveness_confirm csId false hl hmine')
      fun _ sh x l hdone => ?_
    exact Safe.pure (Stored.answered ⟨k'', hdone.1, hstored⟩)

/-- The record of an earlier request has its order, so there is no second one. -/
theorem confirmOrder_stale_safe (hl : l.writes = []) (hfound : Found (reqs i) sh.db k) :
    Safe (confirmProtocol lib reqs strict d₀) G i (confirmed lib reqs strict d₀ i)
      (confirmOrder lib (reqs i) csId items m k.id) sh x l := by
  refine Safe.bind (Safe.bind (safe_uuid7 (confirm_quiet lib reqs strict d₀) fun w y hs u s hc => ?_))
  obtain ⟨k', hk', -⟩ := hs.rely.kept k.id k hfound.row
  refine Safe.bind (safe_insert (fun w₁ y₁ hs₁ o _ hfree => ?_) orUnpaid_onError)
  obtain ⟨k'', hk'', -⟩ := hs₁.rely.kept k.id k' hk'
  have hinv : ConfirmInv lib strict d₀ w₁.db y₁ := hs₁.inv
  obtain ⟨o', ho', hik⟩ := hinv.ordered k.id k'' hk''
  have hview : l.view w₁.db = w₁.db := Txn.view_of_no_writes hl _
  rw [hview] at hfree
  have hkey : IndexKey.ikId k.id ∈ rowKeys (t := .orders) o' := by simp [rowKeys, hik]
  exact absurd hkey (hfree o' ho' _ (by simp [rowKeys]))

theorem answered_of_read {d : Db} {r : OrderDataByIk} (hfound : Found (reqs i) d k)
    (hfrom : ReadFrom r k) (hr : r.responseBody.isSome) :
    Answered (reqs i) d (jsonOk (buildSuccess r.toJson)) := by
  obtain ⟨b, hb⟩ := Option.isSome_iff_exists.mp hr
  exact ⟨rfl, k, b, hfound, (hfrom.response hr).1.trans hb, .inr ⟨r, hb, rfl⟩⟩

theorem confirmUnanswered_safe (hready : Ready strict (reqs i) csId sh.db l)
    (hchosen : Chosen d₀ csId (reqs i).userIdentifier items m (reqs i).checkoutId) :
    Safe (confirmProtocol lib reqs strict d₀) G i (confirmed lib reqs strict d₀ i)
      (confirmUnanswered lib (reqs i) csId items m) sh x l := by
  refine safe_beforePsp (recordOrderIdempotency_safe hready) fun r sh x l hr => ?_
  cases r with
  | some ikId =>
    obtain ⟨k, rfl, hnew, hrec, hheld⟩ := hr
    exact confirmOrder_safe hrec hnew hheld hchosen
  | none =>
    refine Safe.bind (safe_sleep (confirm_quiet lib reqs strict d₀) fun w y hs => ?_)
    refine safe_beforePsp (spcByIkey_safe (Ready.seen hr hs)) fun o sh x l ho => ?_
    obtain ⟨hready', hread⟩ := ho
    cases o with
    | none => exact Safe.raise fun hpsp => absurd hpsp id
    | some d =>
      obtain ⟨k, hfound, hfrom⟩ := hread d rfl
      simp only
      split
      · rename_i hresp
        exact Safe.pure (answered_of_read hfound hfrom hresp)
      · rw [hfrom.ikId]
        exact confirmOrder_stale_safe hready'.nothing hfound

theorem not_pspFailed_text (s : String)
    (h : ¬"Payment attempts failed due to ".toList <+: s.toList) :
    ¬PspFailed (.app (.http 400 (.str s))) := h

theorem placeOrder_safe (hG : ChecksKey strict reqs G i) :
    Safe (confirmProtocol lib reqs strict d₀) G i (fun r sh x l =>
        confirmed lib reqs strict d₀ i r sh x l ∧ (r.isOk → (reqs i).idempotencyKey ≠ ""))
      (placeOrder lib (reqs i)) sh x {} := by
  rw [placeOrder]
  split
  · exact Safe.raise ⟨fun hpsp => absurd hpsp (not_pspFailed_text _ (by decide)), nofun⟩
  · rename_i hkey
    refine Safe.mono (fun _ _ _ _ hr => ⟨hr, fun _ => hkey⟩)
      (Q := confirmed lib reqs strict d₀ i) ?_
    refine safe_beforePsp (validate_safe hG) fun v sh x l hv => ?_
    obtain ⟨hready, hchosen⟩ := hv
    refine Safe.bind (Safe.tryLock (fun w y hs b l' hl' => ?_) orUnpaid_onError)
    have hready' : Ready strict (reqs i) v.1 w.db l' := by
      have hready₁ := hready.seen hs
      rcases hl' with rfl | rfl
      · exact hready₁
      · exact ⟨hready₁.toHolding.more fun y hy => List.mem_append_right _ hy, hready₁.nothing⟩
    refine safe_beforePsp (spcByIkey_safe hready') fun o sh x l ho => ?_
    obtain ⟨hready'', hread⟩ := ho
    cases o with
    | none => exact confirmUnanswered_safe hready'' hchosen
    | some d =>
      obtain ⟨k, hfound, hfrom⟩ := hread d rfl
      simp only
      split
      · exact Safe.raise fun hpsp => absurd hpsp (not_pspFailed_text _ (by decide))
      · split
        · rename_i hresp
          exact Safe.pure (answered_of_read hfound hfrom hresp)
        · exact confirmUnanswered_safe hready'' hchosen

/-- The postcondition of the request as a session. -/
def sessionConfirmed (lib : Lib) (reqs : Fin n → ConfirmRequest) (strict : Prop) (d₀ : Db) (i : Fin n) :
    Post (confirmProtocol lib reqs strict d₀) (Except (Exn AppErr) Reply)
  | .ok r, sh, x, l => confirmed lib reqs strict d₀ i r sh x l ∧
      (r.isOk → (reqs i).idempotencyKey ≠ "")
  | .error _, _, _, _ => True

theorem Found.seen {req : ConfirmRequest} {d d' : Db} (h : Found req d k) (hkept : IkKept d d') :
    ∃ k', Found req d' k' ∧ IkGrows k k' := by
  obtain ⟨k', hk', hgrows⟩ := hkept k.id k h.row
  have hid : k'.id = k.id := Store.id_of_get hk'
  exact ⟨k', ⟨by rwa [hid], hgrows.key.trans h.key, hgrows.createdBy.trans h.user⟩, hgrows⟩

/-- A response that was handed out stays stored. -/
theorem Answered.kept {req : ConfirmRequest} {d d' : Db} {reply : Reply} (h : Answered req d reply)
    (hkept : IkKept d d') : Answered req d' reply := by
  obtain ⟨k, b, hfound, hb, hcarries⟩ := h.stored
  obtain ⟨k', hfound', hgrows⟩ := hfound.seen hkept
  have hsome : k.responseBody.isSome := by rw [hb]; rfl
  exact ⟨h.status, k', b, hfound', (hgrows.response hsome).1.trans hb, hcarries⟩

/-- A record without response stays so when its request is over. -/
theorem Unpaid.seen (h : Unpaid i (reqs i) sh.db x) {w : World shop shopHost}
    {y : ℕ → Option (Fin n)} (hs : Seen (confirmProtocol lib reqs strict d₀) i l sh x w y) :
    Unpaid i (reqs i) w.db y := by
  obtain ⟨k, hfound, hx, hb⟩ := h
  obtain ⟨hy, hsame⟩ := hs.rely.own k.id hx
  exact ⟨k, ⟨hsame.trans hfound.row, hfound.key, hfound.user⟩, hy, hb⟩

theorem confirmed_seen {r : Except (Exn AppErr) Reply} {l' : Txn shop}
    (h : confirmed lib reqs strict d₀ i r sh x l) {w : World shop shopHost} {y : ℕ → Option (Fin n)}
    (hs : Seen (confirmProtocol lib reqs strict d₀) i l sh x w y) :
    confirmed lib reqs strict d₀ i r w.toShared y l' := by
  cases r with
  | ok reply => exact Answered.kept h hs.rely.kept
  | error e => exact fun hpsp => (h hpsp).seen hs

theorem confirmSession_safe (hG : ChecksKey strict reqs G i) :
    Safe (confirmProtocol lib reqs strict d₀) G i (sessionConfirmed lib reqs strict d₀ i)
      (placeOrder lib (reqs i)).session sh x {} :=
  Safe.session ((placeOrder_safe hG).mono fun _ _ _ _ hr _ _ hs => ⟨confirmed_seen hr.1 hs, hr.2⟩)

end Answers
end Phyllonix
