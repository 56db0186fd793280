import Phyllonix.ConfirmRuns
import Phyllonix.ShopPlays

/-!
# Replays of an answered request

A request that was answered is sent again and runs alone. The checkout is
validated before the stored response is looked up, so the response is handed out
when the checkout of the record is the request's and still open, and the request
is refused otherwise.
-/

namespace Phyllonix
open Relational
variable {n : ℕ} {C : HostAct → HostChoice → Prop}

/-- The checkout recorded with the key is the request's, active and not about to expire. -/
def ReplayOpen (req : ConfirmRequest) (sh : Shared shop shopHost) : Prop :=
  ∃ k c, Found req sh.db k ∧ sh.db.get .checkoutSession k.csId = some c ∧
    c.userId = req.userIdentifier ∧ c.publicId = req.checkoutId ∧ c.isActive = true ∧
    sh.host.clock + seconds 40 ≤ c.expiresAt

/-- The key of the request is not within its expiry margin. -/
def KeyFresh (req : ConfirmRequest) (sh : Shared shop shopHost) : Prop :=
  ∀ k, Found req sh.db k → ∃ e, k.expiresAt = some e ∧ sh.host.clock + seconds 40 ≤ e

/-- Sent again, the request is answered with the stored response and orders nothing. -/
def Replays (C : HostAct → HostChoice → Prop) (lib : Lib) (req : ConfirmRequest) (b : Json)
    (w : World shop shopHost) : Prop :=
  Ends C (fun r w' _ => (∃ reply, r = .ok (.ok reply) ∧ reply.status = 200 ∧ Carries reply b) ∧
    ∀ t ∈ [Table.orders, .orderItem, .payment, .paymentAttempt], w'.db t = w.db t)
    (placeOrder lib req).session w {}

/-- The record of an answered request. -/
structure Remembered (req : ConfirmRequest) (w : World shop shopHost) (k : IdempotencyKey)
    (b : Json) : Prop where
  found : Found req w.db k
  stored : k.responseBody = some b
  fresh : KeyFresh req w.toShared

section Plays
variable {req : ConfirmRequest} {w : World shop shopHost} {l : Txn shop} {k : IdempotencyKey}
variable {b : Json}

def IdempotencyKey.read (k : IdempotencyKey) : OrderDataByIk :=
  ⟨k.responseBody, k.responseCode, k.id, k.csId⟩

theorem spcByIkey_ends (hC : Ordinary C) (h : Remembered req w k b) (ha : l.aborted = false)
    (hl : l.writes = []) {Q : Outcomes shop shopHost (Option OrderDataByIk)}
    (hq : Q (.ok (some k.read)) w l) :
    Ends C Q (spcByIkey req.idempotencyKey req.userIdentifier) w l := by
  have hview : l.view w.db = w.db := Txn.view_of_no_writes hl _
  refine Ends.bind (Ends.read ha fun hw _ => ?_)
  have hrows : (w.db .idempotencyKey).filter (fun k : IdempotencyKey =>
      decide (k.key = req.idempotencyKey) && decide (k.createdBy = req.userIdentifier)) = [k] := by
    refine eq_singleton ((hw.wf.ids .idempotencyKey).of_map.filter _) ?_ fun r hr => ?_
    · refine List.mem_filter.mpr ⟨Store.mem_of_get h.found.row, ?_⟩
      simp [h.found.key, h.found.user]
    · obtain ⟨hmem, hp⟩ := List.mem_filter.mp hr
      simp only [Bool.and_eq_true, decide_eq_true_eq] at hp
      exact key_unique hw.wf h.found.row hmem (hp.1.trans h.found.key.symm)
  rw [hview, hrows]
  refine Ends.bind (Ends.pure (Ends.bind (ends_now hC ?_)))
  obtain ⟨e, he, hlate⟩ := h.fresh k h.found
  simp only [he]
  rw [if_neg (by omega)]
  exact Ends.pure hq

/-- The rows that the validation of a request selects. -/
def selectedCheckouts (req : ConfirmRequest) (d : Db) : List CheckoutSession :=
  (d .checkoutSession).filter fun c : CheckoutSession =>
    c.userId = req.userIdentifier && c.isActive && c.publicId = req.checkoutId

theorem mem_selectedCheckouts {d : Db} {c : CheckoutSession} :
    c ∈ selectedCheckouts req d ↔ c ∈ d .checkoutSession ∧ c.userId = req.userIdentifier ∧
      c.isActive = true ∧ c.publicId = req.checkoutId := by
  simp [selectedCheckouts, and_assoc]

theorem selectedCheckouts_one {d : Db} (hd : d.Wf) {c : CheckoutSession}
    (hc : c ∈ selectedCheckouts req d) : selectedCheckouts req d = [c] := by
  refine eq_singleton ((hd.ids .checkoutSession).of_map.filter _) hc fun c' hc' => ?_
  obtain ⟨hmem, -, -, hpub⟩ := mem_selectedCheckouts.mp hc
  obtain ⟨hmem', -, -, hpub'⟩ := mem_selectedCheckouts.mp hc'
  have hkey : IndexKey.publicId c'.publicId ∈ rowKeys (t := .checkoutSession) c := by
    simp [rowKeys, hpub, hpub']
  exact hd.eq_of_key hmem' hmem (by simp [rowKeys]) hkey

/-- The validation finds an open checkout with items. -/
theorem validate_ends (hC : Ordinary C) {c : CheckoutSession} {it : SnapshotItem}
    {items : List SnapshotItem} {m : PaymentMethod} (hc : c ∈ selectedCheckouts req w.db)
    (hopen : w.host.clock + seconds 40 ≤ c.expiresAt) (hm : c.selectedPaymentMethod = some m)
    (hitems : c.cartSnapshot = some (it :: items))
    {Q : Outcomes shop shopHost (ℕ × List SnapshotItem × PaymentMethod)}
    (hq : ∀ l, l.writes = [] → l.aborted = false → Q (.ok (c.id, it :: items, m)) w l) :
    Ends C Q (validateCheckoutGetItemsPaymethod req.checkoutId req.userIdentifier) w {} := by
  refine Ends.bind (Ends.lock rfl fun hw _ => ?_)
  have hrows := selectedCheckouts_one hw.wf hc
  rw [selectedCheckouts] at hrows
  have hview : ({} : Txn shop).view w.db = w.db := rfl
  rw [hview, hrows]
  refine Ends.bind (Ends.pure (Ends.bind (ends_now hC ?_)))
  simp only [hm, hitems, Option.getD_some]
  rw [if_neg (by omega)]
  exact Ends.pure (hq _ rfl rfl)

theorem updateCheckoutActiveness_ends (csId : ℕ) (ha : l.aborted = false) :
    Ends C (fun r _ _ => r = .ok ()) (updateCheckoutActiveness csId) w l := by
  have hkeys : ∀ c : CheckoutSession, rowKeys (t := .checkoutSession) { c with isActive := false } ⊆
      rowKeys (t := .checkoutSession) c := by
    intro c k hk
    simp only [rowKeys, Bool.false_eq_true, if_false] at hk
    exact List.mem_cons.mpr (.inl (List.mem_singleton.mp hk))
  refine Ends.bind (ends_updateOne ha hkeys (fun _ _ _ => ?_) fun _ _ c _ => ?_)
  · exact Ends.commit ha fun _ _ => rfl
  · exact Ends.commit ha fun _ _ => rfl

/-- A validation that does not raise found an open checkout. -/
theorem validate_opens (hC : Ordinary C) :
    Ends C (fun r w' l => r.isOk → ∃ c ∈ selectedCheckouts req w.db,
        w.host.clock + seconds 40 ≤ c.expiresAt ∧ r.map Prod.fst = .ok c.id ∧ w' = w ∧
        l.writes = [] ∧ l.aborted = false)
      (validateCheckoutGetItemsPaymethod req.checkoutId req.userIdentifier) w {} := by
  refine Ends.bind (Ends.lock rfl fun hw _ => ?_)
  have hview : ({} : Txn shop).view w.db = w.db := rfl
  rw [hview]
  change Ends C _ (oneOrNone (selectedCheckouts req w.db) >>= _) _ _
  cases hrows : selectedCheckouts req w.db with
  | nil => exact Ends.bind (Ends.pure (Ends.raise nofun))
  | cons c rest =>
    have hc : c ∈ selectedCheckouts req w.db := hrows ▸ List.mem_cons_self
    have hone := selectedCheckouts_one hw.wf hc
    rw [hone] at hrows
    obtain rfl : rest = [] := (List.cons.inj hrows).2.symm
    refine Ends.bind (Ends.pure (Ends.bind (ends_now hC ?_)))
    simp only
    split
    · refine Ends.bind ((updateCheckoutActiveness_ends c.id rfl).mono fun r w l _ _ hr => ?_)
      subst hr
      exact Ends.raise nofun
    · rename_i hlate
      split
      · exact Ends.raise nofun
      · split
        · exact Ends.raise nofun
        · exact Ends.pure fun _ => ⟨c, List.mem_cons_self, by omega, rfl, rfl, rfl, rfl⟩

/-! ## Exactly when the replay is answered -/

theorem replays_of_open (hC : Ordinary C) (lib : Lib) (h : Remembered req w k b)
    (hkey : req.idempotencyKey ≠ "") {c : CheckoutSession} {it : SnapshotItem}
    {items : List SnapshotItem} {m : PaymentMethod} (hc : c ∈ selectedCheckouts req w.db)
    (hid : k.csId = c.id) (hopen : w.host.clock + seconds 40 ≤ c.expiresAt)
    (hm : c.selectedPaymentMethod = some m) (hitems : c.cartSnapshot = some (it :: items)) :
    Replays C lib req b w := by
  refine Ends.session (Ends.of_ok fun _ _ => ?_)
  rw [placeOrder, if_neg hkey]
  refine Ends.bind (validate_ends hC hc hopen hm hitems fun l hl ha => ?_)
  refine Ends.bind (Ends.tryLock ha fun _ _ => Ends.bind
    (spcByIkey_ends (l := l.acquire _) hC h ha hl ?_))
  have hresp : k.read.responseBody = some b := h.stored
  have hsame : k.read.csId = c.id := hid
  simp only [hresp, hsame, Option.isSome_some, if_true, ne_eq, not_true_eq_false, if_false]
  exact Ends.pure ⟨⟨_, rfl, rfl, .inr ⟨k.read, hresp, rfl⟩⟩, fun _ _ => rfl⟩

theorem refused_of_closed (hC : Ordinary C) (lib : Lib) (h : Remembered req w k b)
    (hclosed : ¬ReplayOpen req w.toShared) :
    Ends C (fun r _ _ => ∃ e, r = .ok (.error e)) (placeOrder lib req).session w {} := by
  refine Ends.session (Ends.of_ok fun _ _ => ?_)
  rw [placeOrder]
  split
  · exact Ends.raise ⟨_, rfl⟩
  · refine Ends.bind ((validate_opens hC).mono fun r w' l hw' _ hr => ?_)
    cases r with
    | error e => exact ⟨e, rfl⟩
    | ok v =>
      obtain ⟨c, hc, hopen, hv, rfl, hl, ha⟩ := hr rfl
      have hvc : v.1 = c.id := Except.ok.inj hv
      obtain ⟨hmem, huser, hactive, hpub⟩ := mem_selectedCheckouts.mp hc
      have hne : k.csId ≠ c.id := by
        intro hid
        have hget : w'.db.get .checkoutSession c.id = some c := Store.get_of_mem hw'.wf.ids hmem
        exact hclosed ⟨k, c, h.found, hid ▸ hget, huser, hpub, hactive, hopen⟩
      refine Ends.bind (Ends.tryLock ha fun _ _ => Ends.bind
        (spcByIkey_ends (l := l.acquire _) hC h ha hl ?_))
      have hother : k.read.csId ≠ v.1 := by
        rw [hvc]
        exact hne
      simp only [hother, ne_eq, not_false_eq_true, if_true]
      exact Ends.raise ⟨_, rfl⟩

end Plays

/-- An answered request is answered again, with the same response data, exactly when the
checkout of its key is still open. -/
theorem replay_iff_open (lib : Lib) (reqs : Fin n → ConfirmRequest) (hC : Ordinary C)
    {w : World shop shopHost} (hw : w.Ok) (h₀ : NoOrders w.db)
    {s : Sys shop shopHost n (Except (Exn AppErr) Reply)}
    (hrun : Sys.Reach (confirmRequests lib reqs w) s) {i : Fin n} {reply : Reply}
    (hreply : s.outcome i = some (.ok reply)) (hfresh : KeyFresh (reqs i) s.world.toShared) :
    ∃ b, Carries reply b ∧
      (Replays C lib (reqs i) b s.world ↔ ReplayOpen (reqs i) s.world.toShared) := by
  obtain ⟨x, hx⟩ := Sys.Run.history hrun (recorders n) fun _ => none
  have hs := confirm_inv hw h₀ (fun i => checksKey_false _ i) hx
  obtain ⟨sh, y, hsafe, hseen⟩ := hs.seen i
  rw [Sys.prog_of_outcome hreply] at hsafe
  have hanswered : Answered (reqs i) s.world.db reply := Answered.kept hsafe.1 hseen.rely.kept
  have hkey : (reqs i).idempotencyKey ≠ "" := hsafe.2 rfl
  obtain ⟨k, b, hfound, hb, hcarries⟩ := hanswered.stored
  have hrem : Remembered (reqs i) s.world k b := ⟨hfound, hb, hfresh⟩
  refine ⟨b, hcarries, fun hreplays => ?_, fun hopen => ?_⟩
  · by_contra hclosed
    obtain ⟨r, w', l', ⟨⟨_, hr, -⟩, -⟩, e, he⟩ := Ends.meet hs.ok.world
      (Txn.ok_of_no_writes hs.ok.world.wf rfl) hreplays (refused_of_closed hC lib hrem hclosed)
    rw [hr] at he
    cases he
  · obtain ⟨k', c, hfound', hc, huser, hpub, hactive, hlate⟩ := hopen
    obtain rfl := key_unique hs.ok.world.wf hfound.row (Store.mem_of_get hfound'.row)
      (hfound'.key.trans hfound.key.symm)
    have hid : c.id = k'.csId := Store.id_of_get hc
    obtain ⟨o, ho, hik⟩ := hs.inv.ordered k'.id k' hfound.row
    obtain ⟨k₁, hk₁, hbuilt⟩ := hs.inv.built o ho
    rw [hik, hfound.row] at hk₁
    obtain rfl := Option.some.inj hk₁
    obtain ⟨items, m, pub, hchosen, -⟩ := hbuilt.checkout
    obtain ⟨c₁, hc₁, -, -, hsnap, hpay⟩ := hchosen.row_now hs.inv
    obtain rfl := Option.some.inj (hc.symm.trans hc₁)
    have hsel : c ∈ selectedCheckouts (reqs i) s.world.db :=
      mem_selectedCheckouts.mpr ⟨Store.mem_of_get hc, huser, hactive, hpub⟩
    cases items with
    | nil => exact absurd rfl hchosen.nonempty
    | cons it items => exact replays_of_open hC lib hrem hkey hsel hid.symm hlate hpay hsnap

/-- The provider accepts the order, and the response is stored. -/
def payment (i : Fin n) : List (Label shopHost n) :=
  .replicate 2 (.proc i .go) ++ [.proc i (.host (.response [("id", .str "order1")]))] ++
    .replicate 4 (.proc i .go)

def isReply : Option (Except (Exn AppErr) Reply) → Bool
  | some (.ok _) => true
  | _ => false

theorem reply_of_isReply {o : Option (Except (Exn AppErr) Reply)} (h : isReply o = true) :
    ∃ reply, o = some (.ok reply) := by
  unfold isReply at h
  split at h
  · exact ⟨_, rfl⟩
  · cases h

theorem keyFresh_of_expiry {req : ConfirmRequest} {sh : Shared shop shopHost} {e : ℕ}
    (h : (sh.db .idempotencyKey).map IdempotencyKey.expiresAt = [some e])
    (hlate : sh.host.clock + seconds 40 ≤ e) : KeyFresh req sh := by
  intro k hk
  have hmem : k.expiresAt ∈ (sh.db .idempotencyKey).map IdempotencyKey.expiresAt :=
    List.mem_map_of_mem (Store.mem_of_get hk.row)
  rw [h] at hmem
  exact ⟨e, List.mem_singleton.mp hmem, hlate⟩

/-- The deactivation of the checkout fails, and the second request replays the response. -/
theorem replay_iff_open_replayed : ∃ s reply,
    Sys.Reach (confirmRequests plainLib (fun _ : Fin 2 => oneConfirm) oneCheckout) s ∧
      s.outcome 1 = some (.ok reply) ∧ openCheckout 11 s.world.toShared = true ∧
      ∃ b, Carries reply b ∧ (Replays (fun _ _ => True) plainLib oneConfirm b s.world ↔
        ReplayOpen oneConfirm s.world.toShared) := by
  have hexec : ((confirmRequests plainLib (fun _ : Fin 2 => oneConfirm) oneCheckout).exec
      (fun _ _ _ _ _ => True) (ordering 0 ++ payment 0 ++ [.proc 0 .fault, .proc 0 .go,
        .proc 1 .go, .proc 1 (.host .proceed), .proc 1 .go, .proc 1 .go, .proc 1 (.host .proceed),
        .proc 1 .go])).map (fun s => (isReply (s.outcome 1), openCheckout 11 s.world.toShared,
          (s.world.db .idempotencyKey).map IdempotencyKey.expiresAt, s.world.host.clock)) =
      some (true, true, [some (seconds 86400)], 0) := by decide +kernel
  obtain ⟨s, hs, hst⟩ := Option.map_eq_some_iff.mp hexec
  obtain ⟨⟨⟩, hrun⟩ := Sys.run_of_exec History.none () hs
  simp only [Prod.mk.injEq] at hst
  obtain ⟨hreply, hopen, hexpiry, hclock⟩ := hst
  obtain ⟨reply, hout⟩ := reply_of_isReply hreply
  have hfresh : KeyFresh oneConfirm s.world.toShared :=
    keyFresh_of_expiry hexpiry (by rw [hclock]; decide)
  exact ⟨s, reply, hrun, hout, hopen, replay_iff_open plainLib _
    ⟨trivial, trivial, fun _ => trivial⟩ oneCheckout_ok oneCheckout_noOrders hrun hout hfresh⟩

/-- An answered request deactivates its checkout, and the same request is then refused. -/
theorem replay_refused : ∃ s s',
    Sys.Reach (confirmRequests plainLib (fun _ : Fin 2 => oneConfirm) oneCheckout) s ∧
      (s.outcome 0).map statusCode = some 200 ∧ KeyFresh oneConfirm s.world.toShared ∧
      s.exec (fun _ _ _ _ _ => True) [.proc 1 .go, .proc 1 .go] = some s' ∧
      (s'.outcome 1).map statusCode = some 403 := by
  have hexec : ((confirmRequests plainLib (fun _ : Fin 2 => oneConfirm) oneCheckout).exec
      (fun _ _ _ _ _ => True) (ordering 0 ++ payment 0 ++ .replicate 3 (.proc 0 .go))).bind
        (fun s => (s.exec (fun _ _ _ _ _ => True) [.proc 1 .go, .proc 1 .go]).map fun s' =>
          ((s.outcome 0).map statusCode, (s.world.db .idempotencyKey).map IdempotencyKey.expiresAt,
            s.world.host.clock, (s'.outcome 1).map statusCode)) =
      some (some 200, [some (seconds 86400)], 0, some 403) := by decide +kernel
  obtain ⟨s, hs, hrest⟩ := Option.bind_eq_some_iff.mp hexec
  obtain ⟨s', hs', hst⟩ := Option.map_eq_some_iff.mp hrest
  obtain ⟨⟨⟩, hrun⟩ := Sys.run_of_exec History.none () hs
  simp only [Prod.mk.injEq] at hst
  obtain ⟨hanswered, hexpiry, hclock, hrefused⟩ := hst
  exact ⟨s, s', hrun, hanswered, keyFresh_of_expiry hexpiry (by rw [hclock]; decide), hs', hrefused⟩

end Phyllonix
