import Phyllonix.ConfirmAnswers

/-!
# Runs of secure-confirm requests

Any number of requests run concurrently, from a shop without orders. An
idempotency key has at most one order and one payment, whatever the requests do.
A checkout has more than one order when requests with different keys confirm it,
and an order whose provider call failed cannot be confirmed by any later request.
-/

namespace Phyllonix
open Relational
variable {n : ℕ}

def confirmRequests (lib : Lib) (reqs : Fin n → ConfirmRequest) (w : World shop shopHost) :
    Sys shop shopHost n (Except (Exn AppErr) Reply) :=
  .start w fun i => (placeOrder lib (reqs i)).session

/-- No order was placed yet. -/
def NoOrders (d : Db) : Prop :=
  ∀ t ∈ [Table.orders, .orderItem, .payment, .idempotencyKey], d t = []

def ordersOfKey (d : Db) (key : String) : List Orders :=
  (d .orders).filter fun o : Orders =>
    (d .idempotencyKey).any fun k : IdempotencyKey => k.id = o.ikId && k.key = key

def paymentsOfKey (d : Db) (key : String) : List Payment :=
  (d .payment).filter fun p : Payment =>
    (ordersOfKey d key).any fun o : Orders => o.id = p.orderId

def ordersOfCheckout (d : Db) (csId : ℕ) : List Orders :=
  (d .orders).filter fun o : Orders =>
    (d .idempotencyKey).any fun k : IdempotencyKey => k.id = o.ikId && k.csId = csId

theorem length_le_one {α : Type} {rows : List α} (hnd : rows.Nodup)
    (h : ∀ a ∈ rows, ∀ b ∈ rows, a = b) : rows.length ≤ 1 := by
  match rows with
  | [] => simp
  | [a] => simp
  | a :: b :: rest =>
    have hab := h a (by simp) b (by simp)
    simp [hab] at hnd

section Runs
variable {lib : Lib} {reqs : Fin n → ConfirmRequest} {w : World shop shopHost}
variable {s : Sys shop shopHost n (Except (Exn AppErr) Reply)} {x : ℕ → Option (Fin n)}

theorem confirmInv_start (lib : Lib) (strict : Prop) {d : Db} (h : NoOrders d) :
    ConfirmInv (n := n) lib strict d d fun _ => none := by
  have hik : ∀ id, d.get .idempotencyKey id = none := fun id => by
    rw [Store.get, h .idempotencyKey (by simp)]
    rfl
  refine ⟨fun _ => rfl, fun id k hk => ?_, fun o ho => ?_, fun it hit => ?_, fun _ _ hx => ?_,
    fun _ id _ k _ hk _ _ => ?_⟩
  · rw [hik] at hk
    cases hk
  · rw [h .orders (by simp)] at ho
    cases ho
  · rw [h .orderItem (by simp)] at hit
    cases hit
  · cases hx
  · rw [hik] at hk
    cases hk

theorem confirm_inv {G : Guard shop shopHost n} {strict : Prop} (hw : w.Ok) (h₀ : NoOrders w.db)
    (hG : ∀ i, ChecksKey strict reqs G i)
    (hrun : Sys.Run G (recorders n) (confirmRequests lib reqs w) (fun _ => none) s x) :
    s.Inv (confirmProtocol lib reqs strict w.db) G (sessionConfirmed lib reqs strict w.db) x :=
  Sys.Run.inv (P := confirmProtocol lib reqs strict w.db) hrun
    (Sys.inv_start hw (confirmInv_start lib strict h₀) fun i => confirmSession_safe (hG i))

theorem checksKey_false (G : Guard shop shopHost n) (i : Fin n) : ChecksKey False reqs G i :=
  fun h => h.elim

/-! ## One order and one payment for a key -/

/-- The order is the user's, with the items and amounts of a checkout of the user. -/
structure PlacedFrom (lib : Lib) (d : Db) (k : IdempotencyKey) (o : Orders) : Prop where
  user : o.userId = some k.createdBy
  checkout : ∃ c items m, d.get .checkoutSession k.csId = some c ∧ c.userId = k.createdBy ∧
    c.cartSnapshot = some items ∧ c.selectedPaymentMethod = some m ∧ Charged lib o items m ∧
    Copies (orderItems d o.id) items

structure KeySafe (lib : Lib) (d : Db) : Prop where
  orders : ∀ key, (ordersOfKey d key).length ≤ 1
  payments : ∀ key, (paymentsOfKey d key).length ≤ 1
  placed : ∀ o : Orders, o ∈ d .orders → ∃ k, d.get .idempotencyKey o.ikId = some k ∧
    PlacedFrom lib d k o

/-- The record was made by another user, or for a checkout with another public id. -/
def ForOther (req : ConfirmRequest) (d : Db) (k : IdempotencyKey) : Prop :=
  k.createdBy ≠ req.userIdentifier ∨
    ∀ c, d.get .checkoutSession k.csId = some c → c.publicId ≠ req.checkoutId

theorem ordersOfKey_unique {d : Db} (hd : d.Wf) {key : String} {o o' : Orders}
    (ho : o ∈ ordersOfKey d key) (ho' : o' ∈ ordersOfKey d key) : o = o' := by
  obtain ⟨hmem, hany⟩ := List.mem_filter.mp ho
  obtain ⟨hmem', hany'⟩ := List.mem_filter.mp ho'
  obtain ⟨k, hk, hp⟩ := List.any_eq_true.mp hany
  obtain ⟨k', hk', hp'⟩ := List.any_eq_true.mp hany'
  simp only [Bool.and_eq_true, decide_eq_true_eq] at hp hp'
  have hkeys : IndexKey.key k.key ∈ rowKeys (t := .idempotencyKey) k' :=
    List.mem_singleton.mpr (congrArg _ (hp.2.trans hp'.2.symm))
  have hsame : k = k' := hd.eq_of_key hk hk' (List.mem_singleton.mpr rfl) hkeys
  have hik : o.ikId = o'.ikId := by rw [← hp.1, ← hp'.1, hsame]
  have hiks : IndexKey.ikId o.ikId ∈ rowKeys (t := .orders) o' := by simp [rowKeys, hik]
  exact hd.eq_of_key hmem hmem' (by simp [rowKeys]) hiks

theorem paymentsOfKey_unique {d : Db} (hd : d.Wf) {key : String} {p p' : Payment}
    (hp : p ∈ paymentsOfKey d key) (hp' : p' ∈ paymentsOfKey d key) : p = p' := by
  obtain ⟨hmem, hany⟩ := List.mem_filter.mp hp
  obtain ⟨hmem', hany'⟩ := List.mem_filter.mp hp'
  obtain ⟨o, ho, hid⟩ := List.any_eq_true.mp hany
  obtain ⟨o', ho', hid'⟩ := List.any_eq_true.mp hany'
  simp only [decide_eq_true_eq] at hid hid'
  have hsame : o = o' := ordersOfKey_unique hd ho ho'
  have horder : p.orderId = p'.orderId := by rw [← hid, ← hid', hsame]
  have hkeys : IndexKey.orderId p.orderId ∈ rowKeys (t := .payment) p' := by simp [rowKeys, horder]
  exact hd.eq_of_key hmem hmem' (by simp [rowKeys]) hkeys

/-- A checkout of the start is still there, but for being active. -/
theorem Chosen.row_now {d₀ d : Db} {csId user : ℕ} {items : List SnapshotItem} {m : PaymentMethod}
    {pub : UUID} {strict : Prop} (h : Chosen d₀ csId user items m pub)
    (hinv : ConfirmInv lib strict d₀ d x) : ∃ c, d.get .checkoutSession csId = some c ∧
      c.userId = user ∧ c.publicId = pub ∧ c.cartSnapshot = some items ∧
      c.selectedPaymentMethod = some m := by
  obtain ⟨c₀, hc₀, huser, hpub, hsnap, hpay⟩ := h.row
  have hfixed := hinv.checkouts csId
  rw [hc₀] at hfixed
  obtain ⟨c, hc, he⟩ := Option.map_eq_some_iff.mp hfixed
  simp only [CheckoutSession.fixed, CheckoutSession.mk.injEq] at he
  obtain ⟨-, hpub', huser', hsnap', hpay', -⟩ := he
  exact ⟨c, hc, huser'.trans huser, hpub'.trans hpub, hsnap'.trans hsnap, hpay'.trans hpay⟩

theorem placedFrom_of_built {d₀ d : Db} {k : IdempotencyKey} {o : Orders} {strict : Prop}
    (hinv : ConfirmInv lib strict d₀ d x) (h : BuiltFrom lib d₀ d k o) : PlacedFrom lib d k o := by
  obtain ⟨items, m, pub, hchosen, hcharged, hcopies⟩ := h.checkout
  obtain ⟨c, hc, huser, -, hsnap, hpay⟩ := hchosen.row_now hinv
  exact ⟨h.user, c, items, m, hc, huser, hsnap, hpay, hcharged, hcopies⟩

theorem keySafe_of_inv {d₀ d : Db} {strict : Prop} (hd : d.Wf)
    (hinv : ConfirmInv lib strict d₀ d x) : KeySafe lib d := by
  refine ⟨fun key => ?_, fun key => ?_, fun o ho => ?_⟩
  · have hnd : (ordersOfKey d key).Nodup := (hd.ids .orders).of_map.filter _
    exact length_le_one hnd fun a ha b hb => ordersOfKey_unique hd ha hb
  · have hnd : (paymentsOfKey d key).Nodup := (hd.ids .payment).of_map.filter _
    exact length_le_one hnd fun a ha b hb => paymentsOfKey_unique hd ha hb
  · obtain ⟨k, hk, hbuilt⟩ := hinv.built o ho
    exact ⟨k, hk, placedFrom_of_built hinv hbuilt⟩

theorem not_ownKey_of_forOther {d₀ d : Db} {req : ConfirmRequest} {k : IdempotencyKey}
    {strict : Prop} (hinv : ConfirmInv lib strict d₀ d x) (hget : d.get .idempotencyKey k.id = some k)
    (hkey : k.key = req.idempotencyKey) (hother : ForOther req d k) : ¬OwnKey d₀ req d := by
  intro hown
  obtain ⟨items, m, hchosen, huser⟩ := hown k.id k hget hkey
  obtain ⟨c, hc, -, hpub, -⟩ := hchosen.row_now hinv
  rcases hother with h | h
  · exact h huser
  · exact h c hc hpub

end Runs

/-- A checkout with one item, about to be confirmed. -/
def oneCheckout : World shop shopHost where
  db
    | .checkoutSession => [⟨1, 11, 9, some [⟨1, 5, 2, 100, 8⟩], some .UPI, true, seconds 900⟩]
    | _ => []
  host := ⟨0, 100, [], []⟩
  seq _ := 2

def oneConfirm : ConfirmRequest := ⟨9, 11, "k1"⟩

theorem oneCheckout_ok : oneCheckout.Ok := by
  refine ⟨Store.wf_of_pairwise fun t => ?_, fun t r hr => ?_⟩
  · cases t <;> simp [oneCheckout]
  · cases t <;> simp_all [oneCheckout, rowId]

theorem oneCheckout_noOrders : NoOrders oneCheckout.db := by
  intro t ht
  simp only [List.mem_cons, List.not_mem_nil, or_false] at ht
  rcases ht with rfl | rfl | rfl | rfl <;> rfl

/-- The steps of a request up to the commit of its order. -/
def ordering (i : Fin n) : List (Label shopHost n) :=
  [.proc i .go, .proc i (.host .proceed), .proc i .go, .proc i .go, .proc i (.host .proceed),
    .proc i .go, .proc i (.host .proceed), .proc i .go, .proc i .go, .proc i (.host .proceed)] ++
    .replicate 3 (.proc i .go)

/-- The provider refuses the order. -/
def refusal (i : Fin n) : List (Label shopHost n) :=
  .replicate 2 (.proc i .go) ++
    [.proc i (.host (.fails (.httpStatus (some 400) "refused"))), .proc i .go, .proc i .go]

/-- User 8 presents the key that user 9 has committed. -/
def sharedKey : Fin 2 → ConfirmRequest
  | 0 => oneConfirm
  | 1 => ⟨8, 11, "k1"⟩

/-- A request locks a checkout only while its records are under the key of the request. -/
def oneKey (reqs : Fin n → ConfirmRequest) : Guard shop shopHost n := fun i sh _ a _ =>
  match a with
  | .lock Table.checkoutSession p => ∀ r ∈ sh.db .checkoutSession, p r = true →
      ∀ k : IdempotencyKey, k ∈ sh.db .idempotencyKey → k.csId = r.id →
        k.key = (reqs i).idempotencyKey
  | _ => True

theorem ordersOfCheckout_unique {lib : Lib} {d₀ d : Db} {x : ℕ → Option (Fin n)} (hd : d.Wf)
    (hinv : ConfirmInv lib True d₀ d x) {csId : ℕ} {o o' : Orders}
    (ho : o ∈ ordersOfCheckout d csId) (ho' : o' ∈ ordersOfCheckout d csId) : o = o' := by
  obtain ⟨hmem, hany⟩ := List.mem_filter.mp ho
  obtain ⟨hmem', hany'⟩ := List.mem_filter.mp ho'
  obtain ⟨k, hk, hp⟩ := List.any_eq_true.mp hany
  obtain ⟨k', hk', hp'⟩ := List.any_eq_true.mp hany'
  simp only [Bool.and_eq_true, decide_eq_true_eq] at hp hp'
  have hget : d.get .idempotencyKey k.id = some k := Store.get_of_mem hd.ids hk
  have hget' : d.get .idempotencyKey k'.id = some k' := Store.get_of_mem hd.ids hk'
  have hid : k.id = k'.id := hinv.single trivial _ _ k k' hget hget' (hp.2.trans hp'.2.symm)
  have hik : o.ikId = o'.ikId := by rw [← hp.1, ← hp'.1, hid]
  have hiks : IndexKey.ikId o.ikId ∈ rowKeys (t := .orders) o' := by simp [rowKeys, hik]
  exact hd.eq_of_key hmem hmem' (by simp [rowKeys]) hiks

theorem one_order_of_checkout (lib : Lib) (reqs : Fin n → ConfirmRequest) {w : World shop shopHost}
    (hw : w.Ok) (h₀ : NoOrders w.db) {s : Sys shop shopHost n (Except (Exn AppErr) Reply)}
    (hrun : Sys.Run (oneKey reqs) History.none (confirmRequests lib reqs w) () s ()) (csId : ℕ) :
    (ordersOfCheckout s.world.db csId).length ≤ 1 := by
  obtain ⟨x, hx⟩ := hrun.history (recorders n) fun _ => none
  have hG : ∀ i, ChecksKey True reqs (oneKey reqs) i := fun i _ sh l p c hg => hg
  have hs := confirm_inv hw h₀ hG hx
  have hd := hs.ok.world.wf
  have hnd : (ordersOfCheckout s.world.db csId).Nodup := (hd.ids .orders).of_map.filter _
  exact length_le_one hnd fun a ha b hb => ordersOfCheckout_unique hd hs.inv ha hb

instance (reqs : Fin n → ConfirmRequest) (i : Fin n) (sh : Shared shop shopHost) (l : Txn shop)
    (a : ShopAction) (c : Choice shopHost) : Decidable (oneKey reqs i sh l a c) :=
  match a with
  | .lock t p => match t, p with
    | .checkoutSession, p => inferInstanceAs (Decidable (∀ r ∈ sh.db .checkoutSession, p r = true →
        ∀ k ∈ sh.db .idempotencyKey, IdempotencyKey.csId k = CheckoutSession.id r →
          IdempotencyKey.key k = (reqs i).idempotencyKey))
    | .product, _ | .cart, _ | .cartItem, _ | .inventoryReservation, _ | .idempotencyKey, _
    | .orders, _ | .orderItem, _ | .payment, _ | .paymentAttempt, _ | .paymentWebhookEvent, _
    | .outboxEvent, _ | .commitIntent, _ => .isTrue trivial
  | .read _ | .lockSkip _ _ | .update _ _ _ _ | .insert _ _ _ _ | .tryLock _ | .commit
  | .rollback | .host _ => .isTrue trivial

theorem one_order_of_checkout_retried : ∃ s,
    Sys.Run (oneKey fun _ : Fin 2 => oneConfirm) History.none
      (confirmRequests plainLib (fun _ => oneConfirm) oneCheckout) () s () ∧
      (ordersOfCheckout s.world.db 1).length = 1 ∧
      ∀ csId, (ordersOfCheckout s.world.db csId).length ≤ 1 := by
  have hexec : ((confirmRequests plainLib (fun _ : Fin 2 => oneConfirm) oneCheckout).exec
      (oneKey fun _ => oneConfirm) (ordering 0 ++ refusal 0 ++ [.proc 1 .go])).map (fun s =>
        (ordersOfCheckout s.world.db 1).length) = some 1 := by decide +kernel
  obtain ⟨s, hs, hone⟩ := Option.map_eq_some_iff.mp hexec
  obtain ⟨⟨⟩, hrun⟩ := Sys.run_of_exec History.none () hs
  exact ⟨s, hrun, hone, one_order_of_checkout plainLib _ oneCheckout_ok oneCheckout_noOrders hrun⟩

/-- One checkout, confirmed under two keys. -/
def twoKeys : Fin 2 → ConfirmRequest
  | 0 => oneConfirm
  | 1 => ⟨9, 11, "k2"⟩

/-- After the refusal the checkout is still active, and the second key orders it again. -/
theorem two_orders_of_checkout :
    ¬∀ s, Sys.Reach (confirmRequests plainLib twoKeys oneCheckout) s →
      ∀ csId, (ordersOfCheckout s.world.db csId).length ≤ 1 := by
  intro h
  have hexec : ((confirmRequests plainLib twoKeys oneCheckout).exec (fun _ _ _ _ _ => True)
      (ordering 0 ++ refusal 0 ++ ordering 1)).map (fun s =>
        (ordersOfCheckout s.world.db 1).length) = some 2 := by decide +kernel
  obtain ⟨s, hs, htwo⟩ := Option.map_eq_some_iff.mp hexec
  obtain ⟨⟨⟩, hrun⟩ := Sys.run_of_exec History.none () hs
  have hone := h s hrun 1
  omega

/-! ## Retries after a failure of the provider -/

/-- After the provider failed for a committed order, no request of the user with the key
is answered. -/
theorem no_answer_after_psp_failure (lib : Lib) (reqs : Fin n → ConfirmRequest)
    {w : World shop shopHost} (hw : w.Ok) (h₀ : NoOrders w.db)
    {s : Sys shop shopHost n (Except (Exn AppErr) Reply)}
    (hrun : Sys.Reach (confirmRequests lib reqs w) s) {i j : Fin n} {e : Exn AppErr}
    (hfailed : s.outcome i = some (.error e)) (hpsp : PspFailed e)
    (hkey : (reqs j).idempotencyKey = (reqs i).idempotencyKey) (reply : Reply) :
    s.outcome j ≠ some (.ok reply) := by
  intro hreply
  obtain ⟨x, hx⟩ := Sys.Run.history hrun (recorders n) fun _ => none
  have hs := confirm_inv hw h₀ (fun i => checksKey_false _ i) hx
  obtain ⟨sh, y, hsafe, hseen⟩ := hs.seen i
  rw [Sys.prog_of_outcome hfailed] at hsafe
  have hunpaid : Unpaid i (reqs i) s.world.db x := (hsafe.1 hpsp).seen hseen
  obtain ⟨sh', y', hsafe', hseen'⟩ := hs.seen j
  rw [Sys.prog_of_outcome hreply] at hsafe'
  have hanswered : Answered (reqs j) s.world.db reply := Answered.kept hsafe'.1 hseen'.rely.kept
  obtain ⟨k, hfound, -, hnone⟩ := hunpaid
  obtain ⟨k', b, hfound', hb, -⟩ := hanswered.stored
  have hsame : k' = k := key_unique hs.ok.world.wf hfound.row (Store.mem_of_get hfound'.row)
    (by rw [hfound'.key, hkey, hfound.key])
  rw [hsame, hnone] at hb
  cases hb

/-- A request with a committed key and no response: it loses the insertion of the record,
reads it again, and is refused a second order. -/
def retry (i : Fin n) : List (Label shopHost n) :=
  [.proc i .go, .proc i (.host .proceed), .proc i .go, .proc i .go, .proc i (.host .proceed),
    .proc i (.host .proceed), .proc i .go, .proc i (.host .proceed), .proc i .go,
    .proc i (.host .proceed), .proc i (.host .proceed), .proc i .go, .proc i .go]

def isPspRefusal : Option (Except (Exn AppErr) Reply) → Bool
  | some (.error (.app (.http 400 (.str s)))) =>
    decide ("Payment attempts failed due to ".toList <+: s.toList)
  | _ => false

theorem pspFailed_of_isPspRefusal {o : Option (Except (Exn AppErr) Reply)}
    (h : isPspRefusal o = true) : ∃ e, o = some (.error e) ∧ PspFailed e := by
  unfold isPspRefusal at h
  split at h
  · have hprefix : "Payment attempts failed due to ".toList <+: _ := of_decide_eq_true h
    exact ⟨_, rfl, hprefix⟩
  · cases h

/-- The checkout can still be confirmed. -/
def openCheckout (publicId : UUID) (w : Shared shop shopHost) : Bool :=
  (w.db .checkoutSession).any fun c : CheckoutSession =>
    c.publicId = publicId && c.isActive && w.host.clock + seconds 40 ≤ c.expiresAt

theorem no_answer_after_psp_failure_once : ∃ s,
    Sys.Reach (confirmRequests plainLib (fun _ : Fin 2 => oneConfirm) oneCheckout) s ∧
      (∃ e, s.outcome 0 = some (.error e) ∧ PspFailed e) ∧
      ∀ reply, s.outcome 1 ≠ some (.ok reply) := by
  have hexec : ((confirmRequests plainLib (fun _ : Fin 2 => oneConfirm) oneCheckout).exec
      (fun _ _ _ _ _ => True) (ordering 0 ++ refusal 0)).map (fun s => isPspRefusal (s.outcome 0)) =
        some true := by decide +kernel
  obtain ⟨s, hs, hst⟩ := Option.map_eq_some_iff.mp hexec
  obtain ⟨⟨⟩, hrun⟩ := Sys.run_of_exec History.none () hs
  obtain ⟨e, he, hpsp⟩ := pspFailed_of_isPspRefusal hst
  exact ⟨s, hrun, ⟨e, he, hpsp⟩, no_answer_after_psp_failure plainLib _ oneCheckout_ok
    oneCheckout_noOrders hrun he hpsp rfl⟩

/-- The checkout is open and no statement fails, and the retry ends with an internal error. -/
theorem psp_retry_refused : ∃ s s',
    Sys.Reach (confirmRequests plainLib (fun _ : Fin 2 => oneConfirm) oneCheckout) s ∧
      (∃ e, s.outcome 0 = some (.error e) ∧ PspFailed e) ∧
      openCheckout 11 s.world.toShared = true ∧
      s.exec (fun _ _ _ _ _ => True) (retry 1) = some s' ∧ (s'.outcome 1).map statusCode = some 500 ∧
      (s'.world.db .payment).map Payment.status = [PaymentStatus.pending.value] := by
  have hexec : ((confirmRequests plainLib (fun _ : Fin 2 => oneConfirm) oneCheckout).exec
      (fun _ _ _ _ _ => True) (ordering 0 ++ refusal 0)).bind (fun s =>
        (s.exec (fun _ _ _ _ _ => True) (retry 1)).map fun s' =>
          (isPspRefusal (s.outcome 0), openCheckout 11 s.world.toShared,
            (s'.outcome 1).map statusCode, (s'.world.db .payment).map Payment.status)) =
      some (true, true, some 500, [PaymentStatus.pending.value]) := by decide +kernel
  obtain ⟨s, hs, hrest⟩ := Option.bind_eq_some_iff.mp hexec
  obtain ⟨s', hs', hst⟩ := Option.map_eq_some_iff.mp hrest
  obtain ⟨⟨⟩, hrun⟩ := Sys.run_of_exec History.none () hs
  simp only [Prod.mk.injEq] at hst
  obtain ⟨hpsp, hopen, hstatus, hpay⟩ := hst
  exact ⟨s, s', hrun, pspFailed_of_isPspRefusal hpsp, hopen, hs', hstatus, hpay⟩

end Phyllonix
