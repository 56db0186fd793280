import Phyllonix.OrderWorkers
import Phyllonix.OrderBooks
import Phyllonix.CashOnDelivery

/-!
# Confirmations and the order book

A confirmation places an order in one transaction, and in a later one notes that the payment
provider has accepted it. Between the two the payment stays as it was placed: nobody else knows
of a provider order for it.
-/

namespace Phyllonix.Fulfilment
open Relational
variable {n : ℕ} {lib : Lib} {reqs : Fin n → ShopRequest} {G : Guard shop shopHost n} {i : Fin n}
variable {sh : Shared shop shopHost} {x : ℕ → Option (Fin n)} {l : Txn shop} {req : ConfirmRequest}

/-! ## Before the order -/

/-- The tables of which nothing is written before the order. -/
def Reserved (t : Table) : Prop := Watched t ∨ t = .checkoutSession

instance (t : Table) : Decidable (Reserved t) := inferInstanceAs (Decidable (_ ∨ _))

theorem reserved_watches : (orderly lib reqs).Watches Reserved := orderly_watches.mono fun _ => .inl

theorem reserved_lasting : (orderly lib reqs).Lasting Reserved i fun _ _ => True :=
  ⟨fun _ _ => trivial, fun _ _ => trivial⟩

theorem untouched_of_reserved (hl : ∀ v ∈ l.writes, ¬Reserved v.tbl) : Untouched l := by
  intro v hv
  refine ⟨fun he => hl v hv ?_, fun he => hl v hv (.inr he)⟩
  rcases he with he | he | he <;> rw [he] <;> decide

/-- Of a request nothing is written when its checkout has been found. -/
theorem validate_unwritten (checkoutId : UUID) (userId : ℕ) :
    Safe (orderly lib reqs) G i (.ofOk fun _ _ _ l => l.writes = [])
      (validateCheckoutGetItemsPaymethod checkoutId userId) sh x {} := by
  have hlasting : (orderly lib reqs).Lasting Watched i fun _ _ => True := orderly_lasting fun _ h => h
  apply Safe.bind
  apply Safe.lock _ fun _ _ _ _ _ _ _ => trivial
  intro w y hs _
  apply Safe.bind
  apply safe_oneOrNone
  · exact fun _ => trivial
  · intro cs _
    apply Safe.bind
    apply safe_now orderly_quiet
    intro w₁ y₁ _
    dsimp only
    split
    · apply Safe.bind
      apply (Safe.aside orderly_watches hlasting (updateCheckoutActiveness_beside cs.id false) (fun _ ht hn => hn ht)
        (fun _ ht hn => hn ht) trivial fun v hv => by cases hv).mono
      intro r _ _ _ _
      cases r <;> trivial
    · split
      · trivial
      · split
        · trivial
        · exact Safe.pure rfl
  · trivial

theorem recording_bind {α β : Type} {p : Py α} {f : α → Py β} (hp : p.Acts Recording)
    (hl : ∀ v ∈ l.writes, ¬Reserved v.tbl)
    (hf : ∀ a sh x l, (∀ v ∈ l.writes, ¬Reserved v.tbl) →
      Safe (orderly lib reqs) G i (fun _ _ _ _ => True) (f a) sh x l) :
    Safe (orderly lib reqs) G i (fun _ _ _ _ => True) (p >>= f) sh x l := by
  have hkey : ∀ t, Reserved t → t ≠ Table.idempotencyKey := by
    rintro _ ht rfl
    exact absurd ht (by decide)
  exact Safe.aside_bind reserved_watches reserved_lasting hp hkey hkey trivial hl fun a sh x l _ hl' => hf a sh x l hl'

/-! ## The order -/

/-- The rows of an order that is to be paid. -/
def Unpaid (v : Write shop) : Prop :=
  (∀ r : Orders, v = ⟨.orders, r⟩ → r.status = OrderStatus.pendingPayment.value) ∧
  (∀ p : Payment, v = ⟨.payment, p⟩ → p.status = PaymentStatus.pending.value ∧ p.providerOrderId = none) ∧
  (Watched v.tbl → IsEntry v.tbl)

theorem unpaid_of_ne {v : Write shop} (h : v.tbl ≠ .orders ∧ v.tbl ≠ .payment) (he : Watched v.tbl → IsEntry v.tbl) :
    Unpaid v := by
  refine ⟨fun r hr => ?_, fun p hp => ?_, he⟩
  · rw [hr] at h
    exact absurd rfl h.1
  · rw [hp] at h
    exact absurd rfl h.2

theorem unpaid_of_beside {v : Write shop} (h : ¬Watched v.tbl) : Unpaid v :=
  unpaid_of_ne ⟨fun he => h (he ▸ by decide), fun he => h (he ▸ by decide)⟩ fun hw => absurd hw h

theorem line_unpaid (line : OrderItem) : Unpaid ⟨.orderItem, line⟩ :=
  unpaid_of_ne ⟨(fun h => by cases h), (fun h => by cases h)⟩ fun _ => .inr (.inl rfl)

theorem order_unpaid {r : Orders} (h : r.status = OrderStatus.pendingPayment.value) : Unpaid ⟨.orders, r⟩ := by
  refine ⟨fun r' hr => ?_, fun p hp => ?_, fun _ => .inl rfl⟩
  · cases hr
    exact h
  · cases hp

theorem payment_unpaid {p : Payment} (h : p.status = PaymentStatus.pending.value) (hnone : p.providerOrderId = none) :
    Unpaid ⟨.payment, p⟩ := by
  refine ⟨fun r hr => ?_, fun p' hp => ?_, fun _ => .inr (.inr rfl)⟩
  · cases hr
  · cases hp
    exact ⟨h, hnone⟩

/-- Within the open transaction, in rows of an unpaid order. -/
abbrev EntersUnpaid (a : ShopAction) : Prop := a.Uncommitted ∧ a.Confined Unpaid

theorem placeOrderWithItems_unpaid (userId : ℕ) (totals : FinalTotal) (ik : ℕ) :
    (placeOrderWithItems lib userId .UPI totals ik).Acts EntersUnpaid := by
  have hitems : ∀ o (items : List SnapshotItem), (addOrderItems lib o items).Acts EntersUnpaid := by
    intro o items
    induction items with
    | nil => trivial
    | cons it items ih => exact (insert_acts ⟨trivial, fun _ => line_unpaid _⟩).bind fun _ => ih
  have hrecord : ∀ o ty, (updateOrderIdempotencyRecord lib userId ik o none none ty).Acts EntersUnpaid := by
    intro o ty
    have hkey : ∀ k : IdempotencyKey, Unpaid ⟨.idempotencyKey, k⟩ := fun k =>
      unpaid_of_beside (show ¬Watched .idempotencyKey by decide)
    apply Prog.Acts.bind (.pure _)
    intro body
    exact Prog.Acts.bind (.call ⟨trivial, fun _ _ => hkey _⟩) fun _ => .pure _
  apply Prog.Acts.bind (.call ⟨trivial, trivial⟩)
  intro publicId
  apply Prog.Acts.bind (insert_acts ⟨trivial, fun _ => order_unpaid rfl⟩)
  intro order
  apply (hitems _ _).bind
  intro _
  apply Prog.Acts.bind
  · apply Prog.Acts.bind (.call ⟨trivial, trivial⟩)
    intro pub
    exact Prog.Acts.bind (insert_acts ⟨trivial, fun _ => payment_unpaid rfl rfl⟩) fun _ => .pure _
  · intro pub
    exact (hrecord _ _).bind fun _ => .pure _

section Order
variable {items : List SnapshotItem} {o : Orders} {lines : List OrderItem} {p : Payment} {d : Db}

theorem entered_placed (h : Entered lib o items lines [p] d l) (hv : (l.view d).Wf) (hw : ∀ v ∈ l.writes, Unpaid v)
    (horder : p.orderId = o.id) : Placed d (l.view d) o p lines := by
  have hsame : ∀ t, Watched t → ¬IsEntry t → l.view d t = d t := by
    intro t ht hentry
    exact applyWrites_of_untouched fun v hv' he => hentry (he ▸ (hw v hv').2.2 (he ▸ ht))
  have hrow : ⟨.orders, o⟩ ∈ l.writes := mem_written.mp (h.order ▸ List.mem_singleton.mpr rfl)
  have hpay : ⟨.payment, p⟩ ∈ l.writes := mem_written.mp (h.payments ▸ List.mem_singleton.mpr rfl)
  obtain ⟨hpending, hunsent⟩ := (hw _ hpay).2.1 p rfl
  constructor
  · exact Store.get_eq_none_iff.mpr (h.order_fresh hv)
  · exact h.view_orders
  · exact h.view_payments
  · rw [Txn.view, applyWrites_written h.inserts (.inr (.inl rfl)), h.items]
  · exact hsame _ (by decide) (by rintro (he | he | he) <;> cases he)
  · exact hsame _ (by decide) (by rintro (he | he | he) <;> cases he)
  · exact lines_ofOrder h.forItems
  · exact (hw _ hrow).1 o rfl
  · exact horder
  · exact hpending
  · exact hunsent

end Order

/-! ## A request -/

/-- The payment of an order that the request has placed, not yet accepted by the provider. -/
structure Mine (i : Fin n) (user : ℕ) (p : Payment) (d : Db) (x : ℕ → Option (Fin n)) : Prop where
  stored : d.get .payment p.id = some p
  pending : p.status = PaymentStatus.pending.value
  placed : x p.orderId = some i
  owned : ∃ r, d.get .orders p.orderId = some r ∧ r.userId = some user

theorem mine_lasting (user : ℕ) (p : Payment) : (orderly lib reqs).Lasting Watched i (Mine i user p) where
  rely := by
    intro l sh x sh' x' hrely hmine
    obtain ⟨hlater, hplacer, hleaves⟩ := hrely
    obtain ⟨r, hr, huser⟩ := hmine.owned
    obtain ⟨r', hr', huser'⟩ := hlater.orders _ r hr
    exact ⟨hleaves _ p hmine.stored hmine.pending hmine.placed, hmine.pending, hplacer _ hmine.placed,
      r', hr', huser'.trans huser⟩
  same := by
    intro d d' x hsame hmine
    obtain ⟨r, hr, huser⟩ := hmine.owned
    refine ⟨?_, hmine.pending, hmine.placed, r, ?_, huser⟩
    · rw [Store.get, hsame .payment (by decide)]
      exact hmine.stored
    · rw [Store.get, hsame .orders (by decide)]
      exact hr

section Accept
variable {p p' : Payment} {d : Db} {poid : String}

/-- The order of the payment is pending. -/
theorem Mine.found (h : Mine i req.userIdentifier p d x) (hd : d.Wf) {f : OrderBook} (hf : Represents d f) :
    ∃ b, f p.orderId = some b ∧ b.progress = .pending ∧ p.providerOrderId = none := by
  obtain ⟨b, hb, hstatus, hsent⟩ := hf.payment hd (Store.mem_of_get h.stored)
  have hpending : b.progress = .pending := pending_of_status (hstatus.symm.trans h.pending)
  refine ⟨b, hb, hpending, ?_⟩
  cases hpo : p.providerOrderId with
  | none => rfl
  | some po =>
    rw [hpo, hpending] at hsent
    exact absurd rfl (hsent.mp rfl)

/-- The provider has accepted the payment. -/
structure Accepted (p p' : Payment) : Prop where
  id : p'.id = p.id
  order : p'.orderId = p.orderId
  provider : p'.provider = p.provider
  status : p'.status = PaymentStatus.accepted.value
  sent : p'.providerOrderId.isSome = true

theorem Mine.moved (h : Mine i req.userIdentifier p d x) (hd : d.Wf) (hbook : Orderly d x) (hp : Accepted p p')
    (hl : Moving p' [] [] [] l) : Moved d (l.view d) p p' .accepted [] [] := by
  refine ⟨Store.mem_of_get h.stored, hp.id, hp.order, hp.status, hp.sent, hl.view_payments d, fun o => ?_,
    view_of_written_nil hl.items d, ?_, ?_, (fun c hc => by cases hc), (fun e he => by cases he), rfl, rfl⟩
  · rw [Store.get, view_of_written_nil hl.orders]
    split
    · rename_i ho
      subst ho
      obtain ⟨f, hf⟩ := hbook.book
      obtain ⟨b, hb, hpending, -⟩ := h.found hd hf
      have hstatus := hf.status hb
      rw [hpending] at hstatus
      exact hstatus
    · rfl
  · rw [view_of_written_nil hl.intents, List.append_nil]
  · rw [view_of_written_nil hl.events, List.append_nil]

variable (lib) in
theorem Mine.turned (hreq : reqs i = .secureConfirm req) (h : Mine i req.userIdentifier p d x) (hd : d.Wf)
    (hbook : Orderly d x) (hp : Accepted p p') (hl : Moving p' [] [] [] l) :
    Later d (l.view d) ∧ LeavesPending (fun o => x o ≠ some i) d (l.view d) ∧ Turned lib (reqs i) d (l.view d) := by
  have hm := h.moved hd hbook hp hl
  have horders : l.view d .orders = d .orders := view_of_written_nil hl.orders d
  have hsame : ∀ o, (l.view d).get .orders o = d.get .orders o := fun o => by rw [Store.get, horders, Store.get]
  refine ⟨hm.later hd ?_ hp.provider ?_ (view_of_written_nil hl.products d), ?_, ?_⟩
  · exact fun o r hr => ⟨r, (hsame o).trans hr, rfl⟩
  · intro po hpo
    obtain ⟨f, hf⟩ := hbook.book
    obtain ⟨-, -, -, hnone⟩ := h.found hd hf
    rw [hnone] at hpo
    cases hpo
  · exact hm.leaves hd fun _ hnot => hnot h.placed
  · intro f hf
    obtain ⟨b, hb, hpending, -⟩ := h.found hd hf
    obtain ⟨r, hr, huser⟩ := h.owned
    refine .inr ⟨_, .accept p.orderId, hf.moved hd hm hb (by rw [hpending]; rfl), .accept hb hpending, ?_⟩
    rw [hreq]
    exact .accept ⟨r, (hsame _).trans hr, huser⟩

end Accept

theorem bindText_some {j : Json} {a : Option String} (h : bindText j = .ok a) (hj : j ≠ .null) : a.isSome = true := by
  cases j with
  | null => exact absurd rfl hj
  | str s =>
    cases h
    rfl
  | _ => cases h

section Request
variable {items : List SnapshotItem} {m : PaymentMethod} {p : Payment} {key : String}

theorem beside_lasts {α : Type} {q : Py α} (hq : q.Acts Beside) (hmine : Mine i req.userIdentifier p sh.db x)
    (hl : ∀ v ∈ l.writes, ¬Watched v.tbl) : Safe (orderly lib reqs) G i
      (fun _ sh x l => Mine i req.userIdentifier p sh.db x ∧ ∀ v ∈ l.writes, ¬Watched v.tbl) q sh x l :=
  Safe.aside orderly_watches (mine_lasting _ p) hq (fun _ ht hn => hn ht) (fun _ ht hn => hn ht) hmine hl

theorem settlePspResult_orderly (hreq : reqs i = .secureConfirm req) (orderData : OrderResponse) (pub : UUID)
    (res : PspResult) (hmine : Mine i req.userIdentifier p sh.db x) (hl : ∀ v ∈ l.writes, ¬Watched v.tbl) :
    Safe (orderly lib reqs) G i (.ofOk fun _ _ _ l => l.writes = [])
      (settlePspResult lib key orderData pub p.id res) sh x l := by
  rw [settlePspResult]
  split
  · trivial
  · trivial
  · trivial
  · split
    · apply Safe.bind
      apply (beside_lasts (recordPaymentAttempt_beside _ _ _) hmine hl).mono
      intro r _ _ _ _
      cases r <;> trivial
    · rename_i hnotnull
      apply Safe.bind
      apply Safe.bind
      apply safe_ofApp _ fun _ => trivial
      intro poid hpoid
      apply Safe.bind
      apply safe_updateOne (t := .payment) (k := p.id) _ fun _ _ _ _ _ _ _ => trivial
      intro w y hs l₁ hu
      have hmine₁ : Mine i req.userIdentifier p w.db y := (mine_lasting _ p).rely hs.rely hmine
      have hview : (l.view w.db).get .payment p.id = some p := by
        rw [Store.get, view_of_written_nil (written_nil hl (by decide))]
        exact hmine₁.stored
      have hmoving := Moving.start hl (updated_one hu hview).1
      have haccepted : Accepted p { p with providerOrderId := poid, status := PaymentStatus.accepted.value } :=
        ⟨rfl, rfl, rfl, rfl, bindText_some hpoid hnotnull⟩
      apply Safe.pure
      apply Safe.bind
      apply Safe.bind
      apply Safe.update _ fun _ _ _ _ _ _ _ => trivial
      intro w₂ y₂ hs₂ l₂ hu₂
      have hmoving₂ := hmoving.append hu₂.writes fun v hv => by
        obtain ⟨k, -, rfl⟩ := List.mem_map.mp (List.mem_reverse.mp hv)
        exact show ¬Watched .idempotencyKey by decide
      have hmine₂ : Mine i req.userIdentifier p w₂.db y₂ := (mine_lasting _ p).rely hs₂.rely hmine₁
      apply Safe.pure
      apply Safe.bind
      apply safe_commit_turned _ fun _ _ _ _ _ _ => trivial
      intro w₃ y₃ hs₃
      have hmine₃ : Mine i req.userIdentifier p w₃.db y₃ := (mine_lasting _ p).rely hs₃.rely hmine₂
      obtain ⟨hlater, hleaves, hturned⟩ := hmine₃.turned lib hreq hs₃.world.wf hs₃.inv
        haccepted hmoving₂
      exact ⟨hlater, hleaves, hturned, Safe.pure rfl⟩

theorem createPaymentIntent_orderly (hreq : reqs i = .secureConfirm req) (totals : FinalTotal)
    (orderData : OrderResponse) (hmine : Mine i req.userIdentifier p sh.db x)
    (hl : ∀ v ∈ l.writes, ¬Watched v.tbl) : Safe (orderly lib reqs) G i (.ofOk fun _ _ _ l => l.writes = [])
      (createPaymentIntent lib key totals orderData p.publicId) sh x l := by
  apply Safe.bind
  apply Safe.bind
  apply Safe.read _ fun _ _ _ _ _ _ _ => trivial
  intro w y hs
  have hmine₁ : Mine i req.userIdentifier p w.db y := (mine_lasting _ p).rely hs.rely hmine
  apply Safe.bind
  apply safe_oneOrNone
  · exact fun _ => trivial
  · intro q hq
    have hmem : q ∈ (l.view w.db .payment).filter fun q : Payment => q.publicId = p.publicId :=
      hq ▸ List.mem_singleton_self q
    rw [view_of_written_nil (written_nil hl (by decide))] at hmem
    obtain ⟨hstored, hpub⟩ := List.mem_filter.mp hmem
    have hkey : IndexKey.publicId p.publicId ∈ rowKeys (t := .payment) q := by
      simp [rowKeys, of_decide_eq_true hpub]
    obtain rfl : q = p := hs.world.wf.eq_of_key (t := .payment) hstored (Store.mem_of_get hmine₁.stored) hkey
      (by simp [rowKeys])
    apply Safe.pure
    apply Safe.bind
    apply (beside_lasts (retryPayments_beside _ _ _ _) hmine₁ hl).mono
    rintro r sh₂ x₂ l₂ ⟨hmine₂, hl₂⟩
    cases r with
    | error e => trivial
    | ok res => exact settlePspResult_orderly hreq orderData _ res hmine₂ hl₂
  · trivial

variable (lib) in
/-- The request places an order. -/
theorem placed_turned (hreq : reqs i = .secureConfirm req) {d d' : Db} {o : Orders} {lines : List OrderItem}
    (h : Placed d d' o p lines) (hd' : d'.Wf) (hproducts : d' .product = d .product)
    (huser : o.userId = some req.userIdentifier) :
    Later d d' ∧ LeavesPending (fun o => x o ≠ some i) d d' ∧ Turned lib (reqs i) d d' := by
  refine ⟨h.later hproducts, h.leaves, fun f hf => .inr ⟨_, .place o.id (itemsQty (orderPairs d' o.id)), hf.placed h,
    ?_, ?_⟩⟩
  · exact .place (hf.fresh h.fresh)
  · rw [hreq]
    exact .place ⟨o, h.stored hd', huser⟩

theorem confirmOrder_orderly (hreq : reqs i = .secureConfirm req) (csId ikId : ℕ)
    (hl : ∀ v ∈ l.writes, ¬Reserved v.tbl) :
    Safe (orderly lib reqs) G i (fun _ _ _ _ => True) (confirmOrder lib req csId items m ikId) sh x l := by
  have hunpaid : ∀ v ∈ l.writes, Unpaid v := fun v hv => unpaid_of_beside fun hw => hl v hv (.inl hw)
  cases m with
  | COD =>
    -- the request raises before it commits
    exact (Safe.uncommitted orderly_watches (confirmOrder_uncommitted req csId items ikId)).mono
      fun _ _ _ _ _ => trivial
  | UPI =>
    apply Safe.bind
    apply ((placeOrderWithItems_builds orderly_indifferent lib req.userIdentifier .UPI items ikId
      (untouched_of_reserved hl)).and
      (Safe.confined orderly_watches (placeOrderWithItems_unpaid _ _ _) hunpaid)).mono
    rintro r sh₁ x₁ l₁ ⟨hbuilt, hunpaid₁⟩
    cases r with
    | error e => trivial
    | ok resp =>
      apply Safe.bind
      cases hlive : l₁.aborted with
      | true => exact Safe.of_aborted rfl hlive fun _ _ _ _ _ _ => trivial
      | false =>
        cases hbuilt hlive with
        | @charged _ o lines p _ _ hentered huser hcharged horder hamount hresp =>
        apply safe_commit_turned _ fun _ _ _ _ _ _ => trivial
        intro w y hs
        have hnow := hentered.seen hs
        have hplaced := entered_placed hnow hs.ok.wf hunpaid₁ horder
        have hproducts : l₁.view w.db .product = w.db .product :=
          applyWrites_of_untouched fun v hv he => by
            rcases (hunpaid₁ v hv).2.2 (he ▸ by decide) with ht | ht | ht <;> rw [he] at ht <;> cases ht
        obtain ⟨hlater, hleaves, hturned⟩ := placed_turned lib hreq hplaced hs.ok.wf hproducts huser
        refine ⟨hlater, hleaves, hturned, ?_⟩
        have hmine : Mine i req.userIdentifier p (l₁.view w.db)
            ((placers n).next i w.toShared ⟨l₁.view w.db, w.host⟩ y) := by
          refine ⟨hplaced.stored_payment hs.ok.wf, hplaced.pending, ?_, o, ?_, huser⟩
          · rw [horder]
            exact hplaced.placer hs.ok.wf
          · rw [horder]
            exact hplaced.stored hs.ok.wf
        dsimp only
        rw [hresp]
        apply Safe.bind
        apply (createPaymentIntent_orderly hreq _ _ hmine fun v hv => by cases hv).mono
        intro r sh₂ x₂ l₂ hl₂
        cases r with
        | error e => trivial
        | ok body =>
          have hnone : ∀ v ∈ l₂.writes, ¬Watched v.tbl := by
            rw [show l₂.writes = [] from hl₂]
            exact fun v hv => by cases hv
          apply beside_any _ hnone
          exact (updateCheckoutActiveness_beside csId false).bind fun _ => .pure _

theorem confirmUnanswered_orderly (hreq : reqs i = .secureConfirm req) (csId : ℕ)
    (hl : ∀ v ∈ l.writes, ¬Reserved v.tbl) :
    Safe (orderly lib reqs) G i (fun _ _ _ _ => True) (confirmUnanswered lib req csId items m) sh x l := by
  apply recording_bind (recordOrderIdempotency_recording _ _ _) hl
  intro o sh₁ x₁ l₁ hl₁
  cases o with
  | some ikId => exact confirmOrder_orderly hreq csId ikId hl₁
  | none =>
    have hsleep : (sleep 5).Acts Recording := .call trivial
    apply recording_bind hsleep hl₁
    intro _ sh₂ x₂ l₂ hl₂
    apply recording_bind (spcByIkey_recording _ _) hl₂
    intro r sh₃ x₃ l₃ hl₃
    cases r with
    | none => trivial
    | some d =>
      dsimp only
      split
      · trivial
      · exact confirmOrder_orderly hreq csId d.ikId hl₃

theorem placeOrder_orderly (hreq : reqs i = .secureConfirm req) :
    Safe (orderly lib reqs) G i (fun _ _ _ _ => True) (placeOrder lib req) sh x {} := by
  rw [placeOrder]
  split
  · trivial
  apply Safe.bind
  apply (validate_unwritten _ _).mono
  intro r sh₁ x₁ l₁ hl₁
  cases r with
  | error e => trivial
  | ok found =>
    have hnone : ∀ v ∈ l₁.writes, ¬Reserved v.tbl := by
      rw [show l₁.writes = [] from hl₁]
      exact fun v hv => by cases hv
    have htry : (Prog.call (.tryLock (idempotencyLockKey lib req.idempotencyKey) : ShopAction)).Acts Recording :=
      .call trivial
    apply recording_bind htry hnone
    intro _ sh₂ x₂ l₂ hl₂
    apply recording_bind (spcByIkey_recording _ _) hl₂
    intro o sh₃ x₃ l₃ hl₃
    cases o with
    | none => exact confirmUnanswered_orderly hreq found.1 hl₃
    | some d =>
      dsimp only
      split
      · trivial
      · split
        · trivial
        · exact confirmUnanswered_orderly hreq found.1 hl₃

end Request
end Phyllonix.Fulfilment
