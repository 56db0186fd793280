import Phyllonix.OrderTurns
import Phyllonix.CartActions
import Phyllonix.CheckoutInitiation

/-!
# Footprints of the shop

Which tables the statements of each request write. Carts, the initiation and the summary write no
table of orders; only confirmations and notifications do, and of these none writes a product.
-/

namespace Phyllonix.Fulfilment
open Relational

/-- The statement writes no table of orders and no product. -/
abbrev Beside : ShopAction → Prop := Action.Footprint (fun t => ¬Watched t) fun t => ¬Watched t

theorem read_beside {α : Type} (f : Db → α) : (Prog.call (.read f : ShopAction)).Acts Beside := .call trivial

theorem hostCall_beside (a : HostAct) : (hostCall a).Acts Beside := .call trivial

theorem lock_beside (t : Table) (p : t.Row → Bool) : (selectForUpdate t p).Acts Beside := .call trivial

theorem commit_beside : commit.Acts Beside := .call trivial

theorem update_beside {t : Table} (ht : ¬Watched t) (p : t.Row → Bool) (f : t.Row → t.Row)
    (hf : ∀ r, rowId (f r) = rowId r) : (update t p f hf).Acts Beside := .call ht

theorem insertOnConflict_beside {t : Table} (ht : ¬Watched t) (mk : ℕ → t.Row) (hmk : ∀ m, rowId (mk m) = m) :
    (insertOnConflictDoNothing t mk hmk).Acts Beside := .call ht

theorem insert_beside {t : Table} (ht : ¬Watched t) (mk : ℕ → t.Row) (hmk : ∀ m, rowId (mk m) = m) :
    (insert t mk hmk).Acts Beside := insert_acts ht

/-! ## Carts and checkouts -/

theorem beside_cart : CartActs Beside where
  read _ := trivial
  lock _ := trivial
  update _ _ _ := show ¬Watched .cartItem by decide
  create _ _ := show ¬Watched .cart by decide
  add _ _ := show ¬Watched .cartItem by decide
  commit := trivial
  rollback := trivial

theorem updateCheckoutActiveness_beside (csId : ℕ) (active : Bool) :
    (updateCheckoutActiveness csId active).Acts Beside :=
  (update_beside (by decide) _ _ _).bind fun _ => commit_beside

theorem getCheckoutSession_beside (userId : ℕ) : (getCheckoutSession userId).Acts Beside := by
  apply (read_beside _).bind
  intro rows
  apply (oneOrNone_acts rows).bind
  intro o
  cases o with
  | none => trivial
  | some cs =>
    apply (hostCall_beside _).bind
    intro t
    split
    · exact (updateCheckoutActiveness_beside _ _).bind fun _ => trivial
    · trivial

theorem initiateBuyNow_beside (userIdentifier : ℕ) : (initiateBuyNow userIdentifier).Acts Beside := by
  have hcart : (ifCartExists userIdentifier).Acts Beside := by
    apply (read_beside _).bind
    intro rows
    split <;> trivial
  have hcheckout : ∀ t, (getOrCreateCheckoutSession userIdentifier t).Acts Beside := by
    intro t
    apply (hostCall_beside _).bind
    intro publicId
    apply (insertOnConflict_beside (by decide) _ _).bind
    intro cs
    cases cs with
    | some cs => trivial
    | none =>
      apply (getCheckoutSession_beside _).bind
      intro o
      cases o <;> trivial
  apply (hostCall_beside _).bind
  intro t
  apply hcart.bind
  intro _
  apply (hcheckout _).bind
  exact fun _ => commit_beside.bind fun _ => trivial

theorem lockCartProducts_beside (rows : List (CartItem × Product)) : (lockCartProducts rows).Acts Beside := by
  induction rows with
  | nil => trivial
  | cons row rows ih => exact (lock_beside _ _).bind fun _ => ih.bind fun _ => trivial

theorem reserveInventory_beside (items : List SnapshotItem) (csId t : ℕ) :
    (reserveInventory items csId t).Acts Beside := by
  induction items with
  | nil => trivial
  | cons it items ih => exact (insertOnConflict_beside (by decide) _ _).bind fun _ => ih

theorem getCheckoutDetails_beside (checkoutId : UUID) (userId : ℕ) :
    (getCheckoutDetails checkoutId userId).Acts Beside := by
  apply (read_beside _).bind
  intro rows
  apply (oneOrNone_acts rows).bind
  intro o
  cases o with
  | none => trivial
  | some cs =>
    apply (hostCall_beside _).bind
    intro t
    split
    · exact (updateCheckoutActiveness_beside _ _).bind fun _ => trivial
    · trivial

theorem reserveSnapshot_beside (lib : Lib) (req : SummaryRequest) (m : PaymentMethod) (cs : CheckoutDetails) :
    (reserveSnapshot lib req m cs).Acts Beside := by
  have hcart : (captureCartSnapshot req.userIdentifier).Acts Beside := by
    apply (read_beside _).bind
    intro rows
    apply (lockCartProducts_beside rows).bind
    intro items
    cases items <;> trivial
  have hstock : ∀ data, (itemsAvblty data).Acts Beside := by
    intro data
    apply (hostCall_beside _).bind
    intro t
    apply (read_beside _).bind
    intro reserved
    dsimp only
    split <;> trivial
  apply hcart.bind
  intro cart
  apply (hstock _).bind
  intro _
  apply (reserveInventory_beside _ _ _).bind
  intro _
  apply Prog.Acts.bind ((update_beside (by decide) _ _ _).bind fun _ => .pure _)
  exact fun _ => commit_beside.bind fun _ => trivial

theorem getOrderSummary_beside (lib : Lib) (req : SummaryRequest) : (getOrderSummary lib req).Acts Beside := by
  rw [getOrderSummary]
  split
  · trivial
  · apply (getCheckoutDetails_beside _ _).bind
    intro cs
    split
    · trivial
    · exact reserveSnapshot_beside _ _ _ _

/-! ## Confirmations -/

theorem validateCheckout_beside (checkoutId : UUID) (userId : ℕ) :
    (validateCheckoutGetItemsPaymethod checkoutId userId).Acts Beside := by
  apply (lock_beside _ _).bind
  intro rows
  apply (oneOrNone_acts rows).bind
  intro o
  cases o with
  | none => trivial
  | some cs =>
    apply (hostCall_beside _).bind
    intro t
    split
    · exact (updateCheckoutActiveness_beside _ _).bind fun _ => trivial
    · split
      · trivial
      · split <;> trivial

/-- The statement writes records of idempotency keys at most. -/
abbrev Recording : ShopAction → Prop :=
  Action.Footprint (fun t => t = Table.idempotencyKey) fun t => t = Table.idempotencyKey

theorem recording_beside {α : Type} {p : Py α} (h : p.Acts Recording) : p.Acts Beside := by
  have hkey : ∀ t : Table, t = .idempotencyKey → ¬Watched t := by
    rintro t rfl
    decide
  exact h.mono fun a ha => ha.mono hkey hkey

theorem spcByIkey_recording (key : String) (userId : ℕ) : (spcByIkey key userId).Acts Recording := by
  apply (Prog.Acts.call trivial).bind
  intro rows
  apply (oneOrNone_acts rows).bind
  intro o
  cases o with
  | none => trivial
  | some k =>
    apply (Prog.Acts.call trivial).bind
    intro t
    split
    · trivial
    · split <;> trivial

theorem recordOrderIdempotency_recording (key : String) (userId csId : ℕ) :
    (recordOrderIdempotency key userId csId).Acts Recording := by
  apply (Prog.Acts.call trivial).bind
  intro t
  exact Prog.Acts.bind (A := Recording) (.call rfl) fun _ => trivial

theorem updateOrderIdempotencyRecord_recording (lib : Lib) (userId ikId ownerId : ℕ) (code : Option ℕ)
    (body : Option (List (String × PyVal))) (ty : String) :
    (updateOrderIdempotencyRecord lib userId ikId ownerId code body ty).Acts Recording := by
  have hupdate : ∀ (b : Option Json), (do
      let _ ← update .idempotencyKey (fun k : IdempotencyKey => k.id = ikId && k.createdBy = userId)
        fun k : IdempotencyKey =>
          { k with ownerId := some ownerId, ownerType := some ty, responseBody := b, responseCode := code } :
        Py Unit).Acts Recording := fun b => Prog.Acts.bind (A := Recording) (.call rfl) fun _ => trivial
  unfold updateOrderIdempotencyRecord
  split
  · exact hupdate _
  · exact hupdate _
  · exact (ofApp_acts _).bind hupdate

theorem updateIdempotentResponse_recording (key : String) (code : ℕ) (body : Json) :
    (updateIdempotentResponse key code body).Acts Recording :=
  Prog.Acts.bind (A := Recording) (.call rfl) fun _ => trivial

theorem recordPaymentAttempt_beside (payId no st : ℕ) : (recordPaymentAttempt payId no st).Acts Beside :=
  (insert_beside (by decide) _ _).bind fun _ => trivial

theorem updatePaymentAttemptResp_beside (attemptId st : ℕ) (resp : Json) :
    (updatePaymentAttemptResp attemptId st resp).Acts Beside :=
  (update_beside (by decide) _ _ _).bind fun _ => trivial

theorem retryPayments_beside (req : PspRequest) (payId max : ℕ) (base : Rat) :
    (retryPayments (createPspOrder req) payId max base).Acts Beside := by
  have hall : ∀ (attempts : List ℕ) exc,
      (retryWrapper (createPspOrder req) payId max base attempts exc).Acts Beside := by
    intro attempts
    induction attempts with
    | nil => exact fun _ => trivial
    | cons no rest ih =>
      intro exc
      apply (recordPaymentAttempt_beside payId no _).bind
      intro attemptId
      have hretry : ∀ (st : ℕ) (resp : Json) (e : Exn AppErr) (q : Rat), (do
          updatePaymentAttemptResp attemptId st resp
          sleep q
          retryWrapper (createPspOrder req) payId max base rest (some e)).Acts Beside := fun st resp e q =>
        (updatePaymentAttemptResp_beside attemptId st resp).bind fun _ => (hostCall_beside _).bind fun _ => ih _
      apply Prog.Acts.bind
      · apply Prog.Acts.attempt
        apply (hostCall_beside _).bind
        intro resp
        exact (updatePaymentAttemptResp_beside attemptId _ _).bind fun _ => trivial
      · intro r
        dsimp only
        split
        · trivial
        · exact hretry _ _ _ _
        · split
          · exact hretry _ _ _ _
          · exact (updatePaymentAttemptResp_beside attemptId _ _).bind fun _ => trivial
        · exact (updatePaymentAttemptResp_beside attemptId _ _).bind fun _ => trivial
  exact hall _ _

/-! ## Stock -/

/-- Commit intents are born pending. -/
def BornPending (v : Write shop) : Prop :=
  ∀ c : CommitIntent, v = ⟨.commitIntent, c⟩ → c.status = CommitIntentStatus.pending.value

theorem bornPending_of_ne {v : Write shop} (h : v.tbl ≠ .commitIntent) : BornPending v := by
  rintro c rfl
  exact absurd rfl h

/-- The statement writes no product, and of the commit intents it only adds pending ones. -/
abbrev SparesStock (a : ShopAction) : Prop :=
  a.Footprint (fun t => t ≠ Table.product) (fun t => t ≠ Table.product ∧ t ≠ Table.commitIntent) ∧
    a.Confined BornPending

theorem Beside.sparesStock {a : ShopAction} (h : Beside a) : SparesStock a := by
  have hproduct : ∀ t, ¬Watched t → t ≠ .product := by
    rintro t ht rfl
    exact ht (by decide)
  have hintent : ∀ t, ¬Watched t → t ≠ .commitIntent := by
    rintro t ht rfl
    exact ht (by decide)
  refine ⟨h.mono hproduct fun t ht => ⟨hproduct t ht, hintent t ht⟩, ?_⟩
  cases a with
  | update t p f hf => exact fun _ _ => bornPending_of_ne (hintent t h)
  | insert t mk hmk skip => exact fun _ => bornPending_of_ne (hintent t h)
  | _ => trivial

theorem sparesStock {α : Type} {p : Py α} (h : p.Acts Beside) : p.Acts SparesStock :=
  h.mono fun _ => Beside.sparesStock

theorem insert_spares {t : Table} (ht : t ≠ .product ∧ t ≠ .commitIntent) (mk : ℕ → t.Row)
    (hmk : ∀ m, rowId (mk m) = m) : (insert t mk hmk).Acts SparesStock :=
  insert_acts ⟨ht.1, fun _ => bornPending_of_ne ht.2⟩

theorem insertOnConflict_spares {t : Table} (ht : t ≠ .product) {mk : ℕ → t.Row} (hmk : ∀ m, rowId (mk m) = m)
    (hborn : ∀ m, BornPending ⟨t, mk m⟩) : (insertOnConflictDoNothing t mk hmk).Acts SparesStock :=
  .call ⟨ht, hborn⟩

theorem update_spares {t : Table} (ht : t ≠ .product ∧ t ≠ .commitIntent) (p : t.Row → Bool) (f : t.Row → t.Row)
    (hf : ∀ r, rowId (f r) = rowId r) : (update t p f hf).Acts SparesStock :=
  .call ⟨ht, fun _ _ => bornPending_of_ne ht.2⟩

theorem placeOrderWithItems_spares (lib : Lib) (userId : ℕ) (m : PaymentMethod) (totals : FinalTotal) (ik : ℕ) :
    (placeOrderWithItems lib userId m totals ik).Acts SparesStock := by
  have hitems : ∀ o (items : List SnapshotItem), (addOrderItems lib o items).Acts SparesStock := by
    intro o items
    induction items with
    | nil => trivial
    | cons it items ih => exact (insert_spares (by decide) _ _).bind fun _ => ih
  have hrecord : ∀ o code body ty, (updateOrderIdempotencyRecord lib userId ik o code body ty).Acts SparesStock :=
    fun o code body ty => sparesStock (recording_beside (updateOrderIdempotencyRecord_recording lib _ _ _ _ _ _))
  apply (sparesStock (hostCall_beside _)).bind
  intro publicId
  apply (insert_spares (by decide) _ _).bind
  intro order
  apply (hitems _ _).bind
  intro _
  dsimp only
  split
  · apply Prog.Acts.bind
    · apply (sparesStock (hostCall_beside _)).bind
      exact fun pub => (insert_spares (by decide) _ _).bind fun _ => .pure _
    · intro pub
      exact (hrecord _ _ _ _).bind fun _ => trivial
  · exact (hrecord _ _ _ _).bind fun _ => trivial

theorem createPaymentIntent_spares (lib : Lib) (key : String) (totals : FinalTotal) (orderData : OrderResponse)
    (pub : UUID) : (createPaymentIntent lib key totals orderData pub).Acts SparesStock := by
  have hpay : (payIdByPublicPayid pub).Acts SparesStock := by
    apply (sparesStock (read_beside _)).bind
    exact fun rows => (oneOrNone_acts rows).bind fun _ => .pure _
  apply hpay.bind
  intro o
  cases o with
  | none => trivial
  | some payId =>
    apply (sparesStock (retryPayments_beside _ _ _ _)).bind
    intro res
    rw [settlePspResult]
    split
    · trivial
    · trivial
    · trivial
    · split
      · exact (sparesStock (recordPaymentAttempt_beside payId _ _)).bind fun _ => trivial
      · have haccept : ∀ poid, (updatePaymentStatusNprovider payId poid).Acts SparesStock := by
          intro poid
          apply (ofApp_acts _).bind
          exact fun _ => (update_spares (by decide) _ _ _).bind fun _ => .pure _
        apply (haccept _).bind
        intro _
        apply (sparesStock (recording_beside (updateIdempotentResponse_recording _ _ _))).bind
        exact fun _ => (sparesStock commit_beside).bind fun _ => trivial

theorem placeOrder_spares (lib : Lib) (req : ConfirmRequest) : (placeOrder lib req).Acts SparesStock := by
  have hconfirm : ∀ csId items m ik, (confirmOrder lib req csId items m ik).Acts SparesStock := by
    intro csId items m ik
    apply (placeOrderWithItems_spares lib _ _ _ _).bind
    intro resp
    apply (sparesStock commit_beside).bind
    intro _
    split
    · apply (createPaymentIntent_spares lib _ _ _ _).bind
      exact fun _ => (sparesStock (updateCheckoutActiveness_beside _ _)).bind fun _ => trivial
    · exact (ofApp_acts _).bind fun _ => trivial
  have hunanswered : ∀ csId items m, (confirmUnanswered lib req csId items m).Acts SparesStock := by
    intro csId items m
    apply (sparesStock (recording_beside (recordOrderIdempotency_recording _ _ _))).bind
    intro o
    cases o with
    | some ik => exact hconfirm _ _ _ _
    | none =>
      apply (sparesStock (hostCall_beside _)).bind
      intro _
      apply (sparesStock (recording_beside (spcByIkey_recording _ _))).bind
      intro r
      cases r with
      | none => trivial
      | some d =>
        dsimp only
        split
        · trivial
        · exact hconfirm _ _ _ _
  rw [placeOrder]
  split
  · trivial
  · apply (sparesStock (validateCheckout_beside _ _)).bind
    intro found
    apply (Prog.Acts.call ⟨trivial, trivial⟩).bind
    intro _
    apply (sparesStock (recording_beside (spcByIkey_recording _ _))).bind
    intro o
    cases o with
    | none => exact hunanswered _ _ _
    | some d =>
      dsimp only
      split
      · trivial
      · split
        · trivial
        · exact hunanswered _ _ _

/-! ## Notifications -/

theorem markWebhookReceived_beside (ev : Option String) (provider : String) (payload : Option Json) (o : Option ℕ)
    (err : Option String) (st : Option ℕ) : (markWebhookReceived ev provider payload o err st).Acts Beside :=
  (insertOnConflict_beside (by decide) _ _).bind fun _ => trivial

theorem markWebhookProcessed_beside (evId : ℕ) (err : Option String) : (markWebhookProcessed evId err).Acts Beside :=
  (hostCall_beside _).bind fun _ => (update_beside (by decide) _ _ _).bind fun _ => .pure _

theorem emitPaymentEvents_spares (o : ℕ) (f : PaymentFields) (st : ℕ) :
    (emitPaymentEvents o f st).Acts SparesStock := by
  have hintent : ∀ reason ty payload, (createCommitIntent o reason ty payload).Acts SparesStock := by
    intro reason ty payload
    apply (insertOnConflict_spares (by decide) _ _).bind
    · intro ci
      cases ci with
      | some ci => trivial
      | none => exact (sparesStock (read_beside _)).bind fun rows => (oneOrNone_acts rows).bind fun _ => .pure _
    · intro m c hc
      cases hc
      rfl
  have hevent : ∀ topic payload ty, (emitOutboxEvent topic payload ty o).Acts SparesStock := by
    intro topic payload ty
    have hne : Table.outboxEvent ≠ .commitIntent := by decide
    apply (insertOnConflict_spares (by decide) _ fun _ => bornPending_of_ne hne).bind
    intro ev
    cases ev with
    | some ev => trivial
    | none => exact (sparesStock (read_beside _)).bind fun rows => (oneOrNone_acts rows).bind fun _ => .pure _
  rw [emitPaymentEvents]
  split
  · apply ((sparesStock (read_beside _)).bind fun _ => .pure _).bind
    intro items
    apply (hintent _ _ _).bind
    exact fun _ => (hevent _ _ _).bind fun _ => .pure _
  · split
    · exact (hevent _ _ _).bind fun _ => .pure _
    · trivial

theorem criticalSection_spares (payId : ℕ) (f : PaymentFields) (st : PayOrderStatus) (evId : ℕ) :
    (criticalSection payId f st evId).Acts SparesStock := by
  have hpay : (updatePayCompletionGetOrderid payId f.providerPaymentId st.paymentStatus).Acts SparesStock := by
    apply (ofApp_acts _).bind
    intro ppid
    apply (update_spares (by decide) _ _ _).bind
    exact fun rows => (oneOrNone_acts rows).bind fun _ => .pure _
  apply hpay.bind
  intro o
  cases o with
  | none => trivial
  | some o =>
    cases o with
    | zero => trivial
    | succ o =>
      have horder : (updateOrderStatus (o + 1) st.orderStatus).Acts SparesStock :=
        (update_spares (by decide) _ _ _).bind fun rows => (oneOrNone_acts rows).bind fun _ => .pure _
      apply horder.bind
      intro _
      apply (emitPaymentEvents_spares _ _ _).bind
      intro out
      apply (sparesStock (markWebhookProcessed_beside _ _)).bind
      exact fun _ => (sparesStock commit_beside).bind fun _ => .pure _

theorem razorpayWebhook_spares (lib : Lib) (req : WebhookRequest) : (razorpayWebhook lib req).Acts SparesStock := by
  have hnote : ∀ ev payload err st (reply : Reply), (do
      let _ ← markWebhookReceived ev "razorpay" payload none err st
      pure reply : Py Reply).Acts SparesStock := fun ev payload err st reply =>
    (sparesStock (markWebhookReceived_beside _ _ _ _ _ _)).bind fun _ => .pure _
  have hrecovery : ∀ evId st, (recordWebhookError evId st).Acts SparesStock := by
    intro evId st
    apply Prog.Acts.bind (.call ⟨trivial, trivial⟩)
    intro _
    apply Prog.Acts.bind ((update_spares (by decide) _ _ _).bind fun _ => .pure _)
    exact fun _ => sparesStock commit_beside
  have hpublish : ∀ out, (publishCommitted out).Acts SparesStock := by
    intro out
    rw [publishCommitted]
    split
    · apply (sparesStock (hostCall_beside _)).bind
      intro _
      split
      · exact sparesStock (hostCall_beside _)
      · trivial
    · trivial
  have hprocess : ∀ pay f st evId, (processEvent pay f st evId).Acts SparesStock := by
    intro pay f st evId
    apply (criticalSection_spares _ _ _ _).attempt.bind
    intro r
    cases r with
    | error e => exact (hrecovery _ _).attempt.bind fun _ => trivial
    | ok out =>
      cases out with
      | none => trivial
      | some out => exact (hpublish _).bind fun _ => .pure _
  have hreceive : ∀ ev payload event pay f, (receiveEvent ev payload event pay f).Acts SparesStock := by
    intro ev payload event pay f
    apply (ofApp_acts _).bind
    intro st
    apply (sparesStock (markWebhookReceived_beside _ _ _ _ _ _)).bind
    intro received
    split
    · trivial
    · split
      · trivial
      · split
        · trivial
        · exact hprocess _ _ _ _
  have hverify : (verifyRazorpaySignature lib req).Acts SparesStock := by
    rcases verifyRazorpaySignature_cases lib req with h | ⟨m, h⟩ <;> rw [h] <;> trivial
  apply hverify.bind
  intro _
  split
  · trivial
  · apply (ofApp_acts _).bind
    intro event
    split
    · trivial
    · trivial
    · apply (ofApp_acts _).bind
      intro f
      have hfound : (getPayRecordByProviderOrderid f.providerOrderId "razorpay").Acts SparesStock := by
        apply (ofApp_acts _).bind
        intro poid
        apply (sparesStock (read_beside _)).bind
        exact fun rows => (oneOrNone_acts rows).bind fun _ => .pure _
      apply hfound.bind
      intro pay
      split
      · exact hnote _ _ _ _ _
      · exact hnote _ _ _ _ _
      · split
        · trivial
        · exact hreceive _ _ _ _ _

end Phyllonix.Fulfilment
