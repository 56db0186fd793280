import Phyllonix.UserRows
import Phyllonix.CartActions
import Phyllonix.WebhookAnswers
import Phyllonix.CommitIntentStock

/-!
# Requests that leave the owners of rows alone

Add-to-cart, the webhook and the commit-intent worker set quantities, statuses and
identifiers of the payment provider, and never the columns that say whose a row is.
-/

namespace Phyllonix
open Relational

abbrev KeepsOwners : ShopAction → Prop := Action.Keeps ownerOrder

theorem select_owners (t : Table) (p : t.Row → Bool) : (select t p).Acts KeepsOwners := .call trivial

theorem hostCall_owners (a : HostAct) : (hostCall a).Acts KeepsOwners := .call trivial

theorem commit_owners : commit.Acts KeepsOwners := .call trivial

theorem update_owners {t : Table} (p : t.Row → Bool) (f : t.Row → t.Row) (hf : ∀ r, rowId (f r) = rowId r)
    (hsame : ∀ r, SameOwner r (f r) := by simp [SameOwner]) : (update t p f hf).Acts KeepsOwners := by
  apply Prog.Acts.call
  intro r a ha
  cases ha
  exact ⟨f r, rfl, hsame r⟩

theorem insertOnConflict_owners {t : Table} (mk : ℕ → t.Row) (hmk : ∀ m, rowId (mk m) = m) :
    (insertOnConflictDoNothing t mk hmk).Acts KeepsOwners :=
  .call fun _ _ ha => nomatch ha

/-! ## Add-to-cart -/

theorem keepsOwners_cart : CartActs KeepsOwners where
  read _ := trivial
  lock _ := trivial
  update _ _ _ := by
    intro r a ha
    cases ha
    exact ⟨_, rfl, by simp [SameOwner]⟩
  create _ _ := fun _ _ ha => nomatch ha
  add _ _ := fun _ _ ha => nomatch ha
  commit := trivial
  rollback := trivial

/-! ## The webhook -/

theorem emitPaymentEvents_owners (orderId : ℕ) (f : PaymentFields) (st : ℕ) :
    (emitPaymentEvents orderId f st).Acts KeepsOwners := by
  have hintent : ∀ reason ty payload, (createCommitIntent orderId reason ty payload).Acts KeepsOwners := by
    intro reason ty payload
    apply (insertOnConflict_owners _ _).bind
    intro ci
    cases ci with
    | some ci => trivial
    | none => exact (select_owners _ _).bind fun rows => (oneOrNone_acts rows).bind fun _ => .pure _
  have hevent : ∀ topic payload ty, (emitOutboxEvent topic payload ty orderId).Acts KeepsOwners := by
    intro topic payload ty
    apply (insertOnConflict_owners _ _).bind
    intro ev
    cases ev with
    | some ev => trivial
    | none => exact (select_owners _ _).bind fun rows => (oneOrNone_acts rows).bind fun _ => .pure _
  rw [emitPaymentEvents]
  split
  · apply ((select_owners _ _).bind fun _ => .pure _).bind
    intro items
    apply (hintent _ _ _).bind
    exact fun _ => (hevent _ _ _).bind fun _ => .pure _
  · split
    · exact (hevent _ _ _).bind fun _ => .pure _
    · trivial

theorem criticalSection_owners (payId : ℕ) (f : PaymentFields) (st : PayOrderStatus) (evId : ℕ) :
    (criticalSection payId f st evId).Acts KeepsOwners := by
  have hpay : (updatePayCompletionGetOrderid payId f.providerPaymentId st.paymentStatus).Acts KeepsOwners := by
    apply (ofApp_acts _).bind
    intro ppid
    apply (update_owners _ _ _).bind
    exact fun rows => (oneOrNone_acts rows).bind fun _ => .pure _
  apply hpay.bind
  intro o
  cases o with
  | none => trivial
  | some o =>
    cases o with
    | zero => trivial
    | succ o =>
      have horder : (updateOrderStatus (o + 1) st.orderStatus).Acts KeepsOwners :=
        (update_owners _ _ _).bind fun rows => (oneOrNone_acts rows).bind fun _ => .pure _
      apply horder.bind
      intro _
      apply (emitPaymentEvents_owners _ _ _).bind
      intro out
      have hprocessed : (markWebhookProcessed evId).Acts KeepsOwners :=
        (hostCall_owners _).bind fun t => (update_owners _ _ _).bind fun _ => .pure _
      exact hprocessed.bind fun _ => commit_owners.bind fun _ => .pure _

theorem processEvent_owners (pay : PayRecord) (f : PaymentFields) (st : PayOrderStatus) (evId : ℕ) :
    (processEvent pay f st evId).Acts KeepsOwners := by
  have hrecovery : (recordWebhookError evId st).Acts KeepsOwners := by
    apply (Prog.Acts.call trivial).bind
    intro _
    apply Prog.Acts.bind ((update_owners _ _ _).bind fun _ => .pure _)
    exact fun _ => commit_owners
  have hpublish : ∀ out, (publishCommitted out).Acts KeepsOwners := by
    intro out
    rw [publishCommitted]
    split
    · apply (hostCall_owners _).bind
      intro _
      split
      · exact hostCall_owners _
      · trivial
    · trivial
  apply (criticalSection_owners _ _ _ _).attempt.bind
  intro r
  cases r with
  | error e => exact hrecovery.attempt.bind fun _ => .raise _
  | ok o =>
    cases o with
    | none => trivial
    | some out => exact (hpublish out).bind fun _ => .pure _

theorem razorpayWebhook_owners (lib : Lib) (req : WebhookRequest) :
    (razorpayWebhook lib req).Acts KeepsOwners := by
  have hmark : ∀ ev provider payload orderId err st,
      (markWebhookReceived ev provider payload orderId err st).Acts KeepsOwners :=
    fun _ _ _ _ _ _ => (insertOnConflict_owners _ _).bind fun _ => .pure _
  have hreceive : ∀ ev payload event pay f, (receiveEvent ev payload event pay f).Acts KeepsOwners := by
    intro ev payload event pay f
    apply (ofApp_acts _).bind
    intro st
    apply (hmark _ _ _ _ _ _).bind
    intro ev
    split
    · trivial
    · match ev with
      | none => trivial
      | some ev =>
        simp only
        split
        · trivial
        · exact processEvent_owners _ _ _ _
  have hpay : ∀ poid provider, (getPayRecordByProviderOrderid poid provider).Acts KeepsOwners :=
    fun _ _ => (ofApp_acts _).bind fun _ => (select_owners _ _).bind fun rows =>
      (oneOrNone_acts rows).bind fun _ => .pure _
  apply (verifyRazorpaySignature_acts lib req).bind
  intro _
  match req.json with
  | none => trivial
  | some payload =>
    apply (ofApp_acts _).bind
    intro event
    split
    · trivial
    · trivial
    · apply (ofApp_acts _).bind
      intro f
      apply (hpay _ _).bind
      intro pay
      split
      · exact (hmark _ _ _ _ _ _).bind fun _ => .pure _
      · exact (hmark _ _ _ _ _ _).bind fun _ => .pure _
      · split
        · trivial
        · exact hreceive _ _ _ _ _

/-! ## The worker -/

theorem orderConfirmCommitintentHandler_owners (maxAttempts : ℕ) (ciId : Option ℕ) :
    (orderConfirmCommitintentHandler maxAttempts ciId).Acts KeepsOwners := by
  apply orderConfirmCommitintentHandler_acts
  refine ⟨fun _ => trivial, fun _ => trivial, fun _ => trivial, trivial, trivial, trivial, ?_, ?_⟩
  · rintro p f hf r a ⟨⟩
    exact ⟨f r, rfl, trivial⟩
  · rintro k - f hf r a ⟨⟩
    exact ⟨f r, rfl, trivial⟩

end Phyllonix
