import Phyllonix.UserWrites
import Phyllonix.OwnerColumns
import Phyllonix.ConfirmRuns

/-!
# Isolation of users in checkout

Requests of any kinds and users run interleaved. Whatever the steps of one checkout request
commit, the rows of the other users are the same before and after them.
-/

namespace Phyllonix
open Relational
variable {n : ℕ}

inductive ShopRequest where
  | initiate (userIdentifier : ℕ)
  | orderSummary (req : SummaryRequest)
  | secureConfirm (req : ConfirmRequest)
  | addToCart (req : AddToCartRequest)
  | webhook (req : WebhookRequest)
  | commitIntent (maxAttempts : ℕ) (ciId : Option ℕ)

/-- The worker replies to nobody. -/
def ShopRequest.handler (lib : Lib) (publicId : ℕ → UUID) : ShopRequest → Py (Option Reply)
  | .initiate userIdentifier => do pure (some (← initiateBuyNow userIdentifier))
  | .orderSummary req => do pure (some (← getOrderSummary lib req))
  | .secureConfirm req => do pure (some (← placeOrder lib req))
  | .addToCart req => do pure (some (← Phyllonix.addToCart publicId req))
  | .webhook req => do pure (some (← razorpayWebhook lib req))
  | .commitIntent maxAttempts ciId => do
    orderConfirmCommitintentHandler maxAttempts ciId
    pure none

/-- The user of a checkout request. -/
def ShopRequest.checkoutUser : ShopRequest → Option ℕ
  | .initiate userIdentifier => some userIdentifier
  | .orderSummary req => some req.userIdentifier
  | .secureConfirm req => some req.userIdentifier
  | _ => none

def shopRequests (lib : Lib) (publicId : ℕ → UUID) (reqs : Fin n → ShopRequest) (w : World shop shopHost) :
    Sys shop shopHost n (Except (Exn AppErr) (Option Reply)) :=
  .start w fun i => ((reqs i).handler lib publicId).session

/-- A checkout request may write rows of its user; of the other requests nothing is asked. -/
def ShopRequest.allowance (req : ShopRequest) : Allowance ownerOrder :=
  req.checkoutUser.elim (.any ownerOrder) ownRows

theorem shopRequest_safe (lib : Lib) (publicId : ℕ → UUID) {reqs : Fin n → ShopRequest} (i : Fin n)
    {G : Guard shop shopHost n} {sh : Shared shop shopHost} :
    Safe (allowances fun i => (reqs i).allowance) G i (fun _ _ _ _ => True)
      ((reqs i).handler lib publicId).session sh () {} := by
  have hchecked : ∀ {p : Py Reply}, Heeds (fun i => (reqs i).allowance) G i (fun _ _ => True) p sh.db →
      Safe (allowances fun i => (reqs i).allowance) G i (fun _ _ _ _ => True)
        (do pure (some (← p)) : Py (Option Reply)).session sh () {} := by
    intro p hp
    apply Heeds.safe_session (Q := fun _ _ => True)
    exact hp.bind fun _ _ _ _ => Heeds.pure fun _ _ => trivial
  have hother : ∀ {p : Py (Option Reply)}, (reqs i).allowance = .any ownerOrder → p.Acts KeepsOwners →
      Safe (allowances fun i => (reqs i).allowance) G i (fun _ _ _ _ => True) p.session sh () {} :=
    fun hi hp => safe_unrestricted hi (hp.session trivial)
  cases hreq : reqs i with
  | initiate u =>
    apply hchecked
    apply initiateBuyNow_heeds
    simp only [hreq]
    rfl
  | orderSummary req =>
    apply hchecked
    refine getOrderSummary_heeds ?_ rfl
    simp only [hreq]
    rfl
  | secureConfirm req =>
    apply hchecked
    refine placeOrder_heeds ?_ rfl
    simp only [hreq]
    rfl
  | addToCart req =>
    apply hother
    · simp only [hreq]
      rfl
    · exact (addToCart_acts keepsOwners_cart _ _).bind fun _ => .pure _
  | webhook req =>
    apply hother
    · simp only [hreq]
      rfl
    · exact (razorpayWebhook_owners _ _).bind fun _ => .pure _
  | commitIntent maxAttempts ciId =>
    apply hother
    · simp only [hreq]
      rfl
    · exact (orderConfirmCommitintentHandler_owners _ _).bind fun _ => .pure _

/-- From any reachable state, the steps of a checkout request of user `u` leave every row
that belongs to another user as it is, whatever fails and however the request ends. -/
theorem checkout_isolated (lib : Lib) (publicId : ℕ → UUID) {reqs : Fin n → ShopRequest}
    {w : World shop shopHost} (hw : w.Ok) {s s' : Sys shop shopHost n (Except (Exn AppErr) (Option Reply))}
    (hreach : Sys.Reach (shopRequests lib publicId reqs w) s) {i : Fin n} {u : ℕ}
    (hu : (reqs i).checkoutUser = some u) (hrun : Sys.Run (Guard.only i) History.none s () s' ()) :
    SameForOthers u s.world.db s'.world.db := by
  have hinv : s.Inv (allowances fun i => (reqs i).allowance) (fun _ _ _ _ _ => True)
      (fun _ _ _ _ _ => True) () :=
    Sys.Run.inv (P := allowances fun i => (reqs i).allowance) hreach
      (Sys.inv_start hw trivial fun i => shopRequest_safe lib publicId i)
  apply hrun.published hinv
  · exact .refl u
  · exact fun _ _ _ => .trans
  · intro d d' hd hd' hpub
    have hown : (reqs i).allowance = ownRows u := by rw [ShopRequest.allowance, hu, Option.elim]
    exact Publishes.sameForOthers hd hd' (hown ▸ hpub)

/-- User 9 is about to order; user 8 has ordered before. -/
def twoUsers : World shop shopHost where
  db
    | .product => [⟨5, 8, 100⟩]
    | .checkoutSession => [⟨1, 11, 9, some [⟨1, 5, 2, 100, 8⟩], some .UPI, true, seconds 900⟩,
        ⟨2, 12, 8, some [⟨2, 5, 1, 100, 8⟩], some .UPI, true, seconds 900⟩]
    | .idempotencyKey => [⟨1, "k0", 2, 8, some "pay_now", some 1, none, none, 0, some (seconds 900)⟩]
    | .orders => [⟨1, 21, 1, some 8, 10, 100, 2, 0, 0, 102⟩]
    | .payment => [⟨1, 22, 1, some "razorpay", none, none, 0, 102⟩]
    | _ => []
  host := ⟨0, 100, [], []⟩
  seq _ := 6

theorem twoUsers_ok : twoUsers.Ok :=
  ⟨Store.wf_of_pairwise fun t => by cases t <;> decide, fun t => by cases t <;> decide⟩

/-- The order of user 9 is committed beside that of user 8. -/
theorem checkout_isolated_order : ∃ s' : Sys shop shopHost 1 (Except (Exn AppErr) (Option Reply)),
    (s'.world.db .orders).length = 2 ∧ SameForOthers 9 twoUsers.db s'.world.db := by
  have hplay : ((shopRequests plainLib id (fun _ : Fin 1 => .secureConfirm oneConfirm) twoUsers).exec
      (Guard.only 0) (ordering 0 ++ refusal 0)).map (fun s => (s.world.db .orders).length) = some 2 := by
    decide +kernel
  obtain ⟨s', hs, hlen⟩ := Option.map_eq_some_iff.mp hplay
  obtain ⟨⟨⟩, hrun⟩ := Sys.run_of_exec History.none () hs
  exact ⟨s', hlen, checkout_isolated plainLib id twoUsers_ok .start (i := 0) rfl hrun⟩

end Phyllonix
