import Phyllonix.ConfirmRuns
import Phyllonix.RelationalLog

/-!
# Checkouts that are paid on delivery

The response of such an order holds a UUID, which is not serialised: the exception comes before
the commit, and the order, its items and the idempotency record are rolled back.
-/

namespace Phyllonix
open Relational
variable {n : ℕ}

/-- The checkout is to be paid on delivery, and no response is stored for the key. -/
structure CodCheckout (req : ConfirmRequest) (d : Db) : Prop where
  method : ∀ c : CheckoutSession, c ∈ d .checkoutSession → c.publicId = req.checkoutId →
    c.selectedPaymentMethod = some .COD
  fresh : ∀ k : IdempotencyKey, k ∈ d .idempotencyKey → k.key = req.idempotencyKey → k.responseBody = none

/-! ## The order is not placed -/

section Raises
variable {lib : Lib} {A : ShopAction → Prop}

theorem placeOrderWithItems_raises (userId : ℕ) (totals : FinalTotal) (iKey : ℕ) :
    (placeOrderWithItems lib userId .COD totals iKey).Raises :=
  .after fun _ => .after fun _ => .after fun _ => trivial

theorem insert_uncommitted (t : Table) (mk : ℕ → t.Row) (hmk : ∀ m, rowId (mk m) = m) :
    (insert t mk hmk).Acts Action.Uncommitted := by
  apply Prog.Acts.bind (.call trivial)
  intro r
  cases r <;> trivial

theorem addOrderItems_uncommitted (orderId : ℕ) (items : List SnapshotItem) :
    (addOrderItems lib orderId items).Acts Action.Uncommitted := by
  induction items with
  | nil => trivial
  | cons it items ih => exact (insert_uncommitted _ _ _).bind fun _ => ih

theorem placeOrderWithItems_uncommitted (userId : ℕ) (totals : FinalTotal) (iKey : ℕ) :
    (placeOrderWithItems lib userId .COD totals iKey).Acts Action.Uncommitted := by
  apply Prog.Acts.bind (.call trivial)
  intro publicId
  apply (insert_uncommitted _ _ _).bind
  intro order
  exact (addOrderItems_uncommitted _ _).bind fun _ => trivial

theorem confirmOrder_raises (req : ConfirmRequest) (csId : ℕ) (items : List SnapshotItem) (ikId : ℕ) :
    (confirmOrder lib req csId items .COD ikId).Raises :=
  (placeOrderWithItems_raises _ _ _).bind _

/-- The commit after the order is never reached. -/
theorem confirmOrder_uncommitted (req : ConfirmRequest) (csId : ℕ) (items : List SnapshotItem) (ikId : ℕ) :
    (confirmOrder lib req csId items .COD ikId).Acts Action.Uncommitted :=
  (placeOrderWithItems_raises _ _ _).acts_bind (placeOrderWithItems_uncommitted _ _ _) _

end Raises

/-! ## What the request commits -/

/-- The pending writes only set whether the checkout is active. -/
def CodWrite (req : ConfirmRequest) (v : Write shop) : Prop :=
  ∃ c : CheckoutSession, v = ⟨.checkoutSession, c⟩ ∧
    (c.publicId = req.checkoutId → c.selectedPaymentMethod = some .COD)

theorem CodCheckout.commit {req : ConfirmRequest} {d : Db} (h : CodCheckout req d) {ws : List (Write shop)}
    (hws : ∀ v ∈ ws, CodWrite req v) :
    CodCheckout req (applyWrites ws d) ∧ SameOrders d (applyWrites ws d) := by
  have huntouched : ∀ t, t ≠ Table.checkoutSession → applyWrites ws d t = d t := by
    intro t ht
    apply applyWrites_of_untouched
    intro v hv
    obtain ⟨c, rfl, -⟩ := hws v hv
    exact ht.symm
  refine ⟨⟨fun c hc hpub => ?_, ?_⟩, fun t ht => huntouched t ?_⟩
  · cases mem_applyWrites hc with
    | inl hold => exact h.method c hold hpub
    | inr hnew =>
      obtain ⟨c', heq, hmethod⟩ := hws _ hnew
      cases heq
      exact hmethod hpub
  · rw [huntouched .idempotencyKey (by decide)]
    exact h.fresh
  · rintro rfl
    simp at ht

/-- Only request `i₀` has to leave the orders alone. -/
def codProtocol (req : ConfirmRequest) (i₀ : Fin n) : Protocol shop shopHost n :=
  shielded (RowOrder.any shop) (CodCheckout req) (fun i d d' => i = i₀ → SameOrders d d') fun _ _ _ _ _ => rfl

section Request
variable {lib : Lib} {req : ConfirmRequest} {i₀ : Fin n} {G : Guard shop shopHost n}
variable {sh : Shared shop shopHost} {x : Unit} {l : Txn shop}

theorem codProtocol_quiet (req : ConfirmRequest) (i₀ : Fin n) : Quiet (codProtocol req i₀) :=
  shielded_quiet _ _ _ _

theorem CodCheckout.seen {w : World shop shopHost} {y : Unit} (hs : Seen (codProtocol req i₀) i₀ l sh x w y) :
    CodCheckout req w.db := hs.inv

theorem updateCheckoutActiveness_cod (csId : ℕ) (hl : l.writes = []) :
    Safe (codProtocol req i₀) G i₀ (.ofOk fun _ _ _ _ => True) (updateCheckoutActiveness csId) sh x l := by
  apply Safe.bind
  apply Safe.update
  · intro w y hs l' hu
    have hwrites : ∀ v ∈ l'.writes, CodWrite req v := by
      intro v hv
      rw [hu.writes, hl, List.append_nil] at hv
      obtain ⟨c, hc, rfl⟩ := List.mem_map.mp (List.mem_reverse.mp hv)
      have hview : l.view w.db = w.db := Txn.view_of_no_writes hl _
      rw [hview] at hc
      exact ⟨_, rfl, (CodCheckout.seen hs).method c (List.mem_filter.mp hc).1⟩
    apply Safe.commit
    · intro w' y' hs' _
      obtain ⟨hcod, hsame⟩ := (CodCheckout.seen hs').commit hwrites
      exact ⟨hcod, ⟨fun _ _ => trivial, fun _ => hsame⟩, trivial⟩
    · exact fun _ _ _ _ _ _ _ => trivial
  · exact fun _ _ _ _ _ _ _ => trivial

/-- The request finds the payment on delivery, and has not written yet. -/
theorem validate_cod :
    Safe (codProtocol req i₀) G i₀ (.ofOk fun v _ _ l => v.2.2 = .COD ∧ l.writes = [])
      (validateCheckoutGetItemsPaymethod req.checkoutId req.userIdentifier) sh x {} := by
  apply Safe.bind
  apply Safe.lock _ fun _ _ _ _ _ _ _ => trivial
  intro w y hs _
  apply Safe.bind
  apply safe_oneOrNone
  · exact fun _ => trivial
  · intro c hc
    have hmem : c ∈ (w.db .checkoutSession).filter fun c : CheckoutSession =>
        c.userId = req.userIdentifier && c.isActive && c.publicId = req.checkoutId :=
      hc ▸ List.mem_singleton_self c
    obtain ⟨hrow, hp⟩ := List.mem_filter.mp hmem
    simp only [Bool.and_eq_true, decide_eq_true_eq] at hp
    have hmethod := (CodCheckout.seen hs).method c hrow hp.2
    apply Safe.bind
    apply safe_now (codProtocol_quiet req i₀)
    intro w₁ y₁ _
    simp only [hmethod]
    split
    · apply Safe.bind
      apply (updateCheckoutActiveness_cod c.id rfl).mono
      intro r _ _ _ _
      cases r <;> exact trivial
    · split
      · exact trivial
      · exact ⟨rfl, rfl⟩
  · exact trivial

/-- What is read under the key has no response. -/
theorem spcByIkey_cod (hl : l.writes = []) :
    Safe (codProtocol req i₀) G i₀ (.ofOk fun o _ _ l => (∀ d ∈ o, d.responseBody = none) ∧ l.writes = [])
      (spcByIkey req.idempotencyKey req.userIdentifier) sh x l := by
  apply Safe.bind
  apply Safe.read _ fun _ _ _ _ _ _ _ => trivial
  intro w y hs
  have hview : l.view w.db = w.db := Txn.view_of_no_writes hl _
  apply Safe.bind
  apply safe_oneOrNone
  · exact fun _ => ⟨nofun, hl⟩
  · intro k hk
    rw [hview] at hk
    have hmem : k ∈ (w.db .idempotencyKey).filter fun k : IdempotencyKey =>
        k.key = req.idempotencyKey && k.createdBy = req.userIdentifier := hk ▸ List.mem_singleton_self k
    obtain ⟨hrow, hp⟩ := List.mem_filter.mp hmem
    simp only [Bool.and_eq_true, decide_eq_true_eq] at hp
    have hnone := (CodCheckout.seen hs).fresh k hrow hp.1
    apply Safe.bind
    apply safe_now (codProtocol_quiet req i₀)
    intro w₁ y₁ _
    simp only
    split
    · exact trivial
    · split
      · exact trivial
      · refine ⟨fun d hd => ?_, hl⟩
        cases hd
        exact hnone
  · exact trivial

def Unanswered (r : Except (Exn AppErr) Reply) : Prop := ∀ reply, r ≠ .ok reply

theorem unanswered_error {e : Exn AppErr} : Unanswered (.error e) := fun _ h => by cases h

theorem confirmUnanswered_cod (csId : ℕ) (items : List SnapshotItem) (hl : l.writes = []) :
    Safe (codProtocol req i₀) G i₀ (fun r _ _ _ => Unanswered r)
      (confirmUnanswered lib req csId items .COD) sh x l := by
  have hraises : ∀ ikId sh x l, Safe (codProtocol req i₀) G i₀ (fun r _ _ _ => Unanswered r)
      (confirmOrder lib req csId items .COD ikId) sh x l := fun ikId _ _ _ =>
    Safe.raises (confirmOrder_uncommitted _ _ _ _) (confirmOrder_raises _ _ _ _) fun _ _ _ _ => nofun
  apply Safe.bind
  apply Safe.bind
  apply safe_now (codProtocol_quiet req i₀)
  intro w y _
  apply Safe.bind
  apply Safe.insert
  · exact fun w₁ y₁ _ m _ _ => hraises m _ _ _
  · intro _ w₁ y₁ _ m _
    apply Safe.bind
    apply safe_sleep (codProtocol_quiet req i₀)
    intro w₂ y₂ _
    apply Safe.bind
    apply (spcByIkey_cod hl).mono
    intro r sh' x' l' hr
    cases r with
    | error e => exact nofun
    | ok o =>
      cases o with
      | none => exact nofun
      | some d =>
        have hnone : d.responseBody = none := hr.1 d rfl
        simp only [hnone]
        exact hraises _ _ _ _
  · exact fun _ _ _ _ _ _ => nofun

theorem placeOrder_cod :
    Safe (codProtocol req i₀) G i₀ (fun r _ _ _ => Unanswered r) (placeOrder lib req) sh x {} := by
  rw [placeOrder]
  split
  · exact unanswered_error
  apply Safe.bind
  apply validate_cod.mono
  intro r sh₁ x₁ l₁ hr
  cases r with
  | error e => exact unanswered_error
  | ok v =>
    obtain ⟨hmethod, hl⟩ := hr
    simp only [hmethod]
    apply Safe.bind
    apply Safe.tryLock _ fun _ _ _ _ _ _ => unanswered_error
    intro w y _ b l' hl'
    have hl₁ : l'.writes = [] := by cases hl' with
      | inl heq => exact heq ▸ hl
      | inr heq => exact heq ▸ hl
    apply Safe.bind
    apply (spcByIkey_cod hl₁).mono
    intro r sh₂ x₂ l₂ hr
    cases r with
    | error e => exact unanswered_error
    | ok o =>
      obtain ⟨hnone, hl₂⟩ := hr
      cases o with
      | none => exact confirmUnanswered_cod _ _ hl₂
      | some d =>
        simp only [hnone d rfl]
        split
        · exact unanswered_error
        · exact confirmUnanswered_cod _ _ hl₂

end Request

/-- Commits of others leave the checkout to be paid on delivery and the key unanswered. -/
def Undisturbed (req : ConfirmRequest) (i₀ : Fin n) (e : Commit shop n) : Prop :=
  e.proc ≠ i₀ → CodCheckout req e.before → CodCheckout req e.after

theorem undisturbed_allows {req : ConfirmRequest} {i₀ i : Fin n} {sh : Shared shop shopHost} {l : Txn shop}
    {a : ShopAction} {c : Choice shopHost} (hi : i = i₀) : Guard.commits (Undisturbed req i₀) i sh l a c := by
  cases a with
  | commit => exact fun hne => absurd hi hne
  | _ => trivial

/-- In every run that others leave undisturbed the request never returns a reply, and none of its
steps commits an order, an item or a response. -/
theorem cod_never_completes (lib : Lib) (req : ConfirmRequest)
    {ps : Fin n → Prog shop shopHost (Except (Exn AppErr) Reply)} {i₀ : Fin n}
    (hreq : ps i₀ = (placeOrder lib req).session) {w : World shop shopHost} (hw : w.Ok)
    (hcod : CodCheckout req w.db) {s : Sys shop shopHost n (Except (Exn AppErr) Reply)}
    (hrun : Sys.Run (Guard.commits (Undisturbed req i₀)) History.none (Sys.start w ps) () s ()) :
    (∀ reply, s.outcome i₀ ≠ some (.ok reply)) ∧
      ∀ c s', s.step (.proc i₀ c) = some s' → SameOrders s.world.db s'.world.db := by
  have hsafe : ∀ i, Safe (codProtocol req i₀) (Guard.commits (Undisturbed req i₀)) i
      (fun r _ _ _ => i = i₀ → ∀ a, r = .ok a → Unanswered a) (ps i) w.toShared () {} := by
    intro i
    by_cases hi : i = i₀
    · subst hi
      rw [hreq]
      apply Safe.session
      apply placeOrder_cod.mono
      intro r _ _ _ hr _ _ _ _ a ha
      cases ha
      exact hr
    · have hbystander : Safe (codProtocol req i₀) (Guard.commits (Undisturbed req i₀)) i
          (fun _ _ _ _ => True) (ps i) w.toShared () {} := by
        apply Safe.bystander
        · exact fun sh l c hg _ hcod => ⟨hg hi hcod, fun h => absurd h hi⟩
        · exact .of_forall Action.keeps_any _
        · exact .refl _ _
      exact hbystander.mono fun _ _ _ _ _ h => absurd h hi
  have hinv := Sys.Run.inv (P := codProtocol req i₀) hrun (Sys.inv_start hw hcod hsafe)
  refine ⟨fun reply hreply => ?_, fun c s' hstep => ?_⟩
  · obtain ⟨sh, y, hsafe, -⟩ := hinv.seen i₀
    rw [Sys.prog_of_outcome hreply] at hsafe
    exact hsafe rfl _ rfl reply rfl
  · have hallows : s.Allows (Guard.commits (Undisturbed req i₀)) i₀ c := by
      rw [Sys.Allows]
      split
      · exact undisturbed_allows rfl
      · trivial
    exact (hinv.guar hallows hstep).2 rfl

/-- A checkout with one item, to be paid on delivery. -/
def codCheckout : World shop shopHost where
  db
    | .product => [⟨5, 8, 100⟩]
    | .checkoutSession => [⟨1, 11, 9, some [⟨1, 5, 2, 100, 8⟩], some .COD, true, seconds 900⟩]
    | _ => []
  host := ⟨0, 100, [], []⟩
  seq _ := 6

theorem codCheckout_ok : codCheckout.Ok := by
  refine ⟨Store.wf_of_pairwise fun t => ?_, fun t r hr => ?_⟩
  · cases t <;> simp [codCheckout]
  · cases t <;> simp_all [codCheckout, rowId]

def codRequest : Fin 1 → Prog shop shopHost (Except (Exn AppErr) Reply) := fun _ =>
  (placeOrder plainLib oneConfirm).session

/-- All steps of the request: no statement fails. -/
def codSteps : List (Label shopHost 1) :=
  [.proc 0 .go, .proc 0 (.host .proceed), .proc 0 .go, .proc 0 .go, .proc 0 (.host .proceed), .proc 0 .go,
    .proc 0 (.host .proceed), .proc 0 .go, .proc 0 .go, .proc 0 .go]

/-- The request ends with 500, and no order and no record was committed. -/
theorem cod_request_refused :
    (((Sys.start codCheckout codRequest).exec (fun _ _ _ _ _ => True) codSteps).map fun s =>
      ((s.outcome 0).map statusCode, (s.world.db .orders).length, (s.world.db .idempotencyKey).length)) =
    some (some 500, 0, 0) := by decide +kernel

theorem codCheckout_cod : CodCheckout oneConfirm codCheckout.db := by
  refine ⟨fun c hc _ => ?_, nofun⟩
  rw [List.mem_singleton.mp hc]

theorem cod_never_completes_alone : ∃ s : Sys shop shopHost 1 (Except (Exn AppErr) Reply),
    (s.outcome 0).isSome = true ∧ (∀ reply, s.outcome 0 ≠ some (.ok reply)) ∧
      ∀ c s', s.step (.proc 0 c) = some s' → SameOrders s.world.db s'.world.db := by
  have hplay : ((Sys.start codCheckout codRequest).exec (Guard.only 0) codSteps).map
      (fun s => (s.outcome 0).isSome) = some true := by decide +kernel
  obtain ⟨s, hs, hdone⟩ := Option.map_eq_some_iff.mp hplay
  obtain ⟨⟨⟩, hrun⟩ := Sys.run_of_exec History.none () hs
  have halone : Sys.Run (Guard.commits (Undisturbed oneConfirm 0)) History.none
      (Sys.start codCheckout codRequest) () s () :=
    hrun.relax fun i sh l a c hi => undisturbed_allows hi
  exact ⟨s, hdone, cod_never_completes plainLib oneConfirm rfl codCheckout_ok codCheckout_cod halone⟩

end Phyllonix
