import Phyllonix.CommitIntentStock

/-!
# Runs of the commit-intent workers

Any number of handler calls run concurrently, several of them on one intent. When
no claim transaction raises, the stock that is missing from a product is exactly
what the done intents list for it. When a claim transaction may raise, its worker
goes on to the recovery, which writes a status over whatever the intent has become.
-/

namespace Phyllonix
open Relational
variable {n : ℕ}

def workers (maxAttempts : ℕ) (ids : Fin n → Option ℕ) (w : World shop shopHost) :
    Sys shop shopHost n (Except (Exn AppErr) Unit) :=
  .start w fun i => (orderConfirmCommitintentHandler maxAttempts (ids i)).session

/-- The statements of the first transaction of a worker do not raise. -/
def claimsSucceed : Guard shop shopHost n := fun _ _ l _ c => l.commits = 0 → c.isFault = false

theorem total_stockOf {d : Db} (hd : d.Wf) (pid : ℕ) :
    d.total .product (stockOf pid) = (d.get .product pid).elim 0 Product.stockQty := by
  have h := sum_map_ite (fun q : Product => q.id = pid) Product.stockQty (d .product)
  have hf := Store.filter_id (S := shop) hd.ids .product pid
  change (d .product).filter (fun q : Product => q.id = pid) = _ at hf
  rw [hf] at h
  simp only [decide_eq_true_eq] at h
  refine h.trans ?_
  cases d.get .product pid <;> simp

/-- What the initial stock of a product and the done intents add up to. -/
def initialStock (d : Db) (pid : ℕ) : ℤ :=
  d.total .product (stockOf pid) + d.total .commitIntent (doneQty pid)

theorem workers_inv {G : Guard shop shopHost n} {maxAttempts : ℕ} {ids : Fin n → Option ℕ}
    {w : World shop shopHost} {floor : ℕ → ℤ} (hw : w.Ok) (hfloor : ∀ p, floor p ≤ 0)
    (hstock : ∀ q : Product, q ∈ w.db .product → floor q.id ≤ q.stockQty)
    (hG : ∀ i, ClaimSucceeds G i ∨ ∀ sh l a c, G i sh l a c → recoveryAllowed i sh l a c)
    {s : Sys shop shopHost n (Except (Exn AppErr) Unit)} {x : ℕ → Option (Fin n)}
    (hrun : Sys.Run G (holders n) (workers maxAttempts ids w) (fun _ => none) s x) :
    s.Inv (stockProtocol (initialStock w.db) floor n) G (fun _ _ _ _ _ => True) x := by
  have hinv : StockInv (n := n) (initialStock w.db) floor w.db fun _ => none :=
    ⟨fun _ => rfl, hstock, fun _ _ h => by cases h⟩
  refine Sys.Run.inv (P := stockProtocol (initialStock w.db) floor n) hrun
    (Sys.inv_start hw hinv fun i => ?_)
  exact Safe.session ((handler_safe hfloor (hG i) maxAttempts (ids i)).mono
    fun _ _ _ _ _ _ _ _ => trivial)

/-- Stock conservation. -/
theorem stock_conserved {maxAttempts : ℕ} {ids : Fin n → Option ℕ} {w : World shop shopHost}
    (hw : w.Ok) (hstock : ∀ q : Product, q ∈ w.db .product → 0 ≤ q.stockQty)
    (hpending : ∀ c : CommitIntent, c ∈ w.db .commitIntent →
      c.status = CommitIntentStatus.pending.value)
    {s : Sys shop shopHost n (Except (Exn AppErr) Unit)}
    (hrun : Sys.Run claimsSucceed History.none (workers maxAttempts ids w) () s ())
    {pid : ℕ} {q₀ : Product} (hq₀ : w.db.get .product pid = some q₀) :
    ∃ q, s.world.db.get .product pid = some q ∧
      q.stockQty = q₀.stockQty - s.world.db.total .commitIntent (doneQty pid) ∧ 0 ≤ q.stockQty := by
  have hstart : (workers maxAttempts ids w).Ok := Sys.start_ok hw _
  obtain ⟨x, hx⟩ := hrun.history (holders n) (fun _ => none)
  have hclaim : ∀ i : Fin n, ClaimSucceeds claimsSucceed i := fun i sh l a hc h => by cases h hc
  have hinv := (workers_inv hw (fun _ => le_rfl) hstock (fun i => .inl (hclaim i)) hx).inv
  have hdone : w.db.total .commitIntent (doneQty pid) = 0 := by
    have hzero : (w.db .commitIntent).map (doneQty pid) = (w.db .commitIntent).map fun _ => 0 := by
      refine List.map_congr_left fun c hc => ?_
      rw [doneQty, hpending c hc, if_neg (by decide)]
    rw [Store.total, hzero]
    simp
  have hrow : ((workers maxAttempts ids w).world.db.get .product pid).isSome := by
    change (w.db.get .product pid).isSome
    rw [hq₀]
    rfl
  obtain ⟨q, hq⟩ := Option.isSome_iff_exists.mp
    (hrun.row_stays hstart hrow)
  have hsum : s.world.db.total .product (stockOf pid) + s.world.db.total .commitIntent (doneQty pid) =
      initialStock w.db pid := hinv.conserved pid
  rw [initialStock, hdone, total_stockOf (hrun.ok hstart).world.wf, hq, total_stockOf hw.wf,
    hq₀] at hsum
  simp only [Option.elim] at hsum
  exact ⟨q, hq, by omega, hinv.floor q (Store.mem_of_get hq)⟩

/-- Ten pieces of one product, and an intent that takes three of them. -/
def oneIntent : World shop shopHost where
  db
    | .product => [⟨1, 10, 100⟩]
    | .commitIntent => [⟨1, "order", 7, "payment_succeeded", CommitIntentStatus.pending.value,
        some ⟨7, [⟨1, 3⟩]⟩, 0, none⟩]
    | _ => []
  host := ⟨0, 0, [], []⟩
  seq _ := 2

theorem oneIntent_ok : oneIntent.Ok :=
  ⟨Store.wf_of_pairwise fun t => by cases t <;> decide, fun t => by cases t <;> decide⟩

instance (i : Fin n) (sh : Shared shop shopHost) (l : Txn shop) (a : ShopAction)
    (c : Choice shopHost) : Decidable (claimsSucceed i sh l a c) :=
  inferInstanceAs (Decidable (l.commits = 0 → c.isFault = false))

theorem stock_conserved_two_workers : ∃ s q,
    Sys.Run claimsSucceed History.none (workers 5 (fun _ : Fin 2 => some 1) oneIntent) () s () ∧
      intentStatus s.world.db 1 = some CommitIntentStatus.done.value ∧
      s.world.db.get .product 1 = some q ∧
      q.stockQty = 10 - s.world.db.total .commitIntent (doneQty 1) ∧ 0 ≤ q.stockQty := by
  have hexec : ((workers 5 (fun _ : Fin 2 => some 1) oneIntent).exec claimsSucceed
      (.replicate 9 (.proc 0 .go))).map (fun s => intentStatus s.world.db 1) =
        some (some CommitIntentStatus.done.value) := by decide +kernel
  obtain ⟨s, hs, hdone⟩ := Option.map_eq_some_iff.mp hexec
  obtain ⟨⟨⟩, hrun⟩ := Sys.run_of_exec History.none () hs
  have hq₀ : oneIntent.db.get .product 1 = some ⟨1, 10, 100⟩ := rfl
  obtain ⟨q, hq⟩ := stock_conserved oneIntent_ok (by decide) (by decide) hrun hq₀
  exact ⟨s, q, hrun, hdone, hq⟩

/-! ## The status machine -/

/-- What one step of worker `i` does to done intents and to intents that others hold. -/
structure StepKeeps (i : Fin n) (x : ℕ → Option (Fin n)) (d d' : Db) : Prop where
  done : ∀ c, intentStatus d c = some CommitIntentStatus.done.value →
    intentStatus d' c = some CommitIntentStatus.done.value
  held : ∀ c j, x c = some j → j ≠ i → intentStatus d' c = intentStatus d c

/-- The missing stock is what the intents that became done list, each of them once. -/
def StockTakenOnce (d₀ d : Db) : Prop :=
  ∀ pid, d.total .product (stockOf pid) = d₀.total .product (stockOf pid) -
    (d.total .commitIntent (doneQty pid) - d₀.total .commitIntent (doneQty pid))

theorem Moves.keeps {init floor : ℕ → ℤ} {i : Fin n} {x : ℕ → Option (Fin n)} {d d' : Db}
    (hinv : StockInv init floor d x) (h : Moves i d d' x) : StepKeeps i x d d' := by
  refine ⟨fun c hc => ?_, fun c j hj hij => ?_⟩
  · rcases h c with hs | hi | hn
    · rw [hs, hc]
    · have := hinv.held c i hi
      rw [hc] at this
      cases this
    · exact absurd hc hn.2
  · rcases h c with hs | hi | hn
    · exact hs
    · rw [hj] at hi
      exact absurd (Option.some.inj hi) hij
    · rw [hj] at hn
      cases hn.1

/-- The status machine, in the runs where no recovery moves an intent that is in
processing or done without holding it. -/
theorem status_machine {maxAttempts : ℕ} {ids : Fin n → Option ℕ} {w : World shop shopHost}
    (hw : w.Ok) {s : Sys shop shopHost n (Except (Exn AppErr) Unit)} {x : ℕ → Option (Fin n)}
    (hrun : Sys.Run recoveryAllowed (holders n) (workers maxAttempts ids w) (fun _ => none) s x) :
    StockTakenOnce w.db s.world.db ∧ ∀ i c s', s.Allows recoveryAllowed i c →
      s.step (.proc i c) = some s' → StepKeeps i x s.world.db s'.world.db := by
  let floor : ℕ → ℤ := fun p => min 0 ((w.db.get .product p).elim 0 Product.stockQty)
  have hfloor : ∀ q : Product, q ∈ w.db .product → floor q.id ≤ q.stockQty := fun q hq => by
    have hget : w.db.get .product q.id = some q := Store.get_of_mem hw.wf.ids hq
    simp only [floor, hget, Option.elim]
    omega
  have hle : ∀ p, floor p ≤ 0 := fun _ => min_le_left _ _
  have hinv := workers_inv hw hle hfloor
    (fun i => .inr fun _ _ _ _ h => h) hrun
  refine ⟨fun pid => ?_, fun i c s' hG hstep => Moves.keeps hinv.inv (hinv.guar hG hstep)⟩
  have h := hinv.inv.conserved pid
  rw [initialStock] at h
  omega

instance (d : Db) (c : CommitIntent) : Decidable (MovesFreely d c) :=
  inferInstanceAs (Decidable (_ ∨ _ ∧ _))

instance (i : Fin n) (sh : Shared shop shopHost) (l : Txn shop) (a : ShopAction)
    (c : Choice shopHost) : Decidable (recoveryAllowed i sh l a c) :=
  match a with
  | .commit => inferInstanceAs (Decidable (l.commits = 0 →
      ∀ c ∈ l.writes.filterMap writtenIntent, MovesFreely sh.db c))
  | .read _ | .lock _ _ | .lockSkip _ _ | .update _ _ _ _ | .insert _ _ _ _ | .tryLock _
  | .rollback | .host _ => .isTrue trivial

theorem status_machine_one_recovery : ∃ s x,
    Sys.Run recoveryAllowed (holders 2) (workers 5 (fun _ => some 1) oneIntent) (fun _ => none) s x ∧
      intentStatus s.world.db 1 = some CommitIntentStatus.done.value ∧
      StockTakenOnce oneIntent.db s.world.db ∧ ∀ i c s', s.Allows recoveryAllowed i c →
        s.step (.proc i c) = some s' → StepKeeps i x s.world.db s'.world.db := by
  have hexec : ((workers 5 (fun _ : Fin 2 => some 1) oneIntent).exec recoveryAllowed
      ([.proc 1 .fault, .proc 1 .go, .proc 1 .go, .proc 1 (.host .proceed), .proc 1 .go, .proc 1 .go] ++
        .replicate 8 (.proc 0 .go))).map (fun s => intentStatus s.world.db 1) =
        some (some CommitIntentStatus.done.value) := by decide +kernel
  obtain ⟨s, hs, hdone⟩ := Option.map_eq_some_iff.mp hexec
  obtain ⟨x, hrun⟩ := Sys.run_of_exec (holders 2) (fun _ => none) hs
  exact ⟨s, x, hrun, hdone, status_machine oneIntent_ok hrun⟩

/-- Worker 1 fails in its claim, worker 0 takes the stock, and worker 1 goes on to
its recovery. -/
def lateRecovery : List (Label shopHost 3) :=
  [.proc 1 .fault, .proc 1 .go] ++ .replicate 8 (.proc 0 .go) ++
    [.proc 1 .go, .proc 1 (.host .proceed), .proc 1 .go]

theorem done_intent_reopened :
    ¬(∀ s x, Sys.Run (fun _ _ _ _ _ => True) (holders 3)
        (workers 5 (fun _ : Fin 3 => some 1) oneIntent) (fun _ => none) s x →
        ∀ i c s', s.step (.proc i c) = some s' → StepKeeps i x s.world.db s'.world.db) ∧
      ¬(∀ s x, Sys.Run (fun _ _ _ _ _ => True) (holders 3)
        (workers 5 (fun _ : Fin 3 => some 1) oneIntent) (fun _ => none) s x →
        StockTakenOnce oneIntent.db s.world.db) := by
  constructor
  · intro h
    have hexec : (((workers 5 (fun _ : Fin 3 => some 1) oneIntent).exec (fun _ _ _ _ _ => True)
        lateRecovery).bind fun s => (s.step (.proc 1 .go)).map fun s' =>
          (intentStatus s.world.db 1, intentStatus s'.world.db 1)) =
        some (some CommitIntentStatus.done.value, some CommitIntentStatus.pending.value) := by
      decide +kernel
    obtain ⟨s, hs, hstep⟩ := Option.bind_eq_some_iff.mp hexec
    obtain ⟨s', hs', hst⟩ := Option.map_eq_some_iff.mp hstep
    obtain ⟨hdone, hpending⟩ := Prod.mk.inj hst
    obtain ⟨x, hrun⟩ := Sys.run_of_exec (holders 3) (fun _ => none) hs
    have hkept := (h s x hrun 1 .go s' hs').done 1 hdone
    rw [hpending] at hkept
    cases hkept
  · intro h
    have hexec : ((workers 5 (fun _ : Fin 3 => some 1) oneIntent).exec (fun _ _ _ _ _ => True)
        (lateRecovery ++ [.proc 1 .go] ++ .replicate 8 (.proc 2 .go))).map (fun s =>
          (s.world.db.total .product (stockOf 1), s.world.db.total .commitIntent (doneQty 1))) =
        some (4, 3) := by decide +kernel
    obtain ⟨s, hs, hst⟩ := Option.map_eq_some_iff.mp hexec
    obtain ⟨hstock, hqty⟩ := Prod.mk.inj hst
    obtain ⟨x, hrun⟩ := Sys.run_of_exec (holders 3) (fun _ => none) hs
    have honce := h s x hrun 1
    rw [hstock, hqty] at honce
    revert honce
    decide

end Phyllonix
