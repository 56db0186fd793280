import Phyllonix.ShopRules
import Phyllonix.CommitIntentWorker

/-!
# Stock and commit intents

Workers move stock from the products into the intents that are done: for every
product the stock plus the quantities of the done intents stays constant. A
worker that moved an intent to PROCESSING holds it, and it alone moves the intent
on.
-/

namespace Phyllonix
open Relational
variable {n : ℕ}

def stockOf (pid : ℕ) (q : Product) : ℤ := if q.id = pid then q.stockQty else 0

def itemsQty (items : List CommitItem) (pid : ℕ) : ℤ :=
  (items.map fun it => if it.productId = pid then it.quantity else 0).sum

def CommitIntent.items (c : CommitIntent) : List CommitItem :=
  (c.payload.map CommitPayload.items).getD []

/-- What a done intent took from the stock of a product. -/
def doneQty (pid : ℕ) (c : CommitIntent) : ℤ :=
  if c.status = CommitIntentStatus.done.value then itemsQty c.items pid else 0

def intentStatus (d : Db) (c : ℕ) : Option ℕ := (d.get .commitIntent c).map CommitIntent.status

/-- The worker that moved an intent to PROCESSING, until its status changes again. -/
def claimedBy (i : Fin n) (sh sh' : Shared shop shopHost) (x : ℕ → Option (Fin n)) (c : ℕ) :
    Option (Fin n) :=
  if intentStatus sh'.db c = intentStatus sh.db c then x c
  else if intentStatus sh'.db c = some CommitIntentStatus.processing.value then some i else none

def holders (n : ℕ) : History shop shopHost n := ⟨ℕ → Option (Fin n), claimedBy⟩

structure StockInv (init floor : ℕ → ℤ) (d : Db) (x : ℕ → Option (Fin n)) : Prop where
  conserved : ∀ p, d.total .product (stockOf p) + d.total .commitIntent (doneQty p) = init p
  floor : ∀ q : Product, q ∈ d .product → floor q.id ≤ q.stockQty
  held : ∀ c i, x c = some i → intentStatus d c = some CommitIntentStatus.processing.value

/-- A worker changes the status of the intents it holds, and of intents that nobody
holds and that are not done. -/
def Moves (i : Fin n) (d d' : Db) (x : ℕ → Option (Fin n)) : Prop :=
  ∀ c, intentStatus d' c = intentStatus d c ∨ x c = some i ∨
    (x c = none ∧ intentStatus d c ≠ some CommitIntentStatus.done.value)

theorem claimedBy_other {i j : Fin n} (hij : i ≠ j) {sh sh' : Shared shop shopHost}
    {x : ℕ → Option (Fin n)} (h : Moves i sh.db sh'.db x) {c : ℕ} (hc : x c = some j) :
    claimedBy i sh sh' x c = some j := by
  rcases h c with hs | hi | hn
  · rw [claimedBy, if_pos hs, hc]
  · rw [hc] at hi
    exact absurd (Option.some.inj hi).symm hij
  · rw [hc] at hn
    cases hn.1

theorem claimedBy_claim {i : Fin n} {sh sh' : Shared shop shopHost} (x : ℕ → Option (Fin n)) {c : ℕ}
    (h : intentStatus sh.db c ≠ some CommitIntentStatus.processing.value)
    (h' : intentStatus sh'.db c = some CommitIntentStatus.processing.value) :
    claimedBy i sh sh' x c = some i := by
  rw [claimedBy, if_neg (by rw [h']; exact h.symm), if_pos h']

def stockProtocol (init floor : ℕ → ℤ) (n : ℕ) : Protocol shop shopHost n where
  toHistory := holders n
  inv sh x := StockInv init floor sh.db x
  rely i _ _ x _ x' := ∀ c, x c = some i → x' c = some i
  guar i _ sh x sh' := Moves i sh.db sh'.db x
  next_same i sh x := by
    funext c
    simp [holders, claimedBy]
  rely_refl _ _ _ _ _ h := h
  rely_trans h h' c hc := h' c (h c hc)
  guar_same _ _ _ _ _ := .inl rfl
  compat hij _ _ _ _ hg _ hc := claimedBy_other hij hg hc
  env_inv _ _ _ h := h
  env_rely _ _ _ _ _ _ _ h := h

theorem stock_quiet (init floor : ℕ → ℤ) : Quiet (stockProtocol init floor n) where
  inv _ h := h
  next i sh s x := by
    funext c
    simp [stockProtocol, holders, claimedBy]
  guar _ _ _ _ _ _ _ := .inl rfl

section Commit
variable {init floor : ℕ → ℤ} {i : Fin n} {d : Db} {x : ℕ → Option (Fin n)} {l : Txn shop}
variable {r r' : CommitIntent} {ws : List (Write shop)}

theorem intentStatus_put (honly : ∀ w ∈ ws, w.tbl = Table.product) (hid : r'.id = r.id) (c : ℕ) :
    intentStatus ((applyWrites ws d).put .commitIntent r') c =
      if c = r.id then some r'.status else intentStatus d c := by
  by_cases hc : c = r.id
  · subst hc
    rw [if_pos rfl, ← hid]
    have h := Store.get_put_self (S := shop) (applyWrites ws d) .commitIntent r'
    exact congrArg (Option.map CommitIntent.status) h
  · have hne : ¬((Table.commitIntent = .commitIntent) ∧ c = rowId (t := .commitIntent) r') :=
      fun h => hc (h.2.trans hid)
    have hws : ¬Written ws .commitIntent c := not_written_of_tbl honly (by decide) c
    rw [if_neg hc, intentStatus, Store.get_put_of_ne _ _ hne, get_applyWrites_of_not_written hws,
      intentStatus]

theorem intentStatus_view (hws : l.writes = ⟨.commitIntent, r'⟩ :: ws)
    (honly : ∀ w ∈ ws, w.tbl = Table.product) (hid : r'.id = r.id) (c : ℕ) :
    intentStatus (l.view d) c = if c = r.id then some r'.status else intentStatus d c := by
  rw [Txn.view, hws, applyWrites]
  exact intentStatus_put honly hid c

/-- A commit that writes one intent on top of product rows. -/
theorem intent_commit (hinv : StockInv init floor d x) (hd : d.Wf)
    (hws : l.writes = ⟨.commitIntent, r'⟩ :: ws) (honly : ∀ w ∈ ws, w.tbl = Table.product)
    (hr : d.get .commitIntent r.id = some r) (hid : r'.id = r.id)
    (hchange : ∀ p, netChange ws d .product (stockOf p) + doneQty p r' = doneQty p r)
    (hfloor : ∀ q : Product, q ∈ l.view d .product → floor q.id ≤ q.stockQty)
    (hmove : x r.id = some i ∨ (x r.id = none ∧ r.status ≠ CommitIntentStatus.done.value))
    (s : HostState) :
    StockInv init floor (l.view d) (claimedBy i ⟨d, s⟩ ⟨l.view d, s⟩ x) ∧
      Moves i d (l.view d) x := by
  have hstatus := intentStatus_view (d := d) hws honly hid
  have hold : intentStatus d r.id = some r.status := by rw [intentStatus, hr]; rfl
  have hget : (applyWrites ws d).get .commitIntent r.id = some r := by
    rw [get_applyWrites_of_not_written _ d, hr]
    exact not_written_of_tbl honly (by decide) r.id
  refine ⟨⟨fun p => ?_, hfloor, fun c j hc => ?_⟩, fun c => ?_⟩
  · have hp : netChange l.writes d .product (stockOf p) = netChange ws d .product (stockOf p) := by
      have hne : Table.product ≠ Table.commitIntent := by decide
      rw [hws]
      exact netChange_cons_of_ne (S := shop) hne r' (stockOf p)
    have hcs : netChange ws d .commitIntent (doneQty p) = 0 :=
      netChange_of_untouched (fun w hw => by simp [honly w hw]) _
    have hc : netChange l.writes d .commitIntent (doneQty p) = doneQty p r' - doneQty p r := by
      have hr' : (applyWrites ws d).get .commitIntent (shop.id (t := .commitIntent) r') = some r := by
        rw [← hget, ← hid]
        rfl
      rw [hws, netChange_cons (S := shop) (t := Table.commitIntent) hd.ids r' (doneQty p), hcs, hr']
      simp only [Option.elim]
      omega
    have hi := hinv.conserved p
    have hch := hchange p
    rw [Txn.total_view, Txn.total_view, hp, hc]
    omega
  · simp only [claimedBy, hstatus] at hc ⊢
    by_cases hcr : c = r.id
    · subst hcr
      simp only [if_true, hold] at hc ⊢
      by_cases hs : r'.status = r.status
      · rw [if_pos (by rw [hs])] at hc
        rw [hs, ← hold]
        exact hinv.held _ _ hc
      · rw [if_neg (by simpa using hs)] at hc
        split at hc
        · assumption
        · cases hc
    · simp only [hcr, if_false, if_true] at hc ⊢
      exact hinv.held _ _ hc
  · by_cases hcr : c = r.id
    · subst hcr
      rcases hmove with h | ⟨h, hne⟩
      · exact .inr (.inl h)
      · refine .inr (.inr ⟨h, ?_⟩)
        rw [hold]
        simpa using hne
    · exact .inl (by rw [hstatus, if_neg hcr])

/-- An intent that nobody processes has no holder. -/
theorem StockInv.unheld (hinv : StockInv init floor d x) {c : ℕ}
    (h : intentStatus d c ≠ some CommitIntentStatus.processing.value) : x c = none := by
  cases hx : x c with
  | none => rfl
  | some j => exact absurd (hinv.held c j hx) h

end Commit

/-! ## The claim -/

section Worker
variable {init floor : ℕ → ℤ} {G : Guard shop shopHost n} {i : Fin n} {ciId : ℕ}
variable {sh : Shared shop shopHost} {x : ℕ → Option (Fin n)} {l : Txn shop}

/-- The first transaction of a worker, which claims the intent, does not raise. -/
def ClaimSucceeds (G : Guard shop shopHost n) (i : Fin n) : Prop :=
  ∀ sh l a, l.commits = 0 → ¬G i sh l a .fault

theorem not_claimSucceeds {a : ShopAction} (ha : l.aborted = false) (hc : l.commits = 0)
    (h : Fails G i sh l a) : ¬ClaimSucceeds G i := by
  intro hG
  rcases h with h | h
  · exact hG _ _ _ hc h
  · rw [ha] at h
    cases h

variable (init floor G i ciId) in
/-- After the claim: the worker holds the intent, or nothing happened. -/
def Claimed :
    Post (stockProtocol init floor n) Bool := fun r _ x l =>
  match r with
  | .ok b => b = true → x ciId = some i ∧ l = { commits := 1 }
  | .error _ => l = {} ∧ ¬ClaimSucceeds G i

theorem claimed_error (ha : l.aborted = false) (hc : l.commits = 0)
    (hf : ∃ sh a, Fails G i sh l a) {l' : Txn shop} (hl : l'.commits = l.commits)
    (e : Exn AppErr) :
    Claimed init floor G i ciId (.error e) sh x l'.reset := by
  obtain ⟨sh', a, hf⟩ := hf
  refine ⟨?_, not_claimSucceeds ha hc hf⟩
  rw [Txn.reset, hl, hc]

theorem claimCommitIntent_safe : Safe (stockProtocol init floor n) G i (Claimed init floor G i ciId)
    (Prog.transaction (claimCommitIntent ciId)) sh x {} := by
  refine Safe.transaction (safe_lockSkipOne (fun w y hs free => ?_)
    fun hf w y hs e l' hl w' y' hs' => claimed_error rfl rfl hf hl.commits e)
  intro o
  cases ho : o with
  | none =>
    refine Safe.pure (Safe.commit_nothing rfl ?_ ?_)
    · intro _ _ _ h
      cases h
    · intro ⟨sh', hf⟩ w y hs e l' hl w' y' hs'
      exact claimed_error rfl rfl ⟨_, _, hf⟩ hl.commits e
  | some r =>
    obtain ⟨hget, hp⟩ := Option.filter_eq_some_iff.mp ho
    have hpending : r.status = CommitIntentStatus.pending.value := by
      simp only [Bool.and_eq_true, decide_eq_true_eq] at hp
      exact hp.1
    have hid : r.id = ciId := Store.id_of_get hget
    subst hid
    have hne : ¬CommitIntent.status r = CommitIntentStatus.done.value := by
      rw [hpending]
      decide
    simp only [hne, if_false]
    refine Safe.bind (safe_updateOne (fun w₁ y₁ hs₁ l₁ hu => ?_) ?_)
    · have hget₁ : w₁.db.get .commitIntent r.id = some r :=
        (hs₁.still.row _ _ List.mem_cons_self).trans hget
      obtain ⟨hw, hrow⟩ := updated_one hu hget₁
      simp only [Txn.acquire_writes] at hw
      refine Safe.pure (Safe.commit (fun w₂ y₂ hs₂ _ => ?_) fun ⟨sh', hf⟩ w y hs e l' hl w' y' hs' =>
        claimed_error (l := l₁) hu.aborted hu.commits ⟨_, _, hf⟩ hl.commits e)
      have hget₂ : w₂.db.get .commitIntent r.id = some r :=
        (hs₂.still.row _ _ hrow).trans hget₁
      have hst : intentStatus w₂.db r.id = some CommitIntentStatus.pending.value := by
        rw [intentStatus, hget₂, ← hpending]
        rfl
      have hst₀ : intentStatus w₂.db r.id ≠ some CommitIntentStatus.processing.value := by
        rw [hst]
        decide
      have hfree : ∀ w ∈ ([] : List (Write shop)), w.tbl = Table.product := by simp
      obtain ⟨h1, h2⟩ := intent_commit (i := i) hs₂.inv hs₂.world.wf hw hfree hget₂ rfl
        (fun p => by simp [doneQty, hpending, CommitIntentStatus.value])
        (fun q hq => hs₂.inv.floor q (by
          rwa [Txn.view, applyWrites_of_untouched (by simp [hw])] at hq))
        (.inr ⟨hs₂.inv.unheld hst₀, hne⟩) w₂.host
      refine ⟨h1, h2, fun _ => ⟨?_, by rw [Txn.committed, hu.commits]; rfl⟩⟩
      have hst' := intentStatus_view (d := w₂.db) hw hfree rfl r.id
      rw [if_pos rfl] at hst'
      exact claimedBy_claim y₂ hst₀ hst'
    · intro hf w y hs e l' hl w' y' hs'
      refine claimed_error rfl rfl (hf.elim id ?_) hl.commits e
      rintro ⟨u, hu⟩
      exact absurd rfl hu

/-! ## The stock transaction -/

/-- The worker holds the intent and has its row locked. -/
structure HoldsIntent (i : Fin n) (row : CommitIntent) (d : Db) (x : ℕ → Option (Fin n))
    (l : Txn shop) : Prop where
  holder : x row.id = some i
  locked : Lock.row Table.commitIntent row.id ∈ l.locks
  stored : d.get .commitIntent row.id = some row

theorem HoldsIntent.seen {row : CommitIntent} (h : HoldsIntent i row sh.db x l)
    {w : World shop shopHost} {y : ℕ → Option (Fin n)}
    (hs : Seen (stockProtocol init floor n) i l sh x w y) : HoldsIntent i row w.db y l :=
  ⟨hs.rely _ h.holder, h.locked, (hs.still.row _ _ h.locked).trans h.stored⟩

theorem HoldsIntent.grow {row : CommitIntent} (h : HoldsIntent i row sh.db x l) {l' : Txn shop}
    (hl : ∀ y ∈ l.locks, y ∈ l'.locks) : HoldsIntent i row sh.db x l' :=
  ⟨h.holder, hl _ h.locked, h.stored⟩

/-- The writes take the quantities `taken` from the products. -/
structure Decremented (floor taken : ℕ → ℤ) (d : Db) (ws : List (Write shop)) : Prop where
  wf : d.Wf
  only : ∀ w ∈ ws, w.tbl = Table.product
  change : ∀ p, netChange ws d .product (stockOf p) = -taken p
  floor : ∀ q : Product, q ∈ applyWrites ws d .product → floor q.id ≤ q.stockQty

theorem Decremented.seen {taken : ℕ → ℤ} {ws : List (Write shop)}
    (h : Decremented floor taken sh.db ws) {w : World shop shopHost} {y : ℕ → Option (Fin n)}
    (hs : Seen (stockProtocol init floor n) i l sh x w y) (hws : ∀ w ∈ ws, w ∈ l.writes) :
    Decremented floor taken w.db ws := by
  have hlock : ∀ w ∈ ws, Lock.row w.tbl (rowId w.row) ∈ l.locks := fun v hv =>
    hs.ok.locked v (hws v hv)
  refine ⟨hs.world.wf, h.only, fun p => ?_, ?_⟩
  · rw [← h.change p]
    exact netChange_congr h.wf.ids hs.world.wf.ids (fun v hv => hs.still.row _ _ (hlock v hv)) _ _
  · refine forall_applyWrites_congr (S := shop) (t := Table.product)
      (p := fun q : Product => floor q.id ≤ q.stockQty) hs.world.wf.ids (fun i hw => ?_) h.floor
      hs.inv.floor
    obtain ⟨v, hv, he⟩ := hw
    exact hs.still.row _ _ (hs.ok.written_locked ⟨v, hws v hv, he⟩)

theorem Decremented.get_intent {taken : ℕ → ℤ} {d : Db} {ws : List (Write shop)}
    (h : Decremented floor taken d ws) (c : ℕ) :
    (applyWrites ws d).get .commitIntent c = d.get .commitIntent c := by
  apply get_applyWrites_of_not_written
  exact not_written_of_tbl h.only (by decide) c

theorem Decremented.write {taken : ℕ → ℤ} {d : Db} {ws : List (Write shop)}
    (h : Decremented floor taken d ws) (hfloor : ∀ p, floor p ≤ 0) {q : Product} {qty : ℤ}
    (hq : (applyWrites ws d).get .product q.id = some q) (hqty : ¬q.stockQty < qty) :
    Decremented floor (fun p => taken p + if q.id = p then qty else 0) d
      (⟨.product, { q with stockQty := q.stockQty - qty }⟩ :: ws) := by
  refine ⟨h.wf, fun w hmem => ?_, fun p => ?_, fun u hu => ?_⟩
  · rcases List.mem_cons.mp hmem with rfl | hmem
    · rfl
    · exact h.only w hmem
  · have hc := h.change p
    rw [netChange_cons (S := shop) (t := Table.product) h.wf.ids _ (stockOf p), hc]
    change _ + _ - ((applyWrites ws d).get .product q.id).elim 0 (stockOf p) = _
    rw [hq]
    simp only [stockOf, Option.elim]
    split <;> omega
  · rw [applyWrites, Store.put_self] at hu
    rcases mem_putRow.mp hu with ⟨hu, -⟩ | rfl
    · exact h.floor u hu
    · have := hfloor q.id
      change floor q.id ≤ q.stockQty - qty
      omega

variable (init floor i) in
/-- After the loop over the items: without a shortage, all of them are decremented. -/
def DecrementPost (row : CommitIntent) (commits : ℕ) (taken : ℕ → ℤ) :
    Post (stockProtocol init floor n) (List String) := fun r sh x l =>
  match r with
  | .ok errors => l.commits = commits ∧ HoldsIntent i row sh.db x l ∧
      (errors = [] → Decremented floor taken sh.db l.writes)
  | .error _ => l.commits = commits ∧ x row.id = some i

theorem decrementStock_safe (hfloor : ∀ p, floor p ≤ 0) {row : CommitIntent} {commits : ℕ}
    (items : List CommitItem) {taken : ℕ → ℤ} (hc : l.commits = commits)
    (hrow : HoldsIntent i row sh.db x l) (hd : Decremented floor taken sh.db l.writes) :
    Safe (stockProtocol init floor n) G i
      (DecrementPost init floor i row commits fun p => taken p + itemsQty items p)
      (decrementStock items) sh x l := by
  induction items generalizing sh x l taken with
  | nil =>
    refine Safe.pure ⟨hc, hrow, fun _ => ?_⟩
    simpa [itemsQty] using hd
  | cons it rest ih =>
    refine safe_lockOne (fun w y hs => ?_) fun _ w y hs e l' hl =>
      ⟨hl.commits.trans hc, (hrow.seen hs).holder⟩
    have hrow₁ := hrow.seen hs
    have hd₁ := hd.seen hs fun _ h => h
    cases hq : (l.view w.db).get .product it.productId with
    | none => exact Safe.raise ⟨hc, hrow₁.holder⟩
    | some q =>
      have hid : q.id = it.productId := Store.id_of_get hq
      have hgrow : ∀ z ∈ l.locks, z ∈ (l.acquire [Lock.row Table.product q.id]).locks :=
        fun z hz => List.mem_cons_of_mem _ hz
      have hc₁ : (l.acquire [Lock.row Table.product q.id]).commits = commits := hc
      simp only
      split
      · refine Safe.bind ((ih hc₁ (hrow₁.grow hgrow) hd₁).mono fun r sh x l hr => ?_)
        cases r with
        | error e => exact hr
        | ok errors =>
          refine Safe.pure ⟨hr.1, hr.2.1, fun h => ?_⟩
          cases h
      · rename_i hqty
        refine Safe.bind (safe_updateOne (fun w₁ y₁ hs₁ l₁ hu => ?_) fun _ w y hs e l' hl =>
          ⟨hl.commits.trans hc, ((hrow₁.grow hgrow).seen hs).holder⟩)
        have hlock : Lock.row Table.product it.productId ∈ (l.acquire [Lock.row Table.product q.id]).locks :=
          hid ▸ List.mem_cons_self
        have hq₁ : (l.view w₁.db).get .product it.productId = some q :=
          (hs₁.still.get_view hlock).trans hq
        obtain ⟨hw, -⟩ := updated_one hu hq₁
        have hd₂ := hd₁.seen hs₁ fun _ h => h
        have hnext := hd₂.write hfloor (hid ▸ hq₁) hqty
        rw [Txn.acquire_writes] at hw
        rw [← hw] at hnext
        refine (ih (hu.commits.trans hc) (((hrow₁.grow hgrow).seen hs₁).grow hu.keeps) hnext).mono
          fun r sh x l hr => ?_
        cases r with
        | error e => exact hr
        | ok errors =>
          refine ⟨hr.1, hr.2.1, fun h => ?_⟩
          have hlast := hr.2.2 h
          have hsum : ∀ p, taken p + itemsQty (it :: rest) p =
              (taken p + if q.id = p then it.quantity else 0) + itemsQty rest p := fun p => by
            simp only [itemsQty, List.map_cons, List.sum_cons, hid]
            omega
          simpa only [hsum] using hlast

variable (init floor i ciId) in
/-- A failed stock transaction leaves the worker with the intent and nothing else. -/
def StockPost : Post (stockProtocol init floor n) Unit := fun r _ x l =>
  match r with
  | .ok _ => True
  | .error _ => x ciId = some i ∧ l = { commits := 1 }

theorem stockPost_error {w : World shop shopHost} {y : ℕ → Option (Fin n)} (hc : l.commits = 1)
    (hx : x ciId = some i) (hs : Seen (stockProtocol init floor n) i l sh x w y) (e : Exn AppErr) :
    StockPost init floor i ciId (.error e) w.toShared y l.reset :=
  ⟨hs.rely _ hx, by rw [Txn.reset, hc]⟩

theorem commitStock_safe (hfloor : ∀ p, floor p ≤ 0) (hx : x ciId = some i) :
    Safe (stockProtocol init floor n) G i (StockPost init floor i ciId)
      (Prog.transaction (commitStock ciId)) sh x { commits := 1 } := by
  refine Safe.transaction (safe_lockOne (fun w y hs => ?_) fun _ w y hs e l' hl w' y' hs' =>
    stockPost_error hl.commits (hs.rely _ hx) hs' e)
  have hx₁ : y ciId = some i := hs.rely _ hx
  cases hr : (({ commits := 1 } : Txn shop).view w.db).get .commitIntent ciId with
  | none =>
    refine Safe.raise ?_
    intro w' y' hs'
    exact stockPost_error rfl hx₁ hs' _
  | some row =>
    have hid : row.id = ciId := Store.id_of_get hr
    subst hid
    have hheld : HoldsIntent i row w.db y
        (({ commits := 1 } : Txn shop).acquire [Lock.row Table.commitIntent row.id]) :=
      ⟨hx₁, List.mem_cons_self, hr⟩
    have hstart : Decremented floor (fun _ => 0) w.db [] :=
      ⟨hs.world.wf, by simp, by simp, fun q hq => hs.inv.floor q hq⟩
    refine Safe.bind ((decrementStock_safe hfloor _ rfl hheld hstart).mono fun r sh x l hdec => ?_)
    cases r with
    | error e =>
      intro w' y' hs'
      exact stockPost_error hdec.1 hdec.2 hs' e
    | ok errors =>
      obtain ⟨hc, hheld, hdec⟩ := hdec
      simp only
      split
      · refine Safe.raise ?_
        intro w' y' hs'
        exact stockPost_error hc hheld.holder hs' _
      · rename_i herrors
        have hdec := hdec (by simpa using herrors)
        refine Safe.bind (safe_updateOne (fun w₁ y₁ hs₁ l₁ hu => ?_)
          fun _ w₁ y₁ hs₁ e l' hl w' y' hs' =>
            stockPost_error (hl.commits.trans hc) (hheld.seen hs₁).holder hs' e)
        have hheld₁ := hheld.seen hs₁
        have hdec₁ := hdec.seen hs₁ fun _ h => h
        have hr₁ : (l.view w₁.db).get .commitIntent row.id = some row := by
          rw [Txn.view, hdec₁.get_intent]
          exact hheld₁.stored
        obtain ⟨hw, -⟩ := updated_one hu hr₁
        have hheld₁ := hheld₁.grow hu.keeps
        refine Safe.pure (Safe.commit (fun w₂ y₂ hs₂ _ => ?_) fun _ w y hs e l' hl w' y' hs' =>
          stockPost_error (hl.commits.trans (hu.commits.trans hc)) (hheld₁.seen hs).holder hs' e)
        have hheld₂ := hheld₁.seen hs₂
        have hdec₂ := hdec₁.seen hs₂ fun v hv => hw ▸ List.mem_cons_of_mem _ hv
        have hst : row.status = CommitIntentStatus.processing.value := by
          have h := hs₂.inv.held _ _ hheld₂.holder
          rw [intentStatus, hheld₂.stored] at h
          exact Option.some.inj h
        have hchange : ∀ p, netChange l.writes w₂.db .product (stockOf p) +
            doneQty p { row with status := CommitIntentStatus.done.value } = doneQty p row := fun p => by
          rw [hdec₂.change p]
          simp [doneQty, hst, CommitIntentStatus.value, CommitIntent.items]
        have hfl : ∀ q : Product, q ∈ l₁.view w₂.db .product → floor q.id ≤ q.stockQty := fun q hq => by
          have hne : Table.product ≠ Table.commitIntent := by decide
          rw [Txn.view, hw, applyWrites, Store.put_of_ne _ _ hne] at hq
          exact hdec₂.floor q hq
        obtain ⟨h1, h2⟩ := intent_commit (i := i) hs₂.inv hs₂.world.wf hw hdec₂.only hheld₂.stored rfl
          hchange hfl (.inl hheld₂.holder) w₂.host
        exact ⟨h1, h2, trivial⟩

/-! ## Recovery -/

def writtenIntent : Write shop → Option CommitIntent
  | ⟨.commitIntent, c⟩ => some c
  | _ => none

/-- An intent is rescheduled or given up while it is neither in processing nor done. -/
def MovesFreely (d : Db) (c : CommitIntent) : Prop :=
  c.status = CommitIntentStatus.processing.value ∨
    (intentStatus d c.id ≠ some CommitIntentStatus.processing.value ∧
      intentStatus d c.id ≠ some CommitIntentStatus.done.value)

/-- A worker without a committed claim commits a new status only over an intent that is
neither in processing nor done. -/
def recoveryAllowed : Guard shop shopHost n := fun _ sh l a _ =>
  match a with
  | .commit => l.commits = 0 → ∀ c ∈ l.writes.filterMap writtenIntent, MovesFreely sh.db c
  | _ => True

/-- The worker holds the intent, or it has no committed claim and is kept from moving
intents of others. -/
def MayRecover (G : Guard shop shopHost n) (i : Fin n) (ciId : ℕ) (x : ℕ → Option (Fin n))
    (l : Txn shop) : Prop :=
  x ciId = some i ∨ (l.commits = 0 ∧ ∀ sh l a c, G i sh l a c → recoveryAllowed i sh l a c)

theorem MayRecover.seen (h : MayRecover G i ciId x l) {w : World shop shopHost}
    {y : ℕ → Option (Fin n)} (hs : Seen (stockProtocol init floor n) i l sh x w y) :
    MayRecover G i ciId y l := h.imp (hs.rely _) id

theorem moveIntent_safe {g : CommitIntent → CommitIntent} (hid : ∀ c, (g c).id = c.id)
    (st : CommitIntentStatus) (hg : ∀ c, (g c).status = st.value)
    (hproc : st.value ≠ CommitIntentStatus.processing.value)
    (hdone : st.value ≠ CommitIntentStatus.done.value) (hl : l.writes = [])
    (hmay : MayRecover G i ciId x l) :
    Safe (stockProtocol init floor n) G i (fun _ _ _ _ => True)
      (do let _ ← update .commitIntent (fun c : CommitIntent => c.id = ciId) g hid; commit) sh x l := by
  refine Safe.bind (safe_updateOne (fun w y hs l' hu => ?_) fun _ _ _ _ _ _ _ => trivial)
  have hmay₁ := hmay.seen hs
  cases hr : (l.view w.db).get .commitIntent ciId with
  | none =>
    have hw := updated_none hu hr
    exact Safe.commit_nothing (hw.trans hl) (fun _ _ _ => trivial) fun _ _ _ _ _ _ _ => trivial
  | some r =>
    have hid' : r.id = ciId := Store.id_of_get hr
    subst hid'
    have hr₁ : w.db.get .commitIntent r.id = some r := by
      rwa [Txn.view_of_no_writes hl] at hr
    obtain ⟨hw, hlock⟩ := updated_one hu hr
    rw [hl] at hw
    refine Safe.commit (fun w₂ y₂ hs₂ ⟨c, hG⟩ => ?_) fun _ _ _ _ _ _ _ => trivial
    have hr₂ : w₂.db.get .commitIntent r.id = some r := (hs₂.still.row _ _ hlock).trans hr₁
    have hst : intentStatus w₂.db r.id = some r.status := by
      rw [intentStatus, hr₂]
      rfl
    have hmove : r.status ≠ CommitIntentStatus.done.value ∧
        (y₂ r.id = some i ∨ (y₂ r.id = none ∧ r.status ≠ CommitIntentStatus.done.value)) := by
      rcases hmay₁ with hx | ⟨hc, hall⟩
      · have hx₂ : y₂ r.id = some i := hs₂.rely _ hx
        have hp := hs₂.inv.held _ _ hx₂
        rw [hst] at hp
        refine ⟨fun hd => ?_, .inl hx₂⟩
        rw [hd] at hp
        exact absurd (Option.some.inj hp) (by decide)
      · have hmem : g r ∈ l'.writes.filterMap writtenIntent := by
          rw [hw]
          exact List.mem_cons_self
        have hfree : MovesFreely w₂.db (g r) :=
          hall _ _ _ _ hG (hu.commits.trans hc) _ hmem
        obtain ⟨h1, h2⟩ := hfree.resolve_left (hg r ▸ hproc)
        rw [hid] at h1 h2
        have hd : r.status ≠ CommitIntentStatus.done.value := by
          rw [hst] at h2
          simpa using h2
        exact ⟨hd, .inr ⟨hs₂.inv.unheld h1, hd⟩⟩
    have hfl : ∀ q : Product, q ∈ l'.view w₂.db .product → floor q.id ≤ q.stockQty := fun q hq => by
      have hne : Table.product ≠ Table.commitIntent := by decide
      rw [Txn.view, hw, applyWrites, Store.put_of_ne _ _ hne] at hq
      exact hs₂.inv.floor q hq
    obtain ⟨h1, h2⟩ := intent_commit (i := i) hs₂.inv hs₂.world.wf hw (by simp) hr₂ (hid r)
      (fun p => by simp [doneQty, hg r, hdone, hmove.1]) hfl hmove.2 w₂.host
    exact ⟨h1, h2, trivial⟩

theorem scheduleRetry_safe {maxAttempts : ℕ} (hl : l.writes = []) (hmay : MayRecover G i ciId x l) :
    Safe (stockProtocol init floor n) G i (fun _ _ _ _ => True) (scheduleRetry maxAttempts ciId)
      sh x l := by
  refine safe_selectOne (fun w y hs => ?_) fun _ _ _ _ _ _ _ => trivial
  simp only
  split
  · refine moveIntent_safe _ .failed ?_ (by decide) (by decide) hl (hmay.seen hs)
    intro _
    rfl
  · refine Safe.bind (safe_now (stock_quiet init floor) fun w₁ y₁ hs₁ => ?_)
    refine moveIntent_safe _ .pending ?_ (by decide) (by decide) hl ((hmay.seen hs).seen hs₁)
    intro _
    rfl

theorem handler_safe (hfloor : ∀ p, floor p ≤ 0)
    (hG : ClaimSucceeds G i ∨ ∀ sh l a c, G i sh l a c → recoveryAllowed i sh l a c)
    (maxAttempts : ℕ) (ciId : Option ℕ) :
    Safe (stockProtocol init floor n) G i (fun _ _ _ _ => True)
      (orderConfirmCommitintentHandler maxAttempts ciId) sh x {} := by
  rcases ciId with _ | _ | k
  · exact Safe.pure trivial
  · exact Safe.pure trivial
  refine Safe.bind (Safe.attempt (Safe.bind (claimCommitIntent_safe.mono fun r sh x l hr => ?_)))
  cases r with
  | error e =>
    obtain ⟨rfl, hclaim⟩ := hr
    exact scheduleRetry_safe rfl (.inr ⟨rfl, hG.resolve_left hclaim⟩)
  | ok b =>
    cases b with
    | false => exact Safe.pure trivial
    | true =>
      obtain ⟨hx, rfl⟩ := hr rfl
      refine (commitStock_safe hfloor hx).mono fun r sh x l hr => ?_
      cases r with
      | ok _ => exact Safe.pure trivial
      | error e =>
        obtain ⟨hx, rfl⟩ := hr
        exact scheduleRetry_safe rfl (.inl hx)

end Worker

/-! ## Which actions the handler takes -/

/-- The statements of the handler of an intent. -/
structure IntentActions (A : ShopAction → Prop) (ciId : Option ℕ) : Prop where
  lockSkip : ∀ p, A (.lockSkip .commitIntent p)
  lock : ∀ {t} p, A (.lock t p)
  read : ∀ {γ} f, A (.read (β := γ) f)
  commit : A .commit
  rollback : A .rollback
  now : A (.host .now)
  product : ∀ p f hf, A (.update .product p f hf)
  intent : ∀ k, ciId = some k → ∀ f hf, A (.update .commitIntent (fun c : CommitIntent => c.id = k) f hf)

section Actions
variable {A : ShopAction → Prop}

theorem decrementStock_acts {ciId : Option ℕ} (hA : IntentActions A ciId) (items : List CommitItem) :
    (decrementStock items).Acts A := by
  induction items with
  | nil => trivial
  | cons it items ih =>
    apply Prog.Acts.bind (.call (hA.lock _))
    intro rows
    apply (oneOrNone_acts rows).bind
    intro o
    cases o with
    | none => trivial
    | some prod =>
      dsimp only
      split
      · exact ih.bind fun _ => .pure _
      · exact Prog.Acts.bind (.call (hA.product _ _ _)) fun _ => ih

section Intent
variable {k : ℕ} (hA : IntentActions A (some k))
include hA

theorem claimCommitIntent_acts : (claimCommitIntent k).Acts A := by
  apply Prog.Acts.bind (.call (hA.lockSkip _))
  intro rows
  apply (oneOrNone_acts rows).bind
  intro o
  cases o with
  | none => trivial
  | some ci =>
    dsimp only
    split
    · trivial
    · exact Prog.Acts.bind (.call (hA.intent _ rfl _ _)) fun _ => .pure _

theorem commitStock_acts : (commitStock k).Acts A := by
  apply Prog.Acts.bind (.call (hA.lock _))
  intro rows
  apply (oneOrNone_acts rows).bind
  intro o
  cases o with
  | none => trivial
  | some row =>
    apply (decrementStock_acts hA _).bind
    intro errors
    split
    · trivial
    · exact Prog.Acts.bind (.call (hA.intent _ rfl _ _)) fun _ => .pure _

theorem scheduleRetry_acts (maxAttempts : ℕ) : (scheduleRetry maxAttempts k).Acts A := by
  apply Prog.Acts.bind (.call (hA.read _))
  intro rows
  apply (oneOrNone_acts rows).bind
  intro row
  dsimp only
  split
  · exact Prog.Acts.bind (.call (hA.intent _ rfl _ _)) fun _ => .call hA.commit
  · apply Prog.Acts.bind (.call hA.now)
    intro t
    exact Prog.Acts.bind (.call (hA.intent _ rfl _ _)) fun _ => .call hA.commit

end Intent

theorem orderConfirmCommitintentHandler_acts {ciId : Option ℕ} (hA : IntentActions A ciId) (maxAttempts : ℕ) :
    (orderConfirmCommitintentHandler maxAttempts ciId).Acts A := by
  match ciId with
  | none => trivial
  | some 0 => trivial
  | some (k + 1) =>
    have hbody : (do
        if ← Prog.transaction (claimCommitIntent (k + 1)) then
          Prog.transaction (commitStock (k + 1)) : Py Unit).Acts A := by
      apply ((claimCommitIntent_acts hA).transaction hA.commit hA.rollback).bind
      intro b
      cases b with
      | false => trivial
      | true => exact (commitStock_acts hA).transaction hA.commit hA.rollback
    apply hbody.attempt.bind
    intro r
    cases r with
    | ok _ => trivial
    | error e => exact scheduleRetry_acts hA maxAttempts

end Actions
end Phyllonix
