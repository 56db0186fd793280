import Phyllonix.CommitIntentRuns
import Phyllonix.RelationalLog

/-!
# The retry budget of a commit intent

Every run of the handler on an intent fails in its stock transaction. A failed run counts
twice: its claim adds an attempt, and its recovery adds another one.
-/

namespace Phyllonix
open Relational
variable {n : ℕ}

/-- The claims of one intent so far, and the runs that failed after their claim. -/
structure Redeliveries (n : ℕ) where
  claims : ℕ := 0
  failures : ℕ := 0
  /-- a claim came before `next_retry_at` -/
  early : Bool := false
  /-- the run in its stock transaction -/
  holder : Option (Fin n) := none

def Redeliveries.claim (x : Redeliveries n) (i : Fin n) (c : CommitIntent) (clock : ℕ) : Redeliveries n where
  claims := x.claims + 1
  failures := x.failures
  early := x.early || c.nextRetryAt.any fun t => clock < t
  holder := some i

def Redeliveries.fail (x : Redeliveries n) : Redeliveries n :=
  { x with failures := x.failures + 1, holder := none }

/-- Read off the status before and after a step. -/
def redelivered (ciId : ℕ) (i : Fin n) (sh sh' : Shared shop shopHost) (x : Redeliveries n) : Redeliveries n :=
  match sh.db.get .commitIntent ciId, sh'.db.get .commitIntent ciId with
  | some c, some c' =>
    if CommitIntent.status c' = CommitIntent.status c then x
    else if CommitIntent.status c' = CommitIntentStatus.processing.value then x.claim i c sh.host.clock
    else x.fail
  | _, _ => x

def redeliveries (ciId : ℕ) (n : ℕ) : History shop shopHost n := ⟨Redeliveries n, redelivered ciId⟩

/-- The statements of the stock transaction. -/
def StockStatement (l : Txn shop) : ShopAction → Prop
  | .lock _ _ => True
  | .update .product _ _ _ => True
  | .update .commitIntent _ f _ => ∀ c : CommitIntent, (f c).status = CommitIntentStatus.done.value
  | .commit => ∃ c ∈ l.writes.filterMap writtenIntent, c.status = CommitIntentStatus.done.value
  | .rollback => True
  | _ => False

/-- On the intent, the stock transaction of a run does not commit, and no other statement raises. -/
def stockFails (ids : Fin n → Option ℕ) (ciId : ℕ) : Guard shop shopHost n := fun i _ l a c =>
  ids i = some ciId → (c.isFault = true → StockStatement l a) ∧ (a = .commit → StockStatement l a → c.isFault = true)

/-- The budget of `maxAttempts` runs: one attempt for each claim, no claim before its time, and FAILED
with the last failed run. -/
structure KeepsBudget (maxAttempts ciId : ℕ) (d : Db) (x : Redeliveries n) : Prop where
  attempts : ∀ c : CommitIntent, d.get .commitIntent ciId = some c → c.attempts = x.claims
  punctual : x.early = false
  pending : ∀ c : CommitIntent, d.get .commitIntent ciId = some c → x.claims = x.failures →
    x.failures < maxAttempts → c.status = CommitIntentStatus.pending.value
  failed : ∀ c : CommitIntent, d.get .commitIntent ciId = some c → x.failures = maxAttempts →
    c.status = CommitIntentStatus.failed.value
  within : x.failures ≤ maxAttempts

/-- As `create_commit_intent` inserts it. -/
structure CommitIntent.Fresh (c : CommitIntent) : Prop where
  status : c.status = CommitIntentStatus.pending.value
  attempts : c.attempts = 0
  nextRetryAt : c.nextRetryAt = none

/-! ## What the code keeps -/

/-- The intent after `failures` failed runs, and where a run is in its stock transaction. -/
inductive BudgetStage (maxAttempts : ℕ) (c : CommitIntent) (x : Redeliveries n) : Prop
  | pending : c.status = CommitIntentStatus.pending.value → x.holder = none → x.claims = x.failures →
      c.attempts = 2 * x.failures → 2 * x.failures < maxAttempts →
      (x.failures = 0 → c.nextRetryAt = none) → BudgetStage maxAttempts c x
  | processing : c.status = CommitIntentStatus.processing.value → x.holder ≠ none →
      x.claims = x.failures + 1 → c.attempts = 2 * x.failures + 1 → 2 * x.failures < maxAttempts →
      BudgetStage maxAttempts c x
  | failed : c.status = CommitIntentStatus.failed.value → x.holder = none → x.claims = x.failures →
      c.attempts + 1 = 2 * x.failures → maxAttempts ≤ 2 * x.failures →
      2 * x.failures < maxAttempts + 2 → BudgetStage maxAttempts c x

structure BudgetInv (maxAttempts ciId : ℕ) (d : Db) (x : Redeliveries n) : Prop where
  stage : ∃ c : CommitIntent, d.get .commitIntent ciId = some c ∧ BudgetStage maxAttempts c x
  early : x.early = true → 1 ≤ x.failures ∧ 2 < maxAttempts

section Stages
variable {maxAttempts ciId : ℕ} {c : CommitIntent} {d : Db} {x : Redeliveries n} {i : Fin n}

theorem BudgetStage.claim (h : BudgetStage maxAttempts c x) (hc : c.status = CommitIntentStatus.pending.value)
    (clock : ℕ) : BudgetStage maxAttempts
      { c with status := CommitIntentStatus.processing.value, attempts := c.attempts + 1 } (x.claim i c clock) := by
  cases h with
  | pending _ _ hclaims hattempts hlt _ =>
    exact .processing rfl (by simp [Redeliveries.claim]) (congrArg (· + 1) hclaims)
      (congrArg (· + 1) hattempts) hlt
  | processing hs => cases hc.symm.trans hs
  | failed hs => cases hc.symm.trans hs

/-- A claim that is early comes after a failed run, so the limit is above two. -/
theorem BudgetInv.claim_early (h : BudgetInv maxAttempts ciId d x) (hget : d.get .commitIntent ciId = some c)
    (hc : c.status = CommitIntentStatus.pending.value) {clock : ℕ} (he : (x.claim i c clock).early = true) :
    1 ≤ x.failures ∧ 2 < maxAttempts := by
  rcases Bool.or_eq_true_iff.1 he with hearly | hnext
  · exact h.early hearly
  · obtain ⟨c', hget', hstage⟩ := h.stage
    obtain rfl : c = c' := Option.some.inj (hget.symm.trans hget')
    cases hstage with
    | pending _ _ _ _ hlt hfresh =>
      have hpos : x.failures ≠ 0 := fun h0 => by simp [hfresh h0] at hnext
      omega
    | processing hs => cases hc.symm.trans hs
    | failed hs => cases hc.symm.trans hs

theorem BudgetStage.failed_of_le (h : BudgetStage maxAttempts c x)
    (hc : c.status = CommitIntentStatus.processing.value) (hle : maxAttempts ≤ c.attempts + 1) :
    BudgetStage maxAttempts { c with status := CommitIntentStatus.failed.value } x.fail := by
  cases h with
  | processing _ _ hclaims hattempts hlt =>
    have hdouble : 2 * x.fail.failures = 2 * x.failures + 2 := rfl
    exact .failed rfl rfl hclaims (by rw [hdouble, hattempts]) (by omega) (by omega)
  | pending hs => cases hc.symm.trans hs
  | failed hs => cases hc.symm.trans hs

theorem BudgetStage.pending_of_lt (h : BudgetStage maxAttempts c x)
    (hc : c.status = CommitIntentStatus.processing.value) (hlt : c.attempts + 1 < maxAttempts) (next : ℕ) :
    BudgetStage maxAttempts { c with
      status := CommitIntentStatus.pending.value
      nextRetryAt := some next
      attempts := c.attempts + 1 } x.fail := by
  cases h with
  | processing _ _ hclaims hattempts _ =>
    have hdouble : 2 * x.fail.failures = 2 * x.failures + 2 := rfl
    exact .pending rfl rfl hclaims (by rw [hdouble, hattempts]) (by omega) fun h0 => absurd h0 (Nat.succ_ne_zero _)
  | pending hs => cases hc.symm.trans hs
  | failed hs => cases hc.symm.trans hs

/-- Only the limit of one leaves every failed run its place in the budget. -/
theorem BudgetInv.keepsBudget_iff (hmax : 1 ≤ maxAttempts) (h : BudgetInv maxAttempts ciId d x) :
    KeepsBudget maxAttempts ciId d x ↔ x.failures = 0 ∨ maxAttempts = 1 := by
  obtain ⟨c, hget, hstage⟩ := h.stage
  have hrow : ∀ c' : CommitIntent, d.get .commitIntent ciId = some c' → c' = c := fun c' hc' =>
    Option.some.inj (hc'.symm.trans hget)
  constructor
  · intro hbudget
    have hattempts := hbudget.attempts c hget
    cases hstage with
    | pending _ _ hclaims hdouble _ _ => omega
    | processing _ _ hclaims hdouble _ => omega
    | failed hstatus _ hclaims hdouble hle hlt =>
      by_contra hnot
      have hpending := hbudget.pending c hget hclaims (by omega)
      cases hstatus.symm.trans hpending
  · intro hcond
    have hearly : x.early = false := by
      by_contra he
      have hlate := h.early (by simpa using he)
      omega
    cases hstage with
    | pending hstatus _ hclaims hdouble hlt _ =>
      refine ⟨fun c' hc' => ?_, hearly, fun c' hc' _ _ => ?_, fun c' hc' hmax' => ?_, by omega⟩
      · rw [hrow c' hc']
        omega
      · rw [hrow c' hc']
        exact hstatus
      · omega
    | processing hstatus _ hclaims hdouble hlt =>
      refine ⟨fun c' hc' => ?_, hearly, fun c' hc' heq _ => ?_, fun c' hc' hmax' => ?_, by omega⟩
      · rw [hrow c' hc']
        omega
      · omega
      · omega
    | failed hstatus _ hclaims hdouble hle hlt =>
      refine ⟨fun c' hc' => ?_, hearly, fun c' hc' _ hbelow => ?_, fun c' hc' _ => ?_, by omega⟩
      · rw [hrow c' hc']
        omega
      · omega
      · rw [hrow c' hc']
        exact hstatus

end Stages

/-! ## Runs -/

theorem redelivered_of_same {ciId : ℕ} {i : Fin n} {sh sh' : Shared shop shopHost} {x : Redeliveries n}
    (h : sh'.db.get .commitIntent ciId = sh.db.get .commitIntent ciId) : redelivered ciId i sh sh' x = x := by
  rw [redelivered, h]
  cases sh.db.get .commitIntent ciId with
  | none => rfl
  | some c => exact if_pos rfl

def budgetProtocol (maxAttempts ciId n : ℕ) : Protocol shop shopHost n where
  toHistory := redeliveries ciId n
  inv sh x := BudgetInv maxAttempts ciId sh.db x
  rely i _ sh x sh' x' := x.holder = some i →
    x'.holder = some i ∧ sh'.db.get .commitIntent ciId = sh.db.get .commitIntent ciId
  guar i _ sh x sh' := (∃ j, x.holder = some j ∧ i ≠ j) →
    sh'.db.get .commitIntent ciId = sh.db.get .commitIntent ciId
  next_same _ _ _ := redelivered_of_same rfl
  rely_refl _ _ _ _ h := ⟨h, rfl⟩
  rely_trans h h' hx := ⟨(h' (h hx).1).1, (h' (h hx).1).2.trans (h hx).2⟩
  guar_same _ _ _ _ _ := rfl
  compat {i j l m sh x sh'} hij _ _ _ _ hg hx := by
    have hsame : sh'.db.get .commitIntent ciId = sh.db.get .commitIntent ciId := hg ⟨j, hx, hij⟩
    exact ⟨(congrArg Redeliveries.holder (redelivered_of_same hsame)).trans hx, hsame⟩
  env_inv _ _ _ h := h
  env_rely _ _ _ _ _ _ h := ⟨h, rfl⟩

section Runs
variable {maxAttempts ciId : ℕ} {c c' : CommitIntent} {G : Guard shop shopHost n} {i : Fin n}
variable {sh sh' : Shared shop shopHost} {x : Redeliveries n} {l : Txn shop}

theorem redelivered_claim (h : sh.db.get .commitIntent ciId = some c) (h' : sh'.db.get .commitIntent ciId = some c')
    (hc : c.status = CommitIntentStatus.pending.value) (hc' : c'.status = CommitIntentStatus.processing.value) :
    redelivered ciId i sh sh' x = x.claim i c sh.host.clock := by
  simp only [redelivered, h, h', hc, hc']
  rfl

theorem redelivered_fail (h : sh.db.get .commitIntent ciId = some c) (h' : sh'.db.get .commitIntent ciId = some c')
    (hc : c.status = CommitIntentStatus.processing.value) (hc' : c'.status ≠ CommitIntentStatus.processing.value) :
    redelivered ciId i sh sh' x = x.fail := by
  simp only [redelivered, h, h', hc]
  rw [if_neg hc', if_neg hc']

theorem budget_quiet (maxAttempts ciId : ℕ) : Quiet (budgetProtocol maxAttempts ciId n) where
  inv _ h := h
  next _ _ _ _ := redelivered_of_same rfl
  guar _ _ _ _ _ _ _ := rfl

/-- An intent written on top of other tables is the one that is seen. -/
theorem get_written_intent {d : Db} {ws : List (Write shop)} (hid : c'.id = ciId)
    (hws : l.writes = ⟨.commitIntent, c'⟩ :: ws) : (l.view d).get .commitIntent ciId = some c' := by
  rw [Txn.view, hws, applyWrites, ← hid]
  exact Store.get_put_self (S := shop) _ .commitIntent c'

/-- A run of the handler whose stock transaction is all that may raise, and does. -/
structure OnlyStockFails (G : Guard shop shopHost n) (i : Fin n) : Prop where
  fault : ∀ sh l a, G i sh l a .fault → StockStatement l a
  commit : ∀ sh l c, G i sh l .commit c → StockStatement l .commit → c.isFault = true

theorem OnlyStockFails.not_fails (hG : OnlyStockFails G i) {a : ShopAction} (ha : ¬StockStatement l a)
    (hl : l.aborted = false) : ¬Fails G i sh l a := by
  rintro (h | h)
  · exact ha (hG.fault _ _ _ h)
  · rw [hl] at h
    cases h

theorem not_stockStatement_update (st : CommitIntentStatus) {p : CommitIntent → Bool} {f : CommitIntent → CommitIntent}
    {hf : ∀ r, rowId (t := .commitIntent) (f r) = rowId (t := .commitIntent) r}
    (hst : ∀ c, (f c).status = st.value) (hne : st.value ≠ CommitIntentStatus.done.value) :
    ¬StockStatement l (.update (S := shop) .commitIntent p f hf) :=
  fun h => hne ((hst ⟨0, "", 0, "", 0, none, 0, none⟩).symm.trans (h _))

theorem not_stockStatement_commit (st : CommitIntentStatus) (hws : l.writes = [⟨.commitIntent, c'⟩])
    (hst : c'.status = st.value) (hne : st.value ≠ CommitIntentStatus.done.value) :
    ¬StockStatement l .commit := by
  rintro ⟨c, hc, hdone⟩
  rw [hws] at hc
  obtain rfl : c = c' := by simpa [writtenIntent] using hc
  exact hne (hst.symm.trans hdone)

/-- After the claim: the run holds the intent, or it is over. -/
def ClaimedIntent (maxAttempts ciId : ℕ) (i : Fin n) : Post (budgetProtocol maxAttempts ciId n) Bool :=
  fun r _ x l => ∃ b, r = .ok b ∧ (b = true → x.holder = some i ∧ l = { commits := 1 })

theorem claimCommitIntent_budget (hG : OnlyStockFails G i) :
    Safe (budgetProtocol maxAttempts ciId n) G i (ClaimedIntent maxAttempts ciId i)
      (Prog.transaction (claimCommitIntent ciId)) sh x {} := by
  apply Safe.transaction
  apply safe_lockSkipById
  · intro w y hs free
    dsimp only
    cases ho : ((({} : Txn shop).view w.db).get .commitIntent ciId).filter
        fun r : CommitIntent => decide (r.status = CommitIntentStatus.pending.value) && free r with
    | none =>
      apply Safe.pure
      apply Safe.commit_nothing rfl
      · exact fun _ _ _ => ⟨false, rfl, fun h => by cases h⟩
      · rintro ⟨sh', hf⟩
        refine absurd hf (hG.not_fails ?_ rfl)
        rintro ⟨c, hc, -⟩
        cases hc
    | some r =>
      obtain ⟨hget, hp⟩ := Option.filter_eq_some_iff.mp ho
      have hpending : CommitIntent.status r = CommitIntentStatus.pending.value := by
        simp only [Bool.and_eq_true, decide_eq_true_eq] at hp
        exact hp.1
      have hid : CommitIntent.id r = ciId := Store.id_of_get hget
      have hne : ¬CommitIntent.status r = CommitIntentStatus.done.value := by
        rw [hpending]
        decide
      dsimp only
      rw [if_neg hne]
      apply Safe.bind
      apply safe_updateById
      · intro w₁ y₁ hs₁ l₁ hu
        have hget₁ : w₁.db.get .commitIntent ciId = some r := by
          subst hid
          exact (hs₁.still.row _ _ List.mem_cons_self).trans hget
        obtain ⟨hw, hlock⟩ := updated_one hu hget₁
        simp only [Txn.acquire_writes] at hw
        apply Safe.pure
        apply Safe.commit
        · rintro w₂ y₂ hs₂ -
          have hget₂ : w₂.db.get .commitIntent ciId = some r := (hs₂.still.row _ _ hlock).trans hget₁
          have hget₃ : (l₁.view w₂.db).get .commitIntent ciId = some { r with
              status := CommitIntentStatus.processing.value
              attempts := CommitIntent.attempts r + 1 } := get_written_intent hid hw
          have hnext : (budgetProtocol maxAttempts ciId n).next i w₂.toShared ⟨l₁.view w₂.db, w₂.host⟩ y₂ =
              Redeliveries.claim y₂ i r w₂.host.clock := redelivered_claim hget₂ hget₃ hpending rfl
          rw [hnext]
          obtain ⟨c₂, hc₂, hstage⟩ := hs₂.inv.stage
          obtain rfl : r = c₂ := Option.some.inj (hget₂.symm.trans hc₂)
          have hfree : y₂.holder = none := by
            cases hstage with
            | pending _ hholder => exact hholder
            | processing hst => cases hpending.symm.trans hst
            | failed hst => cases hpending.symm.trans hst
          refine ⟨⟨⟨_, hget₃, hstage.claim hpending _⟩, hs₂.inv.claim_early hget₂ hpending⟩, ?_,
            true, rfl, fun _ => ⟨rfl, ?_⟩⟩
          · rintro ⟨j, hj, -⟩
            rw [hfree] at hj
            cases hj
          · rw [Txn.committed, hu.commits]
            rfl
        · rintro ⟨sh', hf⟩
          exact absurd hf (hG.not_fails (not_stockStatement_commit .processing hw rfl (by decide)) hu.aborted)
      · rintro (⟨sh', p, hf⟩ | ⟨u, hu⟩)
        · exact absurd hf (hG.not_fails (not_stockStatement_update .processing (fun _ => rfl) (by decide)) rfl)
        · exact absurd rfl hu
  · rintro ⟨sh', q, hf⟩
    exact absurd hf (hG.not_fails id rfl)

/-- The run holds the intent, and has written products only. -/
structure InStock (maxAttempts ciId : ℕ) (i : Fin n) (c : CommitIntent) (sh : Shared shop shopHost)
    (x : Redeliveries n) (l : Txn shop) : Prop where
  holder : x.holder = some i
  stored : sh.db.get .commitIntent ciId = some c
  only : ∀ u ∈ l.writes, u.tbl = Table.product
  commits : l.commits = 1

theorem InStock.seen (h : InStock maxAttempts ciId i c sh x l) {l' : Txn shop} {w : World shop shopHost}
    {y : Redeliveries n} (hs : Seen (budgetProtocol maxAttempts ciId n) i l' sh x w y) :
    InStock maxAttempts ciId i c w.toShared y l :=
  ⟨(hs.rely h.holder).1, (hs.rely h.holder).2.trans h.stored, h.only, h.commits⟩

theorem InStock.get_view (h : InStock maxAttempts ciId i c sh x l) :
    (l.view sh.db).get .commitIntent ciId = some c := by
  rw [Txn.view, get_applyWrites_of_not_written _ sh.db]
  · exact h.stored
  · exact not_written_of_tbl h.only (by decide) ciId

/-- The stock transaction is open, or a statement of it has raised. -/
def InStockPost (maxAttempts ciId : ℕ) (i : Fin n) (c : CommitIntent) {α : Type} :
    Post (budgetProtocol maxAttempts ciId n) α := fun r sh x l =>
  match r with
  | .ok _ => InStock maxAttempts ciId i c sh x l
  | .error _ => x.holder = some i ∧ l.commits = 1

theorem InStock.raised (h : InStock maxAttempts ciId i c sh x l) {w : World shop shopHost} {y : Redeliveries n}
    (hs : Seen (budgetProtocol maxAttempts ciId n) i l sh x w y) {l' : Txn shop} (hl : AfterError l l') :
    y.holder = some i ∧ l'.commits = 1 :=
  ⟨(h.seen hs).holder, hl.commits.trans h.commits⟩

theorem decrementStock_budget (items : List CommitItem) (h : InStock maxAttempts ciId i c sh x l) :
    Safe (budgetProtocol maxAttempts ciId n) G i (InStockPost maxAttempts ciId i c) (decrementStock items) sh x l := by
  induction items generalizing sh x l with
  | nil => exact Safe.pure h
  | cons it rest ih =>
    apply safe_lockOne
    · intro w y hs
      have h₁ := h.seen hs
      cases hq : (l.view w.db).get .product it.productId with
      | none => exact Safe.raise ⟨h₁.holder, h₁.commits⟩
      | some q =>
        have h₂ : InStock maxAttempts ciId i c w.toShared y (l.acquire [Lock.row Table.product q.id]) :=
          ⟨h₁.holder, h₁.stored, h₁.only, h₁.commits⟩
        dsimp only
        split
        · apply Safe.bind
          apply (ih h₂).mono
          intro r sh x l hr
          cases r with
          | error e => exact hr
          | ok errors => exact Safe.pure hr
        · apply Safe.bind
          apply safe_updateOne
          · intro w₁ y₁ hs₁ l₁ hu
            have h₃ := h₂.seen hs₁
            apply ih
            refine ⟨h₃.holder, h₃.stored, fun u hmem => ?_, hu.commits.trans h₃.commits⟩
            rw [hu.writes] at hmem
            rcases List.mem_append.1 hmem with hnew | hold
            · simp only [updateWrites, List.mem_reverse, List.mem_map] at hnew
              obtain ⟨q', -, rfl⟩ := hnew
              rfl
            · exact h₃.only u hold
          · exact fun _ w₁ y₁ hs₁ e l' hl => h₂.raised hs₁ hl
    · exact fun _ w y hs e l' hl => h.raised hs hl

/-- A run holds its intent after its stock transaction, which does not commit. -/
def StockRaised (maxAttempts ciId : ℕ) (i : Fin n) : Post (budgetProtocol maxAttempts ciId n) Unit :=
  fun r _ x l => ∃ e, r = .error e ∧ x.holder = some i ∧ l = { commits := 1 }

theorem stockRaised {w : World shop shopHost} {y : Redeliveries n}
    (h : x.holder = some i ∧ l.commits = 1) (hs : Seen (budgetProtocol maxAttempts ciId n) i l sh x w y)
    (e : Exn AppErr) : StockRaised maxAttempts ciId i (.error e) w.toShared y l.reset :=
  ⟨e, rfl, (hs.rely h.1).1, by rw [Txn.reset, h.2]⟩

theorem commitStock_budget (hG : OnlyStockFails G i) (hx : x.holder = some i) :
    Safe (budgetProtocol maxAttempts ciId n) G i (StockRaised maxAttempts ciId i)
      (Prog.transaction (commitStock ciId)) sh x { commits := 1 } := by
  apply Safe.transaction
  apply safe_lockOne
  · intro w y hs
    have hx₁ : y.holder = some i := (hs.rely hx).1
    obtain ⟨c, hget, -⟩ := hs.inv.stage
    have hview : (({ commits := 1 } : Txn shop).view w.db).get .commitIntent ciId = some c := hget
    rw [hview]
    have h₁ : InStock maxAttempts ciId i c w.toShared y
        (({ commits := 1 } : Txn shop).acquire [Lock.row Table.commitIntent c.id]) :=
      ⟨hx₁, hget, fun _ hu => (by cases hu), rfl⟩
    dsimp only
    apply Safe.bind
    apply (decrementStock_budget _ h₁).mono
    intro r sh x l hr
    cases r with
    | error e => exact fun w y hs => stockRaised hr hs e
    | ok errors =>
      have hstock : InStock maxAttempts ciId i c sh x l := hr
      dsimp only
      split
      · exact Safe.raise fun w y hs => stockRaised ⟨hstock.holder, hstock.commits⟩ hs _
      · apply Safe.bind
        apply safe_updateOne
        · intro w₁ y₁ hs₁ l₁ hu
          have h₂ := hstock.seen hs₁
          obtain ⟨hw, -⟩ := updated_one hu h₂.get_view
          have hdone : StockStatement l₁ .commit := by
            refine ⟨{ c with status := CommitIntentStatus.done.value }, ?_, rfl⟩
            rw [hw]
            exact List.mem_cons_self
          apply Safe.pure
          apply Safe.commit_fault
          · exact fun _ _ hg => hG.commit _ _ _ hg hdone
          · intro w₂ y₂ hs₂ e l' hl w₃ y₃ hs₃
            have hx₂ : y₂.holder = some i := (hs₂.rely h₂.holder).1
            exact stockRaised ⟨hx₂, (hl.commits.trans hu.commits).trans h₂.commits⟩ hs₃ e
        · exact fun _ w y hs e l' hl w' y' hs' => stockRaised (hstock.raised hs hl) hs' e
  · exact fun _ w y hs e l' hl w' y' hs' => stockRaised ⟨(hs.rely hx).1, hl.commits⟩ hs' e

/-- The recovery of a run that holds the intent. -/
theorem recoverIntent_budget {g : CommitIntent → CommitIntent} (hid : ∀ c, (g c).id = c.id)
    (hproc : ∀ c, (g c).status ≠ CommitIntentStatus.processing.value)
    (hstage : ∀ y : Redeliveries n, BudgetStage maxAttempts c y →
      c.status = CommitIntentStatus.processing.value → BudgetStage maxAttempts (g c) y.fail)
    (hx : x.holder = some i) (hget : sh.db.get .commitIntent ciId = some c) :
    Safe (budgetProtocol maxAttempts ciId n) G i (fun _ _ _ _ => True)
      (do let _ ← update .commitIntent (fun c : CommitIntent => c.id = ciId) g hid; commit) sh x { commits := 1 } := by
  apply Safe.bind
  apply safe_updateById
  · intro w y hs l' hu
    have hget₁ : w.db.get .commitIntent ciId = some c := (hs.rely hx).2.trans hget
    have hx₁ : y.holder = some i := (hs.rely hx).1
    obtain ⟨hw, -⟩ := updated_one hu hget₁
    apply Safe.commit
    · rintro w₂ y₂ hs₂ -
      have hx₂ : y₂.holder = some i := (hs₂.rely hx₁).1
      have hget₂ : w₂.db.get .commitIntent ciId = some c := (hs₂.rely hx₁).2.trans hget₁
      have hget₃ : (l'.view w₂.db).get .commitIntent ciId = some (g c) :=
        get_written_intent ((hid c).trans (Store.id_of_get hget₁)) hw
      obtain ⟨c₂, hc₂, hold⟩ := hs₂.inv.stage
      obtain rfl : c = c₂ := Option.some.inj (hget₂.symm.trans hc₂)
      have hheld : c.status = CommitIntentStatus.processing.value := by
        cases hold with
        | pending _ hnone => cases hx₂.symm.trans hnone
        | processing hstatus => exact hstatus
        | failed _ hnone => cases hx₂.symm.trans hnone
      have hnext : (budgetProtocol maxAttempts ciId n).next i w₂.toShared ⟨l'.view w₂.db, w₂.host⟩ y₂ = y₂.fail :=
        redelivered_fail hget₂ hget₃ hheld (hproc c)
      rw [hnext]
      refine ⟨⟨⟨g c, hget₃, hstage y₂ hold hheld⟩, fun he => ?_⟩, ?_, trivial⟩
      · obtain ⟨hfailed, hmax⟩ := hs₂.inv.early he
        exact ⟨Nat.le_succ_of_le hfailed, hmax⟩
      · rintro ⟨j, hj, hne⟩
        exact absurd (Option.some.inj (hx₂.symm.trans hj)) hne
    · exact fun _ _ _ _ _ _ _ => trivial
  · exact fun _ _ _ _ _ _ _ => trivial

theorem scheduleRetry_budget (hx : x.holder = some i) :
    Safe (budgetProtocol maxAttempts ciId n) G i (fun _ _ _ _ => True) (scheduleRetry maxAttempts ciId)
      sh x { commits := 1 } := by
  apply safe_selectById
  · intro w y hs
    have hx₁ : y.holder = some i := (hs.rely hx).1
    obtain ⟨c, hget, -⟩ := hs.inv.stage
    have hview : (({ commits := 1 } : Txn shop).view w.db).get .commitIntent ciId = some c := hget
    rw [hview]
    dsimp only [Option.map_some, Option.getD_some]
    split
    · rename_i hle
      have hne : CommitIntentStatus.failed.value ≠ CommitIntentStatus.processing.value := by decide
      apply recoverIntent_budget _ (fun _ => hne) _ hx₁ hget
      exact fun y hstage hc => hstage.failed_of_le hc hle
    · rename_i hlt
      apply Safe.bind
      apply safe_now (budget_quiet maxAttempts ciId)
      intro w₁ y₁ hs₁
      have hne : CommitIntentStatus.pending.value ≠ CommitIntentStatus.processing.value := by decide
      apply recoverIntent_budget _ (fun _ => hne) _ (hs₁.rely hx₁).1 ((hs₁.rely hx₁).2.trans hget)
      exact fun y hstage hc => hstage.pending_of_lt hc (by omega) _
  · exact fun _ _ _ _ _ _ _ => trivial

theorem handler_budget (hG : OnlyStockFails G i) :
    Safe (budgetProtocol maxAttempts ciId n) G i (fun _ _ _ _ => True)
      (orderConfirmCommitintentHandler maxAttempts (some ciId)) sh x {} := by
  match ciId with
  | 0 => exact Safe.pure trivial
  | k + 1 =>
    apply Safe.bind
    apply Safe.attempt
    apply Safe.bind
    apply (claimCommitIntent_budget hG).mono
    rintro r sh x l ⟨b, rfl, hb⟩
    cases b with
    | false => exact Safe.pure trivial
    | true =>
      obtain ⟨hx, rfl⟩ := hb rfl
      apply (commitStock_budget hG hx).mono
      rintro r sh x l ⟨e, rfl, hx, rfl⟩
      exact scheduleRetry_budget hx

/-! ## Other intents -/

/-- What the handler of another intent may write. -/
def Spares (ciId : ℕ) (v : Write shop) : Prop := ¬(v.tbl = .commitIntent ∧ rowId v.row = ciId)

theorem BudgetInv.of_get {d d' : Db} (h : BudgetInv maxAttempts ciId d x)
    (hsame : d'.get .commitIntent ciId = d.get .commitIntent ciId) : BudgetInv maxAttempts ciId d' x := by
  obtain ⟨c, hget, hstage⟩ := h.stage
  exact ⟨⟨c, hsame.trans hget, hstage⟩, h.early⟩

theorem spares_budget {α : Type} {p : Py α} (hp : p.Acts (Action.Confined (Spares ciId)))
    (hl : ∀ v ∈ l.writes, Spares ciId v) :
    Safe (budgetProtocol maxAttempts ciId n) G i (fun _ _ _ _ => True) p sh x l := by
  induction p generalizing sh x l with
  | ret a => exact trivial
  | raise e => exact trivial
  | act a k ih =>
    intro w y hs c busy r w' l' _ hrun
    have hsame : w'.db.get .commitIntent ciId = w.db.get .commitIntent ciId := by
      rcases (Action.run_spec hs.world hs.ok hrun).db with hdb | hdb <;> rw [hdb]
      apply get_applyWrites_of_not_written
      rintro ⟨v, hv, htbl, hid⟩
      exact hl v hv ⟨htbl, hid⟩
    have hnext : (budgetProtocol maxAttempts ciId n).next i w.toShared w'.toShared y = y :=
      redelivered_of_same hsame
    rw [hnext]
    exact ⟨hs.inv.of_get hsame, fun _ => hsame, ih r (hp.2 r) (Action.run_confined hp.1 hl hrun)⟩

theorem handler_spares {k : ℕ} (hk : k ≠ ciId) (maxAttempts : ℕ) :
    (orderConfirmCommitintentHandler maxAttempts (some k)).Acts (Action.Confined (Spares ciId)) := by
  apply orderConfirmCommitintentHandler_acts
  refine ⟨fun _ => trivial, fun _ => trivial, fun _ => trivial, trivial, trivial, trivial, ?_, ?_⟩
  · rintro p f hf r - ⟨⟨⟩, -⟩
  · rintro _ ⟨⟩ f hf r hr ⟨-, hid⟩
    rw [decide_eq_true_eq] at hr
    exact hk (hr.symm.trans ((hf r).symm.trans hid))

theorem workers_budget {ids : Fin n → Option ℕ} {w : World shop shopHost} (hw : w.Ok) (hmax : 1 ≤ maxAttempts)
    (hget : w.db.get .commitIntent ciId = some c) (hfresh : c.Fresh)
    {s : Sys shop shopHost n (Except (Exn AppErr) Unit)}
    (hrun : Sys.Run (stockFails ids ciId) (redeliveries ciId n) (workers maxAttempts ids w) {} s x) :
    s.Inv (budgetProtocol maxAttempts ciId n) (stockFails ids ciId) (fun _ _ _ _ _ => True) x := by
  have hstage : BudgetStage maxAttempts c ({} : Redeliveries n) :=
    .pending hfresh.status rfl rfl hfresh.attempts hmax fun _ => hfresh.nextRetryAt
  have hstart : BudgetInv maxAttempts ciId w.db ({} : Redeliveries n) :=
    ⟨⟨c, hget, hstage⟩, fun h => by cases h⟩
  apply Sys.Run.inv (P := budgetProtocol maxAttempts ciId n) hrun
  apply Sys.inv_start hw hstart
  intro i
  apply Safe.session
  by_cases hi : ids i = some ciId
  · rw [hi]
    have hG : OnlyStockFails (stockFails ids ciId) i :=
      ⟨fun sh l a hg => (hg hi).1 rfl, fun sh l c hg hstock => (hg hi).2 rfl hstock⟩
    exact (handler_budget hG).mono fun _ _ _ _ _ _ _ _ => trivial
  · cases hk : ids i with
    | none => exact Safe.pure fun _ _ _ => trivial
    | some k =>
      have hne : k ≠ ciId := fun h => hi (h ▸ hk)
      exact (spares_budget (handler_spares hne _) (by simp)).mono fun _ _ _ _ _ _ _ _ => trivial

end Runs

/-- In the runs in which each run's stock transaction fails, the intent keeps its budget up to the
first failed run only, unless the limit is one. -/
theorem intent_budget_iff {maxAttempts ciId : ℕ} {ids : Fin n → Option ℕ} {w : World shop shopHost} (hw : w.Ok)
    (hmax : 1 ≤ maxAttempts) {c : CommitIntent} (hget : w.db.get .commitIntent ciId = some c) (hfresh : c.Fresh)
    {s : Sys shop shopHost n (Except (Exn AppErr) Unit)} {x : Redeliveries n}
    (hrun : Sys.Run (stockFails ids ciId) (redeliveries ciId n) (workers maxAttempts ids w) {} s x) :
    KeepsBudget maxAttempts ciId s.world.db x ↔ x.failures = 0 ∨ maxAttempts = 1 :=
  (workers_budget hw hmax hget hfresh hrun).inv.keepsBudget_iff hmax

/-- Two pieces of one product, and an intent that takes three of them. -/
def shortIntent : World shop shopHost where
  db
    | .product => [⟨1, 2, 100⟩]
    | .commitIntent => [⟨1, "order", 7, "payment_succeeded", CommitIntentStatus.pending.value,
        some ⟨7, [⟨1, 3⟩]⟩, 0, none⟩]
    | _ => []
  host := ⟨0, 0, [], []⟩
  seq _ := 2

theorem shortIntent_ok : shortIntent.Ok :=
  ⟨Store.wf_of_pairwise fun t => by cases t <;> decide, fun t => by cases t <;> decide⟩

/-- No statement raises, and no intent is committed as done. -/
def runsShort : Guard shop shopHost n := fun _ _ l a c =>
  c.isFault = false ∧ match a with
    | .commit => ∀ ci ∈ l.writes.filterMap writtenIntent, ci.status ≠ CommitIntentStatus.done.value
    | _ => True

instance (i : Fin n) (sh : Shared shop shopHost) (l : Txn shop) (a : ShopAction)
    (c : Choice shopHost) : Decidable (runsShort i sh l a c) :=
  match a with
  | .commit => inferInstanceAs (Decidable (_ ∧ ∀ ci ∈ l.writes.filterMap writtenIntent, _))
  | .read _ | .lock _ _ | .lockSkip _ _ | .update _ _ _ _ | .insert _ _ _ _ | .tryLock _
  | .rollback | .host _ => inferInstanceAs (Decidable (_ ∧ True))

theorem runsShort_stockFails (ids : Fin n → Option ℕ) (ciId : ℕ) (i : Fin n) (sh : Shared shop shopHost)
    (l : Txn shop) (a : ShopAction) (c : Choice shopHost) (h : runsShort i sh l a c) :
    stockFails ids ciId i sh l a c := by
  rintro -
  constructor
  · intro hfault
    rw [h.1] at hfault
    cases hfault
  · rintro rfl ⟨ci, hci, hdone⟩
    exact absurd hdone (h.2 ci hci)

/-- Three workers one after the other, each short of stock. -/
def threeRuns : List (Label shopHost 3) :=
  .replicate 7 (.proc 0 .go) ++ [.proc 0 (.host .proceed)] ++ .replicate 3 (.proc 0 .go) ++
    .replicate 7 (.proc 1 .go) ++ [.proc 1 (.host .proceed)] ++ .replicate 3 (.proc 1 .go) ++
    .replicate 10 (.proc 2 .go)

theorem threeRuns_failed : ∃ s x,
    Sys.Run (stockFails (fun _ => some 1) 1) (redeliveries 1 3)
        (workers DEFAULT_MAX_ATTEMPTS (fun _ => some 1) shortIntent) {} s x ∧
      intentStatus s.world.db 1 = some CommitIntentStatus.failed.value := by
  have hexec : ((workers DEFAULT_MAX_ATTEMPTS (fun _ : Fin 3 => some 1) shortIntent).exec runsShort
      threeRuns).map (fun s => intentStatus s.world.db 1) =
        some (some CommitIntentStatus.failed.value) := by decide +kernel
  obtain ⟨s, hs, hfailed⟩ := Option.map_eq_some_iff.mp hexec
  obtain ⟨x, hrun⟩ := Sys.run_of_exec (redeliveries 1 3) {} hs
  exact ⟨s, x, hrun.relax (runsShort_stockFails _ 1), hfailed⟩

theorem intent_budget_three_runs : ∃ s x,
    Sys.Run (stockFails (fun _ => some 1) 1) (redeliveries 1 3)
        (workers DEFAULT_MAX_ATTEMPTS (fun _ => some 1) shortIntent) {} s x ∧
      intentStatus s.world.db 1 = some CommitIntentStatus.failed.value ∧
      (KeepsBudget DEFAULT_MAX_ATTEMPTS 1 s.world.db x ↔ x.failures = 0 ∨ DEFAULT_MAX_ATTEMPTS = 1) := by
  obtain ⟨s, x, hrun, hfailed⟩ := threeRuns_failed
  exact ⟨s, x, hrun, hfailed, intent_budget_iff shortIntent_ok (by decide) rfl ⟨rfl, rfl, rfl⟩ hrun⟩

/-- With a limit of five the third failed run is the last one. -/
theorem third_run_gives_up : ¬∀ s x,
    Sys.Run (stockFails (fun _ : Fin 3 => some 1) 1) (redeliveries 1 3)
        (workers DEFAULT_MAX_ATTEMPTS (fun _ => some 1) shortIntent) {} s x →
      KeepsBudget DEFAULT_MAX_ATTEMPTS 1 s.world.db x := by
  intro h
  obtain ⟨s, x, hrun, hfailed⟩ := threeRuns_failed
  have hbudget := h s x hrun
  have hinv := (workers_budget shortIntent_ok (by decide) rfl ⟨rfl, rfl, rfl⟩ hrun).inv
  have hnone := (hinv.keepsBudget_iff (by decide)).1 hbudget
  obtain ⟨c, hget, hstage⟩ := hinv.stage
  have hstatus : c.status = CommitIntentStatus.failed.value := by
    rw [intentStatus, hget] at hfailed
    exact Option.some.inj hfailed
  cases hstage with
  | pending hpending => cases hstatus.symm.trans hpending
  | processing hprocessing => cases hstatus.symm.trans hprocessing
  | failed _ _ _ _ hle _ =>
    rcases hnone with h0 | hmax
    · rw [h0] at hle
      cases hle
    · cases hmax

end Phyllonix
