import Phyllonix.OutboxPublisher

/-!
# The leases of the outbox publishers

A claim selects every due row, whether or not another publisher's lease on it runs, and a mark
asks for no lease of its own. As long as no due row is under another's running lease when a batch
is claimed, and a row is marked for a retry only under the marking publisher's own lease, claims
keep apart and a row that has left PENDING does not return to it.
-/

namespace Phyllonix.Publishing
open Async

variable {n : ℕ}

def OutboxRow.Closed (r : OutboxRow) : Prop := r.status ≠ OutboxEventStatus.pending.value

instance (r : OutboxRow) : Decidable r.Closed := inferInstanceAs (Decidable (¬_))

/-- An update that is a claim meets no running lease of another publisher. -/
def Update.Apart (me : Fin n) (s : Outbox n) (u : Update) : Prop :=
  u.values.isLease →
    ∀ r ∈ s.table.rows, r.id ∈ u.ids → r.LeaseRuns s.clock → ∀ j ∈ s.leasedBy r.id, j = me

instance (me : Fin n) (s : Outbox n) (u : Update) : Decidable (u.Apart me s) :=
  inferInstanceAs (Decidable (_ → _))

/-- No publisher claims a row while another's lease on the row is running. -/
def ClaimsApart (s : Outbox n) : Prop := ∀ i, ∀ u ∈ (s.txns i).updates, u.Apart i s

instance (s : Outbox n) : Decidable (ClaimsApart s) := inferInstanceAs (Decidable (∀ _, _))

/-- A row that has left PENDING does not return to it. -/
def KeepsClosed (s s' : Outbox n) : Prop :=
  ∀ r ∈ s.table.rows, r.Closed → ∀ r' ∈ s'.table.rows, r'.id = r.id → r'.Closed

instance (s s' : Outbox n) : Decidable (KeepsClosed s s') := inferInstanceAs (Decidable (∀ _ ∈ _, _))

/-- The claim finds no due row under another's running lease; the update for a retry finds the
publisher's own lease. -/
def Op.Spares (s : Outbox n) : Op n → Prop
  | .select me nowExpr _ => ∀ r ∈ s.table.rows, r.pendingCond nowExpr → r.LeaseRuns s.clock →
      ∀ j ∈ s.leasedBy r.id, j = me
  | .update me ⟨ids, .retry _ _⟩ => ∀ id ∈ ids, s.leasedBy id = some me
  | _ => True

def leasesStand : Allows (machine n) n
  | .proc _ _, sh => ∀ x ∈ sh.log.head?, x.2.Spares sh.state
  | .env _, _ => True

/-! ## What is locked stays as it is -/

theorem Table.eq_of_id {t : Table} {r r' : OutboxRow} (hr : r ∈ t.rows) (hr' : r' ∈ t.rows)
    (hid : r.id = r'.id) : r = r' := by
  have hinj : (t.rows.map (·.id)).Nodup :=
    (List.pairwise_map.2 t.ordered).imp fun h => Nat.ne_of_lt h
  exact List.inj_on_of_nodup_map hinj hr hr' hid

/-- What the others leave to a publisher. -/
structure Rely (i : Fin n) (s s' : Outbox n) : Prop where
  clock : s.clock ≤ s'.clock
  txn : s'.txns i = s.txns i
  leased : ∀ id ∈ (s.txns i).locked, s'.leasedBy id = s.leasedBy id
  rows : ∀ r ∈ s'.table.rows, r.id ∈ (s.txns i).locked → r ∈ s.table.rows

theorem Rely.refl (i : Fin n) (s : Outbox n) : Rely i s s := ⟨le_refl _, rfl, fun _ _ => rfl, fun _ h _ => h⟩

theorem Rely.trans {i : Fin n} {s s' s'' : Outbox n} (h : Rely i s s') (h' : Rely i s' s'') :
    Rely i s s'' where
  clock := h.clock.trans h'.clock
  txn := h'.txn.trans h.txn
  leased id hid := (h'.leased id (h.txn ▸ hid)).trans (h.leased id hid)
  rows r hr hid := h.rows r (h'.rows r hr (h.txn ▸ hid)) hid

/-- The rows may be claimed: they are pending and under no running lease of another. -/
def Claimable (me : Fin n) (s : Outbox n) (ids : List ℕ) : Prop :=
  ∀ r ∈ s.table.rows, r.id ∈ ids → r.status = OutboxEventStatus.pending.value ∧
    (r.LeaseRuns s.clock → ∀ j ∈ s.leasedBy r.id, j = me)

theorem OutboxRow.LeaseRuns.anti {r : OutboxRow} {t t' : ℕ} (h : r.LeaseRuns t') (ht : t ≤ t') :
    r.LeaseRuns t := h.imp fun _ h => ⟨h.1, lt_of_le_of_lt ht h.2⟩

theorem Claimable.of_rely {me : Fin n} {s s' : Outbox n} {ids : List ℕ} (h : Claimable me s ids)
    (hids : ids ⊆ (s.txns me).locked) (hrely : Rely me s s') : Claimable me s' ids := by
  intro r hr hid
  obtain ⟨hpending, hruns⟩ := h r (hrely.rows r hr (hids hid)) hid
  refine ⟨hpending, fun hlease => ?_⟩
  rw [hrely.leased r.id (hids hid)]
  exact hruns (hlease.anti hrely.clock)

/-- What is known of an update that has not been committed. -/
def Update.Sound (me : Fin n) (s : Outbox n) (u : Update) : Prop :=
  match u.values with
  | .lease _ => Claimable me s u.ids
  | .retry _ _ => ∀ id ∈ u.ids, s.leasedBy id = some me
  | _ => True

theorem Update.Sound.of_rely {me : Fin n} {s s' : Outbox n} {u : Update} (h : u.Sound me s)
    (hids : u.ids ⊆ (s.txns me).locked) (hrely : Rely me s s') : u.Sound me s' := by
  obtain ⟨ids, v⟩ := u
  cases v with
  | lease t => exact Claimable.of_rely h hids hrely
  | sent t => exact trivial
  | failed attempts => exact trivial
  | retry attempts t => exact fun id hid => (hrely.leased id (hids hid)).trans (h id hid)

structure Inv (s : Outbox n) : Prop where
  apart : ∀ i j id, id ∈ (s.txns i).locked → id ∈ (s.txns j).locked → i = j
  single : ∀ i, (s.txns i).updates.length ≤ 1
  locked : ∀ i, ∀ u ∈ (s.txns i).updates, u.ids ⊆ (s.txns i).locked
  sound : ∀ i, ∀ u ∈ (s.txns i).updates, u.Sound i s
  pending : ∀ i, ∀ r ∈ s.table.rows, s.leasedBy r.id = some i →
    r.status = OutboxEventStatus.pending.value

theorem Inv.claimsApart {s : Outbox n} (h : Inv s) : ClaimsApart s := by
  rintro i ⟨ids, v⟩ hu hlease r hr hid hruns
  have hsound := h.sound i _ hu
  cases v with
  | lease t => exact (hsound r hr hid).2 hruns
  | sent t => cases hlease
  | failed attempts => cases hlease
  | retry attempts t => cases hlease

/-- A step of one publisher that keeps what the others rely on. -/
theorem Inv.of_rely {me : Fin n} {s s' : Outbox n} (h : Inv s) (hrely : ∀ j, j ≠ me → Rely j s s')
    (hfree : ∀ id ∈ (s'.txns me).locked, ¬s.LockedFor me id)
    (hsingle : (s'.txns me).updates.length ≤ 1)
    (hlocked : ∀ u ∈ (s'.txns me).updates, u.ids ⊆ (s'.txns me).locked)
    (hsound : ∀ u ∈ (s'.txns me).updates, u.Sound me s')
    (hpending : ∀ i, ∀ r ∈ s'.table.rows, s'.leasedBy r.id = some i →
      r.status = OutboxEventStatus.pending.value) : Inv s' where
  apart i j id hi hj := by
    by_cases him : i = me
    · subst him
      by_cases hjm : j = i
      · exact hjm.symm
      · rw [(hrely j hjm).txn] at hj
        exact absurd ⟨j, hjm, hj⟩ (hfree id hi)
    · rw [(hrely i him).txn] at hi
      by_cases hjm : j = me
      · subst hjm
        exact absurd ⟨i, him, hi⟩ (hfree id hj)
      · rw [(hrely j hjm).txn] at hj
        exact h.apart i j id hi hj
  single i := by
    by_cases him : i = me
    · exact him ▸ hsingle
    · rw [(hrely i him).txn]
      exact h.single i
  locked i u hu := by
    by_cases him : i = me
    · subst him
      exact hlocked u hu
    · rw [(hrely i him).txn] at hu ⊢
      exact h.locked i u hu
  sound i u hu := by
    by_cases him : i = me
    · subst him
      exact hsound u hu
    · rw [(hrely i him).txn] at hu
      exact (h.sound i u hu).of_rely (h.locked i u hu) (hrely i him)
  pending := hpending

theorem Inv.passes {s : Outbox n} (h : Inv s) (d : ℕ) : Inv { s with clock := s.clock + d } where
  apart := h.apart
  single := h.single
  locked := h.locked
  sound i u hu := (h.sound i u hu).of_rely (h.locked i u hu)
    ⟨Nat.le_add_right _ d, rfl, fun _ _ => rfl, fun _ hr _ => hr⟩
  pending := h.pending

/-! ## The steps of a transaction -/

section
variable {me : Fin n} {s : Outbox n}

theorem rely_txns {j : Fin n} (hj : j ≠ me) (s : Outbox n) (t : Txn) :
    Rely j s { s with txns := Function.update s.txns me t } :=
  ⟨le_refl _, Function.update_of_ne hj _ _, fun _ _ => rfl, fun _ hr _ => hr⟩

theorem Inv.not_lockedFor (h : Inv s) {id : ℕ} (hid : id ∈ (s.txns me).locked) : ¬s.LockedFor me id := by
  rintro ⟨j, hj, hother⟩
  exact hj (h.apart j me id hother hid)

theorem Inv.lock (h : Inv s) (hidle : s.txns me = {}) {ids : List ℕ}
    (hfree : ∀ id ∈ ids, ¬s.LockedFor me id) : Inv (s.lock me ids) := by
  have htxn : (s.lock me ids).txns me = ⟨ids, []⟩ := by
    rw [Outbox.lock, hidle]
    exact Function.update_self me _ _
  refine h.of_rely (fun j hj => rely_txns hj s _) ?_ ?_ ?_ ?_ h.pending
  · rwa [htxn]
  · rw [htxn]
    exact Nat.zero_le 1
  · rw [htxn]
    exact fun u hu => absurd hu List.not_mem_nil
  · rw [htxn]
    exact fun u hu => absurd hu List.not_mem_nil

theorem Inv.execute (h : Inv s) (hnone : (s.txns me).updates = []) {u : Update}
    (hfree : ∀ id ∈ u.ids, ¬s.LockedFor me id) (hsound : u.Sound me s) : Inv (s.execute me u) := by
  have htxn : (s.execute me u).txns me = ⟨(s.txns me).locked ++ u.ids, [u]⟩ := by
    rw [Outbox.execute, hnone]
    exact Function.update_self me _ _
  refine h.of_rely (fun j hj => rely_txns hj s _) ?_ ?_ ?_ ?_ h.pending
  · rw [htxn]
    intro id hid
    rcases List.mem_append.1 hid with hid | hid
    · exact h.not_lockedFor hid
    · exact hfree id hid
  · rw [htxn]
    exact le_refl 1
  · rw [htxn]
    intro v hv
    rw [List.mem_singleton.1 hv]
    exact List.subset_append_right _ _
  · rw [htxn]
    intro v hv
    rw [List.mem_singleton.1 hv]
    exact hsound

/-- A transaction that ends leaves nothing locked. -/
theorem Inv.ended {s' : Outbox n} (h : Inv s) (hrely : ∀ j, j ≠ me → Rely j s s') (hidle : s'.txns me = {})
    (hpending : ∀ i, ∀ r ∈ s'.table.rows, s'.leasedBy r.id = some i →
      r.status = OutboxEventStatus.pending.value) : Inv s' := by
  refine h.of_rely hrely ?_ ?_ ?_ ?_ hpending
  · rw [hidle]
    exact fun id hid => absurd hid List.not_mem_nil
  · rw [hidle]
    exact Nat.zero_le 1
  · rw [hidle]
    exact fun u hu => absurd hu List.not_mem_nil
  · rw [hidle]
    exact fun u hu => absurd hu List.not_mem_nil

theorem rollback_idle (s : Outbox n) (me : Fin n) : (s.rollback me).txns me = {} :=
  Function.update_self me _ _

theorem Inv.rollback (h : Inv s) : Inv (s.rollback me) :=
  h.ended (fun _ hj => rely_txns hj s _) (rollback_idle s me) h.pending

/-- A committed update meets only rows that no other publisher has locked. -/
theorem Inv.rely_publishUpdate (h : Inv s) {u : Update} (hu : u ∈ (s.txns me).updates) {j : Fin n}
    (hj : j ≠ me) : Rely j s (s.publishUpdate me u) where
  clock := le_refl _
  txn := rfl
  leased id hid := if_neg fun hmem => hj (h.apart j me id hid (h.locked me u hu hmem))
  rows r hr hid := by
    obtain ⟨r₀, hr₀, rfl⟩ := List.mem_map.1 hr
    rw [Update.row_id] at hid
    rwa [Update.row_of_not_mem fun hmem => hj (h.apart j me r₀.id hid (h.locked me u hu hmem))]

theorem Inv.pending_publishUpdate (h : Inv s) {u : Update} (hu : u ∈ (s.txns me).updates) {i : Fin n}
    {r : OutboxRow} (hr : r ∈ (s.publishUpdate me u).table.rows)
    (hi : (s.publishUpdate me u).leasedBy r.id = some i) : r.status = OutboxEventStatus.pending.value := by
  obtain ⟨r₀, hr₀, rfl⟩ := List.mem_map.1 hr
  have hsound := h.sound me u hu
  rw [Update.row_id] at hi
  by_cases hmem : r₀.id ∈ u.ids
  · have hholder : u.values.holder me = some i := (if_pos hmem).symm.trans hi
    rw [Update.row_of_mem hmem]
    obtain ⟨ids, v⟩ := u
    cases v with
    | lease t => exact (hsound r₀ hr₀ hmem).1
    | sent t => cases hholder
    | failed attempts => cases hholder
    | retry attempts t => cases hholder
  · rw [Update.row_of_not_mem hmem]
    exact h.pending i r₀ hr₀ ((if_neg hmem).symm.trans hi)

/-- Every row was there before, and was pending if it is. -/
def Descends (s s' : Outbox n) : Prop :=
  ∀ r' ∈ s'.table.rows, ∃ r ∈ s.table.rows, r.id = r'.id ∧ (r.Closed → r'.Closed)

theorem Descends.refl (s : Outbox n) : Descends s s := fun r hr => ⟨r, hr, rfl, id⟩

theorem Descends.trans {s s' s'' : Outbox n} (h : Descends s s') (h' : Descends s' s'') :
    Descends s s'' := by
  intro r'' hr''
  obtain ⟨r', hr', hid', hclosed'⟩ := h' r'' hr''
  obtain ⟨r, hr, hid, hclosed⟩ := h r' hr'
  exact ⟨r, hr, hid.trans hid', fun hc => hclosed' (hclosed hc)⟩

theorem Descends.keepsClosed {s s' : Outbox n} (h : Descends s s') : KeepsClosed s s' := by
  intro r hr hclosed r' hr' hid
  obtain ⟨r₀, hr₀, hid₀, hkeep⟩ := h r' hr'
  exact hkeep (Table.eq_of_id hr₀ hr (hid₀.trans hid) ▸ hclosed)

/-- A row that has left PENDING may be marked again, but not for a retry. -/
theorem Inv.descends_publishUpdate (h : Inv s) {u : Update} (hu : u ∈ (s.txns me).updates) :
    Descends s (s.publishUpdate me u) := by
  intro r' hr'
  obtain ⟨r, hr, rfl⟩ := List.mem_map.1 hr'
  refine ⟨r, hr, (Update.row_id u r).symm, fun hclosed => ?_⟩
  have hsound := h.sound me u hu
  by_cases hmem : r.id ∈ u.ids
  · rw [Update.row_of_mem hmem]
    obtain ⟨ids, v⟩ := u
    cases v with
    | lease t => exact hclosed
    | sent t => exact of_decide_eq_true rfl
    | failed attempts => exact of_decide_eq_true rfl
    | retry attempts t => exact absurd (h.pending me r hr (hsound r.id hmem)) hclosed
  · rwa [Update.row_of_not_mem hmem]

/-- What a commit does: nothing, or the transaction's update. -/
theorem Inv.commit_cases (h : Inv s) (me : Fin n) : s.commit me = s.rollback me ∨
    ∃ u ∈ (s.txns me).updates, s.commit me = (s.publishUpdate me u).rollback me := by
  have hsingle := h.single me
  rw [Outbox.commit]
  match hupdates : (s.txns me).updates with
  | [] => exact Or.inl rfl
  | [u] => exact Or.inr ⟨u, List.mem_singleton_self u, rfl⟩
  | u :: v :: rest =>
    rw [hupdates] at hsingle
    exact absurd hsingle (by simp)

theorem Inv.commit (h : Inv s) (me : Fin n) :
    Inv (s.commit me) ∧ (∀ j, j ≠ me → Rely j s (s.commit me)) ∧ (s.commit me).txns me = {} := by
  obtain hcommit | ⟨u, hu, hcommit⟩ := h.commit_cases me
  · rw [hcommit]
    exact ⟨h.rollback, fun j hj => rely_txns hj s _, rollback_idle s me⟩
  · rw [hcommit]
    have hrely : ∀ j, j ≠ me → Rely j s ((s.publishUpdate me u).rollback me) := fun j hj =>
      (h.rely_publishUpdate hu hj).trans (rely_txns hj _ _)
    exact ⟨h.ended hrely (rollback_idle _ me) fun _ _ hr hi => h.pending_publishUpdate hu hr hi, hrely,
      rollback_idle _ me⟩

/-- Only commits write rows. -/
theorem Inv.descends_step (h : Inv s) {o : Op n} {c : Answered} {r : Except PublisherErr o.Res}
    {s' : Outbox n} (hstep : o.step c s = some (r, s')) : Descends s s' := by
  cases o with
  | now =>
    cases hstep
    exact .refl s
  | select me nowExpr limit =>
    cases c <;> cases hstep <;> exact .refl s
  | update me u =>
    cases c with
    | ok =>
      rw [Op.step] at hstep
      split at hstep
      · cases hstep
      · cases hstep
        exact .refl s
    | fails =>
      cases hstep
      exact .refl s
  | commit me =>
    cases c with
    | ok =>
      cases hstep
      obtain hcommit | ⟨u, hu, hcommit⟩ := h.commit_cases me
      · rw [hcommit]
        exact .refl s
      · rw [hcommit]
        exact h.descends_publishUpdate hu
    | fails =>
      cases hstep
      exact .refl s
  | rollback me =>
    cases hstep
    exact .refl s
  | publish topic message =>
    cases c <;> cases hstep <;> exact .refl s
  | sleep t =>
    cases hstep
    exact .refl s

end

/-! ## The publishers keep the protocol -/

def protocol : Protocol (machine n) n leasesStand where
  inv sh := Inv sh.state
  rely i sh sh' := Rely i sh.state sh'.state
  rely_refl i sh := .refl i sh.state
  rely_trans := .trans
  env_inv d _ h _ := h.passes d
  env_rely _ d _ _ := ⟨Nat.le_add_right _ d, rfl, fun _ _ => rfl, fun _ hr _ => hr⟩

/-- What a publisher knows of the database when a coroutine ends. -/
abbrev Leaves (i : Fin n) {α : Type} (Q : Except PublisherErr α → Outbox n → Prop) (p : Co n α)
    (sh : Shared (machine n) n) : Prop := Safe protocol i (fun r sh => Q r sh.state) p sh

def Idle (i : Fin n) (s : Outbox n) : Prop := s.txns i = {}

theorem Idle.of_rely {i : Fin n} {s s' : Outbox n} (h : Idle i s) (hrely : Rely i s s') : Idle i s' :=
  hrely.txn.trans h

section
variable {i : Fin n} {sh : Shared (machine n) n} {α : Type}

theorem leaves_wait {o : Op n} {Q : Except PublisherErr o.Res → Outbox n → Prop}
    (h : ∀ s, Rely i sh.state s → Inv s → ∀ c r s', o.step c s = some (r, s') → o.Spares s' →
      Inv s' ∧ (∀ j, j ≠ i → Rely j s s') ∧ Q r s') : Leaves i Q (wait o) sh := by
  refine Safe.call fun now hrely hinv c r sh' hperforms hallow => ?_
  refine h now.state hrely hinv c r sh'.state hperforms.1 (hallow (i, o) ?_)
  rw [hperforms.2]
  rfl

/-- An operation that leaves the database alone. -/
theorem leaves_still {o : Op n} {Q : Except PublisherErr o.Res → Outbox n → Prop}
    (hstill : ∀ s c r s', o.step c s = some (r, s') → s' = s)
    (h : ∀ s, Rely i sh.state s → ∀ r, Q r s) : Leaves i Q (wait o) sh := by
  apply leaves_wait
  intro s hrely hinv c r s' hstep _
  cases hstill s c r s' hstep
  exact ⟨hinv, fun j _ => .refl j s, h s hrely r⟩

theorem now_still (s : Outbox n) (c : Answered) (r : Except PublisherErr ℕ) (s' : Outbox n)
    (h : Op.now.step c s = some (r, s')) : s' = s := by
  cases h
  rfl

theorem sleep_still {t : ℕ} (s : Outbox n) (c : Answered) (r : Except PublisherErr Unit) (s' : Outbox n)
    (h : (Op.sleep t).step c s = some (r, s')) : s' = s := by
  cases h
  rfl

theorem publish_still {topic : String} {message : Message} (s : Outbox n) (c : Answered)
    (r : Except PublisherErr Unit) (s' : Outbox n)
    (h : (Op.publish topic message).step c s = some (r, s')) : s' = s := by
  cases c <;> cases h <;> rfl

theorem leaves_rollback : Leaves i (fun _ s => Idle i s) (wait (.rollback i)) sh := by
  apply leaves_wait
  intro s _ hinv c r s' hstep _
  cases hstep
  exact ⟨hinv.rollback, fun j hj => rely_txns hj s _, rollback_idle s i⟩

theorem leaves_commit : Leaves i (fun _ s => Idle i s) (wait (.commit i)) sh := by
  apply leaves_wait
  intro s _ hinv c r s' hstep _
  cases c with
  | ok =>
    cases hstep
    exact hinv.commit i
  | fails =>
    cases hstep
    exact ⟨hinv.rollback, fun j hj => rely_txns hj s _, rollback_idle s i⟩

/-- However the body ends, the transaction does. -/
theorem leaves_transaction {body : Co n α} (h : Leaves i (fun _ _ => True) body sh) :
    Leaves i (fun _ s => Idle i s) (transaction i body) sh := by
  apply Safe.bind
  apply Safe.attempt
  refine h.mono fun r sh' _ => ?_
  cases r with
  | ok a =>
    apply Safe.bind
    refine leaves_commit.mono fun r' sh'' hidle => ?_
    cases r' <;> exact hidle
  | error e =>
    apply Safe.bind
    refine leaves_rollback.mono fun r' sh'' hidle => ?_
    cases r' <;> exact hidle

theorem leaves_update {u : Update} (hnone : (sh.state.txns i).updates = [])
    (hsound : ∀ s, Rely i sh.state s → (Op.update i u).Spares s → u.Sound i s) :
    Leaves i (fun _ _ => True) (wait (.update i u)) sh := by
  apply leaves_wait
  intro s hrely hinv c r s' hstep hspares
  cases c with
  | ok =>
    rw [Op.step] at hstep
    split at hstep
    · cases hstep
    next hfree =>
      cases hstep
      have hown : u.Sound i s := hsound s hrely hspares
      refine ⟨hinv.execute (hrely.txn ▸ hnone) (fun id hid hlocked => hfree ⟨id, hid, hlocked⟩) hown, ?_, trivial⟩
      exact fun j hj => rely_txns hj s _
  | fails =>
    cases hstep
    exact ⟨hinv, fun j _ => .refl j s, trivial⟩

/-- The marks for a retry are the ones that need the publisher's own lease. -/
theorem leaves_mark {id : ℕ} {values : Values} (hmark : values.isLease = false) (hidle : Idle i sh.state) :
    Leaves i (fun _ s => Idle i s) (mark i id values) sh := by
  apply leaves_transaction
  apply leaves_update
  · rw [hidle]
  · intro s _ hspares
    cases values with
    | lease t => cases hmark
    | sent t => exact trivial
    | failed attempts => exact trivial
    | retry attempts t => exact hspares

/-- The rows that a claim has selected and locked. -/
structure Selected (i : Fin n) (ids : List ℕ) (s : Outbox n) : Prop where
  txn : s.txns i = ⟨ids, []⟩
  claimable : Claimable i s ids

theorem Selected.of_rely {ids : List ℕ} {s s' : Outbox n} (h : Selected i ids s) (hrely : Rely i s s') :
    Selected i ids s' where
  txn := hrely.txn.trans h.txn
  claimable := h.claimable.of_rely (by rw [h.txn]; exact List.Subset.refl ids) hrely

theorem mem_due {s : Outbox n} {me : Fin n} {nowExpr limit : ℕ} {r : OutboxRow}
    (h : r ∈ s.due me nowExpr limit) : r ∈ s.table.rows ∧
      (r.pendingCond nowExpr ∨ r.reclaimableCond nowExpr) ∧ ¬s.LockedFor me r.id := by
  obtain ⟨hr, hcond⟩ := List.mem_filter.1 (List.mem_of_mem_take h)
  exact ⟨hr, of_decide_eq_true hcond⟩

/-- A row that is selected because it may be reclaimed is under no running lease, and one that is
selected as pending is spared. -/
theorem claimable_due {s : Outbox n} {me : Fin n} {nowExpr limit : ℕ} (hnow : nowExpr ≤ s.clock)
    (hspares : (Op.select me nowExpr limit).Spares s) :
    Claimable me s ((s.due me nowExpr limit).map (·.id)) := by
  intro r hr hid
  obtain ⟨r', hr', hr'id⟩ := List.mem_map.1 hid
  obtain ⟨hmem, hcond, -⟩ := mem_due hr'
  cases Table.eq_of_id hmem hr hr'id
  rcases hcond with hpending | hreclaim
  · exact ⟨hpending.1, hspares r hr hpending⟩
  · refine ⟨hreclaim.2, fun hruns => ?_⟩
    obtain ⟨t, ht, hle⟩ := hreclaim.1
    obtain ⟨t', ht', hlt⟩ := hruns
    cases Option.mem_unique ht ht'
    exact absurd (hle.trans hnow) (Nat.not_le.2 hlt)

theorem leaves_select {nowExpr limit : ℕ} (hidle : Idle i sh.state) (hnow : nowExpr ≤ sh.state.clock) :
    Leaves i (fun r s => ∀ rows, r = .ok rows → Selected i (rows.map (·.id)) s)
      (wait (.select i nowExpr limit)) sh := by
  apply leaves_wait
  intro s hrely hinv c r s' hstep hspares
  cases c with
  | ok =>
    cases hstep
    have hidle' : s.txns i = {} := hidle.of_rely hrely
    have hfree : ∀ id ∈ (s.due i nowExpr limit).map (·.id), ¬s.LockedFor i id := by
      intro id hid
      obtain ⟨r, hr, rfl⟩ := List.mem_map.1 hid
      exact (mem_due hr).2.2
    refine ⟨hinv.lock hidle' hfree, fun j hj => rely_txns hj s _, fun rows hrows => ?_⟩
    cases hrows
    refine ⟨?_, claimable_due (hnow.trans hrely.clock) hspares⟩
    rw [Outbox.lock, hidle']
    exact Function.update_self i _ _
  | fails =>
    cases hstep
    exact ⟨hinv, fun j _ => .refl j s, fun rows hrows => by cases hrows⟩

variable (p : OutboxPublisher)

theorem leaves_claim {nowExpr : ℕ} (hidle : Idle i sh.state) (hnow : nowExpr ≤ sh.state.clock) :
    Leaves i (fun _ s => Idle i s) (claim p i nowExpr) sh := by
  apply leaves_transaction
  apply Safe.bind
  refine (leaves_select hidle hnow).mono fun r sh' hselected => ?_
  cases r with
  | error e => exact trivial
  | ok rows =>
    cases rows with
    | nil => exact trivial
    | cons r rest =>
      have hselected' := hselected (r :: rest) rfl
      apply Safe.bind
      refine (leaves_still (Q := fun _ s => Selected i ((r :: rest).map (·.id)) s) now_still
        fun s hrely _ => hselected'.of_rely hrely).mono fun r' sh'' hheld => ?_
      cases r' with
      | error e => exact trivial
      | ok now =>
        apply Safe.bind
        refine (leaves_update (u := ⟨(r :: rest).map (·.id), .lease (now + seconds p.lockSeconds)⟩) ?_
          fun s hrely _ => (hheld.of_rely hrely).claimable).mono fun r'' _ _ => ?_
        · rw [hheld.txn]
        · cases r'' <;> exact trivial

theorem leaves_publishRow (r : OutboxRow) (hidle : Idle i sh.state) :
    Leaves i (fun _ s => Idle i s) (publishRow p i r) sh := by
  have hpublished : Leaves i (fun _ s => Idle i s) (do
      wait (.publish r.topic ⟨r.id, payloadObj r.payload⟩)
      let now ← wait .now
      mark i r.id (.sent now)) sh := by
    apply Safe.bind
    refine (leaves_still publish_still fun s hrely _ => hidle.of_rely hrely).mono fun r' sh' hidle' => ?_
    cases r' with
    | error e => exact hidle'
    | ok u =>
      apply Safe.bind
      refine (leaves_still now_still fun s hrely _ => Idle.of_rely hidle' hrely).mono fun r'' sh'' hidle'' => ?_
      cases r'' with
      | error e => exact hidle''
      | ok now => exact leaves_mark rfl hidle''
  apply Safe.bind
  apply Safe.attempt
  refine hpublished.mono fun r' sh' hidle' => ?_
  cases r' with
  | ok u => exact hidle'
  | error e =>
    dsimp only
    split
    · exact leaves_mark rfl hidle'
    · apply Safe.bind
      refine (leaves_still now_still fun s hrely _ => Idle.of_rely hidle' hrely).mono fun r'' sh'' hidle'' => ?_
      cases r'' with
      | error e => exact hidle''
      | ok now => exact leaves_mark rfl hidle''

theorem leaves_publishRows (rows : List OutboxRow) (hidle : Idle i sh.state) :
    Leaves i (fun _ s => Idle i s) (publishRows p i rows) sh := by
  induction rows generalizing sh with
  | nil => exact hidle
  | cons r rest ih =>
    apply Safe.bind
    refine (leaves_publishRow p r hidle).mono fun r' sh' hidle' => ?_
    cases r' with
    | ok u => exact ih hidle'
    | error e => exact hidle'

theorem leaves_processBatch (hidle : Idle i sh.state) :
    Leaves i (fun _ s => Idle i s) (processBatch p i) sh := by
  apply Safe.bind
  refine (leaves_wait (Q := fun r s => Idle i s ∧ ∀ t, r = .ok t → t ≤ s.clock) ?_).mono fun r sh' hnow => ?_
  · intro s hrely hinv c r s' hstep _
    cases hstep
    refine ⟨hinv, fun j _ => .refl j s, hidle.of_rely hrely, fun t ht => ?_⟩
    cases ht
    exact le_refl _
  cases r with
  | error e => exact hnow.1
  | ok nowExpr =>
    apply Safe.bind
    refine (leaves_claim p hnow.1 (hnow.2 nowExpr rfl)).mono fun r' sh'' hidle' => ?_
    cases r' with
    | ok rows => exact leaves_publishRows p rows hidle'
    | error e => exact hidle'

theorem leaves_run (passes : ℕ) (hidle : Idle i sh.state) :
    Leaves i (fun _ s => Idle i s) (run p i passes) sh := by
  induction passes generalizing sh with
  | zero => exact hidle
  | succ passes ih =>
    apply Safe.bind
    apply Safe.attempt
    refine (leaves_processBatch p hidle).mono fun r sh' hidle' => ?_
    cases r with
    | ok u => exact ih hidle'
    | error e =>
      apply Safe.bind
      refine (leaves_still sleep_still fun s hrely _ => Idle.of_rely hidle' hrely).mono fun r' sh'' hidle'' => ?_
      cases r' with
      | ok u => exact ih hidle''
      | error e' => exact hidle''

end

/-! ## The law -/

theorem inv_start (publishers : Fin n → OutboxPublisher) (passes : Fin n → ℕ) (clock : ℕ) (table : Table) :
    Inv (start publishers passes clock table).state where
  apart _ _ _ hid _ := absurd hid List.not_mem_nil
  single _ := Nat.zero_le 1
  locked _ _ hu := absurd hu List.not_mem_nil
  sound _ _ hu := absurd hu List.not_mem_nil
  pending _ _ _ hi := by cases hi

theorem inv_reach {publishers : Fin n → OutboxPublisher} {passes : Fin n → ℕ} {clock : ℕ} {table : Table}
    {s : Publishers n} (h : Sys.Reach leasesStand (start publishers passes clock table) s) : Inv s.state :=
  (reach_safe (P := protocol) (inv_start publishers passes clock table)
    (fun i => leaves_run (publishers i) (passes i) rfl) h).1

/-- One step of a publisher or of the clock. -/
theorem Inv.descends {s s' : Publishers n} (h : Inv s.state) {l : Label (machine n) n}
    (hstep : s.step l = some s') : Descends s.state s'.state := by
  cases l with
  | env d =>
    cases hstep
    exact .refl s.state
  | proc i c =>
    rw [Sys.step] at hstep
    split at hstep
    next o k hprog =>
      obtain ⟨⟨r, st⟩, hres, hs'⟩ := Option.map_eq_some_iff.1 hstep
      cases hs'
      exact h.descends_step hres
    next => cases hstep

theorem reach_descends {publishers : Fin n → OutboxPublisher} {passes : Fin n → ℕ} {clock : ℕ}
    {table : Table} {s s' : Publishers n}
    (h : Sys.Reach leasesStand (start publishers passes clock table) s)
    (h' : Sys.Reach leasesStand s s') : Descends s.state s'.state := by
  induction h' with
  | start => exact .refl s.state
  | step h₁ hstep _ ih => exact ih.trans ((inv_reach (h.trans h₁)).descends hstep)

/-- In every run in which leases stand, claims keep apart, and no row that has left PENDING returns
to it. -/
theorem publisher_leases {publishers : Fin n → OutboxPublisher} {passes : Fin n → ℕ} {clock : ℕ}
    {table : Table} {s s' : Publishers n}
    (h : Sys.Reach leasesStand (start publishers passes clock table) s)
    (h' : Sys.Reach leasesStand s s') : ClaimsApart s.state ∧ KeepsClosed s.state s'.state :=
  ⟨(inv_reach h).claimsApart, (reach_descends h h').keepsClosed⟩

/-! ## Two publishers of one row -/

instance (s : Outbox n) (o : Op n) : Decidable (o.Spares s) := by
  unfold Op.Spares
  split <;> infer_instance

instance (l : Label (machine n) n) (sh : Shared (machine n) n) : Decidable (leasesStand l sh) := by
  unfold leasesStand
  split <;> infer_instance

def oneRow : Table where
  rows := [⟨1, "order.paid", .null, OutboxEventStatus.pending.value, 0, none, none, none⟩]
  ordered := List.pairwise_singleton _ _

def twoPublishers : Publishers 2 := start (fun _ => {}) (fun _ => 2) 0 oneRow

/-- The first publisher fails to publish, and the second one publishes after the backoff. -/
def takesOver : List (Label (machine 2) 2) :=
  List.replicate 5 (.proc 0 .ok) ++ [.proc 0 .fails] ++ List.replicate 3 (.proc 0 .ok) ++
    [.env (seconds 5)] ++ List.replicate 9 (.proc 1 .ok)

theorem publisher_leases_takesOver : ∃ s s', (twoPublishers.exec leasesStand takesOver) = some s ∧
    s.exec leasesStand (List.replicate 3 (.proc 0 .ok)) = some s' ∧
    (s'.state.table.rows.map fun r => (r.id, r.status, r.attempts)) = [(1, OutboxEventStatus.sent.value, 1)] ∧
    ClaimsApart s.state ∧ KeepsClosed s.state s'.state := by
  have hruns : ((twoPublishers.exec leasesStand takesOver).bind fun s =>
      (s.exec leasesStand (List.replicate 3 (.proc 0 .ok))).map fun s' =>
        s'.state.table.rows.map fun r => (r.id, r.status, r.attempts)) =
      some [(1, OutboxEventStatus.sent.value, 1)] := by decide +kernel
  obtain ⟨s, hs, hruns⟩ := Option.bind_eq_some_iff.1 hruns
  obtain ⟨s', hs', hrows⟩ := Option.map_eq_some_iff.1 hruns
  exact ⟨s, s', hs, hs', hrows, publisher_leases (Sys.Reach.start.exec hs) (Sys.Reach.start.exec hs')⟩

def anyStep : Allows (machine n) n := fun _ _ => True

instance (l : Label (machine n) n) (sh : Shared (machine n) n) : Decidable (anyStep l sh) :=
  inferInstanceAs (Decidable True)

/-- The second publisher claims the row under the first one's lease and publishes it; then the
first one fails to publish it. -/
theorem lease_ignored : ∃ s₁ s₂ s₃ : Publishers 2, Sys.Reach anyStep twoPublishers s₁ ∧
    ¬ClaimsApart s₁.state ∧ Sys.Reach anyStep s₁ s₂ ∧ Sys.Reach anyStep s₂ s₃ ∧
    ¬KeepsClosed s₂.state s₃.state := by
  have hruns : ((twoPublishers.exec anyStep (List.replicate 5 (.proc 0 .ok) ++
      List.replicate 4 (.proc 1 .ok))).bind fun s₁ =>
        (s₁.exec anyStep (List.replicate 5 (.proc 1 .ok))).bind fun s₂ =>
          (s₂.exec anyStep (.proc 0 .fails :: List.replicate 3 (.proc 0 .ok))).map fun s₃ =>
            (decide (ClaimsApart s₁.state), decide (KeepsClosed s₂.state s₃.state))) =
      some (false, false) := by decide +kernel
  obtain ⟨s₁, hs₁, hruns⟩ := Option.bind_eq_some_iff.1 hruns
  obtain ⟨s₂, hs₂, hruns⟩ := Option.bind_eq_some_iff.1 hruns
  obtain ⟨s₃, hs₃, hlaws⟩ := Option.map_eq_some_iff.1 hruns
  obtain ⟨hapart, hclosed⟩ := Prod.mk.inj hlaws
  exact ⟨s₁, s₂, s₃, Sys.Reach.start.exec hs₁, of_decide_eq_false hapart, Sys.Reach.start.exec hs₂,
    Sys.Reach.start.exec hs₃, of_decide_eq_false hclosed⟩

end Phyllonix.Publishing
