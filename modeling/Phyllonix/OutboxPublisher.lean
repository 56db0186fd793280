import Phyllonix.AsyncPrograms
import Phyllonix.JsonTexts
import Phyllonix.ShopSchema

/-!
# The publishers of outbox events

A publisher claims a batch of due rows in one transaction, publishes them one by one and marks
each in a transaction of its own. A transaction locks the rows that it selects or updates: until
it ends, the claims of the others skip them and the updates of the others wait. What it has
written is seen by the others when it commits.
-/

namespace Phyllonix.Publishing
open Async

def DEFAULT_BATCH : ℕ := 10

def DEFAULT_POLL_SECONDS : ℕ := 1

def DEFAULT_LOCK_SECONDS : ℕ := 60

def MAX_PUBLISH_ATTEMPTS : ℕ := 6

def BACKOFF_BASE : ℕ := 5

def computeBackoff (attempt : ℕ) : ℕ := min (BACKOFF_BASE * 2 ^ (attempt - 1)) 3600

/-- `timedelta(seconds=s)`; times are in microseconds. -/
def seconds (s : ℕ) : ℕ := s * 1000000

structure OutboxRow where
  id : ℕ
  topic : String
  payload : JsonText.Value
  status : ℕ
  attempts : ℕ
  nextRetryAt : Option ℕ
  lockedUntil : Option ℕ
  sentAt : Option ℕ

namespace OutboxRow

def pendingCond (r : OutboxRow) (nowExpr : ℕ) : Prop :=
  r.status = OutboxEventStatus.pending.value ∧ ∀ t ∈ r.nextRetryAt, t ≤ nowExpr

def reclaimableCond (r : OutboxRow) (nowExpr : ℕ) : Prop :=
  (∃ t ∈ r.lockedUntil, t ≤ nowExpr) ∧ r.status = OutboxEventStatus.pending.value

/-- `locked_until > now` -/
def LeaseRuns (r : OutboxRow) (now : ℕ) : Prop := ∃ t ∈ r.lockedUntil, now < t

instance (r : OutboxRow) (t : ℕ) : Decidable (r.pendingCond t) := inferInstanceAs (Decidable (_ ∧ _))

instance (r : OutboxRow) (t : ℕ) : Decidable (r.reclaimableCond t) := inferInstanceAs (Decidable (_ ∧ _))

instance (r : OutboxRow) (t : ℕ) : Decidable (r.LeaseRuns t) :=
  inferInstanceAs (Decidable (∃ _ ∈ _, _))

end OutboxRow

/-- The values of an update: those of the claim, and those of the three marks. -/
inductive Values where
  | lease (lockedUntil : ℕ)
  | sent (sentAt : ℕ)
  | failed (attempts : ℕ)
  | retry (attempts nextRetryAt : ℕ)
  deriving DecidableEq

def Values.apply (r : OutboxRow) : Values → OutboxRow
  | .lease t => { r with lockedUntil := some t }
  | .sent t => { r with status := OutboxEventStatus.sent.value, sentAt := some t, lockedUntil := none }
  | .failed attempts =>
    { r with
      status := OutboxEventStatus.failed.value
      attempts
      lockedUntil := none
      nextRetryAt := none }
  | .retry attempts t =>
    { r with
      attempts
      nextRetryAt := some t
      lockedUntil := none
      status := OutboxEventStatus.pending.value }

def Values.isLease : Values → Bool
  | .lease _ => true
  | _ => false

@[simp] theorem Values.apply_id (r : OutboxRow) (v : Values) : (v.apply r).id = r.id := by
  cases v <;> rfl

/-- `UPDATE ... WHERE id IN ids` -/
structure Update where
  ids : List ℕ
  values : Values

def Update.row (u : Update) (r : OutboxRow) : OutboxRow := if r.id ∈ u.ids then u.values.apply r else r

theorem Update.row_of_mem {u : Update} {r : OutboxRow} (h : r.id ∈ u.ids) : u.row r = u.values.apply r :=
  if_pos h

theorem Update.row_of_not_mem {u : Update} {r : OutboxRow} (h : r.id ∉ u.ids) : u.row r = r := if_neg h

@[simp] theorem Update.row_id (u : Update) (r : OutboxRow) : (u.row r).id = r.id := by
  unfold row
  split
  · exact Values.apply_id r u.values
  · rfl

/-- The rows in the order of their ids. -/
structure Table where
  rows : List OutboxRow
  ordered : rows.Pairwise fun r r' => r.id < r'.id

def Table.update (t : Table) (u : Update) : Table where
  rows := t.rows.map u.row
  ordered := List.pairwise_map.2 (t.ordered.imp fun h => by simpa using h)

/-- A transaction that has not ended. -/
structure Txn where
  locked : List ℕ := []
  updates : List Update := []

variable {n : ℕ}

/-- Whose lease a row is under after the update: a claim sets the lease, a mark clears it. -/
def Values.holder (me : Fin n) : Values → Option (Fin n)
  | .lease _ => some me
  | _ => none

/-- The database and the clock, with the publisher whose lease a row is under. -/
structure Outbox (n : ℕ) where
  clock : ℕ
  table : Table
  txns : Fin n → Txn := fun _ => {}
  leasedBy : ℕ → Option (Fin n) := fun _ => none

namespace Outbox

/-- Another transaction has locked the row. -/
def LockedFor (s : Outbox n) (me : Fin n) (id : ℕ) : Prop := ∃ j, j ≠ me ∧ id ∈ (s.txns j).locked

instance (s : Outbox n) (me : Fin n) (id : ℕ) : Decidable (s.LockedFor me id) :=
  inferInstanceAs (Decidable (∃ _, _))

/-- The rows that the claim selects. -/
def due (s : Outbox n) (me : Fin n) (nowExpr limit : ℕ) : List OutboxRow :=
  (s.table.rows.filter fun r =>
    (r.pendingCond nowExpr ∨ r.reclaimableCond nowExpr) ∧ ¬s.LockedFor me r.id).take limit

def lock (s : Outbox n) (me : Fin n) (ids : List ℕ) : Outbox n :=
  { s with txns := Function.update s.txns me ⟨(s.txns me).locked ++ ids, (s.txns me).updates⟩ }

def execute (s : Outbox n) (me : Fin n) (u : Update) : Outbox n :=
  { s with
    txns := Function.update s.txns me ⟨(s.txns me).locked ++ u.ids, (s.txns me).updates ++ [u]⟩ }

def rollback (s : Outbox n) (me : Fin n) : Outbox n :=
  { s with txns := Function.update s.txns me {} }

/-- One update of a transaction becomes visible. -/
def publishUpdate (me : Fin n) (s : Outbox n) (u : Update) : Outbox n :=
  { s with
    table := s.table.update u
    leasedBy := fun id => if id ∈ u.ids then u.values.holder me else s.leasedBy id }

def commit (s : Outbox n) (me : Fin n) : Outbox n :=
  ((s.txns me).updates.foldl (publishUpdate me) s).rollback me

end Outbox

inductive PublisherErr where
  | database
  | pubsub

structure Message where
  outbox_id : ℕ
  payload : JsonText.Value

inductive Op (n : ℕ) where
  | now
  /-- `SELECT ... ORDER BY id LIMIT limit FOR UPDATE SKIP LOCKED` -/
  | select (me : Fin n) (nowExpr limit : ℕ)
  | update (me : Fin n) (u : Update)
  | commit (me : Fin n)
  | rollback (me : Fin n)
  | publish (topic : String) (message : Message)
  | sleep (seconds : ℕ)

abbrev Op.Res : Op n → Type
  | .now => ℕ
  | .select _ _ _ => List OutboxRow
  | _ => Unit

/-- How the database or the broker answers. -/
inductive Answered where
  | ok
  | fails

/-- A commit that fails leaves nothing behind. -/
def Op.step : (o : Op n) → Answered → Outbox n → Option (Except PublisherErr o.Res × Outbox n)
  | .now, _, s => some (.ok s.clock, s)
  | .select me nowExpr limit, .ok, s =>
    let rows := s.due me nowExpr limit
    some (.ok rows, s.lock me (rows.map (·.id)))
  | .select _ _ _, .fails, s => some (.error .database, s)
  | .update me u, .ok, s =>
    if ∃ id ∈ u.ids, s.LockedFor me id then none else some (.ok (), s.execute me u)
  | .update _ _, .fails, s => some (.error .database, s)
  | .commit me, .ok, s => some (.ok (), s.commit me)
  | .commit me, .fails, s => some (.error .database, s.rollback me)
  | .rollback me, _, s => some (.ok (), s.rollback me)
  | .publish _ _, .ok, s => some (.ok (), s)
  | .publish _ _, .fails, s => some (.error .pubsub, s)
  | .sleep _, _, s => some (.ok (), s)

/-- Time passes by itself. -/
@[reducible] def machine (n : ℕ) : Machine where
  State := Outbox n
  Op := Op n
  Res := Op.Res
  Err := PublisherErr
  Choice := Answered
  step := Op.step
  Env := ℕ
  env d s := { s with clock := s.clock + d }

abbrev Co (n : ℕ) := Prog (machine n)

def wait (o : Op n) : Co n o.Res := Prog.call (M := machine n) o

/-- What the constructor keeps. -/
structure OutboxPublisher where
  batchSize : ℕ := DEFAULT_BATCH
  pollInterval : ℕ := DEFAULT_POLL_SECONDS
  lockSeconds : ℕ := DEFAULT_LOCK_SECONDS
  maxAttempts : ℕ := MAX_PUBLISH_ATTEMPTS

section
variable {α : Type} (p : OutboxPublisher) (me : Fin n)

/-- `async with session.begin()` -/
def transaction (body : Co n α) : Co n α := do
  let r ← body.attempt
  match r with
  | .ok a => do
    wait (.commit me)
    pure a
  | .error e => do
    wait (.rollback me)
    .raise e

def claim (nowExpr : ℕ) : Co n (List OutboxRow) :=
  transaction me (do
    let rows ← wait (.select me nowExpr p.batchSize)
    match rows with
    | [] => pure []
    | r :: rest => do
      let now ← wait .now
      let claimedIds := (r :: rest).map (·.id)
      wait (.update me ⟨claimedIds, .lease (now + seconds p.lockSeconds)⟩)
      pure (r :: rest))

def mark (outboxId : ℕ) (values : Values) : Co n Unit := transaction me (wait (.update me ⟨[outboxId], values⟩))

/-- A payload that is a text is read as JSON, if it is JSON. -/
def payloadObj : JsonText.Value → JsonText.Value
  | .str text => (JsonText.loads text).getD (.str text)
  | payload => payload

def publishRow (r : OutboxRow) : Co n Unit := do
  let published ← Prog.attempt (do
    wait (.publish r.topic ⟨r.id, payloadObj r.payload⟩)
    let now ← wait .now
    mark me r.id (.sent now))
  match published with
  | .ok () => pure ()
  | .error _ =>
    if p.maxAttempts ≤ r.attempts + 1 then mark me r.id (.failed (r.attempts + 1))
    else do
      let now ← wait .now
      mark me r.id (.retry (r.attempts + 1) (now + seconds (computeBackoff (r.attempts + 1))))

def publishRows : List OutboxRow → Co n Unit
  | [] => pure ()
  | r :: rest => do
    publishRow p me r
    publishRows rest

def processBatch : Co n Unit := do
  let nowExpr ← wait .now
  let rows ← claim p me nowExpr
  publishRows p me rows

/-- `while not self._stop`, for as many passes. -/
def run : ℕ → Co n Unit
  | 0 => pure ()
  | passes + 1 => do
    let r ← (processBatch p me).attempt
    match r with
    | .ok () => run passes
    | .error _ => do
      wait (.sleep p.pollInterval)
      run passes

end

abbrev Publishers (n : ℕ) := Sys (machine n) n Unit

def start (publishers : Fin n → OutboxPublisher) (passes : Fin n → ℕ) (clock : ℕ) (table : Table) :
    Publishers n where
  state := { clock, table }
  procs i := run (publishers i) i (passes i)

end Phyllonix.Publishing
