import Phyllonix.DbRetries
import Phyllonix.RetriedOutcomes
import Mathlib.Order.Interval.Set.Defs

/-!
# The two retry loops, with what they return and how long they pause

`retry_with_db_circuit` and `retry_transaction_with_db_circuit` as one task runs them: each
await is answered by a script, and a log keeps what was awaited. A task is cancelled in the
wrapped function or in a statement of its session.
-/

namespace Phyllonix.Circuit
variable {T α β E : Type}

inductive Event
  | called
  | opened
  | committed
  | rolledBack
  | closed
  | slept (seconds : ℚ)
  deriving DecidableEq

/-- What leaves a wrapper: an exception of the wrapped code, or one of its own. -/
inductive Raised (E : Type)
  | own (exc : E)
  | httpException (status : ℕ) (detail : String)
  /-- `raise last_exc` where no attempt was made -/
  | typeError
  deriving DecidableEq

structure RetryPolicy (E : Type) where
  attempts : ℕ := 3
  baseDelay : ℚ := 1 / 10
  factor : ℚ := 2
  maxDelay : ℚ := 1
  jitter : ℚ := 15 / 100
  /-- `none` for a predicate that raises -/
  ifRetryable : Option (E → Option Bool) := none
  perAttemptTimeout : Option ℚ := none

/-- The answers to one call of a wrapper. Outcomes of the wrapped function and of the
statements of its session are counted by calls, from one. -/
structure Script (T α E : Type) where
  kind : E → Exn
  fn : ℕ → Except E α
  /-- `asyncio.wait_for` around the wrapped function -/
  waitFor : ℚ → ℕ → Except E α
  commit : ℕ → Except E Unit
  rollback : ℕ → Except E Unit
  close : ℕ → Except E Unit
  /-- `random.random()` -/
  random : ℕ → Set.Icc (0 : ℚ) 1
  monotonic : ℕ → T
  /-- whether a permit is free before the timeout -/
  probe : ℕ → Bool

structure World (T : Type) where
  circuit : DbCircuit T
  /-- how often the clock, the generator or the semaphore was asked -/
  asked : ℕ := 0
  log : List Event := []

def World.calls (w : World T) : ℕ := w.log.count .called

abbrev Io (T E : Type) := EStateM (Raised E) (World T)

def note (e : Event) : Io T E Unit := modify fun w => { w with log := w.log ++ [e] }

def ask : Io T E ℕ := modifyGet fun w => (w.asked, { w with asked := w.asked + 1 })

def calls : Io T E ℕ := return (← get).calls

def raiseUnavailable : Io T E β := throw (.httpException 503 "service unavailable (db)")

/-- `try: body` with what it raised as a value -/
def observe (body : Io T E β) : Io T E (Except (Raised E) β) :=
  tryCatch (.ok <$> body) fun exc => return .error exc

def RetryPolicy.retryable (policy : RetryPolicy E) (kind : E → Exn) (exc : E) : Bool :=
  match policy.ifRetryable with
  | none => isRecoverableException (kind exc)
  | some ifRetryable => (ifRetryable exc).getD false

def RetryPolicy.delay (policy : RetryPolicy E) (attempt : ℕ) : ℚ :=
  min policy.maxDelay (policy.baseDelay * policy.factor ^ (attempt - 1))

section Loops
variable [LinearOrder T] [Sub T] (c : CircuitConfig T) (s : Script T α E) (policy : RetryPolicy E)

def Script.uniform (a b : ℚ) : Io T E ℚ := do
  let i ← ask
  return a + (b - a) * s.random i

def sleepWithJitter (delay jitter : ℚ) : Io T E Unit := do
  let jitterVal ← s.uniform (-jitter * delay) (jitter * delay)
  note (.slept (max 0 (delay + jitterVal)))

def awaitBeforeCall : Io T E (Except CircuitOpenError Unit) := do
  let i ← ask
  modifyGet fun w =>
    let (b, answer) := beforeCall c (s.monotonic i) w.circuit.breaker
    (answer, { w with circuit := { w.circuit with breaker := b } })

def acquireHalfOpenProbe : Io T E Bool := do
  let i ← ask
  if s.probe i then
    modify fun w => { w with circuit := { w.circuit with permits := w.circuit.permits - 1 } }
  return s.probe i

def releaseHalfOpenProbe : Io T E Unit :=
  modify fun w => { w with circuit := { w.circuit with permits := w.circuit.permits + 1 } }

def awaitRecordSuccess : Io T E Unit := modify fun w =>
  { w with circuit := { w.circuit with breaker := recordSuccess c w.circuit.breaker } }

def awaitRecordFailure : Io T E Unit := do
  let i ← ask
  modify fun w => { w with
    circuit := { w.circuit with breaker := recordFailure c (s.monotonic i) w.circuit.breaker } }

/-- What both loops do before an attempt. Returns `acquired_probe`. -/
def enterCircuit : Io T E Bool := do
  match ← awaitBeforeCall c s with
  | .error _ => raiseUnavailable
  | .ok () =>
    if (← get).circuit.breaker.state = .halfOpen then
      if ← acquireHalfOpenProbe s then return true else raiseUnavailable
    else return false

def awaitFn : Io T E (Except E α) := do
  note .called
  match policy.perAttemptTimeout with
  | some timeout => if timeout ≠ 0 then return s.waitFor timeout (← calls) else return s.fn (← calls)
  | none => return s.fn (← calls)

def raiseLast : Option E → Io T E β
  | some lastExc => throw (.own lastExc)
  | none => throw .typeError

/-- The attempts from number `attempt` on, of which `left` are left. -/
def retryAttempts (attempt : ℕ) (lastExc : Option E) : ℕ → Io T E α
  | 0 => raiseLast lastExc
  | left + 1 => do
    let acquiredProbe ← enterCircuit c s
    match ← awaitFn s policy with
    | .ok result =>
      if acquiredProbe then releaseHalfOpenProbe
      awaitRecordSuccess c
      return result
    | .error exc =>
      if acquiredProbe then releaseHalfOpenProbe
      if (s.kind exc).isCancelledError then
        throw (.own exc)
      else if !policy.retryable s.kind exc || attempt == policy.attempts then
        throw (.own exc)
      else
        awaitRecordFailure c s
        sleepWithJitter s (policy.delay attempt) policy.jitter
        retryAttempts (attempt + 1) (some exc) left

def retryWithDbCircuit : Io T E α := retryAttempts c s policy 1 none policy.attempts

def awaitCommit : Io T E (Except E Unit) := do
  note .committed
  return s.commit (← calls)

def awaitRollback : Io T E Unit := do
  note .rolledBack
  match s.rollback (← calls) with
  | .ok () => return ()
  | .error exc => throw (.own exc)

def awaitTxnFn : Io T E (Except E α) := do
  match ← awaitFn s policy with
  | .error exc => return .error exc
  | .ok result =>
    match ← awaitCommit s with
    | .error exc => return .error exc
    | .ok () => return .ok result

/-- `async with async_session_maker() as session` -/
def withSession (body : Io T E β) : Io T E β := do
  note .opened
  let r ← observe body
  note .closed
  match s.close (← calls), r with
  | .error exc, _ => throw (.own exc)
  | .ok (), .error exc => throw exc
  | .ok (), .ok b => return b

/-- One attempt within its session. `.error exc` where the loop goes on with `exc` kept. -/
def transactionAttempt (attempt : ℕ) (acquiredProbe : Bool) : Io T E (Except E α) := do
  match ← awaitTxnFn s policy with
  | .ok result =>
    if acquiredProbe then releaseHalfOpenProbe
    awaitRecordSuccess c
    return .ok result
  | .error exc =>
    awaitRollback s
    if (s.kind exc).isCancelledError then
      throw (.own exc)
    else if !policy.retryable s.kind exc || attempt == policy.attempts then
      throw (.own exc)
    else
      if acquiredProbe then releaseHalfOpenProbe
      awaitRecordFailure c s
      sleepWithJitter s (policy.delay attempt) policy.jitter
      return .error exc

def transactionAttempts (attempt : ℕ) (lastExc : Option E) : ℕ → Io T E α
  | 0 => raiseLast lastExc
  | left + 1 => do
    let acquiredProbe ← enterCircuit c s
    match ← withSession s (transactionAttempt c s policy attempt acquiredProbe) with
    | .ok result => return result
    | .error exc => transactionAttempts (attempt + 1) (some exc) left

def retryTransactionWithDbCircuit : Io T E α := transactionAttempts c s policy 1 none policy.attempts

end Loops

end Phyllonix.Circuit
