import Phyllonix.TransitionRuns
import Phyllonix.CircuitBreaker
import Mathlib.Data.List.Infix

/-!
# Retried calls that share one breaker

The attempt loop of `retry_with_db_circuit` and of `retry_transaction_with_db_circuit`.
A call runs without interruption from one await to the next, so its state is the await
it is suspended at. What it does to the breaker and to the semaphore on the way is kept
as a list of effects. The lock of the breaker never makes a call wait.
-/

namespace Phyllonix.Circuit
open Transition
variable {T : Type}

/-- What the wrappers can ask of a driver error. -/
structure DBAPIError where
  connectionInvalidated : Bool
  /-- `type(orig).__name__.lower()` -/
  origName : Option String
  deriving DecidableEq

structure Exn where
  isCancelledError : Bool := false
  /-- an instance of `TimeoutError`, `ConnectionError`, `OSError` or `OperationalError` -/
  isTransient : Bool := false
  dbapiError : Option DBAPIError := none
  deriving DecidableEq

def transientNames : List String :=
  ["timeout", "connection", "brokenpipe", "connectionrefused", "connectionreset"]

def isRecoverableException (exc : Exn) : Bool :=
  if exc.isCancelledError then false
  else if exc.isTransient then true
  else match exc.dbapiError with
    | none => false
    | some e =>
      if e.connectionInvalidated then true
      else match e.origName with
        | none => false
        | some name => transientNames.any fun k => k.toList <:+: name.toList

inductive Wrapper
  | retryWithDbCircuit
  | retryTransactionWithDbCircuit
  deriving DecidableEq

/-- One call of a wrapped function. `ifRetryable` may itself raise. -/
structure Call where
  wrapper : Wrapper := .retryWithDbCircuit
  attempts : ℕ := 3
  ifRetryable : Exn → Option Bool := fun exc => some (isRecoverableException exc)

def Call.retryable (call : Call) (exc : Exn) : Bool := (call.ifRetryable exc).getD false

/-- `if not retryable or attempt == attempts: raise` -/
def Call.givesUp (call : Call) (attempt : ℕ) (exc : Exn) : Bool :=
  !call.retryable exc || attempt == call.attempts

inductive Reply
  | returned
  | httpException (status : ℕ) (detail : String)
  | raised (exc : Exn)
  | cancelled
  /-- `raise last_exc` where no attempt was made -/
  | typeError
  deriving DecidableEq

def serviceUnavailable : Reply := .httpException 503 "service unavailable (db)"

/-- What follows when the session of an attempt is closed. -/
inductive Next
  | again (attempt : ℕ)
  | answer (reply : Reply)
  deriving DecidableEq

/-- The await a call is suspended at. -/
inductive Phase
  | ready
  | probing (attempt : ℕ)
  | running (attempt : ℕ) (acquiredProbe : Bool)
  | committing (attempt : ℕ) (acquiredProbe : Bool)
  | rollingBack (attempt : ℕ) (acquiredProbe : Bool) (exc : Option Exn)
  | sleeping (attempt : ℕ)
  | closing (next : Next)
  | over (reply : Reply)
  deriving DecidableEq

/-- How the await ends. -/
inductive Act
  | returns
  | raises (exc : Exn)
  | timesOut
  | cancelled
  deriving DecidableEq

inductive Effect
  | beforeCall
  | acquire
  | release
  | recordSuccess
  | recordFailure
  deriving DecidableEq

/-- The breaker's fields, and the free permits of its semaphore. -/
structure DbCircuit (T : Type) where
  breaker : CircuitBreaker T := {}
  permits : ℕ
  deriving DecidableEq

section Calls
variable [LinearOrder T] [Sub T] (c : CircuitConfig T) (now : T)

def Effect.apply (s : DbCircuit T) : Effect → DbCircuit T
  | .beforeCall => { s with breaker := (Circuit.beforeCall c now s.breaker).1 }
  | .acquire => { s with permits := s.permits - 1 }
  | .release => { s with permits := s.permits + 1 }
  | .recordSuccess => { s with breaker := Circuit.recordSuccess c s.breaker }
  | .recordFailure => { s with breaker := Circuit.recordFailure c now s.breaker }

def releaseProbe (acquiredProbe : Bool) : List Effect := if acquiredProbe then [.release] else []

def Call.beginAttempt (call : Call) (s : DbCircuit T) (attempt : ℕ) : List Effect × Phase :=
  if call.attempts < attempt then ([], .over .typeError)
  else match Circuit.beforeCall c now s.breaker with
    | (_, .error _) => ([.beforeCall], .over serviceUnavailable)
    | (b, .ok ()) =>
      if b.state = .halfOpen then ([.beforeCall], .probing attempt)
      else ([.beforeCall], .running attempt false)

/-- The await of phase `p` ends with `a`: what the call does until its next await. -/
def Call.advance (call : Call) (s : DbCircuit T) (p : Phase) (a : Act) : Option (List Effect × Phase) :=
  match p, a with
  | .ready, .returns => some (call.beginAttempt c now s 1)
  | .ready, .cancelled => some ([], .over .cancelled)
  | .probing attempt, .returns =>
    if 0 < s.permits then some ([.acquire], .running attempt true) else none
  | .probing _, .timesOut => some ([], .over serviceUnavailable)
  | .probing _, .cancelled => some ([], .over .cancelled)
  | .running k probe, a =>
    match call.wrapper, a with
    | .retryWithDbCircuit, .returns => some (releaseProbe probe ++ [.recordSuccess], .over .returned)
    | .retryWithDbCircuit, .cancelled => some (releaseProbe probe, .over .cancelled)
    | .retryWithDbCircuit, .raises exc =>
      if call.givesUp k exc then some (releaseProbe probe, .over (.raised exc))
      else some (releaseProbe probe ++ [.recordFailure], .sleeping k)
    | .retryTransactionWithDbCircuit, .returns => some ([], .committing k probe)
    | .retryTransactionWithDbCircuit, .cancelled => some ([], .rollingBack k probe none)
    | .retryTransactionWithDbCircuit, .raises exc => some ([], .rollingBack k probe (some exc))
    | _, .timesOut => none
  | .committing _ probe, .returns =>
    some (releaseProbe probe ++ [.recordSuccess], .closing (.answer .returned))
  | .committing k probe, .cancelled => some ([], .rollingBack k probe none)
  | .committing k probe, .raises exc => some ([], .rollingBack k probe (some exc))
  | .rollingBack _ _ none, .returns => some ([], .closing (.answer .cancelled))
  | .rollingBack k probe (some exc), .returns =>
    -- the permit is given back only on the way to the next attempt
    if call.givesUp k exc then some ([], .closing (.answer (.raised exc)))
    else some (releaseProbe probe ++ [.recordFailure], .sleeping k)
  | .rollingBack _ _ _, .raises exc => some ([], .closing (.answer (.raised exc)))
  | .rollingBack _ _ _, .cancelled => some ([], .closing (.answer .cancelled))
  | .sleeping k, .returns =>
    match call.wrapper with
    | .retryWithDbCircuit => some (call.beginAttempt c now s (k + 1))
    | .retryTransactionWithDbCircuit => some ([], .closing (.again k))
  | .sleeping _, .cancelled =>
    match call.wrapper with
    | .retryWithDbCircuit => some ([], .over .cancelled)
    | .retryTransactionWithDbCircuit => some ([], .closing (.answer .cancelled))
  | .closing (.again k), .returns => some (call.beginAttempt c now s (k + 1))
  | .closing (.answer reply), .returns => some ([], .over reply)
  | .closing _, .raises exc => some ([], .over (.raised exc))
  | .closing _, .cancelled => some ([], .over .cancelled)
  | _, _ => none

end Calls

structure Label (T : Type) (n : ℕ) where
  now : T
  task : Fin n
  act : Act

/-- The breaker with its semaphore, and `n` calls. -/
structure Calls (T : Type) (n : ℕ) where
  clock : T
  circuit : DbCircuit T
  phase : Fin n → Phase

abbrev CallMove (T : Type) (n : ℕ) := Move (Calls T n) (Label T n)

section System
variable [LinearOrder T] [Sub T] {n : ℕ} (c : CircuitConfig T) (calls : Fin n → Call)

def Calls.init (t₀ : T) : Calls T n :=
  { clock := t₀
    circuit := { permits := c.maxConcurrentHalfOpenProbes }
    phase := fun _ => .ready }

def Calls.step : Step (Calls T n) (Label T n) := fun s l =>
  ((calls l.task).advance c l.now s.circuit (s.phase l.task) l.act).map fun (effects, phase) =>
    { clock := l.now
      circuit := effects.foldl (Effect.apply c l.now) s.circuit
      phase := Function.update s.phase l.task phase }

/-- What the task of a move did to the breaker and the semaphore. -/
def effects (m : CallMove T n) : List Effect :=
  (((calls m.label.task).advance c m.label.now m.before.circuit (m.before.phase m.label.task)
    m.label.act).map Prod.fst).getD []

def Calls.InOrder (s : Calls T n) (l : Label T n) : Prop := s.clock ≤ l.now

instance Calls.decidableInOrder (s : Calls T n) (l : Label T n) : Decidable (s.InOrder l) :=
  inferInstanceAs (Decidable (s.clock ≤ l.now))

end System

/-- The attempt in progress, and whether it acquired a probe. -/
def Phase.attempt : Phase → Option (ℕ × Bool)
  | .running k probe | .committing k probe | .rollingBack k probe _ => some (k, probe)
  | _ => none

def Phase.Waiting : Phase → Prop
  | .probing _ => True
  | _ => False

instance : DecidablePred Phase.Waiting
  | .probing _ => .isTrue trivial
  | .ready | .running .. | .committing .. | .rollingBack .. | .sleeping _ | .closing _ | .over _ => .isFalse id

/-- No attempt in progress, and none waiting for a permit. -/
def Phase.Idle (p : Phase) : Prop := p.attempt = none ∧ ¬p.Waiting

end Phyllonix.Circuit
