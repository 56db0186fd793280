import Phyllonix.AsyncLoops
import Mathlib.Data.Int.Order.Basic

/-!
# Publish-subscribe worker

A queue in memory, worker loops that take tasks out of it and call the subscribers of their
events, and the sentinels that end the loops. Reading and writing of a queue is one step, and
so is each call of a handler, which returns or raises after the others have run for a while.
-/

namespace Phyllonix.PubSub
open Async

/-- A queued dictionary; the serial number is the identity of the object. -/
structure Task (D : Type) where
  serial : ℕ
  event : String
  data : D
  deriving DecidableEq

/-- `None` is the sentinel. -/
abbrev Item (D : Type) := Option (Task D)

abbrev SENTINEL {D : Type} : Item D := none

/-- `asyncio.Queue`: the items, oldest first, and its count of unfinished tasks. -/
structure Queue (D : Type) where
  items : List (Item D) := []
  unfinished : ℕ := 0
  /-- all items that the queue has taken in -/
  accepted : List (Item D) := []

namespace Queue
variable {D : Type}

/-- A queue without a positive `maxsize` has no bound. -/
def Full (maxsize : ℤ) (q : Queue D) : Prop := 0 < maxsize ∧ maxsize ≤ q.items.length

instance (maxsize : ℤ) (q : Queue D) : Decidable (q.Full maxsize) := inferInstanceAs (Decidable (_ ∧ _))

def enqueue (q : Queue D) (x : Item D) : Queue D where
  items := q.items ++ [x]
  unfinished := q.unfinished + 1
  accepted := q.accepted ++ [x]

/-- `publish`: the caller is told when the queue is full. -/
def publish (maxsize : ℤ) (event : String) (data : D) (q : Queue D) : Queue D :=
  if q.Full maxsize then q else q.enqueue (some ⟨q.accepted.length, event, data⟩)

end Queue

inductive PoolErr where
  | valueError (text : String)
  | handler (text : String)

/-- What a coroutine of the pool awaits; `task_done` is a call, and a step of its own. -/
inductive Op (F D : Type) where
  | get
  | put (item : Item D)
  | taskDone
  | handler (subfn : F) (task : Task D) (name : String)

abbrev Op.Res {F D : Type} : Op F D → Type
  | .get => Item D
  | _ => Unit

/-- A choice is what a handler ends with. -/
def Op.step {F D : Type} (maxsize : ℤ) : (o : Op F D) → Except PoolErr Unit → Queue D →
    Option (Except PoolErr o.Res × Queue D)
  | .get, _, q =>
    match q.items with
    | [] => none
    | x :: rest => some (.ok x, { q with items := rest })
  | .put item, _, q => if q.Full maxsize then none else some (.ok (), q.enqueue item)
  | .taskDone, _, q =>
    if q.unfinished = 0 then some (.error (.valueError "task_done() called too many times"), q)
    else some (.ok (), { q with unfinished := q.unfinished - 1 })
  | .handler _ _ _, c, q => some (c, q)

/-- Other tasks publish. -/
@[reducible] def machine (F D : Type) (maxsize : ℤ) : Machine where
  State := Queue D
  Op := Op F D
  Res := Op.Res
  Err := PoolErr
  Choice := Except PoolErr Unit
  step := Op.step maxsize
  Env := String × D
  env e := Queue.publish maxsize e.1 e.2

variable {F D : Type} {maxsize : ℤ}

abbrev Co (F D : Type) (maxsize : ℤ) := Prog (machine F D maxsize)

def wait (o : Op F D) : Co F D maxsize o.Res := Prog.call (M := machine F D maxsize) o

def subscribe [DecidableEq F] (subscribers : String → List F) (event : String) (fn : F) : String → List F :=
  if fn ∈ subscribers event then subscribers
  else Function.update subscribers event (subscribers event ++ [fn])

/-- The bound methods and functions that are subscribed. -/
inductive Handler where
  | computeChecksumAndUpdateStatus
  | outboxHandler
  | orderConfirmCommitintentHandler
  deriving DecidableEq

def registerSubscribers (subscribers : String → List Handler) : String → List Handler :=
  let subscribers := subscribe subscribers "product_image_uploaded" .computeChecksumAndUpdateStatus
  let subscribers := subscribe subscribers "order.paid" .outboxHandler
  let subscribers := subscribe subscribers "order.payment_pending" .outboxHandler
  subscribe subscribers "order_confirm_intent.created" .orderConfirmCommitintentHandler

def callEach (task : Task D) (name : String) : List F → Co F D maxsize Unit
  | [] => pure ()
  | subfn :: rest => do
    wait (.handler subfn task name)
    callEach task name rest

def tasksExecutor (subscribers : String → List F) (task : Task D) (name : String) : Co F D maxsize Unit :=
  callEach task name (subscribers task.event)

/-- One pass of the loop; `false` is its `break`. -/
def workerLoop (subscribers : String → List F) (curWorkerName : String) : Co F D maxsize Bool := do
  let qitem ← wait .get
  Prog.tryFinally
    (match qitem with
      | none => pure false
      | some task => do
        -- an exception of the handler is logged
        let _ ← (tasksExecutor subscribers task curWorkerName).attempt
        pure true)
    (do
      let _ ← (wait .taskDone).attempt
      pure ())

/-- Sends as many sentinels. -/
def stop : ℕ → Co F D maxsize Unit
  | 0 => pure ()
  | k + 1 => do
    wait (.put SENTINEL)
    stop k

/-- The coroutines of a pool of `w` workers. -/
inductive Coroutine (w : ℕ) where
  | worker (i : Fin w)
  | stop
  deriving DecidableEq

def workerName {w : ℕ} (i : Fin w) : String := s!"Worker:{i.val + 1}"

variable {w : ℕ}

def body (subscribers : String → List F) : Coroutine w → Co F D maxsize Bool
  | .worker i => workerLoop subscribers (workerName i)
  | .stop => do
    stop w
    pure false

abbrev Pool (F D : Type) (maxsize : ℤ) (w : ℕ) := Loops (machine F D maxsize) (Coroutine w)

/-- The pool as `start` leaves it. -/
def startPool (subscribers : String → List F) : Pool F D maxsize w := .start (body subscribers) {}

/-- Nothing is published once the first sentinel is in the queue. -/
def publishesFirst (_ : String × D) (q : Queue D) : Prop := SENTINEL ∉ q.accepted

/-- Runs of the pool in which `stop` is called at some time. -/
abbrev PoolReach (subscribers : String → List F) (s : Pool F D maxsize w) : Prop :=
  Loops.Reach (body subscribers) publishesFirst (startPool subscribers) s

end Phyllonix.PubSub
