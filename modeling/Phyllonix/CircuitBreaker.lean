import Mathlib.Order.Lattice
import Mathlib.Data.Int.Order.Basic
import Phyllonix.ProcessNumbers

/-!
# The in-memory circuit breaker

The five mutable fields of one breaker and the operations that read and write them.
Each operation holds the breaker's lock from its first to its last line and awaits
nothing else, so it is one function of the fields and the clock.
-/

namespace Phyllonix.Circuit
variable {T : Type}

inductive State
  | closed
  | opened
  | halfOpen
  deriving DecidableEq

structure CircuitOpenError where
  message : String
  deriving DecidableEq

/-- What the constructor fixes. -/
structure CircuitConfig (T : Type) where
  name : String
  failureThreshold : ℕ
  recoveryTimeout : T
  halfOpenSuccessThreshold : ℕ
  maxConcurrentHalfOpenProbes : ℕ
  failureThreshold_pos : 0 < failureThreshold
  halfOpenSuccessThreshold_pos : 0 < halfOpenSuccessThreshold

def circuitConfig (name : String) (failureThreshold : ℤ) (recoveryTimeout : T)
    (halfOpenSuccessThreshold : ℤ) (maxConcurrentHalfOpenProbes : ℕ) : CircuitConfig T where
  name := name
  failureThreshold := (max 1 failureThreshold).toNat
  recoveryTimeout := recoveryTimeout
  halfOpenSuccessThreshold := (max 1 halfOpenSuccessThreshold).toNat
  maxConcurrentHalfOpenProbes := maxConcurrentHalfOpenProbes
  failureThreshold_pos := by omega
  halfOpenSuccessThreshold_pos := by omega

def dbCircuit [OfNat T 20] : CircuitConfig T := circuitConfig "postgres" 3 20 1 1

structure CircuitBreaker (T : Type) where
  state : State := .closed
  failCount : ℕ := 0
  openedAt : Option T := none
  halfOpenSuccessCount : ℕ := 0
  deriving DecidableEq

section Operations
variable (c : CircuitConfig T) (now : T) (b : CircuitBreaker T)

def maybeTransition [LinearOrder T] [Sub T] : CircuitBreaker T :=
  match b.state, b.openedAt with
  | .opened, some t =>
    if c.recoveryTimeout ≤ now - t then { b with state := .halfOpen, halfOpenSuccessCount := 0 }
    else b
  | _, _ => b

def beforeCall [LinearOrder T] [Sub T] : CircuitBreaker T × Except CircuitOpenError Unit :=
  let b := maybeTransition c now b
  if b.state = .opened then (b, .error ⟨"circuit " ++ c.name ++ " is open"⟩)
  else (b, .ok ())

def recordSuccess : CircuitBreaker T :=
  match b.state with
  | .opened => b
  | .halfOpen =>
    if c.halfOpenSuccessThreshold ≤ b.halfOpenSuccessCount + 1 then
      { state := .closed, failCount := 0, openedAt := none, halfOpenSuccessCount := 0 }
    else { b with halfOpenSuccessCount := b.halfOpenSuccessCount + 1 }
  | .closed => { b with failCount := 0 }

def recordFailure : CircuitBreaker T :=
  match b.state with
  | .halfOpen => { state := .opened, failCount := 0, openedAt := some now, halfOpenSuccessCount := 0 }
  | .closed =>
    if c.failureThreshold ≤ b.failCount + 1 then
      { b with state := .opened, failCount := 0, openedAt := some now }
    else { b with failCount := b.failCount + 1 }
  | .opened => b

end Operations

/-- What the five fields say together. -/
structure Consistent (c : CircuitConfig T) (b : CircuitBreaker T) : Prop where
  openedAt_none : b.openedAt = none ↔ b.state = .closed
  failCount_lt : b.failCount < c.failureThreshold
  failCount_zero : b.state ≠ .closed → b.failCount = 0
  successCount_lt : b.halfOpenSuccessCount < c.halfOpenSuccessThreshold
  successCount_zero : b.state ≠ .halfOpen → b.halfOpenSuccessCount = 0

section Cases
variable {c : CircuitConfig T} {now : T} {b : CircuitBreaker T}

theorem consistent_init : Consistent c ({} : CircuitBreaker T) :=
  ⟨by simp, c.failureThreshold_pos, by simp, c.halfOpenSuccessThreshold_pos, by simp⟩

theorem Consistent.recordSuccess (hb : Consistent c b) : Consistent c (recordSuccess c b) := by
  unfold Circuit.recordSuccess
  split
  · exact hb
  · rename_i hs
    have hzero : b.failCount = 0 := hb.failCount_zero (by simp [hs])
    split
    · exact ⟨by simp, c.failureThreshold_pos, by simp, c.halfOpenSuccessThreshold_pos, by simp⟩
    · rename_i hlt
      exact ⟨hb.openedAt_none, hb.failCount_lt, fun _ => hzero, by simpa using hlt, by simp [hs]⟩
  · rename_i hs
    exact ⟨hb.openedAt_none, c.failureThreshold_pos, by simp, hb.successCount_lt, hb.successCount_zero⟩

theorem Consistent.recordFailure (hb : Consistent c b) : Consistent c (recordFailure c now b) := by
  unfold Circuit.recordFailure
  split
  · exact ⟨by simp, c.failureThreshold_pos, by simp, c.halfOpenSuccessThreshold_pos, by simp⟩
  · rename_i hs
    have hzero : b.halfOpenSuccessCount = 0 := hb.successCount_zero (by simp [hs])
    split
    · exact ⟨by simp, c.failureThreshold_pos, by simp, hb.successCount_lt, fun _ => hzero⟩
    · rename_i hlt
      exact ⟨hb.openedAt_none, by simpa using hlt, by simp [hs], hb.successCount_lt,
        hb.successCount_zero⟩
  · exact hb

variable [LinearOrder T] [Sub T]

/-- Only an open breaker whose timeout has passed is changed before a call. -/
theorem maybeTransition_cases (c : CircuitConfig T) (now : T) (b : CircuitBreaker T) :
    maybeTransition c now b = b ∨
      b.state = .opened ∧ (∃ t, b.openedAt = some t ∧ c.recoveryTimeout ≤ now - t) ∧
        maybeTransition c now b = { b with state := .halfOpen, halfOpenSuccessCount := 0 } := by
  unfold maybeTransition
  split
  · rename_i t hs ht
    split
    · rename_i hle
      exact Or.inr ⟨hs, ⟨t, ht, hle⟩, rfl⟩
    · exact Or.inl rfl
  · exact Or.inl rfl

theorem beforeCall_fst : (beforeCall c now b).1 = maybeTransition c now b := by
  unfold beforeCall
  dsimp only
  split <;> rfl

theorem beforeCall_ok : (beforeCall c now b).2 = .ok () ↔ (beforeCall c now b).1.state ≠ .opened := by
  unfold beforeCall
  dsimp only
  split <;> simp_all

/-- A refused call found the breaker open and within its timeout. -/
theorem beforeCall_raises (hb : Consistent c b) : (∃ e, (beforeCall c now b).2 = .error e) ↔
    b.state = .opened ∧ ∃ t, b.openedAt = some t ∧ now - t < c.recoveryTimeout := by
  unfold beforeCall
  dsimp only
  cases hs : b.state with
  | closed => simp [maybeTransition, hs]
  | halfOpen => simp [maybeTransition, hs]
  | opened =>
    have hsome : b.openedAt ≠ none := by simp [hb.openedAt_none, hs]
    obtain ⟨t, ht⟩ := Option.ne_none_iff_exists'.mp hsome
    by_cases hle : c.recoveryTimeout ≤ now - t
    · simp [maybeTransition, hs, ht, hle]
    · simp [maybeTransition, hs, ht, hle, not_le.mp hle]

theorem Consistent.maybeTransition (hb : Consistent c b) : Consistent c (maybeTransition c now b) := by
  rcases maybeTransition_cases c now b with h | ⟨hs, ⟨t, ht, -⟩, h⟩
  · rw [h]
    exact hb
  · rw [h]
    have hzero : b.failCount = 0 := hb.failCount_zero (by simp [hs])
    exact ⟨by simp [ht], hb.failCount_lt, fun _ => hzero, c.halfOpenSuccessThreshold_pos, by simp⟩

end Cases
end Phyllonix.Circuit
