import Phyllonix.TransitionRuns
import Phyllonix.CircuitBreaker

/-!
# What the breaker's history says about its state

The breaker alone, under any sequence of its three operations at times that do not
decrease. Its counters are compared with the outcomes recorded since its present
state was entered, and from that every change of state with the history before it.
-/

namespace Phyllonix.Circuit
open Transition
variable {T : Type}

inductive Op
  | beforeCall
  | recordSuccess
  | recordFailure
  deriving DecidableEq

inductive Outcome
  | success
  | failure
  deriving DecidableEq

structure Request (T : Type) where
  now : T
  op : Op

structure Timed (T : Type) where
  clock : T
  breaker : CircuitBreaker T := {}

def Op.outcome : Op → Option Outcome
  | .beforeCall => none
  | .recordSuccess => some .success
  | .recordFailure => some .failure

abbrev BreakerMove (T : Type) := Move (Timed T) (Request T)

section Step
variable [LinearOrder T] [Sub T] (c : CircuitConfig T)

def Op.apply (now : T) (b : CircuitBreaker T) : Op → CircuitBreaker T
  | .beforeCall => (Circuit.beforeCall c now b).1
  | .recordSuccess => Circuit.recordSuccess c b
  | .recordFailure => Circuit.recordFailure c now b

def step : Step (Timed T) (Request T) := fun s r => some ⟨r.now, r.op.apply c r.now s.breaker⟩

/-- Times do not decrease. -/
def InOrder (s : Timed T) (r : Request T) : Prop := s.clock ≤ r.now

instance (s : Timed T) (r : Request T) : Decidable (InOrder s r) :=
  inferInstanceAs (Decidable (s.clock ≤ r.now))

end Step

/-- The moves since the present state was entered. -/
def period (h : List (BreakerMove T)) : List (BreakerMove T) := since (·.breaker.state) h

def outcomes (h : List (BreakerMove T)) : List Outcome := h.filterMap (·.label.op.outcome)

def Opens (m : BreakerMove T) : Prop :=
  m.before.breaker.state ≠ .opened ∧ m.after.breaker.state = .opened

instance : DecidablePred (Opens (T := T)) := fun _ => inferInstanceAs (Decidable (_ ∧ _))

/-- When the breaker last opened. -/
def lastOpening (h : List (BreakerMove T)) : Option T := (h.find? fun m => Opens m).map (·.label.now)

/-- The law of one move `m` that comes after the moves `h`. -/
structure Lawful [LinearOrder T] [Sub T] (c : CircuitConfig T) (h : List (BreakerMove T))
    (m : BreakerMove T) : Prop where
  opens : m.before.breaker.state = .closed →
    (m.after.breaker.state = .opened ↔ m.label.op = .recordFailure ∧
      (outcomes (m :: period h)).take c.failureThreshold =
        List.replicate c.failureThreshold .failure)
  half_opens : m.before.breaker.state = .opened → m.after.breaker.state = .halfOpen →
    m.label.op = .beforeCall ∧
      ∃ t, lastOpening h = some t ∧ c.recoveryTimeout ≤ m.label.now - t
  closes : m.before.breaker.state = .halfOpen →
    (m.after.breaker.state = .closed ↔ m.label.op = .recordSuccess ∧
      (outcomes (m :: period h)).count .success = c.halfOpenSuccessThreshold)
  reopens : m.before.breaker.state = .halfOpen →
    (m.after.breaker.state = .opened ↔ m.label.op = .recordFailure)
  no_other : ¬(m.before.breaker.state = .closed ∧ m.after.breaker.state = .halfOpen) ∧
    ¬(m.before.breaker.state = .opened ∧ m.after.breaker.state = .closed)
  raises : m.label.op = .beforeCall →
    ((∃ e, (beforeCall c m.label.now m.before.breaker).2 = .error e) ↔
      m.before.breaker.state = .opened ∧
        ∃ t, lastOpening h = some t ∧ m.label.now - t < c.recoveryTimeout)

/-- The counters agree with the outcomes recorded in the present period. -/
structure Tallied (c : CircuitConfig T) (h : List (BreakerMove T)) (b : CircuitBreaker T) : Prop where
  consistent : Consistent c b
  fails : b.state = .closed → b.failCount = streak .failure (outcomes (period h))
  successes : b.state = .halfOpen → b.halfOpenSuccessCount = (outcomes (period h)).count .success
  opening : b.state ≠ .closed → b.openedAt = lastOpening h

section Histories
variable {m : BreakerMove T} {h : List (BreakerMove T)}

theorem period_of_same (hm : m.before.breaker.state = m.after.breaker.state) :
    period (m :: h) = m :: period h := since_of_same hm

theorem period_of_change (hm : m.before.breaker.state ≠ m.after.breaker.state) :
    period (m :: h) = [] := since_of_change hm

@[simp] theorem outcomes_nil : outcomes ([] : List (BreakerMove T)) = [] := rfl

theorem lastOpening_of_opens (hm : Opens m) : lastOpening (m :: h) = some m.label.now := by
  simp [lastOpening, hm]

theorem lastOpening_of_not_opens (hm : ¬Opens m) : lastOpening (m :: h) = lastOpening h := by
  simp [lastOpening, hm]

end Histories

section Steps
variable {c : CircuitConfig T} {h : List (BreakerMove T)} {m : BreakerMove T}

theorem tallied_init : Tallied c ([] : List (BreakerMove T)) {} :=
  ⟨consistent_init, fun _ => rfl, by simp, by simp⟩

theorem Tallied.enter (hb : Consistent c m.after.breaker)
    (hm : m.before.breaker.state ≠ m.after.breaker.state) (hfail : m.after.breaker.failCount = 0)
    (hsucc : m.after.breaker.halfOpenSuccessCount = 0)
    (hopen : m.after.breaker.state ≠ .closed → m.after.breaker.openedAt = lastOpening (m :: h)) :
    Tallied c (m :: h) m.after.breaker := by
  have hperiod : period (m :: h) = [] := period_of_change hm
  refine ⟨hb, fun _ => ?_, fun _ => ?_, hopen⟩
  · simp [hperiod, hfail]
  · simp [hperiod, hsucc]

/-- A move within a state counts what it records. -/
theorem Tallied.stay (ht : Tallied c h m.before.breaker) (hb : Consistent c m.after.breaker)
    (hm : m.after.breaker.state = m.before.breaker.state)
    (hopen : m.after.breaker.openedAt = m.before.breaker.openedAt)
    (hfail : m.before.breaker.state = .closed →
      m.after.breaker.failCount = streak .failure (outcomes (m :: period h)))
    (hsucc : m.before.breaker.state = .halfOpen →
      m.after.breaker.halfOpenSuccessCount = (outcomes (m :: period h)).count .success) :
    Tallied c (m :: h) m.after.breaker := by
  have hperiod : period (m :: h) = m :: period h := period_of_same hm.symm
  have hlast : lastOpening (m :: h) = lastOpening h := by
    apply lastOpening_of_not_opens
    rintro ⟨hne, heq⟩
    exact hne (hm ▸ heq)
  refine ⟨hb, fun hs => ?_, fun hs => ?_, fun hs => ?_⟩
  · rw [hperiod]
    exact hfail (hm ▸ hs)
  · rw [hperiod]
    exact hsucc (hm ▸ hs)
  · rw [hopen, hlast]
    exact ht.opening (hm ▸ hs)

variable [LinearOrder T] [Sub T] {s : Timed T} {now : T}

theorem Tallied.beforeCall (ht : Tallied c h s.breaker) :
    let m : BreakerMove T := ⟨s, ⟨now, .beforeCall⟩, ⟨now, (Circuit.beforeCall c now s.breaker).1⟩⟩
    Tallied c (m :: h) m.after.breaker ∧ Lawful c h m := by
  intro m
  have hafter : m.after.breaker = maybeTransition c now s.breaker := beforeCall_fst
  have hcons : Consistent c m.after.breaker := hafter ▸ ht.consistent.maybeTransition
  have hout : outcomes (m :: period h) = outcomes (period h) := rfl
  have hlast : s.breaker.state = .opened → s.breaker.openedAt = lastOpening h := fun hs =>
    ht.opening (by simp [hs])
  have hraises : (∃ e, (Circuit.beforeCall c now s.breaker).2 = .error e) ↔
      s.breaker.state = .opened ∧ ∃ t, lastOpening h = some t ∧ now - t < c.recoveryTimeout := by
    rw [beforeCall_raises ht.consistent]
    constructor
    · rintro ⟨hs, t, hto, hlt⟩
      exact ⟨hs, t, hlast hs ▸ hto, hlt⟩
    · rintro ⟨hs, t, hto, hlt⟩
      exact ⟨hs, t, (hlast hs).trans hto, hlt⟩
  rcases maybeTransition_cases c now s.breaker with heq | ⟨hs, ⟨t, hto, hle⟩, heq⟩
  · have hsame : m.after.breaker = s.breaker := hafter.trans heq
    constructor
    · apply ht.stay hcons
      · rw [hsame]
      · rw [hsame]
      · rw [hsame, hout]
        exact ht.fails
      · rw [hsame, hout]
        exact ht.successes
    · constructor <;> simp_all [m]
  · have hnew : m.after.breaker = { s.breaker with state := .halfOpen, halfOpenSuccessCount := 0 } :=
      hafter.trans heq
    have hfrom : m.before.breaker.state = .opened := hs
    have hto' : m.after.breaker.state = .halfOpen := by rw [hnew]
    have hzero : s.breaker.failCount = 0 := ht.consistent.failCount_zero (by simp [hs])
    have hnot : ¬Opens m := by simp [Opens, hfrom]
    constructor
    · apply Tallied.enter hcons
      · simp [hfrom, hto']
      · rw [hnew]
        exact hzero
      · rw [hnew]
      · intro _
        rw [lastOpening_of_not_opens hnot, hnew]
        exact hlast hs
    · constructor
      · simp [hfrom]
      · exact fun _ _ => ⟨rfl, t, hlast hs ▸ hto, hle⟩
      · simp [hfrom]
      · simp [hfrom]
      · simp [hfrom, hto']
      · exact fun _ => hraises

/-- An open breaker ignores what is recorded. -/
theorem Tallied.ignored (ht : Tallied c h m.before.breaker) (hs : m.before.breaker.state = .opened)
    (hm : m.after.breaker = m.before.breaker) (hop : m.label.op ≠ .beforeCall) :
    Tallied c (m :: h) m.after.breaker ∧ Lawful c h m := by
  constructor
  · apply ht.stay
    · exact hm ▸ ht.consistent
    · rw [hm]
    · rw [hm]
    · simp [hs]
    · simp [hs]
  · constructor <;> simp [hs, hm, hop]

theorem Tallied.recordSuccess (ht : Tallied c h s.breaker) :
    let m : BreakerMove T := ⟨s, ⟨now, .recordSuccess⟩, ⟨now, Circuit.recordSuccess c s.breaker⟩⟩
    Tallied c (m :: h) m.after.breaker ∧ Lawful c h m := by
  intro m
  have hcons : Consistent c m.after.breaker := ht.consistent.recordSuccess
  have hafter : m.after.breaker = Circuit.recordSuccess c s.breaker := rfl
  have hbefore : m.before.breaker = s.breaker := rfl
  have hop : m.label.op = .recordSuccess := rfl
  have hout : outcomes (m :: period h) = .success :: outcomes (period h) := rfl
  cases hs : s.breaker.state with
  | opened =>
    apply ht.ignored hs
    · rw [hafter, hbefore]
      simp [Circuit.recordSuccess, hs]
    · simp [hop]
  | halfOpen =>
    have hfrom : m.before.breaker.state = .halfOpen := hs
    have hcount : s.breaker.halfOpenSuccessCount = (outcomes (period h)).count .success :=
      ht.successes hs
    have hlt : s.breaker.halfOpenSuccessCount < c.halfOpenSuccessThreshold := ht.consistent.successCount_lt
    have hcounted : (outcomes (m :: period h)).count .success = s.breaker.halfOpenSuccessCount + 1 := by
      rw [hout, List.count_cons_self, hcount]
    by_cases hle : c.halfOpenSuccessThreshold ≤ s.breaker.halfOpenSuccessCount + 1
    · have hnew : m.after.breaker = {} := by
        rw [hafter]
        simp [Circuit.recordSuccess, hs, hle]
      have hcloses : (outcomes (m :: period h)).count .success = c.halfOpenSuccessThreshold := by omega
      constructor
      · apply Tallied.enter hcons <;> simp [hfrom, hnew]
      · constructor <;> simp [hfrom, hnew, hop, hcloses]
    · have hnew : m.after.breaker =
          { s.breaker with halfOpenSuccessCount := s.breaker.halfOpenSuccessCount + 1 } := by
        rw [hafter]
        simp [Circuit.recordSuccess, hs, hle]
      have hopens : (outcomes (m :: period h)).count .success ≠ c.halfOpenSuccessThreshold := by omega
      constructor
      · apply ht.stay hcons
        · rw [hnew]
        · rw [hnew]
        · simp [hfrom]
        · intro _
          rw [hnew, hcounted]
      · constructor <;> simp [hfrom, hnew, hop, hs, hopens]
  | closed =>
    have hfrom : m.before.breaker.state = .closed := hs
    have hnew : m.after.breaker = { s.breaker with failCount := 0 } := by
      rw [hafter]
      simp [Circuit.recordSuccess, hs]
    have hstreak : streak .failure (outcomes (m :: period h)) = 0 := by
      rw [hout]
      exact streak_cons_of_ne (by simp)
    constructor
    · apply ht.stay hcons
      · rw [hnew]
      · rw [hnew]
      · intro _
        rw [hnew, hstreak]
      · simp [hfrom]
    · constructor <;> simp [hfrom, hnew, hop, hs]

theorem Tallied.recordFailure (ht : Tallied c h s.breaker) :
    let m : BreakerMove T := ⟨s, ⟨now, .recordFailure⟩, ⟨now, Circuit.recordFailure c now s.breaker⟩⟩
    Tallied c (m :: h) m.after.breaker ∧ Lawful c h m := by
  intro m
  have hcons : Consistent c m.after.breaker := ht.consistent.recordFailure
  have hafter : m.after.breaker = Circuit.recordFailure c now s.breaker := rfl
  have hbefore : m.before.breaker = s.breaker := rfl
  have hop : m.label.op = .recordFailure := rfl
  have hout : outcomes (m :: period h) = .failure :: outcomes (period h) := rfl
  cases hs : s.breaker.state with
  | opened =>
    apply ht.ignored hs
    · rw [hafter, hbefore]
      simp [Circuit.recordFailure, hs]
    · simp [hop]
  | halfOpen =>
    have hfrom : m.before.breaker.state = .halfOpen := hs
    have hnew : m.after.breaker = { state := .opened, openedAt := some now } := by
      rw [hafter]
      simp [Circuit.recordFailure, hs]
    have hopen : Opens m := by simp [Opens, hfrom, hnew]
    have hlast : lastOpening (m :: h) = some now := lastOpening_of_opens hopen
    constructor
    · apply Tallied.enter hcons <;> simp [hfrom, hnew, hlast]
    · constructor <;> simp [hfrom, hnew, hop]
  | closed =>
    have hfrom : m.before.breaker.state = .closed := hs
    have hcount : s.breaker.failCount = streak .failure (outcomes (period h)) := ht.fails hs
    have hstreak : streak .failure (outcomes (m :: period h)) = s.breaker.failCount + 1 := by
      rw [hout, streak_cons_self, hcount]
    have hzero : s.breaker.halfOpenSuccessCount = 0 := ht.consistent.successCount_zero (by simp [hs])
    by_cases hle : c.failureThreshold ≤ s.breaker.failCount + 1
    · have hnew : m.after.breaker =
          { s.breaker with state := .opened, failCount := 0, openedAt := some now } := by
        rw [hafter]
        simp [Circuit.recordFailure, hs, hle]
      have hopen : Opens m := by simp [Opens, hfrom, hnew]
      have hlast : lastOpening (m :: h) = some now := lastOpening_of_opens hopen
      constructor
      · apply Tallied.enter hcons <;> simp [hfrom, hnew, hlast, hzero]
      · constructor <;> simp [hfrom, hnew, hop, take_eq_replicate_iff, hstreak, hle]
    · have hnew : m.after.breaker = { s.breaker with failCount := s.breaker.failCount + 1 } := by
        rw [hafter]
        simp [Circuit.recordFailure, hs, hle]
      constructor
      · apply ht.stay hcons
        · rw [hnew]
        · rw [hnew]
        · intro _
          rw [hnew, hstreak]
        · simp [hfrom]
      · constructor <;> simp [hfrom, hnew, hop, hs, take_eq_replicate_iff, hstreak, hle]

theorem tallied_step {s' : Timed T} {r : Request T} (ht : Tallied c h s.breaker)
    (hs : step c s r = some s') : Tallied c (⟨s, r, s'⟩ :: h) s'.breaker ∧ Lawful c h ⟨s, r, s'⟩ := by
  obtain ⟨now, op⟩ := r
  cases hs
  cases op with
  | beforeCall => exact ht.beforeCall
  | recordSuccess => exact ht.recordSuccess
  | recordFailure => exact ht.recordFailure

theorem tallied_of_run {t₀ : T} (hrun : Run (step c) InOrder ⟨t₀, {}⟩ h s) : Tallied c h s.breaker :=
  hrun.inv (I := fun h s => Tallied c h s.breaker) tallied_init fun _ _ _ _ ht _ hs =>
    (tallied_step ht hs).1

theorem lawful_of_run {t₀ : T} (hrun : Run (step c) InOrder ⟨t₀, {}⟩ h s) {h' : List (BreakerMove T)}
    (hm : m :: h' <:+ h) : Lawful c h' m :=
  hrun.forall_moves (I := fun h s => Tallied c h s.breaker) tallied_init
    (fun _ _ _ _ ht _ hs => tallied_step ht hs) hm

/-- In every state of every run the fields are consistent, and every move is lawful. -/
theorem breaker_follows_history {t₀ : T} (hrun : Run (step c) InOrder ⟨t₀, {}⟩ h s) :
    Consistent c s.breaker ∧ ∀ m h', m :: h' <:+ h → Lawful c h' m :=
  ⟨(tallied_of_run hrun).consistent, fun _ _ hm => lawful_of_run hrun hm⟩

end Steps

/-- Three failures open the breaker, one call is refused, a later probe closes it. -/
def recovery : List (Request ℤ) :=
  [⟨0, .recordFailure⟩, ⟨1, .recordFailure⟩, ⟨2, .recordFailure⟩, ⟨9, .beforeCall⟩,
    ⟨30, .beforeCall⟩, ⟨31, .recordSuccess⟩]

theorem breaker_follows_history_recovery : ∃ h s, Run (step dbCircuit) InOrder ⟨(0 : ℤ), {}⟩ h s ∧
    s.breaker.state = .closed ∧ h.length = 6 ∧ Consistent dbCircuit s.breaker ∧
      ∀ m h', m :: h' <:+ h → Lawful dbCircuit h' m := by
  have hexec : (exec (step dbCircuit) InOrder [] ⟨(0 : ℤ), {}⟩ recovery).map
      (fun r => (r.2.breaker.state, r.1.length)) = some (.closed, 6) := by decide
  obtain ⟨⟨h, s⟩, hs, heq⟩ := Option.map_eq_some_iff.mp hexec
  have hrun := run_of_exec hs
  exact ⟨h, s, hrun, congrArg Prod.fst heq, congrArg Prod.snd heq, breaker_follows_history hrun⟩

end Phyllonix.Circuit
