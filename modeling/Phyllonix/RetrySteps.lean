import Phyllonix.DbRetries

/-!
# What one step of a call does

A step begins an attempt, takes a permit, carries an attempt on or ends it. Every
invariant over concurrent calls is derived from this classification.
-/

namespace Phyllonix.Circuit
open Transition
variable {T : Type}

/-- The attempt whose exception reaches the handler, with that exception. -/
def Call.failure (call : Call) : Phase → Act → Option (ℕ × Exn)
  | .running k _, .raises exc =>
    if call.wrapper = .retryWithDbCircuit then some (k, exc) else none
  | .rollingBack k _ (some exc), .returns => some (k, exc)
  | _, _ => none

/-- The step begins an attempt, with `before_call` first. -/
def Call.begins (call : Call) : Phase → Act → Bool
  | .ready, .returns => 1 ≤ call.attempts
  | .sleeping k, .returns => call.wrapper = .retryWithDbCircuit ∧ k + 1 ≤ call.attempts
  | .closing (.again k), .returns => k + 1 ≤ call.attempts
  | _, _ => false

/-- A transaction that acquired a permit is left without a further attempt. -/
def Call.leaks (call : Call) : Phase → Act → Bool
  | .rollingBack k true (some exc), .returns => call.givesUp k exc
  | .rollingBack _ true none, .returns => true
  | .rollingBack _ true _, .raises _ => true
  | .rollingBack _ true _, .cancelled => true
  | _, _ => false

/-- The steps of a call, by what they do to the breaker and to the semaphore. -/
inductive Advanced [LinearOrder T] [Sub T] (c : CircuitConfig T) (now : T) (call : Call)
    (s : DbCircuit T) (p : Phase) (a : Act) : List Effect → Phase → Prop
  | refused {p' : Phase} : p.Idle → call.begins p a = true → p'.Idle →
      (beforeCall c now s.breaker).1.state = .opened → Advanced c now call s p a [.beforeCall] p'
  | queued {k : ℕ} : p.Idle → call.begins p a = true →
      (beforeCall c now s.breaker).1.state = .halfOpen → Advanced c now call s p a [.beforeCall] (.probing k)
  | entered {k : ℕ} : p.Idle → call.begins p a = true →
      (beforeCall c now s.breaker).1.state = .closed → Advanced c now call s p a [.beforeCall] (.running k false)
  | granted {k : ℕ} : p = .probing k → 0 < s.permits →
      Advanced c now call s p a [.acquire] (.running k true)
  | suspended {k : ℕ} {probe : Bool} {p' : Phase} : p.attempt = some (k, probe) →
      p'.attempt = some (k, probe) →
      (p = .running k probe → call.wrapper = .retryTransactionWithDbCircuit) →
      call.failure p a = none → call.leaks p a = false → Advanced c now call s p a [] p'
  | succeeded {k : ℕ} {probe : Bool} {p' : Phase} : p.attempt = some (k, probe) → p'.Idle →
      a = .returns → call.failure p a = none → call.leaks p a = false →
      Advanced c now call s p a (releaseProbe probe ++ [.recordSuccess]) p'
  | failed {k : ℕ} {probe : Bool} {exc : Exn} : p.attempt = some (k, probe) →
      call.failure p a = some (k, exc) → call.givesUp k exc = false → call.leaks p a = false →
      Advanced c now call s p a (releaseProbe probe ++ [.recordFailure]) (.sleeping k)
  | ended {k : ℕ} {probe : Bool} {p' : Phase} : p.attempt = some (k, probe) → p'.Idle →
      (∀ exc, call.failure p a = some (k, exc) → call.givesUp k exc = true) →
      call.leaks p a = false → Advanced c now call s p a (releaseProbe probe) p'
  | leaked {k : ℕ} {p' : Phase} : p.attempt = some (k, true) → p'.Idle →
      (∀ exc, call.failure p a = some (k, exc) → call.givesUp k exc = true) →
      call.leaks p a = true → Advanced c now call s p a [] p'
  | idled {p' : Phase} : p.attempt = none → p'.Idle → Advanced c now call s p a [] p'

section Attempts
variable {call : Call} {p : Phase} {a : Act} {k : ℕ}

@[simp] theorem attempt_ready : Phase.attempt .ready = none := rfl
@[simp] theorem attempt_probing : Phase.attempt (.probing k) = none := rfl
@[simp] theorem attempt_sleeping : Phase.attempt (.sleeping k) = none := rfl
@[simp] theorem attempt_closing {next : Next} : Phase.attempt (.closing next) = none := rfl
@[simp] theorem attempt_over {reply : Reply} : Phase.attempt (.over reply) = none := rfl

@[simp] theorem attempt_running {probe : Bool} :
    Phase.attempt (.running k probe) = some (k, probe) := rfl

@[simp] theorem attempt_committing {probe : Bool} :
    Phase.attempt (.committing k probe) = some (k, probe) := rfl

@[simp] theorem attempt_rollingBack {probe : Bool} {exc : Option Exn} :
    Phase.attempt (.rollingBack k probe exc) = some (k, probe) := rfl

theorem idle_ready : Phase.Idle .ready := ⟨rfl, by simp [Phase.Waiting]⟩
theorem idle_sleeping : Phase.Idle (.sleeping k) := ⟨rfl, by simp [Phase.Waiting]⟩
theorem idle_closing {next : Next} : Phase.Idle (.closing next) := ⟨rfl, by simp [Phase.Waiting]⟩
theorem idle_over {reply : Reply} : Phase.Idle (.over reply) := ⟨rfl, by simp [Phase.Waiting]⟩

theorem waiting_probing : Phase.Waiting (.probing k) := trivial

theorem not_waiting_of_attempt {x : ℕ × Bool} (hp : p.attempt = some x) : ¬p.Waiting := by
  cases p <;> simp [Phase.Waiting] at hp ⊢

end Attempts

section Steps
variable [LinearOrder T] [Sub T] {c : CircuitConfig T} {now : T} {call : Call} {s : DbCircuit T}
  {p p' : Phase} {a : Act} {es : List Effect}

theorem Consistent.effects (hs : Consistent c s.breaker) :
    Consistent c (es.foldl (Effect.apply c now) s).breaker := by
  induction es generalizing s with
  | nil => exact hs
  | cons e es ih =>
    apply ih
    cases e with
    | beforeCall =>
      change Consistent c (Circuit.beforeCall c now s.breaker).1
      rw [beforeCall_fst]
      exact hs.maybeTransition
    | acquire => exact hs
    | release => exact hs
    | recordSuccess => exact hs.recordSuccess
    | recordFailure => exact hs.recordFailure

theorem foldl_releaseProbe {now : T} {es : List Effect} {s : DbCircuit T} {probe : Bool} :
    (releaseProbe probe ++ es).foldl (Effect.apply c now) s =
      es.foldl (Effect.apply c now) { s with permits := s.permits + probe.toNat } := by
  cases probe <;> rfl

theorem foldl_releaseProbe_only {s : DbCircuit T} {probe : Bool} :
    (releaseProbe probe).foldl (Effect.apply c now) s = { s with permits := s.permits + probe.toNat } := by
  cases probe <;> rfl

theorem beginAttempt_cases {k : ℕ} (hp : p.Idle)
    (hbegins : k ≤ call.attempts → call.begins p a = true) (h : call.beginAttempt c now s k = (es, p')) :
    Advanced c now call s p a es p' := by
  unfold Call.beginAttempt at h
  split at h
  · cases h
    exact .idled hp.1 idle_over
  · rename_i hk
    have hbegin := hbegins (by omega)
    generalize hb : beforeCall c now s.breaker = r at h
    obtain ⟨b, answer⟩ := r
    cases answer with
    | error e =>
      cases h
      have hopen : b.state = .opened := by
        by_contra hne
        have hok := beforeCall_ok.mpr (show (beforeCall c now s.breaker).1.state ≠ .opened by rwa [hb])
        simp [hb] at hok
      exact .refused hp hbegin idle_over (by rwa [hb])
    | ok u =>
      have hne : b.state ≠ .opened := by
        have hok := beforeCall_ok.mp (show (beforeCall c now s.breaker).2 = .ok () by rw [hb])
        rwa [hb] at hok
      dsimp only at h
      split at h
      · rename_i hs
        cases h
        exact .queued hp hbegin (by rwa [hb])
      · rename_i hs
        cases h
        refine .entered hp hbegin ?_
        rw [hb]
        cases hst : b.state with
        | closed => rfl
        | opened => exact absurd hst hne
        | halfOpen => exact absurd hst hs

theorem running_cases {k : ℕ} {probe : Bool}
    (h : call.advance c now s (.running k probe) a = some (es, p')) :
    Advanced c now call s (.running k probe) a es p' := by
  unfold Call.advance at h
  dsimp only at h
  split at h
  · cases h
    exact .succeeded rfl idle_over rfl rfl rfl
  · cases h
    exact .ended rfl idle_over (by simp [Call.failure]) rfl
  · rename_i exc hw
    have hfail : call.failure (.running k probe) (.raises exc) = some (k, exc) := by
      simp [Call.failure, hw]
    split at h
    · rename_i hg
      cases h
      refine .ended rfl idle_over (fun exc' he => ?_) rfl
      cases hfail.symm.trans he
      exact hg
    · rename_i hg
      cases h
      exact .failed rfl hfail (by simpa using hg) rfl
  · rename_i hw
    cases h
    exact .suspended rfl rfl (fun _ => hw) rfl rfl
  · rename_i hw
    cases h
    exact .suspended rfl rfl (fun _ => hw) rfl rfl
  · rename_i exc hw
    cases h
    exact .suspended rfl rfl (fun _ => hw) (by simp [Call.failure, hw]) rfl
  · cases h

/-- Leaving a transaction without giving its permit back. -/
theorem rollingBack_left {k : ℕ} {probe : Bool} {exc : Option Exn} (hidle : p'.Idle)
    (hfail : ∀ e, call.failure (.rollingBack k probe exc) a = some (k, e) → call.givesUp k e = true)
    (hleaks : call.leaks (.rollingBack k probe exc) a = probe) :
    Advanced c now call s (.rollingBack k probe exc) a [] p' := by
  cases probe with
  | false =>
    change Advanced c now call s _ a (releaseProbe false) p'
    exact .ended rfl hidle hfail hleaks
  | true => exact .leaked rfl hidle hfail hleaks

theorem rollingBack_cases {k : ℕ} {probe : Bool} {exc : Option Exn}
    (h : call.advance c now s (.rollingBack k probe exc) a = some (es, p')) :
    Advanced c now call s (.rollingBack k probe exc) a es p' := by
  cases a with
  | returns =>
    cases exc with
    | none =>
      cases h
      exact rollingBack_left idle_closing (by simp [Call.failure]) (by cases probe <;> rfl)
    | some exc =>
      have hfail : call.failure (.rollingBack k probe (some exc)) .returns = some (k, exc) := rfl
      simp only [Call.advance] at h
      split at h
      · rename_i hg
        cases h
        refine rollingBack_left idle_closing (fun e he => ?_) ?_
        · cases hfail.symm.trans he
          exact hg
        · cases probe <;> simp [Call.leaks, hg]
      · rename_i hg
        cases h
        exact .failed rfl hfail (by simpa using hg) (by cases probe <;> simp [Call.leaks, hg])
  | raises e =>
    have heq : ([], Phase.closing (.answer (.raised e))) = (es, p') := by
      cases exc <;> exact Option.some.inj h
    cases heq
    exact rollingBack_left idle_closing (by cases exc <;> simp [Call.failure])
      (by cases probe <;> cases exc <;> rfl)
  | timesOut => cases exc <;> cases h
  | cancelled =>
    have heq : ([], Phase.closing (.answer .cancelled)) = (es, p') := by
      cases exc <;> exact Option.some.inj h
    cases heq
    exact rollingBack_left idle_closing (by cases exc <;> simp [Call.failure])
      (by cases probe <;> cases exc <;> rfl)

theorem advance_cases (h : call.advance c now s p a = some (es, p')) :
    Advanced c now call s p a es p' := by
  cases p with
  | running k probe => exact running_cases h
  | ready =>
    cases a <;> simp only [Call.advance, Option.some.injEq, reduceCtorEq] at h
    · exact beginAttempt_cases idle_ready (by simp [Call.begins]) h
    · cases h
      exact .idled rfl idle_over
  | probing k =>
    cases a <;> simp only [Call.advance, Option.some.injEq, reduceCtorEq] at h
    · split at h
      · rename_i hpos
        cases h
        exact .granted rfl hpos
      · cases h
    · cases h
      exact .idled rfl idle_over
    · cases h
      exact .idled rfl idle_over
  | committing k probe =>
    cases a <;> simp only [Call.advance, Option.some.injEq, reduceCtorEq] at h <;> cases h
    · exact .succeeded rfl idle_closing rfl rfl rfl
    · exact .suspended rfl rfl nofun rfl rfl
    · exact .suspended rfl rfl nofun rfl rfl
  | rollingBack k probe exc => exact rollingBack_cases h
  | sleeping k =>
    cases a <;> simp only [Call.advance, reduceCtorEq] at h
    · split at h
      · rename_i hw
        exact beginAttempt_cases idle_sleeping (by simp [Call.begins, hw]) (Option.some.inj h)
      · cases h
        exact .idled rfl idle_closing
    · split at h
      · cases h
        exact .idled rfl idle_over
      · cases h
        exact .idled rfl idle_closing
  | closing next =>
    cases a with
    | returns =>
      cases next with
      | again k => exact beginAttempt_cases idle_closing (by simp [Call.begins]) (Option.some.inj h)
      | answer reply =>
        cases h
        exact .idled rfl idle_over
    | raises exc =>
      cases next <;> cases h <;> exact .idled rfl idle_over
    | timesOut => cases next <;> cases h
    | cancelled =>
      cases next <;> cases h <;> exact .idled rfl idle_over
  | _ => cases a <;> cases h

/-- A step of the system is a step of one call. -/
theorem step_cases {n : ℕ} {calls : Fin n → Call} {s s' : Calls T n} {l : Label T n}
    (h : Calls.step c calls s l = some s') : ∃ es p',
      Advanced c l.now (calls l.task) s.circuit (s.phase l.task) l.act es p' ∧
      effects c calls ⟨s, l, s'⟩ = es ∧
      s' = ⟨l.now, es.foldl (Effect.apply c l.now) s.circuit, Function.update s.phase l.task p'⟩ := by
  obtain ⟨⟨es, p'⟩, hadv, hs⟩ := Option.map_eq_some_iff.mp h
  refine ⟨es, p', advance_cases hadv, ?_, hs.symm⟩
  simp [effects, hadv]

end Steps

/-- The moves since the breaker's state last changed. -/
def Calls.period {n : ℕ} (h : List (CallMove T n)) : List (CallMove T n) := since (·.circuit.breaker.state) h

section Periods
variable {n : ℕ} {h : List (CallMove T n)} {m : CallMove T n}

theorem period_of_kept
    (hm : m.after.circuit.breaker.state = m.before.circuit.breaker.state) :
    Calls.period (m :: h) = m :: Calls.period h := since_of_same hm.symm

theorem period_of_changed
    (hm : m.after.circuit.breaker.state ≠ m.before.circuit.breaker.state) :
    Calls.period (m :: h) = [] := since_of_change (Ne.symm hm)

end Periods

/-- A driver error that is worth a retry. -/
def connectionLost : Exn := { isTransient := true }

/-- Two calls fail three times within two seconds; each failure is recorded. -/
def threeFailures {n : ℕ} (i j : Fin n) : List (Label ℤ n) :=
  [⟨0, i, .returns⟩, ⟨0, i, .raises connectionLost⟩, ⟨1, i, .returns⟩, ⟨1, i, .raises connectionLost⟩,
    ⟨2, j, .returns⟩, ⟨2, j, .raises connectionLost⟩]

end Phyllonix.Circuit
