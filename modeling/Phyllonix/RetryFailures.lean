import Phyllonix.ProbePermits
import Phyllonix.CircuitProbes

/-!
# Failures that reach the breaker

Calls of `retry_with_db_circuit` made one after another. A recoverable failure is recorded
on the way to the next attempt and nowhere else.
-/

namespace Phyllonix.Circuit
open Transition
variable {T : Type} {n : ℕ}

def Phase.InProgress : Phase → Prop
  | .ready | .over _ => False
  | _ => True

instance : DecidablePred Phase.InProgress
  | .ready | .over _ => .isFalse id
  | .probing _ | .running .. | .committing .. | .rollingBack .. | .sleeping _ | .closing _ => .isTrue trivial

/-- One call is over before the next one begins. -/
def OneAtATime [LinearOrder T] (s : Calls T n) (l : Label T n) : Prop :=
  s.InOrder l ∧ ∀ j, j ≠ l.task → ¬(s.phase j).InProgress

instance [LinearOrder T] (s : Calls T n) (l : Label T n) : Decidable (OneAtATime s l) :=
  inferInstanceAs (Decidable (_ ∧ _))

inductive AttemptOutcome
  | succeeded
  | failedRecoverably
  | endedOtherwise
  deriving DecidableEq

/-- How a step ends the attempt that the wrapped function is being executed for. -/
def Call.outcome (call : Call) : Phase → Act → Option AttemptOutcome
  | .running _ _, .returns => some .succeeded
  | .running _ _, .raises exc => some (if call.retryable exc then .failedRecoverably else .endedOtherwise)
  | .running _ _, .cancelled => some .endedOtherwise
  | _, _ => none

/-- A recoverable failure of the last attempt of a call. -/
def Call.failsLast (call : Call) : Phase → Act → Bool
  | .running k _, .raises exc => call.retryable exc && k == call.attempts
  | _, _ => false

section Moves
variable (calls : Fin n → Call)

def attemptOutcome (m : CallMove T n) : Option AttemptOutcome :=
  (calls m.label.task).outcome (m.before.phase m.label.task) m.label.act

def attemptOutcomes (h : List (CallMove T n)) : List AttemptOutcome := h.filterMap (attemptOutcome calls)

def FailsLast (m : CallMove T n) : Bool :=
  (calls m.label.task).failsLast (m.before.phase m.label.task) m.label.act

def NotLast (s : Calls T n) (l : Label T n) : Prop :=
  (calls l.task).failsLast (s.phase l.task) l.act = false

/-- The breaker hears of a recoverable failure, once, and acts on it. -/
structure FailureRecorded [LinearOrder T] [Sub T] (c : CircuitConfig T) (h : List (CallMove T n))
    (m : CallMove T n) : Prop where
  once : (effects c calls m).count .recordFailure =
    if attemptOutcome calls m = some .failedRecoverably then 1 else 0
  opens : m.before.circuit.breaker.state = .closed →
    (attemptOutcomes calls (m :: Calls.period h)).take c.failureThreshold =
      List.replicate c.failureThreshold .failedRecoverably →
    m.after.circuit.breaker.state = .opened
  reopens : (m.before.phase m.label.task).holds = true →
    attemptOutcome calls m = some .failedRecoverably → m.after.circuit.breaker.state = .opened

end Moves

/-- What the calls and the counter say while the calls come one after another. -/
structure Sequential [LinearOrder T] [Sub T] (c : CircuitConfig T) (calls : Fin n → Call)
    (h : List (CallMove T n)) (s : Calls T n) : Prop where
  consistent : Consistent c s.circuit.breaker
  running : ∀ i k probe, (s.phase i).attempt = some (k, probe) → s.phase i = .running k probe
  probes : ∀ i, (s.phase i).Waiting ∨ (s.phase i).holds = true → s.circuit.breaker.state = .halfOpen
  counted : s.circuit.breaker.state = .closed →
    streak .failedRecoverably (attemptOutcomes calls (Calls.period h)) ≤ s.circuit.breaker.failCount

section Outcomes
variable {call : Call} {p : Phase} {a : Act}

theorem outcome_recoverable (h : call.outcome p a = some .failedRecoverably) :
    ∃ k probe exc, p = .running k probe ∧ a = .raises exc ∧ call.retryable exc = true := by
  unfold Call.outcome at h
  split at h
  · simp at h
  · rename_i k probe exc
    split at h
    · rename_i hr
      exact ⟨k, probe, exc, rfl, rfl, hr⟩
    · simp at h
  · simp at h
  · simp at h

theorem outcome_of_no_attempt (hp : p.attempt = none) : call.outcome p a = none := by
  unfold Call.outcome
  split <;> simp_all

theorem failure_of_raises {k : ℕ} {probe : Bool} {exc : Exn} (hw : call.wrapper = .retryWithDbCircuit) :
    call.failure (.running k probe) (.raises exc) = some (k, exc) := by
  simp [Call.failure, hw]

theorem failure_running {k k' : ℕ} {probe : Bool} {exc : Exn}
    (hf : call.failure (.running k probe) a = some (k', exc)) : a = .raises exc ∧ k' = k := by
  cases a with
  | raises e =>
    simp only [Call.failure] at hf
    split at hf
    · cases hf
      exact ⟨rfl, rfl⟩
    · cases hf
  | returns => simp [Call.failure] at hf
  | timesOut => simp [Call.failure] at hf
  | cancelled => simp [Call.failure] at hf

theorem count_releaseProbe {probe : Bool} : (releaseProbe probe).count .recordFailure = 0 := by
  cases probe <;> rfl

end Outcomes

section Histories
variable {calls : Fin n → Call} {h : List (CallMove T n)}

theorem attemptOutcomes_cons {m : CallMove T n} : attemptOutcomes calls (m :: h) =
    (attemptOutcome calls m).toList ++ attemptOutcomes calls h := by
  simp only [attemptOutcomes, List.filterMap_cons]
  cases attemptOutcome calls m <;> rfl

/-- An attempt that ends without a recoverable failure ends the streak. -/
theorem streak_of_other {m : CallMove T n} (hm : attemptOutcome calls m ≠ some .failedRecoverably) :
    attemptOutcome calls m = none ∨
      streak .failedRecoverably (attemptOutcomes calls (m :: h)) = 0 := by
  rw [attemptOutcomes_cons]
  cases ho : attemptOutcome calls m with
  | none => exact Or.inl rfl
  | some o =>
    have hne : o ≠ .failedRecoverably := fun heq => hm (by rw [ho, heq])
    exact Or.inr (streak_cons_of_ne hne)

end Histories

section Steps
variable [LinearOrder T] [Sub T] {c : CircuitConfig T} {calls : Fin n → Call} {t₀ : T}
  {h : List (CallMove T n)} {s s' : Calls T n} {l : Label T n} {p' : Phase}

/-- A recoverable failure that is not the call's last is recorded, and nothing else is. -/
theorem recorded_cases {es : List Effect} (hplain : (calls l.task).wrapper = .retryWithDbCircuit)
    (hrunning : ∀ k probe, (s.phase l.task).attempt = some (k, probe) →
      s.phase l.task = .running k probe)
    (hlast : (calls l.task).failsLast (s.phase l.task) l.act = false)
    (hadv : Advanced c l.now (calls l.task) s.circuit (s.phase l.task) l.act es p') :
    es.count .recordFailure = 0 ∧
        (calls l.task).outcome (s.phase l.task) l.act ≠ some .failedRecoverably ∨
      es.count .recordFailure = 1 ∧
        (calls l.task).outcome (s.phase l.task) l.act = some .failedRecoverably ∧
        (es.foldl (Effect.apply c l.now) s.circuit).breaker =
          recordFailure c l.now s.circuit.breaker := by
  -- without a failure that reaches the handler nothing recoverable has happened
  have hnone : ∀ {k probe}, (s.phase l.task).attempt = some (k, probe) →
      (∀ exc, (calls l.task).failure (s.phase l.task) l.act = some (k, exc) →
        (calls l.task).givesUp k exc = true) →
      (calls l.task).outcome (s.phase l.task) l.act ≠ some .failedRecoverably := by
    intro k probe hp hgives hout
    obtain ⟨k', probe', exc, hrun, hact, hretry⟩ := outcome_recoverable hout
    have hk : k' = k := by simpa [hrun] using congrArg (Option.map Prod.fst) hp
    subst hk
    have hfail : (calls l.task).failure (s.phase l.task) l.act = some (k', exc) := by
      rw [hrun, hact]
      exact failure_of_raises hplain
    have hgive := hgives exc hfail
    simp [Call.failsLast, hrun, hact, hretry] at hlast
    simp [Call.givesUp, hretry, hlast] at hgive
  have hidle : (s.phase l.task).attempt = none →
      (calls l.task).outcome (s.phase l.task) l.act ≠ some .failedRecoverably := by
    intro hp
    simp [outcome_of_no_attempt hp]
  cases hadv with
  | refused hp hb hp' hst => exact Or.inl ⟨by simp, hidle hp.1⟩
  | queued hp hb hst => exact Or.inl ⟨by simp, hidle hp.1⟩
  | entered hp hb hst => exact Or.inl ⟨by simp, hidle hp.1⟩
  | granted hp hpos => exact Or.inl ⟨by simp, hidle (by simp [hp])⟩
  | suspended hp hp' hw hf hl => exact Or.inl ⟨by simp, hnone hp (by simp [hf])⟩
  | succeeded hp hp' ha hf hl =>
    exact Or.inl ⟨by simp [count_releaseProbe], hnone hp (by simp [hf])⟩
  | @failed k probe exc hp hf hg hl =>
    have hrun := hrunning k probe hp
    rw [hrun] at hf
    obtain ⟨hact, -⟩ := failure_running hf
    have hretry : (calls l.task).retryable exc = true := by
      by_contra hno
      simp [Call.givesUp, hno] at hg
    refine Or.inr ⟨by simp [count_releaseProbe], ?_, by rw [foldl_releaseProbe]; rfl⟩
    simp [hrun, hact, Call.outcome, hretry]
  | ended hp hp' hf hl => exact Or.inl ⟨count_releaseProbe, hnone hp hf⟩
  | leaked hp hp' hf hl => exact Or.inl ⟨by simp, hnone hp hf⟩
  | idled hp hp' => exact Or.inl ⟨by simp, hidle hp⟩

theorem running_step {es : List Effect} (hplain : (calls l.task).wrapper = .retryWithDbCircuit)
    (hrunning : ∀ k probe, (s.phase l.task).attempt = some (k, probe) →
      s.phase l.task = .running k probe)
    (hadv : Advanced c l.now (calls l.task) s.circuit (s.phase l.task) l.act es p') {k : ℕ} {probe : Bool}
    (hp' : p'.attempt = some (k, probe)) : p' = .running k probe := by
  cases hadv with
  | refused hp hb hidle hst => simp [hidle.1] at hp'
  | queued hp hb hst => simp at hp'
  | entered hp hb hst => simpa using hp'
  | granted hp hpos => simpa using hp'
  | suspended hp hatt hw hf hl =>
    have htxn := hw (hrunning _ _ hp)
    simp [hplain] at htxn
  | succeeded hp hidle ha hf hl => simp [hidle.1] at hp'
  | failed hp hf hg hl => simp at hp'
  | ended hp hidle hf hl => simp [hidle.1] at hp'
  | leaked hp hidle hf hl => simp [hidle.1] at hp'
  | idled hp hidle => simp [hidle.1] at hp'

/-- While calls come one at a time, whoever waits or probes finds the breaker half-open. -/
theorem probes_step {es : List Effect}
    (hprobes : (s.phase l.task).Waiting ∨ (s.phase l.task).holds = true →
      s.circuit.breaker.state = .halfOpen)
    (hplain : (calls l.task).wrapper = .retryWithDbCircuit)
    (hrunning : ∀ k probe, (s.phase l.task).attempt = some (k, probe) →
      s.phase l.task = .running k probe)
    (hadv : Advanced c l.now (calls l.task) s.circuit (s.phase l.task) l.act es p')
    (hp' : p'.Waiting ∨ p'.holds = true) :
    (es.foldl (Effect.apply c l.now) s.circuit).breaker.state = .halfOpen := by
  have hidle : ∀ {p : Phase}, p.Idle → ¬(p.Waiting ∨ p.holds = true) := by
    rintro p hi (hw | hh)
    · exact hi.2 hw
    · simp [not_holds_of_attempt hi.1] at hh
  cases hadv with
  | refused hp hb hi hst => exact absurd hp' (hidle hi)
  | queued hp hb hst => exact hst
  | entered hp hb hst => simp [Phase.Waiting] at hp'
  | granted hp hpos => exact hprobes (Or.inl (hp ▸ waiting_probing))
  | suspended hp hatt hw hf hl =>
    have htxn := hw (hrunning _ _ hp)
    simp [hplain] at htxn
  | succeeded hp hi ha hf hl => exact absurd hp' (hidle hi)
  | failed hp hf hg hl => exact absurd hp' (hidle idle_sleeping)
  | ended hp hi hf hl => exact absurd hp' (hidle hi)
  | leaked hp hi hf hl => exact absurd hp' (hidle hi)
  | idled hp hi => exact absurd hp' (hidle hi)

/-- Steps that end no attempt leave a closed breaker as it is. -/
theorem breaker_kept {es : List Effect}
    (hrunning : ∀ k probe, (s.phase l.task).attempt = some (k, probe) →
      s.phase l.task = .running k probe)
    (hadv : Advanced c l.now (calls l.task) s.circuit (s.phase l.task) l.act es p')
    (hclosed : (es.foldl (Effect.apply c l.now) s.circuit).breaker.state = .closed)
    (hcount : es.count .recordFailure = 0)
    (hout : (calls l.task).outcome (s.phase l.task) l.act = none) :
    (es.foldl (Effect.apply c l.now) s.circuit).breaker = s.circuit.breaker := by
  cases hadv with
  | refused hp hb hi hst => exact beforeCall_closed hclosed
  | queued hp hb hst => exact beforeCall_closed hclosed
  | entered hp hb hst => exact beforeCall_closed hclosed
  | granted hp hpos => rfl
  | suspended hp hatt hw hf hl => rfl
  | succeeded hp hi ha hf hl =>
    rw [hrunning _ _ hp, ha] at hout
    simp [Call.outcome] at hout
  | failed hp hf hg hl => simp at hcount
  | ended hp hi hf hl => rw [foldl_releaseProbe_only]
  | leaked hp hi hf hl => rfl
  | idled hp hi => rfl

theorem idle_of_not_inProgress {p : Phase} (hp : ¬p.InProgress) : p.Idle := by
  cases p with
  | ready => exact idle_ready
  | probing k => exact absurd trivial hp
  | running k probe => exact absurd trivial hp
  | committing k probe => exact absurd trivial hp
  | rollingBack k probe exc => exact absurd trivial hp
  | sleeping k => exact absurd trivial hp
  | closing next => exact absurd trivial hp
  | _ => exact idle_over

theorem sequential_step (hplain : ∀ i, (calls i).wrapper = .retryWithDbCircuit)
    (hI : Sequential c calls h s) (hG : OneAtATime s l)
    (hlast : (calls l.task).failsLast (s.phase l.task) l.act = false)
    (hs : Calls.step c calls s l = some s') :
    Sequential c calls (⟨s, l, s'⟩ :: h) s' ∧ FailureRecorded calls c h ⟨s, l, s'⟩ := by
  obtain ⟨es, p', hadv, heff, hs'⟩ := step_cases hs
  have hcirc : s'.circuit = es.foldl (Effect.apply c l.now) s.circuit := by rw [hs']
  have hself : s'.phase l.task = p' := by simp [hs']
  have hother : ∀ i, i ≠ l.task → s'.phase i = s.phase i := fun i hi => by simp [hs', hi]
  have hrec := recorded_cases (hplain l.task) (hI.running l.task) hlast hadv
  have hmove : attemptOutcome calls ⟨s, l, s'⟩ = (calls l.task).outcome (s.phase l.task) l.act := rfl
  rw [← hcirc, ← heff, ← hmove] at hrec
  have hkept : s'.circuit.breaker.state = .closed →
      (effects c calls ⟨s, l, s'⟩).count .recordFailure = 0 →
      attemptOutcome calls ⟨s, l, s'⟩ = none → s'.circuit.breaker = s.circuit.breaker := by
    rw [hcirc, heff]
    exact fun hclosed hcount hout => breaker_kept (hI.running l.task) hadv hclosed hcount hout
  constructor
  · constructor
    · rw [hcirc]
      exact hI.consistent.effects
    · intro i k probe hi
      by_cases hil : i = l.task
      · subst hil
        rw [hself] at hi ⊢
        exact running_step (hplain l.task) (hI.running l.task) hadv hi
      · rw [hother i hil] at hi ⊢
        exact hI.running i k probe hi
    · intro i hi
      by_cases hil : i = l.task
      · subst hil
        rw [hself] at hi
        rw [hcirc]
        exact probes_step (hI.probes l.task) (hplain l.task) (hI.running l.task) hadv hi
      · rw [hother i hil] at hi
        have hidle := idle_of_not_inProgress (hG.2 i hil)
        simp [hidle.2, not_holds_of_attempt hidle.1] at hi
    · intro hclosed
      by_cases hstate : s'.circuit.breaker.state = s.circuit.breaker.state
      · have hbefore : s.circuit.breaker.state = .closed := hstate ▸ hclosed
        have hcount := hI.counted hbefore
        rw [period_of_kept hstate]
        rcases hrec with ⟨hnone, hout⟩ | ⟨-, hout, hb⟩
        · rcases streak_of_other (h := Calls.period h) hout with hout | hzero
          · rw [hkept hclosed hnone hout, attemptOutcomes_cons, hout]
            exact hcount
          · omega
        · have hlt : ¬c.failureThreshold ≤ s.circuit.breaker.failCount + 1 := by
            intro hle
            simp [hb, recordFailure, hbefore, hle] at hclosed
          have hnew : s'.circuit.breaker.failCount = s.circuit.breaker.failCount + 1 := by
            simp [hb, recordFailure, hbefore, hlt]
          rw [attemptOutcomes_cons, hout, hnew]
          simpa using hcount
      · rw [period_of_changed hstate]
        exact Nat.zero_le _
  · constructor
    · rcases hrec with ⟨hnone, hout⟩ | ⟨hone, hout, -⟩
      · rw [hnone, if_neg hout]
      · rw [hone, if_pos hout]
    · intro hbefore htake
      have hle := take_eq_replicate_iff.mp htake
      have hcount := hI.counted hbefore
      have hlt := hI.consistent.failCount_lt
      have hpos := c.failureThreshold_pos
      rcases hrec with ⟨-, hout⟩ | ⟨-, hout, hb⟩
      · rcases streak_of_other (h := Calls.period h) hout with hout | hzero
        · rw [attemptOutcomes_cons, hout] at hle
          simp only [Option.toList_none, List.nil_append] at hle
          omega
        · omega
      · rw [attemptOutcomes_cons, hout] at hle
        simp only [Option.toList_some, List.singleton_append, streak_cons_self] at hle
        have hreach : c.failureThreshold ≤ s.circuit.breaker.failCount + 1 := by omega
        simp [hb, recordFailure, show s.circuit.breaker.state = .closed from hbefore, hreach]
    · intro hprobe hout
      have hhalf := hI.probes l.task (Or.inr hprobe)
      rcases hrec with ⟨-, hno⟩ | ⟨-, -, hb⟩
      · exact absurd hout hno
      · simp [hb, recordFailure, hhalf]

/-- The last attempt's failure is raised to the caller and nowhere recorded. -/
theorem not_recorded_of_failsLast {m : CallMove T n}
    (hplain : (calls m.label.task).wrapper = .retryWithDbCircuit) (hm : FailsLast calls m = true) :
    ¬FailureRecorded calls c h m := by
  intro hrec
  have honce := hrec.once
  unfold FailsLast Call.failsLast at hm
  split at hm
  · rename_i k probe exc hp ha
    simp only [Bool.and_eq_true, beq_iff_eq] at hm
    have hout : attemptOutcome calls m = some .failedRecoverably := by
      simp [attemptOutcome, Call.outcome, hp, ha, hm.1]
    have heff : effects c calls m = releaseProbe probe := by
      simp [effects, Call.advance, hp, ha, hplain, Call.givesUp, hm.2]
    rw [heff, count_releaseProbe, if_pos hout] at honce
    omega
  · simp at hm

theorem sequential_init : Sequential c calls [] (Calls.init c t₀) := by
  constructor
  · exact consistent_init
  · simp [Calls.init]
  · simp [Calls.init, Phase.Waiting, Phase.holds]
  · exact fun _ => Nat.zero_le _

/-- Every recoverable failure reaches the breaker if and only if none of them is a call's last. -/
theorem failures_recorded_iff (hplain : ∀ i, (calls i).wrapper = .retryWithDbCircuit)
    (hrun : Run (Calls.step c calls) OneAtATime (Calls.init c t₀) h s) :
    (∀ m h', m :: h' <:+ h → FailureRecorded calls c h' m) ↔ ∀ m ∈ h, FailsLast calls m = false := by
  constructor
  · intro hall m hm
    obtain ⟨newer, older, rfl⟩ := List.append_of_mem hm
    by_contra hlast
    apply not_recorded_of_failsLast (hplain m.label.task) (by simpa using hlast)
    exact hall m older (List.suffix_append newer (m :: older))
  · intro hlast m h' hm
    apply (hrun.guarded (P := NotLast calls) hlast).forall_moves (I := Sequential c calls)
      sequential_init _ hm
    exact fun _ _ _ _ hI hG hs => sequential_step hplain hI hG.1 hG.2 hs

end Steps

/-- Two calls of three attempts, and a probe that succeeds. -/
def twoCalls : Fin 3 → Call := fun _ => {}

/-- The second call is abandoned while it sleeps. -/
def recoveredAfterRetries : List (Label ℤ 3) :=
  [⟨0, 0, .returns⟩, ⟨0, 0, .raises connectionLost⟩, ⟨1, 0, .returns⟩, ⟨1, 0, .raises connectionLost⟩,
    ⟨1, 0, .cancelled⟩, ⟨2, 1, .returns⟩, ⟨2, 1, .raises connectionLost⟩, ⟨3, 1, .cancelled⟩,
    ⟨32, 2, .returns⟩, ⟨32, 2, .returns⟩, ⟨33, 2, .returns⟩]

theorem failures_recorded_iff_retried : ∃ h s,
    Run (Calls.step dbCircuit twoCalls) OneAtATime (Calls.init dbCircuit (0 : ℤ)) h s ∧
      s.circuit.breaker.state = .closed ∧ h.length = 11 ∧
      ((∀ m h', m :: h' <:+ h → FailureRecorded twoCalls dbCircuit h' m) ↔
        ∀ m ∈ h, FailsLast twoCalls m = false) := by
  have hexec : (exec (Calls.step dbCircuit twoCalls) OneAtATime [] (Calls.init dbCircuit (0 : ℤ))
      recoveredAfterRetries).map (fun r => (r.2.circuit.breaker.state, r.1.length)) =
      some (.closed, 11) := by decide +kernel
  obtain ⟨⟨h, s⟩, hs, heq⟩ := Option.map_eq_some_iff.mp hexec
  have hrun := run_of_exec hs
  exact ⟨h, s, hrun, congrArg Prod.fst heq, congrArg Prod.snd heq,
    failures_recorded_iff (fun _ => rfl) hrun⟩

theorem last_failure_unrecorded : ¬∀ (n : ℕ) (c : CircuitConfig ℤ) (calls : Fin n → Call) (t₀ : ℤ) h s,
    (∀ i, (calls i).wrapper = .retryWithDbCircuit ∧ 1 ≤ (calls i).attempts) →
    Run (Calls.step c calls) OneAtATime (Calls.init c t₀) h s →
      ∀ m h', m :: h' <:+ h → FailureRecorded calls c h' m := by
  intro hall
  have hexec : (exec (Calls.step dbCircuit fun _ : Fin 1 => { attempts := 1 }) OneAtATime []
      (Calls.init dbCircuit (0 : ℤ)) [⟨0, 0, .returns⟩, ⟨0, 0, .raises connectionLost⟩]).map
      (fun r => r.1.head?.map fun m => (FailsLast (fun _ => { attempts := 1 }) m)) =
      some (some true) := by decide +kernel
  obtain ⟨⟨h, s⟩, hs, heq⟩ := Option.map_eq_some_iff.mp hexec
  obtain ⟨m, hm, hlast⟩ := Option.map_eq_some_iff.mp heq
  obtain ⟨h', rfl⟩ := List.head?_eq_some_iff.mp hm
  apply not_recorded_of_failsLast rfl hlast
  exact hall 1 dbCircuit _ 0 _ s (fun _ => ⟨rfl, le_rfl⟩) (run_of_exec hs) m h' List.suffix_rfl

end Phyllonix.Circuit
