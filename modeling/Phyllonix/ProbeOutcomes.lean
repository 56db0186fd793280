import Phyllonix.ProbePermits
import Phyllonix.CircuitProbes

/-!
# Whose outcomes close or reopen the breaker

An outcome is recorded by the breaker's state at the time. If no attempt is being executed
when the breaker half-opens, then whatever is recorded while it is half-open comes from a
probe of that period, and an attempt from before an opening is over when it ends.
-/

namespace Phyllonix.Circuit
open Transition
variable {T : Type} {n : ℕ}

def Calls.Opens (m : CallMove T n) : Prop :=
  m.before.circuit.breaker.state ≠ .opened ∧ m.after.circuit.breaker.state = .opened

/-- Call `i` starts an attempt as a probe. -/
def StartsProbe (i : Fin n) (m : CallMove T n) : Prop :=
  m.label.task = i ∧ Starts m ∧ (m.after.phase i).holds = true

/-- The moves since call `i` last started an attempt. -/
def sinceStart (i : Fin n) (h : List (CallMove T n)) : List (CallMove T n) :=
  h.takeWhile fun m => ¬(m.label.task = i ∧ Starts m)

section Probes
variable [LinearOrder T] [Sub T] (c : CircuitConfig T) (calls : Fin n → Call)

/-- The task of `m` succeeds with an attempt that it started as a probe during `h`. -/
def ProbeSucceeds (h : List (CallMove T n)) (m : CallMove T n) : Prop :=
  .recordSuccess ∈ effects c calls m ∧ (m.before.phase m.label.task).holds = true ∧
    ∃ m' ∈ h, StartsProbe m.label.task m'

instance (i : Fin n) : DecidablePred (StartsProbe (T := T) i) := fun _ =>
  inferInstanceAs (Decidable (_ ∧ _))

instance (h : List (CallMove T n)) (m : CallMove T n) : Decidable (ProbeSucceeds c calls h m) :=
  inferInstanceAs (Decidable (_ ∧ _))

def probeSuccesses : List (CallMove T n) → ℕ
  | [] => 0
  | m :: h => (if ProbeSucceeds c calls h m then 1 else 0) + probeSuccesses h

/-- What the outcome of the move `m` may do to the breaker after the moves `h`. -/
structure ProbesDecide (h : List (CallMove T n)) (m : CallMove T n) : Prop where
  closes : m.before.circuit.breaker.state = .halfOpen → m.after.circuit.breaker.state = .closed →
    c.halfOpenSuccessThreshold ≤ probeSuccesses c calls (m :: Calls.period h)
  reopens : m.before.circuit.breaker.state = .halfOpen → m.after.circuit.breaker.state = .opened →
    .recordFailure ∈ effects c calls m ∧ (m.before.phase m.label.task).holds = true ∧
      ∃ m' ∈ Calls.period h, StartsProbe m.label.task m'
  bygone : (m.before.phase m.label.task).attempt ≠ none →
    (∃ m' ∈ sinceStart m.label.task h, Calls.Opens m') →
      m.after.circuit.breaker = m.before.circuit.breaker

/-- When a call makes the breaker half-open, no attempt is being executed. -/
def NoneExecuting (s : Calls T n) (l : Label T n) : Prop :=
  s.InOrder l ∧ ((calls l.task).begins (s.phase l.task) l.act = true →
    s.circuit.breaker.state = .opened →
    (maybeTransition c l.now s.circuit.breaker).state = .halfOpen → ∀ j, (s.phase j).attempt = none)

instance (s : Calls T n) (l : Label T n) : Decidable (NoneExecuting c calls s l) :=
  inferInstanceAs (Decidable (_ ∧ _))

end Probes

/-- Who is executing, in the light of the history. -/
structure Probing [LinearOrder T] [Sub T] (c : CircuitConfig T) (calls : Fin n → Call)
    (h : List (CallMove T n)) (s : Calls T n) : Prop where
  probes : s.circuit.breaker.state = .halfOpen → ∀ i, (s.phase i).attempt ≠ none →
    (s.phase i).holds = true ∧ ∃ m ∈ Calls.period h, StartsProbe i m
  counted : s.circuit.breaker.state = .halfOpen →
    s.circuit.breaker.halfOpenSuccessCount = probeSuccesses c calls (Calls.period h)
  bygone : ∀ i, (s.phase i).attempt ≠ none → (∃ m ∈ sinceStart i h, Calls.Opens m) →
    s.circuit.breaker.state = .opened

section Histories
variable {h : List (CallMove T n)} {m : CallMove T n} {i : Fin n}

theorem sinceStart_of_other (hm : ¬(m.label.task = i ∧ Starts m)) :
    sinceStart i (m :: h) = m :: sinceStart i h :=
  List.takeWhile_cons_of_pos (by simpa only [decide_eq_true_eq] using hm)

theorem sinceStart_of_start (hm : Starts m) : sinceStart m.label.task (m :: h) = [] :=
  List.takeWhile_cons_of_neg (by simp [hm])

/-- An attempt from before an opening, carried over a move that does not open the breaker. -/
theorem bygone_cons (hm : ¬Calls.Opens m)
    (hex : ∃ m' ∈ sinceStart i (m :: h), Calls.Opens m') :
    ¬(m.label.task = i ∧ Starts m) ∧ ∃ m' ∈ sinceStart i h, Calls.Opens m' := by
  obtain ⟨m', hmem, hopen⟩ := hex
  by_cases hstart : m.label.task = i ∧ Starts m
  · obtain ⟨rfl, hstart⟩ := hstart
    simp [sinceStart_of_start hstart] at hmem
  · rw [sinceStart_of_other hstart] at hmem
    refine ⟨hstart, m', ?_, hopen⟩
    rcases List.mem_cons.mp hmem with rfl | hmem
    · exact absurd hopen hm
    · exact hmem

end Histories

section Steps
variable [LinearOrder T] [Sub T] {c : CircuitConfig T} {calls : Fin n → Call} {t₀ : T}
  {h : List (CallMove T n)} {s s' : Calls T n} {l : Label T n} {p' : Phase}

/-- A move that keeps the breaker's state keeps what is known of the attempts. -/
theorem Probing.keep (hI : Probing c calls h s)
    (hm : s'.circuit.breaker.state = s.circuit.breaker.state)
    (hphase : s'.phase = Function.update s.phase l.task p')
    (hatt : p'.attempt ≠ none →
      (s.phase l.task).attempt ≠ none ∧ p'.holds = (s.phase l.task).holds ∨
      (s.phase l.task).attempt = none ∧ (s'.circuit.breaker.state = .halfOpen → p'.holds = true))
    (hcount : s'.circuit.breaker.state = .halfOpen → s'.circuit.breaker.halfOpenSuccessCount =
      (if ProbeSucceeds c calls (Calls.period h) ⟨s, l, s'⟩ then 1 else 0) +
        s.circuit.breaker.halfOpenSuccessCount) :
    Probing c calls (⟨s, l, s'⟩ :: h) s' := by
  have hperiod : Calls.period (⟨s, l, s'⟩ :: h) = ⟨s, l, s'⟩ :: Calls.period h := period_of_kept hm
  have hnot : ¬Calls.Opens (⟨s, l, s'⟩ : CallMove T n) := fun hop => hop.1 (hm ▸ hop.2)
  have hself : s'.phase l.task = p' := by simp [hphase]
  constructor
  · intro hhalf i hi
    rw [hperiod]
    by_cases hil : i = l.task
    · subst hil
      rw [hself] at hi ⊢
      rcases hatt hi with ⟨hbefore, hholds⟩ | ⟨hbefore, hholds⟩
      · obtain ⟨hprobe, m, hmem, hstart⟩ := hI.probes (hm ▸ hhalf) l.task hbefore
        exact ⟨hholds.trans hprobe, m, List.mem_cons_of_mem _ hmem, hstart⟩
      · refine ⟨hholds hhalf, _, List.mem_cons_self, rfl, ⟨hbefore, ?_⟩, ?_⟩
        · simpa [hself] using hi
        · simpa [hself] using hholds hhalf
    · have hother : s'.phase i = s.phase i := by simp [hphase, hil]
      rw [hother] at hi ⊢
      obtain ⟨hprobe, m, hmem, hstart⟩ := hI.probes (hm ▸ hhalf) i hi
      exact ⟨hprobe, m, List.mem_cons_of_mem _ hmem, hstart⟩
  · intro hhalf
    rw [hperiod, hcount hhalf, hI.counted (hm ▸ hhalf)]
    rfl
  · intro i hi hex
    obtain ⟨hstart, hold⟩ := bygone_cons hnot hex
    rw [hm]
    apply hI.bygone i ?_ hold
    by_cases hil : i = l.task
    · subst hil
      intro hnone
      exact hstart ⟨rfl, hnone, hi⟩
    · simpa [hphase, hil] using hi

/-- A move that keeps the breaker's state decides nothing. -/
theorem ProbesDecide.keep (hI : Probing c calls h s)
    (hm : s'.circuit.breaker.state = s.circuit.breaker.state)
    (hb : (s.phase l.task).attempt ≠ none → s.circuit.breaker.state = .opened →
      s'.circuit.breaker = s.circuit.breaker) : ProbesDecide c calls h ⟨s, l, s'⟩ := by
  constructor
  · intro hbefore hafter
    cases hbefore.symm.trans (hm.symm.trans hafter)
  · intro hbefore hafter
    cases hbefore.symm.trans (hm.symm.trans hafter)
  · intro hatt hex
    exact hb hatt (hI.bygone l.task hatt hex)

/-- Nothing is recorded: the breaker is as before, and only a probe can have started. -/
theorem probing_silent (hI : Probing c calls h s) (hb : s'.circuit.breaker = s.circuit.breaker)
    (hphase : s'.phase = Function.update s.phase l.task p')
    (heff : .recordSuccess ∉ effects c calls ⟨s, l, s'⟩)
    (hatt : p'.attempt ≠ none →
      (s.phase l.task).attempt ≠ none ∧ p'.holds = (s.phase l.task).holds ∨
      (s.phase l.task).attempt = none ∧ (s'.circuit.breaker.state = .halfOpen → p'.holds = true)) :
    Probing c calls (⟨s, l, s'⟩ :: h) s' ∧ ProbesDecide c calls h ⟨s, l, s'⟩ := by
  have hm : s'.circuit.breaker.state = s.circuit.breaker.state := by rw [hb]
  have hnone : ¬ProbeSucceeds c calls (Calls.period h) ⟨s, l, s'⟩ := fun hsucc => heff hsucc.1
  constructor
  · apply hI.keep hm hphase hatt
    simp [hnone, hb]
  · exact .keep hI hm fun _ _ => hb

theorem probing_succeeded {k : ℕ} {probe : Bool} (hI : Probing c calls h s)
    (hb : s'.circuit.breaker = recordSuccess c s.circuit.breaker)
    (hphase : s'.phase = Function.update s.phase l.task p')
    (heff : .recordSuccess ∈ effects c calls ⟨s, l, s'⟩)
    (hp : (s.phase l.task).attempt = some (k, probe)) (hp' : p'.attempt = none) :
    Probing c calls (⟨s, l, s'⟩ :: h) s' ∧ ProbesDecide c calls h ⟨s, l, s'⟩ := by
  have hatt : (s.phase l.task).attempt ≠ none := by simp [hp]
  cases hs : s.circuit.breaker.state with
  | opened =>
    have hsame : s'.circuit.breaker = s.circuit.breaker := hb.trans (recordSuccess_of_opened hs)
    have hm : s'.circuit.breaker.state = s.circuit.breaker.state := by rw [hsame]
    constructor
    · apply hI.keep hm hphase (by simp [hp'])
      simp [hsame, hs]
    · exact .keep hI hm fun _ _ => hsame
  | closed =>
    have hm : s'.circuit.breaker.state = s.circuit.breaker.state := by
      rw [hb]
      simp [recordSuccess, hs]
    constructor
    · apply hI.keep hm hphase (by simp [hp'])
      simp [hm, hs]
    · exact .keep hI hm fun _ ho => by simp [hs] at ho
  | halfOpen =>
    obtain ⟨hprobe, hstart⟩ := hI.probes hs l.task hatt
    have hsucc : ProbeSucceeds c calls (Calls.period h) ⟨s, l, s'⟩ := ⟨heff, hprobe, hstart⟩
    have hcount : probeSuccesses c calls (⟨s, l, s'⟩ :: Calls.period h) =
        s.circuit.breaker.halfOpenSuccessCount + 1 := by
      rw [probeSuccesses, if_pos hsucc, hI.counted hs]
      omega
    by_cases hle : c.halfOpenSuccessThreshold ≤ s.circuit.breaker.halfOpenSuccessCount + 1
    · have hclosed : s'.circuit.breaker.state = .closed := by
        rw [hb]
        simp [recordSuccess, hs, hle]
      constructor
      · constructor
        · simp [hclosed]
        · simp [hclosed]
        · intro i hi hex
          have hnot : ¬Calls.Opens (⟨s, l, s'⟩ : CallMove T n) := by simp [Calls.Opens, hclosed]
          obtain ⟨hst, hold⟩ := bygone_cons hnot hex
          have hil : i ≠ l.task := by
            rintro rfl
            simp [hphase, hp'] at hi
          have hopen := hI.bygone i (by simpa [hphase, hil] using hi) hold
          simp [hs] at hopen
      · constructor
        · intro _ _
          rw [hcount]
          exact hle
        · intro _ hafter
          simp [hclosed] at hafter
        · intro _ hex
          have hopen := hI.bygone l.task hatt hex
          simp [hs] at hopen
    · have hkept : s'.circuit.breaker = { s.circuit.breaker with
          halfOpenSuccessCount := s.circuit.breaker.halfOpenSuccessCount + 1 } := by
        rw [hb]
        simp [recordSuccess, hs, hle]
      have hm : s'.circuit.breaker.state = s.circuit.breaker.state := by rw [hkept]
      constructor
      · apply hI.keep hm hphase (by simp [hp'])
        intro _
        rw [if_pos hsucc, hkept]
        exact Nat.add_comm _ _
      · exact .keep hI hm fun _ ho => by simp [hs] at ho

theorem probing_failed {k : ℕ} {probe : Bool} (hI : Probing c calls h s)
    (hb : s'.circuit.breaker = recordFailure c l.now s.circuit.breaker)
    (hphase : s'.phase = Function.update s.phase l.task p')
    (heff : effects c calls ⟨s, l, s'⟩ = releaseProbe probe ++ [.recordFailure])
    (hp : (s.phase l.task).attempt = some (k, probe)) (hp' : p'.attempt = none) :
    Probing c calls (⟨s, l, s'⟩ :: h) s' ∧ ProbesDecide c calls h ⟨s, l, s'⟩ := by
  have hatt : (s.phase l.task).attempt ≠ none := by simp [hp]
  have hrec : .recordFailure ∈ effects c calls ⟨s, l, s'⟩ := by simp [heff]
  cases hs : s.circuit.breaker.state with
  | opened =>
    have hsame : s'.circuit.breaker = s.circuit.breaker := hb.trans (recordFailure_of_opened hs)
    have hm : s'.circuit.breaker.state = s.circuit.breaker.state := by rw [hsame]
    constructor
    · apply hI.keep hm hphase (by simp [hp'])
      simp [hsame, hs]
    · exact .keep hI hm fun _ _ => hsame
  | halfOpen =>
    have hopened : s'.circuit.breaker.state = .opened := by
      rw [hb]
      simp [recordFailure, hs]
    constructor
    · exact ⟨by simp [hopened], by simp [hopened], fun _ _ _ => hopened⟩
    · constructor
      · intro _ hafter
        simp [hopened] at hafter
      · exact fun _ _ => ⟨hrec, hI.probes hs l.task hatt⟩
      · intro _ hex
        have hopen := hI.bygone l.task hatt hex
        simp [hs] at hopen
  | closed =>
    have hdecide : ProbesDecide c calls h ⟨s, l, s'⟩ := by
      constructor
      · intro hbefore
        simp [hs] at hbefore
      · intro hbefore
        simp [hs] at hbefore
      · intro _ hex
        have hopen := hI.bygone l.task hatt hex
        simp [hs] at hopen
    refine ⟨?_, hdecide⟩
    by_cases hle : c.failureThreshold ≤ s.circuit.breaker.failCount + 1
    · have hopened : s'.circuit.breaker.state = .opened := by
        rw [hb]
        simp [recordFailure, hs, hle]
      exact ⟨by simp [hopened], by simp [hopened], fun _ _ _ => hopened⟩
    · have hm : s'.circuit.breaker.state = s.circuit.breaker.state := by
        rw [hb]
        simp [recordFailure, hs, hle]
      apply hI.keep hm hphase (by simp [hp'])
      simp [hm, hs]

/-- Half-opening with no attempt in execution starts a period of its own. -/
theorem probing_half_opens (hs : s.circuit.breaker.state = .opened)
    (hhalf : s'.circuit.breaker.state = .halfOpen)
    (hzero : s'.circuit.breaker.halfOpenSuccessCount = 0)
    (hnone : ∀ i, (s'.phase i).attempt = none) (hidle : (s.phase l.task).attempt = none) :
    Probing c calls (⟨s, l, s'⟩ :: h) s' ∧ ProbesDecide c calls h ⟨s, l, s'⟩ := by
  have hperiod : Calls.period (⟨s, l, s'⟩ :: h) = [] := period_of_changed (by simp [hs, hhalf])
  constructor
  · constructor
    · intro _ i hi
      exact absurd (hnone i) hi
    · intro _
      simp [hperiod, hzero, probeSuccesses]
    · intro i hi
      exact absurd (hnone i) hi
  · constructor
    · simp [hs]
    · simp [hs]
    · intro hi
      exact absurd hidle hi

theorem probing_begins (hI : Probing c calls h s) (hG : NoneExecuting c calls s l)
    (hbegins : (calls l.task).begins (s.phase l.task) l.act = true)
    (hb : s'.circuit.breaker = (beforeCall c l.now s.circuit.breaker).1)
    (hphase : s'.phase = Function.update s.phase l.task p')
    (heff : effects c calls ⟨s, l, s'⟩ = [.beforeCall]) (hp : (s.phase l.task).attempt = none)
    (hp' : s'.circuit.breaker.state ≠ .closed → p'.attempt = none) :
    Probing c calls (⟨s, l, s'⟩ :: h) s' ∧ ProbesDecide c calls h ⟨s, l, s'⟩ := by
  rw [beforeCall_fst] at hb
  rcases maybeTransition_cases c l.now s.circuit.breaker with heq | ⟨hs, -, heq⟩
  · apply probing_silent hI (hb.trans heq) hphase (by simp [heff])
    intro hne
    refine Or.inr ⟨hp, fun hhalf => ?_⟩
    exact absurd (hp' (by simp [hhalf])) hne
  · have hhalf : s'.circuit.breaker.state = .halfOpen := by rw [hb, heq]
    apply probing_half_opens hs hhalf
    · rw [hb, heq]
    · intro i
      have hnone := hG.2 hbegins hs (by rw [heq]) i
      by_cases hil : i = l.task
      · subst hil
        simpa [hphase] using hp' (by simp [hhalf])
      · simpa [hphase, hil] using hnone
    · exact hp

theorem probing_step (hI : Probing c calls h s) (hG : NoneExecuting c calls s l)
    (hs : Calls.step c calls s l = some s') :
    Probing c calls (⟨s, l, s'⟩ :: h) s' ∧ ProbesDecide c calls h ⟨s, l, s'⟩ := by
  obtain ⟨es, p', hadv, heff, hs'⟩ := step_cases hs
  have hcirc : s'.circuit = es.foldl (Effect.apply c l.now) s.circuit := by rw [hs']
  have hphase : s'.phase = Function.update s.phase l.task p' := by rw [hs']
  cases hadv with
  | refused hp hb hp' hst =>
    exact probing_begins hI hG hb (by rw [hcirc]; rfl) hphase heff hp.1 fun _ => hp'.1
  | queued hp hb hst =>
    exact probing_begins hI hG hb (by rw [hcirc]; rfl) hphase heff hp.1 fun _ => rfl
  | entered hp hb hst =>
    have hclosed : s'.circuit.breaker.state = .closed := hcirc ▸ hst
    exact probing_begins hI hG hb (by rw [hcirc]; rfl) hphase heff hp.1 fun hne => absurd hclosed hne
  | granted hp hpos =>
    have hnone : (s.phase l.task).attempt = none := by simp [hp]
    apply probing_silent hI (by rw [hcirc]; rfl) hphase (by simp [heff])
    exact fun _ => Or.inr ⟨hnone, fun _ => rfl⟩
  | suspended hp hp' hw hf hl =>
    apply probing_silent hI (by rw [hcirc]; rfl) hphase (by simp [heff])
    exact fun _ => Or.inl ⟨by simp [hp], by rw [holds_of_attempt hp, holds_of_attempt hp']⟩
  | succeeded hp hp' ha hf hl =>
    have hb : s'.circuit.breaker = recordSuccess c s.circuit.breaker := by
      rw [hcirc, foldl_releaseProbe]
      rfl
    exact probing_succeeded hI hb hphase (by simp [heff]) hp hp'.1
  | failed hp hf hg hl =>
    have hb : s'.circuit.breaker = recordFailure c l.now s.circuit.breaker := by
      rw [hcirc, foldl_releaseProbe]
      rfl
    exact probing_failed hI hb hphase heff hp rfl
  | @ended k probe _ hp hp' hf hl =>
    have hnone : .recordSuccess ∉ releaseProbe probe := by cases probe <;> simp [releaseProbe]
    apply probing_silent hI (by rw [hcirc, foldl_releaseProbe_only]) hphase (by rwa [heff])
    simp [hp'.1]
  | leaked hp hp' hf hl =>
    apply probing_silent hI (by rw [hcirc]; rfl) hphase (by simp [heff])
    simp [hp'.1]
  | idled hp hp' =>
    apply probing_silent hI (by rw [hcirc]; rfl) hphase (by simp [heff])
    simp [hp'.1]

/-- Only probes close or reopen a half-open breaker, if it half-opens with no attempt in execution. -/
theorem probes_decide (hrun : Run (Calls.step c calls) (NoneExecuting c calls) (Calls.init c t₀) h s) :
    ∀ m h', m :: h' <:+ h → ProbesDecide c calls h' m := by
  intro m h' hm
  apply hrun.forall_moves (I := Probing c calls) _ _ hm
  · exact ⟨by simp [Calls.init], by simp [Calls.init], by simp [Calls.init]⟩
  · exact fun _ _ _ _ hI hG hs => probing_step hI hG hs

end Steps

theorem probes_decide_alone : ∃ h s, Run (Calls.step dbCircuit fourCalls)
    (NoneExecuting dbCircuit fourCalls) (Calls.init dbCircuit (0 : ℤ)) h s ∧
      s.circuit.breaker.state = .closed ∧
      ∀ m h', m :: h' <:+ h → ProbesDecide dbCircuit fourCalls h' m := by
  have hexec : (exec (Calls.step dbCircuit fourCalls) (NoneExecuting dbCircuit fourCalls) []
      (Calls.init dbCircuit (0 : ℤ)) loneProbe).map (·.2.circuit.breaker.state) = some .closed := by
    decide +kernel
  obtain ⟨⟨h, s⟩, hs, hstate⟩ := Option.map_eq_some_iff.mp hexec
  have hrun := run_of_exec hs
  exact ⟨h, s, hrun, hstate, probes_decide hrun⟩

/-- A call that began before the breaker opened returns while it is half-open. -/
def slowCall : List (Label ℤ 4) :=
  ⟨0, 3, .returns⟩ :: threeFailures 0 1 ++ [⟨32, 2, .returns⟩, ⟨33, 3, .returns⟩]

theorem closed_without_probe : ¬∀ (n : ℕ) (c : CircuitConfig ℤ) (calls : Fin n → Call) (t₀ : ℤ) h s,
    (∀ i, (calls i).wrapper = .retryWithDbCircuit) →
    Run (Calls.step c calls) Calls.InOrder (Calls.init c t₀) h s →
      ∀ m h', m :: h' <:+ h → ProbesDecide c calls h' m := by
  intro hall
  have hexec : (exec (Calls.step dbCircuit fourCalls) Calls.InOrder [] (Calls.init dbCircuit (0 : ℤ))
      slowCall).map (fun r => r.1.head?.map fun m =>
        (m.before.circuit.breaker.state, m.after.circuit.breaker.state,
          probeSuccesses dbCircuit fourCalls (m :: Calls.period r.1.tail))) =
      some (some (.halfOpen, .closed, 0)) := by decide +kernel
  obtain ⟨⟨h, s⟩, hs, heq⟩ := Option.map_eq_some_iff.mp hexec
  obtain ⟨m, hm, hm'⟩ := Option.map_eq_some_iff.mp heq
  obtain ⟨h', rfl⟩ := List.head?_eq_some_iff.mp hm
  simp only [List.tail_cons, Prod.mk.injEq] at hm'
  have hlaw := hall 4 dbCircuit fourCalls 0 _ s (fun _ => rfl) (run_of_exec hs) m h' List.suffix_rfl
  have hle : 1 ≤ probeSuccesses dbCircuit fourCalls (m :: Calls.period h') := hlaw.closes hm'.1 hm'.2.1
  omega

end Phyllonix.Circuit
