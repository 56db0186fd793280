import Phyllonix.RetrySteps

/-!
# Attempts that start while the breaker is open

The state is tested before a call waits for a permit and not after, and outcomes are
recorded by the present state only. Whether an attempt can start while the breaker is
open therefore rests on who is waiting when it opens.
-/

namespace Phyllonix.Circuit
open Transition
variable {T : Type} {n : ℕ}

/-- The wrapped function starts to be executed. -/
def Starts (m : CallMove T n) : Prop :=
  (m.before.phase m.label.task).attempt = none ∧ (m.after.phase m.label.task).attempt ≠ none

instance : DecidablePred (Starts (T := T) (n := n)) := fun _ => inferInstanceAs (Decidable (_ ∧ _))

/-- The step is a failure that is recorded. -/
def Call.records (call : Call) (p : Phase) (a : Act) : Bool :=
  match call.failure p a with
  | some (k, exc) => !call.givesUp k exc
  | none => false

/-- A failure recorded now opens the breaker. -/
def FailureOpens (c : CircuitConfig T) (b : CircuitBreaker T) : Prop :=
  b.state = .halfOpen ∨ b.state = .closed ∧ c.failureThreshold ≤ b.failCount + 1

instance (c : CircuitConfig T) (b : CircuitBreaker T) : Decidable (FailureOpens c b) :=
  inferInstanceAs (Decidable (_ ∨ _))

section States
variable {c : CircuitConfig T} {now : T} {b : CircuitBreaker T}

theorem recordSuccess_opened (h : (recordSuccess c b).state = .opened) : b.state = .opened := by
  unfold recordSuccess at h
  split at h
  · exact h
  · split at h <;> simp_all
  · rename_i hs
    simp [hs] at h

theorem recordFailure_opened (h : (recordFailure c now b).state = .opened) :
    b.state = .opened ∨ FailureOpens c b := by
  unfold recordFailure at h
  split at h
  · rename_i hs
    exact Or.inr (Or.inl hs)
  · rename_i hs
    split at h
    · rename_i hle
      exact Or.inr (Or.inr ⟨hs, hle⟩)
    · simp [hs] at h
  · exact Or.inl h

/-- An open breaker is not changed by what is recorded. -/
theorem recordSuccess_of_opened (h : b.state = .opened) : recordSuccess c b = b := by
  simp [recordSuccess, h]

theorem recordFailure_of_opened (h : b.state = .opened) : recordFailure c now b = b := by
  simp [recordFailure, h]

variable [LinearOrder T] [Sub T]

theorem beforeCall_opened (h : (beforeCall c now b).1.state = .opened) : b.state = .opened := by
  rw [beforeCall_fst] at h
  rcases maybeTransition_cases c now b with heq | ⟨hs, -, -⟩
  · rwa [heq] at h
  · exact hs

theorem beforeCall_closed (h : (beforeCall c now b).1.state = .closed) : (beforeCall c now b).1 = b := by
  rw [beforeCall_fst] at h ⊢
  rcases maybeTransition_cases c now b with heq | ⟨-, -, heq⟩
  · exact heq
  · rw [heq] at h
    cases h

end States

section Waiting
variable [LinearOrder T] [Sub T] {c : CircuitConfig T} {calls : Fin n → Call} {t₀ : T}
  {h : List (CallMove T n)} {s : Calls T n}

/-- When a failure opens the breaker, no attempt is waiting for a permit. -/
def NoneWaiting (c : CircuitConfig T) (calls : Fin n → Call) (s : Calls T n) (l : Label T n) : Prop :=
  s.InOrder l ∧ ((calls l.task).records (s.phase l.task) l.act = true →
    FailureOpens c s.circuit.breaker → ∀ j, ¬(s.phase j).Waiting)

instance (s : Calls T n) (l : Label T n) : Decidable (NoneWaiting c calls s l) :=
  inferInstanceAs (Decidable (_ ∧ _))

theorem not_waiting_update {f : Fin n → Phase} {i : Fin n} {p' : Phase} (hp' : ¬p'.Waiting)
    (hf : ∀ j, ¬(f j).Waiting) (j : Fin n) : ¬(Function.update f i p' j).Waiting := by
  by_cases hj : j = i
  · subst hj
    simpa using hp'
  · simpa [hj] using hf j

/-- While the breaker is open no call waits for a permit. -/
def OpenQuiet (s : Calls T n) : Prop := s.circuit.breaker.state = .opened → ∀ j, ¬(s.phase j).Waiting

theorem openQuiet_step {l : Label T n} {s' : Calls T n} (hI : OpenQuiet s) (hG : NoneWaiting c calls s l)
    (hs : Calls.step c calls s l = some s') :
    OpenQuiet s' ∧ (Starts ⟨s, l, s'⟩ → s'.circuit.breaker.state ≠ .opened) := by
  obtain ⟨es, p', hadv, -, hs'⟩ := step_cases hs
  have hcirc : s'.circuit = es.foldl (Effect.apply c l.now) s.circuit := by rw [hs']
  have hphase : s'.phase = Function.update s.phase l.task p' := by rw [hs']
  -- a step that starts nothing and leaves no call waiting, unless it opens the breaker
  have hkeep : ¬p'.Waiting → (p'.attempt ≠ none → (s.phase l.task).attempt ≠ none) →
      (s'.circuit.breaker.state = .opened →
        s.circuit.breaker.state = .opened ∨ ∀ j, ¬(s.phase j).Waiting) →
      OpenQuiet s' ∧ (Starts ⟨s, l, s'⟩ → s'.circuit.breaker.state ≠ .opened) := by
    intro hp' hatt hopen
    constructor
    · intro ho
      rw [hphase]
      exact not_waiting_update hp' ((hopen ho).elim hI id)
    · intro hst
      have hne : p'.attempt ≠ none := by simpa [hphase] using hst.2
      exact absurd hst.1 (hatt hne)
  cases hadv with
  | refused hp hb hp' hst =>
    apply hkeep hp'.2 (by simp [hp'.1])
    rw [hcirc]
    exact fun ho => Or.inl (beforeCall_opened ho)
  | queued hp hb hst =>
    have hne : s'.circuit.breaker.state = .halfOpen := hcirc ▸ hst
    simp [OpenQuiet, hne]
  | entered hp hb hst =>
    have hne : s'.circuit.breaker.state = .closed := hcirc ▸ hst
    simp [OpenQuiet, hne]
  | granted hp hpos =>
    have hne : s.circuit.breaker.state ≠ .opened := fun ho => hI ho l.task (hp ▸ waiting_probing)
    have hne' : s'.circuit.breaker.state ≠ .opened := hcirc ▸ hne
    exact ⟨fun ho => absurd ho hne', fun _ => hne'⟩
  | suspended hp hp' hw hf hl =>
    apply hkeep (not_waiting_of_attempt hp') (by simp [hp])
    rw [hcirc]
    exact Or.inl
  | succeeded hp hp' ha hf hl =>
    apply hkeep hp'.2 (by simp [hp'.1])
    rw [hcirc, foldl_releaseProbe]
    exact fun ho => Or.inl (recordSuccess_opened ho)
  | failed hp hf hg hl =>
    apply hkeep idle_sleeping.2 (by simp)
    rw [hcirc, foldl_releaseProbe]
    intro ho
    have hrec : (calls l.task).records (s.phase l.task) l.act = true := by simp [Call.records, hf, hg]
    exact (recordFailure_opened ho).imp_right (hG.2 hrec)
  | ended hp hp' hf hl =>
    apply hkeep hp'.2 (by simp [hp'.1])
    rw [hcirc, foldl_releaseProbe_only]
    exact Or.inl
  | leaked hp hp' hf hl =>
    apply hkeep hp'.2 (by simp [hp'.1])
    rw [hcirc]
    exact Or.inl
  | idled hp hp' =>
    apply hkeep hp'.2 (by simp [hp'.1])
    rw [hcirc]
    exact Or.inl

/-- No attempt starts while the breaker is open, if none was waiting when it opened. -/
theorem starts_not_opened (hrun : Run (Calls.step c calls) (NoneWaiting c calls) (Calls.init c t₀) h s) :
    ∀ m ∈ h, Starts m → m.after.circuit.breaker.state ≠ .opened := by
  intro m hm
  obtain ⟨newer, older, rfl⟩ := List.append_of_mem hm
  apply hrun.forall_moves (I := fun _ s => OpenQuiet s)
    (M := fun _ m => Starts m → m.after.circuit.breaker.state ≠ .opened)
  · intro _ j
    simp [Calls.init, Phase.Waiting]
  · exact fun _ _ _ _ hI hG hs => openQuiet_step hI hG hs
  · exact List.suffix_append newer (m :: older)

end Waiting

/-- Four calls of functions wrapped by `retry_with_db_circuit`. -/
def fourCalls : Fin 4 → Call := fun _ => {}

/-- A probe runs alone and its success closes the breaker. -/
def loneProbe : List (Label ℤ 4) :=
  threeFailures 0 1 ++ [⟨32, 2, .returns⟩, ⟨32, 2, .returns⟩, ⟨33, 2, .returns⟩]

theorem starts_not_opened_alone : ∃ h s,
    Run (Calls.step dbCircuit fourCalls) (NoneWaiting dbCircuit fourCalls) (Calls.init dbCircuit (0 : ℤ))
      h s ∧ s.circuit.breaker.state = .closed ∧ h.countP (fun m => Starts m) = 4 ∧
      ∀ m ∈ h, Starts m → m.after.circuit.breaker.state ≠ .opened := by
  have hexec : (exec (Calls.step dbCircuit fourCalls) (NoneWaiting dbCircuit fourCalls) []
      (Calls.init dbCircuit (0 : ℤ)) loneProbe).map
      (fun r => (r.2.circuit.breaker.state, r.1.countP fun m => Starts m)) = some (.closed, 4) := by decide +kernel
  obtain ⟨⟨h, s⟩, hs, heq⟩ := Option.map_eq_some_iff.mp hexec
  have hrun := run_of_exec hs
  exact ⟨h, s, hrun, congrArg Prod.fst heq, congrArg Prod.snd heq, starts_not_opened hrun⟩

/-- A second call waits for the permit of a probe whose failure reopens the breaker. -/
def waitingProbe : List (Label ℤ 4) :=
  threeFailures 0 1 ++ [⟨32, 2, .returns⟩, ⟨32, 2, .returns⟩, ⟨32, 3, .returns⟩,
    ⟨32, 2, .raises connectionLost⟩, ⟨32, 3, .returns⟩]

theorem started_while_opened : ¬∀ (n : ℕ) (c : CircuitConfig ℤ) (calls : Fin n → Call) (t₀ : ℤ) h s,
    (∀ i, (calls i).wrapper = .retryWithDbCircuit) →
    Run (Calls.step c calls) Calls.InOrder (Calls.init c t₀) h s →
      ∀ m ∈ h, Starts m → m.after.circuit.breaker.state ≠ .opened := by
  intro hall
  have hexec : (exec (Calls.step dbCircuit fourCalls) Calls.InOrder [] (Calls.init dbCircuit (0 : ℤ))
      waitingProbe).map (fun r => r.1.any fun m =>
        decide (Starts m ∧ m.after.circuit.breaker.state = .opened)) = some true := by decide +kernel
  obtain ⟨⟨h, s⟩, hs, hany⟩ := Option.map_eq_some_iff.mp hexec
  obtain ⟨m, hm, hbad⟩ := List.any_eq_true.mp hany
  obtain ⟨hstart, hopen⟩ := of_decide_eq_true hbad
  exact hall 4 dbCircuit fourCalls 0 h s (fun _ => rfl) (run_of_exec hs) m hm hstart hopen

end Phyllonix.Circuit
