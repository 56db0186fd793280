import Phyllonix.RetrySteps
import Mathlib.Algebra.BigOperators.Group.Finset.Basic
import Mathlib.Data.Fintype.BigOperators
import Mathlib.Data.Fin.VecNotation

/-!
# The permits of the half-open semaphore

Free permits, permits held by attempts in progress, and permits that were never given
back add up to the bound the semaphore was made with.
-/

namespace Phyllonix.Circuit
open Transition
variable {T : Type} {n : ℕ}

def Phase.holds (p : Phase) : Bool :=
  match p.attempt with
  | some (_, acquiredProbe) => acquiredProbe
  | none => false

/-- How many attempts hold a permit. -/
def holders (s : Calls T n) : ℕ := (Finset.univ.filter fun i => (s.phase i).holds).card

section Holding
variable {p : Phase} {call : Call} {a : Act}

theorem holds_of_attempt {k : ℕ} {probe : Bool} (hp : p.attempt = some (k, probe)) : p.holds = probe := by
  simp [Phase.holds, hp]

theorem not_holds_of_attempt (hp : p.attempt = none) : p.holds = false := by
  simp [Phase.holds, hp]

@[simp] theorem holds_probing {k : ℕ} : Phase.holds (.probing k) = false := rfl
@[simp] theorem holds_sleeping {k : ℕ} : Phase.holds (.sleeping k) = false := rfl
@[simp] theorem holds_running {k : ℕ} {probe : Bool} : Phase.holds (.running k probe) = probe := rfl

theorem leaks_of_attempt (hp : p.attempt = none) : call.leaks p a = false := by
  unfold Call.leaks
  split <;> simp_all

theorem card_filter_update (f : Fin n → Phase) (i : Fin n) (p' : Phase) :
    (Finset.univ.filter fun j => (Function.update f i p' j).holds).card + (f i).holds.toNat =
      (Finset.univ.filter fun j => (f j).holds).card + p'.holds.toNat := by
  have hsum : ∀ g : Fin n → Phase,
      (Finset.univ.filter fun j => (g j).holds).card = ∑ j, (g j).holds.toNat := by
    intro g
    rw [Finset.card_filter]
    apply Finset.sum_congr rfl
    intro j _
    cases (g j).holds <;> rfl
  have hupdate : (fun j => (Function.update f i p' j).holds.toNat) =
      Function.update (fun j => (f j).holds.toNat) i p'.holds.toNat :=
    Function.comp_update (fun p : Phase => p.holds.toNat) f i p'
  rw [hsum, hsum, hupdate, Finset.sum_update_of_mem (Finset.mem_univ i),
    Finset.sum_eq_add_sum_sdiff_singleton_of_mem (Finset.mem_univ i)]
  omega

end Holding

section Runs
variable [LinearOrder T] [Sub T] {c : CircuitConfig T} {calls : Fin n → Call} {t₀ : T}
  {h : List (CallMove T n)} {s : Calls T n}

/-- One step moves permits between the semaphore, the attempts and the lost ones. -/
theorem Advanced.permits {now : T} {call : Call} {s : DbCircuit T} {p p' : Phase} {a : Act}
    {es : List Effect} (h : Advanced c now call s p a es p') :
    (es.foldl (Effect.apply c now) s).permits + p'.holds.toNat + (call.leaks p a).toNat =
      s.permits + p.holds.toNat := by
  cases h with
  | refused hp hb hp' hs => simp [Effect.apply, not_holds_of_attempt hp.1, not_holds_of_attempt hp'.1,
      leaks_of_attempt hp.1]
  | queued hp hb hs => simp [Effect.apply, not_holds_of_attempt hp.1, leaks_of_attempt hp.1]
  | entered hp hb hs => simp [Effect.apply, not_holds_of_attempt hp.1, leaks_of_attempt hp.1]
  | granted hp hpos =>
    subst hp
    simp only [Effect.apply, List.foldl_cons, List.foldl_nil, holds_running, holds_probing,
      leaks_of_attempt attempt_probing, Bool.toNat_true, Bool.toNat_false]
    omega
  | suspended hp hp' hw hf hl => simp [holds_of_attempt hp, holds_of_attempt hp', hl]
  | succeeded hp hp' ha hf hl =>
    rw [foldl_releaseProbe, holds_of_attempt hp, not_holds_of_attempt hp'.1, hl]
    simp [Effect.apply]
  | failed hp hf hg hl =>
    rw [foldl_releaseProbe, holds_of_attempt hp, holds_sleeping, hl]
    simp [Effect.apply]
  | ended hp hp' hf hl =>
    rw [foldl_releaseProbe_only, holds_of_attempt hp, not_holds_of_attempt hp'.1, hl]
    simp
  | leaked hp hp' hf hl => simp [holds_of_attempt hp, not_holds_of_attempt hp'.1, hl]
  | idled hp hp' => simp [not_holds_of_attempt hp, not_holds_of_attempt hp'.1, leaks_of_attempt hp]

/-- The steps at which a permit is lost. -/
def Leaks (calls : Fin n → Call) (m : CallMove T n) : Bool :=
  (calls m.label.task).leaks (m.before.phase m.label.task) m.label.act

/-- Free permits, held permits and lost permits add up to the bound. -/
theorem permits_of_run (hrun : Run (Calls.step c calls) Calls.InOrder (Calls.init c t₀) h s) :
    s.circuit.permits + holders s + h.countP (Leaks calls) = c.maxConcurrentHalfOpenProbes := by
  induction hrun with
  | start => simp [Calls.init, holders, Phase.holds]
  | @next h s s' l hrun hG hs ih =>
    obtain ⟨es, p', hadv, -, rfl⟩ := step_cases hs
    have hstep := hadv.permits
    have hheld := card_filter_update s.phase l.task p'
    have hleak : ∀ s', List.countP (Leaks calls) (⟨s, l, s'⟩ :: h) =
        h.countP (Leaks calls) + ((calls l.task).leaks (s.phase l.task) l.act).toNat := by
      intro s'
      by_cases hl : (calls l.task).leaks (s.phase l.task) l.act <;> simp [Leaks, hl]
    rw [hleak]
    simp only [holders] at ih ⊢
    omega

/-- The bound on concurrent probes is never exceeded, whatever is lost. -/
theorem holders_le (hrun : Run (Calls.step c calls) Calls.InOrder (Calls.init c t₀) h s) :
    holders s ≤ c.maxConcurrentHalfOpenProbes := by
  have hlaw := permits_of_run hrun
  omega

/-- Permits are conserved as long as no transaction is left holding one. -/
theorem permits_conserved_iff (hrun : Run (Calls.step c calls) Calls.InOrder (Calls.init c t₀) h s) :
    s.circuit.permits + holders s = c.maxConcurrentHalfOpenProbes ↔ ∀ m ∈ h, Leaks calls m = false := by
  have hlaw := permits_of_run hrun
  have hnone : h.countP (Leaks calls) = 0 ↔ ∀ m ∈ h, Leaks calls m = false := by
    simp [List.countP_eq_zero]
  rw [← hnone]
  omega

end Runs

/-- Two retried calls and one transaction. -/
def outage : Fin 3 → Call :=
  ![{}, {}, { wrapper := .retryTransactionWithDbCircuit }]

/-- Thirty seconds after the breaker opened the transaction is a probe. -/
def opening : List (Label ℤ 3) := threeFailures 0 1 ++ [⟨32, 2, .returns⟩, ⟨32, 2, .returns⟩]

/-- The probe is cancelled while the transaction function runs. -/
def cancelledProbe : List (Label ℤ 3) := opening ++ [⟨33, 2, .cancelled⟩, ⟨33, 2, .returns⟩]

def committedProbe : List (Label ℤ 3) :=
  opening ++ [⟨33, 2, .returns⟩, ⟨33, 2, .returns⟩, ⟨33, 2, .returns⟩]

theorem permits_conserved_iff_committed : ∃ h s,
    Run (Calls.step dbCircuit outage) Calls.InOrder (Calls.init dbCircuit (0 : ℤ)) h s ∧
      s.circuit.breaker.state = .closed ∧
      (s.circuit.permits + holders s = 1 ↔ ∀ m ∈ h, Leaks outage m = false) := by
  have hexec : (exec (Calls.step dbCircuit outage) Calls.InOrder [] (Calls.init dbCircuit (0 : ℤ))
      committedProbe).map (·.2.circuit.breaker.state) = some .closed := by decide +kernel
  obtain ⟨⟨h, s⟩, hs, hstate⟩ := Option.map_eq_some_iff.mp hexec
  have hrun := run_of_exec hs
  exact ⟨h, s, hrun, hstate, permits_conserved_iff hrun⟩

theorem permit_lost : ¬∀ (n : ℕ) (c : CircuitConfig ℤ) (calls : Fin n → Call) (t₀ : ℤ) h s,
    Run (Calls.step c calls) Calls.InOrder (Calls.init c t₀) h s →
      s.circuit.permits + holders s = c.maxConcurrentHalfOpenProbes := by
  intro hall
  have hexec : (exec (Calls.step dbCircuit outage) Calls.InOrder [] (Calls.init dbCircuit (0 : ℤ))
      cancelledProbe).map (fun r => r.2.circuit.permits + holders r.2) = some 0 := by decide +kernel
  obtain ⟨⟨h, s⟩, hs, hzero⟩ := Option.map_eq_some_iff.mp hexec
  have hone : s.circuit.permits + holders s = 1 := hall 3 dbCircuit outage 0 h s (run_of_exec hs)
  dsimp only at hzero
  omega

end Phyllonix.Circuit
