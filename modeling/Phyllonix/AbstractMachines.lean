import Mathlib.Data.List.Infix
import Phyllonix.ProcessNumbers

/-!
# Abstract machines

A machine says which states an operation may lead to. A run is kept with the operations
taken so far, the oldest first; a run that is cut short is a run.
-/

namespace Abstract
variable {A O : Type*}

structure Machine (A O : Type*) where
  step : A → O → A → Prop

namespace Machine

inductive Runs (M : Machine A O) (a₀ : A) : List O → A → Prop
  | start : Runs M a₀ [] a₀
  | next {os : List O} {a a' : A} {o : O} : Runs M a₀ os a → M.step a o a' → Runs M a₀ (os ++ [o]) a'

variable {M : Machine A O} {a₀ a a' : A} {os os' : List O} {o : O}

theorem runs_append_singleton : M.Runs a₀ (os ++ [o]) a' ↔ ∃ a, M.Runs a₀ os a ∧ M.step a o a' := by
  constructor
  · intro h
    generalize hos : os ++ [o] = os' at h
    cases h with
    | start => simp at hos
    | next hrun hstep =>
      obtain ⟨rfl, hlast⟩ := List.append_inj' hos rfl
      obtain rfl := List.singleton_inj.mp hlast
      exact ⟨_, hrun, hstep⟩
  · rintro ⟨a, hrun, hstep⟩
    exact .next hrun hstep

theorem Runs.split (h : M.Runs a₀ (os ++ os') a) : ∃ b, M.Runs a₀ os b ∧ M.Runs b os' a := by
  induction os' using List.reverseRecOn generalizing a with
  | nil =>
    rw [List.append_nil] at h
    exact ⟨a, h, .start⟩
  | append_singleton os' o ih =>
    rw [← List.append_assoc, runs_append_singleton] at h
    obtain ⟨c, hrun, hstep⟩ := h
    obtain ⟨b, hfront, hback⟩ := ih hrun
    exact ⟨b, hfront, .next hback hstep⟩

/-- The invariant rule. -/
theorem Runs.keeps {I : A → Prop} (h : M.Runs a₀ os a) (h₀ : I a₀)
    (hstep : ∀ a o a', I a → o ∈ os → M.step a o a' → I a') : I a := by
  induction h with
  | start => exact h₀
  | @next os a a' o hrun hs ih =>
    have hI : I a := ih fun a o a' hI ho => hstep a o a' hI (List.mem_append_left _ ho)
    exact hstep a o a' hI (by simp) hs

/-- A value that every step computes from the one before is computed by folding over the run. -/
theorem Runs.folds {V : Type*} {f : A → V} {after : V → O → V} (h : M.Runs a₀ os a)
    (hstep : ∀ a o a', M.step a o a' → f a' = after (f a) o) : f a = os.foldl after (f a₀) := by
  induction h with
  | start => rfl
  | next _ hs ih => rw [List.foldl_append, List.foldl_cons, List.foldl_nil, ← ih, hstep _ _ _ hs]

end Machine
end Abstract
