import Mathlib.Data.Nat.Notation
import Mathlib.Data.List.Basic
import Phyllonix.ProcessNumbers

/-!
# Runs of labelled transition systems

A run is kept with its history, the newest move first. An invariant may speak about
the history as well as about the state, so that what a state counts can be compared
with what has happened.
-/

namespace Transition
variable {σ ℓ : Type}

structure Move (σ ℓ : Type) where
  before : σ
  label : ℓ
  after : σ

abbrev Step (σ ℓ : Type) := σ → ℓ → Option σ

inductive Run (step : Step σ ℓ) (G : σ → ℓ → Prop) (s₀ : σ) : List (Move σ ℓ) → σ → Prop
  | start : Run step G s₀ [] s₀
  | next {h : List (Move σ ℓ)} {s s' : σ} {a : ℓ} : Run step G s₀ h s → G s a →
      step s a = some s' → Run step G s₀ (⟨s, a, s'⟩ :: h) s'

/-- The moves since `p` last changed, the newest first. -/
def since {κ : Type} [DecidableEq κ] (p : σ → κ) (h : List (Move σ ℓ)) : List (Move σ ℓ) :=
  h.takeWhile fun m => p m.before = p m.after

section Since
variable {κ : Type} [DecidableEq κ] {p : σ → κ} {m : Move σ ℓ} {h : List (Move σ ℓ)}

theorem since_of_same (hm : p m.before = p m.after) : since p (m :: h) = m :: since p h := by
  simp [since, hm]

theorem since_of_change (hm : p m.before ≠ p m.after) : since p (m :: h) = [] := by
  simp [since, hm]

end Since

/-- How many of the newest entries are `a` before the first that is not. -/
def streak {α : Type} [DecidableEq α] (a : α) (l : List α) : ℕ := (l.takeWhile (· = a)).length

section Streak
variable {α : Type} [DecidableEq α] {a b : α} {l : List α}

@[simp] theorem streak_nil : streak a [] = 0 := rfl

@[simp] theorem streak_cons_self : streak a (a :: l) = streak a l + 1 := by simp [streak]

theorem streak_cons_of_ne (hb : b ≠ a) : streak a (b :: l) = 0 := by simp [streak, hb]

theorem take_eq_replicate_iff {k : ℕ} : l.take k = List.replicate k a ↔ k ≤ streak a l := by
  induction l generalizing k with
  | nil => cases k <;> simp [List.replicate_succ]
  | cons b l ih =>
    cases k with
    | zero => simp
    | succ k =>
      by_cases hb : b = a
      · subst hb
        simp [List.replicate_succ, ih]
      · simp [List.replicate_succ, hb, streak_cons_of_ne hb]

end Streak

section Runs
variable {step : Step σ ℓ} {G : σ → ℓ → Prop} {s₀ s : σ} {h : List (Move σ ℓ)}

/-- The invariant rule. -/
theorem Run.inv {I : List (Move σ ℓ) → σ → Prop} (hrun : Run step G s₀ h s) (h₀ : I [] s₀)
    (hstep : ∀ h s a s', I h s → G s a → step s a = some s' → I (⟨s, a, s'⟩ :: h) s') : I h s := by
  induction hrun with
  | start => exact h₀
  | next _ hG hs ih => exact hstep _ _ _ _ ih hG hs

/-- Every move of a run satisfies, together with the moves before it, what is shown of one step. -/
theorem Run.forall_moves {I : List (Move σ ℓ) → σ → Prop} {M : List (Move σ ℓ) → Move σ ℓ → Prop}
    (hrun : Run step G s₀ h s) (h₀ : I [] s₀)
    (hstep : ∀ h s a s', I h s → G s a → step s a = some s' →
      I (⟨s, a, s'⟩ :: h) s' ∧ M h ⟨s, a, s'⟩) {m : Move σ ℓ} {h' : List (Move σ ℓ)}
    (hm : m :: h' <:+ h) : M h' m := by
  have hI : ∀ {h s}, Run step G s₀ h s → I h s := fun hrun =>
    hrun.inv h₀ fun h s a s' hI hG hs => (hstep h s a s' hI hG hs).1
  induction hrun with
  | start => simp at hm
  | next hrun hG hs ih =>
    rcases List.suffix_cons_iff.mp hm with heq | hm
    · cases heq
      exact (hstep _ _ _ _ (hI hrun) hG hs).2
    · exact ih hm

/-- What holds at every move of a run may be put into its guard. -/
theorem Run.guarded {P : σ → ℓ → Prop} (hrun : Run step G s₀ h s) (hP : ∀ m ∈ h, P m.before m.label) :
    Run step (fun s a => G s a ∧ P s a) s₀ h s := by
  induction hrun with
  | start => exact .start
  | next _ hg hs ih =>
    exact .next (ih fun m hm => hP m (List.mem_cons_of_mem _ hm)) ⟨hg, hP _ List.mem_cons_self⟩ hs

/-- Takes the listed steps after the moves `h`, when the guard allows them. -/
def exec (step : Step σ ℓ) (G : σ → ℓ → Prop) [∀ s a, Decidable (G s a)] (h : List (Move σ ℓ)) (s : σ) :
    List ℓ → Option (List (Move σ ℓ) × σ)
  | [] => some (h, s)
  | a :: as =>
    if G s a then (step s a).bind fun s' => exec step G (⟨s, a, s'⟩ :: h) s' as else none

theorem Run.exec [∀ s a, Decidable (G s a)] (hrun : Run step G s₀ h s) {as : List ℓ}
    {r : List (Move σ ℓ) × σ} (has : Transition.exec step G h s as = some r) : Run step G s₀ r.1 r.2 := by
  induction as generalizing s h with
  | nil =>
    cases has
    exact hrun
  | cons a as ih =>
    rw [Transition.exec] at has
    split at has
    · rename_i hG
      obtain ⟨s₁, hs, has⟩ := Option.bind_eq_some_iff.mp has
      exact ih (.next hrun hG hs) has
    · cases has

theorem run_of_exec [∀ s a, Decidable (G s a)] {as : List ℓ} {r : List (Move σ ℓ) × σ}
    (has : exec step G [] s₀ as = some r) : Run step G s₀ r.1 r.2 := Run.exec .start has

end Runs
end Transition
