import Mathlib.Data.ENat.Lattice
import Mathlib.Algebra.Order.Ring.Rat
import Mathlib.Tactic.Linarith
import Mathlib.Tactic.Ring

/-!
# Retried outcomes

A loop that is given one outcome after the other, counted from one, and tries again after
some of them. The law says how many outcomes it takes: up to the first after which it does
not try again, and never more than its number of attempts.
-/

namespace Retry
variable {O : Type}

/-- The position of the first outcome after which there is no further try. -/
noncomputable def settledAt (again : O → Prop) (outs : ℕ → O) : ℕ∞ :=
  ⨅ i : {i : ℕ // 1 ≤ i ∧ ¬again (outs i)}, (i.1 : ℕ∞)

section Positions
variable {again : O → Prop} {outs : ℕ → O} {n attempts : ℕ}

theorem settledAt_le (hpos : 1 ≤ n) (hn : ¬again (outs n)) : settledAt again outs ≤ n :=
  iInf_le (fun i : {i : ℕ // 1 ≤ i ∧ ¬again (outs i)} => (i.1 : ℕ∞)) ⟨n, hpos, hn⟩

theorem le_settledAt (h : ∀ i, 1 ≤ i → i < n → again (outs i)) : (n : ℕ∞) ≤ settledAt again outs := by
  refine le_iInf fun ⟨i, hpos, hi⟩ => ?_
  by_contra hlt
  exact hi (h i hpos (by exact_mod_cast not_le.1 hlt))

theorem settledAt_eq (hpos : 1 ≤ n) (h : ∀ i, 1 ≤ i → i < n → again (outs i)) (hn : ¬again (outs n)) :
    settledAt again outs = n :=
  le_antisymm (settledAt_le hpos hn) (le_settledAt h)

theorem min_settledAt (hpos : 1 ≤ n) (hle : n ≤ attempts) (h : ∀ i, 1 ≤ i → i < n → again (outs i))
    (hn : again (outs n) → n = attempts) : (n : ℕ∞) = min (attempts : ℕ∞) (settledAt again outs) := by
  by_cases hagain : again (outs n)
  · obtain rfl := hn hagain
    exact (min_eq_left (le_settledAt h)).symm
  · rw [settledAt_eq hpos h hagain]
    exact (min_eq_right (by exact_mod_cast hle)).symm

theorem one_le_of_eq_min (hn : (n : ℕ∞) = min (attempts : ℕ∞) (settledAt again outs)) (hpos : 1 ≤ attempts) :
    1 ≤ n := by
  have hfirst : ((1 : ℕ) : ℕ∞) ≤ settledAt again outs :=
    le_settledAt fun i hpos hi => absurd hpos (Nat.not_le.2 hi)
  have hle : ((1 : ℕ) : ℕ∞) ≤ n := hn.symm ▸ le_min (by exact_mod_cast hpos) hfirst
  exact_mod_cast hle

/-- Every outcome but the last one taken was tried again. -/
theorem again_of_lt (hn : (n : ℕ∞) = min (attempts : ℕ∞) (settledAt again outs)) {i : ℕ} (hpos : 1 ≤ i)
    (hi : i < n) : again (outs i) := by
  by_contra h
  have hle : (n : ℕ∞) ≤ i := (hn.le.trans (min_le_right _ _)).trans (settledAt_le hpos h)
  exact absurd (by exact_mod_cast hle) (not_le.2 hi)

theorem eq_attempts_of_again (hn : (n : ℕ∞) = min (attempts : ℕ∞) (settledAt again outs))
    (hagain : again (outs n)) : n = attempts := by
  rcases min_cases (attempts : ℕ∞) (settledAt again outs) with ⟨hmin, -⟩ | ⟨hmin, hlt⟩
  · exact_mod_cast hn.trans hmin
  · exfalso
    have hsettled : settledAt again outs = n := (hn.trans hmin).symm
    have hnext : ((n + 1 : ℕ) : ℕ∞) ≤ settledAt again outs := by
      refine le_settledAt fun i hpos hi => ?_
      rcases Nat.lt_or_eq_of_le (Nat.le_of_lt_succ hi) with hlt | rfl
      · exact again_of_lt hn hpos hlt
      · exact hagain
    rw [hsettled] at hnext
    exact absurd (by exact_mod_cast hnext) (Nat.not_succ_le_self n)

end Positions

/-- The outcome at position `i` is taken with `left` tries left, and `qs` are the pauses
that follow: one after each outcome that is tried again. -/
inductive Tries {Q : Type} (again : O → Prop) (outs : ℕ → O) (pause : ℕ → Q → Prop) :
    ℕ → ℕ → List Q → Prop
  | settled {i left : ℕ} : ¬again (outs i) → Tries again outs pause i (left + 1) []
  | last {i : ℕ} : Tries again outs pause i 1 []
  | retried {i left : ℕ} {q : Q} {qs : List Q} : again (outs i) → pause i q →
      Tries again outs pause (i + 1) (left + 1) qs → Tries again outs pause i (left + 2) (q :: qs)

namespace Tries
variable {Q : Type} {again : O → Prop} {outs : ℕ → O} {pause : ℕ → Q → Prop} {i left attempts : ℕ}
  {qs : List Q}

theorem length_lt (h : Tries again outs pause i left qs) : qs.length < left := by
  induction h with
  | settled _ => exact Nat.succ_pos _
  | last => exact Nat.one_pos
  | retried _ _ _ ih => exact Nat.succ_lt_succ ih

theorem again_of_lt (h : Tries again outs pause i left qs) {j : ℕ} (hj : j < qs.length) :
    again (outs (i + j)) := by
  induction h generalizing j with
  | settled _ => exact absurd hj (Nat.not_lt_zero j)
  | last => exact absurd hj (Nat.not_lt_zero j)
  | @retried i _ _ _ hagain _ _ ih =>
    cases j with
    | zero => exact hagain
    | succ j =>
      rw [show i + (j + 1) = i + 1 + j by omega]
      exact ih (Nat.lt_of_succ_lt_succ hj)

theorem exhausted_of_again (h : Tries again outs pause i left qs) (hagain : again (outs (i + qs.length))) :
    qs.length + 1 = left := by
  induction h with
  | settled hnot => exact absurd hagain hnot
  | last => rfl
  | @retried i left _ qs _ _ _ ih =>
    rw [List.length_cons, show i + (qs.length + 1) = i + 1 + qs.length by omega] at hagain
    rw [List.length_cons, ih hagain]

theorem pause_get (h : Tries again outs pause i left qs) {j : ℕ} (hj : j < qs.length) :
    pause (i + j) qs[j] := by
  induction h generalizing j with
  | settled _ => exact absurd hj (Nat.not_lt_zero j)
  | last => exact absurd hj (Nat.not_lt_zero j)
  | @retried i _ _ _ _ hpause _ ih =>
    cases j with
    | zero => exact hpause
    | succ j =>
      rw [show i + (j + 1) = i + 1 + j by omega]
      exact ih (Nat.lt_of_succ_lt_succ hj)

/-- The loop takes as many outcomes as the law says. -/
theorem taken (h : Tries again outs pause 1 attempts qs) :
    ((qs.length + 1 : ℕ) : ℕ∞) = min (attempts : ℕ∞) (settledAt again outs) := by
  refine min_settledAt (Nat.le_add_left 1 _) h.length_lt (fun i hpos hi => ?_) fun hagain => ?_
  · obtain ⟨j, rfl⟩ := Nat.exists_eq_add_of_le hpos
    exact h.again_of_lt (by omega)
  · rw [Nat.add_comm] at hagain
    exact h.exhausted_of_again hagain

end Tries

end Retry
