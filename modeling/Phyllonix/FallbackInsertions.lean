import Mathlib.Order.BooleanAlgebra.Set
import Mathlib.Data.List.Pairwise
import Mathlib.Tactic.Tauto

/-!
# Insertions that fall back

Elements are inserted into a set one after another. An element that is there already
is refused, and the refusal takes the set back to an earlier one. The insertions go on
from there.
-/

namespace Relational
variable {α : Type} {T V A : Set α} {xs : List α} {x : α}

open Classical in
/-- The elements are inserted into `V` one after another. One that is there already takes the set back to `T`. -/
noncomputable def insertions (T V : Set α) : List α → Set α
  | [] => V
  | x :: xs => if x ∈ V then insertions T T xs else insertions T (insert x V) xs

theorem insertions_taken (h : x ∈ V) : insertions T V (x :: xs) = insertions T T xs := by
  simp [insertions, h]

theorem insertions_free (h : x ∉ V) : insertions T V (x :: xs) = insertions T (insert x V) xs := by
  simp [insertions, h]

theorem mem_insertions (h : x ∈ insertions T V xs) : x ∈ V ∨ x ∈ T ∨ x ∈ xs := by
  induction xs generalizing V with
  | nil => exact .inl h
  | cons y ys ih =>
    by_cases hy : y ∈ V
    · rw [insertions_taken hy] at h
      have hx := ih h
      simp only [List.mem_cons]
      tauto
    · rw [insertions_free hy] at h
      have hx := ih h
      simp only [Set.mem_insert_iff, List.mem_cons] at hx ⊢
      tauto

/-- The set that the insertions fall back to is never left. -/
theorem subset_insertions (h : T ⊆ V ∨ ∃ x ∈ xs, x ∈ V) : T ⊆ insertions T V xs := by
  induction xs generalizing V with
  | nil =>
    rcases h with h | ⟨x, hx, -⟩
    · exact h
    · cases hx
  | cons y ys ih =>
    by_cases hy : y ∈ V
    · rw [insertions_taken hy]
      exact ih (.inl le_rfl)
    · rw [insertions_free hy]
      apply ih
      rcases h with h | ⟨x, hx, hxV⟩
      · exact .inl (h.trans (Set.subset_insert _ _))
      · have hne : x ≠ y := fun he => hy (he ▸ hxV)
        exact .inr ⟨x, (List.mem_cons.mp hx).resolve_left hne, Set.mem_insert_of_mem _ hxV⟩

theorem insertions_of_free (hnd : xs.Nodup) (h : ∀ x ∈ xs, x ∉ V) : insertions T V xs = V ∪ {x | x ∈ xs} := by
  induction xs generalizing V with
  | nil => simp [insertions]
  | cons y ys ih =>
    obtain ⟨hy, hys⟩ := List.nodup_cons.mp hnd
    have hfree : ∀ x ∈ ys, x ∉ insert y V := by
      intro x hx hin
      rcases Set.mem_insert_iff.mp hin with rfl | hV
      · exact hy hx
      · exact h x (List.mem_cons_of_mem _ hx) hV
    rw [insertions_free (h y List.mem_cons_self), ih hys hfree]
    ext x
    simp only [Set.mem_union, Set.mem_insert_iff, Set.mem_ofPred_eq, List.mem_cons]
    tauto

/-- Nothing is lost on the way. -/
def Kept (T V : Set α) (xs : List α) : Prop :=
  V ⊆ insertions T V xs ∧ ∀ x ∈ xs, x ∈ insertions T V xs

/-- Where an element is refused, those of `T` come before the others. -/
def Orderly (T V : Set α) (xs : List α) : Prop :=
  (∃ x ∈ xs, x ∈ V) → (xs.Pairwise fun a b => b ∈ T → a ∈ T) ∧ V ⊆ T

theorem kept_self (h : Kept T T xs ↔ Orderly T T xs) :
    (∀ x ∈ xs, x ∈ insertions T T xs) ↔ xs.Pairwise fun a b => b ∈ T → a ∈ T := by
  constructor
  · intro hall
    by_cases hex : ∃ x ∈ xs, x ∈ T
    · exact (h.mp ⟨subset_insertions (.inl le_rfl), hall⟩ hex).1
    · apply List.pairwise_of_forall_mem_list
      intro a _ b hb hbT
      exact absurd ⟨b, hb, hbT⟩ hex
  · intro hp
    exact (h.mpr fun _ => ⟨hp, le_rfl⟩).2

theorem kept_taken (hxV : x ∈ V) (h : ∀ y ∈ x :: xs, y ∈ V → y ∈ T)
    (ih : Kept T T xs ↔ Orderly T T xs) : Kept T V (x :: xs) ↔ Orderly T V (x :: xs) := by
  have hxT : x ∈ T := h x List.mem_cons_self hxV
  have hT : T ⊆ insertions T T xs := subset_insertions (.inl le_rfl)
  have hpair := kept_self ih
  rw [Kept, Orderly, insertions_taken hxV]
  constructor
  · rintro ⟨hsub, hall⟩ -
    refine ⟨List.pairwise_cons.mpr ⟨fun _ _ _ => hxT, ?_⟩, fun y hy => ?_⟩
    · exact hpair.mp fun y hy => hall y (List.mem_cons_of_mem _ hy)
    · rcases mem_insertions (hsub hy) with hyT | hyT | hys
      · exact hyT
      · exact hyT
      · exact h y (List.mem_cons_of_mem _ hys) hy
  · intro hcond
    obtain ⟨hp, hsub⟩ := hcond ⟨x, List.mem_cons_self, hxV⟩
    refine ⟨hsub.trans hT, List.forall_mem_cons.mpr ⟨hT hxT, ?_⟩⟩
    exact hpair.mpr (List.pairwise_cons.mp hp).2

theorem kept_free (hxV : x ∉ V) (hxs : x ∉ xs) (h : ∀ y ∈ x :: xs, y ∈ V → y ∈ T)
    (ih : Kept T (insert x V) xs ↔ Orderly T (insert x V) xs) :
    Kept T V (x :: xs) ↔ Orderly T V (x :: xs) := by
  have hold : ∀ y ∈ xs, y ∈ insert x V → y ∈ V := by
    intro y hy hin
    rcases Set.mem_insert_iff.mp hin with rfl | hV
    · exact absurd hy hxs
    · exact hV
  have hex : (∃ y ∈ x :: xs, y ∈ V) ↔ ∃ y ∈ xs, y ∈ insert x V := by
    constructor
    · rintro ⟨y, hy, hyV⟩
      have hne : y ≠ x := fun he => hxV (he ▸ hyV)
      exact ⟨y, (List.mem_cons.mp hy).resolve_left hne, Set.mem_insert_of_mem _ hyV⟩
    · rintro ⟨y, hy, hin⟩
      exact ⟨y, List.mem_cons_of_mem _ hy, hold y hy hin⟩
  have hkept : Kept T V (x :: xs) ↔ Kept T (insert x V) xs := by
    rw [Kept, Kept, insertions_free hxV, Set.insert_subset_iff, List.forall_mem_cons]
    tauto
  rw [hkept, ih, Orderly, Orderly, hex]
  refine forall_congr' fun ⟨b, hb, hin⟩ => ?_
  have hbT : b ∈ T := h b (List.mem_cons_of_mem _ hb) (hold b hb hin)
  rw [List.pairwise_cons, Set.insert_subset_iff]
  constructor
  · rintro ⟨hp, hxT, hsub⟩
    exact ⟨⟨fun _ _ _ => hxT, hp⟩, hsub⟩
  · rintro ⟨⟨hall, hp⟩, hsub⟩
    exact ⟨hp, hall b hb hbT, hsub⟩

theorem kept_iff (hnd : xs.Nodup) (h : ∀ x ∈ xs, x ∈ V → x ∈ T) : Kept T V xs ↔ Orderly T V xs := by
  induction xs generalizing V with
  | nil => simp [Kept, Orderly, insertions]
  | cons x xs ih =>
    obtain ⟨hx, hxs⟩ := List.nodup_cons.mp hnd
    by_cases hxV : x ∈ V
    · exact kept_taken hxV h (ih hxs fun _ _ hy => hy)
    · apply kept_free hxV hx h
      apply ih hxs
      intro y hy hin
      rcases Set.mem_insert_iff.mp hin with rfl | hV
      · exact absurd hy hx
      · exact h y (List.mem_cons_of_mem _ hy) hV

/-- The result is the inserted elements when all of `T` was removed before, or when `T` is inserted again
before anything else. -/
theorem insertions_exact (hnd : xs.Nodup) : insertions T (T \ A) xs = {x | x ∈ xs} ↔
    T ⊆ A ∨ (T ⊆ {x | x ∈ xs} ∧ xs.Pairwise fun a b => b ∈ T → a ∈ T) := by
  by_cases hex : ∃ x ∈ xs, x ∈ T \ A
  · have hT : T ⊆ insertions T (T \ A) xs := subset_insertions (.inr hex)
    have hkeep := kept_iff (V := T \ A) hnd fun x _ hx => hx.1
    have hnot : ¬T ⊆ A := by
      obtain ⟨x, -, hx⟩ := hex
      exact fun hsub => hx.2 (hsub hx.1)
    rw [or_iff_right hnot]
    constructor
    · intro heq
      rw [Kept, heq] at hkeep
      rw [heq] at hT
      exact ⟨hT, (hkeep.mp ⟨fun x hx => hT hx.1, fun x hx => hx⟩ hex).1⟩
    · rintro ⟨hsub, hp⟩
      have hall := (hkeep.mpr fun _ => ⟨hp, fun x hx => hx.1⟩).2
      apply Set.Subset.antisymm
      · intro x hx
        rcases mem_insertions hx with hx | hx | hx
        · exact hsub hx.1
        · exact hsub hx
        · exact hx
      · exact hall
  · have hfree : ∀ x ∈ xs, x ∉ T \ A := fun x hx hin => hex ⟨x, hx, hin⟩
    rw [insertions_of_free hnd hfree]
    constructor
    · intro heq
      have hsub : T \ A ⊆ {x | x ∈ xs} := heq ▸ Set.subset_union_left
      refine .inl fun x hx => ?_
      by_contra hxA
      exact hfree x (hsub ⟨hx, hxA⟩) ⟨hx, hxA⟩
    · intro hcond
      have hsub : T ⊆ A := by
        rcases hcond with h | ⟨h, -⟩
        · exact h
        · intro x hx
          by_contra hxA
          exact hfree x (h hx) ⟨hx, hxA⟩
      rw [Set.sdiff_eq_empty.mpr hsub, Set.empty_union]

end Relational
