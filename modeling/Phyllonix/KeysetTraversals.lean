import Phyllonix.KeysetPages

/-!
# Traversals of a changing table

Each page is read from the table as it is then. Rows come and go and change between the
pages, but a row that is there whenever a page is read is met, and no key is met twice.
-/

namespace Keyset
variable {α κ : Type*} [LinearOrder κ] (key : α → κ) (tables : ℕ → List α) (limit : ℕ → ℕ)

/-- The pages from the `k`-th on, `n` of them at most, and whether the last one was met. -/
def traverse : ℕ → ℕ → Option κ → List (List α) × Bool
  | 0, _, _ => ([], false)
  | n + 1, k, cursor =>
    let rest := remaining key cursor (tables k)
    if limit k < rest.length then
      let page := rest.take (limit k)
      let pages := traverse n (k + 1) (page.getLast?.map key)
      (page :: pages.1, pages.2)
    else ([rest], true)

variable {key tables limit} {n k : ℕ} {cursor : Option κ} {table : List α}

theorem mem_remaining {x : α} : x ∈ remaining key cursor table ↔ x ∈ table ∧ ∀ c ∈ cursor, c < key x := by
  rw [remaining, List.mem_insertionSort, List.mem_filter, decide_eq_true_eq]

theorem remaining_strict (h : (table.map key).Nodup) : Ordered key (remaining key cursor table) := by
  have hperm := List.perm_insertionSort (fun x y => key x ≤ key y)
    (table.filter fun x => ∀ c ∈ cursor, c < key x)
  have hnodup : (remaining key cursor table).Pairwise fun x y => key x ≠ key y :=
    List.pairwise_map.1 ((hperm.map key).nodup_iff.2 (h.sublist (List.filter_sublist.map key)))
  have hsorted : (remaining key cursor table).Pairwise fun x y => key x ≤ key y :=
    List.pairwise_insertionSort _ _
  exact hsorted.imp₂ (fun x y hle hne => lt_of_le_of_ne hle hne) hnodup

/-- A page is followed by the key of its last row. -/
theorem page_last {rest : List α} (hlimit : 1 ≤ limit k) (hlt : limit k < rest.length) :
    ∃ init p, rest.take (limit k) = init ++ [p] ∧ rest = init ++ p :: rest.drop (limit k) := by
  have hne : rest.take (limit k) ≠ [] := by
    rw [← List.length_pos_iff, List.length_take]
    omega
  refine ⟨_, _, (List.dropLast_append_getLast hne).symm, ?_⟩
  rw [← List.singleton_append, ← List.append_assoc, List.dropLast_append_getLast, List.take_append_drop]

theorem traverse_last (h : ¬limit k < (remaining key cursor (tables k)).length) :
    traverse key tables limit (n + 1) k cursor = ([remaining key cursor (tables k)], true) := by
  rw [traverse]
  exact if_neg h

theorem traverse_more {init : List α} {p : α} (h : limit k < (remaining key cursor (tables k)).length)
    (htake : (remaining key cursor (tables k)).take (limit k) = init ++ [p]) :
    traverse key tables limit (n + 1) k cursor =
      ((init ++ [p]) :: (traverse key tables limit n (k + 1) (some (key p))).1,
        (traverse key tables limit n (k + 1) (some (key p))).2) := by
  rw [traverse]
  simp only [if_pos h, htake, List.getLast?_concat, Option.map_some]

/-- What is met comes after the cursor. -/
theorem traverse_after (hlimit : ∀ k, 1 ≤ limit k) {x : α}
    (hx : x ∈ (traverse key tables limit n k cursor).1.flatten) : ∀ c ∈ cursor, c < key x := by
  induction n generalizing k cursor with
  | zero => cases hx
  | succ n ih =>
    intro c hc
    by_cases hlt : limit k < (remaining key cursor (tables k)).length
    · obtain ⟨init, p, htake, -⟩ := page_last (hlimit k) hlt
      rw [traverse_more hlt htake, List.flatten_cons, List.mem_append] at hx
      have hlast : p ∈ (remaining key cursor (tables k)).take (limit k) := by simp [htake]
      have hp := List.mem_of_mem_take hlast
      rcases hx with hx | hx
      · exact (mem_remaining.1 (List.mem_of_mem_take (htake ▸ hx))).2 c hc
      · exact ((mem_remaining.1 hp).2 c hc).trans (ih hx (key p) rfl)
    · rw [traverse_last hlt, List.flatten_singleton] at hx
      exact (mem_remaining.1 hx).2 c hc

/-- The rows of a page are rows of the table at that time. -/
theorem traverse_rows (hlimit : ∀ k, 1 ≤ limit k) {j : ℕ} {page : List α} {x : α}
    (hpage : (traverse key tables limit n k cursor).1[j]? = some page) (hx : x ∈ page) : x ∈ tables (k + j) := by
  induction n generalizing k cursor j with
  | zero => simp [traverse] at hpage
  | succ n ih =>
    by_cases hlt : limit k < (remaining key cursor (tables k)).length
    · obtain ⟨init, p, htake, -⟩ := page_last (hlimit k) hlt
      rw [traverse_more hlt htake] at hpage
      cases j with
      | zero =>
        obtain rfl := Option.some.inj hpage
        exact (mem_remaining.1 (List.mem_of_mem_take (htake ▸ hx))).1
      | succ j =>
        have htail := ih (k := k + 1) hpage
        rwa [Nat.add_assoc, Nat.add_comm 1 j] at htail
    · rw [traverse_last hlt] at hpage
      cases j with
      | zero =>
        obtain rfl := Option.some.inj hpage
        exact (mem_remaining.1 hx).1
      | succ j => simp at hpage

/-- The pages together are in strict order, so no key is met twice. -/
theorem traverse_ordered (hlimit : ∀ k, 1 ≤ limit k) (hkeys : ∀ k, ((tables k).map key).Nodup) :
    Ordered key (traverse key tables limit n k cursor).1.flatten := by
  induction n generalizing k cursor with
  | zero => exact .nil
  | succ n ih =>
    have hstrict : Ordered key (remaining key cursor (tables k)) := remaining_strict (hkeys k)
    by_cases hlt : limit k < (remaining key cursor (tables k)).length
    · obtain ⟨init, p, htake, -⟩ := page_last (hlimit k) hlt
      rw [traverse_more hlt htake, List.flatten_cons]
      have hpage : Ordered key (init ++ [p]) := htake ▸ hstrict.sublist (List.take_sublist _ _)
      refine List.pairwise_append.2 ⟨hpage, ih, fun x hx y hy => ?_⟩
      have hy' : key p < key y := traverse_after hlimit hy (key p) rfl
      rcases List.mem_append.1 hx with hx | hx
      · exact ((List.pairwise_append.1 hpage).2.2 x hx p List.mem_cons_self).trans hy'
      · rwa [List.mem_singleton.1 hx]
    · rw [traverse_last hlt, List.flatten_singleton]
      exact hstrict

theorem traverse_ne_nil (hend : (traverse key tables limit n k cursor).2 = true) :
    (traverse key tables limit n k cursor).1 ≠ [] := by
  cases n with
  | zero => cases hend
  | succ n =>
    rw [traverse]
    dsimp only
    split <;> exact List.cons_ne_nil _ _

/-- A traversal that goes on has met a row on each page. -/
theorem traverse_length (hlimit : ∀ k, 1 ≤ limit k) (hgoes : (traverse key tables limit n k cursor).2 = false) :
    n ≤ (traverse key tables limit n k cursor).1.flatten.length := by
  induction n generalizing k cursor with
  | zero => exact Nat.zero_le _
  | succ n ih =>
    by_cases hlt : limit k < (remaining key cursor (tables k)).length
    · obtain ⟨init, p, htake, -⟩ := page_last (hlimit k) hlt
      rw [traverse_more hlt htake] at hgoes ⊢
      have hrest := ih hgoes
      rw [List.flatten_cons, List.length_append, List.length_append, List.length_singleton]
      omega
    · rw [traverse_last hlt] at hgoes
      cases hgoes

/-- When the last page is met, every key that was in the table of each page is met. -/
theorem traverse_complete (hlimit : ∀ k, 1 ≤ limit k) (hkeys : ∀ k, ((tables k).map key).Nodup) {c : κ}
    (hend : (traverse key tables limit n k cursor).2 = true) (hc : ∀ c' ∈ cursor, c' < c)
    (hthere : ∀ j < (traverse key tables limit n k cursor).1.length, c ∈ (tables (k + j)).map key) :
    c ∈ (traverse key tables limit n k cursor).1.flatten.map key := by
  induction n generalizing k cursor with
  | zero => cases hend
  | succ n ih =>
    have hmem : c ∈ (tables k).map key → ∃ x ∈ remaining key cursor (tables k), key x = c := by
      intro h
      obtain ⟨x, hx, rfl⟩ := List.mem_map.1 h
      exact ⟨x, mem_remaining.2 ⟨hx, hc⟩, rfl⟩
    by_cases hlt : limit k < (remaining key cursor (tables k)).length
    · obtain ⟨init, p, htake, hrest⟩ := page_last (hlimit k) hlt
      rw [traverse_more hlt htake] at hend hthere ⊢
      obtain ⟨x, hx, rfl⟩ := hmem (hthere 0 (Nat.succ_pos _))
      rw [List.flatten_cons, List.map_append, List.mem_append]
      have hstrict : Ordered key (remaining key cursor (tables k)) := remaining_strict (hkeys k)
      rw [hrest] at hx hstrict
      rcases List.mem_append.1 hx with hx | hx
      · exact .inl (List.mem_map.2 ⟨x, List.mem_append_left _ hx, rfl⟩)
      rcases List.mem_cons.1 hx with rfl | hx
      · exact .inl (List.mem_map.2 ⟨x, by simp, rfl⟩)
      have hlast : key p < key x := (List.pairwise_cons.1 (List.pairwise_append.1 hstrict).2.1).1 x hx
      refine .inr (ih hend (fun c' hc' => ?_) fun j hj => ?_)
      · cases hc'
        exact hlast
      · rw [Nat.add_assoc, Nat.add_comm 1 j]
        exact hthere (j + 1) (Nat.succ_lt_succ hj)
    · rw [traverse_last hlt] at hthere ⊢
      obtain ⟨x, hx, hxc⟩ := hmem (hthere 0 Nat.one_pos)
      rw [List.flatten_singleton]
      exact List.mem_map.2 ⟨x, hx, hxc⟩

end Keyset
