import Mathlib.Data.List.Sort

/-!
# Keyset pagination

Rows are read in the order of a key, a page at a time, each page starting after the key of
the last row before it. Rows that arrive in front of everything read so far are not met.
-/

namespace Keyset

variable {α κ : Type*} [LinearOrder κ] (key : α → κ)

/-- The rows after the cursor, in order. -/
def remaining (cursor : Option κ) (table : List α) : List α :=
  (table.filter fun x => ∀ k ∈ cursor, k < key x).insertionSort fun x y => key x ≤ key y

/-- In strict order. -/
def Ordered (rows : List α) : Prop := rows.Pairwise fun x y => key x < key y

variable {key}

theorem ordered_unique {rows rows' : List α} (h : Ordered key rows)
    (hle : rows'.Pairwise fun x y => key x ≤ key y) (hperm : rows'.Perm rows) : rows' = rows := by
  have hnodup : (rows.map key).Nodup := List.pairwise_map.2 (h.imp fun hlt => hlt.ne)
  refine List.Perm.eq_of_pairwise ?_ hle (h.imp fun hlt => hlt.le) hperm
  intro x y hx hy hxy hyx
  exact List.inj_on_of_nodup_map hnodup (hperm.subset hx) hy (le_antisymm hxy hyx)

theorem remaining_eq {cursor : Option κ} {table rows : List α} (h : Ordered key rows)
    (hperm : (table.filter fun x => ∀ k ∈ cursor, k < key x).Perm rows) :
    remaining key cursor table = rows :=
  ordered_unique h (List.pairwise_insertionSort _ _) ((List.perm_insertionSort _ _).trans hperm)

theorem remaining_none_perm (table : List α) : (remaining key none table).Perm table := by
  have hall : (table.filter fun x => ∀ k ∈ (none : Option κ), k < key x) = table :=
    List.filter_eq_self.2 fun x _ => by simp
  rw [remaining, hall]
  exact List.perm_insertionSort _ _

theorem remaining_ordered {table : List α} (h : (table.map key).Nodup) :
    Ordered key (remaining key none table) := by
  have hsorted : (remaining key none table).Pairwise fun x y => key x ≤ key y :=
    List.pairwise_insertionSort _ _
  have hnodup : (remaining key none table).Pairwise fun x y => key x ≠ key y :=
    List.pairwise_map.1 (((remaining_none_perm table).map key).nodup_iff.2 h)
  exact hsorted.imp₂ (fun x y hle hne => lt_of_le_of_ne hle hne) hnodup

/-- After a row of the listing come the rows behind it, whatever was put in front meanwhile. -/
theorem remaining_after {start inserted table front rest : List α} {p : α}
    (hordered : Ordered key (front ++ p :: rest)) (hstart : (front ++ p :: rest).Perm start)
    (htable : table.Perm (start ++ inserted)) (hinserted : ∀ x ∈ inserted, ∀ y ∈ start, key x < key y) :
    remaining key (some (key p)) table = rest := by
  obtain ⟨-, hrest, hfront⟩ := List.pairwise_append.1 hordered
  have hp : p ∈ start := hstart.subset (List.mem_append_right _ List.mem_cons_self)
  have hkeep : ∀ x ∈ rest, key p < key x := (List.pairwise_cons.1 hrest).1
  refine remaining_eq (List.pairwise_cons.1 hrest).2 ?_
  simp only [Option.mem_def, Option.some.injEq, forall_eq']
  refine ((htable.trans (hstart.symm.append_right inserted)).filter _).trans (List.Perm.of_eq ?_)
  have hfrontNone : front.filter (fun x => decide (key p < key x)) = [] :=
    List.filter_eq_nil_iff.2 fun x hx => by
      simpa using (hfront x hx p List.mem_cons_self).le
  have hinsertedNone : inserted.filter (fun x => decide (key p < key x)) = [] :=
    List.filter_eq_nil_iff.2 fun x hx => by simpa using (hinserted x hx p hp).le
  have hrestAll : rest.filter (fun x => decide (key p < key x)) = rest :=
    List.filter_eq_self.2 fun x hx => by simpa using hkeep x hx
  rw [List.filter_append, List.filter_append, hfrontNone, hinsertedNone, List.filter_cons_of_neg (by simp),
    hrestAll, List.nil_append, List.append_nil]

end Keyset
