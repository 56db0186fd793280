import Mathlib.Data.List.Nodup
import Mathlib.Logic.Function.Basic
import Mathlib.Algebra.BigOperators.Group.List.Basic
import Mathlib.Algebra.Order.Ring.Int
import Phyllonix.ProcessNumbers

/-!
# Stores of keyed tables with unique indexes

A store is a family of tables. Every row has a primary key, and it may occupy
entries of unique indexes. A null column and a partial index whose predicate
fails occupy no entry. Writing a row replaces the row with its primary key.
-/

namespace Relational

structure Schema where
  Tbl : Type
  [decTbl : DecidableEq Tbl]
  Row : Tbl → Type
  id : {t : Tbl} → Row t → ℕ
  Key : Type
  [decKey : DecidableEq Key]
  keys : {t : Tbl} → Row t → List Key

attribute [instance] Schema.decTbl Schema.decKey

variable {S : Schema}

instance Schema.lawfulKey : LawfulBEq S.Key := inferInstance

abbrev Store (S : Schema) := (t : S.Tbl) → List (S.Row t)

def putRow {t : S.Tbl} (r : S.Row t) (rows : List (S.Row t)) : List (S.Row t) :=
  rows.filter (fun s => S.id s ≠ S.id r) ++ [r]

section Rows
variable {t : S.Tbl}

theorem mem_putRow {r s : S.Row t} {rows : List (S.Row t)} :
    s ∈ putRow r rows ↔ (s ∈ rows ∧ S.id s ≠ S.id r) ∨ s = r := by
  simp [putRow]

theorem putRow_of_fresh {r : S.Row t} {rows : List (S.Row t)}
    (h : ∀ s ∈ rows, S.id s ≠ S.id r) : putRow r rows = rows ++ [r] := by
  have hf : rows.filter (fun s => S.id s ≠ S.id r) = rows :=
    List.filter_eq_self.mpr fun s hs => by simpa using h s hs
  rw [putRow, hf]

theorem putRow_ids_nodup (r : S.Row t) {rows : List (S.Row t)}
    (h : (rows.map S.id).Nodup) : ((putRow r rows).map S.id).Nodup := by
  simp only [putRow, List.map_append, List.map_cons, List.map_nil]
  refine List.nodup_append.mpr ⟨h.sublist (List.filter_sublist.map _), by simp, ?_⟩
  intro a ha b hb
  obtain ⟨s, hs, rfl⟩ := List.mem_map.mp ha
  have hne := (List.mem_filter.mp hs).2
  simp only [List.mem_singleton] at hb
  subst hb
  simpa using hne

theorem sum_erase_id {rows : List (S.Row t)} (h : (rows.map S.id).Nodup) (f : S.Row t → ℤ)
    {s : S.Row t} (hs : s ∈ rows) :
    ((rows.filter (fun u => S.id u ≠ S.id s)).map f).sum = (rows.map f).sum - f s := by
  induction rows with
  | nil => simp at hs
  | cons u us ih =>
    simp only [List.map_cons, List.nodup_cons] at h
    rcases List.mem_cons.mp hs with rfl | hmem
    · have hall : us.filter (fun v => S.id v ≠ S.id s) = us := by
        refine List.filter_eq_self.mpr fun v hv => ?_
        have : S.id v ≠ S.id s := fun he => h.1 (he ▸ List.mem_map_of_mem hv)
        simpa using this
      rw [List.filter_cons_of_neg (by simp), hall]
      simp
    · have hne : S.id u ≠ S.id s := fun he => h.1 (he ▸ List.mem_map_of_mem hmem)
      rw [List.filter_cons_of_pos (by simpa using hne)]
      simp only [List.map_cons, List.sum_cons, ih h.2 hmem]
      omega

/-- Replacing a row moves a sum over the table by the difference of the two rows. -/
theorem sum_putRow {rows : List (S.Row t)} (h : (rows.map S.id).Nodup) (f : S.Row t → ℤ)
    {r s : S.Row t} (hs : s ∈ rows) (hid : S.id s = S.id r) :
    ((putRow r rows).map f).sum = (rows.map f).sum - f s + f r := by
  have hrest := sum_erase_id h f hs
  rw [hid] at hrest
  simp only [putRow, List.map_append, List.sum_append, hrest, List.map_cons, List.map_nil,
    List.sum_cons, List.sum_nil, add_zero]

end Rows

namespace Store

def get (d : Store S) (t : S.Tbl) (i : ℕ) : Option (S.Row t) := (d t).find? fun r => S.id r = i

def put (d : Store S) (t : S.Tbl) (r : S.Row t) : Store S := Function.update d t (putRow r (d t))

/-- Row `i` of table `t` occupies the index entry `k`. -/
def Holds (d : Store S) (t : S.Tbl) (k : S.Key) (i : ℕ) : Prop :=
  ∃ r, d.get t i = some r ∧ k ∈ S.keys r

structure Wf (d : Store S) : Prop where
  ids : ∀ t, ((d t).map S.id).Nodup
  unique : ∀ {t k i j}, d.Holds t k i → d.Holds t k j → i = j

theorem id_of_get {d : Store S} {t : S.Tbl} {i : ℕ} {r : S.Row t} (h : d.get t i = some r) :
    S.id r = i := by
  simpa using List.find?_some h

theorem mem_of_get {d : Store S} {t : S.Tbl} {i : ℕ} {r : S.Row t} (h : d.get t i = some r) :
    r ∈ d t := List.mem_of_find?_eq_some h

theorem get_of_mem {d : Store S} (hd : ∀ t, ((d t).map S.id).Nodup) {t : S.Tbl} {r : S.Row t}
    (h : r ∈ d t) : d.get t (S.id r) = some r := by
  cases hg : d.get t (S.id r) with
  | none =>
    have := List.find?_eq_none.mp hg r h
    simp at this
  | some s => rw [List.inj_on_of_nodup_map (hd t) (mem_of_get hg) h (id_of_get hg)]

theorem get_eq_none_iff {d : Store S} {t : S.Tbl} {i : ℕ} :
    d.get t i = none ↔ ∀ r ∈ d t, S.id r ≠ i := by
  simp [get]

@[simp] theorem put_self (d : Store S) (t : S.Tbl) (r : S.Row t) : d.put t r t = putRow r (d t) := by
  simp [put]

theorem put_of_ne (d : Store S) {t t' : S.Tbl} (r : S.Row t) (h : t' ≠ t) : d.put t r t' = d t' := by
  simp [put, h]

theorem get_put_self (d : Store S) (t : S.Tbl) (r : S.Row t) :
    (d.put t r).get t (S.id r) = some r := by
  simp only [get, put_self, putRow, List.find?_append]
  have : (List.filter (fun s => S.id s ≠ S.id r) (d t)).find? (fun s => S.id s = S.id r) = none := by
    simp
  rw [this]
  simp

theorem get_put_of_ne (d : Store S) {t t' : S.Tbl} (r : S.Row t) {i : ℕ}
    (h : ¬(t' = t ∧ i = S.id r)) : (d.put t r).get t' i = d.get t' i := by
  by_cases ht : t' = t
  · subst ht
    have hi : i ≠ S.id r := fun hi => h ⟨rfl, hi⟩
    simp only [get, put_self, putRow, List.find?_append, List.find?_filter]
    have h1 : (fun s : S.Row t' => decide (decide (S.id s ≠ S.id r) = true ∧ decide (S.id s = i) = true))
        = fun s => decide (S.id s = i) := by
      funext s
      by_cases hs : S.id s = i <;> simp [hs, hi]
    rw [h1]
    simp [Ne.symm hi]
  · simp only [get, put_of_ne d r ht]

theorem put_ids_nodup {d : Store S} (hd : ∀ t, ((d t).map S.id).Nodup) (t : S.Tbl) (r : S.Row t)
    (t' : S.Tbl) : ((d.put t r t').map S.id).Nodup := by
  by_cases ht : t' = t
  · subst ht
    rw [put_self]
    exact putRow_ids_nodup r (hd t')
  · rw [put_of_ne d r ht]
    exact hd t'

theorem holds_put_self {d : Store S} {t : S.Tbl} {r : S.Row t} {k : S.Key} :
    (d.put t r).Holds t k (S.id r) ↔ k ∈ S.keys r := by
  simp [Holds, get_put_self]

theorem holds_put_of_ne {d : Store S} {t t' : S.Tbl} {r : S.Row t} {k : S.Key} {i : ℕ}
    (h : ¬(t' = t ∧ i = S.id r)) : (d.put t r).Holds t' k i ↔ d.Holds t' k i := by
  simp only [Holds, get_put_of_ne d r h]

/-- A unique index entry names at most one row. -/
theorem Wf.eq_of_key {d : Store S} (hd : d.Wf) {t : S.Tbl} {r s : S.Row t} (hr : r ∈ d t)
    (hs : s ∈ d t) {k : S.Key} (hkr : k ∈ S.keys r) (hks : k ∈ S.keys s) : r = s := by
  have h := hd.unique ⟨r, get_of_mem hd.ids hr, hkr⟩ ⟨s, get_of_mem hd.ids hs, hks⟩
  exact List.inj_on_of_nodup_map (hd.ids t) hr hs h

theorem Wf.eq_of_id {d : Store S} (hd : d.Wf) {t : S.Tbl} {r s : S.Row t} (hr : r ∈ d t)
    (hs : s ∈ d t) (h : S.id r = S.id s) : r = s :=
  List.inj_on_of_nodup_map (hd.ids t) hr hs h

/-- Selecting by a unique index entry finds the one row that occupies it. -/
theorem Wf.filter_key {d : Store S} (hd : d.Wf) {t : S.Tbl} {r : S.Row t} (hr : r ∈ d t)
    {p : S.Row t → Bool} (hp : p r = true) {k : S.Key} (hk : ∀ s, p s = true → k ∈ S.keys s) :
    (d t).filter p = [r] := by
  have hall : ∀ s ∈ (d t).filter p, s = r := by
    intro s hs
    obtain ⟨hmem, hps⟩ := List.mem_filter.mp hs
    exact hd.eq_of_key hmem hr (hk s hps) (hk r hp)
  have hnd : ((d t).filter p).Nodup := (hd.ids t).of_map.filter p
  match h : (d t).filter p with
  | [] =>
    have hmem : r ∈ (d t).filter p := List.mem_filter.mpr ⟨hr, hp⟩
    rw [h] at hmem
    cases hmem
  | [s] => rw [hall s (by simp [h])]
  | s :: s' :: rest =>
    have hs := hall s (by simp [h])
    have hs' := hall s' (by simp [h])
    rw [h, hs, hs'] at hnd
    simp at hnd

theorem wf_of_pairwise {d : Store S}
    (h : ∀ t, (d t).Pairwise fun r s => S.id r ≠ S.id s ∧ ∀ k ∈ S.keys r, k ∉ S.keys s) : d.Wf := by
  have hids : ∀ t, ((d t).map S.id).Nodup := fun t =>
    List.pairwise_map.mpr ((h t).imp fun hrs => hrs.1)
  refine ⟨hids, ?_⟩
  rintro t k i j ⟨r, hr, hkr⟩ ⟨s, hs, hks⟩
  have hone : (d t).Pairwise fun u v => k ∈ S.keys u → k ∈ S.keys v → u = v :=
    (h t).imp fun huv hu hv => absurd hv (huv.2 k hu)
  have hflip : (d t).Pairwise (flip fun u v => k ∈ S.keys u → k ∈ S.keys v → u = v) :=
    (h t).imp fun huv hv hu => absurd hv (huv.2 k hu)
  have hrs := hone.forall_of_forall_of_flip (fun _ _ _ _ => rfl) hflip (mem_of_get hr)
    (mem_of_get hs) hkr hks
  rw [← id_of_get hr, ← id_of_get hs, hrs]

end Store
end Relational
