import Phyllonix.RelationalInterference

/-!
# What pending writes change

Views after one more write, rows that a primary key selects, and the amount by
which the pending writes of a transaction move a total over a table. That amount
does not depend on what other transactions commit meanwhile.
-/

namespace Relational
variable {S : Schema}

namespace Store

def total (d : Store S) (t : S.Tbl) (f : S.Row t → ℤ) : ℤ := ((d t).map f).sum

theorem total_put {d : Store S} (hd : ∀ t, ((d t).map S.id).Nodup) {t : S.Tbl} (r : S.Row t)
    (f : S.Row t → ℤ) :
    (d.put t r).total t f = d.total t f + f r - (d.get t (S.id r)).elim 0 f := by
  cases hg : d.get t (S.id r) with
  | none =>
    have hfresh := get_eq_none_iff.mp hg
    simp only [total, put_self, putRow_of_fresh hfresh, List.map_append, List.sum_append,
      List.map_cons, List.map_nil, List.sum_cons, List.sum_nil, Option.elim]
    omega
  | some s =>
    have hsum := sum_putRow (hd t) f (mem_of_get hg) (id_of_get hg)
    simp only [total, put_self, hsum, Option.elim]
    omega

theorem total_put_of_ne (d : Store S) {t t' : S.Tbl} (h : t' ≠ t) (r : S.Row t)
    (f : S.Row t' → ℤ) : (d.put t r).total t' f = d.total t' f := by
  rw [total, put_of_ne d r h, total]

theorem filter_id {d : Store S} (hd : ∀ t, ((d t).map S.id).Nodup) (t : S.Tbl) (i : ℕ) :
    (d t).filter (fun r => S.id r = i) = (d.get t i).toList := by
  have h := hd t
  rw [get]
  generalize d t = rows at h ⊢
  induction rows with
  | nil => rfl
  | cons r rs ih =>
    rw [List.map_cons, List.nodup_cons] at h
    by_cases hr : S.id r = i
    · have hrest : rs.filter (fun r => S.id r = i) = [] := by
        refine List.filter_eq_nil_iff.mpr fun s hs => ?_
        have : S.id s ≠ i := fun he => h.1 (hr.trans he.symm ▸ List.mem_map_of_mem hs)
        simpa using this
      simp [hr, hrest]
    · rw [List.filter_cons_of_neg (by simpa using hr), ih h.2, List.find?_cons_of_neg (by simpa using hr)]

theorem filter_id_and {d : Store S} (hd : ∀ t, ((d t).map S.id).Nodup) (t : S.Tbl) (i : ℕ)
    (p : S.Row t → Bool) :
    (d t).filter (fun r => decide (S.id r = i) && p r) = ((d.get t i).filter p).toList := by
  have h : (d t).filter (fun r => decide (S.id r = i) && p r) =
      ((d t).filter (fun r => S.id r = i)).filter p := by
    rw [List.filter_filter]
    exact List.filter_congr fun r _ => Bool.and_comm _ _
  rw [h, filter_id hd]
  cases d.get t i with
  | none => rfl
  | some r => by_cases hp : p r <;> simp [Option.filter, hp]

end Store

theorem sum_map_ite {α : Type} (p : α → Bool) (f : α → ℤ) (xs : List α) :
    (xs.map fun a => if p a then f a else 0).sum = ((xs.filter p).map f).sum := by
  induction xs with
  | nil => rfl
  | cons a xs ih => by_cases ha : p a <;> simp [ha, ih]

section Views
variable {ws : List (Write S)} {d d' : Store S}

theorem applyWrites_of_untouched {t : S.Tbl} (h : ∀ w ∈ ws, w.tbl ≠ t) :
    applyWrites ws d t = d t := by
  induction ws with
  | nil => rfl
  | cons w ws ih =>
    have hw : t ≠ w.tbl := (h w List.mem_cons_self).symm
    rw [applyWrites, Store.put_of_ne _ _ hw]
    exact ih fun v hv => h v (List.mem_cons_of_mem _ hv)

theorem mem_applyWrites {t : S.Tbl} {r : S.Row t} (h : r ∈ applyWrites ws d t) :
    r ∈ d t ∨ ⟨t, r⟩ ∈ ws := by
  induction ws with
  | nil => exact .inl h
  | cons w ws ih =>
    have hrest : r ∈ applyWrites ws d t → r ∈ d t ∨ ⟨t, r⟩ ∈ w :: ws := fun h =>
      (ih h).imp id (List.mem_cons_of_mem _)
    by_cases ht : t = w.tbl
    · subst ht
      rw [applyWrites, Store.put_self] at h
      rcases mem_putRow.mp h with ⟨hr, -⟩ | rfl
      · exact hrest hr
      · exact .inr List.mem_cons_self
    · rw [applyWrites, Store.put_of_ne _ _ ht] at h
      exact hrest h

theorem not_written_of_tbl {t t' : S.Tbl} (h : ∀ w ∈ ws, w.tbl = t) (ht : t' ≠ t) (i : ℕ) :
    ¬Written ws t' i := by
  rintro ⟨w, hw, rfl, -⟩
  exact ht (h w hw)

/-- A written row is among the writes. -/
theorem get_of_written {t : S.Tbl} {i : ℕ} (h : Written ws t i) (d : Store S) :
    ∃ r, (applyWrites ws d).get t i = some r ∧ ⟨t, r⟩ ∈ ws := by
  induction ws with
  | nil =>
    obtain ⟨v, hv, -⟩ := h
    cases hv
  | cons w ws ih =>
    rw [applyWrites]
    by_cases hw : t = w.tbl ∧ i = S.id w.row
    · obtain ⟨rfl, rfl⟩ := hw
      exact ⟨w.row, Store.get_put_self _ _ _, List.mem_cons_self⟩
    · rw [Store.get_put_of_ne _ _ hw]
      obtain ⟨v, hv, ht, hi⟩ := h
      rcases List.mem_cons.mp hv with rfl | hv
      · exact absurd ⟨ht.symm, hi.symm⟩ hw
      · obtain ⟨r, hr, hmem⟩ := ih ⟨v, hv, ht, hi⟩
        exact ⟨r, hr, List.mem_cons_of_mem _ hmem⟩

/-- Where two stores agree on row `i`, the same writes leave them so. -/
theorem get_applyWrites_congr {t : S.Tbl} {i : ℕ} (h : d'.get t i = d.get t i) :
    (applyWrites ws d').get t i = (applyWrites ws d).get t i := by
  by_cases hw : Written ws t i
  · exact get_applyWrites_of_written hw d' d
  · rw [get_applyWrites_of_not_written hw, get_applyWrites_of_not_written hw, h]

/-- What holds of all rows of a view goes on to hold while it holds of the rows that
others commit. -/
theorem forall_applyWrites_congr {t : S.Tbl} {p : S.Row t → Prop}
    (hd' : ∀ t, ((d' t).map S.id).Nodup)
    (h : ∀ i, Written ws t i → d'.get t i = d.get t i) (hview : ∀ r ∈ applyWrites ws d t, p r)
    (hrows : ∀ r ∈ d' t, p r) : ∀ r ∈ applyWrites ws d' t, p r := by
  intro r hr
  have hget := Store.get_of_mem (applyWrites_ids_nodup hd' ws) hr
  by_cases hw : Written ws t (S.id r)
  · exact hview r (Store.mem_of_get ((get_applyWrites_congr (h _ hw)).symm.trans hget))
  · exact hrows r (Store.mem_of_get ((get_applyWrites_of_not_written hw d').symm.trans hget))

/-- What the pending writes add to a total. -/
def netChange (ws : List (Write S)) (d : Store S) (t : S.Tbl) (f : S.Row t → ℤ) : ℤ :=
  (applyWrites ws d).total t f - d.total t f

@[simp] theorem netChange_nil (d : Store S) (t : S.Tbl) (f : S.Row t → ℤ) :
    netChange [] d t f = 0 := by simp [netChange, applyWrites]

theorem netChange_of_untouched {t : S.Tbl} (h : ∀ w ∈ ws, w.tbl ≠ t) (f : S.Row t → ℤ) :
    netChange ws d t f = 0 := by
  simp only [netChange, Store.total, applyWrites_of_untouched h]
  omega

theorem netChange_cons (hd : ∀ t, ((d t).map S.id).Nodup) {t : S.Tbl} (r : S.Row t)
    (f : S.Row t → ℤ) :
    netChange (⟨t, r⟩ :: ws) d t f =
      netChange ws d t f + f r - ((applyWrites ws d).get t (S.id r)).elim 0 f := by
  have h := Store.total_put (applyWrites_ids_nodup hd ws) r f
  simp only [netChange, applyWrites, h]
  omega

theorem netChange_cons_of_ne {t t' : S.Tbl} (h : t' ≠ t) (r : S.Row t) (f : S.Row t' → ℤ) :
    netChange (⟨t, r⟩ :: ws) d t' f = netChange ws d t' f := by
  simp only [netChange, applyWrites, Store.total_put_of_ne _ h]

/-- The change of a total does not depend on the rows that are not written. -/
theorem netChange_congr (hd : ∀ t, ((d t).map S.id).Nodup) (hd' : ∀ t, ((d' t).map S.id).Nodup)
    (h : ∀ w ∈ ws, d'.get w.tbl (S.id w.row) = d.get w.tbl (S.id w.row)) (t : S.Tbl)
    (f : S.Row t → ℤ) : netChange ws d' t f = netChange ws d t f := by
  induction ws with
  | nil => simp
  | cons w ws ih =>
    have ih' := ih fun v hv => h v (List.mem_cons_of_mem _ hv)
    obtain ⟨tw, r⟩ := w
    by_cases ht : t = tw
    · subst ht
      have hr : (applyWrites ws d').get t (S.id r) = (applyWrites ws d).get t (S.id r) :=
        get_applyWrites_congr (h ⟨t, r⟩ List.mem_cons_self)
      rw [netChange_cons hd, netChange_cons hd', ih', hr]
    · rw [netChange_cons_of_ne ht, netChange_cons_of_ne ht, ih']

/-- The writes to the tables of `p` are of rows that were not there before. -/
def Inserts (p : S.Tbl → Prop) : List (Write S) → Store S → Prop
  | [], _ => True
  | w :: ws, d => (p w.tbl → (applyWrites ws d).get w.tbl (S.id w.row) = none) ∧ Inserts p ws d

theorem Inserts.congr {p : S.Tbl → Prop} (h : Inserts p ws d)
    (hrow : ∀ w ∈ ws, d'.get w.tbl (S.id w.row) = d.get w.tbl (S.id w.row)) : Inserts p ws d' := by
  induction ws with
  | nil => trivial
  | cons w ws ih =>
    have hw := hrow w List.mem_cons_self
    refine ⟨fun hp => ?_, ih h.2 fun v hv => hrow v (List.mem_cons_of_mem _ hv)⟩
    rw [get_applyWrites_congr hw]
    exact h.1 hp

/-- A function of the store that moves with each write is moved by a list of writes. -/
theorem applyWrites_foldr {α : Type} {f : Store S → α} {after : Write S → α → α}
    {p : S.Tbl → Prop}
    (hput : ∀ (d : Store S) (w : Write S), (p w.tbl → d.get w.tbl (S.id w.row) = none) →
      f (d.put w.tbl w.row) = after w (f d))
    (h : Inserts p ws d) : f (applyWrites ws d) = ws.foldr after (f d) := by
  induction ws with
  | nil => rfl
  | cons w ws ih =>
    rw [applyWrites, hput _ w h.1, ih h.2]
    rfl

/-- The rows of `t` among the writes, in the order of writing. -/
def written (t : S.Tbl) : List (Write S) → List (S.Row t)
  | [] => []
  | w :: ws => written t ws ++ if h : w.tbl = t then [h ▸ w.row] else []

@[simp] theorem written_nil (t : S.Tbl) : written t ([] : List (Write S)) = [] := rfl

@[simp] theorem written_cons_self {t : S.Tbl} (r : S.Row t) :
    written t (⟨t, r⟩ :: ws) = written t ws ++ [r] := by simp [written]

theorem written_cons_of_ne {t t' : S.Tbl} (h : t' ≠ t) (r : S.Row t') :
    written t (⟨t', r⟩ :: ws) = written t ws := by simp [written, h]

theorem written_append_of_untouched {ws' : List (Write S)} {t : S.Tbl} (h : ∀ w ∈ ws', w.tbl ≠ t) :
    written t (ws' ++ ws) = written t ws := by
  induction ws' with
  | nil => rfl
  | cons w ws' ih =>
    rw [List.cons_append, written_cons_of_ne (h w List.mem_cons_self)]
    exact ih fun v hv => h v (List.mem_cons_of_mem _ hv)

/-- Writes to other tables come on top of insertions. -/
theorem Inserts.append_untouched {p : S.Tbl → Prop} {ws' : List (Write S)} (h : Inserts p ws d)
    (hws : ∀ w ∈ ws', ¬p w.tbl) : Inserts p (ws' ++ ws) d := by
  induction ws' with
  | nil => exact h
  | cons w ws' ih =>
    refine ⟨fun hp => absurd hp (hws w List.mem_cons_self), ih fun v hv => ?_⟩
    exact hws v (List.mem_cons_of_mem _ hv)

theorem applyWrites_written {p : S.Tbl → Prop} (h : Inserts p ws d) {t : S.Tbl} (ht : p t) :
    applyWrites ws d t = d t ++ written t ws := by
  induction ws with
  | nil => simp [applyWrites]
  | cons w ws ih =>
    obtain ⟨tw, r⟩ := w
    by_cases htw : tw = t
    · subst htw
      have hfresh := Store.get_eq_none_iff.mp (h.1 ht)
      rw [written_cons_self, applyWrites, Store.put_self, putRow_of_fresh hfresh, ih h.2,
        List.append_assoc]
    · rw [written_cons_of_ne htw, applyWrites, Store.put_of_ne _ _ (Ne.symm htw), ih h.2]

end Views

namespace Txn
variable {l : Txn S} {d d' : Store S} {seq seq' : S.Tbl → ℕ}

theorem Still.get_view (h : l.Still d d') {t : S.Tbl} {i : ℕ} (hl : .row t i ∈ l.locks) :
    (l.view d').get t i = (l.view d).get t i := get_applyWrites_congr (h.row t i hl)

theorem get_view_cons {t : S.Tbl} {r : S.Row t} {ws : List (Write S)}
    (h : l.writes = ⟨t, r⟩ :: ws) (d : Store S) : (l.view d).get t (S.id r) = some r := by
  rw [view, h]
  exact Store.get_put_self _ _ _

theorem write_keeps (l : Txn S) {t : S.Tbl} {ks : List S.Key} {r : S.Row t} :
    ∀ y ∈ l.locks, y ∈ (l.write t ks r).locks := fun _ hy => List.mem_append_right _ hy

theorem total_view (l : Txn S) (d : Store S) (t : S.Tbl) (f : S.Row t → ℤ) :
    (l.view d).total t f = d.total t f + Relational.netChange l.writes d t f := by
  simp only [Relational.netChange, view]
  omega

end Txn
end Relational
