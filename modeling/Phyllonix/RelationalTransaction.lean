import Phyllonix.RelationalStore

/-!
# Transactions over a relational store

A transaction keeps its uncommitted writes and its locks. It reads the committed
store with its own writes on top, so each statement sees what was committed when
the statement ran. A write locks its row and every unique index entry that the
row gains or loses. Commit puts the writes into the store.

Transactions with disjoint locks do not disturb each other: a commit leaves the
locked rows and index entries of the others as they were, and it keeps their
views free of duplicate index entries.
-/

namespace Relational

inductive Lock (S : Schema) where
  | row (t : S.Tbl) (i : ℕ)
  | key (t : S.Tbl) (k : S.Key)
  | advisory (n : ℤ)
  deriving DecidableEq

structure Write (S : Schema) where
  tbl : S.Tbl
  row : S.Row tbl

variable {S : Schema}

/-- The newest write stands first. -/
def applyWrites : List (Write S) → Store S → Store S
  | [], d => d
  | w :: ws, d => (applyWrites ws d).put w.tbl w.row

def Written (ws : List (Write S)) (t : S.Tbl) (i : ℕ) : Prop :=
  ∃ w ∈ ws, w.tbl = t ∧ S.id w.row = i

theorem get_applyWrites_of_not_written {ws : List (Write S)} {t : S.Tbl} {i : ℕ}
    (h : ¬Written ws t i) (d : Store S) : (applyWrites ws d).get t i = d.get t i := by
  induction ws with
  | nil => rfl
  | cons w ws ih =>
    have hw : ¬(t = w.tbl ∧ i = S.id w.row) := fun he =>
      h ⟨w, List.mem_cons_self, he.1.symm, he.2.symm⟩
    have hws : ¬Written ws t i := fun ⟨v, hv, he⟩ => h ⟨v, List.mem_cons_of_mem _ hv, he⟩
    rw [applyWrites, Store.get_put_of_ne _ _ hw, ih hws]

theorem get_applyWrites_of_written {ws : List (Write S)} {t : S.Tbl} {i : ℕ}
    (h : Written ws t i) (d d' : Store S) :
    (applyWrites ws d).get t i = (applyWrites ws d').get t i := by
  induction ws with
  | nil => obtain ⟨w, hw, _⟩ := h; simp at hw
  | cons w ws ih =>
    by_cases hw : t = w.tbl ∧ i = S.id w.row
    · obtain ⟨rfl, rfl⟩ := hw
      simp only [applyWrites, Store.get_put_self]
    · obtain ⟨v, hv, he⟩ := h
      rcases List.mem_cons.mp hv with rfl | hv
      · exact absurd ⟨he.1.symm, he.2.symm⟩ hw
      · rw [applyWrites, applyWrites, Store.get_put_of_ne _ _ hw, Store.get_put_of_ne _ _ hw]
        exact ih ⟨v, hv, he⟩

theorem applyWrites_ids_nodup {d : Store S} (hd : ∀ t, ((d t).map S.id).Nodup)
    (ws : List (Write S)) (t : S.Tbl) : (((applyWrites ws d) t).map S.id).Nodup := by
  induction ws generalizing t with
  | nil => exact hd t
  | cons w ws ih => exact Store.put_ids_nodup ih w.tbl w.row t

theorem holds_applyWrites_of_not_written {ws : List (Write S)} {t : S.Tbl} {i : ℕ}
    (h : ¬Written ws t i) (d : Store S) (k : S.Key) :
    (applyWrites ws d).Holds t k i ↔ d.Holds t k i := by
  simp only [Store.Holds, get_applyWrites_of_not_written h]

theorem holds_applyWrites_of_written {ws : List (Write S)} {t : S.Tbl} {i : ℕ}
    (h : Written ws t i) (d d' : Store S) (k : S.Key) :
    (applyWrites ws d).Holds t k i ↔ (applyWrites ws d').Holds t k i := by
  simp only [Store.Holds, get_applyWrites_of_written h d d']

structure Txn (S : Schema) where
  writes : List (Write S) := []
  locks : List (Lock S) := []
  aborted : Bool := false
  commits : ℕ := 0

def changedKeys (ks ks' : List S.Key) : List S.Key :=
  ks.filter (fun k => k ∉ ks') ++ ks'.filter (fun k => k ∉ ks)

theorem mem_changedKeys {ks ks' : List S.Key} {k : S.Key} :
    k ∈ changedKeys ks ks' ↔ (k ∈ ks ∧ k ∉ ks') ∨ (k ∈ ks' ∧ k ∉ ks) := by
  simp [changedKeys]

/-- No row of `t` other than row `i` occupies an entry of `ks`. -/
def Store.Free (d : Store S) (t : S.Tbl) (ks : List S.Key) : Prop :=
  ∀ r ∈ d t, ∀ k ∈ ks, k ∉ S.keys r

instance (d : Store S) (t : S.Tbl) (ks : List S.Key) : Decidable (d.Free t ks) :=
  inferInstanceAs (Decidable (∀ r ∈ d t, ∀ k ∈ ks, k ∉ S.keys r))

namespace Txn

def view (l : Txn S) (d : Store S) : Store S := applyWrites l.writes d

/-- A transaction that has written nothing sees the store as it is. -/
theorem view_of_no_writes {l : Txn S} (hl : l.writes = []) (d : Store S) : l.view d = d := by
  rw [view, hl, applyWrites]

/-- The locks of writing row `r` where the table holds a row with the entries `ks`. -/
def writeLocks (t : S.Tbl) (ks : List S.Key) (r : S.Row t) : List (Lock S) :=
  .row t (S.id r) :: (changedKeys ks (S.keys r)).map (.key t)

def write (l : Txn S) (t : S.Tbl) (ks : List S.Key) (r : S.Row t) : Txn S :=
  { l with writes := ⟨t, r⟩ :: l.writes, locks := writeLocks t ks r ++ l.locks }

def acquire (l : Txn S) (xs : List (Lock S)) : Txn S := { l with locks := xs ++ l.locks }

@[simp] theorem acquire_writes (l : Txn S) (xs : List (Lock S)) : (l.acquire xs).writes = l.writes := rfl

@[simp] theorem acquire_view (l : Txn S) (xs : List (Lock S)) (d : Store S) :
    (l.acquire xs).view d = l.view d := rfl

def abort (l : Txn S) : Txn S := { l with aborted := true }

/-- The transaction is over; the session goes on with an empty one. -/
def reset (l : Txn S) : Txn S := { commits := l.commits }

def committed (l : Txn S) : Txn S := { commits := l.commits + 1 }

def Apart (l m : Txn S) : Prop := ∀ x ∈ l.locks, x ∉ m.locks

theorem Apart.symm {l m : Txn S} (h : l.Apart m) : m.Apart l := fun x hm hl => h x hl hm

structure Ok (l : Txn S) (d : Store S) (seq : S.Tbl → ℕ) : Prop where
  locked : ∀ w ∈ l.writes, Lock.row w.tbl (S.id w.row) ∈ l.locks
  keys : ∀ t k, Lock.key t k ∉ l.locks → ∀ i, (l.view d).Holds t k i ↔ d.Holds t k i
  wf : (l.view d).Wf
  fresh : ∀ w ∈ l.writes, S.id w.row < seq w.tbl

/-- What a transaction can rely on while it holds its locks. -/
structure Still (l : Txn S) (d d' : Store S) : Prop where
  row : ∀ t i, Lock.row t i ∈ l.locks → d'.get t i = d.get t i
  key : ∀ t k, Lock.key t k ∈ l.locks → ∀ i, d'.Holds t k i ↔ d.Holds t k i

theorem Still.refl (l : Txn S) (d : Store S) : l.Still d d := ⟨fun _ _ _ => rfl, fun _ _ _ _ => .rfl⟩

theorem Still.trans {l : Txn S} {d d' d'' : Store S} (h : l.Still d d') (h' : l.Still d' d'') :
    l.Still d d'' :=
  ⟨fun t i hl => (h'.row t i hl).trans (h.row t i hl),
    fun t k hl i => (h'.key t k hl i).trans (h.key t k hl i)⟩

section Views
variable {l m : Txn S} {d : Store S} {seq : S.Tbl → ℕ}

theorem Ok.written_locked (h : l.Ok d seq) {t : S.Tbl} {i : ℕ} (hw : Written l.writes t i) :
    Lock.row t i ∈ l.locks := by
  obtain ⟨w, hw, rfl, rfl⟩ := hw
  exact h.locked w hw

theorem Ok.get_view_of_unlocked (h : l.Ok d seq) {t : S.Tbl} {i : ℕ}
    (hl : Lock.row t i ∉ l.locks) (d' : Store S) : (l.view d').get t i = d'.get t i :=
  get_applyWrites_of_not_written (fun hw => hl (h.written_locked hw)) d'

theorem commit_still (hm : m.Ok d seq) (ha : l.Apart m) : l.Still d (m.view d) :=
  ⟨fun _ _ hl => hm.get_view_of_unlocked (ha _ hl) d, fun t k hl i => hm.keys t k (ha _ hl) i⟩

/-- An index entry occupied by an own write and one occupied in the store by
another row cannot be the same after another transaction committed. -/
theorem no_clash (hd : (m.view d).Wf) (hl : l.Ok d seq) (hm : m.Ok d seq) (ha : l.Apart m)
    {t : S.Tbl} {k : S.Key} {i j : ℕ} (hi : Written l.writes t i) (hj : ¬Written l.writes t j)
    (hki : (l.view d).Holds t k i) (hkj : (m.view d).Holds t k j) : i = j := by
  have hmi : ¬Written m.writes t i := fun hw =>
    ha _ (hl.written_locked hi) (hm.written_locked hw)
  by_cases hk : Lock.key t k ∈ l.locks
  · have hkj' : d.Holds t k j := (hm.keys t k (ha _ hk) j).mp hkj
    exact hl.wf.unique hki ((holds_applyWrites_of_not_written hj d k).mpr hkj')
  · have hki' : d.Holds t k i := (hl.keys t k hk i).mp hki
    exact hd.unique ((holds_applyWrites_of_not_written hmi d k).mpr hki') hkj

theorem commit_ok (hl : l.Ok d seq) (hm : m.Ok d seq) (ha : l.Apart m) :
    l.Ok (m.view d) seq := by
  have hview : ∀ {t k i}, Written l.writes t i →
      ((l.view (m.view d)).Holds t k i ↔ (l.view d).Holds t k i) := fun hw =>
    holds_applyWrites_of_written hw _ _ _
  have hrest : ∀ {t k i}, ¬Written l.writes t i →
      ((l.view (m.view d)).Holds t k i ↔ (m.view d).Holds t k i) := fun hw =>
    holds_applyWrites_of_not_written hw _ _
  refine ⟨hl.locked, ?_, ⟨applyWrites_ids_nodup hm.wf.ids _, ?_⟩, hl.fresh⟩
  · intro t k hk i
    by_cases hw : Written l.writes t i
    · have hmi : ¬Written m.writes t i := fun hw' =>
        ha _ (hl.written_locked hw) (hm.written_locked hw')
      rw [hview hw, hl.keys t k hk i]
      exact (holds_applyWrites_of_not_written hmi d k).symm
    · exact hrest hw
  · intro t k i j hi hj
    by_cases hwi : Written l.writes t i <;> by_cases hwj : Written l.writes t j
    · exact hl.wf.unique ((hview hwi).mp hi) ((hview hwj).mp hj)
    · exact no_clash hm.wf hl hm ha hwi hwj ((hview hwi).mp hi) ((hrest hwj).mp hj)
    · exact (no_clash hm.wf hl hm ha hwj hwi ((hview hwj).mp hj) ((hrest hwi).mp hi)).symm
    · exact hm.wf.unique ((hrest hwi).mp hi) ((hrest hwj).mp hj)

theorem Ok.mono (h : l.Ok d seq) {seq' : S.Tbl → ℕ} (hs : ∀ t, seq t ≤ seq' t) : l.Ok d seq' :=
  ⟨h.locked, h.keys, h.wf, fun w hw => (h.fresh w hw).trans_le (hs _)⟩

theorem Ok.acquire (h : l.Ok d seq) (xs : List (Lock S)) : (l.acquire xs).Ok d seq :=
  ⟨fun w hw => List.mem_append_right _ (h.locked w hw),
    fun t k hk i => h.keys t k (fun hl => hk (List.mem_append_right _ hl)) i, h.wf, h.fresh⟩

theorem ok_of_no_writes (hd : d.Wf) (hw : l.writes = []) : l.Ok d seq := by
  have hv : l.view d = d := by simp [view, hw, applyWrites]
  exact ⟨by simp [hw], by simp [hv], by rwa [hv], by simp [hw]⟩

/-- Writing row `r` over the row with the entries `ks` keeps the transaction in
order, when no other row occupies an entry that `r` gains. -/
theorem Ok.write (h : l.Ok d seq) {t : S.Tbl} {r : S.Row t} {ks : List S.Key}
    (hseq : S.id r < seq t)
    (hks : ∀ k, (l.view d).Holds t k (S.id r) ↔ k ∈ ks)
    (hfree : ∀ k ∈ S.keys r, k ∉ ks → ∀ j, ¬(l.view d).Holds t k j) :
    (l.write t ks r).Ok d seq := by
  have hv : (l.write t ks r).view d = (l.view d).put t r := rfl
  refine ⟨?_, ?_, ⟨?_, ?_⟩, ?_⟩
  · intro w hw
    rcases List.mem_cons.mp hw with rfl | hw
    · exact List.mem_append_left _ List.mem_cons_self
    · exact List.mem_append_right _ (h.locked w hw)
  · intro t' k hk i
    have hk' : Lock.key t' k ∉ l.locks := fun hl => hk (List.mem_append_right _ hl)
    rw [hv, ← h.keys t' k hk' i]
    by_cases hti : t' = t ∧ i = S.id r
    · obtain ⟨rfl, rfl⟩ := hti
      have hc : k ∉ changedKeys ks (S.keys r) := fun hc =>
        hk (List.mem_append_left _ (List.mem_cons_of_mem _ (List.mem_map_of_mem hc)))
      rw [mem_changedKeys] at hc
      rw [Store.holds_put_self, hks]
      tauto
    · exact Store.holds_put_of_ne hti
  · rw [hv]
    exact Store.put_ids_nodup h.wf.ids t r
  · intro t' k i j hi hj
    rw [hv] at hi hj
    have clash : ∀ {i}, k ∈ S.keys r → ¬i = S.id r → (l.view d).Holds t k i → False := by
      intro i hkr hne hki
      by_cases hin : k ∈ ks
      · exact hne (h.wf.unique hki ((hks k).mpr hin))
      · exact hfree k hkr hin i hki
    by_cases ht : t' = t
    · subst ht
      by_cases hir : i = S.id r <;> by_cases hjr : j = S.id r
      · exact hir.trans hjr.symm
      · subst hir
        rw [Store.holds_put_self] at hi
        rw [Store.holds_put_of_ne (by simp [hjr])] at hj
        exact (clash hi hjr hj).elim
      · subst hjr
        rw [Store.holds_put_self] at hj
        rw [Store.holds_put_of_ne (by simp [hir])] at hi
        exact (clash hj hir hi).elim
      · rw [Store.holds_put_of_ne (by simp [hir])] at hi
        rw [Store.holds_put_of_ne (by simp [hjr])] at hj
        exact h.wf.unique hi hj
    · rw [Store.holds_put_of_ne (by simp [ht])] at hi hj
      exact h.wf.unique hi hj
  · intro w hw
    rcases List.mem_cons.mp hw with rfl | hw
    · exact hseq
    · exact h.fresh w hw

end Views
end Txn
end Relational
