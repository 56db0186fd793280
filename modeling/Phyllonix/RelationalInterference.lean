import Phyllonix.RelationalProgram

/-!
# What one action does to the store and to the other transactions

One lemma for every kind of action, and from them: every step of a system keeps
the committed store well-formed, the transactions in order, and their locks
disjoint.
-/

namespace Relational
variable {S : Schema} {H : Host}

structure World.Ok (w : World S H) : Prop where
  wf : w.db.Wf
  bounded : ∀ t, ∀ r ∈ w.db t, S.id r < w.seq t

namespace Txn

theorem id_lt_of_mem_view {w : World S H} {l : Txn S} (hw : w.Ok) (hl : l.Ok w.db w.seq)
    {t : S.Tbl} {r : S.Row t} (hr : r ∈ l.view w.db t) : S.id r < w.seq t := by
  have hg := Store.get_of_mem hl.wf.ids hr
  by_cases hwr : Written l.writes t (S.id r)
  · obtain ⟨v, hv, rfl, hid⟩ := hwr
    exact hid ▸ hl.fresh v hv
  · have hg' : w.db.get t (S.id r) = some r :=
      (get_applyWrites_of_not_written hwr w.db).symm.trans hg
    exact hw.bounded t r (Store.mem_of_get hg')

theorem get_view_seq {w : World S H} {l : Txn S} (hw : w.Ok) (hl : l.Ok w.db w.seq) (t : S.Tbl) :
    (l.view w.db).get t (w.seq t) = none :=
  Store.get_eq_none_iff.mpr fun _ hr => (id_lt_of_mem_view hw hl hr).ne

theorem not_holds_of_free {d : Store S} {t : S.Tbl} {ks : List S.Key} (h : d.Free t ks)
    {k : S.Key} (hk : k ∈ ks) (i : ℕ) : ¬d.Holds t k i := by
  rintro ⟨r, hg, hkr⟩
  exact h r (Store.mem_of_get hg) k hk hkr

theorem Ok.insert {w : World S H} {l : Txn S} (hw : w.Ok) (hl : l.Ok w.db w.seq) {t : S.Tbl}
    {r : S.Row t} (hid : S.id r = w.seq t) (hfree : (l.view w.db).Free t (S.keys r)) :
    (l.write t [] r).Ok w.db (Function.update w.seq t (w.seq t + 1)) := by
  have hmono : ∀ t', w.seq t' ≤ Function.update w.seq t (w.seq t + 1) t' := fun t' => by
    by_cases ht : t' = t
    · subst ht; simp
    · simp [ht]
  refine (hl.mono hmono).write (by simp [hid]) (fun k => ?_) fun k hk _ i => not_holds_of_free hfree hk i
  simp [Store.Holds, hid, get_view_seq hw hl t]

theorem Ok.update {d : Store S} {seq : S.Tbl → ℕ} {l : Txn S} (hl : l.Ok d seq) {t : S.Tbl}
    {r r' : S.Row t} (hr : (l.view d).get t (S.id r) = some r) (hid : S.id r' = S.id r)
    (hseq : S.id r < seq t)
    (hfree : (l.view d).Free t ((S.keys r').filter (fun k => k ∉ S.keys r))) :
    (l.write t (S.keys r) r').Ok d seq := by
  refine hl.write (by rwa [hid]) (fun k => ?_) fun k hk hkr i => ?_
  · rw [hid]
    simp [Store.Holds, hr]
  · exact not_holds_of_free hfree (by simp [hk, hkr]) i

end Txn

/-- The locks that an action added were free. -/
def GainedFree (busy : Lock S → Bool) (l l' : Txn S) : Prop :=
  ∀ x ∈ l'.locks, x ∈ l.locks ∨ busy x = false

theorem GainedFree.refl (busy : Lock S → Bool) (l : Txn S) : GainedFree busy l l :=
  fun _ h => .inl h

theorem GainedFree.append {busy : Lock S → Bool} {l : Txn S} {xs : List (Lock S)}
    (h : xs.any busy = false) : ∀ x ∈ xs ++ l.locks, x ∈ l.locks ∨ busy x = false := by
  intro x hx
  rcases List.mem_append.mp hx with hx | hx
  · exact .inr (by simpa using List.any_eq_false.mp h x hx)
  · exact .inl hx

/-- The writes of an update of the rows `rows`. -/
def updateWrites {t : S.Tbl} (f : S.Row t → S.Row t) (rows : List (S.Row t)) : List (Write S) :=
  (rows.map fun r => ⟨t, f r⟩).reverse

structure UpdateSpec (busy : Lock S → Bool) (d : Store S) (seq : S.Tbl → ℕ) {t : S.Tbl}
    (f : S.Row t → S.Row t) (rows : List (S.Row t)) (l : Txn S)
    (r : Except (Exn H.Err) (List (S.Row t))) (l' : Txn S) : Prop where
  ok : l'.Ok d seq
  gained : GainedFree busy l l'
  commits : l'.commits = l.commits
  keeps : ∀ x ∈ l.locks, x ∈ l'.locks
  done : ∀ rs, r = .ok rs → rs = rows.map f ∧ l'.writes = updateWrites f rows ++ l.writes ∧
    (∀ u ∈ rows, .row t (S.id u) ∈ l'.locks) ∧ l'.aborted = l.aborted
  failed : ∀ e, r = .error e → e = .integrity ∧ l'.aborted = true ∧ ∃ u, S.keys (f u) ≠ S.keys u

theorem updateRows_spec {busy : Lock S → Bool} {d : Store S} {seq : S.Tbl → ℕ} {t : S.Tbl}
    {f : S.Row t → S.Row t} (hf : ∀ r, S.id (f r) = S.id r) {rows : List (S.Row t)} {l : Txn S}
    {r : Except (Exn H.Err) (List (S.Row t))} {l' : Txn S} (hl : l.Ok d seq)
    (hnd : (rows.map S.id).Nodup)
    (hrows : ∀ u ∈ rows, (l.view d).get t (S.id u) = some u ∧ S.id u < seq t)
    (h : updateRows busy d t f rows l = some (r, l')) :
    UpdateSpec busy d seq f rows l r l' := by
  induction rows generalizing l r l' with
  | nil =>
    simp only [updateRows, Option.some.injEq, Prod.mk.injEq] at h
    obtain ⟨rfl, rfl⟩ := h
    exact ⟨hl, .refl _ _, rfl, fun _ h => h, fun rs hrs => by cases hrs; simp [updateWrites],
      fun e he => by cases he⟩
  | cons u us ih =>
    simp only [List.map_cons, List.nodup_cons] at hnd
    obtain ⟨hu, hseq⟩ := hrows u List.mem_cons_self
    rw [updateRows] at h
    split at h
    · cases h
    rename_i hbusy
    have hgain : GainedFree busy l (l.write t (S.keys u) (f u)) :=
      GainedFree.append (by simpa using hbusy)
    split at h
    · rename_i hfree
      have hl₁ := hl.update hu (hf u) hseq hfree
      obtain ⟨⟨r₁, l₁⟩, h₁, hx⟩ := Option.map_eq_some_iff.mp h
      have hus : ∀ v ∈ us, ((l.write t (S.keys u) (f u)).view d).get t (S.id v) = some v ∧
          S.id v < seq t := fun v hv => by
        have hne : S.id v ≠ S.id (f u) := fun he =>
          hnd.1 ((he.trans (hf u)) ▸ List.mem_map_of_mem hv)
        refine ⟨?_, (hrows v (List.mem_cons_of_mem _ hv)).2⟩
        rw [← (hrows v (List.mem_cons_of_mem _ hv)).1]
        exact Store.get_put_of_ne _ _ (by simp [hne])
      have hs := ih hl₁ hnd.2 hus h₁
      have hkeep : ∀ x ∈ l.locks, x ∈ l₁.locks := fun x hx =>
        hs.keeps x (List.mem_append_right _ hx)
      have hgained : GainedFree busy l l₁ := fun x hx =>
        (hs.gained x hx).elim (fun hx' => hgain x hx') .inr
      cases r₁ with
      | error e =>
        simp only [Prod.mk.injEq] at hx
        obtain ⟨rfl, rfl⟩ := hx
        exact ⟨hs.ok, hgained, hs.commits, hkeep, (fun rs hrs => by cases hrs), hs.failed⟩
      | ok rs₁ =>
        simp only [Prod.mk.injEq] at hx
        obtain ⟨rfl, rfl⟩ := hx
        refine ⟨hs.ok, hgained, hs.commits, hkeep, fun rs hrs => ?_, fun e he => by cases he⟩
        cases hrs
        obtain ⟨hmap, hwr, hlk, hab⟩ := hs.done rs₁ rfl
        refine ⟨by rw [hmap, List.map_cons], ?_, ?_, hab⟩
        · rw [hwr]
          simp [updateWrites, Txn.write]
        · intro v hv
          rcases List.mem_cons.mp hv with rfl | hv
          · refine hs.keeps _ (List.mem_append_left _ ?_)
            simp [Txn.writeLocks, hf]
          · exact hlk v hv
    · rename_i hfree
      simp only [Option.some.injEq, Prod.mk.injEq] at h
      obtain ⟨rfl, rfl⟩ := h
      refine ⟨⟨hl.locked, hl.keys, hl.wf, hl.fresh⟩, fun _ h => .inl h, rfl, fun _ h => h,
        (fun rs hrs => by cases hrs), fun e he => ⟨by cases he; rfl, rfl, u, fun hk => hfree ?_⟩⟩
      rw [hk]
      intro v _ k hk'
      simp at hk'

structure RunSpec (busy : Lock S → Bool) (w : World S H) (l : Txn S) (w' : World S H)
    (l' : Txn S) : Prop where
  world : w'.Ok
  ok : l'.Ok w'.db w'.seq
  seq : ∀ t, w.seq t ≤ w'.seq t
  gained : GainedFree busy l l'
  db : w'.db = w.db ∨ w'.db = l.view w.db

section
variable {busy : Lock S → Bool} {w w' : World S H} {l l' : Txn S} {c : Choice H}

theorem RunSpec.same (hw : w.Ok) (hl : l'.Ok w.db w.seq) (hg : GainedFree busy l l') :
    RunSpec busy w l w l' := ⟨hw, hl, fun _ => le_rfl, hg, .inl rfl⟩

theorem Txn.Ok.abort {d : Store S} {seq : S.Tbl → ℕ} (h : l.Ok d seq) : l.abort.Ok d seq :=
  ⟨h.locked, h.keys, h.wf, h.fresh⟩

/-- The exceptions of statements. -/
abbrev StatementError (H : Host) := { e : Exn H.Err // ∀ a, e ≠ .app a }

theorem statement_cases {β : Type} {go : Outcome S H β} {r : Except (Exn H.Err) β}
    (h : statement c w l go = some (r, w', l')) :
    (w' = w ∧ (∃ e : StatementError H, r = .error e.1) ∧ (l' = l ∨ l' = l.abort) ∧
        l'.aborted = true ∧ (c = .fault ∨ l.aborted = true)) ∨
      (l.aborted = false ∧ go = some (r, w', l')) := by
  cases c with
  | fault =>
    simp only [statement, Option.some.injEq, Prod.mk.injEq] at h
    obtain ⟨rfl, rfl, rfl⟩ := h
    exact .inl ⟨rfl, ⟨⟨.fault, by simp⟩, rfl⟩, .inr rfl, rfl, .inl rfl⟩
  | host c => cases h
  | go =>
    simp only [statement] at h
    split at h
    · rename_i ha
      simp only [Option.some.injEq, Prod.mk.injEq] at h
      obtain ⟨rfl, rfl, rfl⟩ := h
      exact .inl ⟨rfl, ⟨⟨.inFailedTransaction, by simp⟩, rfl⟩, .inl rfl, ha, .inr ha⟩
    · rename_i hna
      exact .inr ⟨by simpa using hna, h⟩

theorem statement_spec {β : Type} {go : Outcome S H β} {r : Except (Exn H.Err) β} (hw : w.Ok)
    (hl : l.Ok w.db w.seq) (h : statement c w l go = some (r, w', l'))
    (hgo : go = some (r, w', l') → RunSpec busy w l w' l') : RunSpec busy w l w' l' := by
  rcases statement_cases h with ⟨rfl, -, rfl | rfl, -, -⟩ | ⟨-, hr⟩
  · exact .same hw hl (.refl _ _)
  · exact .same hw hl.abort fun _ h => .inl h
  · exact hgo hr

theorem lockAll_eq {t : S.Tbl} {rows : List (S.Row t)} {r : Except (Exn H.Err) (List (S.Row t))}
    (h : lockAll busy w l t rows = some (r, w', l')) :
    r = .ok rows ∧ w' = w ∧ l' = l.acquire (rows.map fun r => Lock.row t (S.id r)) ∧
      (rows.map fun r => Lock.row t (S.id r)).any busy = false := by
  simp only [lockAll] at h
  split at h
  · cases h
  · rename_i hb
    simp only [Option.some.injEq, Prod.mk.injEq] at h
    exact ⟨h.1.symm, h.2.1.symm, h.2.2.symm, Bool.eq_false_iff.mpr hb⟩

theorem lockAll_spec {t : S.Tbl} {rows : List (S.Row t)} {r : Except (Exn H.Err) (List (S.Row t))}
    (hw : w.Ok) (hl : l.Ok w.db w.seq) (h : lockAll busy w l t rows = some (r, w', l')) :
    RunSpec busy w l w' l' := by
  obtain ⟨-, rfl, rfl, hb⟩ := lockAll_eq h
  exact .same hw (hl.acquire _) (GainedFree.append hb)

theorem insertRow_cases {t : S.Tbl} {u : S.Row t} {skip : Bool}
    {r : Except (Exn H.Err) (Option (S.Row t))}
    (h : insertRow busy w l t u skip = some (r, w', l')) :
    (r = .ok (some u) ∧ w' = { w with seq := Function.update w.seq t (w.seq t + 1) } ∧
      l' = l.write t [] u ∧ (l.view w.db).Free t (S.keys u) ∧
      (Txn.writeLocks t [] u).any busy = false) ∨
    (w' = w ∧ ¬(l.view w.db).Free t (S.keys u) ∧
      ((r = .ok none ∧ skip = true ∧ l' = l) ∨ (r = .error .integrity ∧ l' = l.abort))) := by
  rw [insertRow] at h
  split at h
  · cases h
  rename_i hb
  split at h
  · rename_i hfree
    simp only [Option.some.injEq, Prod.mk.injEq] at h
    exact .inl ⟨h.1.symm, h.2.1.symm, h.2.2.symm, hfree, by simpa using hb⟩
  rename_i hfree
  split at h <;> simp only [Option.some.injEq, Prod.mk.injEq] at h
  · exact .inr ⟨h.2.1.symm, hfree, .inl ⟨h.1.symm, ‹_›, h.2.2.symm⟩⟩
  · exact .inr ⟨h.2.1.symm, hfree, .inr ⟨h.1.symm, h.2.2.symm⟩⟩

theorem insertRow_spec {t : S.Tbl} {u : S.Row t} {skip : Bool}
    {r : Except (Exn H.Err) (Option (S.Row t))} (hw : w.Ok) (hl : l.Ok w.db w.seq)
    (hid : S.id u = w.seq t) (h : insertRow busy w l t u skip = some (r, w', l')) :
    RunSpec busy w l w' l' := by
  rcases insertRow_cases h with ⟨-, rfl, rfl, hfree, hb⟩ | ⟨rfl, -, ⟨-, -, rfl⟩ | ⟨-, rfl⟩⟩
  · have hmono : ∀ t', w.seq t' ≤ Function.update w.seq t (w.seq t + 1) t' := fun t' => by
      by_cases ht : t' = t
      · subst ht; simp
      · simp [ht]
    exact ⟨⟨hw.wf, fun t' _ hr => (hw.bounded t' _ hr).trans_le (hmono t')⟩,
      Txn.Ok.insert hw hl hid hfree, hmono, GainedFree.append hb, .inl rfl⟩
  · exact .same hw hl (.refl _ _)
  · exact .same hw hl.abort fun _ h => .inl h

theorem rows_of_view (hw : w.Ok) (hl : l.Ok w.db w.seq) (t : S.Tbl) (p : S.Row t → Bool) :
    (((l.view w.db t).filter p).map S.id).Nodup ∧
      ∀ u ∈ (l.view w.db t).filter p, (l.view w.db).get t (S.id u) = some u ∧
        S.id u < w.seq t :=
  ⟨(hl.wf.ids t).sublist (List.filter_sublist.map _), fun _ hu =>
    ⟨Store.get_of_mem hl.wf.ids (List.mem_filter.mp hu).1,
      Txn.id_lt_of_mem_view hw hl (List.mem_filter.mp hu).1⟩⟩

theorem Action.run_spec {a : Action S H} {r : Except (Exn H.Err) a.Res} (hw : w.Ok)
    (hl : l.Ok w.db w.seq) (h : a.run c busy w l = some (r, w', l')) :
    RunSpec busy w l w' l' := by
  cases a with
  | read f =>
    refine statement_spec hw hl h fun he => ?_
    simp only [Option.some.injEq, Prod.mk.injEq] at he
    obtain ⟨-, rfl, rfl⟩ := he
    exact .same hw hl (.refl _ _)
  | lock t p => exact statement_spec hw hl h (lockAll_spec hw hl)
  | lockSkip t p => exact statement_spec hw hl h (lockAll_spec hw hl)
  | update t p f hf =>
    refine statement_spec hw hl h fun he => ?_
    obtain ⟨⟨r₁, l₁⟩, hu, hx⟩ := Option.map_eq_some_iff.mp he
    simp only [Prod.mk.injEq] at hx
    obtain ⟨-, rfl, rfl⟩ := hx
    obtain ⟨hnd, hrows⟩ := rows_of_view hw hl t p
    have hs := updateRows_spec hf hl hnd hrows hu
    exact .same hw hs.ok hs.gained
  | insert t mk hmk skip => exact statement_spec hw hl h (insertRow_spec hw hl (hmk _))
  | tryLock n =>
    refine statement_spec hw hl h fun he => ?_
    split at he <;> simp only [Option.some.injEq, Prod.mk.injEq] at he
    · obtain ⟨-, rfl, rfl⟩ := he
      exact .same hw hl (.refl _ _)
    · rename_i hb
      obtain ⟨-, rfl, rfl⟩ := he
      exact .same hw (hl.acquire _) (GainedFree.append (by simpa using hb))
  | commit =>
    refine statement_spec hw hl h fun he => ?_
    simp only [Option.some.injEq, Prod.mk.injEq] at he
    obtain ⟨-, rfl, rfl⟩ := he
    exact ⟨⟨hl.wf, fun t r hr => Txn.id_lt_of_mem_view hw hl hr⟩,
      Txn.ok_of_no_writes hl.wf rfl, fun _ => le_rfl, fun x hx => by simp [Txn.committed] at hx,
      .inr rfl⟩
  | rollback =>
    have hreset : RunSpec busy w l w l.reset :=
      .same hw (Txn.ok_of_no_writes hw.wf rfl) fun x hx => by simp [Txn.reset] at hx
    cases c with
    | go =>
      simp only [Action.run, Option.some.injEq, Prod.mk.injEq] at h
      obtain ⟨-, rfl, rfl⟩ := h
      exact hreset
    | fault =>
      simp only [Action.run, Option.some.injEq, Prod.mk.injEq] at h
      obtain ⟨-, rfl, rfl⟩ := h
      exact hreset
    | host c => cases h
  | host a =>
    cases c with
    | go => cases h
    | fault => cases h
    | host c =>
      obtain ⟨x, -, hx⟩ := Option.map_eq_some_iff.mp h
      simp only [Prod.mk.injEq] at hx
      obtain ⟨-, rfl, rfl⟩ := hx
      exact ⟨⟨hw.wf, hw.bounded⟩, hl, fun _ => le_rfl, .refl _ _, .inl rfl⟩

end

namespace Sys
variable {n : ℕ} {α : Type}

/-- The transactions of the running programs are in order and hold different locks. -/
structure Ok (s : Sys S H n α) : Prop where
  world : s.world.Ok
  txn : ∀ i, (s.procs i).txn.Ok s.world.db s.world.seq
  apart : ∀ i j, i ≠ j → (s.procs i).txn.Apart (s.procs j).txn

theorem start_ok {w : World S H} (hw : w.Ok) (ps : Fin n → Prog S H α) : (start w ps).Ok :=
  ⟨hw, fun _ => Txn.ok_of_no_writes hw.wf rfl, fun _ _ _ x hx => by simp [start] at hx⟩

theorem step_proc {s s' : Sys S H n α} {i : Fin n} {c : Choice H}
    (h : s.step (.proc i c) = some s') :
    ∃ a k r w' l', (s.procs i).prog = .act a k ∧
      a.run c (s.busy i) s.world (s.procs i).txn = some (r, w', l') ∧
      s' = ⟨w', Function.update s.procs i ⟨k r, l'⟩⟩ := by
  simp only [step] at h
  split at h
  · rename_i a k hp
    obtain ⟨⟨r, w', l'⟩, hr, rfl⟩ := Option.map_eq_some_iff.mp h
    exact ⟨a, k, r, w', l', hp, hr, rfl⟩
  · cases h

theorem allows_true (s : Sys S H n α) (i : Fin n) (c : Choice H) :
    s.Allows (fun _ _ _ _ _ => True) i c := by
  rw [Allows]
  split <;> trivial

theorem not_busy {s : Sys S H n α} {i j : Fin n} {x : Lock S} (h : s.busy i x = false)
    (hj : j ≠ i) : x ∉ (s.procs j).txn.locks := by
  simp only [busy, decide_eq_false_iff_not, not_exists, not_and] at h
  exact h j hj

/-- A commit keeps the transactions with other locks in order. -/
theorem other_ok {s : Sys S H n α} (hs : s.Ok) {i j : Fin n} (hij : j ≠ i) {w' : World S H}
    {l' : Txn S} (hr : RunSpec (s.busy i) s.world (s.procs i).txn w' l') :
    (s.procs j).txn.Ok w'.db w'.seq ∧ (s.procs j).txn.Still s.world.db w'.db := by
  rcases hr.db with hdb | hdb <;> rw [hdb]
  · exact ⟨(hs.txn j).mono hr.seq, .refl _ _⟩
  · exact ⟨(Txn.commit_ok (hs.txn j) (hs.txn i) (hs.apart j i hij)).mono hr.seq,
      Txn.commit_still (hs.txn i) (hs.apart j i hij)⟩

theorem other_apart {s : Sys S H n α} (hs : s.Ok) {i j : Fin n} (hij : j ≠ i) {w' : World S H}
    {l' : Txn S} (hr : RunSpec (s.busy i) s.world (s.procs i).txn w' l') :
    l'.Apart (s.procs j).txn := by
  intro x hx
  rcases hr.gained x hx with hx | hx
  · exact hs.apart i j hij.symm x hx
  · exact not_busy hx hij

theorem Ok.step {s s' : Sys S H n α} (hs : s.Ok) {x : Label H n} (h : s.step x = some s') :
    s'.Ok := by
  cases x with
  | env e =>
    simp only [Sys.step, Option.some.injEq] at h
    subst h
    exact ⟨⟨hs.world.wf, hs.world.bounded⟩, hs.txn, hs.apart⟩
  | proc i c =>
    obtain ⟨a, k, r, w', l', -, hrun, rfl⟩ := step_proc h
    have hr := Action.run_spec hs.world (hs.txn i) hrun
    refine ⟨hr.world, fun j => ?_, fun j k hjk => ?_⟩
    · by_cases hj : j = i
      · subst hj; simpa using hr.ok
      · simpa [hj] using (other_ok hs hj hr).1
    · by_cases hj : j = i <;> by_cases hk : k = i
      · exact absurd (hj.trans hk.symm) hjk
      · subst hj; simpa [hk] using other_apart hs hk hr
      · subst hk; simpa [hj] using (other_apart hs hj hr).symm
      · simpa [hj, hk] using hs.apart j k hjk

/-- Unique indexes hold in every committed state, whatever the programs do. -/
theorem Run.ok {G : Guard S H n} {K : History S H n} {s₀ s : Sys S H n α} {x₀ x : K.Val}
    (h : Run G K s₀ x₀ s x) (h₀ : s₀.Ok) : s.Ok := by
  induction h with
  | start => exact h₀
  | proc i c _ _ hstep ih => exact ih.step hstep
  | env e _ hstep ih => exact ih.step hstep

theorem Run.trans {G : Guard S H n} {K : History S H n} {s₀ s s' : Sys S H n α} {x₀ x x' : K.Val}
    (h : Run G K s₀ x₀ s x) (h' : Run G K s x s' x') : Run G K s₀ x₀ s' x' := by
  induction h' with
  | start => exact h
  | proc i c _ hG hstep ih => exact .proc i c ih hG hstep
  | env e _ hstep ih => exact .env e ih hstep

theorem Run.history {G : Guard S H n} {K : History S H n} {s₀ s : Sys S H n α} {x₀ x : K.Val}
    (h : Run G K s₀ x₀ s x) (L : History S H n) (y₀ : L.Val) : ∃ y, Run G L s₀ y₀ s y := by
  induction h with
  | start => exact ⟨y₀, .start⟩
  | proc i c _ hG hstep ih =>
    obtain ⟨y, hy⟩ := ih
    exact ⟨_, .proc i c hy hG hstep⟩
  | env e _ hstep ih =>
    obtain ⟨y, hy⟩ := ih
    exact ⟨y, .env e hy hstep⟩

theorem Run.exec {G : Guard S H n} [∀ i sh l a c, Decidable (G i sh l a c)] {K : History S H n}
    {s₀ s s' : Sys S H n α} {x₀ x : K.Val} (h : Run G K s₀ x₀ s x) {xs : List (Label H n)}
    (hx : s.exec G xs = some s') : ∃ x', Run G K s₀ x₀ s' x' := by
  induction xs generalizing s x with
  | nil =>
    cases hx
    exact ⟨x, h⟩
  | cons a xs ih =>
    cases a with
    | env e =>
      obtain ⟨s₁, hstep, hx⟩ := Option.bind_eq_some_iff.mp hx
      exact ih (.env e h hstep) hx
    | proc i c =>
      rw [Sys.exec] at hx
      split at hx
      · rename_i hG
        obtain ⟨s₁, hstep, hx⟩ := Option.bind_eq_some_iff.mp hx
        exact ih (.proc i c h hG hstep) hx
      · cases hx

theorem run_of_exec {G : Guard S H n} [∀ i sh l a c, Decidable (G i sh l a c)] (K : History S H n)
    (x₀ : K.Val) {s₀ s : Sys S H n α} {xs : List (Label H n)} (h : s₀.exec G xs = some s) :
    ∃ x, Run G K s₀ x₀ s x := Run.exec .start h

theorem isSome_get_put {d : Store S} {t : S.Tbl} {i : ℕ} (h : (d.get t i).isSome) {t' : S.Tbl}
    (r : S.Row t') : ((d.put t' r).get t i).isSome := by
  by_cases hr : t = t' ∧ i = S.id r
  · obtain ⟨rfl, rfl⟩ := hr
    simp [Store.get_put_self]
  · rwa [Store.get_put_of_ne d r hr]

theorem isSome_get_applyWrites {d : Store S} {t : S.Tbl} {i : ℕ} (h : (d.get t i).isSome)
    (ws : List (Write S)) : ((applyWrites ws d).get t i).isSome := by
  induction ws with
  | nil => exact h
  | cons w ws ih => exact isSome_get_put ih w.row

/-- Rows never disappear. -/
theorem Run.row_stays {G : Guard S H n} {K : History S H n} {s₀ s : Sys S H n α} {x₀ x : K.Val}
    (h : Run G K s₀ x₀ s x) (h₀ : s₀.Ok) {t : S.Tbl} {i : ℕ}
    (hr : (s₀.world.db.get t i).isSome) : (s.world.db.get t i).isSome := by
  induction h with
  | start => exact hr
  | proc i c hrun _ hstep ih =>
    obtain ⟨a, k, r, w', l', -, hact, rfl⟩ := step_proc hstep
    have hs := hrun.ok h₀
    rcases (Action.run_spec hs.world (hs.txn i) hact).db with hdb | hdb <;> rw [hdb]
    · exact ih
    · exact isSome_get_applyWrites ih _
  | env e _ hstep ih =>
    simp only [Sys.step, Option.some.injEq] at hstep
    subst hstep
    exact ih

end Sys
end Relational
