import Phyllonix.RelationalStatements

/-!
# One program among others that stand still

When only one program of a system takes steps, the store is what that program has made
of it. Statements may still fail, and the environment of the host goes on. Until it
commits, what it has written is in its own transaction only.
-/

namespace Relational
variable {S : Schema} {H : Host} {n : ℕ} {α : Type}

def Guard.only (i₀ : Fin n) : Guard S H n := fun i _ _ _ _ => i = i₀

instance Guard.decidableOnly (i₀ i : Fin n) (sh : Shared S H) (l : Txn S) (a : Action S H) (c : Choice H) :
    Decidable (Guard.only i₀ i sh l a c) :=
  inferInstanceAs (Decidable (i = i₀))

/-- Program `i₀` may count on a store that nobody else changes. -/
def alone (i₀ : Fin n) : Protocol S H n where
  toHistory := History.none
  inv _ _ := True
  rely i _ sh _ sh' _ := i = i₀ → sh'.db = sh.db
  guar i _ sh _ sh' := i ≠ i₀ → sh'.db = sh.db
  next_same := History.none_same
  rely_refl _ _ _ _ := fun _ => rfl
  rely_trans h h' := fun hi => (h' hi).trans (h hi)
  guar_same _ _ _ _ := fun _ => rfl
  compat hij _ _ _ _ h := fun hj => h fun hi => hij (hi.trans hj.symm)
  env_inv _ _ _ h := h
  env_rely _ _ _ _ _ _ := fun _ => rfl

section Alone
variable {i₀ i : Fin n} {sh : Shared S H} {x y : Unit} {l : Txn S} {w : World S H}

theorem Seen.db_alone (hs : Seen (alone i₀) i₀ l sh x w y) : w.db = sh.db := hs.rely rfl

/-- What a program that stands still is to end in does not matter. -/
theorem Safe.still {P : Protocol S H n} {G : Guard S H n} (hG : ∀ sh l a c, ¬G i sh l a c)
    {p : Prog S H α} {z : P.Val} : Safe P G i (fun _ _ _ _ => True) p sh z l := by
  cases p with
  | ret a => trivial
  | raise e => trivial
  | act a k =>
    intro w y _ c busy r w' l' hg
    exact absurd hg (hG _ _ _ _)

theorem Sys.Run.alone {Q : Post (Relational.alone i₀) α} {ps : Fin n → Prog S H α} {s : Sys S H n α}
    (hw : w.Ok) (h : Sys.Run (Guard.only i₀) History.none (Sys.start w ps) () s ())
    (hsafe : Safe (Relational.alone i₀) (Guard.only i₀) i₀ Q (ps i₀) w.toShared () {}) {a : α}
    (hout : s.outcome i₀ = some a) :
    ∃ host l, Q (.ok a) ⟨s.world.db, host⟩ () l := by
  have hstart : (Sys.start w ps).Inv (Relational.alone i₀) (Guard.only i₀)
      (Function.update (fun _ _ _ _ _ => True) i₀ Q) () := by
    apply Sys.inv_start hw trivial
    intro j
    by_cases hj : j = i₀
    · subst hj
      rw [Function.update_self]
      exact hsafe
    · rw [Function.update_of_ne hj]
      exact Safe.still fun _ _ _ _ => hj
  have hs := Sys.Run.inv (P := Relational.alone i₀) h hstart
  obtain ⟨sh, ⟨⟩, hq, -, hrely⟩ := hs.safe i₀
  rw [Function.update_self, Sys.prog_of_outcome hout] at hq
  have hdb : s.world.db = sh.db := hrely rfl
  refine ⟨sh.host, (s.procs i₀).txn, ?_⟩
  rw [hdb]
  exact hq

end Alone

/-! ## Before the commit -/

/-- The action is not a commit. -/
def Action.Uncommitted : Action S H → Prop
  | .commit => False
  | _ => True

theorem Action.Within.uncommitted {a : Action S H} (h : a.Within) : a.Uncommitted := by
  cases a with
  | commit => exact h.elim
  | _ => trivial

theorem Action.run_db {a : Action S H} (ha : a.Uncommitted) {c : Choice H} {busy : Lock S → Bool}
    {w w' : World S H} {l l' : Txn S} {r : Except (Exn H.Err) a.Res} (hw : w.Ok)
    (hok : l.Ok w.db w.seq) (h : a.run c busy w l = some (r, w', l')) : w'.db = w.db := by
  by_cases hin : a.Within
  · exact Action.run_uncommitted hin hw hok h
  cases a with
  | commit => exact ha.elim
  | rollback =>
    cases c with
    | host c => cases h
    | _ =>
      cases h
      rfl
  | _ => exact absurd trivial hin

/-- The store is still `d₀`, and what is returned satisfies `Q`. -/
def Pending {i₀ : Fin n} (d₀ : Store S) (Q : α → Txn S → Prop) :
    Post (alone i₀ : Protocol S H n) α
  | .ok a, sh, _, l => sh.db = d₀ ∧ Q a l
  | .error _, sh, _, _ => sh.db = d₀

section Pending
variable {i₀ : Fin n} {G : Guard S H n} {sh : Shared S H} {x : Unit} {l : Txn S} {d₀ : Store S}
variable {β : Type} {Q : α → Txn S → Prop}

theorem pending_error {e : Exn H.Err} {w : World S H} {y : Unit} {l' : Txn S} (hdb : sh.db = d₀)
    (hs : Seen (alone i₀) i₀ l sh x w y) :
    (Pending d₀ Q : Post (alone i₀) α) (.error e) w.toShared y l' :=
  hs.db_alone.trans hdb

theorem Safe.bind_pending {Q' : Post (alone i₀) β} {p : Prog S H α} {f : α → Prog S H β}
    (h : Safe (alone i₀) G i₀ (Pending d₀ Q) p sh x l)
    (hf : ∀ a sh x l, sh.db = d₀ → Q a l → Safe (alone i₀) G i₀ Q' (f a) sh x l)
    (he : ∀ e sh x l, sh.db = d₀ → Q' (.error e) sh x l) :
    Safe (alone i₀) G i₀ Q' (p >>= f) sh x l := by
  apply Safe.bind
  apply h.mono
  intro r sh x l hr
  cases r with
  | ok a => exact hf a sh x l hr.1 hr.2
  | error e => exact he e sh x l hr

theorem Safe.pending_acts {W : Write S → Prop} {p : Prog S H α}
    (hp : p.Acts fun a => a.Uncommitted ∧ a.Confined W) (hdb : sh.db = d₀) (hl : ∀ v ∈ l.writes, W v) :
    Safe (alone i₀) G i₀ (Pending d₀ fun _ l' => ∀ v ∈ l'.writes, W v) p sh x l := by
  induction p generalizing sh x l with
  | ret a => exact ⟨hdb, hl⟩
  | raise e => exact hdb
  | act a k ih =>
    intro w y hs c busy r w' l' _ hr
    obtain ⟨⟨hun, hconf⟩, hk⟩ := hp
    have hsame : w'.db = w.db := Action.run_db hun hs.world hs.ok hr
    refine ⟨trivial, fun _ => hsame, ih r (hk r) ?_ (Action.run_confined hconf hl hr)⟩
    rw [hsame, hs.db_alone, hdb]

theorem Safe.pending_select {t : S.Tbl} {p : S.Row t → Bool} (hdb : sh.db = d₀) :
    Safe (alone i₀) G i₀ (Pending d₀ fun rows l' => rows = (l.view d₀ t).filter p ∧ l' = l)
      (Prog.select t p) sh x l := by
  apply Safe.read
  · intro w y hs
    have hw : w.db = d₀ := hs.db_alone.trans hdb
    refine ⟨hw, ?_, rfl⟩
    rw [hw]
  · exact fun _ w y hs e l' _ => pending_error hdb hs

end Pending

/-! ## An update of several rows -/

section Mapped
variable {t : S.Tbl} {p : S.Row t → Bool} {f : S.Row t → S.Row t} {d d' : Store S} {ks : List ℕ}

/-- The row after the update, when the rows `ks` are still to be updated. -/
def updatedRow (p : S.Row t → Bool) (f : S.Row t → S.Row t) (ks : List ℕ) (r : S.Row t) : S.Row t :=
  if p r = true ∧ S.id r ∉ ks then f r else r

/-- Table `t` of `d'` is that of `d` after the update, and the other tables are the same. -/
structure Mapped (t : S.Tbl) (p : S.Row t → Bool) (f : S.Row t → S.Row t) (ks : List ℕ) (d d' : Store S) :
    Prop where
  rest : ∀ t', t' ≠ t → d' t' = d t'
  get : ∀ i, d'.get t i = (d.get t i).map (updatedRow p f ks)

theorem Mapped.start : Mapped t p f (((d t).filter p).map S.id) d d := by
  refine ⟨fun _ _ => rfl, fun i => ?_⟩
  cases hr : d.get t i with
  | none => rfl
  | some r =>
    have hin : p r = true → S.id r ∈ ((d t).filter p).map S.id := fun hp =>
      List.mem_map_of_mem (List.mem_filter.mpr ⟨Store.mem_of_get hr, hp⟩)
    have hno : ¬(p r = true ∧ S.id r ∉ ((d t).filter p).map S.id) := fun h => h.2 (hin h.1)
    rw [Option.map_some, updatedRow, if_neg hno]

theorem Mapped.step {k : ℕ} {l l' : Txn S} (hf : ∀ r, S.id (f r) = S.id r) (hk : k ∉ ks)
    (h : Mapped t p f (k :: ks) d (l.view d'))
    (hu : Updated f (((l.view d').get t k).filter p).toList l l') : Mapped t p f ks d (l'.view d') := by
  have hother : ∀ i, i ≠ k → (d.get t i).map (updatedRow p f (k :: ks)) = (d.get t i).map (updatedRow p f ks) := by
    intro i hi
    cases hr : d.get t i with
    | none => rfl
    | some r =>
      have hid : S.id r ≠ k := by
        rw [Store.id_of_get hr]
        exact hi
      simp [updatedRow, hid]
  have hown : (l.view d').get t k = d.get t k := by
    rw [h.get]
    cases hr : d.get t k with
    | none => rfl
    | some r => simp [updatedRow, Store.id_of_get hr]
  rcases hu.cases_one with ⟨hnone, hw⟩ | ⟨r, hr, hp, hw⟩
  · have hview : l'.view d' = l.view d' := by rw [Txn.view, Txn.view, hw]
    rw [hview]
    refine ⟨h.rest, fun i => ?_⟩
    by_cases hi : i = k
    · subst hi
      rw [hown]
      cases hr : d.get t i with
      | none => rfl
      | some r =>
        have hp : p r = false := hnone r (hown.trans hr)
        simp [updatedRow, hp]
    · rw [h.get, hother i hi]
  · have hview : l'.view d' = (l.view d').put t (f r) := by rw [Txn.view, Txn.view, hw, applyWrites]
    rw [hview]
    refine ⟨fun t' ht' => ?_, fun i => ?_⟩
    · rw [Store.put_of_ne _ _ ht', h.rest t' ht']
    · have hid : S.id (f r) = k := (hf r).trans (Store.id_of_get hr)
      by_cases hi : i = k
      · subst hi
        have hput := Store.get_put_self (l.view d') t (f r)
        rw [hid] at hput
        rw [hput, ← hown, hr, Option.map_some, updatedRow, Store.id_of_get hr, if_pos ⟨hp, hk⟩]
      · rw [Store.get_put_of_ne _ _ (by simp [hid, hi]), h.get, hother i hi]

theorem Mapped.mem (h : Mapped t p f [] d d') (hd : ∀ t, ((d t).map S.id).Nodup) {r : S.Row t} (hr : r ∈ d t) :
    (if p r then f r else r) ∈ d' t := by
  have hget := h.get (S.id r)
  rw [Store.get_of_mem hd hr, Option.map_some] at hget
  simpa [updatedRow] using Store.mem_of_get hget

theorem Mapped.of_mem (h : Mapped t p f [] d d') (hd : ∀ t, ((d' t).map S.id).Nodup) {r : S.Row t}
    (hr : r ∈ d' t) :
    ∃ s ∈ d t, r = if p s then f s else s := by
  have hget := h.get (S.id r)
  rw [Store.get_of_mem hd hr] at hget
  obtain ⟨s, hs, hrs⟩ := Option.map_eq_some_iff.mp hget.symm
  refine ⟨s, Store.mem_of_get hs, ?_⟩
  simpa [updatedRow] using hrs.symm

end Mapped

section Updates
variable {i₀ : Fin n} {G : Guard S H n} {sh : Shared S H} {x : Unit} {l : Txn S} {d₀ : Store S}
variable {t : S.Tbl} {p : S.Row t → Bool} {f : S.Row t → S.Row t} {hf : ∀ r, S.id (f r) = S.id r}

theorem updateWhere_uncommitted :
    (Prog.updateWhere t p f hf : Prog S H _).Acts fun a => a.Uncommitted ∧ a.Confined fun _ => True :=
  Prog.updateWhere_acts (fun _ => ⟨trivial, trivial⟩) fun _ => ⟨trivial, fun _ _ => trivial⟩

/-- Alone, an update maps the matching rows of what the transaction sees. -/
theorem Safe.pending_updateWhere (hdb : sh.db = d₀) :
    Safe (alone i₀) G i₀ (Pending d₀ fun _ l' => Mapped t p f [] (l.view d₀) (l'.view d₀))
      (Prog.updateWhere t p f hf : Prog S H _) sh x l := by
  have hmapped : Safe (alone i₀) G i₀ (.ofOk fun _ sh' _ l' => sh'.db = d₀ ∧
      ([] : List ℕ).Nodup ∧ Mapped t p f [] (l.view d₀) (l'.view d₀))
      (Prog.updateWhere t p f hf : Prog S H _) sh x l := by
    apply Safe.updateWhere (I := fun ks sh' _ l' => sh'.db = d₀ ∧ ks.Nodup ∧
      Mapped t p f ks (l.view d₀) (l'.view d₀))
    · intro w y hs
      have hw : w.db = d₀ := hs.db_alone.trans hdb
      have hnd := (rows_of_view hs.world hs.ok t p).1
      refine ⟨hw, hnd, ?_⟩
      rw [hw]
      exact Mapped.start
    · rintro k ks sh x l ⟨hdb, hnd, hm⟩ w y hs l' hu
      have hw : w.db = d₀ := hs.db_alone.trans hdb
      rw [hw] at hu
      have hks := List.nodup_cons.mp hnd
      exact ⟨hw, hks.2, hm.step hf hks.1 hu⟩
  apply ((Safe.pending_acts updateWhere_uncommitted hdb fun _ _ => trivial).and hmapped).mono
  intro r sh x l h
  cases r with
  | ok rows => exact ⟨h.1.1, h.2.2.2⟩
  | error e => exact h.1

end Updates

/-! ## An insertion that may be refused -/

theorem statement_error {γ : Type} {c : Choice H} {w w' : World S H} {l l' : Txn S}
    {go : Outcome S H γ} {r : Except (Exn H.Err) γ} (h : statement c w l go = some (r, w', l')) :
    (w' = w ∧ ∃ e, r = .error e ∧ e ≠ .integrity) ∨ go = some (r, w', l') := by
  cases c with
  | host c => cases h
  | fault =>
    cases h
    exact .inl ⟨rfl, .fault, rfl, by simp⟩
  | go =>
    rw [statement] at h
    split at h
    · cases h
      exact .inl ⟨rfl, .inFailedTransaction, rfl, by simp⟩
    · exact .inr h

/-- An insertion raises an integrity error when its index entry is taken, and only then. -/
theorem Safe.insertRow_integrity {P : Protocol S H n} {G : Guard S H n} {i : Fin n} {sh : Shared S H}
    {x : P.Val} {l : Txn S} {t : S.Tbl} {mk : ℕ → S.Row t} {hmk : ∀ m, S.id (mk m) = m} {Q : Post P (S.Row t)}
    (h : ∀ w y, Seen P i l sh x w y → ∀ m, (∀ r ∈ l.view w.db t, S.id r < m) →
      (l.view w.db).Free t (S.keys (mk m)) → Q (.ok (mk m)) w.toShared y (l.write t [] (mk m)))
    (hrefused : ∀ w y, Seen P i l sh x w y → ∀ m, ¬(l.view w.db).Free t (S.keys (mk m)) → ∀ l',
      Q (.error .integrity) w.toShared y l')
    (he : ∀ w y, Seen P i l sh x w y → ∀ e l', e ≠ .integrity → Q (.error e) w.toShared y l') :
    Safe P G i Q (Prog.insertRow t mk hmk) sh x l := by
  apply Safe.bind
  apply Safe.call_same
  intro w y hs c busy r w' l' _ hr
  rcases statement_error hr with ⟨rfl, e, rfl, hne⟩ | hgo
  · exact ⟨rfl, he _ y hs e l' hne⟩
  rcases insertRow_cases hgo with ⟨rfl, rfl, rfl, hfree, -⟩ | ⟨rfl, hfree, ⟨-, hskip, -⟩ | ⟨rfl, rfl⟩⟩
  · exact ⟨rfl, h w y hs _ (fun r hr => Txn.id_lt_of_mem_view hs.world hs.ok hr) hfree⟩
  · cases hskip
  · exact ⟨rfl, hrefused _ y hs _ hfree _⟩

end Relational
