import Phyllonix.RelationalEvolution
import Phyllonix.RelationalSolo

/-!
# Statements that touch several rows

An update of several rows works on the rows that match when it begins. It takes
them one after another, waits for each, and leaves out a row that does not match
any more. Rows that were committed since it began are not looked at.
-/

namespace Relational
variable {S : Schema} {H : Host}

namespace Prog

def select (t : S.Tbl) (p : S.Row t → Bool) : Prog S H (List (S.Row t)) :=
  call (.read fun d => (d t).filter p)

def selectForUpdate (t : S.Tbl) (p : S.Row t → Bool) : Prog S H (List (S.Row t)) :=
  call (.lock t p)

def insertRow (t : S.Tbl) (mk : ℕ → S.Row t) (hmk : ∀ n, S.id (mk n) = n) :
    Prog S H (S.Row t) := do
  match ← call (.insert t mk hmk false) with
  | some r => pure r
  | none => raise .integrity

/-- Updates the listed rows that match `p` when they are reached. -/
def updateEach (t : S.Tbl) (p : S.Row t → Bool) (f : S.Row t → S.Row t)
    (hf : ∀ r, S.id (f r) = S.id r) : List ℕ → Prog S H (List (S.Row t))
  | [] => pure []
  | k :: ks => do
    let rs ← call (.update t (fun r => decide (S.id r = k) && p r) f hf)
    let rest ← updateEach t p f hf ks
    pure (rs ++ rest)

def updateWhere (t : S.Tbl) (p : S.Row t → Bool) (f : S.Row t → S.Row t)
    (hf : ∀ r, S.id (f r) = S.id r) : Prog S H (List (S.Row t)) := do
  let ks ← call (.read fun d => ((d t).filter p).map S.id)
  updateEach t p f hf ks

end Prog

variable {n : ℕ} {P : Protocol S H n} {G : Guard S H n} {i : Fin n}
variable {sh : Shared S H} {x : P.Val} {l l' : Txn S}

section Updated
variable {t : S.Tbl} {f : S.Row t → S.Row t} {r : S.Row t}

theorem Updated.of_nil (h : Updated f [] l l') : l'.writes = l.writes := h.writes

theorem Updated.of_single (h : Updated f [r] l l') :
    l'.writes = ⟨t, f r⟩ :: l.writes ∧ .row t (S.id r) ∈ l'.locks :=
  ⟨h.writes, h.locked r List.mem_cons_self⟩

/-- Updating one row writes its new version, or nothing where the row does not match. -/
theorem Updated.cases_one {d : Store S} {k : ℕ} {p : S.Row t → Bool}
    (h : Updated f (((l.view d).get t k).filter p).toList l l') :
    ((∀ r, (l.view d).get t k = some r → p r = false) ∧ l'.writes = l.writes) ∨
      ∃ r, (l.view d).get t k = some r ∧ p r = true ∧ l'.writes = ⟨t, f r⟩ :: l.writes := by
  cases hg : (l.view d).get t k with
  | none =>
    rw [hg] at h
    refine .inl ⟨fun r hr => ?_, h.of_nil⟩
    cases hr
  | some r =>
    rw [hg] at h
    cases hp : p r with
    | true =>
      rw [Option.filter_some_pos hp] at h
      exact .inr ⟨r, rfl, hp, h.of_single.1⟩
    | false =>
      rw [Option.filter_some_neg hp] at h
      refine .inl ⟨fun s hs => ?_, h.of_nil⟩
      cases hs
      exact hp

theorem Updated.evolves {R : RowOrder S} {d d₀ : Store S} {k : ℕ} {p : S.Row t → Bool}
    (h : Updated f (((l.view d).get t k).filter p).toList l l') (hf : ∀ r, S.id (f r) = S.id r)
    (hp : ∀ r, p r = true → R.rel t (some r) (some (f r))) (hl : Evolves R d₀ (l.view d)) :
    Evolves R d₀ (l'.view d) := by
  rcases h.cases_one with ⟨-, hw⟩ | ⟨r, hr, hpr, hw⟩
  · rw [Txn.view, hw]
    exact hl
  · rw [Txn.view, hw]
    have hk : (l.view d).get t (S.id (f r)) = some r := by
      rw [hf, Store.id_of_get hr]
      exact hr
    have hrel : R.rel t ((l.view d).get t (S.id (f r))) (some (f r)) := by
      rw [hk]
      exact hp r hpr
    exact hl.trans (Evolves.put hrel)

end Updated

/-- An inserted row has an identifier above all that the transaction sees. -/
theorem Safe.insertRow {t : S.Tbl} {mk : ℕ → S.Row t} {hmk : ∀ m, S.id (mk m) = m}
    {Q : Post P (S.Row t)}
    (h : ∀ w y, Seen P i l sh x w y → ∀ m, (∀ r ∈ l.view w.db t, S.id r < m) →
      (l.view w.db).Free t (S.keys (mk m)) → Q (.ok (mk m)) w.toShared y (l.write t [] (mk m)))
    (he : OnError Q i sh x l) : Safe P G i Q (Prog.insertRow t mk hmk) sh x l := by
  apply Safe.bind
  apply Safe.insert
  · intro w y hs m hm hf
    exact h w y hs m hm hf
  · intro hskip
    cases hskip
  · intro w y hs e l' hl
    exact he w y hs e l' hl

/-- One row of an update, selected by its identifier and checked again. -/
theorem Safe.updateOne {t : S.Tbl} {k : ℕ} {p : S.Row t → Bool} {f : S.Row t → S.Row t}
    {hf : ∀ r, S.id (f r) = S.id r} {Q : Post P (List (S.Row t))}
    (h : ∀ w y, Seen P i l sh x w y →
      ∀ l', Updated f (((l.view w.db).get t k).filter p).toList l l' →
      Q (.ok ((((l.view w.db).get t k).filter p).toList.map f)) w.toShared y l')
    (he : OnError Q i sh x l) :
    Safe P G i Q (.call (.update t (fun r => decide (S.id r = k) && p r) f hf)) sh x l := by
  refine Safe.update (fun w y hs l' hu => ?_) fun _ => he
  have hrows := Store.filter_id_and hs.ok.wf.ids t k p
  rw [hrows] at hu ⊢
  exact h w y hs l' hu

/-- The loop rule: `I ks` holds while the rows `ks` are still to be updated. -/
theorem Safe.updateEach {t : S.Tbl} {p : S.Row t → Bool} {f : S.Row t → S.Row t}
    {hf : ∀ r, S.id (f r) = S.id r} {I : List ℕ → Shared S H → P.Val → Txn S → Prop}
    (hstep : ∀ k ks sh x l, I (k :: ks) sh x l → ∀ w y, Seen P i l sh x w y →
      ∀ l', Updated f (((l.view w.db).get t k).filter p).toList l l' → I ks w.toShared y l')
    {ks : List ℕ} (h : I ks sh x l) :
    Safe P G i (.ofOk fun _ => I []) (Prog.updateEach t p f hf ks) sh x l := by
  induction ks generalizing sh x l with
  | nil => exact Safe.pure h
  | cons k ks ih =>
    apply Safe.bind
    apply Safe.updateOne
    · intro w y hs l' hu
      apply Safe.bind
      apply (ih (hstep k ks sh x l h w y hs l' hu)).mono
      intro r sh x l hr
      cases r with
      | error e => trivial
      | ok rest => exact Safe.pure hr
    · exact fun _ _ _ _ _ _ => trivial

theorem Safe.updateWhere {t : S.Tbl} {p : S.Row t → Bool} {f : S.Row t → S.Row t}
    {hf : ∀ r, S.id (f r) = S.id r} {I : List ℕ → Shared S H → P.Val → Txn S → Prop}
    (hstart : ∀ w y, Seen P i l sh x w y →
      I (((l.view w.db t).filter p).map S.id) w.toShared y l)
    (hstep : ∀ k ks sh x l, I (k :: ks) sh x l → ∀ w y, Seen P i l sh x w y →
      ∀ l', Updated f (((l.view w.db).get t k).filter p).toList l l' → I ks w.toShared y l') :
    Safe P G i (.ofOk fun _ => I []) (Prog.updateWhere t p f hf) sh x l := by
  apply Safe.bind
  apply Safe.read
  · intro w y hs
    exact Safe.updateEach hstep (hstart w y hs)
  · exact fun _ _ _ _ _ _ _ => trivial

/-- An update keeps what the transaction sees a later version of the store. -/
theorem Safe.updateWhere_evolves {R : RowOrder S} {t : S.Tbl} {p : S.Row t → Bool}
    {f : S.Row t → S.Row t} {hf : ∀ r, S.id (f r) = S.id r}
    (hp : ∀ r, p r = true → R.rel t (some r) (some (f r)))
    (h : Evolves R sh.db (l.view sh.db)) :
    Safe P G i (.ofOk fun _ sh _ l => Evolves R sh.db (l.view sh.db))
      (Prog.updateWhere t p f hf) sh x l := by
  apply Safe.updateWhere (I := fun _ sh _ l => Evolves R sh.db (l.view sh.db))
  · intro w y hs
    exact h.still hs.ok hs.still
  · intro k ks sh x l hl w y hs l' hu
    exact hu.evolves hf hp (hl.still hs.ok hs.still)

/-! ## Plays of the statements -/

section Plays
variable {C : H.Act → H.Choice → Prop} {w : World S H} {l : Txn S} {t : S.Tbl} {p : S.Row t → Bool}
variable {f : S.Row t → S.Row t} {hf : ∀ r, S.id (f r) = S.id r}

theorem Ends.select {Q : Outcomes S H (List (S.Row t))} (ha : l.aborted = false)
    (h : w.Ok → l.Ok w.db w.seq → Q (.ok ((l.view w.db t).filter p)) w l) :
    Ends C Q (Prog.select t p) w l := Ends.read ha h

theorem Ends.insertRow {mk : ℕ → S.Row t} {hmk : ∀ m, S.id (mk m) = m} {Q : Outcomes S H (S.Row t)}
    (ha : l.aborted = false)
    (h : w.Ok → l.Ok w.db w.seq → (l.view w.db).Free t (S.keys (mk (w.seq t))) ∧
      Q (.ok (mk (w.seq t))) { w with seq := Function.update w.seq t (w.seq t + 1) }
        (l.write t [] (mk (w.seq t)))) :
    Ends C Q (Prog.insertRow t mk hmk) w l := by
  apply Ends.bind
  apply Ends.insert ha
  intro hw hl
  obtain ⟨hfree, hq⟩ := h hw hl
  exact ⟨hfree, Ends.pure hq⟩

theorem Ends.updateOne {k : ℕ} {Q : Outcomes S H (List (S.Row t))} (hkeys : ∀ r, S.keys (f r) = S.keys r)
    (ha : l.aborted = false)
    (hnone : w.Ok → l.Ok w.db w.seq → ((l.view w.db).get t k).filter p = none → Q (.ok []) w l)
    (hsome : w.Ok → l.Ok w.db w.seq → ∀ r, ((l.view w.db).get t k).filter p = some r →
      Q (.ok [f r]) w (l.write t (S.keys r) (f r))) :
    Ends C Q (.call (.update t (fun r => decide (S.id r = k) && p r) f hf)) w l := by
  cases hr : ((l.view w.db).get t k).filter p with
  | none =>
    apply Ends.update_none ha
    intro hw hl
    rw [Store.filter_id_and hl.wf.ids, hr]
    exact ⟨rfl, hnone hw hl hr⟩
  | some r =>
    apply Ends.update_one ha
    intro hw hl
    rw [Store.filter_id_and hl.wf.ids, hr]
    refine ⟨rfl, ?_, hsome hw hl r hr⟩
    intro s _ k hk
    rw [hkeys] at hk
    simp at hk

/-- The loop rule of a play. -/
theorem Ends.updateEach {I : Txn S → Prop} (hkeys : ∀ r, S.keys (f r) = S.keys r)
    (ha : ∀ l, I l → l.aborted = false)
    (hstep : ∀ l r, I l → r ∈ l.view w.db t → p r = true → I (l.write t (S.keys r) (f r)))
    (ks : List ℕ) (h : I l) :
    Ends C (fun r w' l' => (∃ rows, r = .ok rows) ∧ w' = w ∧ I l')
      (Prog.updateEach t p f hf ks) w l := by
  induction ks generalizing l with
  | nil => exact Ends.pure ⟨⟨[], rfl⟩, rfl, h⟩
  | cons k ks ih =>
    have hrest : ∀ {l : Txn S} (rs : List (S.Row t)), I l →
        Ends C (fun r w' l' => (∃ rows, r = .ok rows) ∧ w' = w ∧ I l')
          (do let rest ← Prog.updateEach t p f hf ks; Pure.pure (rs ++ rest)) w l := by
      intro l rs hl
      apply Ends.bind
      apply (ih hl).mono
      rintro r w' l' _ _ ⟨⟨rows, rfl⟩, rfl, hl'⟩
      exact Ends.pure ⟨⟨rs ++ rows, rfl⟩, rfl, hl'⟩
    apply Ends.bind
    apply Ends.updateOne hkeys (ha l h)
    · intro _ _ _
      exact hrest [] h
    · intro _ _ r hr
      obtain ⟨hget, hp⟩ := Option.filter_eq_some_iff.mp hr
      exact hrest [f r] (hstep l r h (Store.mem_of_get hget) hp)

theorem Ends.updateWhere {I : Txn S → Prop} (hkeys : ∀ r, S.keys (f r) = S.keys r)
    (ha : ∀ l, I l → l.aborted = false)
    (hstep : ∀ l r, I l → r ∈ l.view w.db t → p r = true → I (l.write t (S.keys r) (f r)))
    (h : I l) :
    Ends C (fun r w' l' => (∃ rows, r = .ok rows) ∧ w' = w ∧ I l') (Prog.updateWhere t p f hf) w l := by
  apply Ends.bind
  apply Ends.read (ha l h)
  intro _ _
  exact Ends.updateEach hkeys ha hstep _ h

end Plays

/-! ## Which actions the statements take -/

namespace Prog
variable {A : Action S H → Prop} {t : S.Tbl}

theorem select_acts {p : S.Row t → Bool} (h : ∀ f, A (.read (β := List (S.Row t)) f)) :
    (select t p : Prog S H _).Acts A := .call (h _)

theorem insertRow_acts {mk : ℕ → S.Row t} {hmk : ∀ m, S.id (mk m) = m}
    (h : A (.insert t mk hmk false)) : (insertRow t mk hmk : Prog S H _).Acts A := by
  apply Acts.bind (.call h)
  intro r
  cases r <;> trivial

theorem updateWhere_acts {p : S.Row t → Bool} {f : S.Row t → S.Row t}
    {hf : ∀ r, S.id (f r) = S.id r} (hread : ∀ g, A (.read (β := List ℕ) g))
    (h : ∀ k, A (.update t (fun r => decide (S.id r = k) && p r) f hf)) :
    (updateWhere t p f hf : Prog S H _).Acts A := by
  apply Acts.bind (.call (hread _))
  intro ks
  induction ks with
  | nil => trivial
  | cons k ks ih =>
    apply Acts.bind (.call (h k))
    intro rs
    exact ih.bind fun rest => trivial

end Prog
end Relational
