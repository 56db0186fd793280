import Phyllonix.RelationalAlone

/-!
# Guarantees among bystanders

Some programs of a system give a guarantee about what they commit. Of the others only the
commits are known: they respect a row order, and what the guard lets through. Programs that
raise on every path, and do not commit before they do, keep every guarantee.
-/

namespace Relational
variable {S : Schema} {H : Host} {α β : Type}

/-- Every end of the program is an exception. -/
def Prog.Raises : Prog S H α → Prop
  | .ret _ => False
  | .raise _ => True
  | .act _ k => ∀ r, (k r).Raises

namespace Prog.Raises
variable {A : Action S H → Prop} {p : Prog S H α} {f : α → Prog S H β}

theorem bind (h : p.Raises) (f : α → Prog S H β) : (p >>= f).Raises := by
  induction p with
  | ret a => exact h.elim
  | raise e => exact trivial
  | act a k ih => exact fun r => ih r (h r)

/-- The rest of a program that raises does not run. -/
theorem acts_bind (h : p.Raises) (hp : p.Acts A) (f : α → Prog S H β) : (p >>= f).Acts A := by
  induction p with
  | ret a => exact h.elim
  | raise e => exact trivial
  | act a k ih => exact ⟨hp.1, fun r => ih r (h r) (hp.2 r)⟩

theorem after (hf : ∀ a, (f a).Raises) : (p >>= f).Raises := by
  induction p with
  | ret a => exact hf a
  | raise e => exact trivial
  | act a k ih => exact fun r => ih r

end Prog.Raises

theorem Prog.Acts.of_forall {A : Action S H → Prop} (hA : ∀ a, A a) (p : Prog S H α) : p.Acts A := by
  induction p with
  | ret a => exact trivial
  | raise e => exact trivial
  | act a k ih => exact ⟨hA a, ih⟩

/-- Program `i` guarantees `Γ i` of the stores before and after its steps. -/
def shielded (R : RowOrder S) (I : Store S → Prop) {n : ℕ} (Γ : Fin n → Store S → Store S → Prop)
    (hΓ : ∀ i d, Γ i d d) : Protocol S H n where
  toHistory := History.none
  inv sh _ := I sh.db
  rely _ _ sh _ sh' _ := Evolves R sh.db sh'.db
  guar i _ sh _ sh' := Evolves R sh.db sh'.db ∧ Γ i sh.db sh'.db
  next_same := History.none_same
  rely_refl := Evolves.rely_refl R
  rely_trans := @Evolves.rely_trans S H n R
  guar_same i _ _ _ := ⟨.refl _ _, hΓ i _⟩
  compat _ _ _ _ _ h := h.1
  env_inv _ _ _ h := h
  env_rely := Evolves.env_rely R I

section Rules
variable {R : RowOrder S} {I : Store S → Prop} {n : ℕ} {Γ : Fin n → Store S → Store S → Prop}
variable {hΓ : ∀ i d, Γ i d d} {G : Guard S H n} {i : Fin n} {sh : Shared S H} {x : Unit} {l : Txn S}

/-- A step that leaves the store as it is needs no proof. -/
theorem shielded_same {w w' : World S H} {y : Unit} (hs : Seen (shielded R I Γ hΓ) i l sh x w y)
    (hdb : w'.db = w.db) :
    I w'.db ∧ Evolves R w.db w'.db ∧ Γ i w.db w'.db := by
  have hinv : I w.db := hs.inv
  rw [hdb]
  exact ⟨hinv, .refl _ _, hΓ i _⟩

/-- Of a bystander only the commits matter. -/
theorem Safe.bystander {p : Prog S H α}
    (hcommit : ∀ (sh : Shared S H) (l : Txn S) c, G i sh l .commit c → Evolves R sh.db (l.view sh.db) →
      I sh.db → I (l.view sh.db) ∧ Γ i sh.db (l.view sh.db))
    (hp : p.Acts (Action.Keeps R)) (hview : Evolves R sh.db (l.view sh.db)) :
    Safe (shielded R I Γ hΓ) G i (fun _ _ _ _ => True) p sh x l := by
  induction p generalizing sh l with
  | ret a => exact trivial
  | raise e => exact trivial
  | act a k ih =>
    intro w y hs c busy r w' l' hg hr
    have hown := hview.still hs.ok hs.still
    obtain ⟨hdb, hview'⟩ := Action.run_evolves hp.1 hs.world hs.ok hown hr
    have hstep : I w'.db ∧ Γ i w.db w'.db := by
      by_cases ha : a.Uncommitted
      · obtain ⟨hinv, -, hguar⟩ := shielded_same hs (Action.run_db ha hs.world hs.ok hr)
        exact ⟨hinv, hguar⟩
      · cases a with
        | commit =>
          have hinv : I w.db := hs.inv
          rcases (Action.run_spec hs.world hs.ok hr).db with heq | heq
          · rw [heq]
            exact ⟨hinv, hΓ i _⟩
          · rw [heq]
            exact hcommit w.toShared l c hg hown hinv
        | _ => exact absurd trivial ha
    exact ⟨hstep.1, ⟨hdb, hstep.2⟩, ih r (hp.2 r) hview'⟩

/-- A program that raises before it commits. -/
theorem Safe.raises {Q : Post (shielded R I Γ hΓ) α} {p : Prog S H α} (hp : p.Acts Action.Uncommitted)
    (hr : p.Raises) (hQ : ∀ e sh x l, Q (.error e) sh x l) : Safe (shielded R I Γ hΓ) G i Q p sh x l := by
  induction p generalizing sh l with
  | ret a => exact hr.elim
  | raise e => exact hQ e sh x l
  | act a k ih =>
    intro w y hs c busy r w' l' _ hrun
    obtain ⟨hinv, hev, hguar⟩ := shielded_same hs (Action.run_db hp.1 hs.world hs.ok hrun)
    exact ⟨hinv, ⟨hev, hguar⟩, ih r (hp.2 r) (hr r)⟩

end Rules
end Relational
