import Phyllonix.RelationalEvolution

/-!
# Logs of commits

A run can record every change of the committed store: who committed, and the
store before and after. A ledger says which commits may follow an earlier log, and
which locks a committing transaction has to hold. When every commit of every
program is one that the ledger allows, properties of whole runs are properties of
logs, and a program may count on the commits of others that its own locks permit.
-/

namespace Relational
variable {S : Schema} {H : Host} {n : ℕ}

structure Commit (S : Schema) (n : ℕ) where
  proc : Fin n
  before : Store S
  after : Store S

/-- The newest commit stands first. A commit that changes nothing is not recorded. -/
@[reducible] noncomputable def History.commits : History S H n where
  Val := List (Commit S n)
  next i sh sh' x :=
    open Classical in if sh'.db = sh.db then x else ⟨i, sh.db, sh'.db⟩ :: x

theorem History.commits_same {i : Fin n} {sh sh' : Shared S H} {x : List (Commit S n)}
    (h : sh'.db = sh.db) : History.commits.next i sh sh' x = x := if_pos h

theorem History.commits_changed {i : Fin n} {sh sh' : Shared S H} {x : List (Commit S n)}
    (h : ¬sh'.db = sh.db) : History.commits.next i sh sh' x = ⟨i, sh.db, sh'.db⟩ :: x := if_neg h

structure Ledger (S : Schema) (n : ℕ) where
  allows : List (Commit S n) → Commit S n → Prop
  needs : Commit S n → Lock S → Prop

namespace Ledger
variable (L : Ledger S n)

/-- The store `d` is what the log makes of `d₀`. -/
def Logged (d₀ : Store S) : List (Commit S n) → Store S → Prop
  | [], d => d = d₀
  | e :: es, d => d = e.after ∧ L.allows es e ∧ Logged d₀ es e.before

/-- The store that a log of commits ends with. -/
def lastStore (d₀ : Store S) : List (Commit S n) → Store S
  | [] => d₀
  | e :: _ => e.after

/-- More commits, all of the kind `p`. -/
inductive Later (p : Commit S n → Prop) (x : List (Commit S n)) (d : Store S) :
    List (Commit S n) → Store S → Prop
  | refl : Later p x d x d
  | step {x' : List (Commit S n)} {e : Commit S n} : Later p x d x' e.before → p e →
      L.allows x' e → Later p x d (e :: x') e.after

variable {L} {p : Commit S n → Prop} {x x' x'' : List (Commit S n)} {d d' d'' d₀ : Store S}

theorem Later.trans (h : L.Later p x d x' d') (h' : L.Later p x' d' x'' d'') :
    L.Later p x d x'' d'' := by
  induction h' with
  | refl => exact h
  | step _ hp ha ih => exact .step ih hp ha

theorem Later.mono {q : Commit S n → Prop} (hpq : ∀ e, p e → q e) (h : L.Later p x d x' d') :
    L.Later q x d x' d' := by
  induction h with
  | refl => exact .refl
  | step _ hp ha ih => exact .step ih (hpq _ hp) ha

theorem Logged.last (h : L.Logged d₀ x d) : lastStore d₀ x = d := by
  cases x with
  | nil => exact Eq.symm h
  | cons e es => exact h.1.symm

theorem Logged.suffix (h : L.Logged d₀ x' d') (hsuf : x <:+ x') : L.Logged d₀ x (lastStore d₀ x) := by
  induction x' generalizing d' with
  | nil =>
    obtain rfl := List.suffix_nil.mp hsuf
    exact rfl
  | cons e es ih =>
    rcases List.suffix_cons_iff.mp hsuf with rfl | hsuf
    · exact ⟨rfl, h.2⟩
    · exact ih h.2.2 hsuf

theorem Later.suffix (h : L.Later p x d x' d') : x <:+ x' := by
  induction h with
  | refl => exact List.suffix_refl x
  | step _ _ _ ih => exact ih.trans (List.suffix_cons _ _)

/-- What every allowed commit of the kind `p` keeps, holds later on. -/
theorem Later.keeps {I : List (Commit S n) → Store S → Prop} (h : L.Later p x d x' d')
    (hI : I x d)
    (hstep : ∀ es e, I es e.before → p e → L.allows es e → I (e :: es) e.after) : I x' d' := by
  induction h with
  | refl => exact hI
  | step _ hp ha ih => exact hstep _ _ ih hp ha

/-- What every allowed commit keeps, holds of every logged store. -/
theorem Logged.keeps {I : List (Commit S n) → Store S → Prop} (h : L.Logged d₀ x d) (hI : I [] d₀)
    (hstep : ∀ es e, L.Logged d₀ es e.before → I es e.before → L.allows es e → I (e :: es) e.after) :
    I x d := by
  induction x generalizing d with
  | nil =>
    obtain rfl : d = d₀ := h
    exact hI
  | cons e es ih =>
    obtain ⟨rfl, ha, hbefore⟩ := h
    exact hstep es e hbefore (ih hbefore) ha

/-- Every commit of a log was allowed after the commits before it. -/
theorem Logged.mem (h : L.Logged d₀ x d) {e : Commit S n} (he : e ∈ x) :
    ∃ es, e :: es <:+ x ∧ L.allows es e ∧ L.Logged d₀ es e.before := by
  induction x generalizing d with
  | nil => cases he
  | cons e' es ih =>
    obtain ⟨-, ha, hbefore⟩ := h
    rcases List.mem_cons.mp he with rfl | he
    · exact ⟨es, List.suffix_refl _, ha, hbefore⟩
    · obtain ⟨es', hsuf, ha', hb'⟩ := ih hbefore he
      exact ⟨es', hsuf.trans (List.suffix_cons _ _), ha', hb'⟩

/-- The commits of one program. -/
def commitsOf (i : Fin n) (x : List (Commit S n)) : List (Commit S n) := x.filter fun e => e.proc = i

theorem commitsOf_own (i : Fin n) (d d' : Store S) (x : List (Commit S n)) :
    commitsOf i (⟨i, d, d'⟩ :: x) = ⟨i, d, d'⟩ :: commitsOf i x :=
  List.filter_cons_of_pos (by simp)

theorem Later.commitsOf {i : Fin n} (h : L.Later p x d x' d') (hp : ∀ e, p e → e.proc ≠ i) :
    commitsOf i x' = commitsOf i x := by
  induction h with
  | refl => rfl
  | step _ hpe _ ih =>
    rw [← ih, Ledger.commitsOf, List.filter_cons_of_neg (by simpa using hp _ hpe)]
    rfl

/-- A logged store is a later version of the store of an older log. -/
theorem Logged.later (h : L.Logged d₀ x' d') (hsuf : x <:+ x') :
    L.Later (fun _ => True) x (lastStore d₀ x) x' d' := by
  induction x' generalizing d' with
  | nil =>
    obtain rfl := List.suffix_nil.mp hsuf
    obtain rfl : d' = d₀ := h
    exact .refl
  | cons e es ih =>
    obtain ⟨rfl, ha, hbefore⟩ := h
    rcases List.suffix_cons_iff.mp hsuf with rfl | hsuf
    · exact .refl
    · exact .step (ih hbefore hsuf) trivial ha

end Ledger

/-- The commits of a run satisfy `C`. -/
def Guard.commits (C : Commit S n → Prop) : Guard S H n := fun i sh l a _ =>
  match a with
  | .commit => C ⟨i, sh.db, l.view sh.db⟩
  | _ => True

instance (C : Commit S n → Prop) [DecidablePred C] (i : Fin n) (sh : Shared S H) (l : Txn S)
    (a : Action S H) (c : Choice H) : Decidable (Guard.commits C i sh l a c) := by
  unfold Guard.commits
  cases a <;> infer_instance

/-- A run whose steps meet a guard also meets a weaker one. -/
theorem Sys.Run.relax {α : Type} {G G' : Guard S H n} {K : History S H n} {s₀ s : Sys S H n α}
    {x₀ x : K.Val} (hG : ∀ i sh l a c, G i sh l a c → G' i sh l a c) (h : Run G K s₀ x₀ s x) :
    Run G' K s₀ x₀ s x := by
  induction h with
  | start => exact .start
  | env e _ hstep ih => exact .env e ih hstep
  | @proc s₁ s₂ y i c _ hallows hstep ih =>
    have hallows' : s₁.Allows G' i c := by
      simp only [Sys.Allows] at hallows ⊢
      split
      · rename_i a k hp
        rw [hp] at hallows
        exact hG _ _ _ _ _ hallows
      · trivial
    exact .proc i c ih hallows' hstep

/-- Every run satisfies the guard that asks nothing of commits. -/
theorem Sys.Run.unguarded {α : Type} {K : History S H n} {s₀ s : Sys S H n α} {x₀ x : K.Val}
    (h : Run (fun _ _ _ _ _ => True) K s₀ x₀ s x) :
    Run (Guard.commits fun _ => True) K s₀ x₀ s x := by
  apply h.relax
  intro i sh l a c _
  cases a <;> trivial

/-- Others commit what the ledger allows, with the locks that it asks for. -/
noncomputable def ledgerProtocol (L : Ledger S n) (d₀ : Store S) : Protocol S H n where
  toHistory := History.commits
  inv sh x := L.Logged d₀ x sh.db
  rely j m sh x sh' x' :=
    L.Later (fun e => e.proc ≠ j ∧ ∀ z, L.needs e z → z ∉ m.locks) x sh.db x' sh'.db
  guar i l sh x sh' := sh'.db = sh.db ∨
    (L.allows x ⟨i, sh.db, sh'.db⟩ ∧ ∀ z, L.needs ⟨i, sh.db, sh'.db⟩ z → z ∈ l.locks)
  next_same _ _ _ := History.commits_same rfl
  rely_refl _ _ _ _ := .refl
  rely_trans h h' := h.trans h'
  guar_same _ _ _ _ := .inl rfl
  compat {i j l m sh x sh'} hij hlm _ _ _ hg := by
    by_cases hdb : sh'.db = sh.db
    · rw [History.commits_same hdb, hdb]
      exact .refl
    · rcases hg with hg | ⟨hallow, hneeds⟩
      · exact absurd hg hdb
      rw [History.commits_changed hdb]
      exact Ledger.Later.step (e := ⟨i, sh.db, sh'.db⟩) .refl
        ⟨hij, fun z hz hm => hlm z (hneeds z hz) hm⟩ hallow
  env_inv _ _ _ h := h
  env_rely _ _ _ _ _ _ := .refl

section Rules
variable {L : Ledger S n} {d₀ : Store S} {G : Guard S H n} {i : Fin n}
variable {sh : Shared S H} {x : List (Commit S n)} {l : Txn S}

/-- The log after a commit. -/
def CommitLogged (i : Fin n) (d d' : Store S) (x x' : List (Commit S n)) : Prop :=
  (x' = x ∧ d' = d) ∨ x' = ⟨i, d, d'⟩ :: x

theorem Safe.commit_logged {Q : Post (ledgerProtocol L d₀) Unit}
    (h : ∀ w y, Seen (ledgerProtocol L d₀) i l sh x w y → (∃ c, G i w.toShared l .commit c) →
      (L.allows y ⟨i, w.db, l.view w.db⟩ ∧
        ∀ z, L.needs ⟨i, w.db, l.view w.db⟩ z → z ∈ l.locks) ∧
      ∀ y', CommitLogged i w.db (l.view w.db) y y' → Q (.ok ()) ⟨l.view w.db, w.host⟩ y' l.committed)
    (he : (∃ sh', Fails G i sh' l .commit) → OnError Q i sh x l) :
    Safe (ledgerProtocol L d₀) G i Q (.call .commit) sh x l := by
  refine Safe.commit (fun w y hs hg => ?_) he
  obtain ⟨hallowed, hq⟩ := h w y hs hg
  have hlog : L.Logged d₀ y w.db := hs.inv
  by_cases hdb : l.view w.db = w.db
  · have hnext : (ledgerProtocol (H := H) L d₀).next i w.toShared ⟨l.view w.db, w.host⟩ y = y :=
      History.commits_same hdb
    rw [hnext]
    refine ⟨?_, .inl hdb, hq y (.inl ⟨rfl, hdb⟩)⟩
    change L.Logged d₀ y (l.view w.db)
    rwa [hdb]
  · have hnext : (ledgerProtocol (H := H) L d₀).next i w.toShared ⟨l.view w.db, w.host⟩ y =
        ⟨i, w.db, l.view w.db⟩ :: y := History.commits_changed hdb
    rw [hnext]
    exact ⟨⟨rfl, hallowed.1, hlog⟩, .inr hallowed, hq _ (.inr rfl)⟩

theorem Safe.host_logged {a : H.Act} {Q : Post (ledgerProtocol L d₀) (H.Res a)}
    (h : ∀ w y, Seen (ledgerProtocol L d₀) i l sh x w y → ∀ c r s,
      H.step a c w.host = some (r, s) → Q (r.mapError .app) ⟨w.db, s⟩ y l) :
    Safe (ledgerProtocol L d₀) G i Q (.call (.host a)) sh x l := by
  refine Safe.host fun w y hs c r s hst => ?_
  have hnext : (ledgerProtocol (H := H) L d₀).next i w.toShared ⟨w.db, s⟩ y = y :=
    History.commits_same rfl
  rw [hnext]
  exact ⟨hs.inv, .inl rfl, h w y hs c r s hst⟩

/-- While a program does not commit, only others add to the log. -/
theorem Safe.later {α : Type} {p : Prog S H α} (hp : p.Acts Action.Within) :
    Safe (ledgerProtocol L d₀) G i (fun _ sh' x' _ =>
      L.Later (fun e => e.proc ≠ i) x sh.db x' sh'.db) p sh x l := by
  induction p generalizing sh x l with
  | ret a => exact .refl
  | raise e => exact .refl
  | act a k ih =>
    intro w y hs c busy r w' l' _ hr
    have hdb := Action.run_uncommitted hp.1 hs.world hs.ok hr
    have hrely : L.Later (fun e => e.proc ≠ i) x sh.db y w.db :=
      hs.rely.mono fun _ he => he.1
    have hnext : (ledgerProtocol (H := H) L d₀).next i w.toShared w'.toShared y = y :=
      History.commits_same hdb
    rw [hnext]
    have hlog : L.Logged d₀ y w'.db := by
      rw [hdb]
      exact hs.inv
    refine ⟨hlog, .inl hdb, (ih r (hp.2 r)).mono ?_⟩
    intro r' sh' x' l'' h
    rw [hdb] at h
    exact hrely.trans h

/-- The log of a safe program grows by commits that the ledger allows. -/
theorem Safe.grows {α : Type} {Q : Post (ledgerProtocol L d₀) α} {p : Prog S H α}
    (h : Safe (ledgerProtocol L d₀) G i Q p sh x l) :
    Safe (ledgerProtocol L d₀) G i (fun r sh' x' l' => Q r sh' x' l' ∧
      L.Later (fun _ => True) x sh.db x' sh'.db) p sh x l := by
  induction p generalizing sh x l with
  | ret a => exact ⟨h, .refl⟩
  | raise e => exact ⟨h, .refl⟩
  | act a k ih =>
    intro w y hs c busy r w' l' hg hr
    obtain ⟨hinv, hguar, hnext⟩ := h w y hs c busy r w' l' hg hr
    have hrely : L.Later (fun _ => True) x sh.db y w.db := hs.rely.mono fun _ _ => trivial
    have hown : L.Later (fun _ => True) y w.db
        ((ledgerProtocol (H := H) L d₀).next i w.toShared w'.toShared y) w'.db := by
      by_cases hdb : w'.db = w.db
      · have hsame : (ledgerProtocol (H := H) L d₀).next i w.toShared w'.toShared y = y :=
          History.commits_same hdb
        rw [hsame, hdb]
        exact .refl
      · have hcons : (ledgerProtocol (H := H) L d₀).next i w.toShared w'.toShared y =
            ⟨i, w.db, w'.db⟩ :: y := History.commits_changed hdb
        rw [hcons]
        rcases hguar with hsame | ⟨hallows, -⟩
        · exact absurd hsame hdb
        · exact Ledger.Later.step (e := ⟨i, w.db, w'.db⟩) .refl trivial hallows
    refine ⟨hinv, hguar, (ih r hnext).mono ?_⟩
    intro r' sh' x' l'' h'
    exact ⟨h'.1, (hrely.trans hown).trans h'.2⟩

/-- A program that does not commit, and writes rows of one kind only. -/
theorem Safe.later_confined {α : Type} {W : Write S → Prop} {p : Prog S H α}
    (hp : p.Acts fun a => a.Within ∧ a.Confined W) (hl : ∀ v ∈ l.writes, W v) :
    Safe (ledgerProtocol L d₀) G i (fun _ sh' x' l' =>
      L.Later (fun e => e.proc ≠ i) x sh.db x' sh'.db ∧ ∀ v ∈ l'.writes, W v) p sh x l := by
  have hwrites : Safe (ledgerProtocol L d₀) G i (fun _ _ _ l' => ∀ v ∈ l'.writes, W v) p sh x l := by
    induction p generalizing sh x l with
    | ret a => exact hl
    | raise e => exact hl
    | act a k ih =>
      intro w y hs c busy r w' l' _ hr
      have hdb := Action.run_uncommitted hp.1.1 hs.world hs.ok hr
      have hnext : (ledgerProtocol (H := H) L d₀).next i w.toShared w'.toShared y = y :=
        History.commits_same hdb
      rw [hnext]
      have hlog : L.Logged d₀ y w'.db := by
        rw [hdb]
        exact hs.inv
      exact ⟨hlog, .inl hdb, ih r (hp.2 r) (Action.run_confined hp.1.2 hl hr)⟩
  exact (Safe.later (hp.mono fun _ ha => ha.1)).and hwrites

end Rules
end Relational
