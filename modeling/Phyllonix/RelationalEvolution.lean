import Phyllonix.RelyGuarantee
import Phyllonix.RelationalChange

/-!
# How rows evolve

A row order says which later versions of a row an earlier one allows. When every
action that the programs of a system can take keeps the order, every run relates
each committed row to its later versions, and so does each transaction the
committed rows to its view of them.
-/

namespace Relational
variable {S : Schema} {H : Host} {α β : Type}

/-- Every action that the program can take satisfies `A`. -/
def Prog.Acts (A : Action S H → Prop) : Prog S H α → Prop
  | .ret _ => True
  | .raise _ => True
  | .act a k => A a ∧ ∀ r, (k r).Acts A

namespace Prog.Acts
variable {A : Action S H → Prop}

theorem mono {B : Action S H → Prop} (hAB : ∀ a, A a → B a) {p : Prog S H α} (h : p.Acts A) :
    p.Acts B := by
  induction p with
  | ret a => trivial
  | raise e => trivial
  | act a k ih => exact ⟨hAB a h.1, fun r => ih r (h.2 r)⟩

theorem bind {p : Prog S H α} {f : α → Prog S H β} (h : p.Acts A) (hf : ∀ a, (f a).Acts A) :
    (p >>= f).Acts A := by
  induction p with
  | ret a => exact hf a
  | raise e => trivial
  | act a k ih => exact ⟨h.1, fun r => ih r (h.2 r)⟩

theorem pure (a : α) : (Pure.pure a : Prog S H α).Acts A := trivial

theorem raise (e : Exn H.Err) : (Prog.raise e : Prog S H α).Acts A := trivial

theorem attempt {p : Prog S H α} (h : p.Acts A) : p.attempt.Acts A := by
  induction p with
  | ret a => trivial
  | raise e => trivial
  | act a k ih => exact ⟨h.1, fun r => ih r (h.2 r)⟩

theorem call {a : Action S H} (h : A a) : (Prog.call a).Acts A :=
  ⟨h, fun r => by cases r <;> trivial⟩

theorem session {p : Prog S H α} (h : p.Acts A) (hr : A .rollback) : p.session.Acts A :=
  h.attempt.bind fun r => (call hr).attempt.bind fun _ => pure r

theorem transaction {p : Prog S H α} (h : p.Acts A) (hc : A .commit) (hr : A .rollback) :
    p.transaction.Acts A := by
  have hbody : (p >>= fun a => Prog.call .commit >>= fun _ => Pure.pure a).Acts A :=
    h.bind fun a => (call hc).bind fun _ => pure a
  refine hbody.attempt.bind fun r => ?_
  cases r with
  | ok a => exact pure a
  | error e => exact (call hr).attempt.bind fun _ => raise e

end Prog.Acts

structure RowOrder (S : Schema) where
  rel : (t : S.Tbl) → Option (S.Row t) → Option (S.Row t) → Prop
  refl : ∀ t r, rel t r r
  trans : ∀ {t r r' r''}, rel t r r' → rel t r' r'' → rel t r r''

def Evolves (R : RowOrder S) (d d' : Store S) : Prop := ∀ t i, R.rel t (d.get t i) (d'.get t i)

/-- The rows that the action writes are versions that the order allows. -/
def Action.Keeps (R : RowOrder S) : Action S H → Prop
  | .update t _ f _ => ∀ r, R.rel t (some r) (some (f r))
  | .insert t mk _ _ => ∀ m, R.rel t none (some (mk m))
  | _ => True

/-- The action leaves the transaction open. -/
def Action.Within : Action S H → Prop
  | .commit | .rollback => False
  | _ => True

/-- Every row that the action writes satisfies `W`. -/
def Action.Confined (W : Write S → Prop) : Action S H → Prop
  | .update t p f _ => ∀ r, p r = true → W ⟨t, f r⟩
  | .insert t mk _ _ => ∀ m, W ⟨t, mk m⟩
  | _ => True

/-- Every row that the action writes where it sees `d` satisfies `W`. -/
def Action.Writes (W : Write S → Prop) (d : Store S) : Action S H → Prop
  | .update t p f _ => ∀ r ∈ d t, p r = true → W ⟨t, f r⟩
  | .insert t mk _ _ => ∀ m, W ⟨t, mk m⟩
  | _ => True

theorem Action.Confined.writes {W : Write S → Prop} {a : Action S H} (ha : a.Confined W) (d : Store S) :
    a.Writes W d := by
  cases a with
  | update t p f hf => exact fun r _ hp => ha r hp
  | insert t mk hmk skip => exact ha
  | _ => trivial

section Order
variable {R : RowOrder S} {d d' d'' : Store S}

theorem Evolves.refl (R : RowOrder S) (d : Store S) : Evolves R d d := fun t _ => R.refl t _

theorem Evolves.trans (h : Evolves R d d') (h' : Evolves R d' d'') : Evolves R d d'' :=
  fun t i => R.trans (h t i) (h' t i)

theorem Evolves.put {t : S.Tbl} {r : S.Row t} (h : R.rel t (d.get t (S.id r)) (some r)) :
    Evolves R d (d.put t r) := by
  intro t' i
  by_cases hti : t' = t ∧ i = S.id r
  · obtain ⟨rfl, rfl⟩ := hti
    rw [Store.get_put_self]
    exact h
  · rw [Store.get_put_of_ne d r hti]
    exact R.refl _ _

theorem Evolves.write {l : Txn S} (h : Evolves R d' (l.view d)) {t : S.Tbl} {ks : List S.Key}
    {r : S.Row t} (hr : R.rel t ((l.view d).get t (S.id r)) (some r)) :
    Evolves R d' ((l.write t ks r).view d) :=
  h.trans (Evolves.put hr)

/-- Others do not write the locked rows, and the other rows are seen as they are. -/
theorem Evolves.still {l : Txn S} {seq : S.Tbl → ℕ} (h : Evolves R d (l.view d)) (hl : l.Ok d' seq)
    (hs : l.Still d d') : Evolves R d' (l.view d') := by
  intro t i
  by_cases hw : Written l.writes t i
  · have hlock := hl.written_locked hw
    rw [hs.get_view hlock, hs.row t i hlock]
    exact h t i
  · rw [Txn.view, get_applyWrites_of_not_written hw]
    exact R.refl _ _

/-- What a transaction sees evolves with the store. -/
theorem Evolves.view {l : Txn S} {seq : S.Tbl → ℕ} (h : Evolves R d d') (hl : l.Ok d' seq)
    (hs : l.Still d d') : Evolves R (l.view d) (l.view d') := by
  intro t i
  by_cases hw : Written l.writes t i
  · rw [hs.get_view (hl.written_locked hw)]
    exact R.refl _ _
  · rw [Txn.view, Txn.view, get_applyWrites_of_not_written hw, get_applyWrites_of_not_written hw]
    exact h t i

end Order

section Actions
variable {R : RowOrder S} {busy : Lock S → Bool} {w w' : World S H} {l l' : Txn S} {c : Choice H}

theorem updateRows_evolves {d d₀ : Store S} {t : S.Tbl} {f : S.Row t → S.Row t}
    (hf : ∀ r, S.id (f r) = S.id r) (hR : ∀ r, R.rel t (some r) (some (f r)))
    {rows : List (S.Row t)} {r : Except (Exn H.Err) (List (S.Row t))}
    (hnd : (rows.map S.id).Nodup) (hrows : ∀ u ∈ rows, (l.view d).get t (S.id u) = some u)
    (hl : Evolves R d₀ (l.view d)) (h : updateRows busy d t f rows l = some (r, l')) :
    Evolves R d₀ (l'.view d) := by
  induction rows generalizing l r l' with
  | nil =>
    simp only [updateRows, Option.some.injEq, Prod.mk.injEq] at h
    rw [← h.2]
    exact hl
  | cons u us ih =>
    simp only [List.map_cons, List.nodup_cons] at hnd
    rw [updateRows] at h
    split at h
    · cases h
    split at h
    · obtain ⟨⟨r₁, l₁⟩, h₁, hx⟩ := Option.map_eq_some_iff.mp h
      have hl' : l' = l₁ := by
        cases r₁ <;> exact (congrArg Prod.snd hx).symm
      subst hl'
      have hwrite : Evolves R d₀ ((l.write t (S.keys u) (f u)).view d) := by
        refine hl.write ?_
        rw [hf, hrows u List.mem_cons_self]
        exact hR u
      refine ih hnd.2 (fun v hv => ?_) hwrite h₁
      have hne : S.id v ≠ S.id (f u) := fun he =>
        hnd.1 ((he.trans (hf u)) ▸ List.mem_map_of_mem hv)
      rw [← hrows v (List.mem_cons_of_mem _ hv)]
      exact Store.get_put_of_ne _ _ (by simp [hne])
    · simp only [Option.some.injEq, Prod.mk.injEq] at h
      rw [← h.2]
      exact hl

theorem updateRows_confined {d : Store S} {W : Write S → Prop} {t : S.Tbl} {f : S.Row t → S.Row t}
    {rows : List (S.Row t)} {r : Except (Exn H.Err) (List (S.Row t))}
    (hrows : ∀ u ∈ rows, W ⟨t, f u⟩) (hl : ∀ v ∈ l.writes, W v)
    (h : updateRows busy d t f rows l = some (r, l')) : ∀ v ∈ l'.writes, W v := by
  induction rows generalizing l r l' with
  | nil =>
    simp only [updateRows, Option.some.injEq, Prod.mk.injEq] at h
    rw [← h.2]
    exact hl
  | cons u us ih =>
    rw [updateRows] at h
    split at h
    · cases h
    split at h
    · obtain ⟨⟨r₁, l₁⟩, h₁, hx⟩ := Option.map_eq_some_iff.mp h
      have hl' : l' = l₁ := by
        cases r₁ <;> exact (congrArg Prod.snd hx).symm
      subst hl'
      refine ih (fun v hv => hrows v (List.mem_cons_of_mem _ hv)) (fun v hv => ?_) h₁
      rcases List.mem_cons.mp hv with rfl | hv
      · exact hrows u List.mem_cons_self
      · exact hl v hv
    · simp only [Option.some.injEq, Prod.mk.injEq] at h
      rw [← h.2]
      exact hl

theorem Action.run_writes {W : Write S → Prop} {a : Action S H} {r : Except (Exn H.Err) a.Res}
    (ha : a.Writes W (l.view w.db)) (hl : ∀ v ∈ l.writes, W v)
    (h : a.run c busy w l = some (r, w', l')) : ∀ v ∈ l'.writes, W v := by
  have hstatement : ∀ {γ : Type} {go : Outcome S H γ} {r : Except (Exn H.Err) γ},
      statement c w l go = some (r, w', l') →
      (go = some (r, w', l') → ∀ v ∈ l'.writes, W v) → ∀ v ∈ l'.writes, W v := by
    intro γ go r h hgo
    rcases statement_cases h with ⟨-, -, rfl | rfl, -, -⟩ | ⟨-, hr⟩
    · exact hl
    · exact hl
    · exact hgo hr
  cases a with
  | read f =>
    refine hstatement h fun he => ?_
    simp only [Option.some.injEq, Prod.mk.injEq] at he
    rwa [← he.2.2]
  | lock t p =>
    refine hstatement h fun he => ?_
    rwa [(lockAll_eq he).2.2.1]
  | lockSkip t p =>
    refine hstatement h fun he => ?_
    rwa [(lockAll_eq he).2.2.1]
  | update t p f hf =>
    refine hstatement h fun he => ?_
    obtain ⟨⟨r₁, l₁⟩, hu, hx⟩ := Option.map_eq_some_iff.mp he
    simp only [Prod.mk.injEq] at hx
    obtain ⟨-, -, rfl⟩ := hx
    refine updateRows_confined (fun u hu => ?_) hl hu
    obtain ⟨hmem, hp⟩ := List.mem_filter.mp hu
    exact ha u hmem hp
  | insert t mk hmk skip =>
    refine hstatement h fun he => ?_
    rcases insertRow_cases he with ⟨-, -, rfl, -, -⟩ | ⟨-, -, ⟨-, -, rfl⟩ | ⟨-, rfl⟩⟩
    · intro v hv
      rcases List.mem_cons.mp hv with rfl | hv
      · exact ha _
      · exact hl v hv
    · exact hl
    · exact hl
  | tryLock m =>
    refine hstatement h fun he => ?_
    split at he <;> simp only [Option.some.injEq, Prod.mk.injEq] at he <;> rwa [← he.2.2]
  | commit =>
    refine hstatement h fun he => ?_
    simp only [Option.some.injEq, Prod.mk.injEq] at he
    rw [← he.2.2]
    exact fun v hv => by cases hv
  | rollback =>
    have hreset : ∀ v ∈ l.reset.writes, W v := fun v hv => by cases hv
    cases c with
    | host c => cases h
    | go =>
      simp only [Action.run, Option.some.injEq, Prod.mk.injEq] at h
      rwa [← h.2.2]
    | fault =>
      simp only [Action.run, Option.some.injEq, Prod.mk.injEq] at h
      rwa [← h.2.2]
  | host a =>
    cases c with
    | go => cases h
    | fault => cases h
    | host c =>
      obtain ⟨x, -, hx⟩ := Option.map_eq_some_iff.mp h
      simp only [Prod.mk.injEq] at hx
      rwa [← hx.2.2]

/-- An action writes rows of its kind only. -/
theorem Action.run_confined {W : Write S → Prop} {a : Action S H} {r : Except (Exn H.Err) a.Res}
    (ha : a.Confined W) (hl : ∀ v ∈ l.writes, W v) (h : a.run c busy w l = some (r, w', l')) :
    ∀ v ∈ l'.writes, W v :=
  Action.run_writes (ha.writes _) hl h

theorem statement_evolves {γ : Type} {go : Outcome S H γ} {r : Except (Exn H.Err) γ}
    (h : statement c w l go = some (r, w', l'))
    (hgo : go = some (r, w', l') → w'.db = w.db ∧ Evolves R (l.view w.db) (l'.view w.db)) :
    w'.db = w.db ∧ Evolves R (l.view w.db) (l'.view w.db) := by
  rcases statement_cases h with ⟨rfl, -, rfl | rfl, -, -⟩ | ⟨-, hr⟩
  · exact ⟨rfl, .refl _ _⟩
  · exact ⟨rfl, .refl _ _⟩
  · exact hgo hr

theorem Action.run_within {a : Action S H} {r : Except (Exn H.Err) a.Res} (ha : a.Keeps R)
    (hin : a.Within) (hw : w.Ok) (hok : l.Ok w.db w.seq) (h : a.run c busy w l = some (r, w', l')) :
    w'.db = w.db ∧ Evolves R (l.view w.db) (l'.view w.db) := by
  cases a with
  | commit => exact hin.elim
  | rollback => exact hin.elim
  | read f =>
    refine statement_evolves h fun he => ?_
    simp only [Option.some.injEq, Prod.mk.injEq] at he
    obtain ⟨-, rfl, rfl⟩ := he
    exact ⟨rfl, .refl _ _⟩
  | lock t p =>
    refine statement_evolves h fun he => ?_
    obtain ⟨-, rfl, rfl, -⟩ := lockAll_eq he
    exact ⟨rfl, .refl _ _⟩
  | lockSkip t p =>
    refine statement_evolves h fun he => ?_
    obtain ⟨-, rfl, rfl, -⟩ := lockAll_eq he
    exact ⟨rfl, .refl _ _⟩
  | update t p f hf =>
    refine statement_evolves h fun he => ?_
    obtain ⟨⟨r₁, l₁⟩, hu, hx⟩ := Option.map_eq_some_iff.mp he
    simp only [Prod.mk.injEq] at hx
    obtain ⟨-, rfl, rfl⟩ := hx
    obtain ⟨hnd, hrows⟩ := rows_of_view hw hok t p
    exact ⟨rfl, updateRows_evolves hf ha hnd (fun u hu => (hrows u hu).1) (.refl _ _) hu⟩
  | insert t mk hmk skip =>
    refine statement_evolves h fun he => ?_
    rcases insertRow_cases he with ⟨-, rfl, rfl, -, -⟩ | ⟨rfl, -, ⟨-, -, rfl⟩ | ⟨-, rfl⟩⟩
    · refine ⟨rfl, (Evolves.refl _ _).write ?_⟩
      rw [hmk, Txn.get_view_seq hw hok]
      exact ha _
    · exact ⟨rfl, .refl _ _⟩
    · exact ⟨rfl, .refl _ _⟩
  | tryLock m =>
    refine statement_evolves h fun he => ?_
    split at he <;> simp only [Option.some.injEq, Prod.mk.injEq] at he
    · obtain ⟨-, rfl, rfl⟩ := he
      exact ⟨rfl, .refl _ _⟩
    · obtain ⟨-, rfl, rfl⟩ := he
      exact ⟨rfl, .refl _ _⟩
  | host a =>
    cases c with
    | go => cases h
    | fault => cases h
    | host c =>
      obtain ⟨x, -, hx⟩ := Option.map_eq_some_iff.mp h
      simp only [Prod.mk.injEq] at hx
      obtain ⟨-, rfl, rfl⟩ := hx
      exact ⟨rfl, .refl _ _⟩

/-- Every version of a row may follow every other one. -/
def RowOrder.any (S : Schema) : RowOrder S where
  rel _ _ _ := True
  refl _ _ := trivial
  trans _ _ := trivial

theorem Action.keeps_any (a : Action S H) : a.Keeps (RowOrder.any S) := by
  cases a <;> simp [Action.Keeps, RowOrder.any]

/-- Only a commit changes the store. -/
theorem Action.run_uncommitted {a : Action S H} {r : Except (Exn H.Err) a.Res} (hin : a.Within)
    (hw : w.Ok) (hok : l.Ok w.db w.seq) (h : a.run c busy w l = some (r, w', l')) : w'.db = w.db :=
  (Action.run_within a.keeps_any hin hw hok h).1

theorem Action.run_evolves {a : Action S H} {r : Except (Exn H.Err) a.Res} (ha : a.Keeps R)
    (hw : w.Ok) (hok : l.Ok w.db w.seq) (hl : Evolves R w.db (l.view w.db))
    (h : a.run c busy w l = some (r, w', l')) :
    Evolves R w.db w'.db ∧ Evolves R w'.db (l'.view w'.db) := by
  by_cases hin : a.Within
  · obtain ⟨hdb, hview⟩ := Action.run_within ha hin hw hok h
    rw [hdb]
    exact ⟨.refl _ _, hl.trans hview⟩
  cases a with
  | commit =>
    rcases statement_cases h with ⟨rfl, -, rfl | rfl, -, -⟩ | ⟨-, he⟩
    · exact ⟨.refl _ _, hl⟩
    · exact ⟨.refl _ _, hl⟩
    · simp only [Option.some.injEq, Prod.mk.injEq] at he
      obtain ⟨-, rfl, rfl⟩ := he
      exact ⟨hl, .refl _ _⟩
  | rollback =>
    cases c with
    | host c => cases h
    | go =>
      simp only [Action.run, Option.some.injEq, Prod.mk.injEq] at h
      obtain ⟨-, rfl, rfl⟩ := h
      exact ⟨.refl _ _, .refl _ _⟩
    | fault =>
      simp only [Action.run, Option.some.injEq, Prod.mk.injEq] at h
      obtain ⟨-, rfl, rfl⟩ := h
      exact ⟨.refl _ _, .refl _ _⟩
  | _ => exact absurd trivial hin

end Actions

/-- A commit publishes versions that the order allows. -/
def Guard.evolving {n : ℕ} (R : RowOrder S) (G : Guard S H n) : Guard S H n := fun i sh l a c =>
  G i sh l a c ∧ match a with
    | .commit => Evolves R sh.db (l.view sh.db)
    | _ => True

namespace Sys
variable {n : ℕ} {R : RowOrder S} {A : Action S H → Prop} {G : Guard S H n} {K : History S H n}
variable {s₀ s : Sys S H n α} {x₀ x : K.Val}

/-- What holds of a program and of every rest of it holds in every state of a run. -/
theorem Run.rest (h : Run G K s₀ x₀ s x) {F : Prog S H α → Prop} (hF : ∀ a k, F (.act a k) → ∀ r, F (k r))
    {i : Fin n} (hp : F (s₀.procs i).prog) : F (s.procs i).prog := by
  induction h with
  | start => exact hp
  | env e _ hstep ih =>
    simp only [Sys.step, Option.some.injEq] at hstep
    subst hstep
    exact ih
  | proc j c _ _ hstep ih =>
    obtain ⟨a, k, r, w', l', hprog, -, rfl⟩ := step_proc hstep
    by_cases hij : i = j
    · subst hij
      rw [hprog] at ih
      simpa using hF a k ih r
    · simpa [hij] using ih

theorem Run.acts (h : Run G K s₀ x₀ s x) {i : Fin n} (hp : (s₀.procs i).prog.Acts A) :
    (s.procs i).prog.Acts A :=
  h.rest (fun _ _ hk => hk.2) hp

/-- The order relates the committed rows to the view of each transaction. -/
structure Evolving (R : RowOrder S) (s : Sys S H n α) : Prop where
  ok : s.Ok
  acts : ∀ i, (s.procs i).prog.Acts (Action.Keeps R)
  view : ∀ i, Evolves R s.world.db ((s.procs i).txn.view s.world.db)

theorem evolving_start {w : World S H} (hw : w.Ok) {ps : Fin n → Prog S H α}
    (hps : ∀ i, (ps i).Acts (Action.Keeps R)) : (start w ps).Evolving R :=
  ⟨start_ok hw ps, hps, fun _ => .refl _ _⟩

theorem Evolving.step {s s' : Sys S H n α} (h : s.Evolving R) {x : Label H n}
    (hstep : s.step x = some s') : s'.Evolving R ∧ Evolves R s.world.db s'.world.db := by
  have hok := h.ok.step hstep
  cases x with
  | env e =>
    simp only [Sys.step, Option.some.injEq] at hstep
    subst hstep
    exact ⟨⟨hok, h.acts, h.view⟩, .refl _ _⟩
  | proc i c =>
    obtain ⟨a, k, r, w', l', hp, hrun, rfl⟩ := step_proc hstep
    have hacts := h.acts i
    rw [hp] at hacts
    obtain ⟨hdb, hview⟩ := Action.run_evolves hacts.1 h.ok.world (h.ok.txn i) (h.view i) hrun
    refine ⟨⟨hok, fun j => ?_, fun j => ?_⟩, hdb⟩
    · by_cases hj : j = i
      · subst hj
        simpa using hacts.2 r
      · simpa [hj] using h.acts j
    · by_cases hj : j = i
      · subst hj
        simpa using hview
      · obtain ⟨hokj, hstill⟩ := other_ok h.ok hj
          (Action.run_spec h.ok.world (h.ok.txn i) hrun)
        simpa [hj] using (h.view j).still hokj hstill

theorem Run.evolving (h : Run G K s₀ x₀ s x) (h₀ : s₀.Evolving R) :
    s.Evolving R ∧ Evolves R s₀.world.db s.world.db := by
  induction h with
  | start => exact ⟨h₀, .refl _ _⟩
  | proc i c _ _ hstep ih =>
    obtain ⟨hs, hdb⟩ := ih.1.step hstep
    exact ⟨hs, ih.2.trans hdb⟩
  | env e _ hstep ih =>
    obtain ⟨hs, hdb⟩ := ih.1.step hstep
    exact ⟨hs, ih.2.trans hdb⟩

theorem Evolving.allows (h : s.Evolving R) {i : Fin n} {c : Choice H} (hG : s.Allows G i c) :
    s.Allows (G.evolving R) i c := by
  have hview := h.view i
  simp only [Allows] at hG ⊢
  split
  · rename_i a k hp
    rw [hp] at hG
    refine ⟨hG, ?_⟩
    cases a with
    | commit => exact hview
    | _ => trivial
  · trivial

/-- The steps of a run meet the guard of the order. -/
theorem Run.guarded (h : Run G K s₀ x₀ s x) (h₀ : s₀.Evolving R) :
    Run (G.evolving R) K s₀ x₀ s x := by
  induction h with
  | start => exact .start
  | env e _ hstep ih => exact .env e ih hstep
  | proc i c hrun hG hstep ih => exact .proc i c ih ((hrun.evolving h₀).1.allows hG) hstep

/-- A program that the guard holds back has not started. -/
theorem Run.idle (h : Run G K s₀ x₀ s x) {j : Fin n} (hj : ∀ sh l a c, ¬G j sh l a c) :
    s.procs j = s₀.procs j := by
  induction h with
  | start => rfl
  | env e _ hstep ih =>
    simp only [Sys.step, Option.some.injEq] at hstep
    subst hstep
    exact ih
  | proc i c _ hG hstep ih =>
    obtain ⟨a, k, r, w', l', hp, -, rfl⟩ := step_proc hstep
    have hne : j ≠ i := fun he => by
      subst he
      simp only [Allows, hp] at hG
      exact hj _ _ _ _ hG
    simpa [hne] using ih

end Sys

section Fields
variable {n : ℕ}

theorem Evolves.rely_refl (R : RowOrder S) (_ : Fin n) (_ : Txn S) (sh : Shared S H) (_ : Unit) :
    Evolves R sh.db sh.db :=
  .refl R sh.db

theorem Evolves.rely_trans {R : RowOrder S} {_ : Fin n} {_ : Txn S} {sh : Shared S H} {_ : Unit}
    {sh' : Shared S H} {_ : Unit} {sh'' : Shared S H} {_ : Unit} (h : Evolves R sh.db sh'.db)
    (h' : Evolves R sh'.db sh''.db) : Evolves R sh.db sh''.db :=
  h.trans h'

theorem Evolves.env_rely (R : RowOrder S) (I : Store S → Prop) (e : H.Env) (sh : Shared S H) (_ : Unit)
    (_ : Fin n) (_ : Txn S) (_ : I sh.db) : Evolves R sh.db (⟨sh.db, H.env e sh.host⟩ : Shared S H).db :=
  .refl R sh.db

end Fields

/-- Programs may count on the order; the programs of `J` leave the store as it is. -/
def evolution (R : RowOrder S) (I : Store S → Prop) {n : ℕ} (J : Fin n → Prop) :
    Protocol S H n where
  toHistory := History.none
  inv sh _ := I sh.db
  rely _ _ sh _ sh' _ := Evolves R sh.db sh'.db
  guar i _ sh _ sh' := Evolves R sh.db sh'.db ∧ (J i → sh'.db = sh.db)
  next_same := History.none_same
  rely_refl := Evolves.rely_refl R
  rely_trans := @Evolves.rely_trans S H n R
  guar_same _ _ _ _ := ⟨.refl _ _, fun _ => rfl⟩
  compat _ _ _ _ _ h := h.1
  env_inv _ _ _ h := h
  env_rely := Evolves.env_rely R I

section Rules
variable {R : RowOrder S} {I : Store S → Prop} {n : ℕ} {J : Fin n → Prop} {G : Guard S H n}
variable {i : Fin n} {sh : Shared S H} {x : Unit} {l : Txn S}

theorem Safe.commit_evolving {Q : Post (evolution R I J) Unit} (hi : ¬J i)
    (h : ∀ w y, Seen (evolution R I J) i l sh x w y → Evolves R w.db (l.view w.db) →
      I (l.view w.db) ∧ Q (.ok ()) ⟨l.view w.db, w.host⟩ y l.committed)
    (he : (∃ sh', Fails (G.evolving R) i sh' l .commit) → OnError Q i sh x l) :
    Safe (evolution R I J) (G.evolving R) i Q (.call .commit) sh x l := by
  refine Safe.commit (fun w y hs hg => ?_) he
  obtain ⟨c, -, hev⟩ := hg
  obtain ⟨hinv, hq⟩ := h w y hs hev
  exact ⟨hinv, ⟨hev, fun hj => absurd hj hi⟩, hq⟩

/-- Inside a transaction nothing is published, and what it sees evolves. -/
theorem Safe.of_within {α : Type} {p : Prog S H α} (hp : p.Acts fun a => a.Keeps R ∧ a.Within) :
    Safe (evolution R I J) G i (fun _ sh' _ l' => Evolves R sh.db sh'.db ∧
      Evolves R (l.view sh.db) (l'.view sh'.db)) p sh x l := by
  induction p generalizing sh l with
  | ret a => exact ⟨.refl _ _, .refl _ _⟩
  | raise e => exact ⟨.refl _ _, .refl _ _⟩
  | act a k ih =>
    intro w y hs c busy r w' l' _ hr
    obtain ⟨⟨hkeeps, hin⟩, hk⟩ := hp
    obtain ⟨hdb, hview⟩ := Action.run_within hkeeps hin hs.world hs.ok hr
    have hrely : Evolves R sh.db w.db := hs.rely
    have hinv : I w'.db := by
      rw [hdb]
      exact hs.inv
    have hsame : Evolves R w.db w'.db := by
      rw [hdb]
      exact .refl _ _
    refine ⟨hinv, ⟨hsame, fun _ => hdb⟩, (ih r (hk r)).mono ?_⟩
    intro r' sh' x' l'' h
    rw [hdb] at h
    exact ⟨hrely.trans h.1, ((hrely.view hs.ok hs.still).trans hview).trans h.2⟩

theorem Safe.of_confined {α : Type} {W : Write S → Prop} {p : Prog S H α}
    (hp : p.Acts fun a => a.Keeps R ∧ a.Within) (hW : p.Acts (Action.Confined W))
    (hl : ∀ v ∈ l.writes, W v) :
    Safe (evolution R I J) G i (fun _ sh' _ l' => Evolves R (l.view sh.db) (l'.view sh'.db) ∧
      Evolves R sh.db sh'.db ∧ ∀ v ∈ l'.writes, W v) p sh x l := by
  have hwrites : Safe (evolution R I J) G i (fun _ _ _ l' => ∀ v ∈ l'.writes, W v) p sh x l := by
    induction p generalizing sh l with
    | ret a => exact hl
    | raise e => exact hl
    | act a k ih =>
      intro w y hs c busy r w' l' _ hr
      have hdb := (Action.run_within hp.1.1 hp.1.2 hs.world hs.ok hr).1
      have hinv : I w'.db := by
        rw [hdb]
        exact hs.inv
      have hsame : Evolves R w.db w'.db := by
        rw [hdb]
        exact .refl _ _
      exact ⟨hinv, ⟨hsame, fun _ => hdb⟩,
        ih r (hp.2 r) (hW.2 r) (Action.run_confined hW.1 hl hr)⟩
  exact ((Safe.of_within hp).and hwrites).mono fun _ _ _ _ h => ⟨h.1.2, h.1.1, h.2⟩

/-- A program whose writes alone keep the invariant may commit at any time. -/
theorem Safe.of_inert {α : Type} {W : Write S → Prop} {p : Prog S H α} (hi : ¬J i)
    (hp : p.Acts fun a => a.Keeps R ∧ a.Confined W)
    (hI : ∀ d : Store S, d.Wf → ∀ ws, (∀ v ∈ ws, W v) → I d → I (applyWrites ws d))
    (hview : Evolves R sh.db (l.view sh.db)) (hl : ∀ v ∈ l.writes, W v) :
    Safe (evolution R I J) G i (fun _ _ _ _ => True) p sh x l := by
  induction p generalizing sh l with
  | ret a => trivial
  | raise e => trivial
  | act a k ih =>
    intro w y hs c busy r w' l' _ hr
    obtain ⟨⟨hkeeps, hconf⟩, hk⟩ := hp
    have hown := hview.still hs.ok hs.still
    obtain ⟨hdb, hview'⟩ := Action.run_evolves hkeeps hs.world hs.ok hown hr
    have hwrites := Action.run_confined hconf hl hr
    have hinv : I w'.db := by
      rcases (Action.run_spec hs.world hs.ok hr).db with h | h <;> rw [h]
      · exact hs.inv
      · exact hI _ hs.world.wf _ hl hs.inv
    exact ⟨hinv, ⟨hdb, fun hj => absurd hj hi⟩, ih r (hk r) hview' hwrites⟩

end Rules
end Relational
