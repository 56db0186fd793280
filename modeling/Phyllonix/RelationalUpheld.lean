import Phyllonix.RelationalEvolution

/-!
# Invariants that later stores keep

When an invariant of store and host is kept by every later version of the store, only
actions on the host can break it. A program that leaves the host as it is keeps the
invariant without a proof of its own, and nothing that it knows about rows is lost.
-/

namespace Relational
variable {S : Schema} {H : Host} {α : Type} {n : ℕ}

structure Upheld (R : RowOrder S) (H : Host) where
  holds : Shared S H → Prop
  later : ∀ {sh : Shared S H} {d : Store S}, holds sh → Evolves R sh.db d → holds ⟨d, sh.host⟩
  env : ∀ e {sh : Shared S H}, holds sh → holds { sh with host := H.env e sh.host }

def Upheld.protocol {R : RowOrder S} (I : Upheld R H) (n : ℕ) : Protocol S H n where
  toHistory := History.none
  inv sh _ := I.holds sh
  rely _ _ sh _ sh' _ := Evolves R sh.db sh'.db
  guar _ _ sh _ sh' := Evolves R sh.db sh'.db
  next_same := History.none_same
  rely_refl := Evolves.rely_refl R
  rely_trans := @Evolves.rely_trans S H n R
  guar_same _ _ _ _ := .refl _ _
  compat _ _ _ _ _ h := h
  env_inv e _ _ h := I.env e h
  env_rely _ _ _ _ _ _ := .refl _ _

/-- What the action makes of the rows that it picks are versions that the order allows. -/
def Action.Maintains (R : RowOrder S) : Action S H → Prop
  | .update t p f _ => ∀ r, p r = true → R.rel t (some r) (some (f r))
  | .insert t mk _ _ => ∀ m, R.rel t none (some (mk m))
  | _ => True

theorem Action.Keeps.maintains {R : RowOrder S} {a : Action S H} (ha : a.Keeps R) : a.Maintains R := by
  cases a with
  | update t p f hf => exact fun r _ => ha r
  | insert t mk hmk skip => exact ha
  | _ => trivial

theorem updateRows_congr {busy : Lock S → Bool} {d : Store S} {t : S.Tbl} {f g : S.Row t → S.Row t}
    {rows : List (S.Row t)} (h : ∀ r ∈ rows, f r = g r) (l : Txn S) :
    updateRows (H := H) busy d t f rows l = updateRows busy d t g rows l := by
  induction rows generalizing l with
  | nil => rfl
  | cons r rows ih =>
    have hr := h r List.mem_cons_self
    rw [updateRows, updateRows, hr, ih (fun r' hr' => h r' (List.mem_cons_of_mem _ hr'))]

/-- The rows that an update does not pick do not matter. -/
theorem Action.Maintains.run_evolves {R : RowOrder S} {a : Action S H} {busy : Lock S → Bool} {w w' : World S H}
    {l l' : Txn S} {c : Choice H} {r : Except (Exn H.Err) a.Res} (ha : a.Maintains R) (hw : w.Ok)
    (hok : l.Ok w.db w.seq) (hl : Evolves R w.db (l.view w.db)) (h : a.run c busy w l = some (r, w', l')) :
    Evolves R w.db w'.db ∧ Evolves R w'.db (l'.view w'.db) := by
  cases a with
  | update t p f hf =>
    have hg : ∀ u, S.id (if p u then f u else u) = S.id u := by
      intro u
      split
      · exact hf u
      · rfl
    have hkeeps : (Action.update t p (fun u => if p u then f u else u) hg : Action S H).Keeps R := by
      intro u
      dsimp only
      split
      · exact ha u ‹_›
      · exact R.refl t _
    have hcongr : updateRows (H := H) busy w.db t (fun u => if p u then f u else u) ((l.view w.db t).filter p) l =
        updateRows busy w.db t f ((l.view w.db t).filter p) l :=
      updateRows_congr (fun u hu => if_pos (List.mem_filter.mp hu).2) l
    have hrun : (Action.update t p (fun u => if p u then f u else u) hg : Action S H).run c busy w l =
        some (r, w', l') := by
      rw [← h]
      simp only [Action.run, hcongr]
    exact Action.run_evolves hkeeps hw hok hl hrun
  | insert t mk hmk skip => exact Action.run_evolves (a := .insert t mk hmk skip) ha hw hok hl h
  | read f => exact Action.run_evolves (a := .read f) trivial hw hok hl h
  | lock t p => exact Action.run_evolves (a := .lock t p) trivial hw hok hl h
  | lockSkip t p => exact Action.run_evolves (a := .lockSkip t p) trivial hw hok hl h
  | tryLock m => exact Action.run_evolves (a := .tryLock m) trivial hw hok hl h
  | commit => exact Action.run_evolves (a := .commit) trivial hw hok hl h
  | rollback => exact Action.run_evolves (a := .rollback) trivial hw hok hl h
  | host a => exact Action.run_evolves (a := .host a) trivial hw hok hl h

/-- The action leaves the host as it is. -/
def Action.Silent : Action S H → Prop
  | .host a => ∀ c s r s', H.step a c s = some (r, s') → s' = s
  | _ => True

theorem Action.confined_true (a : Action S H) : a.Confined fun _ => True := by
  cases a with
  | update t p f hf => exact fun _ _ => trivial
  | insert t mk hmk skip => exact fun _ => trivial
  | _ => trivial

section Actions
variable {busy : Lock S → Bool} {w w' : World S H} {l l' : Txn S} {c : Choice H}

theorem Action.run_silent {a : Action S H} {r : Except (Exn H.Err) a.Res} (ha : a.Silent)
    (h : a.run c busy w l = some (r, w', l')) : w'.host = w.host := by
  have hstatement : ∀ {γ : Type} {go : Outcome S H γ} {r : Except (Exn H.Err) γ},
      statement c w l go = some (r, w', l') → (go = some (r, w', l') → w'.host = w.host) →
      w'.host = w.host := by
    intro γ go r h hgo
    rcases statement_cases h with ⟨rfl, -⟩ | ⟨-, hr⟩
    · rfl
    · exact hgo hr
  cases a with
  | read f =>
    apply hstatement h
    intro he
    cases he
    rfl
  | lock t p =>
    apply hstatement h
    intro he
    rw [(lockAll_eq he).2.1]
  | lockSkip t p =>
    apply hstatement h
    intro he
    rw [(lockAll_eq he).2.1]
  | update t p f hf =>
    apply hstatement h
    intro he
    obtain ⟨x, -, hx⟩ := Option.map_eq_some_iff.mp he
    cases hx
    rfl
  | insert t mk hmk skip =>
    apply hstatement h
    intro he
    rcases insertRow_cases he with ⟨-, rfl, -⟩ | ⟨rfl, -⟩ <;> rfl
  | tryLock m =>
    apply hstatement h
    intro he
    split at he <;> cases he <;> rfl
  | commit =>
    apply hstatement h
    intro he
    cases he
    rfl
  | rollback =>
    cases c with
    | host c => cases h
    | _ =>
      cases h
      rfl
  | host a =>
    cases c with
    | host c =>
      obtain ⟨⟨r₁, s⟩, hstep, hx⟩ := Option.map_eq_some_iff.mp h
      cases hx
      exact ha c w.host r₁ s hstep
    | _ => cases h

/-- Every action has a step, when the host always has one. -/
theorem Action.exists_run (hH : ∀ a s, ∃ c r s', H.step a c s = some (r, s')) (a : Action S H)
    (busy : Lock S → Bool) (w : World S H) (l : Txn S) :
    ∃ c r w' l', a.run c busy w l = some (r, w', l') := by
  cases a with
  | host a =>
    obtain ⟨c, r, s, hstep⟩ := hH a w.host
    exact ⟨.host c, r.mapError .app, { w with host := s }, l, by simp [Action.run, hstep]⟩
  | rollback => exact ⟨.go, _, _, _, rfl⟩
  | _ => exact ⟨.fault, _, _, _, rfl⟩

end Actions

/-- Every end of the program is one of `B`. -/
def Prog.Ends (B : α → Prop) : Prog S H α → Prop
  | .ret a => B a
  | .raise _ => False
  | .act _ k => ∀ r, (k r).Ends B

theorem Prog.Ends.bind {β : Type} {B : α → Prop} {C : β → Prop} {p : Prog S H α} {f : α → Prog S H β}
    (h : p.Ends B) (hf : ∀ a, B a → (f a).Ends C) : (p >>= f).Ends C := by
  induction p with
  | ret a => exact hf a h
  | raise e => exact h
  | act a k ih => exact fun r => ih r (h r)

theorem Prog.Ends.session {B : Except (Exn H.Err) α → Prop} {p : Prog S H α} (h : p.attempt.Ends B) :
    p.session.Ends B := by
  apply h.bind
  intro r hr closed
  cases closed <;> exact hr

section Ends
variable {G : Guard S H n} {K : History S H n} {s₀ s : Sys S H n α} {x₀ x : K.Val} {i : Fin n}

theorem Sys.Run.ends (h : Run G K s₀ x₀ s x) {B : α → Prop} (hp : (s₀.procs i).prog.Ends B) :
    (s.procs i).prog.Ends B :=
  h.rest (fun _ _ hk => hk) hp

/-- A program comes to its end when the guard allows each of its actions a step that waits for nobody. -/
theorem Sys.Run.finish {A : Action S H → Prop}
    (hA : ∀ a, A a → ∀ busy w l, ∃ c, G i w.toShared l a c ∧ (a.run c busy w l).isSome)
    (h : Run G K s₀ x₀ s x) (hp : (s.procs i).prog.Acts A) :
    ∃ s' x' r, Run G K s₀ x₀ s' x' ∧ (s'.procs i).prog = .ofExcept r := by
  generalize hprog : (s.procs i).prog = p at hp
  induction p generalizing s x with
  | ret a => exact ⟨s, x, .ok a, h, hprog⟩
  | raise e => exact ⟨s, x, .error e, h, hprog⟩
  | act a k ih =>
    obtain ⟨c, hG, hsome⟩ := hA a hp.1 (s.busy i) s.world (s.procs i).txn
    obtain ⟨⟨r, w', l'⟩, hact⟩ := Option.isSome_iff_exists.mp hsome
    have hstep : s.step (.proc i c) = some ⟨w', Function.update s.procs i ⟨k r, l'⟩⟩ := by
      simp only [Sys.step, hprog, hact, Option.map_some]
    have hallows : s.Allows G i c := by
      simp only [Allows, hprog]
      exact hG
    exact ih r (.proc i c h hallows hstep) (by simp) (hp.2 r)

end Ends

section Rules
variable {R : RowOrder S} {I : Upheld R H} {G : Guard S H n} {i : Fin n}
variable {sh : Shared S H} {x : Unit} {l : Txn S} {W : Write S → Prop} {d₀ : Store S}

/-- What a program keeps while it acts on the store alone. -/
structure Tracked (R : RowOrder S) (W : Write S → Prop) (d₀ : Store S) (sh : Shared S H)
    (l : Txn S) : Prop where
  later : Evolves R d₀ sh.db
  view : Evolves R sh.db (l.view sh.db)
  writes : ∀ v ∈ l.writes, W v

theorem Tracked.seen {w : World S H} {y : Unit} (h : Tracked R W d₀ sh l)
    (hs : Seen (I.protocol n) i l sh x w y) : Tracked R W d₀ w.toShared l := by
  have hrely : Evolves R sh.db w.db := hs.rely
  exact ⟨h.later.trans hrely, h.view.still hs.ok hs.still, h.writes⟩

theorem Safe.maintained {p : Prog S H α} (hp : p.Acts fun a => a.Maintains R ∧ a.Confined W ∧ a.Silent)
    (h : Tracked R W d₀ sh l) :
    Safe (I.protocol n) G i (fun _ sh' _ l' => Tracked R W d₀ sh' l') p sh x l := by
  induction p generalizing sh l with
  | ret a => exact h
  | raise e => exact h
  | act a k ih =>
    intro w y hs c busy r w' l' _ hr
    obtain ⟨⟨hkeeps, hconf, hsilent⟩, hk⟩ := hp
    have hw := h.seen hs
    obtain ⟨hdb, hview⟩ := hkeeps.run_evolves hs.world hs.ok hw.view hr
    have hinv : I.holds ⟨w'.db, w'.host⟩ := by
      rw [Action.run_silent hsilent hr]
      exact I.later hs.inv hdb
    exact ⟨hinv, hdb, ih r (hk r) ⟨hw.later.trans hdb, hview, Action.run_confined hconf hw.writes hr⟩⟩

theorem Safe.maintained_bind {β : Type} {p : Prog S H α} {f : α → Prog S H β}
    {Q : β → Shared S H → Unit → Txn S → Prop}
    (hp : p.Acts fun a => a.Maintains R ∧ a.Confined W ∧ a.Silent) (h : Tracked R W d₀ sh l)
    (hf : ∀ a sh x l, Tracked R W d₀ sh l → Safe (I.protocol n) G i (.ofOk Q) (f a) sh x l) :
    Safe (I.protocol n) G i (.ofOk Q) (p >>= f) sh x l := by
  apply Safe.bind
  apply (Safe.maintained hp h).mono
  intro r sh x l hr
  cases r with
  | error e => trivial
  | ok a => exact hf a sh x l hr

theorem Safe.tracked {p : Prog S H α} (hp : p.Acts fun a => a.Keeps R ∧ a.Confined W ∧ a.Silent)
    (h : Tracked R W d₀ sh l) :
    Safe (I.protocol n) G i (fun _ sh' _ l' => Tracked R W d₀ sh' l') p sh x l :=
  Safe.maintained (hp.mono fun _ ha => ⟨ha.1.maintains, ha.2⟩) h

theorem Safe.tracked_bind {β : Type} {p : Prog S H α} {f : α → Prog S H β}
    {Q : β → Shared S H → Unit → Txn S → Prop}
    (hp : p.Acts fun a => a.Keeps R ∧ a.Confined W ∧ a.Silent) (h : Tracked R W d₀ sh l)
    (hf : ∀ a sh x l, Tracked R W d₀ sh l → Safe (I.protocol n) G i (.ofOk Q) (f a) sh x l) :
    Safe (I.protocol n) G i (.ofOk Q) (p >>= f) sh x l :=
  Safe.maintained_bind (hp.mono fun _ ha => ⟨ha.1.maintains, ha.2⟩) h hf

/-- From every state a safe program can still reach an end, and that end is as claimed. -/
theorem Safe.not_ends {P : Protocol S H n} {x : P.Val} {B : α → Prop} {Q : Post P α} {p : Prog S H α}
    (hH : ∀ a s, ∃ c r s', H.step a c s = some (r, s')) (hG : ∀ sh l a c, G i sh l a c)
    (hQ : ∀ a sh y l, Q (.ok a) sh y l → ¬B a) (h : Safe P G i Q p sh x l) {w : World S H} {y : P.Val}
    (hs : Seen P i l sh x w y) : ¬p.Ends B := by
  induction p generalizing sh x l w y with
  | ret a => exact hQ a sh x l h
  | raise e => exact fun hB => hB
  | act a k ih =>
    intro hB
    obtain ⟨c, r, w', l', hr⟩ := Action.exists_run hH a (fun _ => false) w l
    obtain ⟨hinv, -, hnext⟩ := h w y hs c _ r w' l' (hG _ _ _ _) hr
    have hrun := Action.run_spec hs.world hs.ok hr
    exact ih r hnext ⟨hinv, .refl _ _, P.rely_refl _ _ _ _, hrun.world, hrun.ok⟩ (hB r)

end Rules

/-- A program may be followed with a postcondition of its own from any state of a run. -/
theorem Sys.Inv.focus {P : Protocol S H n} {G : Guard S H n} {Q : Fin n → Post P α}
    {s : Sys S H n α} {x : P.Val} (h : s.Inv P G Q x) {i : Fin n} {Q' : Post P α}
    (hsafe : Safe P G i Q' (s.procs i).prog s.world.toShared x (s.procs i).txn) :
    s.Inv P G (Function.update Q i Q') x := by
  refine ⟨h.ok, h.inv, fun j => ?_⟩
  by_cases hj : j = i
  · subst hj
    rw [Function.update_self]
    exact ⟨s.world.toShared, x, hsafe, .refl _ _, P.rely_refl _ _ _ _⟩
  · rw [Function.update_of_ne hj]
    exact h.safe j

end Relational
