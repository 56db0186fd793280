import Phyllonix.RelationalInterference

/-!
# Programs that run alone

`Ends` says that every play of a program comes to its end and satisfies the
postcondition there, when the program runs alone, its statements do not fail and
the host answers as the play allows. A system whose other transactions hold no
locks has such a play among its runs.
-/

namespace Relational
variable {S : Schema} {H : Host}

/-- The choices of a play: statements take place, the host answers as `C` allows. -/
def Played (C : H.Act → H.Choice → Prop) : Action S H → Choice H → Prop
  | .host a, .host c => C a c
  | .host _, _ => False
  | _, c => c = .go

def noLocks (S : Schema) : Lock S → Bool := fun _ => false

abbrev Outcomes (S : Schema) (H : Host) (α : Type) :=
  Except (Exn H.Err) α → World S H → Txn S → Prop

/-- The store and the transaction of a play are in order at its start; they stay so. -/
def Ends (C : H.Act → H.Choice → Prop) {α : Type} (Q : Outcomes S H α) :
    Prog S H α → World S H → Txn S → Prop
  | .ret a, w, l => w.Ok → l.Ok w.db w.seq → Q (.ok a) w l
  | .raise e, w, l => w.Ok → l.Ok w.db w.seq → Q (.error e) w l
  | .act a k, w, l => w.Ok → l.Ok w.db w.seq →
      (∃ c, Played C a c ∧ (a.run c (noLocks S) w l).isSome) ∧
        ∀ c r w' l', Played C a c → a.run c (noLocks S) w l = some (r, w', l') → Ends C Q (k r) w' l'

variable {C : H.Act → H.Choice → Prop} {α β : Type} {w : World S H} {l : Txn S}

theorem Ends.of_ok {Q : Outcomes S H α} {p : Prog S H α}
    (h : w.Ok → l.Ok w.db w.seq → Ends C Q p w l) : Ends C Q p w l := by
  cases p with
  | ret a => exact fun hw hl => h hw hl hw hl
  | raise e => exact fun hw hl => h hw hl hw hl
  | act a k => exact fun hw hl => h hw hl hw hl

theorem Ends.mono {Q Q' : Outcomes S H α} (hQ : ∀ r w l, w.Ok → l.Ok w.db w.seq → Q r w l → Q' r w l)
    {p : Prog S H α} (h : Ends C Q p w l) : Ends C Q' p w l := by
  induction p generalizing w l with
  | ret a => exact fun hw hl => hQ _ _ _ hw hl (h hw hl)
  | raise e => exact fun hw hl => hQ _ _ _ hw hl (h hw hl)
  | act a k ih =>
    intro hw hl
    obtain ⟨hgo, hall⟩ := h hw hl
    exact ⟨hgo, fun c r w' l' hc hr => ih r (hall c r w' l' hc hr)⟩

theorem Ends.bind {Q : Outcomes S H β} {p : Prog S H α} {f : α → Prog S H β}
    (h : Ends C (fun r w l => match r with
      | .ok a => Ends C Q (f a) w l
      | .error e => Q (.error e) w l) p w l) : Ends C Q (p >>= f) w l := by
  induction p generalizing w l with
  | ret a => exact Ends.of_ok h
  | raise e => exact h
  | act a k ih =>
    intro hw hl
    obtain ⟨hgo, hall⟩ := h hw hl
    exact ⟨hgo, fun c r w' l' hc hr => ih r (hall c r w' l' hc hr)⟩

theorem Ends.attempt {Q : Outcomes S H (Except (Exn H.Err) α)} {p : Prog S H α}
    (h : Ends C (fun r => Q (.ok r)) p w l) : Ends C Q p.attempt w l := by
  induction p generalizing w l with
  | ret a => exact h
  | raise e => exact h
  | act a k ih =>
    intro hw hl
    obtain ⟨hgo, hall⟩ := h hw hl
    exact ⟨hgo, fun c r w' l' hc hr => ih r (hall c r w' l' hc hr)⟩

theorem Ends.pure {Q : Outcomes S H α} {a : α} (h : Q (.ok a) w l) : Ends C Q (Pure.pure a) w l :=
  fun _ _ => h

theorem Ends.raise {Q : Outcomes S H α} {e : Exn H.Err} (h : Q (.error e) w l) :
    Ends C Q (.raise e) w l := fun _ _ => h

theorem Ends.ofExcept {Q : Outcomes S H α} {r : Except (Exn H.Err) α} (h : Q r w l) :
    Ends C Q (.ofExcept r) w l := by
  cases r with
  | ok a => exact Ends.pure h
  | error e => exact Ends.raise h

theorem Ends.call {a : Action S H} {Q : Outcomes S H a.Res} {r : Except (Exn H.Err) a.Res}
    {w' : World S H} {l' : Txn S} (hgo : ∀ c, Played C a c ↔ c = .go)
    (h : w.Ok → l.Ok w.db w.seq → a.run .go (noLocks S) w l = some (r, w', l') ∧ Q r w' l') :
    Ends C Q (.call a) w l := by
  intro hw hl
  obtain ⟨hrun, hq⟩ := h hw hl
  refine ⟨⟨.go, (hgo _).mpr rfl, by rw [hrun]; rfl⟩, fun c r₁ w₁ l₁ hc hr => ?_⟩
  rw [(hgo c).mp hc, hrun] at hr
  cases hr
  exact Ends.ofExcept hq

/-- A program has a play, so what holds at the end of all plays can be met. -/
theorem Ends.meet {Q Q' : Outcomes S H α} {p : Prog S H α} (hw : w.Ok) (hl : l.Ok w.db w.seq)
    (h : Ends C Q p w l) (h' : Ends C Q' p w l) : ∃ r w' l', Q r w' l' ∧ Q' r w' l' := by
  induction p generalizing w l with
  | ret a => exact ⟨_, _, _, h hw hl, h' hw hl⟩
  | raise e => exact ⟨_, _, _, h hw hl, h' hw hl⟩
  | act a k ih =>
    obtain ⟨⟨c, hc, hsome⟩, hall⟩ := h hw hl
    obtain ⟨⟨r, w', l'⟩, hrun⟩ := Option.isSome_iff_exists.mp hsome
    have hspec := Action.run_spec hw hl hrun
    exact ih r hspec.world hspec.ok (hall c r w' l' hc hrun) ((h' hw hl).2 c r w' l' hc hrun)

section Rules

theorem Ends.read {γ : Type} {f : Store S → γ} {Q : Outcomes S H γ} (ha : l.aborted = false)
    (h : w.Ok → l.Ok w.db w.seq → Q (.ok (f (l.view w.db))) w l) :
    Ends C Q (.call (.read f)) w l :=
  Ends.call (fun _ => .rfl) fun hw hl => ⟨by simp [Action.run, statement, ha], h hw hl⟩

theorem any_noLocks (xs : List (Lock S)) : xs.any (noLocks S) = false := by
  simp [noLocks]

theorem Ends.lock {t : S.Tbl} {p : S.Row t → Bool} {Q : Outcomes S H (List (S.Row t))}
    (ha : l.aborted = false)
    (h : w.Ok → l.Ok w.db w.seq → Q (.ok ((l.view w.db t).filter p)) w
      (l.acquire (((l.view w.db t).filter p).map fun r => .row t (S.id r)))) :
    Ends C Q (.call (.lock t p)) w l :=
  Ends.call (fun _ => .rfl) fun hw hl =>
    ⟨by simp [Action.run, statement, ha, lockAll, noLocks], h hw hl⟩

theorem Ends.update_none {t : S.Tbl} {p : S.Row t → Bool} {f : S.Row t → S.Row t}
    {hf : ∀ r, S.id (f r) = S.id r} {Q : Outcomes S H (List (S.Row t))} (ha : l.aborted = false)
    (h : w.Ok → l.Ok w.db w.seq → (l.view w.db t).filter p = [] ∧ Q (.ok []) w l) :
    Ends C Q (.call (.update t p f hf)) w l :=
  Ends.call (fun _ => .rfl) fun hw hl =>
    ⟨by simp [Action.run, statement, ha, (h hw hl).1, updateRows], (h hw hl).2⟩

theorem Ends.update_one {t : S.Tbl} {p : S.Row t → Bool} {f : S.Row t → S.Row t}
    {hf : ∀ r, S.id (f r) = S.id r} {Q : Outcomes S H (List (S.Row t))} {r : S.Row t}
    (ha : l.aborted = false)
    (h : w.Ok → l.Ok w.db w.seq → (l.view w.db t).filter p = [r] ∧
      (l.view w.db).Free t ((S.keys (f r)).filter (fun k => k ∉ S.keys r)) ∧
      Q (.ok [f r]) w (l.write t (S.keys r) (f r))) :
    Ends C Q (.call (.update t p f hf)) w l :=
  Ends.call (fun _ => .rfl) fun hw hl => by
    obtain ⟨hrows, hfree, hq⟩ := h hw hl
    refine ⟨?_, hq⟩
    simp only [Action.run, statement, ha, hrows, updateRows, any_noLocks, if_pos hfree]
    rfl

theorem Ends.insert {t : S.Tbl} {mk : ℕ → S.Row t} {hmk : ∀ m, S.id (mk m) = m} {skip : Bool}
    {Q : Outcomes S H (Option (S.Row t))} (ha : l.aborted = false)
    (h : w.Ok → l.Ok w.db w.seq → (l.view w.db).Free t (S.keys (mk (w.seq t))) ∧
      Q (.ok (some (mk (w.seq t)))) { w with seq := Function.update w.seq t (w.seq t + 1) }
        (l.write t [] (mk (w.seq t)))) :
    Ends C Q (.call (.insert t mk hmk skip)) w l :=
  Ends.call (fun _ => .rfl) fun hw hl =>
    ⟨by simp [Action.run, statement, ha, insertRow, any_noLocks, (h hw hl).1], (h hw hl).2⟩

theorem Ends.insert_skip {t : S.Tbl} {mk : ℕ → S.Row t} {hmk : ∀ m, S.id (mk m) = m}
    {Q : Outcomes S H (Option (S.Row t))} (ha : l.aborted = false)
    (h : w.Ok → l.Ok w.db w.seq →
      ¬(l.view w.db).Free t (S.keys (mk (w.seq t))) ∧ Q (.ok none) w l) :
    Ends C Q (.call (.insert t mk hmk true)) w l :=
  Ends.call (fun _ => .rfl) fun hw hl =>
    ⟨by simp [Action.run, statement, ha, insertRow, any_noLocks, (h hw hl).1], (h hw hl).2⟩

theorem Ends.tryLock {m : ℤ} {Q : Outcomes S H Bool} (ha : l.aborted = false)
    (h : w.Ok → l.Ok w.db w.seq → Q (.ok true) w (l.acquire [.advisory m])) :
    Ends C Q (.call (.tryLock m)) w l :=
  Ends.call (fun _ => .rfl) fun hw hl => ⟨by simp [Action.run, statement, ha, noLocks], h hw hl⟩

theorem Ends.commit {Q : Outcomes S H Unit} (ha : l.aborted = false)
    (h : w.Ok → l.Ok w.db w.seq → Q (.ok ()) { w with db := l.view w.db } l.committed) :
    Ends C Q (.call .commit) w l :=
  Ends.call (fun _ => .rfl) fun hw hl => ⟨by simp [Action.run, statement, ha], h hw hl⟩

theorem Ends.rollback {Q : Outcomes S H Unit}
    (h : w.Ok → l.Ok w.db w.seq → Q (.ok ()) w l.reset) : Ends C Q (.call .rollback) w l :=
  Ends.call (fun _ => .rfl) fun hw hl => ⟨rfl, h hw hl⟩

theorem Ends.host {a : H.Act} {Q : Outcomes S H (H.Res a)}
    (hgo : ∃ c, C a c ∧ (H.step a c w.host).isSome)
    (h : w.Ok → l.Ok w.db w.seq → ∀ c r s, C a c → H.step a c w.host = some (r, s) →
      Q (r.mapError .app) { w with host := s } l) :
    Ends C Q (.call (.host a)) w l := by
  intro hw hl
  obtain ⟨c, hc, hs⟩ := hgo
  refine ⟨⟨.host c, hc, by simpa [Action.run] using hs⟩, fun c r w' l' hc hr => ?_⟩
  cases c with
  | go => cases hr
  | fault => cases hr
  | host c =>
    obtain ⟨⟨r₁, s⟩, hst, hx⟩ := Option.map_eq_some_iff.mp hr
    simp only [Prod.mk.injEq] at hx
    obtain ⟨rfl, rfl, rfl⟩ := hx
    exact Ends.ofExcept (h hw hl c r₁ s hc hst)

theorem Ends.session {Q : Outcomes S H (Except (Exn H.Err) α)} {p : Prog S H α}
    (h : Ends C (fun r w l => Q (.ok r) w l.reset) p w l) : Ends C Q p.session w l := by
  refine Ends.bind (Ends.attempt (h.mono fun r w l _ _ hr => ?_))
  exact Ends.bind (Ends.attempt (Ends.rollback fun _ _ => Ends.pure hr))

theorem updateRows_isSome {d : Store S} {t : S.Tbl} {f : S.Row t → S.Row t} (rows : List (S.Row t))
    (l : Txn S) : (updateRows (H := H) (noLocks S) d t f rows l).isSome := by
  induction rows generalizing l with
  | nil => rfl
  | cons u us ih =>
    rw [updateRows, any_noLocks, if_neg Bool.false_ne_true]
    split
    · rw [Option.isSome_map]
      exact ih _
    · rfl

theorem statement_isSome {γ : Type} {go : Outcome S H γ} (h : go.isSome) :
    (statement .go w l go).isSome := by
  rw [statement]
  split
  · rfl
  · exact h

/-- Without locks of others every statement takes place or fails. -/
theorem Action.run_isSome (hhost : ∀ a s, ∃ c, (H.step a c s).isSome) (a : Action S H) (w : World S H)
    (l : Txn S) : ∃ c, c.isFault = false ∧ (a.run c (noLocks S) w l).isSome := by
  cases a with
  | read f => exact ⟨.go, rfl, statement_isSome rfl⟩
  | lock t p => exact ⟨.go, rfl, statement_isSome (by simp [lockAll, noLocks])⟩
  | lockSkip t p => exact ⟨.go, rfl, statement_isSome (by simp [lockAll, noLocks])⟩
  | update t p f hf =>
    refine ⟨.go, rfl, statement_isSome ?_⟩
    rw [Option.isSome_map]
    exact updateRows_isSome _ l
  | insert t mk hmk skip =>
    refine ⟨.go, rfl, statement_isSome ?_⟩
    rw [insertRow, any_noLocks, if_neg Bool.false_ne_true]
    split_ifs <;> rfl
  | tryLock m => exact ⟨.go, rfl, statement_isSome (by split <;> rfl)⟩
  | commit => exact ⟨.go, rfl, statement_isSome rfl⟩
  | rollback => exact ⟨.go, rfl, rfl⟩
  | host a =>
    obtain ⟨c, hc⟩ := hhost a w.host
    exact ⟨.host c, rfl, by simpa [Action.run] using hc⟩

end Rules

namespace Sys
variable {n : ℕ}

theorem busy_eq_noLocks {s : Sys S H n α} {i : Fin n}
    (h : ∀ j, j ≠ i → (s.procs j).txn.locks = []) : s.busy i = noLocks S := by
  funext x
  simp only [busy, noLocks, decide_eq_false_iff_not, not_exists, not_and]
  intro j hj
  simp [h j hj]

/-- When nobody else holds a lock, a run goes on with a play of program `i`. -/
theorem Reach.play {s₀ s : Sys S H n α} (hrun : Reach s₀ s) (h₀ : s₀.Ok) {i : Fin n}
    (hfree : ∀ j, j ≠ i → (s.procs j).txn.locks = []) {Q : Outcomes S H α}
    (h : Ends C Q (s.procs i).prog s.world (s.procs i).txn) :
    ∃ s' r, Reach s₀ s' ∧ (s'.procs i).prog = .ofExcept r ∧ Q r s'.world (s'.procs i).txn := by
  have hbusy := busy_eq_noLocks hfree
  generalize hp : (s.procs i).prog = p at h
  induction p generalizing s with
  | ret a => exact ⟨s, .ok a, hrun, hp, h (hrun.ok h₀).world ((hrun.ok h₀).txn i)⟩
  | raise e => exact ⟨s, .error e, hrun, hp, h (hrun.ok h₀).world ((hrun.ok h₀).txn i)⟩
  | act a k ih =>
    obtain ⟨⟨c, hc, hsome⟩, hall⟩ := h (hrun.ok h₀).world ((hrun.ok h₀).txn i)
    obtain ⟨⟨r, w', l'⟩, hact⟩ := Option.isSome_iff_exists.mp hsome
    have hstep : s.step (.proc i c) =
        some ⟨w', Function.update s.procs i ⟨k r, l'⟩⟩ := by
      simp only [step, hp, hbusy, hact, Option.map_some]
    have hrun' : Reach s₀ ⟨w', Function.update s.procs i ⟨k r, l'⟩⟩ :=
      .proc i c hrun (allows_true s i c) hstep
    have hfree' : ∀ j, j ≠ i → (Function.update s.procs i ⟨k r, l'⟩ j).txn.locks = [] := by
      intro j hj
      rw [Function.update_of_ne hj]
      exact hfree j hj
    refine ih r hrun' hfree' (busy_eq_noLocks hfree') (by simp) ?_
    simpa using hall c r w' l' hc hact

/-- When nobody else holds a lock, a run whose guard lets statements take place goes on to the end of
program `i`. -/
theorem Run.finish_alone (hhost : ∀ a s, ∃ c, (H.step a c s).isSome) {G : Guard S H n}
    (hG : ∀ i sh l a c, c.isFault = false → G i sh l a c) {s₀ s : Sys S H n α}
    (hrun : Run G History.none s₀ () s ()) {i : Fin n} (hfree : ∀ j, j ≠ i → (s.procs j).txn.locks = []) :
    ∃ s' r, Run G History.none s₀ () s' () ∧ (s'.procs i).prog = .ofExcept r := by
  have hbusy := busy_eq_noLocks hfree
  generalize hp : (s.procs i).prog = p
  induction p generalizing s with
  | ret a => exact ⟨s, .ok a, hrun, hp⟩
  | raise e => exact ⟨s, .error e, hrun, hp⟩
  | act a k ih =>
    obtain ⟨c, hc, hsome⟩ := Action.run_isSome hhost a s.world (s.procs i).txn
    obtain ⟨⟨r, w', l'⟩, hact⟩ := Option.isSome_iff_exists.mp hsome
    have hstep : s.step (.proc i c) = some ⟨w', Function.update s.procs i ⟨k r, l'⟩⟩ := by
      simp only [step, hp, hbusy, hact, Option.map_some]
    have hallows : s.Allows G i c := by
      simp only [Allows, hp]
      exact hG _ _ _ _ _ hc
    have hfree' : ∀ j, j ≠ i → (Function.update s.procs i ⟨k r, l'⟩ j).txn.locks = [] := by
      intro j hj
      rw [Function.update_of_ne hj]
      exact hfree j hj
    exact ih r (.proc i c hrun hallows hstep) hfree' (busy_eq_noLocks hfree') (by simp)

end Sys
end Relational
