import Phyllonix.RelationalWatch
import Phyllonix.RelationalAlone

/-!
# How a program comes to its end

A statement that raises was refused by a unique index, or a fault was injected. A program that
waits only while it holds no locks can always be brought to its end.
-/

namespace Relational
variable {S : Schema} {H : Host} {α : Type} {n : ℕ}

/-! ## Refusals and faults -/

/-- The guard lets statements of the program fail. -/
def Faulty (G : Guard S H n) (i : Fin n) : Prop := ∃ sh l a, G i sh l a .fault

theorem faulty_of_fails {G : Guard S H n} {i : Fin n} {l : Txn S} {a : Action S H} (hl : l.aborted = false)
    (h : ∃ sh, Fails G i sh l a) : Faulty G i := by
  obtain ⟨sh, hfault | habort⟩ := h
  · exact ⟨sh, l, a, hfault⟩
  · rw [hl] at habort
    cases habort

/-- No unique index can refuse the action. -/
def Action.Unrefused : Action S H → Prop
  | .update .. | .insert .. => False
  | _ => True

theorem Action.run_unrefused {a : Action S H} (ha : a.Unrefused) {c : Choice H} {busy : Lock S → Bool}
    {w w' : World S H} {l l' : Txn S} {r : Except (Exn H.Err) a.Res} (h : a.run c busy w l = some (r, w', l')) :
    r ≠ .error .integrity := by
  have hstatement : ∀ {γ : Type} {go : Outcome S H γ} {r : Except (Exn H.Err) γ},
      statement c w l go = some (r, w', l') → (go = some (r, w', l') → ∃ x, r = .ok x) → r ≠ .error .integrity := by
    intro γ go r h hgo hr
    rcases statement_error h with ⟨-, e, rfl, hne⟩ | hok
    · cases hr
      exact hne rfl
    · obtain ⟨x, hx⟩ := hgo hok
      rw [hr] at hx
      cases hx
  cases a with
  | update t p f hf => exact ha.elim
  | insert t mk hmk skip => exact ha.elim
  | read f =>
    refine hstatement h fun he => ?_
    cases he
    exact ⟨_, rfl⟩
  | lock t p | lockSkip t p => exact hstatement h fun he => ⟨_, (lockAll_eq he).1⟩
  | tryLock m =>
    refine hstatement h fun he => ?_
    split at he <;> cases he <;> exact ⟨_, rfl⟩
  | commit =>
    refine hstatement h fun he => ?_
    cases he
    exact ⟨_, rfl⟩
  | rollback =>
    cases c with
    | host c => cases h
    | _ =>
      cases h
      exact nofun
  | host a =>
    cases c with
    | host c =>
      obtain ⟨⟨r₁, s⟩, -, hx⟩ := Option.map_eq_some_iff.mp h
      cases hx
      cases r₁ with
      | ok x => exact nofun
      | error e => exact nofun
    | _ => cases h

section Rules
variable {P : Protocol S H n} {G : Guard S H n} {i : Fin n} {sh : Shared S H} {x : P.Val} {l : Txn S}

theorem Safe.unrefused {a : Action S H} (ha : a.Unrefused) {Q : Post P a.Res}
    (h : Safe P G i (fun r sh x l => r ≠ .error .integrity → Q r sh x l) (.call a) sh x l) :
    Safe P G i Q (.call a) sh x l := by
  intro w y hs c busy r w' l' hg hr
  obtain ⟨hinv, hguar, hk⟩ := h w y hs c busy r w' l' hg hr
  exact ⟨hinv, hguar, safe_ofExcept.mpr (safe_ofExcept.mp hk (Action.run_unrefused ha hr))⟩

/-- An insertion puts a row in, or is refused for an index entry that is taken, or fails. -/
theorem Safe.insert_refused {t : S.Tbl} {mk : ℕ → S.Row t} {hmk : ∀ m, S.id (mk m) = m}
    {Q : Post P (Option (S.Row t))}
    (h : ∀ w y, Seen P i l sh x w y → ∀ m, (∀ r ∈ l.view w.db t, S.id r < m) →
      Q (.ok (some (mk m))) w.toShared y (l.write t [] (mk m)))
    (hrefused : ∀ w y, Seen P i l sh x w y → (∃ c, G i w.toShared l (.insert t mk hmk false) c) →
      ∀ m, ¬(l.view w.db).Free t (S.keys (mk m)) → Q (.error .integrity) w.toShared y l.abort)
    (he : (∃ sh', Fails G i sh' l (.insert t mk hmk false)) → ∀ w y e l', e ≠ .integrity →
      AfterError l l' → Q (.error e) w y l') :
    Safe P G i Q (.call (.insert t mk hmk false)) sh x l := by
  apply Safe.call_same
  intro w y hs c busy r w' l' hg hr
  rcases statement_error hr with ⟨rfl, e, rfl, hne⟩ | hgo
  · rcases guarded_cases hg hr with ⟨-, -, hafter, hfails⟩ | ⟨-, hgo⟩
    · exact ⟨rfl, he ⟨_, hfails⟩ _ _ e l' hne hafter⟩
    · rcases insertRow_cases hgo with ⟨hr, -⟩ | ⟨-, -, ⟨hr, -⟩ | ⟨hr, -⟩⟩
      · cases hr
      · cases hr
      · cases hr
        exact absurd rfl hne
  · rcases insertRow_cases hgo with ⟨rfl, rfl, rfl, -⟩ | ⟨rfl, hfree, ⟨-, hskip, -⟩ | ⟨rfl, rfl⟩⟩
    · exact ⟨rfl, h w y hs _ fun r hr => Txn.id_lt_of_mem_view hs.world hs.ok hr⟩
    · cases hskip
    · exact ⟨rfl, hrefused _ y hs ⟨c, hg⟩ _ hfree⟩

theorem Safe.rollback_faulty {Q : Post P Unit} (h : ∀ w y, Seen P i l sh x w y → Q (.ok ()) w.toShared y l.reset)
    (he : Faulty G i → ∀ w y, Q (.error .fault) w y l.reset) : Safe P G i Q (.call .rollback) sh x l := by
  apply Safe.call_same
  intro w y hs c busy r w' l' hg hr
  cases c with
  | host c => cases hr
  | go =>
    cases hr
    exact ⟨rfl, h w y hs⟩
  | fault =>
    cases hr
    exact ⟨rfl, he ⟨_, _, _, hg⟩ _ _⟩

end Rules

/-! ## Programs that hold locks only to commit or roll back -/

/-- Whenever the program holds locks its next action is a commit or a rollback; `Q` holds at its end. -/
def Prog.Prompt (Q : Except (Exn H.Err) α → Txn S → Prop) : Prog S H α → Txn S → Prop
  | .ret a, l => Q (.ok a) l
  | .raise e, l => Q (.error e) l
  | .act a k, l => (l.locks = [] ∨ a = .commit ∨ a = .rollback) ∧
    ∀ c busy w r w' l', a.run c busy w l = some (r, w', l') → (k r).Prompt Q l'

namespace Prog.Prompt
variable {β : Type} {l : Txn S}

theorem mono {Q Q' : Except (Exn H.Err) α → Txn S → Prop} (hQ : ∀ r l, Q r l → Q' r l) {p : Prog S H α}
    (h : p.Prompt Q l) : p.Prompt Q' l := by
  induction p generalizing l with
  | ret a => exact hQ _ _ h
  | raise e => exact hQ _ _ h
  | act a k ih => exact ⟨h.1, fun c busy w r w' l' hr => ih r (h.2 c busy w r w' l' hr)⟩

theorem bind {Q : Except (Exn H.Err) β → Txn S → Prop} {p : Prog S H α} {f : α → Prog S H β}
    (h : p.Prompt (fun r l => match r with
      | .ok a => (f a).Prompt Q l
      | .error e => Q (.error e) l) l) : (p >>= f).Prompt Q l := by
  induction p generalizing l with
  | ret a => exact h
  | raise e => exact h
  | act a k ih => exact ⟨h.1, fun c busy w r w' l' hr => ih r (h.2 c busy w r w' l' hr)⟩

theorem attempt {Q : Except (Exn H.Err) (Except (Exn H.Err) α) → Txn S → Prop} {p : Prog S H α}
    (h : p.Prompt (fun r => Q (.ok r)) l) : p.attempt.Prompt Q l := by
  induction p generalizing l with
  | ret a => exact h
  | raise e => exact h
  | act a k ih => exact ⟨h.1, fun c busy w r w' l' hr => ih r (h.2 c busy w r w' l' hr)⟩

theorem call {a : Action S H} {Q : Except (Exn H.Err) a.Res → Txn S → Prop}
    (hl : l.locks = [] ∨ a = .commit ∨ a = .rollback)
    (h : ∀ c busy w r w' l', a.run c busy w l = some (r, w', l') → Q r l') : (Prog.call a).Prompt Q l := by
  refine ⟨hl, fun c busy w r w' l' hr => ?_⟩
  have hq := h c busy w r w' l' hr
  cases r with
  | ok x => exact hq
  | error e => exact hq

theorem read {γ : Type} {f : Store S → γ} {Q : Except (Exn H.Err) γ → Txn S → Prop} (hl : l.locks = [])
    (h : ∀ r l', l'.locks = [] → Q r l') : (Prog.call (.read f : Action S H)).Prompt Q l := by
  refine call (.inl hl) fun c busy w r w' l' hr => h r l' ?_
  rcases statement_cases hr with ⟨-, -, rfl | rfl, -⟩ | ⟨-, hgo⟩
  · exact hl
  · exact hl
  · cases hgo
    exact hl

theorem commit {Q : Except (Exn H.Err) Unit → Txn S → Prop} (h : ∀ l', l'.locks = [] → Q (.ok ()) l')
    (he : ∀ e l', Q (.error e) l') : (Prog.call (.commit : Action S H)).Prompt Q l := by
  refine call (.inr (.inl rfl)) fun c busy w r w' l' hr => ?_
  rcases statement_cases hr with ⟨-, ⟨e, rfl⟩, -⟩ | ⟨-, hgo⟩
  · exact he _ _
  · cases hgo
    exact h _ rfl

theorem rollback {Q : Except (Exn H.Err) Unit → Txn S → Prop} (h : ∀ r l', l'.locks = [] → Q r l') :
    (Prog.call (.rollback : Action S H)).Prompt Q l := by
  refine call (.inr (.inr rfl)) fun c busy w r w' l' hr => h r l' ?_
  cases c with
  | host c => cases hr
  | _ =>
    cases hr
    rfl

theorem session {p : Prog S H α} (h : p.Prompt (fun _ _ => True) l) :
    p.session.Prompt (fun r l => (∃ a, r = .ok a) ∧ l.locks = []) l := by
  refine bind (attempt (h.mono fun r l _ => ?_))
  exact bind (attempt (rollback fun _ _ hl => ⟨⟨r, rfl⟩, hl⟩))

end Prog.Prompt

/-- No statement fails but those that are refused. -/
def Guard.faultless : Guard S H n := fun _ _ _ _ c => c.isFault = false

instance (i : Fin n) (sh : Shared S H) (l : Txn S) (a : Action S H) (c : Choice H) :
    Decidable (Guard.faultless i sh l a c) :=
  inferInstanceAs (Decidable (c.isFault = false))

namespace Sys
variable {s s' : Sys S H n α} {i : Fin n}

def Prompt (s : Sys S H n α) : Prop :=
  ∀ i, (s.procs i).prog.Prompt (fun r l => (∃ a, r = .ok a) ∧ l.locks = []) (s.procs i).txn

theorem prompt_start {w : World S H} {ps : Fin n → Prog S H α}
    (h : ∀ i, (ps i).Prompt (fun r l => (∃ a, r = .ok a) ∧ l.locks = []) {}) : (start w ps).Prompt := h

theorem Prompt.step (h : s.Prompt) {x : Label H n} (hstep : s.step x = some s') : s'.Prompt := by
  cases x with
  | env e =>
    cases hstep
    exact h
  | proc i c =>
    obtain ⟨a, k, r, w', l', hp, hact, rfl⟩ := step_proc hstep
    intro j
    by_cases hj : j = i
    · subst hj
      have hpj := h j
      rw [hp] at hpj
      simpa using hpj.2 _ _ _ _ _ _ hact
    · simpa [hj] using h j

theorem Run.prompt {G : Guard S H n} {K : History S H n} {s₀ : Sys S H n α} {x₀ x : K.Val} (h : Run G K s₀ x₀ s x)
    (h₀ : s₀.Prompt) : s.Prompt := by
  induction h with
  | start => exact h₀
  | proc i c _ _ hstep ih => exact ih.step hstep
  | env e _ hstep ih => exact ih.step hstep

/-- A program that holds locks can give them up without waiting. -/
theorem Prompt.release {s₀ : Sys S H n α} (hrun : Run Guard.faultless History.none s₀ () s ()) (h : s.Prompt)
    (j : Fin n) :
    ∃ s', Run Guard.faultless History.none s₀ () s' () ∧ (s'.procs j).txn.locks = [] ∧ s'.Prompt ∧
      ∀ k, k ≠ j → s'.procs k = s.procs k := by
  generalize hp : (s.procs j).prog = p
  induction p generalizing s with
  | ret a =>
    have hj := h j
    rw [hp] at hj
    exact ⟨s, hrun, hj.2, h, fun _ _ => rfl⟩
  | raise e =>
    have hj := h j
    rw [hp] at hj
    exact ⟨s, hrun, hj.2, h, fun _ _ => rfl⟩
  | act a k ih =>
    have hj := h j
    rw [hp] at hj
    rcases hj.1 with hnone | hends
    · exact ⟨s, hrun, hnone, h, fun _ _ => rfl⟩
    · have hgo : (a.run .go (s.busy j) s.world (s.procs j).txn).isSome := by
        rcases hends with rfl | rfl
        · exact statement_isSome rfl
        · rfl
      obtain ⟨⟨r, w', l'⟩, hact⟩ := Option.isSome_iff_exists.mp hgo
      have hstep : s.step (.proc j .go) = some ⟨w', Function.update s.procs j ⟨k r, l'⟩⟩ := by
        simp only [Sys.step, hp, hact, Option.map_some]
      have hallows : s.Allows Guard.faultless j .go := by
        simp only [Allows, hp]
        rfl
      obtain ⟨s', hrun', hlocks, hprompt, hothers⟩ := ih r (.proc j .go hrun hallows hstep) (h.step hstep) (by simp)
      refine ⟨s', hrun', hlocks, hprompt, fun k hk => ?_⟩
      rw [hothers k hk]
      exact Function.update_of_ne hk _ _

theorem Prompt.release_all {s₀ : Sys S H n α} (hrun : Run Guard.faultless History.none s₀ () s ()) (h : s.Prompt)
    (js : List (Fin n)) :
    ∃ s', Run Guard.faultless History.none s₀ () s' () ∧ (∀ j ∈ js, (s'.procs j).txn.locks = []) ∧ s'.Prompt ∧
      ∀ k, k ∉ js → s'.procs k = s.procs k := by
  induction js with
  | nil => exact ⟨s, hrun, nofun, h, fun _ _ => rfl⟩
  | cons j js ih =>
    obtain ⟨s₁, hrun₁, hlocks₁, hprompt₁, hothers₁⟩ := ih
    obtain ⟨s₂, hrun₂, hlocks₂, hprompt₂, hothers₂⟩ := hprompt₁.release hrun₁ j
    refine ⟨s₂, hrun₂, fun j' hj' => ?_, hprompt₂, fun k hk => ?_⟩
    · by_cases hjj : j' = j
      · rw [hjj]
        exact hlocks₂
      · rw [hothers₂ j' hjj]
        exact hlocks₁ j' ((List.mem_cons.mp hj').resolve_left hjj)
    · rw [List.mem_cons, not_or] at hk
      rw [hothers₂ k hk.1, hothers₁ k hk.2]

/-- Prompt programs never wait for each other in a circle: each can be brought to its end. -/
theorem Prompt.finish (hhost : ∀ a s, ∃ c, (H.step a c s).isSome) (h : s.Prompt) (i : Fin n) :
    ∃ s' a, Run Guard.faultless History.none s () s' () ∧ s'.outcome i = some a := by
  obtain ⟨s₁, hrun₁, hlocks, -, -⟩ := h.release_all .start ((List.finRange n).filter (· ≠ i))
  have hfree (j : Fin n) (hj : j ≠ i) : (s₁.procs j).txn.locks = [] := hlocks j (by simpa using hj)
  obtain ⟨s', r, hrun, hr⟩ := hrun₁.finish_alone hhost (fun _ _ _ _ _ h => h) hfree
  have hi := hrun.prompt h i
  rw [hr] at hi
  cases r with
  | ok a => exact ⟨s', a, hrun, by rw [outcome, hr]; rfl⟩
  | error e =>
    obtain ⟨⟨a, ha⟩, -⟩ := hi
    cases ha

end Sys
end Relational
