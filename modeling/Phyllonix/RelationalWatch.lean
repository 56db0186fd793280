import Phyllonix.RelationalUpheld

/-!
# Watched runs

A run can be watched from outside: a value is computed from the whole states around each step of
a program, and steps may be refused in view of it. The order in which the programs commit is one such
value; it also counts the commits that leave the store as it is.
-/

namespace Relational
variable {S : Schema} {H : Host} {α : Type} {n : ℕ}

structure Watch (S : Schema) (H : Host) (n : ℕ) (α : Type) where
  Val : Type
  next : Fin n → Sys S H n α → Sys S H n α → Val → Val

namespace Sys
variable {W : Watch S H n α} {M : Fin n → Sys S H n α → W.Val → Prop} {s₀ s : Sys S H n α} {v₀ v : W.Val}

/-- The states of the runs from `s₀` whose steps all meet `M`, with the value that is watched. -/
inductive Watched (W : Watch S H n α) (M : Fin n → Sys S H n α → W.Val → Prop) (s₀ : Sys S H n α) (v₀ : W.Val) :
    Sys S H n α → W.Val → Prop
  | start : Watched W M s₀ v₀ s₀ v₀
  | proc {s s' : Sys S H n α} {v : W.Val} (i : Fin n) (c : Choice H) : Watched W M s₀ v₀ s v → M i s v →
      s.step (.proc i c) = some s' → Watched W M s₀ v₀ s' (W.next i s s' v)
  | env {s s' : Sys S H n α} {v : W.Val} (e : H.Env) : Watched W M s₀ v₀ s v →
      s.step (.env e) = some s' → Watched W M s₀ v₀ s' v

theorem Watched.reach (h : Watched W M s₀ v₀ s v) : Reach s₀ s := by
  induction h with
  | start => exact .start
  | proc i c _ _ hstep ih => exact .proc i c ih (allows_true _ _ _) hstep
  | env e _ hstep ih => exact .env e ih hstep

/-- Every run can be watched. -/
theorem Run.watched {G : Guard S H n} {K : History S H n} {x₀ x : K.Val} (h : Run G K s₀ x₀ s x) (W : Watch S H n α)
    (v₀ : W.Val) : ∃ v, Watched W (fun _ _ _ => True) s₀ v₀ s v := by
  induction h with
  | start => exact ⟨v₀, .start⟩
  | proc i c _ _ hstep ih =>
    obtain ⟨v, hv⟩ := ih
    exact ⟨_, .proc i c hv trivial hstep⟩
  | env e _ hstep ih =>
    obtain ⟨v, hv⟩ := ih
    exact ⟨v, .env e hv hstep⟩

/-- Runs the listed steps, when they meet `M`, and watches them. -/
def watch (W : Watch S H n α) (M : Fin n → Sys S H n α → W.Val → Prop) [∀ i s v, Decidable (M i s v)]
    (s : Sys S H n α) (v : W.Val) : List (Label H n) → Option (Sys S H n α × W.Val)
  | [] => some (s, v)
  | .proc i c :: xs =>
    if M i s v then (s.step (.proc i c)).bind fun s' => s'.watch W M (W.next i s s' v) xs else none
  | .env e :: xs => (s.step (.env e)).bind fun s' => s'.watch W M v xs

theorem Watched.watch [∀ i s v, Decidable (M i s v)] (h : Watched W M s₀ v₀ s v) {s' : Sys S H n α} {v' : W.Val}
    {xs : List (Label H n)} (hx : s.watch W M v xs = some (s', v')) : Watched W M s₀ v₀ s' v' := by
  induction xs generalizing s v with
  | nil =>
    cases hx
    exact h
  | cons a xs ih =>
    cases a with
    | env e =>
      obtain ⟨s₁, hstep, hx⟩ := Option.bind_eq_some_iff.mp hx
      exact ih (.env e h hstep) hx
    | proc i c =>
      rw [Sys.watch] at hx
      split at hx
      · rename_i hM
        obtain ⟨s₁, hstep, hx⟩ := Option.bind_eq_some_iff.mp hx
        exact ih (.proc i c h hM hstep) hx
      · cases hx

/-- What holds at the start and is kept by the steps of safe programs, holds along every watched run. -/
theorem Watched.keeps {P : Protocol S H n} {Q : Fin n → Post P α} {J : Sys S H n α → P.Val → W.Val → Prop} {x₀ : P.Val}
    (h : Watched W M s₀ v₀ s v) (h₀ : s₀.Inv P (fun _ _ _ _ _ => True) Q x₀) (hJ : J s₀ x₀ v₀)
    (hproc : ∀ {s s' : Sys S H n α} {x : P.Val} {v : W.Val} {i : Fin n} {c : Choice H},
      Reach s₀ s → s.Inv P (fun _ _ _ _ _ => True) Q x → J s x v → M i s v → s.step (.proc i c) = some s' →
      s'.Inv P (fun _ _ _ _ _ => True) Q (P.next i s.world.toShared s'.world.toShared x) →
      J s' (P.next i s.world.toShared s'.world.toShared x) (W.next i s s' v))
    (henv : ∀ {s s' : Sys S H n α} {x : P.Val} {v : W.Val} {e : H.Env}, J s x v → s.step (.env e) = some s' →
      J s' x v) :
    ∃ x, s.Inv P (fun _ _ _ _ _ => True) Q x ∧ J s x v := by
  induction h with
  | start => exact ⟨x₀, h₀, hJ⟩
  | proc i c h hM hstep ih =>
    obtain ⟨x, hinv, hj⟩ := ih
    have hinv' := hinv.proc (allows_true _ _ _) hstep
    exact ⟨_, hinv', hproc h.reach hinv hj hM hstep hinv'⟩
  | env e _ hstep ih =>
    obtain ⟨x, hinv, hj⟩ := ih
    exact ⟨x, hinv.env hstep, henv hj hstep⟩

end Sys

/-! ## The order of the commits -/

section Commits
variable {busy : Lock S → Bool} {w w' : World S H} {l l' : Txn S} {c : Choice H}

/-- A step publishes what the transaction has written exactly when it is a commit. -/
theorem Action.run_commits {a : Action S H} {r : Except (Exn H.Err) a.Res} (hw : w.Ok) (hl : l.Ok w.db w.seq)
    (h : a.run c busy w l = some (r, w', l')) :
    (w'.db = w.db ∧ l'.commits = l.commits) ∨ (w'.db = l.view w.db ∧ l'.commits = l.commits + 1) := by
  have hstatement : ∀ {γ : Type} {go : Outcome S H γ} {r : Except (Exn H.Err) γ},
      statement c w l go = some (r, w', l') →
      (go = some (r, w', l') → w'.db = w.db ∧ l'.commits = l.commits) → w'.db = w.db ∧ l'.commits = l.commits := by
    intro γ go r h hgo
    rcases statement_cases h with ⟨rfl, -, rfl | rfl, -⟩ | ⟨-, hr⟩
    · exact ⟨rfl, rfl⟩
    · exact ⟨rfl, rfl⟩
    · exact hgo hr
  cases a with
  | read f =>
    refine .inl (hstatement h fun he => ?_)
    cases he
    exact ⟨rfl, rfl⟩
  | lock t p | lockSkip t p =>
    refine .inl (hstatement h fun he => ?_)
    obtain ⟨-, rfl, rfl, -⟩ := lockAll_eq he
    exact ⟨rfl, rfl⟩
  | update t p f hf =>
    refine .inl (hstatement h fun he => ?_)
    obtain ⟨⟨r₁, l₁⟩, hu, hx⟩ := Option.map_eq_some_iff.mp he
    cases hx
    obtain ⟨hnd, hrows⟩ := rows_of_view hw hl t p
    exact ⟨rfl, (updateRows_spec hf hl hnd hrows hu).commits⟩
  | insert t mk hmk skip =>
    refine .inl (hstatement h fun he => ?_)
    rcases insertRow_cases he with ⟨-, rfl, rfl, -⟩ | ⟨rfl, -, ⟨-, -, rfl⟩ | ⟨-, rfl⟩⟩
    · exact ⟨rfl, rfl⟩
    · exact ⟨rfl, rfl⟩
    · exact ⟨rfl, rfl⟩
  | tryLock m =>
    refine .inl (hstatement h fun he => ?_)
    split at he <;> cases he <;> exact ⟨rfl, rfl⟩
  | commit =>
    rcases statement_cases h with ⟨rfl, -, rfl | rfl, -⟩ | ⟨-, hr⟩
    · exact .inl ⟨rfl, rfl⟩
    · exact .inl ⟨rfl, rfl⟩
    · cases hr
      exact .inr ⟨rfl, rfl⟩
  | rollback =>
    cases c with
    | host c => cases h
    | _ =>
      cases h
      exact .inl ⟨rfl, rfl⟩
  | host a =>
    cases c with
    | host c =>
      obtain ⟨⟨r₁, s⟩, -, hx⟩ := Option.map_eq_some_iff.mp h
      cases hx
      exact .inl ⟨rfl, rfl⟩
    | _ => cases h

end Commits

/-- The next action of the program is a commit. -/
def Prog.atCommit : Prog S H α → Bool
  | .act .commit _ => true
  | _ => false

/-- The programs that have committed, in the order of their commits. -/
@[reducible] def commitOrder : Watch S H n α where
  Val := List (Fin n)
  next i s s' order := if (s'.procs i).txn.commits = (s.procs i).txn.commits then order else order ++ [i]

namespace Sys
variable {s s' : Sys S H n α} {i : Fin n} {c : Choice H}

/-- A step of a program: it commits, or the store and its number of commits stay as they are. -/
theorem step_commits (hok : s.Ok) (hstep : s.step (.proc i c) = some s') (order : List (Fin n)) :
    (s'.world.db = s.world.db ∧ (s'.procs i).txn.commits = (s.procs i).txn.commits ∧
        commitOrder.next i s s' order = order) ∨
      (s'.world.db = (s.procs i).txn.view s.world.db ∧
        (s'.procs i).txn.commits = (s.procs i).txn.commits + 1 ∧
        commitOrder.next i s s' order = order ++ [i]) := by
  obtain ⟨a, k, r, w', l', hp, hact, rfl⟩ := step_proc hstep
  have hself : (Function.update s.procs i ⟨k r, l'⟩ i).txn = l' := by rw [Function.update_self]
  rcases Action.run_commits hok.world (hok.txn i) hact with ⟨hdb, hc⟩ | ⟨hdb, hc⟩
  · refine .inl ⟨hdb, ?_, if_pos ?_⟩
    · rw [hself, hc]
    · rw [hself, hc]
  · refine .inr ⟨hdb, ?_, if_neg ?_⟩
    · rw [hself, hc]
    · rw [hself, hc]
      omega

theorem step_changes (hok : s.Ok) (hstep : s.step (.proc i c) = some s') :
    s'.world.db = s.world.db ∨ (s.procs i).prog.atCommit = true := by
  obtain ⟨a, k, r, w', l', hp, hact, rfl⟩ := step_proc hstep
  cases a with
  | commit => exact .inr (by rw [hp]; rfl)
  | rollback =>
    cases c with
    | host c => cases hact
    | _ =>
      cases hact
      exact .inl rfl
  | _ => exact .inl (Action.run_uncommitted (by trivial) hok.world (hok.txn i) hact)

/-- The order lists a program as often as it has committed. -/
theorem Watched.count {M : Fin n → Sys S H n α → List (Fin n) → Prop}
    {order : (commitOrder : Watch S H n α).Val} {w : World S H} {ps : Fin n → Prog S H α}
    (h : Watched commitOrder M (Sys.start w ps) [] s order) (hw : w.Ok) (i : Fin n) :
    (s.procs i).txn.commits = List.count i order := by
  induction h with
  | start => rfl
  | env e _ hstep ih =>
    cases hstep
    exact ih
  | @proc s s' v j c h _ hstep ih =>
    have hother : i ≠ j → (s'.procs i).txn = (s.procs i).txn := by
      intro hij
      obtain ⟨a, k, r, w', l', -, -, rfl⟩ := step_proc hstep
      simp [hij]
    have hok : s.Ok := h.reach.ok (start_ok hw ps)
    rcases step_commits hok hstep v with ⟨-, hc, hnext⟩ | ⟨-, hc, hnext⟩
    · rw [hnext, ← ih]
      by_cases hij : i = j
      · rw [hij, hc]
      · rw [hother hij]
    · rw [hnext, List.count_append]
      by_cases hij : i = j
      · subst hij
        rw [hc, ih, List.count_singleton_self]
      · rw [hother hij, ih, List.count_singleton, if_neg (by simpa using Ne.symm hij), add_zero]

end Sys

/-- The program does not use the host. -/
def Action.OfStore : Action S H → Prop
  | .host _ => False
  | _ => True

theorem Action.run_fault {a : Action S H} (ha : a.OfStore) (busy : Lock S → Bool) (w : World S H) (l : Txn S) :
    ∃ c r l', a.run c busy w l = some (r, w, l') ∧ l'.commits = l.commits := by
  cases a with
  | host a => exact ha.elim
  | rollback => exact ⟨.go, _, _, rfl, rfl⟩
  | _ => exact ⟨.fault, _, _, rfl, rfl⟩

/-- A safe program that does not use the host can come to its end at once: all its statements fail. -/
theorem Safe.soon {P : Protocol S H n} {i : Fin n} {Q : Post P α} {p : Prog S H α} {sh : Shared S H} {x y : P.Val}
    {l : Txn S} {w : World S H} (h : Safe P (fun _ _ _ _ _ => True) i Q p sh x l) (hp : p.Acts Action.OfStore)
    (hQ : ∀ {r sh x l w y}, Seen P i l sh x w y → Q r sh x l → Q r w.toShared y l) (hs : Seen P i l sh x w y) :
    ∃ r l', l'.commits = l.commits ∧ Q r w.toShared y l' := by
  induction p generalizing sh x l with
  | ret a => exact ⟨.ok a, l, rfl, hQ hs h⟩
  | raise e => exact ⟨.error e, l, rfl, hQ hs h⟩
  | act a k ih =>
    obtain ⟨c, r, l', hact, hc⟩ := Action.run_fault hp.1 (fun _ => false) w l
    obtain ⟨-, -, hnext⟩ := h w y hs c _ r w l' trivial hact
    rw [P.next_same] at hnext
    have hrun := Action.run_spec hs.world hs.ok hact
    obtain ⟨r', l'', hc', hq⟩ := ih r hnext (hp.2 r) ⟨hs.inv, .refl _ _, P.rely_refl _ _ _ _, hrun.world, hrun.ok⟩
    exact ⟨r', l'', hc'.trans hc, hq⟩

end Relational
