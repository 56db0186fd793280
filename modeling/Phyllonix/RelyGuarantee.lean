import Phyllonix.RelationalInterference

/-!
# Rely-guarantee rules for interleaved programs

A protocol has an invariant of the shared state, a guarantee that every step of a
program keeps, and a rely that says what a program may count on while it holds
its transaction. `Safe` follows one program: before each of its actions the
shared state may have changed as the rely allows. When every program of a system
is safe, every state of every run satisfies the invariant.
-/

namespace Relational
variable {S : Schema} {H : Host} {n : ℕ}

structure Protocol (S : Schema) (H : Host) (n : ℕ) extends History S H n where
  inv : Shared S H → Val → Prop
  rely : Fin n → Txn S → Shared S H → Val → Shared S H → Val → Prop
  guar : Fin n → Txn S → Shared S H → Val → Shared S H → Prop
  next_same : ∀ i sh x, next i sh sh x = x
  rely_refl : ∀ i l sh x, rely i l sh x sh x
  rely_trans : ∀ {i l sh x sh' x' sh'' x''}, rely i l sh x sh' x' → rely i l sh' x' sh'' x'' →
    rely i l sh x sh'' x''
  guar_same : ∀ i l sh x, guar i l sh x sh
  compat : ∀ {i j l m sh x sh'}, i ≠ j → l.Apart m → inv sh x → inv sh' (next i sh sh' x) →
    m.Still sh.db sh'.db → guar i l sh x sh' → rely j m sh x sh' (next i sh sh' x)
  env_inv : ∀ e sh x, inv sh x → inv { sh with host := H.env e sh.host } x
  env_rely : ∀ e sh x j m, inv sh x → rely j m sh x { sh with host := H.env e sh.host } x

variable (P : Protocol S H n) (G : Guard S H n) (i : Fin n)

/-- What a program knows when it takes its next action. -/
structure Seen (l : Txn S) (sh : Shared S H) (x : P.Val) (w : World S H) (y : P.Val) : Prop where
  inv : P.inv w.toShared y
  still : l.Still sh.db w.db
  rely : P.rely i l sh x w.toShared y
  world : w.Ok
  ok : l.Ok w.db w.seq

abbrev Post (P : Protocol S H n) (α : Type) :=
  Except (Exn H.Err) α → Shared S H → P.Val → Txn S → Prop

/-- Nothing is claimed about a raised exception. -/
def Post.ofOk {P : Protocol S H n} {α : Type} (Q : α → Shared S H → P.Val → Txn S → Prop) : Post P α
  | .ok a, sh, x, l => Q a sh x l
  | .error _, _, _, _ => True

def Safe {α : Type} (Q : Post P α) : Prog S H α → Shared S H → P.Val → Txn S → Prop
  | .ret a, sh, x, l => Q (.ok a) sh x l
  | .raise e, sh, x, l => Q (.error e) sh x l
  | .act a k, sh, x, l => ∀ w y, Seen P i l sh x w y → ∀ c busy r w' l',
      G i w.toShared l a c → a.run c busy w l = some (r, w', l') →
      let y' := P.next i w.toShared w'.toShared y
      P.inv w'.toShared y' ∧ P.guar i l w.toShared y w'.toShared ∧
        Safe Q (k r) w'.toShared y' l'

variable {P G i} {α β : Type} {sh : Shared S H} {x : P.Val} {l : Txn S}

theorem Safe.mono {Q Q' : Post P α} (hQ : ∀ r sh x l, Q r sh x l → Q' r sh x l)
    {p : Prog S H α} (h : Safe P G i Q p sh x l) : Safe P G i Q' p sh x l := by
  induction p generalizing sh x l with
  | ret a => exact hQ _ _ _ _ h
  | raise e => exact hQ _ _ _ _ h
  | act a k ih =>
    intro w y hs c busy r w' l' hg hr
    obtain ⟨h1, h2, h3⟩ := h w y hs c busy r w' l' hg hr
    exact ⟨h1, h2, ih r h3⟩

theorem Safe.restrict {G' : Guard S H n} (hG : ∀ sh l a c, G' i sh l a c → G i sh l a c)
    {Q : Post P α} {p : Prog S H α} (h : Safe P G i Q p sh x l) : Safe P G' i Q p sh x l := by
  induction p generalizing sh x l with
  | ret a => exact h
  | raise e => exact h
  | act a k ih =>
    intro w y hs c busy r w' l' hg hr
    obtain ⟨h1, h2, h3⟩ := h w y hs c busy r w' l' (hG _ _ _ _ hg) hr
    exact ⟨h1, h2, ih r h3⟩

theorem Safe.and {Q Q' : Post P α} {p : Prog S H α} (h : Safe P G i Q p sh x l)
    (h' : Safe P G i Q' p sh x l) :
    Safe P G i (fun r sh x l => Q r sh x l ∧ Q' r sh x l) p sh x l := by
  induction p generalizing sh x l with
  | ret a => exact ⟨h, h'⟩
  | raise e => exact ⟨h, h'⟩
  | act a k ih =>
    intro w y hs c busy r w' l' hg hr
    obtain ⟨h1, h2, h3⟩ := h w y hs c busy r w' l' hg hr
    exact ⟨h1, h2, ih r h3 (h' w y hs c busy r w' l' hg hr).2.2⟩

theorem Safe.bind {Q : Post P β} {p : Prog S H α} {f : α → Prog S H β}
    (h : Safe P G i (fun r sh x l => match r with
      | .ok a => Safe P G i Q (f a) sh x l
      | .error e => Q (.error e) sh x l) p sh x l) : Safe P G i Q (p >>= f) sh x l := by
  induction p generalizing sh x l with
  | ret a => exact h
  | raise e => exact h
  | act a k ih =>
    intro w y hs c busy r w' l' hg hr
    obtain ⟨h1, h2, h3⟩ := h w y hs c busy r w' l' hg hr
    exact ⟨h1, h2, ih r h3⟩

/-- What is known of the value goes on to the rest; an exception passes the rest by. -/
theorem Safe.bind_ok {Q : α → Shared S H → P.Val → Txn S → Prop} {Q' : β → Shared S H → P.Val → Txn S → Prop}
    {p : Prog S H α} {f : α → Prog S H β} (h : Safe P G i (.ofOk Q) p sh x l)
    (hf : ∀ a sh x l, Q a sh x l → Safe P G i (.ofOk Q') (f a) sh x l) :
    Safe P G i (.ofOk Q') (p >>= f) sh x l := by
  apply Safe.bind
  apply h.mono
  intro r sh x l hr
  cases r with
  | error e => trivial
  | ok a => exact hf a sh x l hr

theorem Safe.attempt {Q : Post P (Except (Exn H.Err) α)} {p : Prog S H α}
    (h : Safe P G i (fun r => Q (.ok r)) p sh x l) : Safe P G i Q p.attempt sh x l := by
  induction p generalizing sh x l with
  | ret a => exact h
  | raise e => exact h
  | act a k ih =>
    intro w y hs c busy r w' l' hg hr
    obtain ⟨h1, h2, h3⟩ := h w y hs c busy r w' l' hg hr
    exact ⟨h1, h2, ih r h3⟩

theorem Safe.pure {Q : Post P α} {a : α} (h : Q (.ok a) sh x l) :
    Safe P G i Q (Pure.pure a) sh x l := h

theorem Safe.raise {Q : Post P α} {e : Exn H.Err} (h : Q (.error e) sh x l) :
    Safe P G i Q (.raise e) sh x l := h

theorem safe_ofExcept {Q : Post P α} {r : Except (Exn H.Err) α} :
    Safe P G i Q (.ofExcept r) sh x l ↔ Q r sh x l := by
  cases r <;> exact .rfl

theorem Safe.call {a : Action S H} {Q : Post P a.Res}
    (h : ∀ w y, Seen P i l sh x w y → ∀ c busy r w' l', G i w.toShared l a c →
      a.run c busy w l = some (r, w', l') →
      P.inv w'.toShared (P.next i w.toShared w'.toShared y) ∧
      P.guar i l w.toShared y w'.toShared ∧
      Q r w'.toShared (P.next i w.toShared w'.toShared y) l') :
    Safe P G i Q (.call a) sh x l := by
  intro w y hs c busy r w' l' hg hr
  obtain ⟨h1, h2, h3⟩ := h w y hs c busy r w' l' hg hr
  exact ⟨h1, h2, safe_ofExcept.mpr h3⟩

/-- An action that leaves the shared state as it is needs no proof about the protocol. -/
theorem Safe.call_same {a : Action S H} {Q : Post P a.Res}
    (h : ∀ w y, Seen P i l sh x w y → ∀ c busy r w' l', G i w.toShared l a c →
      a.run c busy w l = some (r, w', l') →
      w'.toShared = w.toShared ∧ Q r w.toShared y l') :
    Safe P G i Q (.call a) sh x l := by
  refine Safe.call fun w y hs c busy r w' l' hg hr => ?_
  obtain ⟨h1, h2⟩ := h w y hs c busy r w' l' hg hr
  rw [h1, P.next_same]
  exact ⟨hs.inv, P.guar_same _ _ _ _, h2⟩

/-- A statement fails when the run injects a fault, or in a failed transaction. -/
def Fails (G : Guard S H n) (i : Fin n) (sh : Shared S H) (l : Txn S) (a : Action S H) : Prop :=
  G i sh l a .fault ∨ l.aborted = true

/-- What a failed statement leaves of the transaction. -/
structure AfterError (l l' : Txn S) : Prop where
  commits : l'.commits = l.commits
  aborted : l'.aborted = true

/-- The postcondition after a failed statement. -/
def OnError (Q : Post P α) (i : Fin n) (sh : Shared S H) (x : P.Val) (l : Txn S) : Prop :=
  ∀ w y, Seen P i l sh x w y → ∀ (e : StatementError H) l', AfterError l l' →
    Q (.error e.1) w.toShared y l'

theorem guarded_cases {γ : Type} {a : Action S H} {c : Choice H} {w w' : World S H}
    {l' : Txn S} {go : Outcome S H γ} {r : Except (Exn H.Err) γ}
    (hg : G i w.toShared l a c) (h : statement c w l go = some (r, w', l')) :
    (w' = w ∧ (∃ e : StatementError H, r = .error e.1) ∧ AfterError l l' ∧
        Fails G i w.toShared l a) ∨
      (l.aborted = false ∧ go = some (r, w', l')) := by
  rcases statement_cases h with ⟨rfl, he, hl, ha, hf⟩ | hgo
  · have hc : l'.commits = l.commits := by rcases hl with rfl | rfl <;> rfl
    exact .inl ⟨rfl, he, ⟨hc, ha⟩, hf.imp (fun h => by rwa [← h]) (fun h => h)⟩
  · exact .inr hgo

/-- The actions that a failed transaction refuses. -/
def Action.isStatement : Action S H → Bool
  | .rollback | .host _ => false
  | _ => true

section Rules

/-- In a failed transaction every statement fails. -/
theorem Safe.of_aborted {a : Action S H} {Q : Post P a.Res} (ha : a.isStatement = true)
    (hl : l.aborted = true) (he : OnError Q i sh x l) : Safe P G i Q (.call a) sh x l := by
  refine Safe.call_same fun w y hs c busy r w' l' hg hr => ?_
  have hfails : ∀ {go : Outcome S H a.Res}, statement c w l go = some (r, w', l') →
      w' = w ∧ Q r w.toShared y l' := by
    intro go hgo
    rcases guarded_cases hg hgo with ⟨rfl, ⟨e, rfl⟩, hafter, -⟩ | ⟨hna, -⟩
    · exact ⟨rfl, he _ y hs e l' hafter⟩
    · rw [hl] at hna
      cases hna
  have hsame : w' = w ∧ Q r w.toShared y l' := by
    cases a with
    | rollback => cases ha
    | host a => cases ha
    | _ => exact hfails hr
  exact ⟨congrArg World.toShared hsame.1, hsame.2⟩

theorem Safe.read_guarded {γ : Type} {f : Store S → γ} {Q : Post P γ}
    (h : ∀ w y, Seen P i l sh x w y → (∃ c, G i w.toShared l (.read f) c) →
      Q (.ok (f (l.view w.db))) w.toShared y l)
    (he : (∃ sh', Fails G i sh' l (.read f)) → OnError Q i sh x l) :
    Safe P G i Q (.call (.read f)) sh x l := by
  refine Safe.call_same fun w y hs c busy r w' l' hg hr => ?_
  rcases guarded_cases hg hr with ⟨rfl, ⟨e, rfl⟩, hc, hf⟩ | ⟨-, hgo⟩
  · exact ⟨rfl, he ⟨_, hf⟩ _ y hs e l' hc⟩
  · simp only [Option.some.injEq, Prod.mk.injEq] at hgo
    obtain ⟨rfl, rfl, rfl⟩ := hgo
    exact ⟨rfl, h _ y hs ⟨c, hg⟩⟩

theorem Safe.read {γ : Type} {f : Store S → γ} {Q : Post P γ}
    (h : ∀ w y, Seen P i l sh x w y → Q (.ok (f (l.view w.db))) w.toShared y l)
    (he : (∃ sh', Fails G i sh' l (.read f)) → OnError Q i sh x l) :
    Safe P G i Q (.call (.read f)) sh x l :=
  Safe.read_guarded (fun w y hs _ => h w y hs) he

theorem Safe.lock {t : S.Tbl} {p : S.Row t → Bool} {Q : Post P (List (S.Row t))}
    (h : ∀ w y, Seen P i l sh x w y → (∃ c, G i w.toShared l (.lock t p) c) →
      Q (.ok ((l.view w.db t).filter p)) w.toShared y
        (l.acquire (((l.view w.db t).filter p).map fun r => .row t (S.id r))))
    (he : (∃ sh', Fails G i sh' l (.lock t p)) → OnError Q i sh x l) :
    Safe P G i Q (.call (.lock t p)) sh x l := by
  refine Safe.call_same fun w y hs c busy r w' l' hg hr => ?_
  rcases guarded_cases hg hr with ⟨rfl, ⟨e, rfl⟩, hc, hf⟩ | ⟨-, hgo⟩
  · exact ⟨rfl, he ⟨_, hf⟩ _ y hs e l' hc⟩
  · obtain ⟨rfl, rfl, rfl, -⟩ := lockAll_eq hgo
    exact ⟨rfl, h _ y hs ⟨c, hg⟩⟩

theorem Safe.lockSkip {t : S.Tbl} {p : S.Row t → Bool} {Q : Post P (List (S.Row t))}
    (h : ∀ w y, Seen P i l sh x w y → ∀ free : S.Row t → Bool,
      Q (.ok ((l.view w.db t).filter fun r => p r && free r)) w.toShared y
        (l.acquire (((l.view w.db t).filter fun r => p r && free r).map fun r => .row t (S.id r))))
    (he : (∃ sh', Fails G i sh' l (.lockSkip t p)) → OnError Q i sh x l) :
    Safe P G i Q (.call (.lockSkip t p)) sh x l := by
  refine Safe.call_same fun w y hs c busy r w' l' hg hr => ?_
  rcases guarded_cases hg hr with ⟨rfl, ⟨e, rfl⟩, hc, hf⟩ | ⟨-, hgo⟩
  · exact ⟨rfl, he ⟨_, hf⟩ _ y hs e l' hc⟩
  · obtain ⟨rfl, rfl, rfl, -⟩ := lockAll_eq hgo
    exact ⟨rfl, h _ y hs _⟩

/-- After an update: the new versions of the matched rows are written and locked. -/
structure Updated {t : S.Tbl} (f : S.Row t → S.Row t) (rows : List (S.Row t)) (l l' : Txn S) :
    Prop where
  writes : l'.writes = updateWrites f rows ++ l.writes
  locked : ∀ u ∈ rows, .row t (S.id u) ∈ l'.locks
  keeps : ∀ y ∈ l.locks, y ∈ l'.locks
  commits : l'.commits = l.commits
  aborted : l'.aborted = l.aborted

theorem Safe.update_guarded {t : S.Tbl} {p : S.Row t → Bool} {f : S.Row t → S.Row t}
    {hf : ∀ r, S.id (f r) = S.id r} {Q : Post P (List (S.Row t))}
    (h : ∀ w y, Seen P i l sh x w y → (∃ c, G i w.toShared l (.update t p f hf) c) →
      ∀ l', Updated f ((l.view w.db t).filter p) l l' →
      Q (.ok (((l.view w.db t).filter p).map f)) w.toShared y l')
    (he : (∃ sh', Fails G i sh' l (.update t p f hf)) ∨ (∃ r, S.keys (f r) ≠ S.keys r) →
      OnError Q i sh x l) :
    Safe P G i Q (.call (.update t p f hf)) sh x l := by
  refine Safe.call_same fun w y hs c busy r w' l' hg hr => ?_
  rcases guarded_cases hg hr with ⟨rfl, ⟨e, rfl⟩, hc, hf'⟩ | ⟨-, hgo⟩
  · exact ⟨rfl, he (.inl ⟨_, hf'⟩) _ y hs e l' hc⟩
  · obtain ⟨⟨r₁, l₁⟩, hu, hx⟩ := Option.map_eq_some_iff.mp hgo
    simp only [Prod.mk.injEq] at hx
    obtain ⟨rfl, rfl, rfl⟩ := hx
    obtain ⟨hnd, hrows⟩ := rows_of_view hs.world hs.ok t p
    have hsp := updateRows_spec hf hs.ok hnd hrows hu
    refine ⟨rfl, ?_⟩
    cases r₁ with
    | error e =>
      obtain ⟨rfl, ha, hkeys⟩ := hsp.failed e rfl
      exact he (.inr hkeys) _ y hs ⟨.integrity, by simp⟩ l₁ ⟨hsp.commits, ha⟩
    | ok rs =>
      obtain ⟨rfl, hwr, hlk, hab⟩ := hsp.done rs rfl
      exact h _ y hs ⟨c, hg⟩ l₁ ⟨hwr, hlk, hsp.keeps, hsp.commits, hab⟩

theorem Safe.update {t : S.Tbl} {p : S.Row t → Bool} {f : S.Row t → S.Row t}
    {hf : ∀ r, S.id (f r) = S.id r} {Q : Post P (List (S.Row t))}
    (h : ∀ w y, Seen P i l sh x w y → ∀ l', Updated f ((l.view w.db t).filter p) l l' →
      Q (.ok (((l.view w.db t).filter p).map f)) w.toShared y l')
    (he : (∃ sh', Fails G i sh' l (.update t p f hf)) ∨ (∃ r, S.keys (f r) ≠ S.keys r) →
      OnError Q i sh x l) :
    Safe P G i Q (.call (.update t p f hf)) sh x l :=
  Safe.update_guarded (fun w y hs _ => h w y hs) he

theorem Safe.insert {t : S.Tbl} {mk : ℕ → S.Row t} {hmk : ∀ m, S.id (mk m) = m} {skip : Bool}
    {Q : Post P (Option (S.Row t))}
    (h : ∀ w y, Seen P i l sh x w y → ∀ m, (∀ r ∈ l.view w.db t, S.id r < m) →
      (l.view w.db).Free t (S.keys (mk m)) →
      Q (.ok (some (mk m))) w.toShared y (l.write t [] (mk m)))
    (hskip : skip = true → ∀ w y, Seen P i l sh x w y → ∀ m,
      ¬(l.view w.db).Free t (S.keys (mk m)) → Q (.ok none) w.toShared y l)
    (he : OnError Q i sh x l) :
    Safe P G i Q (.call (.insert t mk hmk skip)) sh x l := by
  refine Safe.call_same fun w y hs c busy r w' l' hg hr => ?_
  rcases guarded_cases hg hr with ⟨rfl, ⟨e, rfl⟩, hc, -⟩ | ⟨-, hgo⟩
  · exact ⟨rfl, he _ y hs e l' hc⟩
  · rcases insertRow_cases hgo with ⟨rfl, rfl, rfl, hfree, -⟩ | ⟨rfl, hfree, hr⟩
    · exact ⟨rfl, h w y hs _ (fun r hr => Txn.id_lt_of_mem_view hs.world hs.ok hr) hfree⟩
    · rcases hr with ⟨rfl, hsk, rfl⟩ | ⟨rfl, rfl⟩
      · exact ⟨rfl, hskip hsk _ y hs _ hfree⟩
      · exact ⟨rfl, he _ y hs ⟨.integrity, by simp⟩ _ ⟨rfl, rfl⟩⟩

/-- An insertion that skips taken entries fails for faults only. -/
theorem Safe.insertSkip {t : S.Tbl} {mk : ℕ → S.Row t} {hmk : ∀ m, S.id (mk m) = m}
    {Q : Post P (Option (S.Row t))}
    (h : ∀ w y, Seen P i l sh x w y → (∃ c, G i w.toShared l (.insert t mk hmk true) c) →
      ∀ m, (∀ r ∈ l.view w.db t, S.id r < m) → Q (.ok (some (mk m))) w.toShared y (l.write t [] (mk m)))
    (hskip : ∀ w y, Seen P i l sh x w y → (∃ c, G i w.toShared l (.insert t mk hmk true) c) →
      ∀ m, ¬(l.view w.db).Free t (S.keys (mk m)) → Q (.ok none) w.toShared y l)
    (he : (∃ sh', Fails G i sh' l (.insert t mk hmk true)) → OnError Q i sh x l) :
    Safe P G i Q (.call (.insert t mk hmk true)) sh x l := by
  apply Safe.call_same
  intro w y hs c busy r w' l' hg hr
  rcases guarded_cases hg hr with ⟨rfl, ⟨e, rfl⟩, hc, hf⟩ | ⟨-, hgo⟩
  · exact ⟨rfl, he ⟨_, hf⟩ _ y hs e l' hc⟩
  · rw [insertRow] at hgo
    split at hgo
    · cases hgo
    split at hgo
    · cases hgo
      exact ⟨rfl, h w y hs ⟨c, hg⟩ _ fun r hr => Txn.id_lt_of_mem_view hs.world hs.ok hr⟩
    · rename_i hfree
      cases hgo
      exact ⟨rfl, hskip _ y hs ⟨c, hg⟩ _ hfree⟩

theorem Safe.tryLock {m : ℤ} {Q : Post P Bool}
    (h : ∀ w y, Seen P i l sh x w y → ∀ b l', (l' = l ∨ l' = l.acquire [.advisory m]) →
      Q (.ok b) w.toShared y l')
    (he : OnError Q i sh x l) : Safe P G i Q (.call (.tryLock m)) sh x l := by
  refine Safe.call_same fun w y hs c busy r w' l' hg hr => ?_
  rcases guarded_cases hg hr with ⟨rfl, ⟨e, rfl⟩, hc, -⟩ | ⟨-, hgo⟩
  · exact ⟨rfl, he _ y hs e l' hc⟩
  · split at hgo <;> simp only [Option.some.injEq, Prod.mk.injEq] at hgo
    · obtain ⟨rfl, rfl, rfl⟩ := hgo
      exact ⟨rfl, h _ y hs _ _ (.inl rfl)⟩
    · obtain ⟨rfl, rfl, rfl⟩ := hgo
      exact ⟨rfl, h _ y hs _ _ (.inr rfl)⟩

theorem Safe.commit {Q : Post P Unit}
    (h : ∀ w y, Seen P i l sh x w y → (∃ c, G i w.toShared l .commit c) →
      P.inv ⟨l.view w.db, w.host⟩ (P.next i w.toShared ⟨l.view w.db, w.host⟩ y) ∧
      P.guar i l w.toShared y ⟨l.view w.db, w.host⟩ ∧
      Q (.ok ()) ⟨l.view w.db, w.host⟩ (P.next i w.toShared ⟨l.view w.db, w.host⟩ y) l.committed)
    (he : (∃ sh', Fails G i sh' l .commit) → OnError Q i sh x l) :
    Safe P G i Q (.call .commit) sh x l := by
  refine Safe.call fun w y hs c busy r w' l' hg hr => ?_
  rcases guarded_cases hg hr with ⟨rfl, ⟨e, rfl⟩, hc, hf⟩ | ⟨-, hgo⟩
  · rw [P.next_same]
    exact ⟨hs.inv, P.guar_same _ _ _ _, he ⟨_, hf⟩ _ y hs e l' hc⟩
  · simp only [Option.some.injEq, Prod.mk.injEq] at hgo
    obtain ⟨rfl, rfl, rfl⟩ := hgo
    exact h w y hs ⟨c, hg⟩

theorem Safe.commit_nothing {Q : Post P Unit} (hl : l.writes = [])
    (h : ∀ w y, Seen P i l sh x w y → Q (.ok ()) w.toShared y l.committed)
    (he : (∃ sh', Fails G i sh' l .commit) → OnError Q i sh x l) :
    Safe P G i Q (.call .commit) sh x l := by
  refine Safe.commit (fun w y hs _ => ?_) he
  have hv : l.view w.db = w.db := Txn.view_of_no_writes hl _
  rw [hv]
  have hn : P.next i w.toShared ⟨w.db, w.host⟩ y = y := P.next_same i w.toShared y
  rw [hn]
  exact ⟨hs.inv, P.guar_same _ _ _ _, h w y hs⟩

/-- A commit that the guard does not let succeed. -/
theorem Safe.commit_fault {Q : Post P Unit} (hG : ∀ sh c, G i sh l .commit c → c.isFault = true)
    (he : OnError Q i sh x l) : Safe P G i Q (.call .commit) sh x l := by
  apply Safe.call_same
  intro w y hs c busy r w' l' hg hr
  cases c with
  | go => cases hG _ _ hg
  | host c => cases hG _ _ hg
  | fault =>
    simp only [Action.run, statement, Option.some.injEq, Prod.mk.injEq] at hr
    obtain ⟨rfl, rfl, rfl⟩ := hr
    exact ⟨rfl, he _ y hs ⟨.fault, by simp⟩ _ ⟨rfl, rfl⟩⟩

theorem Safe.rollback {Q : Post P Unit}
    (h : ∀ w y, Seen P i l sh x w y → ∀ r, Q r w.toShared y l.reset) :
    Safe P G i Q (.call .rollback) sh x l := by
  refine Safe.call_same fun w y hs c busy r w' l' hg hr => ?_
  cases c with
  | host c => cases hr
  | go =>
    simp only [Action.run, Option.some.injEq, Prod.mk.injEq] at hr
    obtain ⟨rfl, rfl, rfl⟩ := hr
    exact ⟨rfl, h _ y hs _⟩
  | fault =>
    simp only [Action.run, Option.some.injEq, Prod.mk.injEq] at hr
    obtain ⟨rfl, rfl, rfl⟩ := hr
    exact ⟨rfl, h _ y hs _⟩

theorem Safe.host {a : H.Act} {Q : Post P (H.Res a)}
    (h : ∀ w y, Seen P i l sh x w y → ∀ c r s, H.step a c w.host = some (r, s) →
      P.inv ⟨w.db, s⟩ (P.next i w.toShared ⟨w.db, s⟩ y) ∧ P.guar i l w.toShared y ⟨w.db, s⟩ ∧
      Q (r.mapError .app) ⟨w.db, s⟩ (P.next i w.toShared ⟨w.db, s⟩ y) l) :
    Safe P G i Q (.call (.host a)) sh x l := by
  refine Safe.call fun w y hs c busy r w' l' hg hr => ?_
  cases c with
  | go => cases hr
  | fault => cases hr
  | host c =>
    obtain ⟨⟨r₁, s⟩, hst, hx⟩ := Option.map_eq_some_iff.mp hr
    simp only [Prod.mk.injEq] at hx
    obtain ⟨rfl, rfl, rfl⟩ := hx
    exact h w y hs c r₁ s hst

/-- An exception in the block, or in its commit, leaves an empty transaction behind. -/
theorem Safe.transaction {Q : Post P α} {p : Prog S H α}
    (h : Safe P G i (fun r sh x l => match r with
      | .ok a => Safe P G i (fun c sh x l => match c with
        | .ok _ => Q (.ok a) sh x l
        | .error e => ∀ w y, Seen P i l sh x w y → Q (.error e) w.toShared y l.reset)
          (.call .commit) sh x l
      | .error e => ∀ w y, Seen P i l sh x w y → Q (.error e) w.toShared y l.reset) p sh x l) :
    Safe P G i Q p.transaction sh x l := by
  have hraise : ∀ {e sh x l}, (∀ w y, Seen P i l sh x w y → Q (.error e) w.toShared y l.reset) →
      Safe P G i Q (do let _ ← Prog.attempt (.call .rollback); .raise e) sh x l := fun hq =>
    Safe.bind (Safe.attempt (Safe.rollback fun w y hs _ => hq w y hs))
  refine Safe.bind (Safe.attempt (Safe.bind (h.mono fun r sh x l hr => ?_)))
  cases r with
  | error e => exact hraise hr
  | ok a =>
    refine Safe.bind (Safe.mono (fun c sh x l hc => ?_) hr)
    cases c with
    | error e => exact hraise hc
    | ok _ => exact hc

/-- Closing the session: the outcome of the body is the outcome of the session. -/
theorem Safe.session {Q : Post P (Except (Exn H.Err) α)} {p : Prog S H α}
    (h : Safe P G i (fun r sh x l => ∀ w y, Seen P i l sh x w y →
      Q (.ok r) w.toShared y l.reset) p sh x l) :
    Safe P G i Q p.session sh x l := by
  refine Safe.bind (Safe.attempt (h.mono fun r sh x l hr => ?_))
  exact Safe.bind (Safe.attempt (Safe.rollback fun w y hs _ => hr w y hs))

end Rules

namespace Sys

/-- The invariant of a system whose programs are safe. -/
structure Inv (P : Protocol S H n) (G : Guard S H n)
    (Q : Fin n → Post P α) (s : Sys S H n α) (x : P.Val) : Prop where
  ok : s.Ok
  inv : P.inv s.world.toShared x
  safe : ∀ i, ∃ sh y, Safe P G i (Q i) (s.procs i).prog sh y (s.procs i).txn ∧
    (s.procs i).txn.Still sh.db s.world.db ∧
    P.rely i (s.procs i).txn sh y s.world.toShared x

variable {Q : Fin n → Post P α}

theorem Inv.seen {s : Sys S H n α} {x : P.Val} (h : s.Inv P G Q x) (i : Fin n) :
    ∃ sh y, Safe P G i (Q i) (s.procs i).prog sh y (s.procs i).txn ∧
      Seen P i (s.procs i).txn sh y s.world x := by
  obtain ⟨sh, y, hsafe, hstill, hrely⟩ := h.safe i
  exact ⟨sh, y, hsafe, h.inv, hstill, hrely, h.ok.world, h.ok.txn i⟩

theorem Inv.guar {s s' : Sys S H n α} {x : P.Val} (h : s.Inv P G Q x) {i : Fin n} {c : Choice H}
    (hG : s.Allows G i c) (hstep : s.step (.proc i c) = some s') :
    P.guar i (s.procs i).txn s.world.toShared x s'.world.toShared := by
  obtain ⟨a, k, r, w', l', hp, hrun, rfl⟩ := step_proc hstep
  obtain ⟨sh, y, hsafe, hseen⟩ := h.seen i
  rw [hp] at hsafe
  simp only [Allows, hp] at hG
  exact (hsafe _ _ hseen c _ r w' l' hG hrun).2.1

theorem Inv.proc {s s' : Sys S H n α} {x : P.Val} (h : s.Inv P G Q x) {i : Fin n} {c : Choice H}
    (hG : s.Allows G i c) (hstep : s.step (.proc i c) = some s') :
    s'.Inv P G Q (P.next i s.world.toShared s'.world.toShared x) := by
  have hok := h.ok.step hstep
  have hguar := h.guar hG hstep
  obtain ⟨a, k, r, w', l', hp, hrun, rfl⟩ := step_proc hstep
  obtain ⟨sh, y, hsafe, hseen⟩ := h.seen i
  rw [hp] at hsafe
  simp only [Allows, hp] at hG
  obtain ⟨hinv, -, hnext⟩ := hsafe _ _ hseen c _ r w' l' hG hrun
  refine ⟨hok, hinv, fun j => ?_⟩
  by_cases hj : j = i
  · subst hj
    exact ⟨w'.toShared, _, by simpa using hnext, .refl _ _, P.rely_refl _ _ _ _⟩
  · obtain ⟨sh', y', hsafe', hstill', hrely'⟩ := h.safe j
    have hother := other_ok h.ok hj (Action.run_spec h.ok.world (h.ok.txn i) hrun)
    refine ⟨sh', y', by simpa [hj] using hsafe', ?_, ?_⟩
    · simpa [hj] using hstill'.trans hother.2
    · have hc := P.compat (Ne.symm hj) (h.ok.apart i j (Ne.symm hj)) h.inv hinv hother.2 hguar
      simpa [hj] using P.rely_trans hrely' hc

theorem Inv.env {s s' : Sys S H n α} {x : P.Val} (h : s.Inv P G Q x) {e : H.Env}
    (hstep : s.step (.env e) = some s') : s'.Inv P G Q x := by
  have hok := h.ok.step hstep
  simp only [step, Option.some.injEq] at hstep
  subst hstep
  refine ⟨hok, P.env_inv e _ x h.inv, fun j => ?_⟩
  obtain ⟨sh, y, hsafe, hstill, hrely⟩ := h.safe j
  exact ⟨sh, y, hsafe, hstill, P.rely_trans hrely (P.env_rely e _ x j _ h.inv)⟩

theorem inv_start {w : World S H} {x : P.Val} (hw : w.Ok) (hinv : P.inv w.toShared x)
    {ps : Fin n → Prog S H α} (hsafe : ∀ i, Safe P G i (Q i) (ps i) w.toShared x {}) :
    (start w ps).Inv P G Q x :=
  ⟨start_ok hw ps, hinv, fun i => ⟨w.toShared, x, hsafe i, .refl _ _, P.rely_refl _ _ _ _⟩⟩

/-- Soundness: in every run of safe programs the invariant holds. -/
theorem Run.inv {s₀ s : Sys S H n α} {x₀ x : P.Val} (h : Run G P.toHistory s₀ x₀ s x)
    (h₀ : s₀.Inv P G Q x₀) : s.Inv P G Q x := by
  induction h with
  | start => exact h₀
  | proc i c _ hG hstep ih => exact ih.proc hG hstep
  | env e _ hstep ih => exact ih.env hstep

end Sys
end Relational
