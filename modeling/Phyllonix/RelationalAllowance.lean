import Phyllonix.RelationalShielded

/-!
# Programs that write what they are allowed to

An allowance says which rows a program may write in view of a store; what it allows it
goes on to allow while rows evolve. A program is judged on the view of its transaction: whatever
others commit meanwhile, the view evolves, and what was known of it may be carried along.
-/

namespace Relational
variable {S : Schema} {H : Host} {R : RowOrder S}

structure Allowance (R : RowOrder S) where
  allows : Store S → Write S → Prop
  later : ∀ {d d' v}, Evolves R d d' → allows d v → allows d' v

namespace Allowance

/-- Every row may be written. -/
def any (R : RowOrder S) : Allowance R := ⟨fun _ _ => True, fun _ h => h⟩

/-- What the transaction has written is allowed in view of itself. -/
structure Pending (A : Allowance R) (d : Store S) (l : Txn S) : Prop where
  view : Evolves R d (l.view d)
  allowed : ∀ v ∈ l.writes, A.allows (l.view d) v

/-- Allowed writes lead from one store to the other. -/
def Publishes (A : Allowance R) (d d' : Store S) : Prop :=
  ∃ ws, d' = applyWrites ws d ∧ Evolves R d d' ∧ ∀ v ∈ ws, A.allows d' v

variable {A : Allowance R} {d d' : Store S} {l : Txn S}

theorem Publishes.refl (A : Allowance R) (d : Store S) : A.Publishes d d :=
  ⟨[], rfl, .refl _ _, fun v hv => by cases hv⟩

theorem Pending.publishes (h : A.Pending d l) : A.Publishes d (l.view d) :=
  ⟨l.writes, rfl, h.view, h.allowed⟩

theorem Pending.of_no_writes (hl : l.writes = []) : A.Pending d l := by
  refine ⟨?_, fun v hv => ?_⟩
  · rw [Txn.view_of_no_writes hl]
    exact .refl _ _
  · rw [hl] at hv
    cases hv

/-- Commits of others take nothing away. -/
theorem Pending.still {seq : S.Tbl → ℕ} (h : A.Pending d l) (hev : Evolves R d d') (hl : l.Ok d' seq)
    (hs : l.Still d d') : A.Pending d' l :=
  ⟨h.view.still hl hs, fun v hv => A.later (hev.view hl hs) (h.allowed v hv)⟩

end Allowance

/-- Program `i` publishes what `A i` allows. -/
def allowances {n : ℕ} (A : Fin n → Allowance R) : Protocol S H n :=
  shielded R (fun _ => True) (fun i => (A i).Publishes) fun i => .refl (A i)

section Heeds
variable {n : ℕ} {α β : Type}

/-- Begun in a view that has evolved from `d`, the program writes what it is allowed to, and what
it returns satisfies `Q` in its view. -/
def Heeds (A : Fin n → Allowance R) (G : Guard S H n) (i : Fin n) (Q : α → Store S → Prop)
    (p : Prog S H α) (d : Store S) : Prop :=
  ∀ (sh : Shared S H) (x : Unit) (l : Txn S), (A i).Pending sh.db l → Evolves R d (l.view sh.db) →
    Safe (allowances A) G i (fun r sh' _ l' => (A i).Pending sh'.db l' ∧ Evolves R d (l'.view sh'.db) ∧
      ∀ a, r = .ok a → Q a (l'.view sh'.db)) p sh x l

variable {A : Fin n → Allowance R} {G : Guard S H n} {i : Fin n} {d : Store S}

theorem Heeds.pure {Q : α → Store S → Prop} {a : α} (h : ∀ d', Evolves R d d' → Q a d') :
    Heeds A G i Q (Pure.pure a) d := by
  intro sh x l hpend hev
  refine ⟨hpend, hev, fun b hb => ?_⟩
  cases hb
  exact h _ hev

theorem Heeds.raise {Q : α → Store S → Prop} (e : Exn H.Err) : Heeds A G i Q (.raise e) d :=
  fun _ _ _ hpend hev => ⟨hpend, hev, nofun⟩

theorem Heeds.bind {Q : α → Store S → Prop} {Q' : β → Store S → Prop} {p : Prog S H α}
    {f : α → Prog S H β} (h : Heeds A G i Q p d)
    (hf : ∀ a d', Evolves R d d' → Q a d' → Heeds A G i Q' (f a) d') : Heeds A G i Q' (p >>= f) d := by
  intro sh x l hpend hev
  apply Safe.bind
  apply (h sh x l hpend hev).mono
  intro r sh' x' l' hr
  obtain ⟨hpend', hev', hq⟩ := hr
  cases r with
  | error e => exact ⟨hpend', hev', nofun⟩
  | ok a =>
    apply (hf a _ hev' (hq a rfl) sh' x' l' hpend' (.refl _ _)).mono
    intro r' sh'' x'' l'' hr'
    exact ⟨hr'.1, hev'.trans hr'.2.1, hr'.2.2⟩

theorem Heeds.attempt {Q : α → Store S → Prop} {Q' : Except (Exn H.Err) α → Store S → Prop}
    {p : Prog S H α} (h : Heeds A G i Q p d) (hok : ∀ a d', Evolves R d d' → Q a d' → Q' (.ok a) d')
    (herr : ∀ e d', Evolves R d d' → Q' (.error e) d') : Heeds A G i Q' p.attempt d := by
  intro sh x l hpend hev
  apply Safe.attempt
  apply (h sh x l hpend hev).mono
  intro r sh' x' l' hr
  obtain ⟨hpend', hev', hq⟩ := hr
  refine ⟨hpend', hev', fun b hb => ?_⟩
  cases hb
  cases r with
  | ok a => exact hok a _ hev' (hq a rfl)
  | error e => exact herr e _ hev'

/-- The rules of the actions come from this one. -/
theorem Heeds.call {a : Action S H} {Q : a.Res → Store S → Prop} (hk : a.Keeps R)
    (ha : a.Within ∨ a = .commit)
    (hw : ∀ d', Evolves R d d' → d'.Wf → a.Writes ((A i).allows d') d')
    (hQ : ∀ c busy w w' l l' r, w.Ok → l.Ok w.db w.seq → Evolves R d (l.view w.db) →
      a.run c busy w l = some (.ok r, w', l') → Q r (l'.view w'.db)) :
    Heeds A G i Q (.call a) d := by
  intro sh x l hpend hev
  apply Safe.call
  intro w y hs c busy r w' l' _ hrun
  have hrely : Evolves R sh.db w.db := hs.rely
  have hpend₁ := hpend.still hrely hs.ok hs.still
  have hev₁ := hev.trans (hrely.view hs.ok hs.still)
  have hq : ∀ b, r = .ok b → Q b (l'.view w'.db) := by
    intro b hb
    subst hb
    exact hQ c busy w w' l l' b hs.world hs.ok hev₁ hrun
  cases ha with
  | inl hin =>
    obtain ⟨hdb, hview⟩ := Action.run_within hk hin hs.world hs.ok hrun
    have hwrites := Action.run_writes (hw _ hev₁ hs.ok.wf) hpend₁.allowed hrun
    obtain ⟨hinv, hguar⟩ := shielded_same hs hdb
    refine ⟨hinv, hguar, ⟨?_, fun v hv => ?_⟩, ?_, hq⟩
    · rw [hdb]
      exact hpend₁.view.trans hview
    · rw [hdb]
      exact (A i).later hview (hwrites v hv)
    · rw [hdb]
      exact hev₁.trans hview
  | inr hcommit =>
    subst hcommit
    rcases statement_cases hrun with ⟨rfl, -, hl', -, -⟩ | ⟨-, hgo⟩
    · have hwrites : l'.writes = l.writes := by rcases hl' with rfl | rfl <;> rfl
      have hview : l'.view w'.db = l.view w'.db := by rw [Txn.view, hwrites, Txn.view]
      obtain ⟨hinv, hguar⟩ := shielded_same hs rfl
      refine ⟨hinv, hguar, ⟨?_, ?_⟩, ?_, hq⟩
      · exact hview ▸ hpend₁.view
      · rw [hwrites, hview]
        exact hpend₁.allowed
      · exact hview ▸ hev₁
    · simp only [Option.some.injEq, Prod.mk.injEq] at hgo
      obtain ⟨-, rfl, rfl⟩ := hgo
      exact ⟨trivial, ⟨hpend₁.view, hpend₁.publishes⟩, .of_no_writes rfl, hev₁, hq⟩

/-! ## Rules for the actions -/

theorem Heeds.read {γ : Type} {f : Store S → γ} {Q : γ → Store S → Prop}
    (hQ : ∀ d', Evolves R d d' → d'.Wf → Q (f d') d') : Heeds A G i Q (.call (.read f)) d := by
  apply Heeds.call (a := .read f) trivial (.inl trivial) (fun _ _ _ => trivial)
  intro c busy w w' l l' r hw hok hev hrun
  rcases statement_cases hrun with ⟨-, ⟨e, he⟩, -⟩ | ⟨-, hgo⟩
  · cases he
  · simp only [Option.some.injEq, Prod.mk.injEq, Except.ok.injEq] at hgo
    obtain ⟨rfl, rfl, rfl⟩ := hgo
    exact hQ _ hev hok.wf

theorem Heeds.lock {t : S.Tbl} {p : S.Row t → Bool} {Q : List (S.Row t) → Store S → Prop}
    (hQ : ∀ d', Evolves R d d' → d'.Wf → Q ((d' t).filter p) d') :
    Heeds A G i Q (.call (.lock t p)) d := by
  apply Heeds.call (a := .lock t p) trivial (.inl trivial) (fun _ _ _ => trivial)
  intro c busy w w' l l' r hw hok hev hrun
  rcases statement_cases hrun with ⟨-, ⟨e, he⟩, -⟩ | ⟨-, hgo⟩
  · cases he
  · obtain ⟨hr, rfl, rfl, -⟩ := lockAll_eq hgo
    cases hr
    exact hQ _ hev hok.wf

theorem Heeds.update {t : S.Tbl} {p : S.Row t → Bool} {f : S.Row t → S.Row t}
    {hf : ∀ r, S.id (f r) = S.id r} {Q : List (S.Row t) → Store S → Prop}
    (hk : ∀ r, R.rel t (some r) (some (f r)))
    (hw : ∀ d', Evolves R d d' → d'.Wf → ∀ r ∈ d' t, p r = true → (A i).allows d' ⟨t, f r⟩)
    (hQ : ∀ rs d', Evolves R d d' → Q rs d') : Heeds A G i Q (.call (.update t p f hf)) d := by
  apply Heeds.call (a := .update t p f hf) hk (.inl trivial) hw
  intro c busy w w' l l' rs hw' hok hev hrun
  obtain ⟨hdb, hview⟩ := Action.run_within (R := R) (a := .update t p f hf) hk trivial hw' hok hrun
  rw [hdb]
  exact hQ rs _ (hev.trans hview)

/-- The inserted row is there afterwards. -/
theorem Heeds.insert {t : S.Tbl} {mk : ℕ → S.Row t} {hmk : ∀ m, S.id (mk m) = m} {skip : Bool}
    {Q : Option (S.Row t) → Store S → Prop} (hk : ∀ m, R.rel t none (some (mk m)))
    (hw : ∀ d', Evolves R d d' → ∀ m, (A i).allows d' ⟨t, mk m⟩)
    (hQ : ∀ m d', Evolves R d d' → d'.Wf → d'.get t m = some (mk m) → Q (some (mk m)) d')
    (hskip : skip = true → ∀ d', Evolves R d d' → Q none d') :
    Heeds A G i Q (.call (.insert t mk hmk skip)) d := by
  apply Heeds.call (a := .insert t mk hmk skip) hk (.inl trivial) (fun d' hev _ => hw d' hev)
  intro c busy w w' l l' r hw' hok hev hrun
  obtain ⟨hdb, hview⟩ := Action.run_within (R := R) (a := .insert t mk hmk skip) hk trivial hw' hok hrun
  have hok' := (Action.run_spec hw' hok hrun).ok
  rcases statement_cases hrun with ⟨-, ⟨e, he⟩, -⟩ | ⟨-, hgo⟩
  · cases he
  · rcases insertRow_cases hgo with ⟨hr, rfl, rfl, -, -⟩ | ⟨rfl, -, ⟨hr, hsk, rfl⟩ | ⟨hr, -⟩⟩
    · cases hr
      refine hQ _ _ (hev.trans hview) hok'.wf ?_
      have hget := Store.get_put_self (l.view w.db) t (mk (w.seq t))
      rwa [hmk] at hget
    · cases hr
      exact hskip hsk _ hev
    · cases hr

theorem Heeds.tryLock {m : ℤ} {Q : Bool → Store S → Prop} (hQ : ∀ b d', Evolves R d d' → Q b d') :
    Heeds A G i Q (.call (.tryLock m)) d := by
  apply Heeds.call (a := .tryLock m) trivial (.inl trivial) (fun _ _ _ => trivial)
  intro c busy w w' l l' b hw hok hev hrun
  obtain ⟨hdb, hview⟩ := Action.run_within (R := R) (a := .tryLock m) trivial trivial hw hok hrun
  rw [hdb]
  exact hQ b _ (hev.trans hview)

theorem Heeds.host {a : H.Act} {Q : H.Res a → Store S → Prop} (hQ : ∀ b d', Evolves R d d' → Q b d') :
    Heeds A G i Q (.call (.host a)) d := by
  apply Heeds.call (a := .host a) trivial (.inl trivial) (fun _ _ _ => trivial)
  intro c busy w w' l l' b hw hok hev hrun
  obtain ⟨hdb, hview⟩ := Action.run_within (R := R) (a := .host a) trivial trivial hw hok hrun
  rw [hdb]
  exact hQ b _ (hev.trans hview)

theorem Heeds.commit {Q : Unit → Store S → Prop} (hQ : ∀ d', Evolves R d d' → Q () d') :
    Heeds A G i Q (.call .commit) d := by
  apply Heeds.call (a := .commit) trivial (.inr rfl) (fun _ _ _ => trivial)
  intro c busy w w' l l' b hw hok hev hrun
  rcases statement_cases hrun with ⟨-, ⟨e, he⟩, -⟩ | ⟨-, hgo⟩
  · cases he
  · simp only [Option.some.injEq, Prod.mk.injEq] at hgo
    obtain ⟨-, rfl, rfl⟩ := hgo
    exact hQ _ hev

/-! ## Systems -/

/-- A program that heeds its allowance keeps the protocol, also in a session. -/
theorem Heeds.safe_session {Q : α → Store S → Prop} {p : Prog S H α} {sh : Shared S H}
    (h : Heeds A G i Q p sh.db) :
    Safe (allowances A) G i (fun _ _ _ _ => True) p.session sh () {} := by
  apply Safe.session
  apply (h sh () {} (.of_no_writes rfl) (.refl _ _)).mono
  exact fun _ _ _ _ _ _ _ _ => trivial

/-- A program that may write every row keeps the protocol when its actions respect the order. -/
theorem safe_unrestricted {p : Prog S H α} {sh : Shared S H} (hi : A i = .any R)
    (hp : p.Acts (Action.Keeps R)) :
    Safe (allowances A) G i (fun _ _ _ _ => True) p sh () {} := by
  apply Safe.bystander
  · intro sh l c _ hev _
    refine ⟨trivial, l.writes, rfl, hev, fun v _ => ?_⟩
    rw [hi]
    exact trivial
  · exact hp
  · exact .refl _ _

end Heeds

namespace Sys
variable {n : ℕ} {α : Type} {A : Fin n → Allowance R} {Q : Fin n → Post (allowances (H := H) A) α}

/-- What each publication of program `i` implies, a run of its steps alone implies. -/
theorem Run.published {s s' : Sys S H n α} {K : History S H n} {x x' : K.Val} {i : Fin n}
    {T : Store S → Store S → Prop} (h : Run (Guard.only i) K s x s' x')
    (hinv : s.Inv (allowances A) (fun _ _ _ _ _ => True) Q ()) (hrefl : ∀ d, T d d)
    (htrans : ∀ d d' d'', T d d' → T d' d'' → T d d'')
    (hT : ∀ d d' : Store S, d.Wf → d'.Wf → (A i).Publishes d d' → T d d') : T s.world.db s'.world.db := by
  have hrun : s'.Inv (allowances A) (fun _ _ _ _ _ => True) Q () ∧ T s.world.db s'.world.db := by
    induction h with
    | start => exact ⟨hinv, hrefl _⟩
    | env e _ hstep ih =>
      obtain ⟨hinv', ht⟩ := ih
      refine ⟨hinv'.env hstep, ?_⟩
      simp only [Sys.step, Option.some.injEq] at hstep
      rwa [← hstep]
    | @proc s₁ _ _ j c _ hj hstep ih =>
      obtain ⟨hinv', ht⟩ := ih
      have hji : j = i := by
        obtain ⟨a, k, -, -, -, hp, -⟩ := step_proc hstep
        simp only [Allows, hp] at hj
        exact hj
      subst hji
      have hallows : s₁.Allows (fun _ _ _ _ _ => True) j c := by
        rw [Allows]
        split <;> exact trivial
      have hguar := (hinv'.guar hallows hstep).2
      exact ⟨hinv'.proc hallows hstep,
        htrans _ _ _ ht (hT _ _ hinv'.ok.world.wf (hinv'.ok.step hstep).world.wf hguar)⟩
  exact hrun.2

end Sys
end Relational
