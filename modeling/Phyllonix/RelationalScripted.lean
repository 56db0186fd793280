import Phyllonix.RelationalAlone
import Phyllonix.RelationalUpheld

/-!
# One program whose host answers by a script

Only one program of the system takes steps, no statement fails without a reason, and what the
host answers depends on what can be read off its state, which the environment leaves as it is.
Store, reading and transaction are then known at every point of the program.
-/

namespace Relational
variable {S : Schema} {H : Host} {α β : Type}

/-- A part of the host state that the environment does not change. -/
structure Gauge (H : Host) where
  Val : Type
  read : H.State → Val
  env : ∀ e s, read (H.env e s) = read s

/-- Program `i₀` may count on the store and on what the gauge shows. -/
def watched (o : Gauge H) {n : ℕ} (i₀ : Fin n) : Protocol S H n where
  toHistory := History.none
  inv _ _ := True
  rely i _ sh _ sh' _ := i = i₀ → sh'.db = sh.db ∧ o.read sh'.host = o.read sh.host
  guar i _ sh _ sh' := i ≠ i₀ → sh'.db = sh.db ∧ o.read sh'.host = o.read sh.host
  next_same := History.none_same
  rely_refl _ _ _ _ := fun _ => ⟨rfl, rfl⟩
  rely_trans h h' := fun hi => ⟨(h' hi).1.trans (h hi).1, (h' hi).2.trans (h hi).2⟩
  guar_same _ _ _ _ := fun _ => ⟨rfl, rfl⟩
  compat hij _ _ _ _ h := fun hj => h fun hi => hij (hi.trans hj.symm)
  env_inv _ _ _ h := h
  env_rely e sh _ _ _ _ := fun _ => ⟨rfl, o.env e sh.host⟩

/-- Statements take place, and the host answers as the script says. -/
def Guard.scripted (o : Gauge H) (answers : H.Act → o.Val → H.Choice → Prop) {n : ℕ} (i₀ : Fin n) :
    Guard S H n := fun i sh _ a c => i = i₀ ∧
  match a, c with
  | _, .fault => False
  | .host a, .host c => answers a (o.read sh.host) c
  | _, _ => True

/-- The action does not move the gauge. -/
def Action.Mute (o : Gauge H) : Action S H → Prop
  | .host a => ∀ c s r s', H.step a c s = some (r, s') → o.read s' = o.read s
  | _ => True

section Plays
variable {o : Gauge H} {answers : H.Act → o.Val → H.Choice → Prop} {n : ℕ} {i₀ : Fin n}
variable {d : Store S} {v : o.Val} {l : Txn S}

/-- Begun with store `d`, reading `v` and transaction `l`, the program ends as `Q` says. -/
def Plays (answers : H.Act → o.Val → H.Choice → Prop) (i₀ : Fin n)
    (Q : Except (Exn H.Err) α → Store S → o.Val → Txn S → Prop) (p : Prog S H α) (d : Store S)
    (v : o.Val) (l : Txn S) : Prop :=
  ∀ (sh : Shared S H) (x : Unit), sh.db = d → o.read sh.host = v →
    Safe (watched o i₀) (Guard.scripted o answers i₀) i₀ (fun r sh' _ l' => Q r sh'.db (o.read sh'.host) l')
      p sh x l

theorem Plays.mono {Q Q' : Except (Exn H.Err) α → Store S → o.Val → Txn S → Prop} {p : Prog S H α}
    (h : Plays answers i₀ Q p d v l) (hQ : ∀ r d v l, Q r d v l → Q' r d v l) :
    Plays answers i₀ Q' p d v l :=
  fun sh x hd hv => (h sh x hd hv).mono fun r _ _ _ => hQ r _ _ _

theorem Plays.pure {Q : Except (Exn H.Err) α → Store S → o.Val → Txn S → Prop} {a : α}
    (h : Q (.ok a) d v l) : Plays answers i₀ Q (Pure.pure a) d v l := by
  intro sh x hd hv
  subst hd hv
  exact h

theorem Plays.raise {Q : Except (Exn H.Err) α → Store S → o.Val → Txn S → Prop} {e : Exn H.Err}
    (h : Q (.error e) d v l) : Plays answers i₀ Q (.raise e) d v l := by
  intro sh x hd hv
  subst hd hv
  exact h

theorem Plays.bind {Q : Except (Exn H.Err) β → Store S → o.Val → Txn S → Prop} {p : Prog S H α}
    {f : α → Prog S H β}
    (h : Plays answers i₀ (fun r d v l => match r with
      | .ok a => Plays answers i₀ Q (f a) d v l
      | .error e => Q (.error e) d v l) p d v l) : Plays answers i₀ Q (p >>= f) d v l := by
  intro sh x hd hv
  apply Safe.bind
  apply (h sh x hd hv).mono
  intro r sh' x' l' hr
  cases r with
  | ok a => exact hr sh' x' rfl rfl
  | error e => exact hr

theorem Plays.attempt {Q : Except (Exn H.Err) (Except (Exn H.Err) α) → Store S → o.Val → Txn S → Prop}
    {p : Prog S H α} (h : Plays answers i₀ (fun r => Q (.ok r)) p d v l) :
    Plays answers i₀ Q p.attempt d v l :=
  fun sh x hd hv => Safe.attempt (h sh x hd hv)

/-- The session ends with an empty transaction, and with the outcome of its body. -/
theorem Plays.session {Q : Except (Exn H.Err) (Except (Exn H.Err) α) → Store S → o.Val → Txn S → Prop}
    {p : Prog S H α} (h : Plays answers i₀ (fun r d v l => Q (.ok r) d v l.reset) p d v l) :
    Plays answers i₀ Q p.session d v l := by
  intro sh x hd hv
  apply Safe.session
  apply (h sh x hd hv).mono
  intro r sh' x' l' hr w y hs
  obtain ⟨hdb, hread⟩ := hs.rely rfl
  rw [hdb, hread]
  exact hr

/-- The rules of the actions come from this one. -/
theorem Plays.call {a : Action S H} {Q : Except (Exn H.Err) a.Res → Store S → o.Val → Txn S → Prop}
    (h : ∀ c busy (w w' : World S H) l' r, w.Ok → l.Ok w.db w.seq → w.db = d → o.read w.host = v →
      Guard.scripted o answers i₀ i₀ w.toShared l a c → a.run c busy w l = some (r, w', l') →
      Q r w'.db (o.read w'.host) l') : Plays answers i₀ Q (.call a) d v l := by
  intro sh x hd hv
  apply Safe.call
  intro w y hs c busy r w' l' hg hr
  obtain ⟨hdb, hread⟩ := hs.rely rfl
  exact ⟨trivial, fun hne => absurd rfl hne,
    h c busy w w' l' r hs.world hs.ok (hdb.trans hd) (hread.trans hv) hg hr⟩

/-- A statement takes place, or the transaction has failed before. -/
theorem scripted_statement {γ : Type} {a : Action S H} {c : Choice H} {w w' : World S H} {l' : Txn S}
    {go : Outcome S H γ} {r : Except (Exn H.Err) γ}
    (hg : Guard.scripted o answers i₀ i₀ w.toShared l a c) (h : statement c w l go = some (r, w', l')) :
    (l.aborted = true ∧ r = .error .inFailedTransaction ∧ w' = w ∧ l' = l) ∨
      (l.aborted = false ∧ go = some (r, w', l')) := by
  cases c with
  | host c => cases h
  | fault => exact hg.2.elim
  | go =>
    rw [statement] at h
    split at h
    · rename_i ha
      cases h
      exact .inl ⟨ha, rfl, rfl, rfl⟩
    · rename_i ha
      exact .inr ⟨by simpa using ha, h⟩

theorem Plays.read {γ : Type} {f : Store S → γ} {Q : Except (Exn H.Err) γ → Store S → o.Val → Txn S → Prop}
    (h : (l.view d).Wf → l.aborted = false → Q (.ok (f (l.view d))) d v l)
    (he : l.aborted = true → Q (.error .inFailedTransaction) d v l) :
    Plays answers i₀ Q (.call (.read f)) d v l := by
  apply Plays.call (a := .read f)
  intro c busy w w' l' r hw hok hd hv hg hr
  subst hd hv
  rcases scripted_statement hg hr with ⟨ha, rfl, rfl, rfl⟩ | ⟨ha, hgo⟩
  · exact he ha
  · simp only [Option.some.injEq, Prod.mk.injEq] at hgo
    obtain ⟨rfl, rfl, rfl⟩ := hgo
    exact h hok.wf ha

/-- An insertion takes place under a new identifier when its index entries are free. -/
theorem Plays.insert {t : S.Tbl} {mk : ℕ → S.Row t} {hmk : ∀ m, S.id (mk m) = m} {skip : Bool}
    {Q : Except (Exn H.Err) (Option (S.Row t)) → Store S → o.Val → Txn S → Prop}
    (h : ∀ m, (∀ r ∈ l.view d t, S.id r < m) → l.aborted = false → (l.view d).Free t (S.keys (mk m)) →
      Q (.ok (some (mk m))) d v (l.write t [] (mk m)))
    (htaken : ∀ m, ¬(l.view d).Free t (S.keys (mk m)) →
      (skip = true → Q (.ok none) d v l) ∧ Q (.error .integrity) d v l.abort)
    (he : l.aborted = true → Q (.error .inFailedTransaction) d v l) :
    Plays answers i₀ Q (.call (.insert t mk hmk skip)) d v l := by
  apply Plays.call (a := .insert t mk hmk skip)
  intro c busy w w' l' r hw hok hd hv hg hr
  subst hd hv
  rcases scripted_statement hg hr with ⟨ha, rfl, rfl, rfl⟩ | ⟨ha, hgo⟩
  · exact he ha
  · rcases insertRow_cases hgo with ⟨rfl, rfl, rfl, hfree, -⟩ | ⟨rfl, hfree, ⟨rfl, hsk, rfl⟩ | ⟨rfl, rfl⟩⟩
    · exact h _ (fun r hr => Txn.id_lt_of_mem_view hw hok hr) ha hfree
    · exact (htaken _ hfree).1 hsk
    · exact (htaken _ hfree).2

/-- An update that leaves the index entries as they are takes place. -/
theorem Plays.update {t : S.Tbl} {p : S.Row t → Bool} {f : S.Row t → S.Row t} {hf : ∀ r, S.id (f r) = S.id r}
    {Q : Except (Exn H.Err) (List (S.Row t)) → Store S → o.Val → Txn S → Prop}
    (hkeys : ∀ r, S.keys (f r) = S.keys r)
    (h : (l.view d).Wf → l.aborted = false → ∀ l', Updated f ((l.view d t).filter p) l l' →
      Q (.ok (((l.view d t).filter p).map f)) d v l')
    (he : l.aborted = true → Q (.error .inFailedTransaction) d v l) :
    Plays answers i₀ Q (.call (.update t p f hf)) d v l := by
  apply Plays.call (a := .update t p f hf)
  intro c busy w w' l' rs hw hok hd hv hg hr
  subst hd hv
  rcases scripted_statement hg hr with ⟨ha, rfl, rfl, rfl⟩ | ⟨ha, hgo⟩
  · exact he ha
  · obtain ⟨⟨r₁, l₁⟩, hu, hx⟩ := Option.map_eq_some_iff.mp hgo
    simp only [Prod.mk.injEq] at hx
    obtain ⟨rfl, rfl, rfl⟩ := hx
    obtain ⟨hnd, hrows⟩ := rows_of_view hw hok t p
    have hspec := updateRows_spec hf hok hnd hrows hu
    cases r₁ with
    | error e =>
      obtain ⟨-, -, u, hu⟩ := hspec.failed e rfl
      exact absurd (hkeys u) hu
    | ok rs =>
      obtain ⟨rfl, hwrites, hlocked, haborted⟩ := hspec.done rs rfl
      exact h hok.wf ha l₁ ⟨hwrites, hlocked, hspec.keeps, hspec.commits, haborted⟩

/-- An update that matches one row takes place when the index entries that it gains are free. -/
theorem Plays.update_one {t : S.Tbl} {p : S.Row t → Bool} {f : S.Row t → S.Row t}
    {hf : ∀ r, S.id (f r) = S.id r} {Q : Except (Exn H.Err) (List (S.Row t)) → Store S → o.Val → Txn S → Prop}
    {r : S.Row t} (hrow : (l.view d).Wf → (l.view d t).filter p = [r])
    (h : l.aborted = false → (l.view d).Wf → (l.view d).Free t ((S.keys (f r)).filter fun k => k ∉ S.keys r) →
      Q (.ok [f r]) d v (l.write t (S.keys r) (f r)))
    (htaken : (l.view d).Wf → ¬(l.view d).Free t ((S.keys (f r)).filter fun k => k ∉ S.keys r) →
      Q (.error .integrity) d v l.abort)
    (he : l.aborted = true → Q (.error .inFailedTransaction) d v l) :
    Plays answers i₀ Q (.call (.update t p f hf)) d v l := by
  apply Plays.call (a := .update t p f hf)
  intro c busy w w' l' rs hw hok hd hv hg hr
  subst hd hv
  rcases scripted_statement hg hr with ⟨ha, rfl, rfl, rfl⟩ | ⟨ha, hgo⟩
  · exact he ha
  · obtain ⟨⟨r₁, l₁⟩, hu, hx⟩ := Option.map_eq_some_iff.mp hgo
    simp only [Prod.mk.injEq] at hx
    obtain ⟨rfl, rfl, rfl⟩ := hx
    rw [hrow hok.wf, updateRows] at hu
    split at hu
    · cases hu
    split at hu
    · rename_i hfree
      simp only [updateRows, Option.map_some, Option.some.injEq, Prod.mk.injEq] at hu
      obtain ⟨rfl, rfl⟩ := hu
      exact h ha hok.wf hfree
    · rename_i hfree
      simp only [Option.some.injEq, Prod.mk.injEq] at hu
      obtain ⟨rfl, rfl⟩ := hu
      exact htaken hok.wf hfree

theorem Plays.commit {Q : Except (Exn H.Err) Unit → Store S → o.Val → Txn S → Prop}
    (h : l.aborted = false → Q (.ok ()) (l.view d) v l.committed)
    (he : l.aborted = true → Q (.error .inFailedTransaction) d v l) :
    Plays answers i₀ Q (.call .commit) d v l := by
  apply Plays.call (a := .commit)
  intro c busy w w' l' r hw hok hd hv hg hr
  subst hd hv
  rcases scripted_statement hg hr with ⟨ha, rfl, rfl, rfl⟩ | ⟨ha, hgo⟩
  · exact he ha
  · simp only [Option.some.injEq, Prod.mk.injEq] at hgo
    obtain ⟨rfl, rfl, rfl⟩ := hgo
    exact h ha

theorem Plays.host {a : H.Act} {Q : Except (Exn H.Err) (H.Res a) → Store S → o.Val → Txn S → Prop}
    (h : ∀ c s r s', o.read s = v → answers a v c → H.step a c s = some (r, s') →
      Q (r.mapError .app) d (o.read s') l) : Plays answers i₀ Q (.call (.host a)) d v l := by
  apply Plays.call (a := .host a)
  intro c busy w w' l' r hw hok hd hv hg hr
  subst hd hv
  cases c with
  | go => cases hr
  | fault => cases hr
  | host c =>
    obtain ⟨⟨r₁, s⟩, hst, hx⟩ := Option.map_eq_some_iff.mp hr
    simp only [Prod.mk.injEq] at hx
    obtain ⟨rfl, rfl, rfl⟩ := hx
    exact h c w.host r₁ s rfl hg.2 hst

theorem Action.run_mute {a : Action S H} (ha : a.Mute o) {c : Choice H} {busy : Lock S → Bool}
    {w w' : World S H} {l' : Txn S} {r : Except (Exn H.Err) a.Res} (h : a.run c busy w l = some (r, w', l')) :
    o.read w'.host = o.read w.host := by
  by_cases hs : a.Silent
  · rw [Action.run_silent hs h]
  · cases a with
    | host a =>
      cases c with
      | go => cases h
      | fault => cases h
      | host c =>
        obtain ⟨⟨r₁, s⟩, hst, hx⟩ := Option.map_eq_some_iff.mp h
        simp only [Prod.mk.injEq] at hx
        obtain ⟨-, rfl, -⟩ := hx
        exact ha c w.host r₁ s hst
    | _ => exact absurd trivial hs

/-- Inside a transaction the store stays, and what the transaction sees evolves. -/
theorem Plays.within {R : RowOrder S} {p : Prog S H α}
    (hp : p.Acts fun a => a.Keeps R ∧ a.Within ∧ a.Mute o) :
    Plays answers i₀ (fun _ d' v' l' => d' = d ∧ v' = v ∧ Evolves R (l.view d) (l'.view d')) p d v l := by
  induction p generalizing l with
  | ret a => exact Plays.pure ⟨rfl, rfl, .refl _ _⟩
  | raise e => exact Plays.raise ⟨rfl, rfl, .refl _ _⟩
  | act a k ih =>
    intro sh x hd hv w y hs c busy r w' l' hg hr
    obtain ⟨⟨hkeeps, hin, hmute⟩, hk⟩ := hp
    obtain ⟨hdb, hread⟩ := hs.rely rfl
    obtain ⟨hsame, hview⟩ := Action.run_within hkeeps hin hs.world hs.ok hr
    have hgauge : o.read w'.host = v := (Action.run_mute hmute hr).trans (hread.trans hv)
    have hstore : w.db = d := hdb.trans hd
    refine ⟨trivial, fun hne => absurd rfl hne, ?_⟩
    apply (ih r (hk r) w'.toShared _ (hsame.trans hstore) hgauge).mono
    rintro r' sh' x' l'' ⟨hd', hv', hview'⟩
    rw [hstore] at hview
    rw [hd'] at hview' ⊢
    exact ⟨rfl, hv', hview.trans hview'⟩

/-- With commits, the store evolves too. -/
theorem Plays.evolves {R : RowOrder S} {p : Prog S H α} (hp : p.Acts fun a => a.Keeps R ∧ a.Mute o)
    (hl : Evolves R d (l.view d)) :
    Plays answers i₀ (fun _ d' v' l' => v' = v ∧ Evolves R d d' ∧ Evolves R d' (l'.view d')) p d v l := by
  induction p generalizing d l with
  | ret a => exact Plays.pure ⟨rfl, .refl _ _, hl⟩
  | raise e => exact Plays.raise ⟨rfl, .refl _ _, hl⟩
  | act a k ih =>
    intro sh x hd hv w y hs c busy r w' l' hg hr
    obtain ⟨⟨hkeeps, hmute⟩, hk⟩ := hp
    obtain ⟨hdb, hread⟩ := hs.rely rfl
    have hstore : w.db = d := hdb.trans hd
    rw [← hstore] at hl
    obtain ⟨hchange, hview⟩ := Action.run_evolves hkeeps hs.world hs.ok hl hr
    have hgauge : o.read w'.host = v := (Action.run_mute hmute hr).trans (hread.trans hv)
    refine ⟨trivial, fun hne => absurd rfl hne, ?_⟩
    apply (ih r (hk r) hview w'.toShared _ rfl hgauge).mono
    rintro r' sh' x' l'' ⟨hv', hev, hview'⟩
    rw [hstore] at hchange
    exact ⟨hv', hchange.trans hev, hview'⟩

/-- Tables that the program does not write stay as they are. -/
theorem Plays.confined {W : Write S → Prop} {p : Prog S H α} (hp : p.Acts fun a => a.Confined W ∧ a.Mute o)
    (hl : ∀ u ∈ l.writes, W u) :
    Plays answers i₀ (fun _ d' v' _ => v' = v ∧ ∀ t, (∀ u, W u → u.tbl ≠ t) → d' t = d t) p d v l := by
  induction p generalizing d l with
  | ret a => exact Plays.pure ⟨rfl, fun _ _ => rfl⟩
  | raise e => exact Plays.raise ⟨rfl, fun _ _ => rfl⟩
  | act a k ih =>
    intro sh x hd hv w y hs c busy r w' l' hg hr
    obtain ⟨⟨hconf, hmute⟩, hk⟩ := hp
    obtain ⟨hdb, hread⟩ := hs.rely rfl
    have hstore : w.db = d := hdb.trans hd
    have hgauge : o.read w'.host = v := (Action.run_mute hmute hr).trans (hread.trans hv)
    refine ⟨trivial, fun hne => absurd rfl hne, ?_⟩
    apply (ih r (hk r) (Action.run_confined hconf hl hr) w'.toShared _ rfl hgauge).mono
    rintro r' sh' x' l'' ⟨hv', hsame⟩
    refine ⟨hv', fun t ht => (hsame t ht).trans ?_⟩
    rcases (Action.run_spec hs.world hs.ok hr).db with h | h <;> rw [h, hstore]
    exact applyWrites_of_untouched fun u hu => ht u (hl u hu)

theorem Plays.and {Q Q' : Except (Exn H.Err) α → Store S → o.Val → Txn S → Prop} {p : Prog S H α}
    (h : Plays answers i₀ Q p d v l) (h' : Plays answers i₀ Q' p d v l) :
    Plays answers i₀ (fun r d v l => Q r d v l ∧ Q' r d v l) p d v l :=
  fun sh x hd hv => (h sh x hd hv).and (h' sh x hd hv)

end Plays

/-- The one program that ran, when it is over. -/
theorem Sys.Run.plays_txn {o : Gauge H} {answers : H.Act → o.Val → H.Choice → Prop} {n : ℕ} {i₀ : Fin n}
    {w : World S H} {ps : Fin n → Prog S H α} {s : Sys S H n α}
    {Q : Except (Exn H.Err) α → Store S → o.Val → Txn S → Prop} (hw : w.Ok)
    (h : Sys.Run (Guard.scripted o answers i₀) History.none (Sys.start w ps) () s ())
    (hp : Plays answers i₀ Q (ps i₀) w.db (o.read w.host) {}) {a : α} (hout : s.outcome i₀ = some a) :
    Q (.ok a) s.world.db (o.read s.world.host) (s.procs i₀).txn := by
  have hstart : (Sys.start w ps).Inv (watched o i₀) (Guard.scripted o answers i₀)
      (Function.update (fun _ _ _ _ _ => True) i₀ fun r sh _ l => Q r sh.db (o.read sh.host) l) () := by
    apply Sys.inv_start hw trivial
    intro j
    by_cases hj : j = i₀
    · subst hj
      rw [Function.update_self]
      exact hp w.toShared () rfl rfl
    · rw [Function.update_of_ne hj]
      exact Safe.still fun _ _ _ _ hg => hj hg.1
  have hs := Sys.Run.inv (P := watched o i₀) h hstart
  obtain ⟨sh, ⟨⟩, hq, -, hrely⟩ := hs.safe i₀
  rw [Function.update_self, Sys.prog_of_outcome hout] at hq
  obtain ⟨hdb, hread⟩ := hrely rfl
  change s.world.db = sh.db at hdb
  change o.read s.world.host = o.read sh.host at hread
  rw [hdb, hread]
  exact hq

theorem Sys.Run.plays {o : Gauge H} {answers : H.Act → o.Val → H.Choice → Prop} {n : ℕ} {i₀ : Fin n}
    {w : World S H} {ps : Fin n → Prog S H α} {s : Sys S H n α}
    {Q : Except (Exn H.Err) α → Store S → o.Val → Txn S → Prop} (hw : w.Ok)
    (h : Sys.Run (Guard.scripted o answers i₀) History.none (Sys.start w ps) () s ())
    (hp : Plays answers i₀ Q (ps i₀) w.db (o.read w.host) {}) {a : α} (hout : s.outcome i₀ = some a) :
    ∃ l, Q (.ok a) s.world.db (o.read s.world.host) l :=
  ⟨_, h.plays_txn hw hp hout⟩

end Relational
