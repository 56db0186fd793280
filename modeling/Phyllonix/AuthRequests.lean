import Phyllonix.AuthLedger

/-!
# Requests keep to the ledger

The transaction of a login or a refresh is followed from the lock of its device
session to its commit: first nothing but the session row is written, then the live
tokens of the pair are revoked one by one, then the new token stands in their place.
Whatever others commit meanwhile adds no token to the device session.
-/

namespace Phyllonix.Auth
open Relational
variable {n : ℕ}

/-! ## A transaction that issues a token -/

/-- The lock is held, and no token is written yet that is not a revoked one of the pair. -/
structure Locked (ds u : ℕ) (by_ : String) (d : Db) (l : Txn accounts) : Prop where
  lock : (Lock.row .deviceSession ds : Lock accounts) ∈ l.locks
  evolves : Evolves (issuing ds u by_ fun _ => False).order d (l.view d)

/-- Of the live tokens of the pair, only those of `ks` are left. -/
structure Sweeping (ds u : ℕ) (by_ : String) (ks : List ℕ) (d : Db) (l : Txn accounts) : Prop
    extends Locked ds u by_ d l where
  left : ∀ k (r : DeviceAuthToken), (l.view d).get .deviceAuthToken k = some r →
    r.deviceSessionId = ds → r.userId = u → r.live → k ∈ ks

structure Issuing (by_ : String) (new : DeviceAuthToken) (d : Db) (l : Txn accounts) : Prop where
  lock : (Lock.row .deviceSession new.deviceSessionId : Lock accounts) ∈ l.locks
  written : Written l.writes .deviceAuthToken new.id
  issues : Issues by_ new d (l.view d)

section Steady
variable {lib : Lib} {reqs : Fin n → AuthRequest} {C : Commit accounts n → Prop} {d₀ : Db}
variable {i : Fin n} {sh : Shared accounts authHost} {x y : List (Commit accounts n)}
variable {w : World accounts authHost} {l : Txn accounts} {ds u : ℕ} {by_ : String}

theorem seen_evolves (hs : Seen (ledgerProtocol (authLedger lib reqs C d₀) d₀) i l sh x w y) :
    Evolves Scope.any.order sh.db w.db := later_evolves hs.rely

theorem seen_locked (hs : Seen (ledgerProtocol (authLedger lib reqs C d₀) d₀) i l sh x w y)
    (hds : (Lock.row .deviceSession ds : Lock accounts) ∈ l.locks) {k : ℕ} {r : DeviceAuthToken}
    (hr : w.db.get .deviceAuthToken k = some r) (hrds : r.deviceSessionId = ds) :
    ∃ r₀ : DeviceAuthToken, sh.db.get .deviceAuthToken k = some r₀ :=
  later_locked (fun _ he => he.2) hs.rely hds hr hrds

/-- A live token of a locked device session was in view before. -/
theorem seen_live (hs : Seen (ledgerProtocol (authLedger lib reqs C d₀) d₀) i l sh x w y)
    (hds : (Lock.row .deviceSession ds : Lock accounts) ∈ l.locks) {k : ℕ} {r : DeviceAuthToken}
    (hr : (l.view w.db).get .deviceAuthToken k = some r) (hrds : r.deviceSessionId = ds)
    (hlive : r.live) : (l.view sh.db).get .deviceAuthToken k = some r := by
  by_cases hw : Written l.writes .deviceAuthToken k
  · have hview := hs.still.get_view (hs.ok.written_locked hw)
    exact hview.symm.trans hr
  · rw [Txn.view, get_applyWrites_of_not_written hw] at hr ⊢
    obtain ⟨r₀, hr₀⟩ := seen_locked hs hds hr hrds
    rcases Scope.live_before (seen_evolves hs) hr hlive with ⟨hnone, -⟩ | hsome
    · rw [hr₀] at hnone
      cases hnone
    · exact hsome

theorem Locked.of_no_writes {d : Db} (hl : l.writes = [])
    (hds : (Lock.row .deviceSession ds : Lock accounts) ∈ l.locks) : Locked ds u by_ d l := by
  refine ⟨hds, ?_⟩
  rw [Txn.view, hl]
  exact .refl _ _

theorem Locked.keep {d : Db} {l' : Txn accounts} (h : Locked ds u by_ d l) (hw : l'.writes = l.writes)
    (hkeeps : ∀ z ∈ l.locks, z ∈ l'.locks) : Locked ds u by_ d l' := by
  refine ⟨hkeeps _ h.lock, ?_⟩
  rw [Txn.view, hw]
  exact h.evolves

theorem Locked.seen (h : Locked ds u by_ sh.db l)
    (hs : Seen (ledgerProtocol (authLedger lib reqs C d₀) d₀) i l sh x w y) :
    Locked ds u by_ w.db l :=
  ⟨h.lock, h.evolves.still hs.ok hs.still⟩

theorem Sweeping.seen {ks : List ℕ} (h : Sweeping ds u by_ ks sh.db l)
    (hs : Seen (ledgerProtocol (authLedger lib reqs C d₀) d₀) i l sh x w y) :
    Sweeping ds u by_ ks w.db l := by
  refine ⟨h.toLocked.seen hs, ?_⟩
  intro k r hr hrds hru hlive
  exact h.left k r (seen_live hs h.lock hr hrds hlive) hrds hru hlive

theorem Issuing.seen {new : DeviceAuthToken} (h : Issuing by_ new sh.db l)
    (hs : Seen (ledgerProtocol (authLedger lib reqs C d₀) d₀) i l sh x w y) :
    Issuing by_ new w.db l := by
  have hrow := hs.ok.written_locked h.written
  refine ⟨h.lock, h.written, h.issues.evolves.still hs.ok hs.still, h.issues.live, ?_, ?_, ?_, ?_⟩
  · rw [hs.still.row _ _ hrow]
    exact h.issues.absent
  · rw [hs.still.get_view hrow]
    exact h.issues.present
  · intro k r hr hrds hru hlive
    exact h.issues.only k r (seen_live hs h.lock hr hrds hlive) hrds hru hlive
  · intro k r hr hrds
    obtain ⟨r₀, hr₀⟩ := seen_locked hs h.lock hr hrds
    obtain ⟨r', hr', hsame, -⟩ := Scope.token_same (seen_evolves hs) hr₀
    rw [hr] at hr'
    cases hr'
    exact h.issues.above k r₀ hr₀ (hsame.symm.trans hrds)

end Steady

/-! ## Its statements -/

section Writes
variable {d : Db} {l l' : Txn accounts} {ds u : ℕ} {by_ : String}

theorem Sweeping.step {k t : ℕ} {ks : List ℕ} (h : Sweeping ds u by_ (k :: ks) d l)
    (hkeeps : ∀ z ∈ l.locks, z ∈ l'.locks)
    (hu : Updated (S := accounts) (t := .deviceAuthToken) (DeviceAuthToken.revoke by_ t)
      (((l.view d).get .deviceAuthToken k).filter fun r : DeviceAuthToken =>
        r.deviceSessionId = ds && r.userId = u && r.live).toList l l') :
    Sweeping ds u by_ ks d l' := by
  have hev : Evolves (issuing ds u by_ fun _ => False).order d (l'.view d) := by
    apply hu.evolves (fun _ => rfl) _ h.evolves
    intro r hp
    simp only [Bool.and_eq_true, decide_eq_true_eq] at hp
    exact .inr ⟨hp.2, by_, t, ⟨hp.1.1, hp.1.2, rfl⟩, rfl⟩
  refine ⟨⟨hkeeps _ h.lock, hev⟩, ?_⟩
  intro j r hr hrds hru hlive
  rcases hu.cases_one with ⟨hno, hw⟩ | ⟨r₀, hr₀, -, hw⟩
  · rw [Txn.view, hw] at hr
    rcases List.mem_cons.mp (h.left j r hr hrds hru hlive) with rfl | hj
    · have hfalse := hno r hr
      simp [hrds, hru, hlive] at hfalse
    · exact hj
  · have hid : r₀.id = k := token_id hr₀
    have hview : l'.view d = (l.view d).put .deviceAuthToken (r₀.revoke by_ t) := by
      rw [Txn.view, hw]
      rfl
    rw [hview] at hr
    by_cases hj : j = k
    · rw [hj, ← hid, show r₀.id = (r₀.revoke by_ t).id from rfl, get_put_token] at hr
      cases hr
      cases hlive
    · rw [get_put_token_of_ne _ (hid ▸ hj)] at hr
      rcases List.mem_cons.mp (h.left j r hr hrds hru hlive) with rfl | hj'
      · exact absurd rfl hj
      · exact hj'

theorem Sweeping.insert {new : DeviceAuthToken} (h : Sweeping new.deviceSessionId new.userId by_ [] d l)
    (hnew : new.live)
    (habove : ∀ r ∈ l.view d .deviceAuthToken, (r : DeviceAuthToken).id < new.id) :
    Issuing by_ new d (l.write .deviceAuthToken [] new) := by
  have hfresh : (l.view d).get .deviceAuthToken new.id = none :=
    Store.get_eq_none_iff.mpr fun r hr => (habove r hr).ne
  have hpresent : ((l.write .deviceAuthToken [] new).view d).get .deviceAuthToken new.id = some new :=
    get_put_token _ new
  have hbefore : ∀ k (r : DeviceAuthToken), d.get .deviceAuthToken k = some r → k < new.id := by
    intro k r hr
    obtain ⟨r', hr', -⟩ := Scope.token_same h.evolves hr
    have hlt := habove r' (Store.mem_of_get hr')
    rwa [token_id hr'] at hlt
  refine ⟨List.mem_append_right _ h.lock, ⟨_, List.mem_cons_self, rfl, rfl⟩, ?_, hnew, ?_, hpresent, ?_, ?_⟩
  · have hle : (issuing new.deviceSessionId new.userId by_ fun _ => False).Le
        (issuing new.deviceSessionId new.userId by_ (· = new.id)) :=
      ⟨fun _ _ h => h, fun _ h => h.elim, fun _ _ h => h⟩
    apply (Scope.evolves_mono hle h.evolves).write
    change Scope.rel _ .deviceAuthToken ((l.view d).get .deviceAuthToken new.id) (some new)
    rw [hfresh]
    intro r hr
    cases hr
    rfl
  · cases hg : d.get .deviceAuthToken new.id with
    | none => rfl
    | some r => exact absurd (hbefore _ _ hg) (lt_irrefl _)
  · intro k r hr hrds hru hlive
    by_cases hk : k = new.id
    · subst hk
      rw [hpresent] at hr
      cases hr
      rfl
    · have hold : (l.view d).get .deviceAuthToken k = some r := by
        rw [← get_put_token_of_ne (l.view d) hk]
        exact hr
      cases h.left k r hold hrds hru hlive
  · intro k r hr _
    exact hbefore k r hr

theorem Issuing.session {new : DeviceAuthToken} (h : Issuing by_ new d l) {k : ℕ}
    {p : DeviceSession → Bool} {f : DeviceSession → DeviceSession}
    (hu : Updated (S := accounts) (t := .deviceSession) f
      (((l.view d).get .deviceSession k).filter p).toList l l')
    (hid : ∀ s, accounts.id (t := .deviceSession) (f s) = accounts.id (t := .deviceSession) s)
    (hf : ∀ s, (f s).revokedAt = s.revokedAt) : Issuing by_ new d l' := by
  have hev : Evolves (issuing new.deviceSessionId new.userId by_ (· = new.id)).order d (l'.view d) :=
    hu.evolves hid (fun s _ => ⟨f s, rfl, hf s⟩) h.issues.evolves
  have htokens : ∀ j, (l'.view d).get .deviceAuthToken j = (l.view d).get .deviceAuthToken j := by
    intro j
    rcases hu.cases_one with ⟨-, hw⟩ | ⟨s, -, -, hw⟩
    · rw [Txn.view, hw, Txn.view]
    · rw [Txn.view, hw]
      exact Store.get_put_of_ne (S := accounts) (t := .deviceSession) _ _ fun he => by cases he.1
  refine ⟨hu.keeps _ h.lock, ?_, hev, h.issues.live, h.issues.absent, ?_, ?_, h.issues.above⟩
  · obtain ⟨v, hv, hwritten⟩ := h.written
    rw [hu.writes]
    exact ⟨v, List.mem_append_right _ hv, hwritten⟩
  · rw [htokens]
    exact h.issues.present
  · intro j r hr
    rw [htokens] at hr
    exact h.issues.only j r hr

theorem Issuing.needs {lib : Lib} {reqs : Fin n → AuthRequest} {C : Commit accounts n → Prop}
    {d₀ : Db} {i : Fin n} {new : DeviceAuthToken} (h : Issuing by_ new d l) :
    ∀ z, (authLedger lib reqs C d₀).needs ⟨i, d, l.view d⟩ z → z ∈ l.locks := by
  rintro z ⟨k, r, habsent, hr, rfl⟩
  have hrel := h.issues.evolves .deviceAuthToken k
  rw [habsent, hr] at hrel
  have hid : r.id = new.id := hrel r rfl
  have hk : k = new.id := (token_id hr).symm.trans hid
  rw [hk, h.issues.present] at hr
  cases hr
  exact h.lock

end Writes

section Statements
variable {lib : Lib} {reqs : Fin n → AuthRequest} {C : Commit accounts n → Prop} {d₀ : Db}
variable {G : Guard accounts authHost n} {i : Fin n}
variable {sh : Shared accounts authHost} {x : List (Commit accounts n)} {l : Txn accounts}
variable {ds u : ℕ} {by_ : String}

theorem hostCall_safe {a : HostAct} {K : Db → List (Commit accounts n) → Txn accounts → Prop}
    (h : ∀ w y, Seen (ledgerProtocol (authLedger lib reqs C d₀) d₀) i l sh x w y → K w.db y l) :
    Safe (ledgerProtocol (authLedger lib reqs C d₀) d₀) G i
      (.ofOk fun _ sh x l => K sh.db x l) (hostCall a) sh x l := by
  apply Safe.host_logged
  intro w y hs c r s _
  cases r with
  | error e => trivial
  | ok v => exact h w y hs

theorem saveRefreshToken_safe (h : Locked ds u by_ sh.db l) :
    Safe (ledgerProtocol (authLedger lib reqs C d₀) d₀) G i
      (.ofOk fun plain sh _ l => ∃ new : DeviceAuthToken, new.deviceSessionId = ds ∧
        new.userId = u ∧ new.tokenHash = lib.hashToken plain ∧ Issuing by_ new sh.db l)
      (saveRefreshToken lib ds u by_) sh x l := by
  rw [saveRefreshToken]
  apply Safe.bind_ok (hostCall_safe (K := fun d _ l => Locked ds u by_ d l) fun w y hs => h.seen hs)
  intro t sh x l hl
  apply Safe.bind
  apply Safe.mono _ (Safe.updateWhere (I := fun ks sh _ l => Sweeping ds u by_ ks sh.db l) _ _)
  · intro r sh x l hl
    cases r with
    | error e => trivial
    | ok rows =>
    apply Safe.bind_ok (hostCall_safe (K := fun d _ l => Sweeping ds u by_ [] d l) fun w y hs => hl.seen hs)
    intro plain sh x l hl
    apply Safe.bind
    apply Safe.insertRow
    · intro w y hs m hm hfree
      exact ⟨_, rfl, rfl, rfl, (hl.seen hs).insert rfl hm⟩
    · exact fun _ _ _ _ _ _ => trivial
  · intro w y hs
    refine ⟨hl.seen hs, fun k r hr hrds hru hlive => ?_⟩
    have hmem : r ∈ (l.view w.db .deviceAuthToken).filter fun r : DeviceAuthToken =>
        r.deviceSessionId = ds && r.userId = u && r.live := by
      apply List.mem_filter.mpr
      exact ⟨Store.mem_of_get hr, by simp [hrds, hru, hlive]⟩
    exact List.mem_map.mpr ⟨r, hmem, token_id hr⟩
  · intro k ks sh x l hl w y hs l' hu
    exact (hl.seen hs).step hu.keeps hu

theorem linkUserDevice_safe {v : ℕ} (h : Locked ds u by_ sh.db l) :
    Safe (ledgerProtocol (authLedger lib reqs C d₀) d₀) G i
      (.ofOk fun _ sh _ l => Locked ds u by_ sh.db l) (linkUserDevice ds v) sh x l := by
  rw [linkUserDevice]
  apply Safe.bind_ok (hostCall_safe (K := fun d _ l => Locked ds u by_ d l) fun w y hs => h.seen hs)
  intro t sh x l hl
  apply Safe.bind
  apply Safe.mono _ (Safe.updateWhere (I := fun _ sh _ l => Locked ds u by_ sh.db l) _ _)
  · intro r sh x l hl
    cases r with
    | error e => trivial
    | ok rows => exact hl
  · intro w y hs
    exact hl.seen hs
  · intro k ks sh x l hl w y hs l' hu
    have hev := (hl.seen hs).evolves
    exact ⟨hu.keeps _ hl.lock, hu.evolves (fun _ => rfl) (fun _ _ => ⟨_, rfl, rfl⟩) hev⟩

theorem updateDeviceSessionLastActivity_safe {new : DeviceAuthToken} {t : ℕ}
    (h : Issuing by_ new sh.db l) :
    Safe (ledgerProtocol (authLedger lib reqs C d₀) d₀) G i
      (.ofOk fun _ sh _ l => Issuing by_ new sh.db l) (updateDeviceSessionLastActivity ds t) sh x l := by
  rw [updateDeviceSessionLastActivity]
  apply Safe.bind
  apply Safe.mono _ (Safe.updateWhere (I := fun _ sh _ l => Issuing by_ new sh.db l) _ _)
  · intro r sh x l hl
    cases r with
    | error e => trivial
    | ok rows => exact hl
  · intro w y hs
    exact h.seen hs
  · intro k ks sh x l hl w y hs l' hu
    exact (hl.seen hs).session hu (fun _ => rfl) (fun _ => rfl)

end Statements
end Phyllonix.Auth
