import Phyllonix.AuthRoutes
import Phyllonix.RelationalLog

/-!
# What the auth flows commit

A login or a refresh puts one new refresh token in the place of the live ones of its
device session and user. A change of password revokes tokens of its user and sets
the credential. Refresh tokens are only ever added and revoked, and a new one needs
the lock of its device session.
-/

namespace Phyllonix.Auth
open Relational
variable {n : ℕ}

/-! ## Versions of rows -/

/-- What a request may do to rows. -/
structure Scope where
  revokes : DeviceAuthToken → String → Prop
  creates : ℕ → Prop
  sets : ℕ → String → Prop

def Scope.any : Scope := ⟨fun _ _ => True, fun _ => True, fun _ _ => True⟩

/-- A request that issues a token of the device session `ds` and the user `u`. -/
def issuing (ds u : ℕ) (by_ : String) (N : ℕ → Prop) : Scope where
  revokes r b := r.deviceSessionId = ds ∧ r.userId = u ∧ b = by_
  creates := N
  sets _ _ := False

def changing (u : ℕ) (hash : String) : Scope where
  revokes r b := r.userId = u ∧ b = "password_change"
  creates _ := False
  sets v h := v = u ∧ h = hash

namespace Scope
variable {A B : Scope} {d d' : Db}

def rel (A : Scope) : (t : Table) → Option t.Row → Option t.Row → Prop
  | .deviceAuthToken, some r, r' =>
    r' = some r ∨ (r.live ∧ ∃ by_ t, A.revokes r by_ ∧ r' = some (r.revoke by_ t))
  | .deviceAuthToken, none, r' => ∀ r, r' = some r → A.creates r.id
  | .deviceSession, some s, r' => ∃ s', r' = some s' ∧ s'.revokedAt = s.revokedAt
  | .credential, some c, r' => r' = some c ∨ ∃ h t, A.sets c.userId h ∧ c.type = .password ∧
      r' = some { c with passwordHash := some h, updatedAt := t }
  | _, r, r' => r' = r

theorem live_revoke (r : DeviceAuthToken) (by_ : String) (t : ℕ) : (r.revoke by_ t).live = false := rfl

theorem rel_refl (A : Scope) (t : Table) (r : Option t.Row) : A.rel t r r := by
  cases t with
  | deviceAuthToken =>
    cases r with
    | none =>
      intro r hr
      cases hr
    | some r => exact .inl rfl
  | deviceSession =>
    cases r with
    | none => rfl
    | some s => exact ⟨s, rfl, rfl⟩
  | credential =>
    cases r with
    | none => rfl
    | some c => exact .inl rfl
  | _ => rfl

theorem rel_trans {t : Table} {r r' r'' : Option t.Row} (h : A.rel t r r') (h' : A.rel t r' r'') :
    A.rel t r r'' := by
  cases t with
  | deviceAuthToken =>
    cases r with
    | none =>
      intro s hs
      cases r' with
      | none => exact h' s hs
      | some r' =>
        have hcreates := h r' rfl
        rcases h' with rfl | ⟨-, by_, t, -, rfl⟩
        · cases hs
          exact hcreates
        · cases hs
          exact hcreates
    | some r =>
      rcases h with rfl | ⟨hlive, by_, t, hby, rfl⟩
      · exact h'
      · rcases h' with rfl | ⟨hdead, -⟩
        · exact .inr ⟨hlive, by_, t, hby, rfl⟩
        · rw [live_revoke] at hdead
          cases hdead
  | deviceSession =>
    cases r with
    | none =>
      cases h
      exact h'
    | some s =>
      obtain ⟨s', rfl, hs⟩ := h
      obtain ⟨s'', rfl, hs'⟩ := h'
      exact ⟨s'', rfl, hs'.trans hs⟩
  | credential =>
    cases r with
    | none =>
      cases h
      exact h'
    | some c =>
      rcases h with rfl | ⟨h, t, hsets, htype, rfl⟩
      · exact h'
      · rcases h' with rfl | ⟨h₁, t₁, hsets₁, -, rfl⟩
        · exact .inr ⟨h, t, hsets, htype, rfl⟩
        · exact .inr ⟨h₁, t₁, hsets₁, htype, rfl⟩
  | _ => exact Eq.trans h' h

def order (A : Scope) : RowOrder accounts where
  rel := A.rel
  refl := A.rel_refl
  trans := rel_trans

structure Le (A B : Scope) : Prop where
  revokes : ∀ r by_, A.revokes r by_ → B.revokes r by_
  creates : ∀ i, A.creates i → B.creates i
  sets : ∀ u h, A.sets u h → B.sets u h

theorem le_any (A : Scope) : A.Le .any := ⟨fun _ _ _ => trivial, fun _ _ => trivial, fun _ _ _ => trivial⟩

theorem rel_mono (hAB : A.Le B) {t : Table} {r r' : Option t.Row} (h : A.rel t r r') :
    B.rel t r r' := by
  cases t with
  | deviceAuthToken =>
    cases r with
    | none =>
      intro s hs
      exact hAB.creates _ (h s hs)
    | some r =>
      rcases h with rfl | ⟨hlive, by_, t, hby, rfl⟩
      · exact .inl rfl
      · exact .inr ⟨hlive, by_, t, hAB.revokes _ _ hby, rfl⟩
  | credential =>
    cases r with
    | none => exact h
    | some c =>
      rcases h with rfl | ⟨h, t, hsets, htype, rfl⟩
      · exact .inl rfl
      · exact .inr ⟨h, t, hAB.sets _ _ hsets, htype, rfl⟩
  | deviceSession => cases r <;> exact h
  | _ => exact h

theorem evolves_mono (hAB : A.Le B) (h : Evolves A.order d d') : Evolves B.order d d' :=
  fun t i => rel_mono hAB (h t i)

section Reads
variable (h : Evolves A.order d d') {i : ℕ}
include h

theorem token {r : DeviceAuthToken} (hr : d.get .deviceAuthToken i = some r) :
    ∃ r' : DeviceAuthToken, d'.get .deviceAuthToken i = some r' ∧
      (r' = r ∨ (r.live ∧ ∃ by_ t, A.revokes r by_ ∧ r' = r.revoke by_ t)) := by
  have hrel := h .deviceAuthToken i
  rw [hr] at hrel
  rcases hrel with hrel | ⟨hlive, by_, t, hby, hrel⟩
  · exact ⟨r, hrel, .inl rfl⟩
  · exact ⟨_, hrel, .inr ⟨hlive, by_, t, hby, rfl⟩⟩

theorem token_same {r : DeviceAuthToken} (hr : d.get .deviceAuthToken i = some r) :
    ∃ r' : DeviceAuthToken, d'.get .deviceAuthToken i = some r' ∧
      r'.deviceSessionId = r.deviceSessionId ∧ r'.userId = r.userId ∧
      r'.tokenHash = r.tokenHash ∧ (r'.live → r' = r) := by
  obtain ⟨r', hr', rfl | ⟨-, by_, t, -, rfl⟩⟩ := token h hr
  · exact ⟨r', hr', rfl, rfl, rfl, fun _ => rfl⟩
  · refine ⟨_, hr', rfl, rfl, rfl, fun hlive => ?_⟩
    rw [live_revoke] at hlive
    cases hlive

/-- A live token is new, or it was live before. -/
theorem live_before {r : DeviceAuthToken} (hr : d'.get .deviceAuthToken i = some r)
    (hlive : r.live) :
    (d.get .deviceAuthToken i = none ∧ A.creates i) ∨ d.get .deviceAuthToken i = some r := by
  cases hg : d.get .deviceAuthToken i with
  | none =>
    have hrel := h .deviceAuthToken i
    rw [hg, hr] at hrel
    have hi : r.id = i := Store.id_of_get hr
    exact .inl ⟨rfl, hi ▸ hrel r rfl⟩
  | some s =>
    obtain ⟨r', hr', -, -, -, hsame⟩ := token_same h hg
    rw [hr] at hr'
    cases hr'
    exact .inr (congrArg some (hsame hlive).symm)

theorem session_kept {s : DeviceSession} (hs : d.get .deviceSession i = some s) :
    ∃ s' : DeviceSession, d'.get .deviceSession i = some s' ∧ s'.revokedAt = s.revokedAt := by
  have hrel := h .deviceSession i
  rw [hs] at hrel
  exact hrel

end Reads
end Scope

section Tokens
variable {d : Db} {r : DeviceAuthToken} {k : ℕ}

theorem token_id (h : d.get .deviceAuthToken k = some r) : r.id = k := Store.id_of_get h

theorem get_put_token (d : Db) (r : DeviceAuthToken) :
    (d.put .deviceAuthToken r).get .deviceAuthToken r.id = some r :=
  Store.get_put_self (S := accounts) d .deviceAuthToken r

theorem get_put_token_of_ne (d : Db) (h : k ≠ r.id) :
    (d.put .deviceAuthToken r).get .deviceAuthToken k = d.get .deviceAuthToken k :=
  Store.get_put_of_ne (S := accounts) (t := .deviceAuthToken) d r fun he => h he.2

end Tokens

/-! ## Commits of the requests -/

/-- The token `new` takes the place of the live tokens of its device session and user. -/
structure Issues (by_ : String) (new : DeviceAuthToken) (d d' : Db) : Prop where
  evolves : Evolves (issuing new.deviceSessionId new.userId by_ (· = new.id)).order d d'
  live : new.live
  absent : d.get .deviceAuthToken new.id = none
  present : d'.get .deviceAuthToken new.id = some new
  only : ∀ i (r : DeviceAuthToken), d'.get .deviceAuthToken i = some r →
    r.deviceSessionId = new.deviceSessionId → r.userId = new.userId → r.live → r = new
  above : ∀ i (r : DeviceAuthToken), d.get .deviceAuthToken i = some r →
    r.deviceSessionId = new.deviceSessionId → i < new.id

/-- An earlier store of the log held the token `g`. -/
def SeenIn (d₀ : Db) (es : List (Commit accounts n)) (g : DeviceAuthToken) : Prop :=
  ∃ es₀, es₀ <:+ es ∧ (Ledger.lastStore d₀ es₀).get .deviceAuthToken g.id = some g

/-- What the request may commit after the log `es`. -/
def AuthRequest.Commits (lib : Lib) (d₀ : Db) (es : List (Commit accounts n)) (d d' : Db) :
    AuthRequest → Prop
  | .login _ => ∃ new, Issues "new_login" new d d'
  | .refresh none => False
  | .refresh (some plain) => ∃ g new, SeenIn d₀ es g ∧ g.live ∧ g.tokenHash = lib.hashToken plain ∧
      new.deviceSessionId = g.deviceSessionId ∧ new.userId = g.userId ∧ Issues "rotation" new d d'
  | .changePassword req => ∃ hash, Evolves (changing req.userIdentifier hash).order d d'

def authLedger (lib : Lib) (reqs : Fin n → AuthRequest) (C : Commit accounts n → Prop) (d₀ : Db) :
    Ledger accounts n where
  allows es e := (C e ∧ e.after.Wf) ∧ (reqs e.proc).Commits lib d₀ es e.before e.after
  needs e z := ∃ i, ∃ r : DeviceAuthToken, e.before.get .deviceAuthToken i = none ∧
    e.after.get .deviceAuthToken i = some r ∧ z = .row .deviceSession r.deviceSessionId

/-- At most one live token for each device session and user. -/
def OneLive (d : Db) : Prop :=
  ∀ r ∈ d .deviceAuthToken, ∀ r' ∈ d .deviceAuthToken,
    (r : DeviceAuthToken).live → (r' : DeviceAuthToken).live →
    r.deviceSessionId = r'.deviceSessionId → r.userId = r'.userId → r = r'

section Ledger
variable {lib : Lib} {reqs : Fin n → AuthRequest} {C : Commit accounts n → Prop} {d₀ d d' : Db}
variable {es x x' : List (Commit accounts n)} {e : Commit accounts n}

theorem AuthRequest.Commits.evolves {req : AuthRequest} (h : req.Commits lib d₀ es d d') :
    Evolves Scope.any.order d d' := by
  cases req with
  | login req =>
    obtain ⟨new, hi⟩ := h
    exact Scope.evolves_mono (Scope.le_any _) hi.evolves
  | refresh token =>
    cases token with
    | none => exact h.elim
    | some plain =>
      obtain ⟨g, new, -, -, -, -, -, hi⟩ := h
      exact Scope.evolves_mono (Scope.le_any _) hi.evolves
  | changePassword req =>
    obtain ⟨hash, hc⟩ := h
    exact Scope.evolves_mono (Scope.le_any _) hc

theorem logged_wf (hd₀ : d₀.Wf) (h : (authLedger lib reqs C d₀).Logged d₀ x d) : d.Wf := by
  apply h.keeps (I := fun _ d => d.Wf) hd₀
  intro es e _ _ hallows
  exact hallows.1.2

theorem SeenIn.mono {g : DeviceAuthToken} (h : SeenIn d₀ x g) (hx : x <:+ x') : SeenIn d₀ x' g := by
  obtain ⟨es₀, hsuf, hg⟩ := h
  exact ⟨es₀, hsuf.trans hx, hg⟩

theorem later_evolves {p : Commit accounts n → Prop}
    (h : (authLedger lib reqs C d₀).Later p x d x' d') : Evolves Scope.any.order d d' := by
  apply h.keeps (I := fun _ d' => Evolves Scope.any.order d d') (.refl _ _)
  intro es e hbefore _ hallows
  exact hbefore.trans hallows.2.evolves

/-- A token of an earlier store is still there, as it was or revoked. -/
theorem SeenIn.token {g : DeviceAuthToken} (h : SeenIn d₀ x g)
    (hlog : (authLedger lib reqs C d₀).Logged d₀ x d) :
    ∃ r : DeviceAuthToken, d.get .deviceAuthToken g.id = some r ∧
      r.deviceSessionId = g.deviceSessionId ∧ r.userId = g.userId ∧ r.tokenHash = g.tokenHash ∧
      (r.live → r = g) := by
  obtain ⟨es₀, hsuf, hg⟩ := h
  exact Scope.token_same (later_evolves (hlog.later hsuf)) hg

/-- While the lock of a device session is held, nobody adds a token to it. -/
theorem later_locked {m : Txn accounts} {p : Commit accounts n → Prop}
    (hp : ∀ e, p e → ∀ z, (authLedger lib reqs C d₀).needs e z → z ∉ m.locks)
    (h : (authLedger lib reqs C d₀).Later p x d x' d') {ds : ℕ}
    (hds : (Lock.row .deviceSession ds : Lock accounts) ∈ m.locks) {i : ℕ} {r : DeviceAuthToken}
    (hr : d'.get .deviceAuthToken i = some r) (hrds : r.deviceSessionId = ds) :
    ∃ r₀ : DeviceAuthToken, d.get .deviceAuthToken i = some r₀ := by
  have hall : ∀ i (r : DeviceAuthToken), d'.get .deviceAuthToken i = some r →
      r.deviceSessionId = ds → ∃ r₀ : DeviceAuthToken, d.get .deviceAuthToken i = some r₀ := by
    apply h.keeps (I := fun _ (d' : Db) => ∀ i (r : DeviceAuthToken),
      d'.get .deviceAuthToken i = some r → r.deviceSessionId = ds →
        ∃ r₀ : DeviceAuthToken, d.get .deviceAuthToken i = some r₀)
    · intro i r hr _
      exact ⟨r, hr⟩
    · intro es e ih hpe hallows i r hr hrds
      cases hb : e.before.get .deviceAuthToken i with
      | none =>
        have hneeds : (authLedger lib reqs C d₀).needs e (.row .deviceSession ds) :=
          ⟨i, r, hb, hr, by rw [hrds]⟩
        exact absurd hds (hp e hpe _ hneeds)
      | some r₁ =>
        obtain ⟨r₂, hr₂, hsame, -⟩ := Scope.token_same hallows.2.evolves hb
        rw [hr] at hr₂
        cases hr₂
        exact ih i r₁ hb (hsame.symm.trans hrds)
  exact hall i r hr hrds

end Ledger
end Phyllonix.Auth
