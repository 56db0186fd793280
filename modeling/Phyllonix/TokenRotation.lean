import Phyllonix.AuthHandlers

/-!
# Rotation of refresh tokens

Every commit of a request leaves at most one live token for each device session and
user. A login or a refresh with status 200 leaves the token that it returned, and a
refresh leaves the token that it was given revoked. A refresh that reports reuse has
revoked nothing: its writes are rolled back with the session.
-/

namespace Phyllonix.Auth
open Relational
variable {n : ℕ}

/-- The only live token of its device session and user. -/
structure TheLive (r : DeviceAuthToken) (d : Db) : Prop where
  mem : r ∈ d .deviceAuthToken
  live : r.live
  only : ∀ r' ∈ d .deviceAuthToken, (r' : DeviceAuthToken).live →
    r'.deviceSessionId = r.deviceSessionId → r'.userId = r.userId → r' = r

section Steps
variable {lib : Lib} {reqs : Fin n → AuthRequest} {C : Commit accounts n → Prop} {d₀ d d' : Db}
variable {es x : List (Commit accounts n)} {e : Commit accounts n}

theorem Issues.unique {by_ by_' : String} {r r' : DeviceAuthToken} (h : Issues by_ r d d')
    (h' : Issues by_' r' d d') : r = r' := by
  have hrel := h.evolves .deviceAuthToken r'.id
  rw [h'.absent, h'.present] at hrel
  have hid : r'.id = r.id := hrel r' rfl
  have hpresent := h.present
  rw [← hid, h'.present] at hpresent
  exact (Option.some.inj hpresent).symm

theorem Issues.the_live {by_ : String} {r : DeviceAuthToken} (h : Issues by_ r d d') (hd' : d'.Wf) :
    TheLive r d' := by
  refine ⟨Store.mem_of_get h.present, h.live, ?_⟩
  intro r' hr' hlive hds hu
  exact h.only _ r' (Store.get_of_mem hd'.ids hr') hds hu hlive

/-- Where a token is issued, another live token was live before and is of another pair. -/
theorem Issues.live_other {by_ : String} {r r' : DeviceAuthToken} (h : Issues by_ r d d') (hd' : d'.Wf)
    (hr' : r' ∈ d' .deviceAuthToken) (hlive : r'.live) (hne : r' ≠ r) : r' ∈ d .deviceAuthToken := by
  have hget := Store.get_of_mem hd'.ids hr'
  rcases Scope.live_before h.evolves hget hlive with ⟨-, hid⟩ | hbefore
  · have hpresent := h.present
    have hid' : accounts.id (t := .deviceAuthToken) r' = r.id := hid
    rw [← hid', hget] at hpresent
    exact absurd (Option.some.inj hpresent) hne
  · exact Store.mem_of_get hbefore

theorem Issues.one_live {by_ : String} {r : DeviceAuthToken} (h : Issues by_ r d d') (hd' : d'.Wf)
    (hone : OneLive d) : OneLive d' := by
  have hthe := h.the_live hd'
  intro r₁ hr₁ r₂ hr₂ hlive₁ hlive₂ hds hu
  by_cases h₁ : r₁ = r
  · subst h₁
    exact (hthe.only r₂ hr₂ hlive₂ hds.symm hu.symm).symm
  by_cases h₂ : r₂ = r
  · subst h₂
    exact hthe.only r₁ hr₁ hlive₁ hds hu
  exact hone r₁ (h.live_other hd' hr₁ hlive₁ h₁) r₂ (h.live_other hd' hr₂ hlive₂ h₂) hlive₁ hlive₂ hds hu

theorem changing_one_live {u : ℕ} {hash : String} (h : Evolves (changing u hash).order d d')
    (hd' : d'.Wf) (hone : OneLive d) : OneLive d' := by
  have hbefore : ∀ r : DeviceAuthToken, r ∈ d' .deviceAuthToken → r.live → r ∈ d .deviceAuthToken := by
    intro r hr hlive
    rcases Scope.live_before h (Store.get_of_mem hd'.ids hr) hlive with ⟨-, hfalse⟩ | hget
    · exact hfalse.elim
    · exact Store.mem_of_get hget
  intro r hr r' hr' hlive hlive' hds hu
  exact hone r (hbefore r hr hlive) r' (hbefore r' hr' hlive') hlive hlive' hds hu

/-- One commit keeps at most one live token for each pair. -/
theorem one_live_step (hone : OneLive e.before) (h : (authLedger lib reqs C d₀).allows es e) :
    OneLive e.after := by
  obtain ⟨⟨-, hwf⟩, hcommits⟩ := h
  cases hreq : reqs e.proc with
  | login req =>
    rw [hreq] at hcommits
    obtain ⟨new, hissues⟩ := hcommits
    exact hissues.one_live hwf hone
  | refresh token =>
    rw [hreq] at hcommits
    cases token with
    | none => exact hcommits.elim
    | some plain =>
      obtain ⟨g, new, -, -, -, -, -, hissues⟩ := hcommits
      exact hissues.one_live hwf hone
  | changePassword req =>
    rw [hreq] at hcommits
    obtain ⟨hash, hchange⟩ := hcommits
    exact changing_one_live hchange hwf hone

theorem logged_one_live (hone : OneLive d₀) (h : (authLedger lib reqs C d₀).Logged d₀ x d) :
    OneLive d := by
  apply h.keeps (I := fun _ d => OneLive d) hone
  intro es e _ hbefore hallows
  exact one_live_step hbefore hallows

/-- The given token of a refresh is revoked by the commit that issues another one. -/
theorem given_revoked {by_ : String} {g new : DeviceAuthToken} (hseen : SeenIn d₀ es g)
    (hlog : (authLedger lib reqs C d₀).Logged d₀ es d) (h : Issues by_ new d d')
    (hds : new.deviceSessionId = g.deviceSessionId) (hu : new.userId = g.userId) :
    ∃ r : DeviceAuthToken, r ∈ d' .deviceAuthToken ∧ r.tokenHash = g.tokenHash ∧
      r.deviceSessionId = new.deviceSessionId ∧ r.userId = new.userId ∧ r.live = false := by
  obtain ⟨r₁, hr₁, hds₁, hu₁, hhash₁, -⟩ := hseen.token hlog
  obtain ⟨r₂, hr₂, hds₂, hu₂, hhash₂, -⟩ := Scope.token_same h.evolves hr₁
  have hpair : r₂.deviceSessionId = new.deviceSessionId ∧ r₂.userId = new.userId :=
    ⟨hds₂.trans (hds₁.trans hds.symm), hu₂.trans (hu₁.trans hu.symm)⟩
  refine ⟨r₂, Store.mem_of_get hr₂, hhash₂.trans hhash₁, hpair.1, hpair.2, ?_⟩
  by_contra hlive
  have hsame := h.only _ r₂ hr₂ hpair.1 hpair.2 (by simpa using hlive)
  have hid : new.id = g.id := hsame ▸ token_id hr₂
  have habsent := h.absent
  rw [hid, hr₁] at habsent
  cases habsent

end Steps

/-- In every run of logins, refreshes and changes of passwords, each device session and
user has at most one live token, and what a login or a refresh returned was the live
one when it committed, the given one being revoked. -/
theorem rotation_invariant {lib : Lib} {reqs : Fin n → AuthRequest} {w : World accounts authHost}
    (hw : w.Ok) (hone : OneLive w.db)
    {s : Sys accounts authHost n (Except (Exn AppErr) Answer)} {x : List (Commit accounts n)}
    (h : Sys.Run (fun _ _ _ _ _ => True) History.commits (authRequests lib reqs w) [] s x) :
    OneLive s.world.db ∧
      ∀ i access plain, s.outcome i = some (.ok (.tokens access plain)) →
        ∃ e new, Ledger.commitsOf i x = [e] ∧ new.tokenHash = lib.hashToken plain ∧
          TheLive new e.after ∧ ∀ given, reqs i = .refresh (some given) →
            ∃ r ∈ e.after .deviceAuthToken, (r : DeviceAuthToken).tokenHash = lib.hashToken given ∧
              r.deviceSessionId = new.deviceSessionId ∧ r.userId = new.userId ∧ r.live = false := by
  obtain ⟨hlog, hreports⟩ := requests_report hw h.unguarded
  refine ⟨logged_one_live hone hlog, fun i access plain hi => ?_⟩
  obtain ⟨e, new, by_, hown, hissues, hplain⟩ := (hreports i _ hi).rotated access plain rfl
  have hmem : e ∈ Ledger.commitsOf i x := by simp [hown]
  obtain ⟨hx, hproc⟩ := List.mem_filter.mp hmem
  obtain ⟨es, -, ⟨⟨-, hwf⟩, hcommits⟩, hbefore⟩ := hlog.mem hx
  refine ⟨e, new, hown, hplain, hissues.the_live hwf, fun given hgiven => ?_⟩
  have hproc' : e.proc = i := by simpa using hproc
  rw [hproc', hgiven] at hcommits
  obtain ⟨g, new', hseen, -, hhash, hds, hu, hissues'⟩ := hcommits
  obtain rfl := hissues.unique hissues'
  obtain ⟨r, hr, hrhash, hpair⟩ := given_revoked hseen hbefore hissues hds hu
  exact ⟨r, hr, hrhash.trans hhash, hpair⟩

/-! ## One session -/

/-- Hashes are the texts themselves, and a session reads a locked row again. -/
def openLib : Lib where
  hashToken := id
  hashPassword _ plain := plain
  verifyPassword plain hash := plain = hash
  lower := id
  isSpace c := c = ' '
  isLower c := 'a' ≤ c && c ≤ 'z'
  isUpper c := 'A' ≤ c && c ≤ 'Z'
  isDigit c := '0' ≤ c && c ≤ '9'
  accessTokenExpireMinutes := 10
  refreshTokenExpire := 7
  reloaded _ row := row

/-- One user with a password, on one device session with a live token. -/
def oneSession : World accounts authHost where
  db
    | .users => [⟨1, 1, some "a@b", 1, none⟩]
    | .userRole => [⟨1, 1, 1, false⟩]
    | .credential => [⟨1, 1, .password, "self", some "Old1!pwd", 0, none⟩]
    | .deviceSession => [⟨1, "ds", some 1, 1, none, none, days 30⟩]
    | .deviceAuthToken => [⟨1, 1, 1, "rt", 0, some (days 7), none, none, .password⟩]
    | _ => []
  host := ⟨0, []⟩
  seq _ := 2

theorem oneSession_ok : oneSession.Ok :=
  ⟨Store.wf_of_pairwise fun t => by cases t <;> decide, fun t => by cases t <;> decide⟩

/-- The refresh token of an answer. -/
def refreshToken : Option (Except (Exn AppErr) Answer) → Option String
  | some (.ok (.tokens _ plain)) => some plain
  | _ => none

theorem refreshToken_eq {r : Option (Except (Exn AppErr) Answer)} {plain : String}
    (h : refreshToken r = some plain) : ∃ access, r = some (.ok (.tokens access plain)) := by
  rw [refreshToken.eq_def] at h
  split at h
  · cases h
    exact ⟨_, rfl⟩
  · cases h

def oneRefresh : Fin 1 → AuthRequest := fun _ => .refresh (some "rt")

theorem rotation_of_refresh : ∃ s x,
    Sys.Run (fun _ _ _ _ _ => True) History.commits (authRequests openLib oneRefresh oneSession) [] s x ∧
      OneLive s.world.db ∧ ∃ access e new, s.outcome 0 = some (.ok (.tokens access "rt2")) ∧
        Ledger.commitsOf 0 x = [e] ∧ TheLive new e.after := by
  have hexec : ((authRequests openLib oneRefresh oneSession).exec (fun _ _ _ _ _ => True)
      [.proc 0 (.host .proceed), .proc 0 .go, .proc 0 .go, .proc 0 .go, .proc 0 (.host .proceed),
        .proc 0 .go, .proc 0 .go, .proc 0 (.host (.text "rt2")), .proc 0 .go, .proc 0 .go,
        .proc 0 .go, .proc 0 .go, .proc 0 .go, .proc 0 (.host .proceed),
        .proc 0 (.host (.text "jti")), .proc 0 (.host .proceed), .proc 0 .go]).map
      (fun s => refreshToken (s.outcome 0)) =
      some (some "rt2") := by
    decide +kernel
  obtain ⟨s, hs, htoken⟩ := Option.map_eq_some_iff.mp hexec
  obtain ⟨x, hrun⟩ := Sys.run_of_exec History.commits [] hs
  obtain ⟨access, haccess⟩ := refreshToken_eq htoken
  have hone : OneLive oneSession.db := by
    unfold OneLive
    decide
  have hinv := rotation_invariant oneSession_ok hone hrun
  obtain ⟨e, new, hown, -, hlive, -⟩ := hinv.2 0 access "rt2" haccess
  exact ⟨s, x, hrun, hinv.1, access, e, new, haccess, hown, hlive⟩

/-! ## Reuse -/

/-- The device session of the token `plain` is revoked, and so are all its tokens. -/
def ReuseRevoked (lib : Lib) (plain : String) (d : Db) : Prop :=
  ∀ r ∈ d .deviceAuthToken, (r : DeviceAuthToken).tokenHash = lib.hashToken plain →
    (∀ s ∈ d .deviceSession, (s : DeviceSession).id = r.deviceSessionId → s.revokedAt.isSome) ∧
    ∀ r' ∈ d .deviceAuthToken, (r' : DeviceAuthToken).deviceSessionId = r.deviceSessionId →
      r'.live = false

/-- Did the request report reuse? -/
def reportsReuse : Option (Except (Exn AppErr) Answer) → Bool
  | some (.error (.app (.http 403 (.str detail)))) => detail = reuseDetail
  | _ => false

theorem reportsReuse_eq {r : Option (Except (Exn AppErr) Answer)} (h : reportsReuse r = true) :
    r = some (.error reuseDetected) := by
  rw [reportsReuse.eq_def] at h
  split at h
  · simp only [decide_eq_true_eq] at h
    rw [h]
    rfl
  · cases h

def refreshAndChange : Fin 2 → AuthRequest
  | 0 => .refresh (some "rt")
  | 1 => .changePassword ⟨1, "Old1!pwd", "New1!pwd"⟩

/-- A change of password between the two reads of a refresh. -/
def changeInBetween : List (Label authHost 2) :=
  [.proc 0 (.host .proceed), .proc 0 .go,
    .proc 1 .go, .proc 1 (.host (.text "salt")), .proc 1 (.host .proceed), .proc 1 .go, .proc 1 .go,
    .proc 1 (.host .proceed), .proc 1 .go, .proc 1 .go, .proc 1 .go, .proc 1 .go,
    .proc 0 .go, .proc 0 .go, .proc 0 (.host .proceed), .proc 0 .go, .proc 0 .go, .proc 0 .go, .proc 0 .go]

theorem changeInBetween_reuse : ((authRequests openLib refreshAndChange oneSession).exec
    (fun _ _ _ _ _ => True) changeInBetween).map (fun s => reportsReuse (s.outcome 0)) = some true := by
  decide +kernel

end Phyllonix.Auth
