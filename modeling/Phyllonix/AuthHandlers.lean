import Phyllonix.AuthActions
import Phyllonix.AuthRequests

/-!
# The handlers as a whole

What each handler commits and answers: a login or a refresh with status 200 has
made one commit, which issued the token of the answer; a change of password with
status 200 has committed; a refresh that reports reuse has left the device session
as it was.
-/

namespace Phyllonix.Auth
open Relational
variable {n : ℕ}

/-! ## What a request reports -/

/-- The one commit of the program issued the token `plain`. -/
def Rotated (lib : Lib) (i : Fin n) (plain : String) (x : List (Commit accounts n)) : Prop :=
  ∃ e new by_, Ledger.commitsOf i x = [e] ∧ Issues by_ new e.before e.after ∧
    new.tokenHash = lib.hashToken plain

/-- The device session of the token `plain` is not revoked. -/
def Spared (lib : Lib) (plain : String) (d : Db) : Prop :=
  ∃ k, ∃ r : DeviceAuthToken, ∃ s : DeviceSession, d.get .deviceAuthToken k = some r ∧
    r.tokenHash = lib.hashToken plain ∧ d.get .deviceSession r.deviceSessionId = some s ∧
    s.revokedAt = none

/-- The program has made a commit that satisfies `C`. -/
def Committed (C : Commit accounts n → Prop) (d₀ : Db) (i : Fin n) (x : List (Commit accounts n)) :
    Prop :=
  ∃ es e, es <:+ x ∧ Ledger.lastStore d₀ es = e.after ∧ e.proc = i ∧ C e

def reuseDetected : Exn AppErr := .app (.http 403 (.str reuseDetail))

structure Reports (lib : Lib) (C : Commit accounts n → Prop) (d₀ : Db) (i : Fin n)
    (req : AuthRequest) (r : Except (Exn AppErr) Answer) (d : Db) (x : List (Commit accounts n)) :
    Prop where
  rotated : ∀ access plain, r = .ok (.tokens access plain) → Rotated lib i plain x
  spared : ∀ plain, req = .refresh (some plain) → r = .error reuseDetected → Spared lib plain d
  committed : ∀ c text, req = .changePassword c → r = .ok (.message text) → Committed C d₀ i x

section Stable
variable {lib : Lib} {reqs : Fin n → AuthRequest} {C : Commit accounts n → Prop} {d₀ d d' : Db}
variable {i : Fin n} {p : Commit accounts n → Prop} {x x' : List (Commit accounts n)} {plain : String}

theorem Rotated.later (h : Rotated lib i plain x)
    (hx : (authLedger lib reqs C d₀).Later p x d x' d') (hp : ∀ e, p e → e.proc ≠ i) :
    Rotated lib i plain x' := by
  obtain ⟨e, new, by_, hown, hissues⟩ := h
  exact ⟨e, new, by_, (hx.commitsOf hp).trans hown, hissues⟩

theorem Spared.evolves (h : Spared lib plain d) (hd : Evolves Scope.any.order d d') :
    Spared lib plain d' := by
  obtain ⟨k, r, s, hr, hhash, hs, hlive⟩ := h
  obtain ⟨r', hr', hds, -, hhash', -⟩ := Scope.token_same hd hr
  obtain ⟨s', hs', hrevoked⟩ := Scope.session_kept hd hs
  exact ⟨k, r', s', hr', hhash'.trans hhash, hds ▸ hs', hrevoked.trans hlive⟩

theorem Committed.mono (h : Committed C d₀ i x) (hx : x <:+ x') : Committed C d₀ i x' := by
  obtain ⟨es, e, hsuf, he⟩ := h
  exact ⟨es, e, hsuf.trans hx, he⟩

theorem Reports.later {req : AuthRequest} {r : Except (Exn AppErr) Answer}
    (h : Reports lib C d₀ i req r d x) (hx : (authLedger lib reqs C d₀).Later p x d x' d')
    (hp : ∀ e, p e → e.proc ≠ i) : Reports lib C d₀ i req r d' x' :=
  ⟨fun access plain hr => (h.rotated access plain hr).later hx hp,
    fun plain hq hr => (h.spared plain hq hr).evolves (later_evolves hx),
    fun c text hq hr => (h.committed c text hq hr).mono hx.suffix⟩

end Stable

/-! ## Login -/

section Handlers
variable {lib : Lib} {reqs : Fin n → AuthRequest} {C : Commit accounts n → Prop} {d₀ : Db}
variable {i : Fin n}
variable {sh : Shared accounts authHost} {x : List (Commit accounts n)} {l : Txn accounts}

theorem commit_safe {by_ plain : String} {new : DeviceAuthToken} (h : Issuing by_ new sh.db l)
    (hx : Ledger.commitsOf i x = []) (hplain : new.tokenHash = lib.hashToken plain)
    (hreq : ∀ y d d', x <:+ y → Issues by_ new d d' → (reqs i).Commits lib d₀ y d d') :
    Safe (ledgerProtocol (authLedger lib reqs C d₀) d₀) (Guard.commits C) i
      (.ofOk fun _ _ x _ => Rotated lib i plain x) commit sh x l := by
  apply Safe.commit_logged
  · rintro w y hs ⟨c, hc⟩
    have hl := h.seen hs
    have hy : Ledger.commitsOf i y = [] := by
      rw [hs.rely.commitsOf fun e he => he.1]
      exact hx
    refine ⟨⟨⟨⟨hc, hs.ok.wf⟩, hreq y _ _ hs.rely.suffix hl.issues⟩, hl.needs⟩, ?_⟩
    rintro y' (⟨-, hsame⟩ | rfl)
    · have hpresent := hl.issues.present
      rw [hsame, hl.issues.absent] at hpresent
      cases hpresent
    · have hown := Ledger.commitsOf_own i w.db (l.view w.db) y
      rw [hy] at hown
      exact ⟨_, new, by_, hown, hl.issues, hplain⟩
  · exact fun _ _ _ _ _ _ _ => trivial

theorem issueToken_safe {u ds : ℕ} (hreq : ∃ req, reqs i = .login req)
    (h : Locked ds u "new_login" sh.db l) (hx : Ledger.commitsOf i x = []) :
    Safe (ledgerProtocol (authLedger lib reqs C d₀) d₀) (Guard.commits C) i
      (.ofOk fun plain _ x _ => Rotated lib i plain x)
      (do let refreshToken ← saveRefreshToken lib ds u "new_login"; commit; pure refreshToken)
      sh x l := by
  apply Safe.bind
  apply ((saveRefreshToken_safe h).and (Safe.later (saveRefreshToken_acts within_writes _ _ _ _))).mono
  intro r sh x' l hl
  cases r with
  | error e => trivial
  | ok plain =>
  have hx' : Ledger.commitsOf i x' = [] := (hl.2.commitsOf fun _ h => h).trans hx
  obtain ⟨new, -, -, hplain, hissuing⟩ := hl.1
  apply Safe.bind
  apply (commit_safe hissuing hx' hplain _).mono
  · intro r sh x l hr
    cases r with
    | error e => trivial
    | ok _ => exact hr
  · intro y d d' _ hi
    obtain ⟨req, hreq⟩ := hreq
    rw [hreq]
    exact ⟨new, hi⟩

theorem issueLocked_safe {u : ℕ} {ds : DeviceSession} (hreq : ∃ req, reqs i = .login req)
    (h : Locked ds.id u "new_login" sh.db l) (hx : Ledger.commitsOf i x = []) :
    Safe (ledgerProtocol (authLedger lib reqs C d₀) d₀) (Guard.commits C) i
      (.ofOk fun plain _ x _ => Rotated lib i plain x) (issueLocked lib u ds) sh x l := by
  rw [issueLocked]
  split
  · apply Safe.bind
    apply ((linkUserDevice_safe h).and (Safe.later (linkUserDevice_acts within_writes _ _))).mono
    intro r sh x' l hl
    cases r with
    | error e => trivial
    | ok _ => exact issueToken_safe hreq hl.1 ((hl.2.commitsOf fun _ h => h).trans hx)
  · exact issueToken_safe hreq h hx

theorem oneOrNone_safe {α : Type} {P : Protocol accounts authHost n} {G : Guard accounts authHost n}
    {x : P.Val} {rows : List α} {Q : Post P (Option α)}
    (h : ∀ o, (∀ a, o = some a → a ∈ rows) → Q (.ok o) sh x l)
    (he : Q (.error (.app .multipleResultsFound)) sh x l) :
    Safe P G i Q (oneOrNone rows) sh x l := by
  cases rows with
  | nil => exact h none fun a ha => by cases ha
  | cons a rows =>
    cases rows with
    | nil => exact h (some a) fun b hb => by cases hb; exact List.mem_cons_self
    | cons b rows => exact he

theorem selectForUpdate_safe {P : Protocol accounts authHost n} {G : Guard accounts authHost n}
    {x : P.Val} {t : Table} {p : t.Row → Bool}
    {Q : List t.Row → Shared accounts authHost → P.Val → Txn accounts → Prop}
    (h : ∀ w y, Seen P i l sh x w y → ∀ l', l'.writes = l.writes → (∀ z ∈ l.locks, z ∈ l'.locks) →
      (∀ r ∈ (l.view w.db t).filter p, Lock.row t (rowId r) ∈ l'.locks) →
      Q ((l.view w.db t).filter p) w.toShared y l') :
    Safe P G i (.ofOk Q) (selectForUpdate t p) sh x l := by
  apply Safe.lock
  · intro w y hs _
    have hkeeps := fun z (hz : z ∈ l.locks) => List.mem_append_right
      (((l.view w.db t).filter p).map fun r => Lock.row (S := accounts) t (accounts.id r)) hz
    exact h w y hs _ rfl hkeeps fun r hr => List.mem_append_left _ (List.mem_map.mpr ⟨r, hr, rfl⟩)
  · exact fun _ _ _ _ _ _ _ => trivial

theorem identifyDeviceSession_safe {u : ℕ} {by_ token : String} (hl : l.writes = []) :
    Safe (ledgerProtocol (authLedger lib reqs C d₀) d₀) (Guard.commits C) i
      (.ofOk fun o sh _ l => ∀ ds, o = some ds → Locked ds.id u by_ sh.db l)
      (identifyDeviceSession lib token) sh x l := by
  rw [identifyDeviceSession]
  apply Safe.bind
  apply Safe.mono _ (selectForUpdate_safe (Q := fun rows sh _ l => ∀ ds ∈ rows,
    Locked (DeviceSession.id ds) u by_ sh.db l) _)
  · intro r sh x l hr
    cases r with
    | error e => trivial
    | ok rows =>
    apply oneOrNone_safe
    · intro o ho ds hds
      exact hr ds (ho ds hds)
    · trivial
  · intro w y hs l' hw _ hlocks ds hds
    exact .of_no_writes (hw.trans hl) (hlocks ds hds)

theorem issueAuthTokens_safe {req : LoginRequest} {token : String} (hreq : reqs i = .login req)
    (hl : l.writes = []) (hx : Ledger.commitsOf i x = []) :
    Safe (ledgerProtocol (authLedger lib reqs C d₀) d₀) (Guard.commits C) i
      (.ofOk fun r _ x _ => Rotated lib i r.2 x) (issueAuthTokens lib req token) sh x l := by
  have hquiet : ∀ v ∈ l.writes, False := by simp [hl]
  rw [issueAuthTokens]
  apply Safe.bind
  apply (Safe.later_confined (identifyUser_acts quiet_reads _ _ _) hquiet).mono
  intro r sh x₁ l hr
  cases r with
  | error e => trivial
  | ok user =>
  have hx₁ : Ledger.commitsOf i x₁ = [] := (hr.1.commitsOf fun _ h => h).trans hx
  have hl₁ : l.writes = [] := List.eq_nil_iff_forall_not_mem.mpr hr.2
  apply Safe.bind
  apply ((identifyDeviceSession_safe  hl₁).and
    (Safe.later (identifyDeviceSession_acts within_writes.toReads _ _))).mono
  intro r sh x₂ l hr
  cases r with
  | error e => trivial
  | ok o =>
  cases o with
  | none => trivial
  | some ds =>
  have hx₂ : Ledger.commitsOf i x₂ = [] := (hr.2.commitsOf fun _ h => h).trans hx₁
  have hds := hr.1 ds rfl
  dsimp only
  split
  · trivial
  apply Safe.bind
  apply ((hostCall_safe (K := fun d _ l => Locked ds.id user.id "new_login" d l)
    fun w y hs => hds.seen hs).and (Safe.later (.call trivial))).mono
  intro r sh x₃ l hr
  cases r with
  | error e => trivial
  | ok t =>
  have hx₃ : Ledger.commitsOf i x₃ = [] := (hr.2.commitsOf fun _ h => h).trans hx₂
  dsimp only
  split
  · trivial
  apply Safe.bind_ok (issueLocked_safe ⟨req, hreq⟩ hr.1 hx₃)
  intro plain sh x₄ l hr
  apply Safe.bind
  apply (Safe.later (getUserRoleIds_acts within_writes.toReads user.id)).mono
  intro r sh₅ x₅ l hlater
  cases r with
  | error e => trivial
  | ok roles =>
  have hr₅ : Rotated lib i plain x₅ := Rotated.later hr hlater fun _ h => h
  apply Safe.bind
  apply (Safe.later (createAccessToken_acts within_writes.toReads (fun _ => trivial) lib _ _ _ _)).mono
  intro r sh x₆ l hlater
  cases r with
  | error e => trivial
  | ok access => exact hr₅.later hlater fun _ h => h

theorem loginUser_safe {req : LoginRequest} (hreq : reqs i = .login req) (hl : l.writes = [])
    (hx : Ledger.commitsOf i x = []) :
    Safe (ledgerProtocol (authLedger lib reqs C d₀) d₀) (Guard.commits C) i
      (.ofOk fun r _ x _ => ∀ access plain, r = .tokens access plain → Rotated lib i plain x)
      (loginUser lib req) sh x l := by
  rw [loginUser]
  split
  · trivial
  · trivial
  · apply Safe.bind
    apply (issueAuthTokens_safe hreq hl hx).mono
    intro r sh x l hr
    cases r with
    | error e => trivial
    | ok r =>
      intro access plain h
      cases h
      exact hr

/-! ## Refresh -/

theorem getLockedDeviceAuth_safe {ds u : ℕ} {by_ hash : String} {held : DeviceAuthToken}
    (h : Locked ds u by_ sh.db l) :
    Safe (ledgerProtocol (authLedger lib reqs C d₀) d₀) (Guard.commits C) i
      (.ofOk fun _ sh _ l => Locked ds u by_ sh.db l) (getLockedDeviceAuth lib hash held) sh x l := by
  rw [getLockedDeviceAuth]
  apply Safe.bind
  apply Safe.mono _ (selectForUpdate_safe (Q := fun _ sh _ l => Locked ds u by_ sh.db l) _)
  · intro r sh x l hr
    cases r with
    | error e => trivial
    | ok rows =>
    apply Safe.bind
    apply oneOrNone_safe
    · intro o _
      exact hr
    · trivial
  · intro w y hs l' hw hkeeps _
    exact (h.seen hs).keep hw hkeeps

theorem rotateLocked_safe {plain : String} {g : DeviceAuthToken} {ds : DeviceSession} {t : ℕ}
    (hreq : reqs i = .refresh (some plain)) (hseen : SeenIn d₀ x g) (hlive : g.live)
    (hhash : g.tokenHash = lib.hashToken plain) (hds : ds.id = g.deviceSessionId)
    (h : Locked g.deviceSessionId g.userId "rotation" sh.db l) (hx : Ledger.commitsOf i x = []) :
    Safe (ledgerProtocol (authLedger lib reqs C d₀) d₀) (Guard.commits C) i
      (.ofOk fun token _ x _ => Rotated lib i token x) (rotateLocked lib t plain g ds) sh x l := by
  rw [rotateLocked]
  apply Safe.bind
  apply ((getLockedDeviceAuth_safe h).and (Safe.later (getLockedDeviceAuth_acts within_writes.toReads _ _ _))).mono
  intro r sh x₁ l hr
  cases r with
  | error e => trivial
  | ok o =>
  cases o with
  | none => trivial
  | some locked =>
  have hx₁ : Ledger.commitsOf i x₁ = [] := (hr.2.commitsOf fun _ h => h).trans hx
  have hseen₁ : SeenIn d₀ x₁ g := hseen.mono hr.2.suffix
  dsimp only
  split
  · apply Safe.bind
    apply (Safe.later (revokeDeviceAndTokens_acts within_writes _ _)).mono
    intro r sh x l _
    cases r <;> trivial
  split
  · trivial
  split
  · trivial
  apply Safe.bind
  rw [hds]
  apply ((saveRefreshToken_safe hr.1).and (Safe.later (saveRefreshToken_acts within_writes _ _ _ _))).mono
  intro r sh x₂ l hr
  cases r with
  | error e => trivial
  | ok token =>
  obtain ⟨⟨new, hnds, hnu, hnew, hissuing⟩, hlater⟩ := hr
  have hx₂ : Ledger.commitsOf i x₂ = [] := (hlater.commitsOf fun _ h => h).trans hx₁
  have hseen₂ : SeenIn d₀ x₂ g := hseen₁.mono hlater.suffix
  apply Safe.bind
  apply ((updateDeviceSessionLastActivity_safe hissuing).and
    (Safe.later (updateDeviceSessionLastActivity_acts within_writes _ _))).mono
  intro r sh x₃ l hr
  cases r with
  | error e => trivial
  | ok _ =>
  have hx₃ : Ledger.commitsOf i x₃ = [] := (hr.2.commitsOf fun _ h => h).trans hx₂
  have hseen₃ : SeenIn d₀ x₃ g := hseen₂.mono hr.2.suffix
  apply Safe.bind
  apply (commit_safe hr.1 hx₃ hnew _).mono
  · intro r sh x l hr
    cases r with
    | error e => trivial
    | ok _ => exact hr
  · intro y d d' hy hi
    rw [hreq]
    exact ⟨g, new, hseen₃.mono hy, hlive, hhash, hnds, hnu, hi⟩

/-- A value with a property, or an exception that does not report reuse. -/
def Post.calm {P : Protocol accounts authHost n} {α : Type}
    (Q : α → Shared accounts authHost → P.Val → Txn accounts → Prop) : Post P α
  | .ok a, sh, x, l => Q a sh x l
  | .error e, _, _, _ => e ≠ reuseDetected

theorem statementError_calm (e : StatementError authHost) : e.1 ≠ reuseDetected := e.2 _

theorem hostCall_calm {a : HostAct} {K : Db → List (Commit accounts n) → Txn accounts → Prop}
    (h : ∀ w y, Seen (ledgerProtocol (authLedger lib reqs C d₀) d₀) i l sh x w y → K w.db y l) :
    Safe (ledgerProtocol (authLedger lib reqs C d₀) d₀) (Guard.commits C) i
      (Post.calm fun _ sh x l => K sh.db x l) (hostCall a) sh x l := by
  apply Safe.host_logged
  intro w y hs c r s hstep
  have hk := h w y hs
  cases a <;> cases c <;> cases hstep <;> exact hk

theorem createAccessToken_calm {pid spid : UUID} {roles : List ℕ} {version : ℕ} {plain : String}
    (h : Rotated lib i plain x) :
    Safe (ledgerProtocol (authLedger lib reqs C d₀) d₀) (Guard.commits C) i
      (Post.calm fun _ _ x _ => Rotated lib i plain x)
      (createAccessToken lib pid roles version spid) sh x l := by
  rw [createAccessToken]
  apply Safe.bind
  apply (hostCall_calm (K := fun _ x _ => Rotated lib i plain x) fun w y hs =>
    h.later hs.rely fun _ he => he.1).mono
  intro r sh x l hr
  cases r with
  | error e => exact hr
  | ok t =>
  apply Safe.bind
  apply (hostCall_calm (K := fun _ x _ => Rotated lib i plain x) fun w y hs =>
    Rotated.later hr hs.rely fun _ he => he.1).mono
  intro r sh x l hr
  cases r with
  | error e => exact hr
  | ok jti =>
  apply Safe.bind
  apply (hostCall_calm (K := fun _ x _ => Rotated lib i plain x) fun w y hs =>
    Rotated.later hr hs.rely fun _ he => he.1).mono
  intro r sh x l hr
  cases r with
  | error e => exact hr
  | ok _ => exact hr

theorem getDeviceAuth_safe {hash : String} (hl : l.writes = []) :
    Safe (ledgerProtocol (authLedger lib reqs C d₀) d₀) (Guard.commits C) i
      (Post.calm fun o _ x l => l.writes = [] ∧ ∀ g, o = some g → SeenIn d₀ x g ∧ g.tokenHash = hash)
      (getDeviceAuth hash) sh x l := by
  rw [getDeviceAuth]
  apply Safe.bind
  apply Safe.read
  · intro w y hs
    apply oneOrNone_safe
    · intro o ho
      refine ⟨hl, fun g hg => ?_⟩
      obtain ⟨hmem, hp⟩ := List.mem_filter.mp (ho g hg)
      have hview : l.view w.db = w.db := by
        rw [Txn.view, hl]
        rfl
      rw [hview] at hmem
      have hlast : Ledger.lastStore d₀ y = w.db := hs.inv.last
      refine ⟨⟨y, List.suffix_refl _, ?_⟩, by simpa using hp⟩
      rw [hlast]
      exact Store.get_of_mem hs.world.wf.ids hmem
    · intro h
      cases h
  · intro _ w y hs e l' _
    exact statementError_calm e

theorem getDeviceSessionFields_safe {g : DeviceAuthToken} {plain : String} (hl : l.writes = [])
    (hg : SeenIn d₀ x g) (hhash : g.tokenHash = lib.hashToken plain) :
    Safe (ledgerProtocol (authLedger lib reqs C d₀) d₀) (Guard.commits C) i
      (Post.calm fun o sh _ l => ∀ s : DeviceSession, o = some s → s.id = g.deviceSessionId ∧
        Locked g.deviceSessionId g.userId "rotation" sh.db l ∧
        (s.revokedAt = none → Spared lib plain sh.db))
      (getDeviceSessionFields g.userId g.deviceSessionId) sh x l := by
  rw [getDeviceSessionFields]
  apply Safe.bind
  apply Safe.lock
  · intro w y hs _ s hs'
    have hmem := List.mem_of_mem_head? hs'
    obtain ⟨hrow, hp⟩ := List.mem_filter.mp hmem
    have hid : s.id = g.deviceSessionId := by
      simp only [Bool.and_eq_true, decide_eq_true_eq] at hp
      exact hp.1
    have hview : l.view w.db = w.db := by
      rw [Txn.view, hl]
      rfl
    rw [hview] at hrow
    have hget : w.db.get .deviceSession g.deviceSessionId = some s :=
      hid ▸ Store.get_of_mem hs.world.wf.ids hrow
    obtain ⟨r, hr, hds, -, hrhash, -⟩ := (hg.mono hs.rely.suffix).token hs.inv
    refine ⟨hid, ?_, fun hlive => ⟨_, r, s, hr, hrhash.trans hhash, hds ▸ hget, hlive⟩⟩
    have hlock := List.mem_map_of_mem (f := fun r => Lock.row (S := accounts) .deviceSession r.id) hmem
    rw [hid] at hlock
    exact Locked.of_no_writes hl (List.mem_append_left _ hlock)
  · intro _ w y hs e l' _
    exact statementError_calm e

/-- From the lock of the device session on. -/
theorem refreshLocked_safe {plain : String} {g : DeviceAuthToken} {ds : DeviceSession} {t : ℕ}
    (hreq : reqs i = .refresh (some plain)) (hseen : SeenIn d₀ x g) (hlive : g.live)
    (hhash : g.tokenHash = lib.hashToken plain) (hds : ds.id = g.deviceSessionId)
    (h : Locked g.deviceSessionId g.userId "rotation" sh.db l) (hx : Ledger.commitsOf i x = []) :
    Safe (ledgerProtocol (authLedger lib reqs C d₀) d₀) (Guard.commits C) i
      (.ofOk fun r _ x _ => Rotated lib i r.2.2 x)
      (do let refreshPlain ← rotateLocked lib t plain g ds
          let claims ← fetchUserClaims g.userId
          pure (claims, ds.publicId, refreshPlain)) sh x l := by
  apply Safe.bind_ok (rotateLocked_safe hreq hseen hlive hhash hds h hx)
  intro token sh x₁ l hr
  apply Safe.bind
  apply (Safe.later (fetchUserClaims_acts within_writes.toReads g.userId)).mono
  intro r sh' x₂ l hlater
  cases r with
  | error e => trivial
  | ok claims => exact Rotated.later hr hlater fun _ h => h

/-- The answers of a refresh that was given the token `plain`. -/
def RefreshPost {α : Type} (token : α → String) (lib : Lib) (i : Fin n) (plain : String)
    (r : Except (Exn AppErr) α) (sh : Shared accounts authHost) (x : List (Commit accounts n)) : Prop :=
  (∀ a, r = .ok a → Rotated lib i (token a) x) ∧ (r = .error reuseDetected → Spared lib plain sh.db)

theorem RefreshPost.calm {α : Type} {token : α → String} {plain : String} {e : Exn AppErr}
    (he : e ≠ reuseDetected) : RefreshPost token lib i plain (.error e) sh x :=
  ⟨fun a h => (by cases h), fun h => absurd (Except.error.inj h) he⟩

theorem httpException_calm {status : ℕ} {detail : String} (h : detail ≠ reuseDetail) :
    (.app (.http status (.str detail)) : Exn AppErr) ≠ reuseDetected := by
  intro he
  injection he with he
  injection he with _ he
  injection he with he
  exact h he

theorem validateRefresh_safe {plain : String} (hreq : reqs i = .refresh (some plain))
    (hl : l.writes = []) (hx : Ledger.commitsOf i x = []) :
    Safe (ledgerProtocol (authLedger lib reqs C d₀) d₀) (Guard.commits C) i
      (fun r sh x _ => RefreshPost (fun r => r.2.2) lib i plain r sh x)
      (validateRefreshAndUpdateRefresh lib plain) sh x l := by
  rw [validateRefreshAndUpdateRefresh]
  apply Safe.bind
  apply (hostCall_calm (K := fun _ x l => l.writes = [] ∧ Ledger.commitsOf i x = []) fun w y hs =>
    ⟨hl, (hs.rely.commitsOf fun _ he => he.1).trans hx⟩).mono
  intro r sh x₁ l hr
  cases r with
  | error e => exact .calm hr
  | ok t =>
  apply Safe.bind
  apply ((getDeviceAuth_safe hr.1).and (Safe.later (getDeviceAuth_acts within_writes.toReads _))).mono
  intro r sh x₂ l hr₂
  cases r with
  | error e => exact .calm hr₂.1
  | ok o =>
  have hx₂ : Ledger.commitsOf i x₂ = [] := (hr₂.2.commitsOf fun _ h => h).trans hr.2
  obtain ⟨⟨hl₂, hfound⟩, -⟩ := hr₂
  cases o with
  | none => exact .calm (httpException_calm (by decide))
  | some g =>
  obtain ⟨hseen, hhash⟩ := hfound g rfl
  dsimp only
  split
  · exact .calm (by intro h; cases h)
  split
  · exact .calm (httpException_calm (by decide))
  split
  · exact .calm (httpException_calm (by decide))
  rename_i hnot
  have hlive : g.live := by simpa [DeviceAuthToken.live] using hnot
  apply Safe.bind
  apply ((getDeviceSessionFields_safe hl₂ hseen hhash).and
    (Safe.later (getDeviceSessionFields_acts within_writes.toReads _ _))).mono
  intro r sh x₃ l hr₃
  cases r with
  | error e => exact .calm hr₃.1
  | ok o =>
  have hx₃ : Ledger.commitsOf i x₃ = [] := (hr₃.2.commitsOf fun _ h => h).trans hx₂
  cases o with
  | none => exact .calm (httpException_calm (by decide))
  | some ds =>
  obtain ⟨hid, hlock, hspared⟩ := hr₃.1 ds rfl
  dsimp only
  split
  · exact .calm (httpException_calm (by decide))
  rename_i hrevoked
  split
  · exact .calm (httpException_calm (by decide))
  have hnone : ds.revokedAt = none := by simpa using hrevoked
  have htail := refreshLocked_safe (C := C) (t := t) hreq (hseen.mono hr₃.2.suffix) hlive hhash hid hlock hx₃
  apply htail.grows.mono
  intro r sh' x₄ l hr
  refine ⟨fun a ha => ?_, fun _ => (hspared hnone).evolves (later_evolves hr.2)⟩
  subst ha
  exact hr.1

theorem refreshAuth_safe {plain : String} (hreq : reqs i = .refresh (some plain))
    (hl : l.writes = []) (hx : Ledger.commitsOf i x = []) :
    Safe (ledgerProtocol (authLedger lib reqs C d₀) d₀) (Guard.commits C) i
      (fun r sh x _ => (∀ access token, r = .ok (.tokens access token) → Rotated lib i token x) ∧
        (r = .error reuseDetected → Spared lib plain sh.db)) (refreshAuth lib (some plain)) sh x l := by
  by_cases hplain : plain = ""
  · subst hplain
    rw [refreshAuth]
    refine ⟨fun _ _ h => (by cases h), fun h => absurd (Except.error.inj h) ?_⟩
    exact httpException_calm (by decide)
  rw [refreshAuth]
  · apply Safe.bind
    apply (validateRefresh_safe hreq hl hx).mono
    intro r sh x₁ l hr
    cases r with
    | error e => exact ⟨fun _ _ h => (by cases h), fun h => hr.2 (congrArg _ (Except.error.inj h))⟩
    | ok r =>
    apply Safe.bind
    apply (createAccessToken_calm (hr.1 r rfl)).mono
    intro r' sh x₂ l hr'
    cases r' with
    | error e => exact ⟨fun _ _ h => (by cases h), fun h => absurd (Except.error.inj h) hr'⟩
    | ok access =>
      refine ⟨fun access token h => ?_, fun h => (by cases h)⟩
      cases h
      exact hr'
  · exact hplain

/-! ## Change of password -/

theorem updatePassword_safe {u : ℕ} {hash : String} (hl : l.writes = []) :
    Safe (ledgerProtocol (authLedger lib reqs C d₀) d₀) (Guard.commits C) i
      (.ofOk fun _ sh _ l => Evolves (changing u hash).order sh.db (l.view sh.db))
      (updatePassword u hash) sh x l := by
  rw [updatePassword]
  apply Safe.bind
  apply (hostCall_safe (K := fun d _ l => Evolves (changing u hash).order d (l.view d)) _).mono
  · intro r sh x l hr
    cases r with
    | error e => trivial
    | ok t =>
    apply Safe.bind
    apply Safe.mono _ (Safe.updateWhere_evolves (R := (changing u hash).order) _ hr)
    · intro r sh x l hr
      cases r with
      | error e => trivial
      | ok rows =>
      apply Safe.bind
      apply oneOrNone_safe
      · intro o _
        exact hr
      · trivial
    · intro c hp
      simp only [Bool.and_eq_true, decide_eq_true_eq] at hp
      exact .inr ⟨hash, t, ⟨hp.1.1, rfl⟩, hp.1.2, rfl⟩
  · intro w y hs
    rw [Txn.view, hl]
    exact .refl _ _

theorem revokeAllTokensPerUser_safe {u : ℕ} {hash : String}
    (h : Evolves (changing u hash).order sh.db (l.view sh.db)) :
    Safe (ledgerProtocol (authLedger lib reqs C d₀) d₀) (Guard.commits C) i
      (.ofOk fun _ sh _ l => Evolves (changing u hash).order sh.db (l.view sh.db))
      (revokeAllTokensPerUser u "password_change") sh x l := by
  rw [revokeAllTokensPerUser]
  apply Safe.bind
  apply (hostCall_safe (K := fun d _ l => Evolves (changing u hash).order d (l.view d)) fun w y hs =>
    h.still hs.ok hs.still).mono
  intro r sh x l hr
  cases r with
  | error e => trivial
  | ok t =>
  apply Safe.bind
  apply Safe.mono _ (Safe.updateWhere_evolves (R := (changing u hash).order) _ hr)
  · intro r sh x l hr
    cases r with
    | error e => trivial
    | ok rows => exact hr
  · intro r hp
    simp only [Bool.and_eq_true, decide_eq_true_eq] at hp
    exact .inr ⟨hp.2, "password_change", t, ⟨hp.1, rfl⟩, rfl⟩

theorem commit_change {req : ChangePasswordRequest} {hash : String}
    (hreq : reqs i = .changePassword req)
    (h : Evolves (changing req.userIdentifier hash).order sh.db (l.view sh.db)) :
    Safe (ledgerProtocol (authLedger lib reqs C d₀) d₀) (Guard.commits C) i
      (.ofOk fun _ _ x _ => Committed C d₀ i x) commit sh x l := by
  apply Safe.commit_logged
  · rintro w y hs ⟨c, hc⟩
    have hl := h.still hs.ok hs.still
    have hcommits : (reqs i).Commits lib d₀ y w.db (l.view w.db) := by
      rw [hreq]
      exact ⟨hash, hl⟩
    refine ⟨⟨⟨⟨hc, hs.ok.wf⟩, hcommits⟩, ?_⟩, ?_⟩
    · rintro z ⟨k, r, habsent, hr, -⟩
      have hrel := hl .deviceAuthToken k
      rw [habsent, hr] at hrel
      exact (hrel r rfl).elim
    · rintro y' (⟨rfl, hsame⟩ | rfl)
      · have hlast : Ledger.lastStore d₀ y' = w.db := hs.inv.last
        exact ⟨y', _, List.suffix_refl _, hlast.trans hsame.symm, rfl, hc⟩
      · exact ⟨_, _, List.suffix_refl _, rfl, rfl, hc⟩
  · exact fun _ _ _ _ _ _ _ => trivial

theorem changePassword_safe {req : ChangePasswordRequest} (hreq : reqs i = .changePassword req)
    (hl : l.writes = []) :
    Safe (ledgerProtocol (authLedger lib reqs C d₀) d₀) (Guard.commits C) i
      (.ofOk fun a _ x _ => (∃ text, a = .message text) ∧ Committed C d₀ i x)
      (changePassword lib req) sh x l := by
  have hquiet : ∀ v ∈ l.writes, False := by simp [hl]
  rw [changePassword]
  generalize validatePassword lib req.newPassword = valid
  obtain ⟨isValid, detail⟩ := valid
  dsimp only
  split
  · trivial
  apply Safe.bind
  apply (Safe.later_confined (getPasswordCredential_acts quiet_reads _) hquiet).mono
  intro r sh x l hr
  cases r with
  | error e => trivial
  | ok o =>
  cases o with
  | none => trivial
  | some hash =>
  dsimp only
  split
  · trivial
  apply Safe.bind
  apply (Safe.later_confined (.call quiet_reads.randomText) hr.2).mono
  intro r sh x l hr
  cases r with
  | error e => trivial
  | ok salt =>
  apply Safe.bind_ok (updatePassword_safe (List.eq_nil_iff_forall_not_mem.mpr hr.2))
  intro o sh x l hr
  split
  · trivial
  · trivial
  apply Safe.bind_ok (revokeAllTokensPerUser_safe hr)
  intro _ sh x l hr
  apply Safe.bind_ok (commit_change hreq hr)
  intro _ sh x l hr
  exact ⟨⟨_, rfl⟩, hr⟩

/-! ## Runs of the requests -/

theorem handler_reports {req : AuthRequest} (hreq : reqs i = req) (hl : l.writes = [])
    (hx : Ledger.commitsOf i x = []) :
    Safe (ledgerProtocol (authLedger lib reqs C d₀) d₀) (Guard.commits C) i
      (fun r sh x _ => Reports lib C d₀ i req r sh.db x) (req.handler lib) sh x l := by
  cases req with
  | login req =>
    rw [AuthRequest.handler]
    apply (loginUser_safe hreq hl hx).mono
    intro r sh x l hr
    refine ⟨fun access plain h => ?_, fun plain h => (by cases h), fun c text h => (by cases h)⟩
    subst h
    exact hr access plain rfl
  | refresh token =>
    rw [AuthRequest.handler]
    cases token with
    | none =>
      rw [refreshAuth]
      exact ⟨fun access plain h => (by cases h), fun plain h => (by cases h), fun c text h => (by cases h)⟩
    | some plain =>
      apply (refreshAuth_safe hreq hl hx).mono
      intro r sh x l hr
      refine ⟨hr.1, fun plain' h he => ?_, fun c text h => (by cases h)⟩
      cases h
      exact hr.2 he
  | changePassword req =>
    rw [AuthRequest.handler]
    apply (changePassword_safe hreq hl).mono
    intro r sh x l hr
    cases r with
    | error e =>
      exact ⟨fun access plain h => (by cases h), fun plain h => (by cases h), fun c text _ h => (by cases h)⟩
    | ok a =>
      obtain ⟨⟨text, rfl⟩, hcommitted⟩ := hr
      exact ⟨fun access plain h => (by cases h), fun plain h => (by cases h), fun c text _ _ => hcommitted⟩

end Handlers

/-- Every run of the requests is logged, and every answer reports what was committed. -/
theorem requests_report {lib : Lib} {reqs : Fin n → AuthRequest} {C : Commit accounts n → Prop}
    {w : World accounts authHost} (hw : w.Ok)
    {s : Sys accounts authHost n (Except (Exn AppErr) Answer)} {x : List (Commit accounts n)}
    (h : Sys.Run (Guard.commits C) History.commits (authRequests lib reqs w) [] s x) :
    (authLedger lib reqs C w.db).Logged w.db x s.world.db ∧
      ∀ i r, s.outcome i = some r → Reports lib C w.db i (reqs i) r s.world.db x := by
  have hstart : (authRequests lib reqs w).Inv (ledgerProtocol (authLedger lib reqs C w.db) w.db)
      (Guard.commits C) (fun i => .ofOk fun r sh x _ => Reports lib C w.db i (reqs i) r sh.db x) [] := by
    apply Sys.inv_start hw rfl
    intro i
    apply Safe.session
    apply (handler_reports rfl rfl rfl).mono
    intro r sh x l hr w y hs
    exact hr.later hs.rely fun _ he => he.1
  have hinv := Sys.Run.inv (P := ledgerProtocol (authLedger lib reqs C w.db) w.db) h hstart
  refine ⟨hinv.inv, fun i r hr => ?_⟩
  obtain ⟨sh, y, hsafe, hseen⟩ := hinv.seen i
  rw [Sys.prog_of_outcome hr] at hsafe
  exact Reports.later hsafe hseen.rely fun _ he => he.1

end Phyllonix.Auth
