import Phyllonix.AccountRoutes
import Phyllonix.RelationalChange

/-!
# Plays of login and refresh

What the statements of the auth handlers end in when a request runs alone. A play draws
texts whose hashes are new. Until its commit it writes device sessions and tokens only.
-/

namespace Phyllonix.Auth
open Relational

/-- A play draws texts that hash to no stored token. -/
def Drawn (lib : Lib) (d : Db) : HostAct → HostChoice → Prop
  | .randomText, .text t => ∀ r ∈ d .deviceAuthToken, (r : DeviceAuthToken).tokenHash ≠ lib.hashToken t
  | .randomText, .proceed => False
  | _, _ => True

/-- Some text can be drawn. -/
def Unexhausted (lib : Lib) (d : Db) : Prop := ∃ t, Drawn lib d .randomText (.text t)

/-- The transaction is open and has written device sessions and tokens only. -/
structure Beside (l : Txn accounts) : Prop where
  isOpen : l.aborted = false
  tables : ∀ v ∈ l.writes, v.tbl = .deviceSession ∨ v.tbl = .deviceAuthToken

/-- No token with a new hash is written yet. -/
structure Reissuing (d : Db) (l : Txn accounts) : Prop extends Beside l where
  hashes : ∀ r ∈ l.view d .deviceAuthToken, ∃ r' ∈ d .deviceAuthToken,
    (r' : DeviceAuthToken).tokenHash = (r : DeviceAuthToken).tokenHash

section Transactions
variable {d : Db} {l : Txn accounts}

theorem Beside.write (h : Beside l) {t : Table} (ht : t = .deviceSession ∨ t = .deviceAuthToken)
    (ks : List IndexKey) (r : t.Row) : Beside (l.write t ks r) := by
  refine ⟨h.isOpen, fun v hv => ?_⟩
  rcases List.mem_cons.mp hv with rfl | hv
  · exact ht
  · exact h.tables v hv

theorem Beside.view (h : Beside l) (d : Db) {t : Table} (hs : t ≠ .deviceSession)
    (ht : t ≠ .deviceAuthToken) : l.view d t = d t := by
  apply applyWrites_of_untouched
  intro v hv he
  rcases h.tables v hv with hv | hv
  · exact hs (he.symm.trans hv)
  · exact ht (he.symm.trans hv)

theorem Reissuing.of_no_writes (ha : l.aborted = false) (hw : l.writes = []) : Reissuing d l := by
  refine ⟨⟨ha, ?_⟩, ?_⟩
  · rw [hw]
    simp
  · rw [Txn.view, hw]
    exact fun r hr => ⟨r, hr, rfl⟩

theorem Reissuing.session (h : Reissuing d l) (ks : List IndexKey) (s : DeviceSession) :
    Reissuing d (l.write .deviceSession ks s) := by
  refine ⟨h.toBeside.write (.inl rfl) ks s, ?_⟩
  intro r hr
  have hsame : (l.write .deviceSession ks s).view d .deviceAuthToken = l.view d .deviceAuthToken :=
    Store.put_of_ne (S := accounts) (t := .deviceSession) (l.view d) s
      (show Table.deviceAuthToken ≠ .deviceSession by decide)
  rw [hsame] at hr
  exact h.hashes r hr

theorem Reissuing.token (h : Reissuing d l) (ks : List IndexKey) {r r' : DeviceAuthToken}
    (hr : r ∈ l.view d .deviceAuthToken) (hhash : r'.tokenHash = r.tokenHash) :
    Reissuing d (l.write .deviceAuthToken ks r') := by
  refine ⟨h.toBeside.write (.inr rfl) ks r', ?_⟩
  intro s hs
  have hput : (l.write .deviceAuthToken ks r').view d .deviceAuthToken =
      putRow (S := accounts) (t := .deviceAuthToken) r' (l.view d .deviceAuthToken) :=
    Store.put_self (S := accounts) (l.view d) .deviceAuthToken r'
  rw [hput] at hs
  rcases mem_putRow.mp hs with ⟨hs, -⟩ | rfl
  · exact h.hashes s hs
  · rw [hhash]
    exact h.hashes r hr

end Transactions

section Plays
variable {lib : Lib} {d : Db} {w : World accounts authHost} {l : Txn accounts}

theorem ends_now {Q : Outcomes accounts authHost ℕ} (h : Q (.ok w.host.clock) w l) :
    Ends (Drawn lib d) Q now w l := by
  apply Ends.host ⟨HostChoice.proceed, trivial, rfl⟩
  intro _ _ c r s _ hstep
  cases c with
  | proceed =>
    cases hstep
    exact h
  | text t => cases hstep

theorem ends_randomText {Q : Outcomes accounts authHost String} (hd : Unexhausted lib d)
    (h : ∀ t, Drawn lib d .randomText (.text t) → Q (.ok t) w l) :
    Ends (Drawn lib d) Q randomText w l := by
  obtain ⟨t, ht⟩ := hd
  apply Ends.host ⟨HostChoice.text t, ht, rfl⟩
  intro _ _ c r s hc hstep
  cases c with
  | proceed => cases hstep
  | text t =>
    cases hstep
    exact h t hc

theorem ends_sign {token : AccessToken} {Q : Outcomes accounts authHost Unit}
    (h : Q (.ok ()) { w with host := { w.host with signed := token :: w.host.signed } } l) :
    Ends (Drawn lib d) Q (hostCall (.sign token)) w l := by
  apply Ends.host ⟨HostChoice.proceed, trivial, rfl⟩
  intro _ _ c r s _ hstep
  cases c with
  | proceed =>
    cases hstep
    exact h
  | text t => cases hstep

theorem linkUserDevice_ends {ds u : ℕ} (h : Reissuing w.db l) :
    Ends (Drawn lib d) (fun r w' l' => r = .ok () ∧ w' = w ∧ Reissuing w.db l')
      (linkUserDevice ds u) w l := by
  rw [linkUserDevice]
  apply Ends.bind
  apply ends_now
  apply Ends.bind
  apply Ends.mono _ (Ends.updateWhere (I := fun l' => Reissuing w.db l') _ _ _ h)
  · rintro r w' l' _ _ ⟨⟨rows, rfl⟩, rfl, hl'⟩
    exact Ends.pure ⟨rfl, rfl, hl'⟩
  · exact fun _ => rfl
  · exact fun l hl => hl.isOpen
  · exact fun l s hl _ _ => hl.session _ _

theorem saveRefreshToken_ends {ds u : ℕ} {by_ : String} (hd : Unexhausted lib w.db)
    (h : Reissuing w.db l) :
    Ends (Drawn lib w.db) (fun r w' l' => (∃ plain, r = .ok plain) ∧ w'.db = w.db ∧
      w'.host = w.host ∧ Beside l') (saveRefreshToken lib ds u by_) w l := by
  rw [saveRefreshToken]
  apply Ends.bind
  apply ends_now
  apply Ends.bind
  apply Ends.mono _ (Ends.updateWhere (I := fun l' => Reissuing w.db l') _ _ _ h)
  rotate_left
  · exact fun _ => rfl
  · exact fun l hl => hl.isOpen
  · exact fun l r hl hr _ => hl.token _ hr rfl
  rintro r w' l' _ _ ⟨⟨rows, rfl⟩, rfl, hl'⟩
  apply Ends.bind
  apply ends_randomText hd
  intro plain hplain
  apply Ends.bind
  apply Ends.insertRow (S := accounts) (t := .deviceAuthToken) hl'.isOpen
  intro _ _
  constructor
  · intro r hr k hk hkr
    obtain ⟨r', hr', hsame⟩ := hl'.hashes r hr
    have hnew : k = .tokenHash (lib.hashToken plain) := List.mem_singleton.mp hk
    have hold : k = .tokenHash (r : DeviceAuthToken).tokenHash := List.mem_singleton.mp hkr
    rw [hnew] at hold
    injection hold with hhash
    exact hplain r' hr' (hsame.trans hhash.symm)
  · exact Ends.pure ⟨⟨plain, rfl⟩, rfl, rfl, hl'.toBeside.write (.inr rfl) _ _⟩

/-- After the commit: users and roles are as before, and the transaction is a new one. -/
structure Settled (w w' : World accounts authHost) (l' : Txn accounts) : Prop where
  users : w'.db .users = w.db .users
  roles : w'.db .userRole = w.db .userRole
  isOpen : l'.aborted = false
  nothing : l'.writes = []

theorem commit_settled {w' : World accounts authHost} (hdb : w'.db = w.db) (h : Beside l) :
    Ends (Drawn lib d) (fun r w'' l'' => r = .ok () ∧ Settled w w'' l'') commit w' l := by
  apply Ends.commit h.isOpen
  intro _ _
  refine ⟨rfl, ?_, ?_, rfl, rfl⟩
  · rw [← hdb]
    exact h.view w'.db (by decide) (by decide)
  · rw [← hdb]
    exact h.view w'.db (by decide) (by decide)

theorem issueLocked_ends {u : ℕ} {ds : DeviceSession} (hd : Unexhausted lib w.db)
    (h : Reissuing w.db l) :
    Ends (Drawn lib w.db) (fun r w' l' => (∃ plain, r = .ok plain) ∧ Settled w w' l')
      (issueLocked lib u ds) w l := by
  have hissue : ∀ l, Reissuing w.db l → Ends (Drawn lib w.db)
      (fun r w' l' => (∃ plain, r = .ok plain) ∧ Settled w w' l') (do
        let refreshToken ← saveRefreshToken lib ds.id u "new_login"
        commit
        pure refreshToken) w l := by
    intro l hl
    apply Ends.bind
    apply (saveRefreshToken_ends hd hl).mono
    rintro r w' l' _ _ ⟨⟨plain, rfl⟩, hdb, -, hl'⟩
    apply Ends.bind
    apply (commit_settled hdb hl').mono
    rintro r w'' l'' _ _ ⟨rfl, hsettled⟩
    exact Ends.pure ⟨⟨plain, rfl⟩, hsettled⟩
  rw [issueLocked]
  split
  · apply Ends.bind
    apply (linkUserDevice_ends h).mono
    rintro r w' l' _ _ ⟨rfl, rfl, hl'⟩
    exact hissue l' hl'
  · exact hissue l h

theorem getUserRoleIds_ends {u : ℕ} (ha : l.aborted = false) :
    Ends (Drawn lib d) (fun r w' l' => (∃ roles, r = .ok roles) ∧ w' = w ∧ l' = l)
      (getUserRoleIds u) w l := by
  rw [getUserRoleIds]
  apply Ends.bind
  apply Ends.select ha
  intro _ _
  exact Ends.pure ⟨⟨_, rfl⟩, rfl, rfl⟩

theorem createAccessToken_ends (hd : Unexhausted lib d) {pid spid : UUID} {roles : List ℕ} {version : ℕ} :
    Ends (Drawn lib d) (fun r _ _ => ∃ token, r = .ok token ∧ token.sub = pid)
      (createAccessToken lib pid roles version spid) w l := by
  rw [createAccessToken]
  apply Ends.bind
  apply ends_now
  apply Ends.bind
  apply ends_randomText hd
  intro jti _
  apply Ends.bind
  apply ends_sign
  exact Ends.pure ⟨_, rfl, rfl⟩

end Plays

/-! ## Login -/

section Login
variable {lib : Lib} {w : World accounts authHost} {l : Txn accounts} {req : LoginRequest}

/-- The user whom a login with this address looks up. -/
structure LooksUp (lib : Lib) (d : Db) (email : String) (u : Users) : Prop where
  mem : u ∈ d .users
  email : u.email = some (lib.lower (strip lib email))
  active : u.deletedAt = none

/-- The password is that of every password credential of the user, and there is one. -/
structure Admits (lib : Lib) (d : Db) (password : String) (u : Users) : Prop where
  some : ∃ c ∈ d .credential, (c : Credential).userId = u.id ∧ c.type = .password
  all : ∀ c ∈ d .credential, (c : Credential).userId = u.id → c.type = .password →
    ∃ hash, c.passwordHash = .some hash ∧ hash ≠ "" ∧ lib.verifyPassword password hash = true

/-- The device session that the text names can be used. -/
structure Usable (lib : Lib) (w : World accounts authHost) (token : String) (ds : DeviceSession) : Prop where
  mem : ds ∈ w.db .deviceSession
  hash : ds.sessionTokenHash = lib.hashToken token
  notRevoked : ds.revokedAt = none
  notExpired : w.host.clock < ds.sessionExpiresAt

theorem view_fresh (d : Db) : ({} : Txn accounts).view d = d := rfl

theorem userByEmail_ends {email : String} :
    Ends (Drawn lib w.db) (fun r w' l' => w' = w ∧ l' = {} ∧ ∀ u, r = .ok u ↔ LooksUp lib w.db email u)
      (userByEmail (lib.lower (strip lib email))) w {} := by
  rw [userByEmail]
  apply Ends.bind
  apply Ends.select rfl
  intro hw _
  rw [view_fresh]
  have hmem : ∀ u, u ∈ (w.db .users).filter (fun u : Users =>
      u.email = some (lib.lower (strip lib email)) && u.deletedAt.isNone) ↔ LooksUp lib w.db email u := by
    intro u
    simp only [List.mem_filter, Bool.and_eq_true, decide_eq_true_eq, Option.isNone_iff_eq_none]
    exact ⟨fun h => ⟨h.1, h.2.1, h.2.2⟩, fun h => ⟨h.mem, h.email, h.active⟩⟩
  generalize hrows : (w.db .users).filter (fun u : Users =>
      u.email = some (lib.lower (strip lib email)) && u.deletedAt.isNone) = rows at hmem
  dsimp only
  cases rows with
  | nil =>
    apply Ends.raise
    refine ⟨rfl, rfl, fun u => ⟨nofun, fun hu => ?_⟩⟩
    cases (hmem u).mpr hu
  | cons v rest =>
    apply Ends.pure
    refine ⟨rfl, rfl, fun u => ⟨?_, fun hu => ?_⟩⟩
    · rintro ⟨⟩
      exact (hmem _).mp List.mem_cons_self
    · have hv := (hmem v).mp List.mem_cons_self
      have hkey : ∀ {u}, LooksUp lib w.db email u →
          IndexKey.email (lib.lower (strip lib email)) ∈ rowKeys (t := .users) u := by
        intro u hu
        simp [rowKeys, hu.email]
      have hsame : v = u := hw.wf.eq_of_key (t := .users) hv.mem hu.mem (hkey hv) (hkey hu)
      rw [hsame]

theorem identifyUser_ends {email password : String} :
    Ends (Drawn lib w.db) (fun r w' l' => w' = w ∧ l' = {} ∧
      (∀ u, r = .ok u → LooksUp lib w.db email u) ∧
      ∀ u, LooksUp lib w.db email u → Admits lib w.db password u → r = .ok u)
      (identifyUser lib email password) w {} := by
  rw [identifyUser]
  apply Ends.bind
  apply userByEmail_ends.mono
  rintro r w' l' _ _ ⟨rfl, rfl, hfound⟩
  cases r with
  | error e => exact ⟨rfl, rfl, nofun, fun u hu _ => by cases (hfound u).mpr hu⟩
  | ok v =>
  have hv := (hfound v).mp rfl
  have hsame : ∀ u, LooksUp lib w'.db email u → u = v := by
    intro u hu
    cases (hfound u).mpr hu
    rfl
  -- a refusal after the user is found is one that its credentials explain
  have hrefused : ¬Admits lib w'.db password v → ∀ u, LooksUp lib w'.db email u →
      ¬Admits lib w'.db password u := by
    intro hno u hu hadmits
    rw [hsame u hu] at hadmits
    exact hno hadmits
  apply Ends.bind
  apply Ends.select rfl
  intro _ _
  rw [view_fresh]
  have hmem : ∀ c, c ∈ (w'.db .credential).filter (fun c : Credential =>
      c.userId = v.id && c.type = .password) ↔
        c ∈ w'.db .credential ∧ (c : Credential).userId = v.id ∧ c.type = .password := by
    simp
  generalize (w'.db .credential).filter (fun c : Credential =>
      c.userId = v.id && c.type = .password) = rows at hmem
  dsimp only
  cases rows with
  | nil =>
    apply Ends.raise
    refine ⟨rfl, rfl, nofun, fun u hu hadmits => ?_⟩
    obtain ⟨c, hc, hcu, htype⟩ := hadmits.some
    rw [hsame u hu] at hcu
    cases (hmem c).mpr ⟨hc, hcu, htype⟩
  | cons c rest =>
    obtain ⟨hc, hcu, htype⟩ := (hmem c).mp List.mem_cons_self
    have hhash : Admits lib w'.db password v → ∃ hash, c.passwordHash = .some hash ∧ hash ≠ "" ∧
        lib.verifyPassword password hash = true := fun hadmits => hadmits.all c hc hcu htype
    dsimp only
    split
    · rename_i hnone
      apply Ends.raise
      refine ⟨rfl, rfl, nofun, fun u hu hadmits => absurd hadmits (hrefused (fun hv => ?_) u hu)⟩
      obtain ⟨hash, hsome, -⟩ := hhash hv
      rw [hnone] at hsome
      cases hsome
    · rename_i hempty
      apply Ends.raise
      refine ⟨rfl, rfl, nofun, fun u hu hadmits => absurd hadmits (hrefused (fun hv => ?_) u hu)⟩
      obtain ⟨hash, hsome, hne, -⟩ := hhash hv
      rw [hempty] at hsome
      cases hsome
      exact hne rfl
    · rename_i hash _ hhash'
      split
      · apply Ends.pure
        refine ⟨rfl, rfl, ?_, fun u hu _ => by rw [hsame u hu]⟩
        rintro u ⟨⟩
        exact hv
      · rename_i hno
        apply Ends.raise
        refine ⟨rfl, rfl, nofun, fun u hu hadmits => absurd hadmits (hrefused (fun hv => ?_) u hu)⟩
        obtain ⟨hash', hsome, -, hverify⟩ := hhash hv
        rw [hhash'] at hsome
        cases hsome
        exact hno hverify

theorem identifyDeviceSession_ends {token : String} :
    Ends (Drawn lib w.db) (fun r w' l' => w' = w ∧ Reissuing w.db l' ∧
      ∀ ds, Usable lib w token ds → r = .ok (some ds)) (identifyDeviceSession lib token) w {} := by
  rw [identifyDeviceSession]
  apply Ends.bind
  apply Ends.lock rfl
  intro hw _
  rw [view_fresh]
  have hone : ∀ ds, Usable lib w token ds → (w.db .deviceSession).filter (fun s : DeviceSession =>
      s.sessionTokenHash = lib.hashToken token) = [ds] := by
    intro ds hds
    apply Store.Wf.filter_key hw.wf (t := .deviceSession) hds.mem (k := .sessionTokenHash (lib.hashToken token))
    · simp [hds.hash]
    · intro s hs
      simp only [decide_eq_true_eq] at hs
      simp [rowKeys, hs]
  generalize (w.db .deviceSession).filter (fun s : DeviceSession =>
      s.sessionTokenHash = lib.hashToken token) = rows at hone
  have hl : ∀ xs : List (Lock accounts), Reissuing w.db (({} : Txn accounts).acquire xs) :=
    fun xs => .of_no_writes rfl rfl
  match rows with
  | [] => exact Ends.pure ⟨rfl, hl _, fun ds hds => by cases hone ds hds⟩
  | [s] => exact Ends.pure ⟨rfl, hl _, fun ds hds => by cases hone ds hds; rfl⟩
  | s :: s' :: rest => exact Ends.raise ⟨rfl, hl _, fun ds hds => by cases hone ds hds⟩

theorem issueAuthTokens_ends {token : String} (hd : Unexhausted lib w.db) :
    Ends (Drawn lib w.db) (fun r _ _ =>
      (∀ access refresh, r = .ok (access, refresh) →
        ∃ u, LooksUp lib w.db req.email u ∧ access.sub = u.publicId) ∧
      ∀ u ds, LooksUp lib w.db req.email u → Admits lib w.db req.password u → Usable lib w token ds →
        ∃ access refresh, r = .ok (access, refresh)) (issueAuthTokens lib req token) w {} := by
  rw [issueAuthTokens]
  apply Ends.bind
  apply identifyUser_ends.mono
  rintro r w' l' _ _ ⟨rfl, rfl, hlooks, hadmits⟩
  cases r with
  | error e =>
    refine ⟨nofun, fun u ds hu ha _ => ?_⟩
    cases hadmits u hu ha
  | ok v =>
  apply Ends.bind
  apply identifyDeviceSession_ends.mono
  rintro r w l _ _ ⟨rfl, hl, husable⟩
  cases r with
  | error e =>
    refine ⟨nofun, fun u ds _ _ hds => ?_⟩
    cases husable ds hds
  | ok o =>
  cases o with
  | none =>
    apply Ends.raise
    refine ⟨nofun, fun u ds _ _ hds => ?_⟩
    cases husable ds hds
  | some ds =>
  have hsame : ∀ {ds'}, Usable lib w token ds' → ds' = ds := by
    intro ds' hds
    cases husable ds' hds
    rfl
  dsimp only
  split
  · rename_i hrevoked
    apply Ends.raise
    refine ⟨nofun, fun u ds' _ _ hds => ?_⟩
    rw [← hsame hds, hds.notRevoked] at hrevoked
    cases hrevoked
  apply Ends.bind
  apply ends_now
  dsimp only
  split
  · rename_i hexpired
    apply Ends.raise
    refine ⟨nofun, fun u ds' _ _ hds => ?_⟩
    rw [← hsame hds] at hexpired
    exact absurd hds.notExpired (not_lt.mpr hexpired)
  apply Ends.bind
  apply (issueLocked_ends hd hl).mono
  rintro r w' l' _ _ ⟨⟨plain, rfl⟩, hsettled⟩
  apply Ends.bind
  apply (getUserRoleIds_ends hsettled.isOpen).mono
  rintro r w'' l'' _ _ ⟨⟨roles, rfl⟩, rfl, rfl⟩
  apply Ends.bind
  apply (createAccessToken_ends hd).mono
  rintro r w' l' _ _ ⟨access, rfl, hsub⟩
  apply Ends.pure
  refine ⟨?_, fun _ _ _ _ _ => ⟨access, plain, rfl⟩⟩
  rintro access' refresh ⟨⟩
  exact ⟨v, hlooks v rfl, hsub⟩

/-- Tokens that an answer holds are those of a user whom the address looks up, and a user
whose password and device session are in order gets tokens. -/
theorem loginUser_ends (hd : Unexhausted lib w.db) :
    Ends (Drawn lib w.db) (fun r _ _ =>
      (∀ access refresh, r = .ok (.tokens access refresh) →
        ∃ u, LooksUp lib w.db req.email u ∧ access.sub = u.publicId) ∧
      ∀ u token ds, req.deviceSessionToken = some token → token ≠ "" →
        LooksUp lib w.db req.email u → Admits lib w.db req.password u → Usable lib w token ds →
          ∃ access refresh, r = .ok (.tokens access refresh)) (loginUser lib req) w {} := by
  rw [loginUser]
  split
  · rename_i hnone
    apply Ends.raise
    refine ⟨nofun, fun u token ds htoken => ?_⟩
    rw [hnone] at htoken
    cases htoken
  · rename_i hempty
    apply Ends.raise
    refine ⟨nofun, fun u token ds htoken hne => ?_⟩
    rw [hempty] at htoken
    cases htoken
    exact absurd rfl hne
  rename_i deviceSession _ hgiven
  have htoken : ∀ {token}, req.deviceSessionToken = some token → token = deviceSession := by
    intro token h
    rw [hgiven] at h
    exact (Option.some.inj h).symm
  apply Ends.bind
  apply (issueAuthTokens_ends hd).mono
  rintro r w' l' _ _ ⟨hsub, hissued⟩
  cases r with
  | error e =>
    refine ⟨nofun, fun u token ds hgiven _ hu ha hds => ?_⟩
    rw [htoken hgiven] at hds
    obtain ⟨access, refresh, hr⟩ := hissued u ds hu ha hds
    cases hr
  | ok tokens =>
    apply Ends.pure
    refine ⟨?_, fun _ _ _ _ _ _ _ _ => ⟨tokens.1, tokens.2, rfl⟩⟩
    rintro access refresh ⟨⟩
    exact hsub _ _ rfl

end Login

/-! ## Refresh -/

section Refresh
variable {lib : Lib} {w : World accounts authHost} {l : Txn accounts} {plain : String}
variable {r : DeviceAuthToken} {ds : DeviceSession}

/-- The token is the one that the text names; it and its device session are in order, and
its user has a role. -/
structure Renewable (lib : Lib) (w : World accounts authHost) (plain : String) (r : DeviceAuthToken)
    (ds : DeviceSession) : Prop where
  mem : r ∈ w.db .deviceAuthToken
  hash : r.tokenHash = lib.hashToken plain
  live : r.revokedAt = none
  left : ∃ t, r.expiresAt = some t ∧ w.host.clock + minutes 1 < t
  session : ds ∈ w.db .deviceSession
  own : ds.id = r.deviceSessionId
  notRevoked : ds.revokedAt = none
  notExpired : w.host.clock < ds.sessionExpiresAt
  hasRole : userClaimRows w.db r.userId ≠ []

theorem Renewable.rows (h : Renewable lib w plain r ds) (hw : w.Ok) :
    (w.db .deviceAuthToken).filter (fun r : DeviceAuthToken => r.tokenHash = lib.hashToken plain) = [r] := by
  apply Store.Wf.filter_key hw.wf (t := .deviceAuthToken) h.mem (k := .tokenHash (lib.hashToken plain))
  · simp [h.hash]
  · intro s hs
    simp only [decide_eq_true_eq] at hs
    simp [rowKeys, hs]

theorem getDeviceAuth_ends (h : Renewable lib w plain r ds) :
    Ends (Drawn lib w.db) (fun res w' l' => w' = w ∧ l' = {} ∧ res = .ok (some r))
      (getDeviceAuth (lib.hashToken plain)) w {} := by
  rw [getDeviceAuth]
  apply Ends.bind
  apply Ends.select rfl
  intro hw _
  rw [view_fresh, h.rows hw]
  exact Ends.pure ⟨rfl, rfl, rfl⟩

theorem getDeviceSessionFields_ends (h : Renewable lib w plain r ds) :
    Ends (Drawn lib w.db) (fun res w' l' => w' = w ∧ l'.aborted = false ∧ l'.writes = [] ∧
      res = .ok (if ds.userId = some r.userId then some ds else none))
      (getDeviceSessionFields r.userId r.deviceSessionId) w {} := by
  rw [getDeviceSessionFields]
  apply Ends.bind
  apply Ends.lock rfl
  intro hw _
  have hget : w.db.get .deviceSession ds.id = some ds := Store.get_of_mem (S := accounts) hw.wf.ids h.session
  have hrows : (w.db .deviceSession).filter (fun s : DeviceSession => s.id = r.deviceSessionId &&
      s.userId = some r.userId) = (if ds.userId = some r.userId then [ds] else []) := by
    have hfilter := Store.filter_id_and (S := accounts) hw.wf.ids .deviceSession ds.id
      fun s : DeviceSession => s.userId = some r.userId
    rw [hget] at hfilter
    rw [← h.own]
    refine Eq.trans hfilter ?_
    split <;> simp [*]
  rw [view_fresh, hrows]
  apply Ends.pure
  refine ⟨rfl, rfl, rfl, ?_⟩
  split <;> rfl

theorem rotateLocked_ends (hd : Unexhausted lib w.db) (hreload : lib.reloaded r r = r)
    (h : Renewable lib w plain r ds) (ha : l.aborted = false) (hl : l.writes = []) :
    Ends (Drawn lib w.db) (fun res w' l' => (∃ plain', res = .ok plain') ∧ Settled w w' l')
      (rotateLocked lib w.host.clock plain r ds) w l := by
  rw [rotateLocked]
  apply Ends.bind
  rw [getLockedDeviceAuth]
  apply Ends.bind
  apply Ends.lock ha
  intro hw _
  have hview : l.view w.db = w.db := Txn.view_of_no_writes hl _
  rw [hview, h.rows hw]
  apply Ends.bind
  apply Ends.pure
  apply Ends.pure
  have hreissuing : Reissuing w.db (l.acquire ([r].map fun r : DeviceAuthToken =>
      (Lock.row .deviceAuthToken (accounts.id (t := .deviceAuthToken) r) : Lock accounts))) :=
    .of_no_writes ha hl
  have hread : (Option.some r).map (fun s : DeviceAuthToken =>
      if s.id = r.id then lib.reloaded r s else s) = some r := by
    simp [hreload]
  rw [hread]
  dsimp only
  obtain ⟨t, ht, hleft⟩ := h.left
  rw [ht]
  split
  · rename_i hrevoked
    simp [h.live] at hrevoked
  dsimp only
  split
  · rename_i hnear
    simp only [minutes] at hleft
    omega
  apply Ends.bind
  apply (saveRefreshToken_ends hd hreissuing).mono
  rintro res w' l' _ _ ⟨⟨plain', rfl⟩, hdb, -, hl'⟩
  apply Ends.bind
  rw [updateDeviceSessionLastActivity]
  apply Ends.bind
  apply Ends.mono _ (Ends.updateWhere (I := Beside) _ _ _ hl')
  rotate_left
  · exact fun _ => rfl
  · exact fun l hl => hl.isOpen
  · exact fun l s hl _ _ => hl.write (.inl rfl) _ _
  rintro res w'' l'' _ _ ⟨⟨rows, rfl⟩, rfl, hl''⟩
  apply Ends.pure
  apply Ends.bind
  apply (commit_settled hdb hl'').mono
  rintro res w₃ l₃ _ _ ⟨rfl, hsettled⟩
  exact Ends.pure ⟨⟨plain', rfl⟩, hsettled⟩

/-- Such a token is renewed when the device session is linked to its user, and refused otherwise. -/
theorem refreshAuth_ends (hne : plain ≠ "") (hd : Unexhausted lib w.db)
    (hreload : lib.reloaded r r = r) (h : Renewable lib w plain r ds) :
    Ends (Drawn lib w.db) (fun res _ _ =>
      (ds.userId = some r.userId → ∃ access refresh, res = .ok (.tokens access refresh)) ∧
      (ds.userId ≠ some r.userId → ∃ e, res = .error e)) (refreshAuth lib (some plain)) w {} := by
  rw [refreshAuth]
  rotate_left
  · exact hne
  apply Ends.bind
  rw [validateRefreshAndUpdateRefresh]
  apply Ends.bind
  apply ends_now
  apply Ends.bind
  apply (getDeviceAuth_ends h).mono
  rintro res w l _ _ ⟨rfl, rfl, rfl⟩
  obtain ⟨t, ht, hleft⟩ := h.left
  dsimp only
  rw [ht]
  dsimp only
  split
  · rename_i hnear
    omega
  split
  · rename_i hrevoked
    simp [h.live] at hrevoked
  apply Ends.bind
  apply (getDeviceSessionFields_ends h).mono
  rintro res w l _ _ ⟨rfl, ha, hl, rfl⟩
  by_cases hlinked : ds.userId = some r.userId
  · rw [if_pos hlinked]
    dsimp only
    split
    · rename_i hrevoked
      simp [h.notRevoked] at hrevoked
    split
    · rename_i hexpired
      exact absurd h.notExpired (not_lt.mpr hexpired)
    apply Ends.bind
    apply (rotateLocked_ends hd hreload h ha hl).mono
    rintro res w' l' _ _ ⟨⟨plain', rfl⟩, hsettled⟩
    apply Ends.bind
    rw [fetchUserClaims]
    apply Ends.bind
    apply Ends.read hsettled.isOpen
    intro _ _
    have hview : l'.view w'.db = w'.db := Txn.view_of_no_writes hsettled.nothing _
    have hrows : userClaimRows w'.db r.userId = userClaimRows w.db r.userId := by
      rw [userClaimRows, userClaimRows, hsettled.users, hsettled.roles]
    rw [hview, hrows]
    cases hclaims : userClaimRows w.db r.userId with
    | nil => exact absurd hclaims h.hasRole
    | cons claim rest =>
      apply Ends.pure
      apply Ends.pure
      apply Ends.bind
      apply (createAccessToken_ends hd).mono
      rintro res w₃ l₃ _ _ ⟨access, rfl, -⟩
      exact Ends.pure ⟨fun _ => ⟨access, plain', rfl⟩, fun hno => absurd hlinked hno⟩
  · rw [if_neg hlinked]
    apply Ends.raise
    exact ⟨fun hyes => absurd hyes hlinked, fun _ => ⟨_, rfl⟩⟩

end Refresh

theorem authRequest_ends {lib : AccountLib} {w : World accounts authHost} (req : AuthRequest)
    {C : HostAct → HostChoice → Prop} {Q : Except (Exn AppErr) AccountReply → Prop}
    (h : Ends C (fun r _ _ => Q (r.map fun a => .api (.answered a))) (req.handler lib.toLib) w {}) :
    Ends C (fun r _ _ => ∃ reply, r = .ok reply ∧ Q reply)
      ((AccountRequest.api (.auth req)).program lib) w {} := by
  rw [AccountRequest.program]
  apply Ends.bind
  rw [ApiRequest.program]
  apply Ends.bind
  apply Ends.session
  apply h.mono
  intro r w' l' _ _ hq
  apply Ends.pure
  apply Ends.pure
  refine ⟨_, rfl, ?_⟩
  cases r <;> exact hq

end Phyllonix.Auth
