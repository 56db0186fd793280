import Phyllonix.RoleConfinement

/-!
# Who comes into an account

A user's account is open to those who know a password of it or a refresh token that is live. While
no request presents one, no interleaving of requests changes the user's credentials, adds a refresh
token for the user, or signs an access token in the user's name.
-/

namespace Phyllonix.Auth
open Relational
variable {n : ℕ}

/-! ## Requests that present nothing -/

/-- The password opens none of the user's credentials. -/
def Unfit (lib : Lib) (d : Db) (user : ℕ) (password : String) : Prop :=
  ∀ c : Credential, c ∈ d .credential → c.userId = user → ∀ hash, c.passwordHash = some hash →
    lib.verifyPassword password hash = false

/-- The request presents neither a password of a user of `K` nor a refresh token of one that is live. -/
structure AccountRequest.Spares (lib : Lib) (d₀ : Db) (K : ℕ → Prop) (req : AccountRequest) : Prop where
  login : ∀ r, req = .api (.auth (.login r)) → ∀ u : Users, u ∈ d₀ .users → K u.id →
    u.email = some (lib.lower (strip lib r.email)) → Unfit lib d₀ u.id r.password
  refresh : ∀ token, req = .api (.auth (.refresh (some token))) → ∀ d : DeviceAuthToken, d ∈ d₀ .deviceAuthToken →
    K d.userId → d.tokenHash = lib.hashToken token → d.live = false
  changePassword : ∀ r, req = .api (.auth (.changePassword r)) → K r.userIdentifier →
    Unfit lib d₀ r.userIdentifier r.currentPassword

/-- The answer hands out no token of a user of `K`. -/
def Answer.Spares (d₀ : Db) (K : ℕ → Prop) : Answer → Prop
  | .tokens access _ => ¬Names d₀ K access.sub
  | .message _ => True

/-! ## What stays -/

/-- Users keep what names them, the users of `K` their credentials; of their tokens there are no new ones, and the
revoked ones stay revoked. -/
def possessionRel (K : ℕ → Prop) : (t : Table) → Option t.Row → Option t.Row → Prop
  | .users, r, r' => ∀ u, r = some u → ∃ u', r' = some u' ∧ u'.publicId = u.publicId ∧ u'.email = u.email
  | .credential, r, r' => r' = r ∨ (∀ c, r = some c → ¬K c.userId) ∧ ∀ c, r' = some c → ¬K c.userId
  | .deviceAuthToken, r, r' => ∀ d', r' = some d' → K d'.userId →
      ∃ d, r = some d ∧ d.userId = d'.userId ∧ d.tokenHash = d'.tokenHash ∧ (d.live = false → d'.live = false)
  | _, _, _ => True

theorem possessionRel_refl (K : ℕ → Prop) (t : Table) (r : Option t.Row) : possessionRel K t r r := by
  cases t with
  | users => exact fun u hu => ⟨u, hu, rfl, rfl⟩
  | credential => exact .inl rfl
  | deviceAuthToken => exact fun d hd _ => ⟨d, hd, rfl, rfl, id⟩
  | _ => trivial

theorem possessionRel_trans (K : ℕ → Prop) {t : Table} {r r' r'' : Option t.Row} (h : possessionRel K t r r')
    (h' : possessionRel K t r' r'') : possessionRel K t r r'' := by
  cases t with
  | users =>
    intro u hu
    obtain ⟨u', hu', hpid, hemail⟩ := h u hu
    obtain ⟨u'', hu'', hpid', hemail'⟩ := h' u' hu'
    exact ⟨u'', hu'', hpid'.trans hpid, hemail'.trans hemail⟩
  | credential =>
    rcases h' with rfl | ⟨hold', hnew⟩
    · exact h
    · rcases h with rfl | ⟨hold, -⟩
      · exact .inr ⟨hold', hnew⟩
      · exact .inr ⟨hold, hnew⟩
  | deviceAuthToken =>
    intro d'' hd'' hK
    obtain ⟨d', hd', huser', hhash', hlive'⟩ := h' d'' hd'' hK
    obtain ⟨d, hd, huser, hhash, hlive⟩ := h d' hd' (huser' ▸ hK)
    exact ⟨d, hd, huser.trans huser', hhash.trans hhash', fun hl => hlive' (hlive hl)⟩
  | _ => trivial

def possessionOrder (K : ℕ → Prop) : RowOrder accounts :=
  ⟨possessionRel K, possessionRel_refl K, possessionRel_trans K⟩

section Stays
variable {K : ℕ → Prop} {d₀ d : Db}

theorem credential_stays (h : Evolves (possessionOrder K) d₀ d) (hd₀ : d₀.Wf) (hd : d.Wf) {c : Credential}
    (hK : K c.userId) : c ∈ d .credential ↔ c ∈ d₀ .credential := by
  constructor
  · intro hc
    have hget : d.get .credential c.id = some c := Store.get_of_mem hd.ids hc
    rcases h .credential c.id with hsame | ⟨-, hnew⟩
    · exact Store.mem_of_get (hsame.symm.trans hget)
    · exact absurd hK (hnew c hget)
  · intro hc
    have hget : d₀.get .credential c.id = some c := Store.get_of_mem hd₀.ids hc
    rcases h .credential c.id with hsame | ⟨hold, -⟩
    · exact Store.mem_of_get (hsame.trans hget)
    · exact absurd hK (hold c hget)

theorem token_was (h : Evolves (possessionOrder K) d₀ d) (hd : d.Wf) {r : DeviceAuthToken}
    (hr : r ∈ d .deviceAuthToken) (hK : K r.userId) : ∃ r₀ : DeviceAuthToken, r₀ ∈ d₀ .deviceAuthToken ∧
      r₀.userId = r.userId ∧ r₀.tokenHash = r.tokenHash ∧ (r₀.live = false → r.live = false) := by
  obtain ⟨r₀, hr₀, hkept⟩ := h .deviceAuthToken r.id r (Store.get_of_mem hd.ids hr) hK
  exact ⟨r₀, Store.mem_of_get hr₀, hkept⟩

/-- What is known of a user that is read: it is named like one of `K` only if it is one, and has the address it had. -/
structure Recognised (d₀ : Db) (K : ℕ → Prop) (u : Users) : Prop where
  named : Names d₀ K u.publicId → K u.id
  email : K u.id → ∃ u₀ : Users, u₀ ∈ d₀ .users ∧ u₀.id = u.id ∧ u₀.email = u.email

theorem recognised_of_mem (h : Evolves (possessionOrder K) d₀ d) (hd : d.Wf) (hK : ∀ k, K k → (d₀.get .users k).isSome)
    {u : Users} (hu : u ∈ d .users) : Recognised d₀ K u where
  named := by
    rintro ⟨k, hk, u₀, hu₀, hpid⟩
    obtain ⟨u', hu', hpid', -⟩ := h .users k u₀ hu₀
    have hkey : IndexKey.publicId u.publicId ∈ rowKeys (t := .users) u := List.mem_cons_self
    have hkey' : IndexKey.publicId u.publicId ∈ rowKeys (t := .users) u' := by
      rw [← hpid, ← hpid']
      exact List.mem_cons_self
    have heq : u = u' := hd.eq_of_key hu (Store.mem_of_get hu') hkey hkey'
    have hid : rowId (t := .users) u' = k := Store.id_of_get hu'
    rw [heq, show u'.id = k from hid]
    exact hk
  email := by
    intro hk
    obtain ⟨u₀, hu₀⟩ := Option.isSome_iff_exists.mp (hK _ hk)
    obtain ⟨u', hu', -, hemail⟩ := h .users u.id u₀ hu₀
    have hget : d.get .users u.id = some u := Store.get_of_mem hd.ids hu
    rw [hget] at hu'
    cases hu'
    exact ⟨u₀, Store.mem_of_get hu₀, Store.id_of_get hu₀, hemail.symm⟩

end Stays

/-! ## The invariant -/

/-- Nothing but what may change has changed, and new access tokens are for others. -/
def possessed (d₀ : Db) (K : ℕ → Prop) (signed₀ : List AccessToken) : Upheld (possessionOrder K) authHost where
  holds sh := Evolves (possessionOrder K) d₀ sh.db ∧ ∀ t ∈ sh.host.signed, t ∈ signed₀ ∨ ¬Names d₀ K t.sub
  later h hd := ⟨h.1.trans hd, h.2⟩
  env _ _ h := h

/-- The action leaves the users of `K` what is theirs, and signs nothing. -/
abbrev Aloof (K : ℕ → Prop) : AuthAction → Prop :=
  fun a => a.Maintains (possessionOrder K) ∧ a.Confined (fun _ => True) ∧ a.Silent

theorem revoke_possession (K : ℕ → Prop) (by_ : String) (t : ℕ) (r : DeviceAuthToken) :
    possessionRel K .deviceAuthToken (some r) (some (r.revoke by_ t)) := by
  intro d hd _
  cases hd
  exact ⟨r, rfl, rfl, rfl, fun _ => rfl⟩

theorem aloof_statements (K : ℕ → Prop) : SessionStatements (Aloof K) fun u => ¬K u where
  read _ := ⟨trivial, trivial, trivial⟩
  lock _ _ := ⟨trivial, trivial, trivial⟩
  now := ⟨trivial, trivial, now_silent⟩
  randomText := ⟨trivial, trivial, randomText_silent⟩
  revoke _ by_ t _ := ⟨fun r _ => revoke_possession K by_ t r, fun _ _ => trivial, trivial⟩
  session _ _ _ := ⟨fun _ _ => trivial, fun _ _ => trivial, trivial⟩
  rehash u p f hf hu huser hp := by
    refine ⟨fun r hr => .inr ⟨fun c hc => ?_, fun c hc => ?_⟩, fun _ _ => trivial, trivial⟩
    · cases hc
      rw [hp r hr]
      exact hu
    · cases hc
      rw [huser r, hp r hr]
      exact hu
  start _ _ _ := ⟨fun _ => trivial, fun _ => trivial, trivial⟩
  issue u mk hmk skip hu huser := by
    refine ⟨fun m d hd hK => ?_, fun _ => trivial, trivial⟩
    cases hd
    exact absurd (huser m ▸ hK) hu
  enrol u mk hmk skip hu huser := by
    refine ⟨fun m => .inr ⟨fun c hc => (by cases hc), fun c hc => ?_⟩, fun _ => trivial, trivial⟩
    cases hc
    rw [huser m]
    exact hu
  commit := ⟨trivial, trivial, trivial⟩

theorem aloof_roles (K : ℕ → Prop) : RoleStatements (Aloof K) where
  toReads := (aloof_statements K).toReads
  change _ _ _ := ⟨fun _ _ => trivial, fun _ _ => trivial, trivial⟩
  add _ _ _ := ⟨fun _ => trivial, fun _ => trivial, trivial⟩
  promote p hf := by
    refine ⟨fun u _ v hv => ?_, fun _ _ => trivial, trivial⟩
    cases hv
    exact ⟨u.promote, rfl, rfl, rfl⟩
  verify token := ⟨trivial, trivial, verify_silent token⟩
  commit := ⟨trivial, trivial, trivial⟩
  rollback := ⟨trivial, trivial, trivial⟩

/-! ## Logins -/

section Programs
variable {lib : AccountLib} {K : ℕ → Prop} {w₀ : World accounts authHost}
variable {G : Guard accounts authHost n} {i : Fin n} {sh : Shared accounts authHost} {x : Unit} {l : Txn accounts}

/-- The users of `K` are those of the start. -/
abbrev Present (K : ℕ → Prop) (d₀ : Db) : Prop := ∀ k, K k → (d₀.get .users k).isSome

/-- The session has changed nothing but what may change. -/
abbrev Watched (K : ℕ → Prop) (d₀ : Db) (sh : Shared accounts authHost) (l : Txn accounts) : Prop :=
  Tracked (possessionOrder K) (fun _ => True) d₀ sh l

theorem watched_view {w : World accounts authHost} {y : Unit} (h : Watched K w₀.db sh l)
    (hs : Seen ((possessed w₀.db K w₀.host.signed).protocol n) i l sh x w y) :
    Evolves (possessionOrder K) w₀.db (l.view w.db) ∧ (l.view w.db).Wf ∧ Watched K w₀.db w.toShared l :=
  ⟨(h.seen hs).later.trans (h.seen hs).view, hs.ok.wf, h.seen hs⟩

theorem createAccessToken_possessed {pid : UUID} (hpid : ¬Names w₀.db K pid) (roles : List ℕ) (v : ℕ) (spid : UUID)
    (h : Watched K w₀.db sh l) :
    Safe ((possessed w₀.db K w₀.host.signed).protocol n) G i (.ofOk fun token _ _ _ => token.sub = pid)
      (createAccessToken lib.toLib pid roles v spid) sh x l := by
  apply Safe.maintained_bind (.call (aloof_statements K).now) h
  intro t sh x l h
  apply Safe.maintained_bind (.call (aloof_statements K).randomText) h
  intro jti sh x l h
  apply Safe.bind
  apply Safe.host
  intro w y hs c r s hstep
  cases c with
  | text t => cases hstep
  | proceed =>
    cases hstep
    refine ⟨⟨hs.inv.1, ?_⟩, .refl _ _, Safe.pure rfl⟩
    intro t ht
    rcases List.mem_cons.mp ht with rfl | ht
    · exact .inr hpid
    · exact hs.inv.2 t ht

theorem userByEmail_possessed (hK : Present K w₀.db) (email : String) (h : Watched K w₀.db sh l) :
    Safe ((possessed w₀.db K w₀.host.signed).protocol n) G i
      (.ofOk fun u sh _ l => Recognised w₀.db K u ∧ u.email = some email ∧ Watched K w₀.db sh l)
      (userByEmail email) sh x l := by
  apply Safe.bind
  apply Safe.read
  · intro w y hs
    obtain ⟨hview, hwf, hwatched⟩ := watched_view h hs
    dsimp only
    generalize hrows : (l.view w.db .users).filter _ = rows
    cases rows with
    | nil => trivial
    | cons u rest =>
      have hu : u ∈ u :: rest := List.mem_cons_self
      rw [← hrows] at hu
      obtain ⟨hmem, hp⟩ := List.mem_filter.mp hu
      rw [Bool.and_eq_true, decide_eq_true_eq] at hp
      exact ⟨recognised_of_mem hview hwf hK hmem, hp.1, hwatched⟩
  · exact fun _ _ _ _ _ _ _ => trivial

/-- A login goes through for others only. -/
theorem identifyUser_possessed (hw₀ : w₀.db.Wf) (hK : Present K w₀.db) {email password : String}
    (hspares : ∀ u : Users, u ∈ w₀.db .users → K u.id → u.email = some (lib.lower (strip lib.toLib email)) →
      Unfit lib.toLib w₀.db u.id password) (h : Watched K w₀.db sh l) :
    Safe ((possessed w₀.db K w₀.host.signed).protocol n) G i
      (.ofOk fun u sh _ l => ¬K u.id ∧ ¬Names w₀.db K u.publicId ∧ Watched K w₀.db sh l)
      (identifyUser lib.toLib email password) sh x l := by
  apply Safe.bind_ok (userByEmail_possessed hK _ h)
  intro user sh x l hr
  obtain ⟨hrecognised, hemail, h⟩ := hr
  apply Safe.bind
  apply Safe.read
  · intro w y hs
    obtain ⟨hview, hwf, hwatched⟩ := watched_view h hs
    dsimp only
    generalize hrows : (l.view w.db .credential).filter _ = rows
    cases rows with
    | nil => trivial
    | cons c rest =>
      have hc : c ∈ c :: rest := List.mem_cons_self
      rw [← hrows] at hc
      obtain ⟨hmem, hp⟩ := List.mem_filter.mp hc
      simp only [Bool.and_eq_true, decide_eq_true_eq] at hp
      have hunfit : K user.id → ∀ hash, c.passwordHash = some hash → lib.verifyPassword password hash = false := by
        intro hk
        obtain ⟨u₀, hu₀, hid, hsame⟩ := hrecognised.email hk
        have hcK : K c.userId := hp.1 ▸ hk
        have hc₀ := (credential_stays hview hw₀ hwf hcK).mp hmem
        exact hspares u₀ hu₀ (hid.symm ▸ hk) (hsame.trans hemail) c hc₀ (hp.1.trans hid.symm)
      dsimp only
      split
      · trivial
      · trivial
      · rename_i hash _ hhash
        split
        · rename_i hverify
          have hother : ¬K user.id := by
            intro hk
            rw [hunfit hk _ hhash] at hverify
            cases hverify
          exact ⟨hother, fun hnames => hother (hrecognised.named hnames), hwatched⟩
        · trivial
  · exact fun _ _ _ _ _ _ _ => trivial

theorem issueAuthTokens_possessed (hw₀ : w₀.db.Wf) (hK : Present K w₀.db) {req : LoginRequest}
    (hspares : ∀ u : Users, u ∈ w₀.db .users → K u.id → u.email = some (lib.lower (strip lib.toLib req.email)) →
      Unfit lib.toLib w₀.db u.id req.password) (deviceSession : String) (h : Watched K w₀.db sh l) :
    Safe ((possessed w₀.db K w₀.host.signed).protocol n) G i (.ofOk fun out _ _ _ => ¬Names w₀.db K out.1.sub)
      (issueAuthTokens lib.toLib req deviceSession) sh x l := by
  have hA := aloof_statements K
  apply Safe.bind_ok (identifyUser_possessed hw₀ hK hspares h)
  intro user sh x l hr
  obtain ⟨hother, hpid, h⟩ := hr
  apply Safe.maintained_bind (identifyDeviceSession_acts hA.toReads _ _) h
  intro o sh x l h
  cases o with
  | none => trivial
  | some ds =>
  dsimp only
  split
  · trivial
  apply Safe.maintained_bind (.call hA.now) h
  intro t sh x l h
  split
  · trivial
  apply Safe.maintained_bind (issueLocked_writes hA _ hother _) h
  intro plain sh x l h
  apply Safe.maintained_bind (getUserRoleIds_acts hA.toReads _) h
  intro roles sh x l h
  apply Safe.bind_ok (createAccessToken_possessed hpid _ _ _ h)
  intro access sh x l hr
  have hsub : access.sub = user.publicId := hr
  exact fun hnames => hpid (hsub ▸ hnames)

/-! ## Refreshes -/

/-- A token that is found is revoked, or of somebody else. -/
theorem getDeviceAuth_possessed {plainToken : String}
    (hspares : ∀ d : DeviceAuthToken, d ∈ w₀.db .deviceAuthToken → K d.userId →
      d.tokenHash = lib.hashToken plainToken → d.live = false) (h : Watched K w₀.db sh l) :
    Safe ((possessed w₀.db K w₀.host.signed).protocol n) G i
      (.ofOk fun o sh _ l => (∀ d : DeviceAuthToken, o = some d → K d.userId → d.live = false) ∧ Watched K w₀.db sh l)
      (getDeviceAuth (lib.hashToken plainToken)) sh x l := by
  apply Safe.bind
  apply Safe.read
  · intro w y hs
    obtain ⟨hview, hwf, hwatched⟩ := watched_view h hs
    dsimp only
    generalize hrows : (l.view w.db .deviceAuthToken).filter _ = rows
    have hfound : ∀ d ∈ rows, K d.userId → d.live = false := by
      intro d hd hk
      rw [← hrows] at hd
      obtain ⟨hmem, hp⟩ := List.mem_filter.mp hd
      rw [decide_eq_true_eq] at hp
      obtain ⟨d₀, hd₀, huser, hhash, hlive⟩ := token_was hview hwf hmem hk
      exact hlive (hspares d₀ hd₀ (huser.symm ▸ hk) (hhash.trans hp))
    rcases rows with _ | ⟨d, _ | ⟨d', rest⟩⟩
    · exact ⟨(fun d hd => by cases hd), hwatched⟩
    · refine ⟨fun d' hd' => ?_, hwatched⟩
      cases hd'
      exact hfound d List.mem_cons_self
    · trivial
  · exact fun _ _ _ _ _ _ _ => trivial

theorem fetchUserClaims_possessed (hK : Present K w₀.db) {k : ℕ} (hk : ¬K k) (h : Watched K w₀.db sh l) :
    Safe ((possessed w₀.db K w₀.host.signed).protocol n) G i
      (.ofOk fun claims sh _ l => ¬Names w₀.db K claims.userPublicId ∧ Watched K w₀.db sh l)
      (fetchUserClaims k) sh x l := by
  apply Safe.bind
  apply Safe.read
  · intro w y hs
    obtain ⟨hview, hwf, hwatched⟩ := watched_view h hs
    dsimp only
    have hrow : ∀ row ∈ userClaimRows (l.view w.db) k, ¬Names w₀.db K row.1.publicId := by
      intro row hrow hnames
      obtain ⟨u, hu, hmem⟩ := List.mem_flatMap.mp hrow
      obtain ⟨g, -, rfl⟩ := List.mem_map.mp hmem
      obtain ⟨humem, huid⟩ := List.mem_filter.mp hu
      rw [decide_eq_true_eq] at huid
      exact hk (huid ▸ (recognised_of_mem hview hwf hK humem).named hnames)
    generalize userClaimRows (l.view w.db) k = rows at hrow
    cases rows with
    | nil => trivial
    | cons row rest => exact ⟨hrow row List.mem_cons_self, hwatched⟩
  · exact fun _ _ _ _ _ _ _ => trivial

theorem validateRefreshAndUpdateRefresh_possessed (hK : Present K w₀.db) {plainToken : String}
    (hspares : ∀ d : DeviceAuthToken, d ∈ w₀.db .deviceAuthToken → K d.userId →
      d.tokenHash = lib.hashToken plainToken → d.live = false) (h : Watched K w₀.db sh l) :
    Safe ((possessed w₀.db K w₀.host.signed).protocol n) G i
      (.ofOk fun out sh _ l => ¬Names w₀.db K out.1.userPublicId ∧ Watched K w₀.db sh l)
      (validateRefreshAndUpdateRefresh lib.toLib plainToken) sh x l := by
  have hA := aloof_statements K
  apply Safe.maintained_bind (.call hA.now) h
  intro t sh x l h
  apply Safe.bind_ok (getDeviceAuth_possessed hspares h)
  intro o sh x l hr
  obtain ⟨hrevoked, h⟩ := hr
  cases o with
  | none => trivial
  | some d =>
  dsimp only
  cases d.expiresAt with
  | none => trivial
  | some expiresAt =>
  dsimp only
  split
  · trivial
  split
  · trivial
  · rename_i hlive
    have hother : ¬K d.userId := by
      intro hk
      have hdead := hrevoked d rfl hk
      rw [DeviceAuthToken.live, Option.isNone_eq_false_iff] at hdead
      exact hlive hdead
    apply Safe.maintained_bind (getDeviceSessionFields_acts hA.toReads _ _) h
    intro o sh x l h
    cases o with
    | none => trivial
    | some ds =>
    dsimp only
    split
    · trivial
    split
    · trivial
    apply Safe.maintained_bind (rotateLocked_writes hA _ _ _ hother _) h
    intro plain sh x l h
    apply Safe.bind_ok (fetchUserClaims_possessed hK hother h)
    intro claims sh x l hr
    exact hr

/-! ## Changes of password -/

theorem getPasswordCredential_possessed (hw₀ : w₀.db.Wf) {k : ℕ} {password : String}
    (hspares : K k → Unfit lib.toLib w₀.db k password) (h : Watched K w₀.db sh l) :
    Safe ((possessed w₀.db K w₀.host.signed).protocol n) G i
      (.ofOk fun o sh _ l => (∀ hash, o = some hash → K k → lib.verifyPassword password hash = false) ∧
        Watched K w₀.db sh l) (getPasswordCredential k) sh x l := by
  apply Safe.bind
  apply Safe.read
  · intro w y hs
    obtain ⟨hview, hwf, hwatched⟩ := watched_view h hs
    dsimp only
    generalize hrows : (l.view w.db .credential).filter _ = rows
    rcases rows with _ | ⟨c, _ | ⟨c', rest⟩⟩
    · trivial
    · have hc : c ∈ [c] := List.mem_cons_self
      rw [← hrows] at hc
      obtain ⟨hmem, hp⟩ := List.mem_filter.mp hc
      simp only [Bool.and_eq_true, decide_eq_true_eq] at hp
      change Safe _ G i _ (if c.revokedAt.isSome then httpException 403 "User password credential revoked"
        else pure c.passwordHash : Py (Option String)) _ _ _
      split
      · trivial
      · refine Safe.pure ⟨fun hash hhash hk => ?_, hwatched⟩
        have hcK : K c.userId := hp.1 ▸ hk
        exact hspares hk c ((credential_stays hview hw₀ hwf hcK).mp hmem) hp.1 hash hhash
    · trivial
  · exact fun _ _ _ _ _ _ _ => trivial

theorem changePassword_possessed (hw₀ : w₀.db.Wf) {req : ChangePasswordRequest}
    (hspares : K req.userIdentifier → Unfit lib.toLib w₀.db req.userIdentifier req.currentPassword)
    (h : Watched K w₀.db sh l) :
    Safe ((possessed w₀.db K w₀.host.signed).protocol n) G i (.ofOk fun answer _ _ _ => answer.Spares w₀.db K)
      (changePassword lib.toLib req) sh x l := by
  have hA := aloof_statements K
  rw [changePassword]
  generalize validatePassword lib.toLib req.newPassword = valid
  dsimp only
  split
  · trivial
  apply Safe.bind_ok (getPasswordCredential_possessed hw₀ hspares h)
  intro o sh x l hr
  obtain ⟨hunfit, h⟩ := hr
  cases o with
  | none => trivial
  | some hash =>
  dsimp only
  split
  · trivial
  · rename_i hverify
    have hother : ¬K req.userIdentifier := by
      intro hk
      rw [hunfit hash rfl hk] at hverify
      exact hverify rfl
    apply Safe.maintained_bind (.call hA.randomText) h
    intro salt sh x l h
    apply Safe.maintained_bind (updatePassword_writes hA hother _) h
    intro updated sh x l h
    split
    · trivial
    · trivial
    · apply Safe.maintained_bind (revokeAllTokensPerUser_writes hA _ _) h
      intro _ sh x l h
      apply Safe.maintained_bind (.call hA.commit) h
      intro _ sh x l h
      trivial

theorem AuthRequest.handler_possessed (hw₀ : w₀.db.Wf) (hK : Present K w₀.db) {req : AuthRequest}
    (hspares : AccountRequest.Spares lib.toLib w₀.db K (.api (.auth req))) (h : Watched K w₀.db sh l) :
    Safe ((possessed w₀.db K w₀.host.signed).protocol n) G i (.ofOk fun answer _ _ _ => answer.Spares w₀.db K)
      (req.handler lib.toLib) sh x l := by
  cases req with
  | login req =>
    simp only [AuthRequest.handler, loginUser]
    split
    · trivial
    · trivial
    apply Safe.bind_ok (issueAuthTokens_possessed hw₀ hK (hspares.login req rfl) _ h)
    intro out sh x l hr
    exact hr
  | refresh refreshToken =>
    simp only [AuthRequest.handler, refreshAuth]
    split
    · trivial
    · trivial
    rename_i plainToken _
    apply Safe.bind_ok (validateRefreshAndUpdateRefresh_possessed hK (hspares.refresh plainToken rfl) h)
    intro out sh x l hr
    apply Safe.bind_ok (createAccessToken_possessed hr.1 _ _ _ hr.2)
    intro access sh x l haccess
    have hsub : access.sub = out.1.userPublicId := haccess
    exact fun hnames => hr.1 (hsub ▸ hnames)
  | changePassword req => exact changePassword_possessed hw₀ (hspares.changePassword req rfl) h

/-! ## The other requests -/

theorem createNGetUser_possessed (hK : Present K w₀.db) (email : String) (h : Watched K w₀.db sh l) :
    Safe ((possessed w₀.db K w₀.host.signed).protocol n) G i
      (.ofOk fun user sh _ l => ¬K user.1 ∧ Watched K w₀.db sh l) (createNGetUser lib email) sh x l := by
  have hA := aloof_statements K
  rw [createNGetUser]
  apply Safe.maintained_bind (.call hA.randomText) h
  intro drawn sh x l h
  have hinsert : (insertOrNothing .users fun m =>
      (⟨m, lib.uuid7 drawn, some email, 0, none⟩ : Users)).Acts (Aloof K) :=
    .call ⟨(fun m u hu => by cases hu), fun _ => trivial, trivial⟩
  have hfresh : Safe ((possessed w₀.db K w₀.host.signed).protocol n) G i
      (.ofOk fun row _ _ _ => ∀ u : Users, row = some u → ¬K u.id)
      (insertOrNothing .users fun m => (⟨m, lib.uuid7 drawn, some email, 0, none⟩ : Users)) sh x l := by
    apply Safe.insert
    · intro w y hs m hm _ u hu hk
      cases hu
      obtain ⟨hview, -, -⟩ := watched_view h hs
      obtain ⟨u₀, hu₀⟩ := Option.isSome_iff_exists.mp (hK m hk)
      obtain ⟨u', hu', -⟩ := hview .users m u₀ hu₀
      have hlt := hm u' (Store.mem_of_get hu')
      rw [Store.id_of_get hu'] at hlt
      exact absurd hlt (lt_irrefl m)
    · intro _ w y hs m _ u hu
      cases hu
    · exact fun _ _ _ _ _ _ => trivial
  apply Safe.bind
  apply (hfresh.and (Safe.maintained hinsert h)).mono
  rintro r sh x l ⟨hr, h⟩
  cases r with
  | error e => trivial
  | ok row =>
  cases row with
  | some user => exact ⟨hr user rfl, h⟩
  | none =>
    apply Safe.maintained_bind (select_acts hA.toReads (t := .users) _) h
    intro res sh x l h
    apply Safe.maintained_bind (oneOrNone_acts _) h
    intro found sh x l h
    split <;> trivial

theorem linkUserRole_aloof (userId : ℕ) : (linkUserRole lib userId).Acts (Aloof K) := by
  rw [linkUserRole]
  apply (select_acts (aloof_statements K).toReads (t := .role) _).bind
  intro res
  apply (oneOrNone_acts _).bind
  intro found
  split
  · trivial
  · trivial
  · apply Prog.Acts.bind (.call ((aloof_roles K).add _ _ true))
    intro row
    trivial

theorem signupUser_possessed (hK : Present K w₀.db) (payload : SignupIn) (h : Watched K w₀.db sh l) :
    Safe ((possessed w₀.db K w₀.host.signed).protocol n) G i (.ofOk fun _ _ _ _ => True)
      (signupUser lib payload) sh x l := by
  have hA := aloof_statements K
  have hcreate : Safe ((possessed w₀.db K w₀.host.signed).protocol n) G i (.ofOk fun _ _ _ _ => True)
      (createSignup lib payload) sh x l := by
    apply Safe.bind_ok (createNGetUser_possessed hK payload.email h)
    intro user sh x l hr
    obtain ⟨hother, h⟩ := hr
    apply Safe.maintained_bind (.call hA.randomText) h
    intro salt sh x l h
    apply Safe.maintained_bind (createCredential_writes hA lib hother _) h
    intro credId sh x l h
    apply Safe.maintained_bind (linkUserRole_aloof _) h
    intro _ sh x l h
    apply Safe.maintained_bind (.call hA.commit) h
    intro _ sh x l h
    trivial
  rw [signupUser, signupValidation]
  cases normalizeEmailAddress lib payload.email with
  | error e => trivial
  | ok normalised =>
    generalize validatePassword lib.toLib payload.password = valid
    dsimp only
    split
    · trivial
    · apply Safe.bind
      apply Safe.pure
      apply Safe.bind
      apply hcreate.mono
      intro r sh x l _
      cases r <;> trivial

theorem AccountRequest.program_possessed (hw₀ : w₀.db.Wf) (hK : Present K w₀.db) {req : AccountRequest}
    (hspares : req.Spares lib.toLib w₀.db K) (h : Watched K w₀.db sh l) :
    Safe ((possessed w₀.db K w₀.host.signed).protocol n) G i
      (.ofOk fun out _ _ _ => ∀ auth answer, req = .api (.auth auth) → out = .ok (.api (.answered answer)) →
        answer.Spares w₀.db K) (req.program lib) sh x l := by
  have hA := aloof_statements K
  have hacts : ∀ {p : Py (Except (Exn AppErr) AccountReply)}, (∀ auth, req ≠ .api (.auth auth)) → p.Acts (Aloof K) →
      Safe ((possessed w₀.db K w₀.host.signed).protocol n) G i
        (.ofOk fun out _ _ _ => ∀ auth answer, req = .api (.auth auth) → out = .ok (.api (.answered answer)) →
          answer.Spares w₀.db K) p sh x l := by
    intro p hne hp
    apply (Safe.maintained hp h).mono
    intro r sh x l _
    cases r with
    | error e => trivial
    | ok out => exact fun auth _ heq => absurd heq (hne auth)
  cases req with
  | api api =>
    cases api with
    | auth req =>
      apply Safe.bind
      apply Safe.bind
      apply Safe.session
      apply (AuthRequest.handler_possessed hw₀ hK hspares h).mono
      intro r sh x l hr w y _ auth answer heq hout
      cases r with
      | error e => cases hout
      | ok answer =>
        cases hout
        exact hr
    | admin req =>
      apply hacts (fun auth heq => by cases heq)
      apply (dispatch_roles (aloof_roles K) lib.toAdminLib req).attempt.bind
      intro r
      trivial
  | sessionInit =>
    exact hacts (fun auth heq => by cases heq) ((sessionInit_writes hA lib).session (aloof_roles K).rollback)
  | signup payload =>
    apply Safe.session
    apply (signupUser_possessed hK payload h).mono
    intro r sh x l _ w y _ auth answer heq
    cases heq
  | logout pid =>
    apply hacts (fun auth heq => by cases heq)
    apply (logout_acts pid).mono
    intro a ha
    cases a with
    | host b =>
      cases b with
      | now => exact hA.now
      | _ => exact ha.elim
    | rollback => exact (aloof_roles K).rollback
    | _ => exact ha.elim

end Programs

/-! ## Runs -/

/-- What the users of `K` keep: their credentials, and only the tokens that they have; nobody else is signed for as
one of them. -/
structure Intact (K : ℕ → Prop) (w : World accounts authHost) (sh : Shared accounts authHost) : Prop where
  credentials : ∀ c : Credential, K c.userId → (c ∈ sh.db .credential ↔ c ∈ w.db .credential)
  tokens : ∀ d : DeviceAuthToken, d ∈ sh.db .deviceAuthToken → K d.userId → ∃ d₀ : DeviceAuthToken,
    d₀ ∈ w.db .deviceAuthToken ∧ d₀.userId = d.userId ∧ d₀.tokenHash = d.tokenHash ∧ (d₀.live = false → d.live = false)
  signed : ∀ t ∈ sh.host.signed, t ∈ w.host.signed ∨ ¬Names w.db K t.sub

/-- In no run of any requests does anybody come into an account without a password of the user or a refresh token of
the user that is live. -/
theorem accounts_intact {lib : AccountLib} {K : ℕ → Prop} {reqs : Fin n → AccountRequest}
    {w : World accounts authHost} (hw : w.Ok) (hK : Present K w.db) (hspares : ∀ i, (reqs i).Spares lib.toLib w.db K)
    {s : Sys accounts authHost n (Except (Exn AppErr) AccountReply)} (h : (accountRequests lib reqs w).Reach s) :
    Intact K w s.world.toShared ∧ ∀ i auth answer, reqs i = .api (.auth auth) →
      s.outcome i = some (.ok (.api (.answered answer))) → answer.Spares w.db K := by
  have hwatched : Watched K w.db w.toShared {} := ⟨.refl _ _, .refl _ _, fun v hv => by cases hv⟩
  have hinv₀ : (possessed w.db K w.host.signed).holds w.toShared := ⟨.refl _ _, fun t ht => .inl ht⟩
  have hstart : (accountRequests lib reqs w).Inv ((possessed w.db K w.host.signed).protocol n)
      (fun _ _ _ _ _ => True) (fun i => .ofOk fun out _ _ _ => ∀ auth answer, reqs i = .api (.auth auth) →
        out = .ok (.api (.answered answer)) → answer.Spares w.db K) () :=
    Sys.inv_start hw hinv₀ fun i => AccountRequest.program_possessed hw.wf hK (hspares i) hwatched
  have hinv := Sys.Run.inv (P := (possessed w.db K w.host.signed).protocol n) h hstart
  refine ⟨⟨fun c hc => ?_, fun d hd hk => ?_, hinv.inv.2⟩, fun i auth answer hreq hout => ?_⟩
  · exact credential_stays hinv.inv.1 hw.wf hinv.ok.world.wf hc
  · exact token_was hinv.inv.1 hinv.ok.world.wf hd hk
  · obtain ⟨sh, y, hsafe, -⟩ := hinv.seen i
    rw [Sys.prog_of_outcome hout] at hsafe
    exact hsafe auth answer hreq rfl

/-! ## A guessed password and an old token -/

/-- User 1 has revoked the only refresh token. -/
def twoAccounts : World accounts authHost where
  db
    | .users => [⟨1, 11, some "v@x", 0, none⟩, ⟨2, 22, some "a@x", 0, none⟩]
    | .credential => [⟨1, 1, .password, "self", some "#Secret1!", 0, none⟩,
        ⟨2, 2, .password, "self", some "#pw", 0, none⟩]
    | .deviceSession => [⟨1, "d1", some 1, 31, none, none, 1000000000⟩, ⟨2, "d2", some 2, 32, none, none, 1000000000⟩]
    | .deviceAuthToken => [⟨1, 1, 1, "old", 0, some 1000000000, some 0, some "password_change", .password⟩]
    | _ => []
  host := ⟨0, []⟩
  seq _ := 9

theorem twoAccounts_ok : twoAccounts.Ok := by
  refine ⟨Store.wf_of_pairwise fun t => ?_, fun t => ?_⟩ <;> cases t <;> decide

/-- User 2 tries to come in as user 1, and then logs in. -/
def guesses : Fin 3 → AccountRequest
  | 0 => .api (.auth (.login ⟨"v@x", "guess", some "d2"⟩))
  | 1 => .api (.auth (.refresh (some "old")))
  | 2 => .api (.auth (.login ⟨"a@x", "pw", some "d2"⟩))

theorem twoAccounts_unfit {k : ℕ} (hk : k = 1) {password : String} (hpassword : password ≠ "Secret1!") :
    Unfit openAccountLib.toLib twoAccounts.db k password := by
  subst hk
  rintro c hc huser hash hhash
  rcases List.mem_cons.mp hc with rfl | hc
  · cases hhash
    refine decide_eq_false fun heq => hpassword ?_
    have hsame : "#" ++ "Secret1!" = "#" ++ password := Eq.trans (by decide) heq
    have hlist := congrArg String.toList hsame
    rw [String.toList_append, String.toList_append] at hlist
    exact (String.toList_inj.mp (List.append_cancel_left hlist)).symm
  · rw [List.mem_singleton.mp hc] at huser
    cases huser

theorem guesses_spare (i : Fin 3) : (guesses i).Spares openAccountLib.toLib twoAccounts.db (· = 1) := by
  have hrevoked : ∀ d : DeviceAuthToken, d ∈ twoAccounts.db .deviceAuthToken → d.live = false := by
    intro d hd
    rw [List.mem_singleton.mp hd]
    rfl
  refine ⟨fun r hr u hu hk hemail => ?_, fun token _ d hd _ _ => hrevoked d hd, fun r hr => ?_⟩
  · rcases i with ⟨_ | _ | _ | k, hi⟩
    · cases hr
      exact twoAccounts_unfit hk (by decide)
    · cases hr
    · cases hr
      exact twoAccounts_unfit hk (by decide)
    · omega
  · rcases i with ⟨_ | _ | _ | k, hi⟩
    · cases hr
    · cases hr
    · cases hr
    · omega

/-- For whom was an access token signed? -/
def signedFor : Option (Except (Exn AppErr) AccountReply) → Option UUID
  | some (.ok (.api (.answered (.tokens access _)))) => some access.sub
  | _ => none

def guessSteps : List (Label authHost 3) :=
  .replicate 3 (.proc 0 .go) ++ [.proc 1 (.host .proceed), .proc 1 .go, .proc 1 .go] ++
    .replicate 3 (.proc 2 .go) ++ [.proc 2 (.host .proceed), .proc 2 (.host .proceed), .proc 2 .go,
      .proc 2 (.host (.text "new"))] ++ .replicate 3 (.proc 2 .go) ++
    [.proc 2 (.host .proceed), .proc 2 (.host (.text "jti")), .proc 2 (.host .proceed), .proc 2 .go]

/-- Both tries are refused. -/
theorem accounts_intact_guesses : ∃ s, (accountRequests openAccountLib guesses twoAccounts).Reach s ∧
    refused 401 (s.outcome 0) = true ∧ refused 403 (s.outcome 1) = true ∧ signedFor (s.outcome 2) = some 22 ∧
    Intact (· = 1) twoAccounts s.world.toShared := by
  have hexec : ((accountRequests openAccountLib guesses twoAccounts).exec (fun _ _ _ _ _ => True) guessSteps).map
      (fun s => (refused 401 (s.outcome 0), refused 403 (s.outcome 1), signedFor (s.outcome 2))) =
        some (true, true, some 22) := by
    decide +kernel
  obtain ⟨s, hs, heq⟩ := Option.map_eq_some_iff.mp hexec
  obtain ⟨h₀, hrest⟩ := Prod.mk.inj heq
  obtain ⟨h₁, h₂⟩ := Prod.mk.inj hrest
  obtain ⟨⟨⟩, hrun⟩ := Sys.run_of_exec History.none () hs
  exact ⟨s, hrun, h₀, h₁, h₂, (accounts_intact twoAccounts_ok (fun k hk => by cases hk; rfl) guesses_spare hrun).1⟩

end Phyllonix.Auth
