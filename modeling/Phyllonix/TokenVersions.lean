import Phyllonix.AuthActions
import Phyllonix.RelationalUpheld

/-!
# Role versions of access tokens

Role versions grow. A login or a refresh signs the version that it has read, so that
an access token carries a version that its user had at some time before.
-/

namespace Phyllonix.Auth
open Relational
variable {n : ℕ}

/-! ## Versions grow -/

def versionRel : (t : Table) → Option t.Row → Option t.Row → Prop
  | .users, r, r' => ∀ u, r = some u →
      ∃ u', r' = some u' ∧ u'.publicId = u.publicId ∧ u.roleVersion ≤ u'.roleVersion
  | _, _, _ => True

theorem versionRel_of_ne {t : Table} (ht : t ≠ .users) (r r' : Option t.Row) : versionRel t r r' := by
  cases t with
  | users => exact absurd rfl ht
  | _ => trivial

theorem versionRel_promote (u : Users) : versionRel .users (some u) (some u.promote) := by
  intro v hv
  cases hv
  exact ⟨u.promote, rfl, rfl, Nat.le_succ _⟩

def versionOrder : RowOrder accounts where
  rel := versionRel
  refl t r := by
    cases t with
    | users => exact fun u hu => ⟨u, hu, rfl, le_rfl⟩
    | _ => trivial
  trans {t r r' r''} h h' := by
    cases t with
    | users =>
      intro u hu
      obtain ⟨u', hu', hpid, hle⟩ := h u hu
      obtain ⟨u'', hu'', hpid', hle'⟩ := h' u' hu'
      exact ⟨u'', hu'', hpid'.trans hpid, hle.trans hle'⟩
    | _ => trivial

/-- The user with the public identifier has the version, or a later one. -/
def Reaches (pid : UUID) (v : ℕ) (d : Db) : Prop :=
  ∃ k, ∃ u : Users, d.get .users k = some u ∧ u.publicId = pid ∧ v ≤ u.roleVersion

section Versions
variable {pid : UUID} {v : ℕ} {d d' : Db}

theorem Reaches.later (h : Reaches pid v d) (hd : Evolves versionOrder d d') : Reaches pid v d' := by
  obtain ⟨k, u, hu, hpid, hle⟩ := h
  obtain ⟨u', hu', hpid', hle'⟩ := hd .users k u hu
  exact ⟨k, u', hu', hpid'.trans hpid, hle.trans hle'⟩

theorem Reaches.of_get (h : Reaches pid v d) (hd : d.Wf) {k : ℕ} {u : Users}
    (hu : d.get .users k = some u) (hpid : u.publicId = pid) : v ≤ u.roleVersion := by
  obtain ⟨k', u', hu', hpid', hle⟩ := h
  have hkey : IndexKey.publicId pid ∈ rowKeys (t := .users) u := by
    rw [← hpid]
    exact List.mem_cons_self
  have hkey' : IndexKey.publicId pid ∈ rowKeys (t := .users) u' := by
    rw [← hpid']
    exact List.mem_cons_self
  have hsame : u' = u :=
    hd.eq_of_key (Store.mem_of_get hu') (Store.mem_of_get hu) hkey' hkey
  exact hsame ▸ hle

end Versions

/-- The signed tokens carry versions that their users have reached. -/
def tokensBacked : Upheld versionOrder authHost where
  holds sh := ∀ t ∈ sh.host.signed, Reaches t.sub t.roleVersion sh.db
  later h hd t ht := (h t ht).later hd
  env _ _ h := h

/-! ## Programs that write no user -/

abbrev OffUsers (v : Write accounts) : Prop := v.tbl ≠ .users

abbrev Plain : AuthAction → Prop := fun a => a.Keeps versionOrder ∧ a.Confined OffUsers ∧ a.Silent

/-- The action keeps the order and signs nothing. -/
abbrev Steady : AuthAction → Prop :=
  fun a => a.Keeps versionOrder ∧ a.Confined (fun _ => True) ∧ a.Silent

theorem now_silent : Action.Silent (.host .now : AuthAction) := by
  intro c s r s' h
  cases c <;> cases h
  rfl

theorem randomText_silent : Action.Silent (.host .randomText : AuthAction) := by
  intro c s r s' h
  cases c <;> cases h
  rfl

theorem verify_silent (token : AccessToken) : Action.Silent (.host (.verify token) : AuthAction) := by
  intro c s r s' h
  cases c <;> cases h
  rfl

theorem plain_writes : Writes Plain where
  read _ := ⟨trivial, trivial, trivial⟩
  lock _ _ := ⟨trivial, trivial, trivial⟩
  now := ⟨trivial, trivial, now_silent⟩
  randomText := ⟨trivial, trivial, randomText_silent⟩
  update _ _ _ _ ht := ⟨fun _ => versionRel_of_ne ht _ _, fun _ _ => ht, trivial⟩
  insert _ _ _ _ ht := ⟨fun _ => versionRel_of_ne ht _ _, fun _ => ht, trivial⟩

theorem plain_statements : Statements Plain := plain_writes.statements

theorem plain_commit : Plain .commit := ⟨trivial, trivial, trivial⟩

theorem Plain.steady {a : AuthAction} (h : Plain a) : Steady a := ⟨h.1, a.confined_true, h.2.2⟩

theorem steady_statements : AdminStatements Steady where
  read f := (plain_writes.read f).steady
  lock t p := (plain_writes.lock t p).steady
  now := plain_writes.now.steady
  randomText := plain_writes.randomText.steady
  update t p f hf h := (plain_statements.update t p f hf h).steady
  insert t mk hmk skip ht := (plain_writes.insert t mk hmk skip ht).steady
  promote _ _ := ⟨versionRel_promote, fun _ _ => trivial, trivial⟩
  verify token := ⟨trivial, trivial, verify_silent token⟩
  commit := plain_commit.steady
  rollback := ⟨trivial, trivial, trivial⟩

/-! ## Tokens are signed with versions that were read -/

section Programs
variable {G : Guard accounts authHost n} {i : Fin n}
variable {sh : Shared accounts authHost} {x : Unit} {l : Txn accounts} {d₀ : Db}

/-- The program has read the version of the user, and has written no user. -/
def Known (pid : UUID) (v : ℕ) (sh : Shared accounts authHost) (l : Txn accounts) : Prop :=
  ∃ d, Reaches pid v d ∧ Tracked versionOrder OffUsers d sh l

theorem Known.of_view {w : World accounts authHost} {y : Unit}
    (h : Tracked versionOrder OffUsers d₀ sh l) (hs : Seen (tokensBacked.protocol n) i l sh x w y)
    {u : Users} (hu : u ∈ l.view w.db .users) : Known u.publicId u.roleVersion w.toShared l := by
  have hw := h.seen hs
  have hunwritten : ¬Written l.writes Table.users u.id := by
    rintro ⟨v, hv, ht, -⟩
    exact h.writes v hv ht
  have hget : (l.view w.db).get Table.users u.id = some u :=
    Store.get_of_mem (S := accounts) hs.ok.wf.ids hu
  rw [Txn.view, get_applyWrites_of_not_written hunwritten] at hget
  exact ⟨w.db, ⟨u.id, u, hget, rfl, le_rfl⟩, .refl _ _, hw.view, hw.writes⟩

theorem userByEmail_backed (email : String) (h : Tracked versionOrder OffUsers d₀ sh l) :
    Safe (tokensBacked.protocol n) G i (.ofOk fun u sh _ l => Known u.publicId u.roleVersion sh l)
      (userByEmail email) sh x l := by
  apply Safe.bind
  apply Safe.read
  · intro w y hs
    dsimp only
    generalize hrows : (l.view w.db .users).filter _ = rows
    cases rows with
    | nil => trivial
    | cons u rest =>
      have hu : u ∈ u :: rest := List.mem_cons_self
      rw [← hrows] at hu
      exact Known.of_view h hs (List.mem_filter.mp hu).1
  · exact fun _ _ _ _ _ _ _ => trivial

theorem identifyUser_backed (lib : Lib) (email password : String)
    (h : Tracked versionOrder OffUsers d₀ sh l) :
    Safe (tokensBacked.protocol n) G i (.ofOk fun u sh _ l => Known u.publicId u.roleVersion sh l)
      (identifyUser lib email password) sh x l := by
  apply Safe.bind_ok (userByEmail_backed _ h)
  intro user sh x l hr
  obtain ⟨d, hreaches, ht⟩ := hr
  apply Safe.tracked_bind (select_acts plain_writes.toReads _) ht
  intro res sh x l ht
  have hknown : Known user.publicId user.roleVersion sh l := ⟨d, hreaches, ht⟩
  split
  · trivial
  · split
    · trivial
    · trivial
    · split
      · exact hknown
      · trivial

theorem createAccessToken_backed (lib : Lib) {pid : UUID} {v : ℕ} (roles : List ℕ) (spid : UUID)
    (h : Known pid v sh l) :
    Safe (tokensBacked.protocol n) G i (.ofOk fun _ _ _ _ => True)
      (createAccessToken lib pid roles v spid) sh x l := by
  obtain ⟨d, hreaches, ht⟩ := h
  apply Safe.tracked_bind (.call plain_writes.now) ht
  intro t sh x l ht
  apply Safe.tracked_bind (.call plain_writes.randomText) ht
  intro jti sh x l ht
  apply Safe.bind
  apply Safe.host
  intro w y hs c r s hstep
  cases c with
  | text t => cases hstep
  | proceed =>
    cases hstep
    refine ⟨?_, .refl _ _, Safe.pure trivial⟩
    intro t ht'
    rcases List.mem_cons.mp ht' with rfl | ht'
    · exact hreaches.later (ht.seen hs).later
    · exact hs.inv t ht'

theorem fetchUserClaims_backed (userId : ℕ) (h : Tracked versionOrder OffUsers d₀ sh l) :
    Safe (tokensBacked.protocol n) G i
      (.ofOk fun claims sh _ l => Known claims.userPublicId claims.roleVersion sh l)
      (fetchUserClaims userId) sh x l := by
  apply Safe.bind
  apply Safe.read
  · intro w y hs
    dsimp only
    generalize hrows : userClaimRows (l.view w.db) userId = rows
    cases rows with
    | nil => trivial
    | cons row rest =>
      have hrow : row ∈ userClaimRows (l.view w.db) userId := by
        rw [hrows]
        exact List.mem_cons_self
      obtain ⟨u, hu, hmem⟩ := List.mem_flatMap.mp hrow
      obtain ⟨r, -, rfl⟩ := List.mem_map.mp hmem
      exact Known.of_view h hs (List.mem_filter.mp hu).1
  · exact fun _ _ _ _ _ _ _ => trivial

/-! ## Requests of users -/

theorem issueAuthTokens_backed (lib : Lib) (req : LoginRequest) (deviceSession : String)
    (h : Tracked versionOrder OffUsers d₀ sh l) :
    Safe (tokensBacked.protocol n) G i (.ofOk fun _ _ _ _ => True)
      (issueAuthTokens lib req deviceSession) sh x l := by
  apply Safe.bind_ok (identifyUser_backed lib _ _ h)
  intro user sh x l hr
  obtain ⟨d, hreaches, ht⟩ := hr
  apply Safe.tracked_bind (identifyDeviceSession_acts plain_writes.toReads _ _) ht
  intro o sh x l ht
  cases o with
  | none => trivial
  | some ds =>
  dsimp only
  split
  · trivial
  apply Safe.tracked_bind (.call plain_writes.now) ht
  intro t sh x l ht
  split
  · trivial
  apply Safe.tracked_bind (issueLocked_acts plain_statements plain_commit _ _ _) ht
  intro plain sh x l ht
  apply Safe.tracked_bind (getUserRoleIds_acts plain_writes.toReads _) ht
  intro roles sh x l ht
  apply Safe.bind
  apply (createAccessToken_backed lib _ _ ⟨d, hreaches, ht⟩).mono
  intro r sh x l _
  cases r <;> trivial

theorem validateRefreshAndUpdateRefresh_backed (lib : Lib) (plainToken : String)
    (h : Tracked versionOrder OffUsers d₀ sh l) :
    Safe (tokensBacked.protocol n) G i
      (.ofOk fun out sh _ l => Known out.1.userPublicId out.1.roleVersion sh l)
      (validateRefreshAndUpdateRefresh lib plainToken) sh x l := by
  apply Safe.tracked_bind (.call plain_writes.now) h
  intro t sh x l ht
  apply Safe.tracked_bind (getDeviceAuth_acts plain_writes.toReads _) ht
  intro o sh x l ht
  cases o with
  | none => trivial
  | some r =>
  dsimp only
  cases r.expiresAt with
  | none => trivial
  | some expiresAt =>
  dsimp only
  split
  · trivial
  split
  · trivial
  apply Safe.tracked_bind (getDeviceSessionFields_acts plain_writes.toReads _ _) ht
  intro o sh x l ht
  cases o with
  | none => trivial
  | some ds =>
  dsimp only
  split
  · trivial
  split
  · trivial
  apply Safe.tracked_bind (rotateLocked_acts plain_statements plain_commit _ _ _ _ _) ht
  intro plain sh x l ht
  apply Safe.bind_ok (fetchUserClaims_backed _ ht)
  intro claims sh x l hr
  exact hr

theorem AuthRequest.handler_backed (lib : Lib) (req : AuthRequest)
    (h : Tracked versionOrder OffUsers d₀ sh l) :
    Safe (tokensBacked.protocol n) G i (.ofOk fun _ _ _ _ => True) (req.handler lib) sh x l := by
  cases req with
  | login req =>
    simp only [AuthRequest.handler, loginUser]
    split
    · trivial
    · trivial
    apply Safe.bind
    apply (issueAuthTokens_backed lib req _ h).mono
    intro r sh x l _
    cases r <;> trivial
  | refresh refreshToken =>
    simp only [AuthRequest.handler, refreshAuth]
    split
    · trivial
    · trivial
    apply Safe.bind_ok (validateRefreshAndUpdateRefresh_backed lib _ h)
    intro out sh x l hr
    apply Safe.bind
    apply (createAccessToken_backed lib _ _ hr).mono
    intro r sh x l _
    cases r <;> trivial
  | changePassword req =>
    apply (Safe.tracked (changePassword_acts plain_statements plain_commit lib req) h).mono
    intro r sh x l _
    cases r <;> trivial

end Programs

end Phyllonix.Auth
