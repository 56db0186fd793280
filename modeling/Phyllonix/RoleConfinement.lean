import Phyllonix.SessionActions
import Phyllonix.SessionLogout
import Phyllonix.StaleRoles

/-!
# Who comes to manage roles

A role that manages users is only ever given away by a request that presents a token with such a
role. Without the help of those who hold one at the start, no interleaving of requests changes
the roles of a user, or hands out a token that could.
-/

namespace Phyllonix.Auth
open Relational
variable {n : ℕ}

/-! ## Roles that manage users -/

def manageUsers : String := "user:manage"

/-- The role has the permission to change roles. -/
def Manages (d : Db) (role : ℕ) : Prop :=
  ∃ g : RolePermission, g ∈ d .rolePermission ∧ g.roleId = role ∧
    ∃ p : Permission, p ∈ d .permission ∧ p.id = g.permissionId ∧ p.name = manageUsers

def HasRole (d : Db) (user role : ℕ) : Prop :=
  ∃ g : UserRole, g ∈ d .userRole ∧ g.userId = user ∧ g.deleted = false ∧ g.roleId = role

/-- The public identifier is that of a user of `T`. -/
def Names (d : Db) (T : ℕ → Prop) (pid : UUID) : Prop :=
  ∃ k, T k ∧ ∃ u : Users, d.get .users k = some u ∧ u.publicId = pid

/-- With these roles, a token belongs to a user of `T`, unless none of them manages users. -/
def Covered (d : Db) (T : ℕ → Prop) (pid : UUID) (roles : List ℕ) : Prop :=
  ∀ r ∈ roles, Manages d r → Names d T pid

/-- Whoever manages users at the start is one of `T`, and a signup does not make a manager. -/
structure Trusts (lib : AccountLib) (T : ℕ → Prop) (w : World accounts authHost) : Prop where
  known : ∀ k, T k → (w.db.get .users k).isSome
  managers : ∀ k r, HasRole w.db k r → Manages w.db r → T k
  signed : ∀ t ∈ w.host.signed, Covered w.db T t.sub t.roles
  signup : ∀ r : Role, r ∈ w.db .role → r.name = lib.defaultRole → ¬Manages w.db r.id

/-! ## What stays -/

/-- Users keep their public identifiers, roles their permissions; of the roles of users only roles that manage nobody
are new, for new users. -/
def grantRel (d₀ : Db) : (t : Table) → Option t.Row → Option t.Row → Prop
  | .users, r, r' => ∀ u, r = some u → ∃ u', r' = some u' ∧ u'.publicId = u.publicId
  | .role, r, r' => r' = r
  | .permission, r, r' => r' = r
  | .rolePermission, r, r' => r' = r
  | .userRole, r, r' => r' = r ∨ r = none ∧ ∀ g, r' = some g → ¬Manages d₀ g.roleId ∧ d₀.get .users g.userId = none
  | _, _, _ => True

theorem grantRel_refl (d₀ : Db) (t : Table) (r : Option t.Row) : grantRel d₀ t r r := by
  cases t with
  | users => exact fun u hu => ⟨u, hu, rfl⟩
  | userRole => exact .inl rfl
  | role | permission | rolePermission => rfl
  | _ => trivial

theorem grantRel_trans (d₀ : Db) {t : Table} {r r' r'' : Option t.Row} (h : grantRel d₀ t r r')
    (h' : grantRel d₀ t r' r'') : grantRel d₀ t r r'' := by
  cases t with
  | users =>
    intro u hu
    obtain ⟨u', hu', hpid⟩ := h u hu
    obtain ⟨u'', hu'', hpid'⟩ := h' u' hu'
    exact ⟨u'', hu'', hpid'.trans hpid⟩
  | userRole =>
    rcases h with rfl | ⟨rfl, hnew⟩
    · exact h'
    · rcases h' with rfl | ⟨-, hnew'⟩
      · exact .inr ⟨rfl, hnew⟩
      · exact .inr ⟨rfl, hnew'⟩
  | role | permission | rolePermission => exact Eq.trans h' h
  | _ => trivial

def grantOrder (d₀ : Db) : RowOrder accounts := ⟨grantRel d₀, grantRel_refl d₀, grantRel_trans d₀⟩

section Stays
variable {d₀ d : Db} {T : ℕ → Prop} {lib : AccountLib} {w : World accounts authHost}

theorem table_same {t : Table} (hd₀ : d₀.Wf) (hd : d.Wf) (hsame : ∀ i, d.get t i = d₀.get t i) (r : t.Row) :
    r ∈ d t ↔ r ∈ d₀ t := by
  constructor
  · intro hr
    exact Store.mem_of_get ((hsame _).symm.trans (Store.get_of_mem hd.ids hr))
  · intro hr
    exact Store.mem_of_get ((hsame _).trans (Store.get_of_mem hd₀.ids hr))

theorem manages_iff (h : Evolves (grantOrder d₀) d₀ d) (hd₀ : d₀.Wf) (hd : d.Wf) (r : ℕ) :
    Manages d r ↔ Manages d₀ r := by
  simp only [Manages, table_same (t := .rolePermission) hd₀ hd (h .rolePermission),
    table_same (t := .permission) hd₀ hd (h .permission)]

theorem permittedRows_nil (h : Evolves (grantOrder d₀) d₀ d) (hd₀ : d₀.Wf) (hd : d.Wf) {roles : List ℕ}
    (hroles : ∀ r ∈ roles, ¬Manages d₀ r) : permittedRows d manageUsers roles = [] := by
  rw [permittedRows, List.map_eq_nil_iff, List.filter_eq_nil_iff]
  intro g hg hp
  simp only [Bool.and_eq_true, decide_eq_true_eq, List.any_eq_true] at hp
  obtain ⟨hrole, p, hpmem, hid, hname⟩ := hp
  exact hroles _ hrole ((manages_iff h hd₀ hd _).mp ⟨g, hg, rfl, p, hpmem, hid, hname⟩)

/-- A user of the start has the roles of the start. -/
theorem hasRole_iff (h : Evolves (grantOrder d₀) d₀ d) (hd₀ : d₀.Wf) (hd : d.Wf) {k : ℕ}
    (hk : (d₀.get .users k).isSome) (r : ℕ) : HasRole d k r ↔ HasRole d₀ k r := by
  constructor
  · rintro ⟨g, hg, huser, hlive, hrole⟩
    have hget : d.get .userRole g.id = some g := Store.get_of_mem hd.ids hg
    rcases h .userRole g.id with hsame | ⟨-, hnew⟩
    · exact ⟨g, Store.mem_of_get (hsame.symm.trans hget), huser, hlive, hrole⟩
    · have hnone := (hnew g hget).2
      rw [huser] at hnone
      rw [hnone] at hk
      cases hk
  · rintro ⟨g, hg, huser, hlive, hrole⟩
    have hget : d₀.get .userRole g.id = some g := Store.get_of_mem hd₀.ids hg
    rcases h .userRole g.id with hsame | ⟨hnone, -⟩
    · exact ⟨g, Store.mem_of_get (hsame.trans hget), huser, hlive, hrole⟩
    · exact absurd (hnone.symm.trans hget) (Option.some_ne_none _).symm

theorem Trusts.managers_later (ht : Trusts lib T w) (h : Evolves (grantOrder w.db) w.db d) (hd : d.Wf) {k r : ℕ}
    (hrole : HasRole d k r) (hmanages : Manages w.db r) : T k := by
  obtain ⟨g, hg, huser, hlive, rfl⟩ := hrole
  have hget : d.get .userRole g.id = some g := Store.get_of_mem hd.ids hg
  rcases h .userRole g.id with hsame | ⟨-, hnew⟩
  · exact ht.managers k _ ⟨g, Store.mem_of_get (hsame.symm.trans hget), huser, hlive, rfl⟩ hmanages
  · exact absurd hmanages (hnew g hget).1

/-- The user has the public identifier that it had at the start. -/
def SamePid (d₀ : Db) (u : Users) : Prop := ∀ u₀, d₀.get .users u.id = some u₀ → u₀.publicId = u.publicId

/-- Among the roles that the user has been read with, none manages users, unless it is one of `T`. -/
def Owned (d₀ : Db) (T : ℕ → Prop) (k : ℕ) (roles : List ℕ) : Prop := ∀ r ∈ roles, Manages d₀ r → T k

theorem Trusts.covered (ht : Trusts lib T w) {u : Users} {roles : List ℕ} (hu : SamePid w.db u)
    (hroles : Owned w.db T u.id roles) : Covered w.db T u.publicId roles := by
  intro r hr hmanages
  have hT := hroles r hr hmanages
  obtain ⟨u₀, hu₀⟩ := Option.isSome_iff_exists.mp (ht.known _ hT)
  exact ⟨u.id, hT, u₀, hu₀, hu u₀ hu₀⟩

theorem publicId_same (h : Evolves (grantOrder d₀) d₀ d) (hd : d.Wf) {u : Users} (hu : u ∈ d .users) :
    SamePid d₀ u := by
  intro u₀ hu₀
  have hget : d.get .users u.id = some u := Store.get_of_mem hd.ids hu
  obtain ⟨u', hu', hpid⟩ := h .users u.id u₀ hu₀
  rw [hget] at hu'
  cases hu'
  exact hpid.symm

end Stays

/-! ## The invariant -/

/-- Signed tokens are covered, and nothing but what may change has changed. -/
def confined (d₀ : Db) (T : ℕ → Prop) : Upheld (grantOrder d₀) authHost where
  holds sh := Evolves (grantOrder d₀) d₀ sh.db ∧ ∀ t ∈ sh.host.signed, Covered d₀ T t.sub t.roles
  later h hd := ⟨h.1.trans hd, h.2⟩
  env _ _ h := h

/-- The action writes only what may change, and signs nothing. -/
abbrev Harmless (d₀ : Db) : AuthAction → Prop :=
  fun a => a.Keeps (grantOrder d₀) ∧ a.Confined (fun _ => True) ∧ a.Silent

theorem harmless_statements (d₀ : Db) : SessionStatements (Harmless d₀) fun _ => True where
  read _ := ⟨trivial, trivial, trivial⟩
  lock _ _ := ⟨trivial, trivial, trivial⟩
  now := ⟨trivial, trivial, now_silent⟩
  randomText := ⟨trivial, trivial, randomText_silent⟩
  revoke _ _ _ _ := ⟨fun _ => trivial, fun _ _ => trivial, trivial⟩
  session _ _ _ := ⟨fun _ => trivial, fun _ _ => trivial, trivial⟩
  rehash _ _ _ _ _ _ _ := ⟨fun _ => trivial, fun _ _ => trivial, trivial⟩
  start _ _ _ := ⟨fun _ => trivial, fun _ => trivial, trivial⟩
  issue _ _ _ _ _ _ := ⟨fun _ => trivial, fun _ => trivial, trivial⟩
  enrol _ _ _ _ _ _ := ⟨fun _ => trivial, fun _ => trivial, trivial⟩
  commit := ⟨trivial, trivial, trivial⟩

/-! ## Logins and refreshes -/

section Programs
variable {lib : AccountLib} {T : ℕ → Prop} {w₀ : World accounts authHost}
variable {G : Guard accounts authHost n} {i : Fin n} {sh : Shared accounts authHost} {x : Unit} {l : Txn accounts}

/-- The session has changed nothing but what may change. -/
abbrev Held (d₀ : Db) (sh : Shared accounts authHost) (l : Txn accounts) : Prop :=
  Tracked (grantOrder d₀) (fun _ => True) d₀ sh l

theorem held_view {w : World accounts authHost} {y : Unit} (h : Held w₀.db sh l)
    (hs : Seen ((confined w₀.db T).protocol n) i l sh x w y) :
    Evolves (grantOrder w₀.db) w₀.db (l.view w.db) ∧ (l.view w.db).Wf ∧ Held w₀.db w.toShared l :=
  ⟨(h.seen hs).later.trans (h.seen hs).view, hs.ok.wf, h.seen hs⟩

theorem createAccessToken_confined {pid : UUID} {roles : List ℕ} (hcovered : Covered w₀.db T pid roles) (v : ℕ)
    (spid : UUID) (h : Held w₀.db sh l) :
    Safe ((confined w₀.db T).protocol n) G i (.ofOk fun _ _ _ _ => True)
      (createAccessToken lib.toLib pid roles v spid) sh x l := by
  apply Safe.tracked_bind (.call (harmless_statements w₀.db).now) h
  intro t sh x l h
  apply Safe.tracked_bind (.call (harmless_statements w₀.db).randomText) h
  intro jti sh x l h
  apply Safe.bind
  apply Safe.host
  intro w y hs c r s hstep
  cases c with
  | text t => cases hstep
  | proceed =>
    cases hstep
    refine ⟨⟨hs.inv.1, ?_⟩, .refl _ _, Safe.pure trivial⟩
    intro t ht
    rcases List.mem_cons.mp ht with rfl | ht
    · exact hcovered
    · exact hs.inv.2 t ht

theorem userByEmail_confined (email : String) (h : Held w₀.db sh l) :
    Safe ((confined w₀.db T).protocol n) G i (.ofOk fun u sh _ l => SamePid w₀.db u ∧ Held w₀.db sh l)
      (userByEmail email) sh x l := by
  apply Safe.bind
  apply Safe.read
  · intro w y hs
    obtain ⟨hview, hwf, hheld⟩ := held_view h hs
    dsimp only
    generalize hrows : (l.view w.db .users).filter _ = rows
    cases rows with
    | nil => trivial
    | cons u rest =>
      have hu : u ∈ u :: rest := List.mem_cons_self
      rw [← hrows] at hu
      exact ⟨publicId_same hview hwf (List.mem_filter.mp hu).1, hheld⟩
  · exact fun _ _ _ _ _ _ _ => trivial

theorem identifyUser_confined (email password : String) (h : Held w₀.db sh l) :
    Safe ((confined w₀.db T).protocol n) G i (.ofOk fun u sh _ l => SamePid w₀.db u ∧ Held w₀.db sh l)
      (identifyUser lib.toLib email password) sh x l := by
  apply Safe.bind_ok (userByEmail_confined _ h)
  intro user sh x l hr
  apply Safe.tracked_bind (select_acts (harmless_statements w₀.db).toReads _) hr.2
  intro res sh x l h
  have hknown := And.intro hr.1 h
  split
  · trivial
  · split
    · trivial
    · trivial
    · split
      · exact hknown
      · trivial

theorem getUserRoleIds_confined (ht : Trusts lib T w₀) (k : ℕ) (h : Held w₀.db sh l) :
    Safe ((confined w₀.db T).protocol n) G i (.ofOk fun roles sh _ l => Owned w₀.db T k roles ∧ Held w₀.db sh l)
      (getUserRoleIds k) sh x l := by
  apply Safe.bind
  apply Safe.read
  · intro w y hs
    obtain ⟨hview, hwf, hheld⟩ := held_view h hs
    refine ⟨fun r hr hmanages => ?_, hheld⟩
    obtain ⟨g, hg, rfl⟩ := List.mem_map.mp hr
    obtain ⟨hmem, hp⟩ := List.mem_filter.mp hg
    simp only [Bool.and_eq_true, decide_eq_true_eq, Bool.not_eq_true'] at hp
    exact ht.managers_later hview hwf ⟨g, hmem, hp.1, hp.2, rfl⟩ hmanages
  · exact fun _ _ _ _ _ _ _ => trivial

theorem fetchUserClaims_confined (ht : Trusts lib T w₀) (k : ℕ) (h : Held w₀.db sh l) :
    Safe ((confined w₀.db T).protocol n) G i
      (.ofOk fun claims sh _ l => Covered w₀.db T claims.userPublicId claims.roleIds ∧ Held w₀.db sh l)
      (fetchUserClaims k) sh x l := by
  apply Safe.bind
  apply Safe.read
  · intro w y hs
    obtain ⟨hview, hwf, hheld⟩ := held_view h hs
    dsimp only
    have hrow : ∀ row ∈ userClaimRows (l.view w.db) k, row.1 ∈ l.view w.db .users ∧ row.1.id = k ∧
        HasRole (l.view w.db) k row.2 := by
      intro row hrow
      obtain ⟨u, hu, hmem⟩ := List.mem_flatMap.mp hrow
      obtain ⟨g, hg, rfl⟩ := List.mem_map.mp hmem
      obtain ⟨humem, huid⟩ := List.mem_filter.mp hu
      obtain ⟨hgmem, hp⟩ := List.mem_filter.mp hg
      simp only [Bool.and_eq_true, decide_eq_true_eq, Bool.not_eq_true'] at hp huid
      exact ⟨humem, huid, g, hgmem, hp.1.trans huid, hp.2, rfl⟩
    generalize userClaimRows (l.view w.db) k = rows at hrow
    cases rows with
    | nil => trivial
    | cons row rest =>
      obtain ⟨u, r⟩ := row
      obtain ⟨hu, hid, -⟩ := hrow _ List.mem_cons_self
      refine ⟨ht.covered (publicId_same hview hwf hu) ?_, hheld⟩
      intro r' hr' hmanages
      have hrole : HasRole (l.view w.db) u.id r' := by
        have hmap : r' ∈ ((u, r) :: rest).map Prod.snd := hr'
        obtain ⟨row', hrow', rfl⟩ := List.mem_map.mp hmap
        have hid' : u.id = k := hid
        rw [hid']
        exact (hrow row' hrow').2.2
      exact ht.managers_later hview hwf hrole hmanages
  · exact fun _ _ _ _ _ _ _ => trivial

theorem issueAuthTokens_confined (ht : Trusts lib T w₀) (req : LoginRequest) (deviceSession : String)
    (h : Held w₀.db sh l) :
    Safe ((confined w₀.db T).protocol n) G i (.ofOk fun _ _ _ _ => True)
      (issueAuthTokens lib.toLib req deviceSession) sh x l := by
  have hA := harmless_statements w₀.db
  apply Safe.bind_ok (identifyUser_confined _ _ h)
  intro user sh x l hr
  obtain ⟨hpid, h⟩ := hr
  apply Safe.tracked_bind (identifyDeviceSession_acts hA.toReads _ _) h
  intro o sh x l h
  cases o with
  | none => trivial
  | some ds =>
  dsimp only
  split
  · trivial
  apply Safe.tracked_bind (.call hA.now) h
  intro t sh x l h
  split
  · trivial
  apply Safe.tracked_bind (issueLocked_writes hA _ trivial _) h
  intro plain sh x l h
  apply Safe.bind_ok (getUserRoleIds_confined ht _ h)
  intro roles sh x l hr
  obtain ⟨howned, h⟩ := hr
  apply Safe.bind
  apply (createAccessToken_confined (ht.covered hpid howned) _ _ h).mono
  intro r sh x l _
  cases r <;> trivial

theorem validateRefreshAndUpdateRefresh_confined (ht : Trusts lib T w₀) (plainToken : String) (h : Held w₀.db sh l) :
    Safe ((confined w₀.db T).protocol n) G i
      (.ofOk fun out sh _ l => Covered w₀.db T out.1.userPublicId out.1.roleIds ∧ Held w₀.db sh l)
      (validateRefreshAndUpdateRefresh lib.toLib plainToken) sh x l := by
  have hA := harmless_statements w₀.db
  apply Safe.tracked_bind (.call hA.now) h
  intro t sh x l h
  apply Safe.tracked_bind (getDeviceAuth_acts hA.toReads _) h
  intro o sh x l h
  cases o with
  | none => trivial
  | some r =>
  dsimp only
  cases r.expiresAt with
  | none => trivial
  | some expiresAt =>
  dsimp only
  split
  · trivial
  split
  · trivial
  apply Safe.tracked_bind (getDeviceSessionFields_acts hA.toReads _ _) h
  intro o sh x l h
  cases o with
  | none => trivial
  | some ds =>
  dsimp only
  split
  · trivial
  split
  · trivial
  apply Safe.tracked_bind (rotateLocked_writes hA _ _ _ trivial _) h
  intro plain sh x l h
  apply Safe.bind_ok (fetchUserClaims_confined ht _ h)
  intro claims sh x l hr
  exact hr

theorem AuthRequest.handler_confined (ht : Trusts lib T w₀) (req : AuthRequest) (h : Held w₀.db sh l) :
    Safe ((confined w₀.db T).protocol n) G i (.ofOk fun _ _ _ _ => True) (req.handler lib.toLib) sh x l := by
  cases req with
  | login req =>
    simp only [AuthRequest.handler, loginUser]
    split
    · trivial
    · trivial
    apply Safe.bind
    apply (issueAuthTokens_confined ht req _ h).mono
    intro r sh x l _
    cases r <;> trivial
  | refresh refreshToken =>
    simp only [AuthRequest.handler, refreshAuth]
    split
    · trivial
    · trivial
    apply Safe.bind_ok (validateRefreshAndUpdateRefresh_confined ht _ h)
    intro out sh x l hr
    apply Safe.bind
    apply (createAccessToken_confined hr.1 _ _ hr.2).mono
    intro r sh x l _
    cases r <;> trivial
  | changePassword req =>
    apply (Safe.tracked (changePassword_writes (harmless_statements w₀.db) lib.toLib trivial) h).mono
    intro r sh x l _
    cases r <;> trivial

/-! ## Requests of administrators -/

/-- Whoever presents a token that names one of `T` does not use it to change roles. -/
def Unassisted (d₀ : Db) (T : ℕ → Prop) (req : AdminRequest) : Prop :=
  ∀ target payload token, req.endpoint = .changeUserRole target payload → req.token = some token →
    ¬Names d₀ T token.sub

theorem withSession_confined {α : Type} {p : Py α} {K : α → Prop}
    (h : Safe ((confined w₀.db T).protocol n) G i (.ofOk fun a _ _ _ => K a) p sh x l) :
    Safe ((confined w₀.db T).protocol n) G i (.ofOk fun a sh _ l => K a ∧ Held w₀.db sh l) (withSession p) sh x l := by
  apply Safe.bind
  apply Safe.session
  apply h.mono
  intro r sh x l hr w y hs
  cases r with
  | error e => trivial
  | ok a => exact ⟨hr, hs.inv.1, .refl _ _, fun v hv => by cases hv⟩

/-- No role in the token manages users. -/
def Powerless (d₀ : Db) (roles : List ℕ) : Prop := ∀ r ∈ roles, ¬Manages d₀ r

theorem requirePermissions_refuses (hw₀ : w₀.db.Wf) {roles : List ℕ} (hroles : Powerless w₀.db roles)
    (h : Held w₀.db sh l) :
    Safe ((confined w₀.db T).protocol n) G i (.ofOk fun _ _ _ _ => False) (requirePermissions manageUsers roles)
      sh x l := by
  apply Safe.bind
  apply Safe.read
  · intro w y hs
    obtain ⟨hview, hwf, -⟩ := held_view h hs
    rw [permittedRows_nil hview hw₀ hwf hroles]
    trivial
  · exact fun _ _ _ _ _ _ _ => trivial

/-- The request does not change roles, or it does not come past the guard. -/
def Endpoint.Refused (e : Endpoint) (reply : ApiReply) : Prop :=
  ∀ target payload, e = .changeUserRole target payload → ∀ r, reply ≠ .handled r

theorem serve_confined (hw₀ : w₀.db.Wf) (e : Endpoint) (state : Option RequestState)
    (hstate : ∀ target payload, e = .changeUserRole target payload → ∀ st, state = some st →
      Powerless w₀.db st.userRoles) (h : Held w₀.db sh l) :
    Safe ((confined w₀.db T).protocol n) G i (.ofOk fun reply _ _ _ => e.Refused reply) (e.serve lib.toAdminLib state)
      sh x l := by
  have hA := harmless_statements w₀.db
  unfold Endpoint.serve
  apply (withSession_confined (K := e.Refused) ?_).mono
  · intro r sh x l hr
    cases r with
    | error e => trivial
    | ok reply => exact hr.1
  cases state with
  | none => trivial
  | some st =>
    have hguard : ∀ perm, (requirePermissions perm st.userRoles).Acts (Harmless w₀.db) := by
      intro perm
      apply Prog.Acts.bind (.call (hA.read _))
      intro rows
      apply (oneOrNone_acts rows).bind
      intro o
      split <;> trivial
    cases e with
    | changeUserRole target payload =>
      apply Safe.bind_ok (requirePermissions_refuses hw₀ (hstate target payload rfl st rfl) h)
      intro _ sh x l hr
      exact hr.elim
    | createProduct =>
      apply Safe.tracked_bind (hguard _) h
      intro _ sh x l h target payload he
      cases he
    | updateProduct pid =>
      apply Safe.tracked_bind (hguard _) h
      intro _ sh x l h target payload he
      cases he

theorem authenticate_confined {token : Option AccessToken} (h : Held w₀.db sh l) :
    Safe ((confined w₀.db T).protocol n) G i
      (.ofOk fun o sh _ l => (∀ t, o = some t → token = some t ∧ Covered w₀.db T t.sub t.roles) ∧ Held w₀.db sh l)
      (authenticate token) sh x l := by
  cases token with
  | none =>
    apply Safe.pure
    exact ⟨(fun t ht => by cases ht), h⟩
  | some token =>
    apply Safe.bind
    apply Safe.host
    intro w y hs c r s hstep
    cases c with
    | text t => cases hstep
    | proceed =>
      cases hstep
      refine ⟨hs.inv, .refl _ _, Safe.pure ⟨fun t ht => ?_, (held_view h hs).2.2⟩⟩
      split at ht
      · rename_i hok
        rw [Bool.and_eq_true, decide_eq_true_eq] at hok
        cases ht
        exact ⟨rfl, hs.inv.2 _ hok.1⟩
      · cases ht

theorem dispatch_confined (hw₀ : w₀.db.Wf) {req : AdminRequest} (hreq : Unassisted w₀.db T req)
    (h : Held w₀.db sh l) :
    Safe ((confined w₀.db T).protocol n) G i (.ofOk fun reply _ _ _ => req.endpoint.Refused reply)
      (req.dispatch lib.toAdminLib) sh x l := by
  have hA := harmless_statements w₀.db
  have hinvalid : ∀ status message, req.endpoint.Refused (.invalidAuth status message) :=
    fun _ _ _ _ _ _ hreply => by cases hreply
  have hauthorize : ∀ state sh x l, (∀ target payload, req.endpoint = .changeUserRole target payload →
      ∀ st, state = some st → Powerless w₀.db st.userRoles) → Held w₀.db sh l →
      Safe ((confined w₀.db T).protocol n) G i (.ofOk fun reply _ _ _ => req.endpoint.Refused reply)
        (authorizationDispatch req.endpoint.path state (req.endpoint.serve lib.toAdminLib state)) sh x l := by
    intro state sh x l hstate h
    unfold authorizationDispatch
    split
    · exact serve_confined hw₀ _ _ hstate h
    cases state with
    | none => exact hinvalid _ _
    | some st =>
      have hversion : (checkUserRolesVersion st.userIdentifier st.roleVersion).Acts (Harmless w₀.db) := by
        apply (select_acts hA.toReads (t := .users) _).bind
        intro res
        trivial
      apply Safe.bind
      apply (withSession_confined (K := fun _ => True) ((Safe.tracked hversion h).mono ?_)).mono
      · intro r sh x l hr
        cases r with
        | error e => trivial
        | ok o =>
          dsimp only
          split
          · exact hinvalid _ _
          · exact serve_confined hw₀ _ _ hstate hr.2
      · intro r sh x l _
        cases r <;> trivial
  rw [AdminRequest.dispatch, authenticationDispatch]
  split
  · exact hauthorize none sh x l (fun _ _ _ st hst => by cases hst) h
  apply Safe.bind_ok (authenticate_confined h)
  intro o sh x l hr
  obtain ⟨ho, h⟩ := hr
  cases o with
  | none => exact hinvalid _ _
  | some t =>
  obtain ⟨htoken, hcovered⟩ := ho t rfl
  have hpid : (identifyUserByPid t.sub).Acts (Harmless w₀.db) := by
    apply (select_acts hA.toReads (t := .users) _).bind
    intro res
    exact oneOrNone_acts _
  apply Safe.bind
  apply (withSession_confined (K := fun _ => True) ((Safe.tracked hpid h).mono ?_)).mono
  · intro r sh x l hr
    cases r with
    | error e => trivial
    | ok o =>
      dsimp only
      split
      · exact hinvalid _ _
      · exact hinvalid _ _
      · apply hauthorize _ _ _ _ ?_ hr.2
        intro target payload he st hst role hrole hmanages
        cases hst
        exact hreq target payload t he htoken (hcovered role hrole hmanages)
  · intro r sh x l _
    cases r <;> trivial

/-! ## Signups -/

theorem createNGetUser_confined (email : String) (h : Held w₀.db sh l) :
    Safe ((confined w₀.db T).protocol n) G i
      (.ofOk fun user sh _ l => w₀.db.get .users user.1 = none ∧ Held w₀.db sh l)
      (createNGetUser lib email) sh x l := by
  have hA := harmless_statements w₀.db
  rw [createNGetUser]
  apply Safe.tracked_bind (.call hA.randomText) h
  intro drawn sh x l h
  have hinsert : (insertOrNothing .users fun m =>
      (⟨m, lib.uuid7 drawn, some email, 0, none⟩ : Users)).Acts (Harmless w₀.db) :=
    .call ⟨(fun m u hu => by cases hu), fun _ => trivial, trivial⟩
  have hfresh : Safe ((confined w₀.db T).protocol n) G i
      (.ofOk fun row _ _ _ => ∀ u : Users, row = some u → w₀.db.get .users u.id = none)
      (insertOrNothing .users fun m => (⟨m, lib.uuid7 drawn, some email, 0, none⟩ : Users)) sh x l := by
    apply Safe.insert
    · intro w y hs m hm _ u hu
      cases hu
      obtain ⟨hview, -, -⟩ := held_view h hs
      cases hget : w₀.db.get .users m with
      | none => rfl
      | some u₀ =>
        obtain ⟨u', hu', -⟩ := hview .users m u₀ hget
        have hlt := hm u' (Store.mem_of_get hu')
        rw [Store.id_of_get hu'] at hlt
        exact absurd hlt (lt_irrefl m)
    · intro _ w y hs m _ u hu
      cases hu
    · exact fun _ _ _ _ _ _ => trivial
  apply Safe.bind
  apply (hfresh.and (Safe.tracked hinsert h)).mono
  rintro r sh x l ⟨hr, h⟩
  cases r with
  | error e => trivial
  | ok row =>
  cases row with
  | some user => exact ⟨hr user rfl, h⟩
  | none =>
    apply Safe.tracked_bind (select_acts hA.toReads (t := .users) _) h
    intro res sh x l h
    apply Safe.tracked_bind (oneOrNone_acts _) h
    intro found sh x l h
    split <;> trivial

theorem linkUserRole_confined (ht : Trusts lib T w₀) (hw₀ : w₀.db.Wf) {userId : ℕ}
    (hnew : w₀.db.get .users userId = none) (h : Held w₀.db sh l) :
    Safe ((confined w₀.db T).protocol n) G i (.ofOk fun _ sh _ l => Held w₀.db sh l) (linkUserRole lib userId)
      sh x l := by
  have hA := harmless_statements w₀.db
  rw [linkUserRole]
  apply Safe.bind
  apply Safe.read
  · intro w y hs
    obtain ⟨hview, hwf, hheld⟩ := held_view h hs
    have hdefault : ∀ k ∈ ((l.view w.db .role).filter fun r : Role => r.name = lib.defaultRole).map Role.id,
        ¬Manages w₀.db k := by
      intro k hk
      obtain ⟨r, hr, rfl⟩ := List.mem_map.mp hk
      obtain ⟨hmem, hname⟩ := List.mem_filter.mp hr
      exact ht.signup r ((table_same hw₀ hwf (hview .role) r).mp hmem) (of_decide_eq_true hname)
    dsimp only
    generalize (l.view w.db .role).filter (fun r : Role => r.name = lib.defaultRole) = roles at hdefault
    have hlink : ∀ k ∈ roles.map Role.id, Safe ((confined w₀.db T).protocol n) G i
        (.ofOk fun _ sh _ l => Held w₀.db sh l)
        (do let _ ← insertOrNothing .userRole fun m => (⟨m, userId, k, false⟩ : UserRole)
            pure () : Py Unit) w.toShared y l := by
      intro k hk
      have hinsert : (insertOrNothing .userRole fun m => (⟨m, userId, k, false⟩ : UserRole)).Acts (Harmless w₀.db) := by
        refine .call ⟨fun m => .inr ⟨rfl, fun g hg => ?_⟩, fun _ => trivial, trivial⟩
        cases hg
        exact ⟨hdefault k hk, hnew⟩
      apply Safe.tracked_bind hinsert hheld
      intro _ sh x l h
      exact h
    generalize roles.map Role.id = ks at hlink
    cases ks with
    | nil => trivial
    | cons k ks =>
      cases ks with
      | cons k' ks => trivial
      | nil =>
        cases k with
        | zero => trivial
        | succ k => exact hlink (k + 1) List.mem_cons_self
  · exact fun _ _ _ _ _ _ _ => trivial

theorem createSignup_confined (ht : Trusts lib T w₀) (hw₀ : w₀.db.Wf) (payload : SignupIn) (h : Held w₀.db sh l) :
    Safe ((confined w₀.db T).protocol n) G i (.ofOk fun _ _ _ _ => True) (createSignup lib payload) sh x l := by
  have hA := harmless_statements w₀.db
  apply Safe.bind_ok (createNGetUser_confined payload.email h)
  intro user sh x l hr
  obtain ⟨hnew, h⟩ := hr
  apply Safe.tracked_bind (.call hA.randomText) h
  intro salt sh x l h
  apply Safe.tracked_bind (createCredential_writes hA lib trivial _) h
  intro credId sh x l h
  apply Safe.bind_ok (linkUserRole_confined ht hw₀ hnew h)
  intro _ sh x l hr
  apply Safe.tracked_bind (.call hA.commit) hr
  intro _ sh x l h
  trivial

theorem signupUser_confined (ht : Trusts lib T w₀) (hw₀ : w₀.db.Wf) (payload : SignupIn) (h : Held w₀.db sh l) :
    Safe ((confined w₀.db T).protocol n) G i (.ofOk fun _ _ _ _ => True) (signupUser lib payload) sh x l := by
  rw [signupUser, signupValidation]
  cases normalizeEmailAddress lib payload.email with
  | error e => trivial
  | ok normalised =>
    generalize validatePassword lib.toLib payload.password = valid
    dsimp only
    split
    · trivial
    · apply Safe.bind
      apply Safe.pure
      apply Safe.bind
      apply (createSignup_confined ht hw₀ payload h).mono
      intro r sh x l _
      cases r <;> trivial

/-! ## Requests -/

def AccountRequest.Unassisted (d₀ : Db) (T : ℕ → Prop) (req : AccountRequest) : Prop :=
  ∀ admin, req = .api (.admin admin) → Auth.Unassisted d₀ T admin

/-- A request for a change of roles does not come past the guard. -/
def AccountRequest.Refuses (req : AccountRequest) (out : Except (Exn AppErr) AccountReply) : Prop :=
  ∀ target payload token, req = .api (.admin ⟨.changeUserRole target payload, token⟩) →
    ∀ r, out ≠ .ok (.api (.handled r))

theorem AccountRequest.program_confined (ht : Trusts lib T w₀) (hw₀ : w₀.db.Wf) {req : AccountRequest}
    (hreq : req.Unassisted w₀.db T) (h : Held w₀.db sh l) :
    Safe ((confined w₀.db T).protocol n) G i (.ofOk fun out _ _ _ => req.Refuses out) (req.program lib) sh x l := by
  have hA := harmless_statements w₀.db
  have hsession : ∀ {α : Type} {p : Py α},
      Safe ((confined w₀.db T).protocol n) G i (.ofOk fun _ _ _ _ => True) p sh x l →
      Safe ((confined w₀.db T).protocol n) G i (.ofOk fun _ _ _ _ => True) p.session sh x l := by
    intro α p hp
    apply Safe.session
    apply hp.mono
    intro r sh x l _ w y hs
    trivial
  have hends : ∀ {α : Type} {p : Py α}, p.Acts (Harmless w₀.db) →
      Safe ((confined w₀.db T).protocol n) G i (.ofOk fun _ _ _ _ => True) p sh x l := by
    intro α p hp
    apply (Safe.tracked hp h).mono
    intro r sh x l _
    cases r <;> trivial
  cases req with
  | api api =>
    cases api with
    | auth req =>
      apply Safe.bind
      apply Safe.bind
      apply (hsession (AuthRequest.handler_confined ht req h)).mono
      intro r sh x l _
      cases r with
      | error e => trivial
      | ok r =>
        intro target payload token heq
        cases heq
    | admin req =>
      apply Safe.bind
      apply Safe.attempt
      apply (dispatch_confined hw₀ (hreq req rfl) h).mono
      intro r sh x l hr target payload token heq out hout
      cases heq
      cases r with
      | error e => cases hout
      | ok reply =>
        cases hout
        exact hr target payload rfl out rfl
  | sessionInit =>
    apply (hsession (hends (sessionInit_writes hA lib))).mono
    intro r sh x l _
    cases r with
    | error e => trivial
    | ok r => exact fun _ _ _ heq => by cases heq
  | signup payload =>
    apply (hsession (signupUser_confined ht hw₀ payload h)).mono
    intro r sh x l _
    cases r with
    | error e => trivial
    | ok r => exact fun _ _ _ heq => by cases heq
  | logout pid =>
    have hacts : (Auth.logout lib pid).session.Acts (Harmless w₀.db) := by
      apply (logout_acts pid).mono
      intro a ha
      cases a with
      | host b =>
        cases b with
        | now => exact hA.now
        | _ => exact ha.elim
      | rollback => exact ⟨trivial, trivial, trivial⟩
      | _ => exact ha.elim
    apply (hends hacts).mono
    intro r sh x l _
    cases r with
    | error e => trivial
    | ok r => exact fun _ _ _ heq => by cases heq

end Programs

/-! ## Runs -/

/-- What stays as it is while nobody of `T` changes roles. -/
structure Kept (T : ℕ → Prop) (d₀ : Db) (sh : Shared accounts authHost) : Prop where
  roles : ∀ k, (d₀.get .users k).isSome → ∀ r, HasRole sh.db k r ↔ HasRole d₀ k r
  managers : ∀ k r, HasRole sh.db k r → Manages sh.db r → T k
  signed : ∀ t ∈ sh.host.signed, ∀ r ∈ t.roles, Manages sh.db r → Names d₀ T t.sub

/-- In no run of any requests does anybody come to manage users, or do the roles of a user change, without a request
for it that presents the token of one of those who manage users at the start. -/
theorem roles_confined {lib : AccountLib} {T : ℕ → Prop} {reqs : Fin n → AccountRequest}
    {w : World accounts authHost} (hw : w.Ok) (ht : Trusts lib T w) (hreqs : ∀ i, (reqs i).Unassisted w.db T)
    {s : Sys accounts authHost n (Except (Exn AppErr) AccountReply)} (h : (accountRequests lib reqs w).Reach s) :
    Kept T w.db s.world.toShared ∧ ∀ i out, s.outcome i = some out → (reqs i).Refuses out := by
  have hheld : Held w.db w.toShared {} := ⟨.refl _ _, .refl _ _, fun v hv => by cases hv⟩
  have hinv₀ : (confined w.db T).holds w.toShared := ⟨.refl _ _, ht.signed⟩
  have hstart : (accountRequests lib reqs w).Inv ((confined w.db T).protocol n) (fun _ _ _ _ _ => True)
      (fun i => .ofOk fun out _ _ _ => (reqs i).Refuses out) () :=
    Sys.inv_start hw hinv₀ fun i => AccountRequest.program_confined ht hw.wf (hreqs i) hheld
  have hinv := Sys.Run.inv (P := (confined w.db T).protocol n) h hstart
  have hmanages := manages_iff hinv.inv.1 hw.wf hinv.ok.world.wf
  refine ⟨⟨fun k hk r => ?_, fun k r hrole hr => ?_, fun t ht' r hr hm => ?_⟩, fun i out hout => ?_⟩
  · exact hasRole_iff hinv.inv.1 hw.wf hinv.ok.world.wf hk r
  · exact ht.managers_later hinv.inv.1 hinv.ok.world.wf hrole ((hmanages r).mp hr)
  · exact hinv.inv.2 t ht' r hr ((hmanages r).mp hm)
  · obtain ⟨sh, y, hsafe, -⟩ := hinv.seen i
    rw [Sys.prog_of_outcome hout] at hsafe
    exact hsafe

/-! ## A buyer who wants to be an administrator -/

def buyerToken : AccessToken := ⟨22, 0, 600, "jti", [2], 0, 5⟩

/-- User 1 is an administrator, user 2 a buyer. -/
def oneAdmin : World accounts authHost where
  db
    | .users => [⟨1, 11, none, 0, none⟩, ⟨2, 22, none, 0, none⟩]
    | .role => [⟨1, "admin"⟩, ⟨2, "buyer"⟩]
    | .permission => [⟨1, manageUsers⟩]
    | .rolePermission => [⟨1, 1, 1⟩]
    | .userRole => [⟨1, 1, 1, false⟩, ⟨2, 2, 2, false⟩]
    | _ => []
  host := ⟨0, [adminToken 11, buyerToken]⟩
  seq _ := 9

theorem oneAdmin_ok : oneAdmin.Ok := by
  refine ⟨Store.wf_of_pairwise fun t => ?_, fun t => ?_⟩ <;> cases t <;> decide

/-- The buyer asks for the role with his own token, and with one that he has made up. -/
def promotions : Fin 2 → AccountRequest
  | 0 => .api (.admin ⟨.changeUserRole "22" ⟨["admin"]⟩, some buyerToken⟩)
  | 1 => .api (.admin ⟨.changeUserRole "22" ⟨["admin"]⟩, some (adminToken 22)⟩)

theorem oneAdmin_manages {r : ℕ} (h : Manages oneAdmin.db r) : r = 1 := by
  obtain ⟨g, hg, rfl, -⟩ := h
  rw [List.mem_singleton.mp hg]

theorem oneAdmin_trusts : Trusts openAccountLib (· = 1) oneAdmin := by
  constructor
  · rintro k rfl
    rfl
  · rintro k r ⟨g, hg, rfl, -, rfl⟩ hr
    have hrole := oneAdmin_manages hr
    rcases List.mem_cons.mp hg with rfl | hg
    · rfl
    · rw [List.mem_singleton.mp hg] at hrole
      cases hrole
  · intro t ht r hr hmanages
    cases oneAdmin_manages hmanages
    rcases List.mem_cons.mp ht with rfl | ht
    · exact ⟨1, rfl, _, rfl, rfl⟩
    · rw [List.mem_singleton.mp ht] at hr
      cases List.mem_singleton.mp hr
  · intro r hr hname hmanages
    have hid := oneAdmin_manages hmanages
    rcases List.mem_cons.mp hr with rfl | hr
    · exact absurd hname (by decide)
    · rw [List.mem_singleton.mp hr] at hid
      cases hid

theorem promotions_unassisted (i : Fin 2) : (promotions i).Unassisted oneAdmin.db (· = 1) := by
  have hname : ¬Names oneAdmin.db (· = 1) 22 := by
    rintro ⟨k, rfl, u, hu, hpid⟩
    cases hu
    cases hpid
  rintro admin hreq target payload token - htoken hnamed
  rcases i with ⟨_ | _ | k, hi⟩
  · cases hreq
    cases htoken
    exact hname hnamed
  · cases hreq
    cases htoken
    exact hname hnamed
  · omega

/-- Was the request refused with a status? -/
def refused (status : ℕ) : Option (Except (Exn AppErr) AccountReply) → Bool
  | some (.error (.app (.http k _))) => k = status
  | some (.ok (.api (.invalidAuth k _))) => k = status
  | _ => false

/-- Both are refused. -/
theorem roles_confined_buyer : ∃ s, (accountRequests openAccountLib promotions oneAdmin).Reach s ∧
    refused 401 (s.outcome 0) = true ∧ refused 401 (s.outcome 1) = true ∧
    Kept (· = 1) oneAdmin.db s.world.toShared := by
  have hexec : ((accountRequests openAccountLib promotions oneAdmin).exec (fun _ _ _ _ _ => True)
      ([.proc 0 (.host .proceed), .proc 1 (.host .proceed)] ++ .replicate 4 (.proc 0 .go))).map
      (fun s => (refused 401 (s.outcome 0), refused 401 (s.outcome 1))) = some (true, true) := by
    decide +kernel
  obtain ⟨s, hs, heq⟩ := Option.map_eq_some_iff.mp hexec
  obtain ⟨h₀, h₁⟩ := Prod.mk.inj heq
  obtain ⟨⟨⟩, hrun⟩ := Sys.run_of_exec History.none () hs
  exact ⟨s, hrun, h₀, h₁, (roles_confined oneAdmin_ok oneAdmin_trusts promotions_unassisted hrun).1⟩

end Phyllonix.Auth
