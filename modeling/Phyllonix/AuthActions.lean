import Phyllonix.AdminRoutes

/-!
# Which actions the handlers take

One lemma for each function of the repository, for every class of actions that holds
the statements of the handlers. Among them only a change of roles writes a user, and only
the creation of an access token signs.
-/

namespace Phyllonix.Auth
open Relational

/-- The class holds the statements that only read, and the clock. -/
structure Reads (A : AuthAction → Prop) : Prop where
  read : ∀ {β : Type} (f : Db → β), A (.read f)
  lock : ∀ (t : Table) (p : t.Row → Bool), A (.lock t p)
  now : A (.host .now)
  randomText : A (.host .randomText)

/-- The class holds the statements that write other tables than that of the users. -/
structure Writes (A : AuthAction → Prop) : Prop extends Reads A where
  update : ∀ (t : Table) (p : t.Row → Bool) (f : t.Row → t.Row) (hf : ∀ r, rowId (f r) = rowId r),
    t ≠ .users → A (.update t p f hf)
  insert : ∀ (t : Table) (mk : ℕ → t.Row) (hmk : ∀ n, rowId (mk n) = n) (skip : Bool),
    t ≠ .users → A (.insert t mk hmk skip)

/-- The updates of the handlers: tokens are revoked, and a device session keeps its names. -/
def Revises : (t : Table) → (t.Row → t.Row) → Prop
  | .users, _ => False
  | .deviceAuthToken, f => ∃ by_ t, f = DeviceAuthToken.revoke by_ t
  | .deviceSession, f => ∀ s : DeviceSession,
      (f s).publicId = s.publicId ∧ (f s).sessionTokenHash = s.sessionTokenHash
  | .credential, f => ∀ c : Credential, (f c).userId = c.userId ∧ (f c).provider = c.provider
  | _, _ => True

structure Statements (A : AuthAction → Prop) : Prop extends Reads A where
  update : ∀ (t : Table) (p : t.Row → Bool) (f : t.Row → t.Row) (hf : ∀ r, rowId (f r) = rowId r),
    Revises t f → A (.update t p f hf)
  insert : ∀ (t : Table) (mk : ℕ → t.Row) (hmk : ∀ n, rowId (mk n) = n) (skip : Bool),
    t ≠ .users → A (.insert t mk hmk skip)

theorem Writes.statements {A : AuthAction → Prop} (hA : Writes A) : Statements A := by
  refine ⟨hA.toReads, fun t p f hf h => hA.update t p f hf ?_, hA.insert⟩
  rintro rfl
  exact h

/-- The statements of a change of roles, and the ends of transactions, as well. -/
structure AdminStatements (A : AuthAction → Prop) : Prop extends Statements A where
  promote : ∀ (p : Users → Bool) (hf : ∀ u : Users, rowId (t := .users) u.promote = rowId (t := .users) u),
    A (.update .users p Users.promote hf)
  verify : ∀ token, A (.host (.verify token))
  commit : A .commit
  rollback : A .rollback

/-- The statements of the requests of administrators: the roles of users, and their versions. -/
structure RoleStatements (A : AuthAction → Prop) : Prop extends Reads A where
  change : ∀ (p : UserRole → Bool) (f : UserRole → UserRole)
    (hf : ∀ r : UserRole, rowId (t := .userRole) (f r) = rowId (t := .userRole) r), A (.update .userRole p f hf)
  add : ∀ (mk : ℕ → UserRole) (hmk : ∀ n, rowId (t := .userRole) (mk n) = n) (skip : Bool),
    A (.insert .userRole mk hmk skip)
  promote : ∀ (p : Users → Bool) (hf : ∀ u : Users, rowId (t := .users) u.promote = rowId (t := .users) u),
    A (.update .users p Users.promote hf)
  verify : ∀ token, A (.host (.verify token))
  commit : A .commit
  rollback : A .rollback

theorem AdminStatements.roles {A : AuthAction → Prop} (hA : AdminStatements A) : RoleStatements A where
  toReads := hA.toReads
  change p f hf := hA.update .userRole p f hf trivial
  add mk hmk skip := hA.insert .userRole mk hmk skip (fun h => by cases h)
  promote := hA.promote
  verify := hA.verify
  commit := hA.commit
  rollback := hA.rollback

/-- The action only reads. -/
abbrev Quiet : AuthAction → Prop := fun a => a.Within ∧ a.Confined fun _ => False

theorem quiet_reads : Reads Quiet :=
  ⟨fun _ => ⟨trivial, trivial⟩, fun _ _ => ⟨trivial, trivial⟩, ⟨trivial, trivial⟩, ⟨trivial, trivial⟩⟩

theorem within_writes : Statements (Action.Within : AuthAction → Prop) :=
  ⟨⟨fun _ => trivial, fun _ _ => trivial, trivial, trivial⟩, fun _ _ _ _ _ => trivial,
    fun _ _ _ _ _ => trivial⟩

variable {A : AuthAction → Prop}

theorem oneOrNone_acts {α : Type} (rows : List α) : (oneOrNone rows).Acts A := by
  cases rows with
  | nil => trivial
  | cons a rows => cases rows <;> trivial

/-! ## Statements that read -/

section Reads
variable (hA : Reads A)
include hA

theorem select_acts {t : Table} (p : t.Row → Bool) : (select t p).Acts A :=
  Prog.select_acts fun f => hA.read f

theorem selectForUpdate_acts {t : Table} (p : t.Row → Bool) : (selectForUpdate t p).Acts A :=
  .call (hA.lock t p)

theorem identifyUser_acts (lib : Lib) (email password : String) :
    (identifyUser lib email password).Acts A := by
  rw [identifyUser]
  have huser : (userByEmail (lib.lower (strip lib email))).Acts A := by
    apply (select_acts hA (t := .users) _).bind
    intro res
    cases res <;> trivial
  apply huser.bind
  intro user
  apply (select_acts hA (t := .credential) _).bind
  intro res
  split
  · trivial
  · split
    · trivial
    · trivial
    · split <;> trivial

theorem getPasswordCredential_acts (u : ℕ) : (getPasswordCredential u).Acts A := by
  apply (select_acts hA (t := .credential) _).bind
  intro rows
  apply (oneOrNone_acts rows).bind
  intro o
  cases o with
  | none => trivial
  | some c =>
    dsimp only
    split <;> trivial

theorem getUserRoleIds_acts (u : ℕ) : (getUserRoleIds u).Acts A := by
  apply (select_acts hA (t := .userRole) _).bind
  intro res
  trivial

theorem createAccessToken_acts (hs : ∀ token, A (.host (.sign token))) (lib : Lib) (pid : UUID)
    (roles : List ℕ) (version : ℕ) (spid : UUID) :
    (createAccessToken lib pid roles version spid).Acts A := by
  apply Prog.Acts.bind (.call hA.now)
  intro t
  apply Prog.Acts.bind (.call hA.randomText)
  intro jti
  apply Prog.Acts.bind (.call (hs _))
  intro _
  trivial

theorem fetchUserClaims_acts (u : ℕ) : (fetchUserClaims u).Acts A := by
  apply Prog.Acts.bind (.call (hA.read _))
  intro rows
  cases rows <;> trivial

theorem identifyDeviceSession_acts (lib : Lib) (token : String) :
    (identifyDeviceSession lib token).Acts A := by
  apply (selectForUpdate_acts hA (t := .deviceSession) _).bind
  intro rows
  exact oneOrNone_acts rows

theorem getDeviceAuth_acts (hash : String) : (getDeviceAuth hash).Acts A := by
  apply (select_acts hA (t := .deviceAuthToken) _).bind
  intro rows
  exact oneOrNone_acts rows

theorem getLockedDeviceAuth_acts (lib : Lib) (hash : String) (held : DeviceAuthToken) :
    (getLockedDeviceAuth lib hash held).Acts A := by
  apply (selectForUpdate_acts hA (t := .deviceAuthToken) _).bind
  intro rows
  apply (oneOrNone_acts rows).bind
  intro o
  trivial

theorem getDeviceSessionFields_acts (u ds : ℕ) : (getDeviceSessionFields u ds).Acts A := by
  apply (selectForUpdate_acts hA (t := .deviceSession) _).bind
  intro rows
  trivial

end Reads

/-! ## Statements that write -/

section Statements
variable (hA : Statements A)
include hA

theorem update_acts {t : Table} (p : t.Row → Bool) (f : t.Row → t.Row)
    (hf : ∀ r, rowId (f r) = rowId r) (h : Revises t f) : (update t p f hf).Acts A :=
  Prog.updateWhere_acts (fun g => hA.read g) fun _ => hA.update t _ f hf h

theorem linkUserDevice_acts (ds u : ℕ) : (linkUserDevice ds u).Acts A := by
  apply Prog.Acts.bind (.call hA.now)
  intro t
  apply (update_acts hA (t := .deviceSession) _ _ _ (by intro _; exact ⟨rfl, rfl⟩)).bind
  intro rows
  trivial

theorem updateDeviceSessionLastActivity_acts (ds t : ℕ) :
    (updateDeviceSessionLastActivity ds t).Acts A := by
  apply (update_acts hA (t := .deviceSession) _ _ _ (by intro _; exact ⟨rfl, rfl⟩)).bind
  intro rows
  trivial

theorem saveRefreshToken_acts (lib : Lib) (ds u : ℕ) (by_ : String) :
    (saveRefreshToken lib ds u by_).Acts A := by
  apply Prog.Acts.bind (.call hA.now)
  intro t
  apply (update_acts hA (t := .deviceAuthToken) _ _ _ ⟨_, _, rfl⟩).bind
  intro rows
  apply Prog.Acts.bind (.call hA.randomText)
  intro plain
  apply (Prog.insertRow_acts (S := accounts) (hA.insert .deviceAuthToken _ _ _ nofun)).bind
  intro r
  trivial

theorem revokeAllTokensPerUser_acts (u : ℕ) (by_ : String) :
    (revokeAllTokensPerUser u by_).Acts A := by
  apply Prog.Acts.bind (.call hA.now)
  intro t
  apply (update_acts hA (t := .deviceAuthToken) _ _ _ ⟨_, _, rfl⟩).bind
  intro rows
  trivial

theorem revokeDeviceAndTokens_acts (ds : ℕ) (by_ : String) :
    (revokeDeviceAndTokens ds by_).Acts A := by
  apply Prog.Acts.bind (.call hA.now)
  intro t
  apply (update_acts hA (t := .deviceAuthToken) _ _ _ ⟨_, _, rfl⟩).bind
  intro rows
  apply (update_acts hA (t := .deviceSession) _ _ _ (by intro _; exact ⟨rfl, rfl⟩)).bind
  intro rows'
  trivial

theorem updatePassword_acts (u : ℕ) (hash : String) : (updatePassword u hash).Acts A := by
  apply Prog.Acts.bind (.call hA.now)
  intro t
  apply (update_acts hA (t := .credential) _ _ _ (by intro _; exact ⟨rfl, rfl⟩)).bind
  intro rows
  apply (oneOrNone_acts rows).bind
  intro o
  trivial

/-! ## Parts that commit -/

theorem issueLocked_acts (hc : A .commit) (lib : Lib) (u : ℕ) (ds : DeviceSession) :
    (issueLocked lib u ds).Acts A := by
  have hissue : (do
      let refreshToken ← saveRefreshToken lib ds.id u "new_login"
      commit
      pure refreshToken : Py String).Acts A := by
    apply (saveRefreshToken_acts hA _ _ _ _).bind
    intro plain
    apply Prog.Acts.bind (.call hc)
    intro _
    trivial
  rw [issueLocked]
  split
  · apply (linkUserDevice_acts hA _ _).bind
    intro _
    exact hissue
  · exact hissue

theorem rotateLocked_acts (hc : A .commit) (lib : Lib) (t : ℕ) (plain : String) (r : DeviceAuthToken)
    (ds : DeviceSession) : (rotateLocked lib t plain r ds).Acts A := by
  apply (getLockedDeviceAuth_acts hA.toReads _ _ _).bind
  intro o
  cases o with
  | none => trivial
  | some locked =>
  dsimp only
  split
  · apply (revokeDeviceAndTokens_acts hA _ _).bind
    intro _
    trivial
  · cases locked.expiresAt with
    | none => trivial
    | some e =>
      dsimp only
      split
      · trivial
      · apply (saveRefreshToken_acts hA _ _ _ _).bind
        intro plain'
        apply (updateDeviceSessionLastActivity_acts hA _ _).bind
        intro _
        apply Prog.Acts.bind (.call hc)
        intro _
        trivial

theorem changePassword_acts (hc : A .commit) (lib : Lib) (req : ChangePasswordRequest) :
    (changePassword lib req).Acts A := by
  rw [changePassword]
  generalize validatePassword lib req.newPassword = valid
  dsimp only
  split
  · trivial
  apply (getPasswordCredential_acts hA.toReads _).bind
  intro o
  cases o with
  | none => trivial
  | some hash =>
  dsimp only
  split
  · trivial
  apply Prog.Acts.bind (.call hA.randomText)
  intro salt
  apply (updatePassword_acts hA _ _).bind
  intro updated
  split
  · trivial
  · trivial
  · apply (revokeAllTokensPerUser_acts hA _ _).bind
    intro _
    apply Prog.Acts.bind (.call hc)
    intro _
    trivial

end Statements

/-! ## Requests of administrators -/

theorem withSession_acts {α : Type} {p : Py α} (h : p.Acts A)
    (hr : A .rollback) : (withSession p).Acts A := by
  apply (h.session hr).bind
  intro r
  cases r <;> trivial

section RoleStatements
variable (hA : RoleStatements A)
include hA

theorem addUserRoles_acts (userId : ℕ) (roles : List Role) (names : List String) :
    (addUserRoles userId roles names).Acts A := by
  induction names with
  | nil => trivial
  | cons name names ih =>
    rw [addUserRoles]
    split
    · trivial
    · rename_i role _
      have hinsert : (insert .userRole fun n =>
          (⟨n, userId, role.id, false⟩ : UserRole)).Acts A :=
        Prog.insertRow_acts (S := accounts) (hA.add _ _ _)
      apply hinsert.attempt.bind
      intro r
      split
      · exact ih
      · apply Prog.Acts.bind (.call hA.rollback)
        intro _
        exact ih
      · trivial

theorem changeUserRoles_acts (userId : ℕ) (curRoleIds : List ℕ) (names : List String) :
    (changeUserRoles userId curRoleIds names).Acts A := by
  have hroles : (getRoleIdsByNames names).Acts A := by
    apply (select_acts hA.toReads (t := .role) _).bind
    intro roles
    split <;> trivial
  have hpromote : (update .users (fun u : Users => u.id = userId) Users.promote).Acts A :=
    Prog.updateWhere_acts (fun g => hA.read g)
      fun _ => hA.promote _ _
  have hrest : ∀ roles : List Role, (do
      addUserRoles userId roles names
      updateRoleVersion userId : Py (Option ℕ)).Acts A := by
    intro roles
    apply (addUserRoles_acts hA userId roles names).bind
    intro _
    apply hpromote.attempt.bind
    intro r
    split
    · apply (oneOrNone_acts _).bind
      intro o
      trivial
    · apply Prog.Acts.bind (.call hA.rollback)
      intro _
      trivial
    · trivial
  apply hroles.bind
  intro roles
  dsimp only
  split
  · apply Prog.Acts.bind _ fun _ => hrest roles
    have hdelete : (update .userRole (fun r : UserRole => r.userId = userId && r.roleId ∈ curRoleIds && !r.deleted)
        UserRole.delete).Acts A := Prog.updateWhere_acts (fun g => hA.read g) fun _ => hA.change _ _ _
    apply hdelete.bind
    intro _
    trivial
  · exact hrest roles

theorem changeUserRole_acts (lib : AdminLib) (userPublicId : String) (payload : PromoteIn)
    (state : RequestState) : (changeUserRole lib userPublicId payload state).Acts A := by
  have htarget : (useridByPublicId lib userPublicId).Acts A := by
    rw [useridByPublicId]
    split
    · trivial
    · apply (select_acts hA.toReads (t := .users) _).bind
      intro res
      trivial
  have hnames : (getRolenamesByIds state.userRoles).Acts A := by
    apply (select_acts hA.toReads (t := .role) _).bind
    intro res
    trivial
  apply htarget.bind
  intro o
  split
  · trivial
  · trivial
  apply hnames.bind
  intro roleNames
  split
  · trivial
  apply (changeUserRoles_acts hA _ _ _).bind
  intro version
  apply Prog.Acts.bind (.call hA.commit)
  intro _
  trivial

theorem serve_acts (lib : AdminLib) (e : Endpoint) (state : Option RequestState) :
    (e.serve lib state).Acts A := by
  apply withSession_acts
  · cases state with
    | none => trivial
    | some st =>
      have hguard : (requirePermissions e.permission st.userRoles).Acts A := by
        apply Prog.Acts.bind (.call (hA.read _))
        intro rows
        apply (oneOrNone_acts rows).bind
        intro o
        split <;> trivial
      have hhandler : (e.handler lib st).Acts A := by
        cases e with
        | changeUserRole pid payload => exact changeUserRole_acts hA lib pid payload st
        | _ => trivial
      apply hguard.bind
      intro _
      apply hhandler.attempt.bind
      intro r
      trivial
  · exact hA.rollback

theorem dispatch_roles (lib : AdminLib) (req : AdminRequest) : (req.dispatch lib).Acts A := by
  have hauthorize : ∀ state, (authorizationDispatch req.endpoint.path state
      (req.endpoint.serve lib state)).Acts A := by
    intro state
    unfold authorizationDispatch
    split
    · exact serve_acts hA lib _ _
    cases state with
    | none => trivial
    | some st =>
      have hversion : (checkUserRolesVersion st.userIdentifier st.roleVersion).Acts A := by
        apply (select_acts hA.toReads (t := .users) _).bind
        intro res
        trivial
      apply (withSession_acts hversion hA.rollback).bind
      intro o
      split
      · trivial
      · exact serve_acts hA lib _ _
  have htoken : (authenticate req.token).Acts A := by
    cases req.token with
    | none => trivial
    | some t =>
      apply Prog.Acts.bind (.call (hA.verify t))
      intro ok
      trivial
  rw [AdminRequest.dispatch, authenticationDispatch]
  split
  · exact hauthorize none
  apply htoken.bind
  intro o
  cases o with
  | none => trivial
  | some t =>
  have hpid : (identifyUserByPid t.sub).Acts A := by
    apply (select_acts hA.toReads (t := .users) _).bind
    intro res
    exact oneOrNone_acts _
  apply (withSession_acts hpid hA.rollback).bind
  intro o
  split
  · trivial
  · trivial
  · exact hauthorize _

end RoleStatements

theorem dispatch_acts (hA : AdminStatements A) (lib : AdminLib) (req : AdminRequest) : (req.dispatch lib).Acts A :=
  dispatch_roles hA.roles lib req

end Phyllonix.Auth
