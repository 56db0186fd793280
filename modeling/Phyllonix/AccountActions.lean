import Phyllonix.AuthActions
import Phyllonix.SessionLogout

/-!
# Which actions the requests of accounts take

Of all requests only a signup adds a user, with the address of its payload.
-/

namespace Phyllonix.Auth
open Relational

/-- The statements of every request, apart from the insertion of a user. -/
structure AccountStatements (A : AuthAction → Prop) : Prop extends AdminStatements A where
  sign : ∀ token, A (.host (.sign token))

/-- A signup may add a user with this address. -/
def AddsUser (A : AuthAction → Prop) (email : String) : Prop :=
  ∀ (pid : UUID) (hmk : ∀ n, rowId (t := .users) ⟨n, pid, some email, 0, none⟩ = n),
    A (.insert .users (fun n => ⟨n, pid, some email, 0, none⟩) hmk true)

variable {A : AuthAction → Prop} {lib : AccountLib}

section Programs
variable (hA : AccountStatements A)
include hA

theorem loginUser_acts (lib : Lib) (req : LoginRequest) : (loginUser lib req).Acts A := by
  have hissue : ∀ token, (issueAuthTokens lib req token).Acts A := by
    intro token
    rw [issueAuthTokens]
    apply (identifyUser_acts hA.toReads _ _ _).bind
    intro user
    apply (identifyDeviceSession_acts hA.toReads _ _).bind
    intro o
    cases o with
    | none => trivial
    | some ds =>
    dsimp only
    split
    · trivial
    apply Prog.Acts.bind (.call hA.now)
    intro t
    split
    · trivial
    apply (issueLocked_acts hA.toStatements hA.commit _ _ _).bind
    intro plain
    apply (getUserRoleIds_acts hA.toReads _).bind
    intro roles
    apply (createAccessToken_acts hA.toReads hA.sign _ _ _ _ _).bind
    intro access
    trivial
  rw [loginUser]
  split
  · trivial
  · trivial
  · apply (hissue _).bind
    intro issued
    trivial

theorem refreshAuth_acts (lib : Lib) (refreshToken : Option String) : (refreshAuth lib refreshToken).Acts A := by
  have hvalidate : ∀ plain, (validateRefreshAndUpdateRefresh lib plain).Acts A := by
    intro plain
    rw [validateRefreshAndUpdateRefresh]
    apply Prog.Acts.bind (.call hA.now)
    intro t
    apply (getDeviceAuth_acts hA.toReads _).bind
    intro o
    cases o with
    | none => trivial
    | some r =>
    dsimp only
    cases r.expiresAt with
    | none => trivial
    | some expiresAt =>
    dsimp only
    split
    · trivial
    split
    · trivial
    apply (getDeviceSessionFields_acts hA.toReads _ _).bind
    intro o
    cases o with
    | none => trivial
    | some ds =>
    dsimp only
    split
    · trivial
    split
    · trivial
    apply (rotateLocked_acts hA.toStatements hA.commit _ _ _ _ _).bind
    intro plain'
    apply (fetchUserClaims_acts hA.toReads _).bind
    intro claims
    trivial
  rw [refreshAuth.eq_def]
  split
  · trivial
  · trivial
  · apply (hvalidate _).bind
    rintro ⟨claims, spid, plain'⟩
    apply (createAccessToken_acts hA.toReads hA.sign _ _ _ _ _).bind
    intro access
    trivial

theorem AuthRequest.handler_acts (lib : Lib) (req : AuthRequest) : (req.handler lib).Acts A := by
  cases req with
  | login req => exact loginUser_acts hA lib req
  | refresh token => exact refreshAuth_acts hA lib token
  | changePassword req => exact changePassword_acts hA.toStatements hA.commit lib req

theorem ApiRequest.program_acts (lib : AdminLib) (req : ApiRequest) : (req.program lib).Acts A := by
  cases req with
  | auth req =>
    apply ((req.handler_acts hA lib.toLib).session hA.rollback).bind
    intro r
    trivial
  | admin req => exact (dispatch_acts hA.toAdminStatements lib req).attempt

theorem sessionInit_acts : (sessionInit lib).Acts A := by
  rw [sessionInit, saveDeviceState]
  apply Prog.Acts.bind
  · apply Prog.Acts.bind (.call hA.randomText)
    intro plain
    apply Prog.Acts.bind (.call hA.randomText)
    intro drawn
    apply Prog.Acts.bind (.call hA.now)
    intro t
    apply Prog.Acts.bind (.call hA.now)
    intro t'
    apply (Prog.insertRow_acts (S := accounts) (hA.insert .deviceSession _ _ _ nofun)).bind
    intro ds
    trivial
  · rintro ⟨k, pid, plain⟩
    apply Prog.Acts.bind (.call hA.commit)
    intro _
    trivial

theorem insertOrNothing_acts {t : Table} {mk : ℕ → t.Row} {hmk : ∀ n, rowId (mk n) = n}
    (ht : t ≠ .users) : (insertOrNothing t mk hmk).Acts A := .call (hA.insert t mk hmk true ht)

theorem createNGetUser_acts {email : String} (hemail : AddsUser A email) :
    (createNGetUser lib email).Acts A := by
  rw [createNGetUser]
  apply Prog.Acts.bind (.call hA.randomText)
  intro drawn
  apply Prog.Acts.bind (.call (hemail _ _))
  intro row
  cases row with
  | some user => trivial
  | none =>
    dsimp only
    apply (select_acts hA.toReads (t := .users) _).bind
    intro res
    apply (oneOrNone_acts _).bind
    intro found
    split <;> trivial

theorem createCredential_acts (userId : ℕ) (hash : String) : (createCredential lib userId hash).Acts A := by
  rw [createCredential]
  apply Prog.Acts.bind (.call hA.now)
  intro t
  apply (insertOrNothing_acts hA (t := .credential) nofun).bind
  intro row
  have hfound : (credentialConflict lib userId).Acts A := by
    apply (select_acts hA.toReads (t := .credential) _).bind
    intro res
    apply (oneOrNone_acts _).bind
    intro found
    split <;> trivial
  split
  · exact hfound
  · exact hfound
  · trivial

theorem linkUserRole_acts (userId : ℕ) : (linkUserRole lib userId).Acts A := by
  rw [linkUserRole]
  apply (select_acts hA.toReads (t := .role) _).bind
  intro res
  apply (oneOrNone_acts _).bind
  intro found
  split
  · trivial
  · trivial
  · apply (insertOrNothing_acts hA (t := .userRole) nofun).bind
    intro row
    trivial

theorem signupUser_acts {payload : SignupIn} (hemail : AddsUser A payload.email) :
    (signupUser lib payload).Acts A := by
  have hcreate : (createSignup lib payload).Acts A := by
    rw [createSignup]
    apply (createNGetUser_acts hA hemail).bind
    intro userData
    apply Prog.Acts.bind (.call hA.randomText)
    intro salt
    apply (createCredential_acts hA _ _).bind
    intro credId
    apply (linkUserRole_acts hA _).bind
    intro _
    apply Prog.Acts.bind (.call hA.commit)
    intro _
    trivial
  rw [signupUser, signupValidation]
  cases normalizeEmailAddress lib payload.email with
  | error e => trivial
  | ok normalised =>
    generalize validatePassword lib.toLib payload.password = valid
    dsimp only
    split
    · trivial
    · apply hcreate.bind
      intro userData
      trivial

theorem AccountRequest.program_acts (req : AccountRequest)
    (hemail : ∀ payload, req = .signup payload → AddsUser A payload.email) :
    (req.program lib).Acts A := by
  cases req with
  | api req =>
    apply (req.program_acts hA lib.toAdminLib).bind
    intro r
    trivial
  | sessionInit => exact (sessionInit_acts hA).session hA.rollback
  | signup payload => exact (signupUser_acts hA (hemail payload rfl)).session hA.rollback
  | logout pid =>
    apply (logout_acts pid).mono
    intro a ha
    cases a with
    | host b =>
      cases b with
      | now => exact hA.now
      | _ => exact ha.elim
    | rollback => exact hA.rollback
    | _ => exact ha.elim

end Programs
end Phyllonix.Auth
