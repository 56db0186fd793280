import Phyllonix.AdminRoutes

/-!
# Signup, start of a device session, logout

The remaining handlers of accounts. The validator of addresses and the identifiers
that are drawn are parameters. A conflict of a drawn identifier is treated like one of
the column that a statement names.
-/

namespace Phyllonix.Auth
open Relational

structure AccountLib extends AdminLib where
  /-- The normalised address, or the text of the refusal. -/
  validateEmail : String → Except String String
  uuid7 : (drawn : String) → UUID
  defaultRole : String
  selfProvider : String
  deviceSessionExpireDays : ℕ

inductive AccountReply where
  | api (reply : ApiReply)
  | sessionStarted (devicePublicId : UUID) (sessionToken : String)
  | created (message : String)
  | loggedOut (message : String)

/-- `insert … on conflict do nothing returning …` -/
def insertOrNothing (t : Table) (mk : ℕ → t.Row) (hmk : ∀ n, rowId (mk n) = n := by intro _; rfl) :
    Py (Option t.Row) := .call (.insert t mk hmk true : AuthAction)

/-! ## Device sessions -/

def saveDeviceState (lib : AccountLib) (userId : Option ℕ) : Py (ℕ × UUID × String) := do
  let sessionTokenPlain ← randomText
  let drawn ← randomText
  let lastActivityAt ← now
  let t ← now
  let ds ← insert .deviceSession fun n =>
    { id := n
      sessionTokenHash := lib.hashToken sessionTokenPlain
      userId
      publicId := lib.uuid7 drawn
      lastActivityAt := some lastActivityAt
      revokedAt := none
      sessionExpiresAt := t + days lib.deviceSessionExpireDays }
  pure (ds.id, ds.publicId, sessionTokenPlain)

def sessionInit (lib : AccountLib) : Py AccountReply := do
  let (_, dsPublicId, dsTokenPlain) ← saveDeviceState lib none
  commit
  pure (.sessionStarted dsPublicId dsTokenPlain)

/-! ## Signup -/

structure SignupIn where
  email : String
  password : String

def normalizeEmailAddress (lib : AccountLib) (email : String) : Except String String :=
  (lib.validateEmail email).map lib.lower

/-- The payload itself is handed on, not what was checked. -/
def signupValidation (lib : AccountLib) (payload : SignupIn) : Py SignupIn := do
  match normalizeEmailAddress lib payload.email with
  | .error e => httpException 400 ("Invalid email: " ++ e)
  | .ok _ =>
    let (isValid, detail) := validatePassword lib.toLib payload.password
    if !isValid then httpException 400 detail else pure payload

def createNGetUser (lib : AccountLib) (email : String) : Py (ℕ × UUID) := do
  let drawn ← randomText
  let row ← insertOrNothing .users fun n =>
    { id := n, publicId := lib.uuid7 drawn, email := some email, roleVersion := 0, deletedAt := none }
  match row with
  | some user => pure (user.id, user.publicId)
  | none =>
    let res ← select .users fun u : Users => u.email = some email
    let found ← oneOrNone (res.map Users.email)
    match found.join with
    | none | some "" => httpException 409 "User creation conflict , unexpected , retry"
    | some existing => httpException 409 ("User with email " ++ existing ++ " already exists")

def createCredential (lib : AccountLib) (userId : ℕ) (passwordHash : String) : Py ℕ := do
  let t ← now
  let row ← insertOrNothing .credential fun n =>
    { id := n
      userId
      type := .password
      provider := lib.selfProvider
      passwordHash := some passwordHash
      updatedAt := t
      revokedAt := none }
  match row.map Credential.id with
  | none | some 0 =>
    let res ← select .credential fun c : Credential => c.userId = userId && c.provider = lib.selfProvider
    match ← oneOrNone (res.map Credential.userId) with
    | none | some 0 => raiseApp (.runtimeError
        "Invariant violation: credential insert resulted in no row and no existing credential row")
    | some _ => httpException 409 "Credentials exist already for the current provider"
  | some credId => pure credId

/-- What `createCredential` raises when the statement inserts no row. -/
def credentialConflict (lib : AccountLib) (userId : ℕ) : Py ℕ := do
  let res ← select .credential fun c : Credential => c.userId = userId && c.provider = lib.selfProvider
  match ← oneOrNone (res.map Credential.userId) with
  | none | some 0 => raiseApp (.runtimeError
      "Invariant violation: credential insert resulted in no row and no existing credential row")
  | some _ => httpException 409 "Credentials exist already for the current provider"

def linkUserRole (lib : AccountLib) (userId : ℕ) : Py Unit := do
  let res ← select .role fun r : Role => r.name = lib.defaultRole
  match ← oneOrNone (res.map Role.id) with
  | none | some 0 => raiseApp (.runtimeError
      ("Invariant violation: default role '" ++ lib.defaultRole ++ "' is missing"))
  | some roleId =>
    let _ ← insertOrNothing .userRole fun n => (⟨n, userId, roleId, false⟩ : UserRole)

def createSignup (lib : AccountLib) (payload : SignupIn) : Py (ℕ × UUID) := do
  let userData ← createNGetUser lib payload.email
  let salt ← randomText
  let _ ← createCredential lib userData.1 (lib.hashPassword salt payload.password)
  linkUserRole lib userData.1
  commit
  pure userData

def signupUser (lib : AccountLib) (payload : SignupIn) : Py AccountReply := do
  let payload ← signupValidation lib payload
  let _ ← createSignup lib payload
  pure (.created "User created successfully.")

/-! ## Logout -/

/-- What stands where a statement compares an identifier. -/
inductive Operand : Type 1 where
  | null
  | int (n : ℕ)
  /-- A call that is not awaited: none of its body runs. -/
  | coroutine (body : Py (Option ℕ))

def revokeDeviceNgetId (lib : AccountLib) (devicePublicId : Option String) : Py (Option ℕ) := do
  let t ← now
  match devicePublicId.map lib.uuidOf with
  | some none => raiseApp .dataError
  | pid =>
    let _ ← update .deviceSession (fun s : DeviceSession => some s.publicId = pid.join)
      (fun s : DeviceSession => { s with revokedAt := some t }) (rowId_revokedAt t)
    -- `res.scalar` is a method and has no `one_or_none`
    raiseApp .attributeError

/-- A coroutine is no value of a column, so the driver refuses the statement. -/
def revokeDeviceRefTokens (dsId : Operand) : Py Unit := do
  let t ← now
  let revokeIn (p : DeviceAuthToken → Bool) : Py Unit := do
    let _ ← update .deviceAuthToken p (DeviceAuthToken.revoke "logout" t)
  match dsId with
  | .null => revokeIn fun _ => false
  | .int n => revokeIn fun r => r.deviceSessionId = n
  | .coroutine _ => raiseApp .dataError

def logoutDeviceSession (lib : AccountLib) (devicePublicId : Option String) : Py Unit := do
  let _ ← now
  let dsId := Operand.coroutine (revokeDeviceNgetId lib devicePublicId)
  revokeDeviceRefTokens dsId
  commit

def logout (lib : AccountLib) (devicePublicId : Option String) : Py AccountReply := do
  logoutDeviceSession lib devicePublicId
  pure (.loggedOut "Logged out successfully.")

/-! ## Requests -/

inductive AccountRequest where
  | api (req : ApiRequest)
  | sessionInit
  | signup (payload : SignupIn)
  | logout (devicePublicId : Option String)

def AccountRequest.program (lib : AccountLib) : AccountRequest → Py (Except (Exn AppErr) AccountReply)
  | .api req => do
    let r ← req.program lib.toAdminLib
    pure (r.map .api)
  | .sessionInit => (Auth.sessionInit lib).session
  | .signup payload => (signupUser lib payload).session
  | .logout devicePublicId => (Auth.logout lib devicePublicId).session

/-- Requests that run at the same time. -/
def accountRequests {n : ℕ} (lib : AccountLib) (reqs : Fin n → AccountRequest)
    (w : World accounts authHost) : Sys accounts authHost n (Except (Exn AppErr) AccountReply) :=
  .start w fun i => (reqs i).program lib

end Phyllonix.Auth
