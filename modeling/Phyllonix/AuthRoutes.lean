import Phyllonix.AuthSchema

/-!
# Login, refresh and change of password

The handlers and the statements of their repository. Password hashing, token hashing
and the character classes are parameters, as are the configured lifetimes. A request
runs in a session of its own.
-/

namespace Phyllonix.Auth
open Relational

structure Lib where
  hashToken : String → String
  hashPassword : (salt plain : String) → String
  verifyPassword : (plain hash : String) → Bool
  lower : String → String
  isSpace : Char → Bool
  isLower : Char → Bool
  isUpper : Char → Bool
  isDigit : Char → Bool
  accessTokenExpireMinutes : ℕ
  refreshTokenExpire : ℕ
  /-- What a session hands out for a row that it holds an object of: the first argument
  is that object, the second the row that was read. -/
  reloaded : DeviceAuthToken → DeviceAuthToken → DeviceAuthToken

def strip (lib : Lib) (s : String) : String :=
  String.ofList ((s.toList.dropWhile lib.isSpace).reverse.dropWhile lib.isSpace).reverse

/-- The answers with status 200. A refresh token is set as a cookie. -/
inductive Answer where
  | tokens (access : AccessToken) (refresh : String)
  | message (text : String)

/-! ## Passwords and tokens -/

def SPECIALS : List Char := "!@#$%^&*(),.?\":\x7b\x7d|<>\\/~`_-+=;:[]".toList

@[irreducible] def validatePassword (lib : Lib) (password : String) (minLength : ℕ := 8) : Bool × String :=
  let pw := (strip lib password).toList
  if pw.length < minLength then
    (false, "Password must be at least " ++ toString minLength ++ " characters long")
  else if !pw.any lib.isLower then (false, "Password must include at least one lowercase letter")
  else if !pw.any lib.isUpper then (false, "Password must include at least one uppercase letter")
  else if !pw.any lib.isDigit then (false, "Password must include at least one digit")
  else if !pw.any (· ∈ SPECIALS) then
    (false, "Password must include at least one special character")
  else (true, "OK")

def createAccessToken (lib : Lib) (userId : UUID) (userRoles : List ℕ) (roleVersion : ℕ)
    (sessionPid : UUID) : Py AccessToken := do
  let t ← now
  let jti ← randomText
  let token : AccessToken := ⟨userId, t / 1000000, (t + minutes lib.accessTokenExpireMinutes) / 1000000,
    jti, userRoles, roleVersion, sessionPid⟩
  hostCall (.sign token)
  pure token

/-! ## Users and credentials -/

def userByEmail (email : String) : Py Users := do
  let res ← select .users fun u : Users => u.email = some email && u.deletedAt.isNone
  match res with
  | [] => httpException 401 "Email provided is not valid"
  | u :: _ => pure u

def identifyUser (lib : Lib) (email password : String) : Py Users := do
  let user ← userByEmail (lib.lower (strip lib email))
  let res ← select .credential fun c : Credential => c.userId = user.id && c.type = .password
  match res with
  | [] => raiseApp (.typeError "'NoneType' object is not subscriptable")
  | c :: _ =>
    match c.passwordHash with
    | none | some "" => httpException 401 "Invalid credentials"
    | some pwdHash =>
      if lib.verifyPassword password pwdHash then pure user
      else httpException 401 "Invalid credentials"

def getPasswordCredential (userId : ℕ) : Py (Option String) := do
  let res ← select .credential fun c : Credential => c.userId = userId && c.type = .password
  match ← oneOrNone res with
  | none => httpException 403 "Unexpected,No credential found for user"
  | some c =>
    if c.revokedAt.isSome then httpException 403 "User password credential revoked"
    else pure c.passwordHash

def updatePassword (userId : ℕ) (newHash : String) : Py (Option ℕ) := do
  let t ← now
  let res ← update .credential
    (fun c : Credential => c.userId = userId && c.type = .password && c.revokedAt.isNone)
    fun c : Credential => { c with passwordHash := some newHash, updatedAt := t }
  let cred ← oneOrNone res
  pure (cred.map Credential.id)

def getUserRoleIds (userId : ℕ) : Py (List ℕ) := do
  let res ← select .userRole fun r : UserRole => r.userId = userId && !r.deleted
  pure (res.map UserRole.roleId)

structure UserClaims where
  userPublicId : UUID
  roleVersion : ℕ
  roleIds : List ℕ

def userClaimRows (d : Db) (userId : ℕ) : List (Users × ℕ) :=
  ((d .users).filter fun u : Users => u.id = userId).flatMap fun u : Users =>
    ((d .userRole).filter fun r : UserRole => r.userId = u.id && !r.deleted).map fun r : UserRole =>
      (u, r.roleId)

def fetchUserClaims (userId : ℕ) : Py UserClaims := do
  let rows ← Prog.call (.read fun d : Db => userClaimRows d userId : AuthAction)
  match rows with
  | [] => raiseApp .indexError
  | (u, r) :: rest => pure ⟨u.publicId, u.roleVersion, r :: rest.map Prod.snd⟩

/-! ## Device sessions -/

def identifyDeviceSession (lib : Lib) (deviceSession : String) : Py (Option DeviceSession) := do
  let res ← selectForUpdate .deviceSession
    fun s : DeviceSession => s.sessionTokenHash = lib.hashToken deviceSession
  oneOrNone res

def linkUserDevice (dsId userId : ℕ) : Py Unit := do
  let t ← now
  let _ ← update .deviceSession (fun s : DeviceSession => s.id = dsId)
    fun s : DeviceSession => { s with userId := some userId, lastActivityAt := some t }

def getDeviceSessionFields (userId dsId : ℕ) : Py (Option DeviceSession) := do
  let res ← selectForUpdate .deviceSession
    fun s : DeviceSession => s.id = dsId && s.userId = some userId
  pure res.head?

def updateDeviceSessionLastActivity (dsId t : ℕ) : Py Unit := do
  let _ ← update .deviceSession (fun s : DeviceSession => s.id = dsId)
    fun s : DeviceSession => { s with lastActivityAt := some t }

/-! ## Refresh tokens -/

def DeviceAuthToken.live (r : DeviceAuthToken) : Bool := r.revokedAt.isNone

def DeviceAuthToken.revoke (by_ : String) (t : ℕ) (r : DeviceAuthToken) : DeviceAuthToken :=
  { r with revokedAt := some t, revokedBy := some by_ }

def revokeAllTokensPerUser (userId : ℕ) (revokedBy : String) : Py Unit := do
  let t ← now
  let _ ← update .deviceAuthToken (fun r : DeviceAuthToken => r.userId = userId && r.live)
    (DeviceAuthToken.revoke revokedBy t)

def saveRefreshToken (lib : Lib) (dsId userId : ℕ) (revokedBy : String) : Py String := do
  let t ← now
  let _ ← update .deviceAuthToken
    (fun r : DeviceAuthToken => r.deviceSessionId = dsId && r.userId = userId && r.live)
    (DeviceAuthToken.revoke revokedBy t)
  let refreshPlain ← randomText
  let _ ← insert .deviceAuthToken fun n =>
    { id := n
      deviceSessionId := dsId
      userId
      tokenHash := lib.hashToken refreshPlain
      issuedAt := t
      expiresAt := some (t + days lib.refreshTokenExpire)
      revokedAt := none
      revokedBy := none
      authMethod := .password }
  pure refreshPlain

def getDeviceAuth (tokenHash : String) : Py (Option DeviceAuthToken) := do
  let res ← select .deviceAuthToken fun r : DeviceAuthToken => r.tokenHash = tokenHash
  oneOrNone res

/-- The same select with a lock, in a session that holds the object `held`. -/
def getLockedDeviceAuth (lib : Lib) (tokenHash : String) (held : DeviceAuthToken) :
    Py (Option DeviceAuthToken) := do
  let res ← selectForUpdate .deviceAuthToken fun r : DeviceAuthToken => r.tokenHash = tokenHash
  let row ← oneOrNone res
  pure (row.map fun r => if r.id = held.id then lib.reloaded held r else r)

def revokeDeviceAndTokens (dsId : ℕ) (revokedBy : String) : Py Unit := do
  let t ← now
  let _ ← update .deviceAuthToken
    (fun r : DeviceAuthToken => r.deviceSessionId = dsId && r.live)
    (DeviceAuthToken.revoke revokedBy t)
  let _ ← update .deviceSession (fun s : DeviceSession => s.id = dsId)
    fun s : DeviceSession => { s with revokedAt := some t }

/-! ## Handlers -/

structure LoginRequest where
  email : String
  password : String
  deviceSessionToken : Option String

/-- The part of login that holds the lock of a usable device session. -/
def issueLocked (lib : Lib) (userId : ℕ) (ds : DeviceSession) : Py String := do
  let _ ← if ds.userId.getD 0 = 0 then linkUserDevice ds.id userId else pure ()
  let refreshToken ← saveRefreshToken lib ds.id userId "new_login"
  commit
  pure refreshToken

def issueAuthTokens (lib : Lib) (req : LoginRequest) (deviceSession : String) :
    Py (AccessToken × String) := do
  let user ← identifyUser lib req.email req.password
  match ← identifyDeviceSession lib deviceSession with
  | none => httpException 401 "invalid device session"
  | some ds =>
    if ds.revokedAt.isSome then httpException 401 "device session is already revoked"
    else
      let t ← now
      if ds.sessionExpiresAt ≤ t then httpException 401 "device session expired"
      else
        let refreshToken ← issueLocked lib user.id ds
        let userRoles ← getUserRoleIds user.id
        let accessToken ← createAccessToken lib user.publicId userRoles user.roleVersion ds.publicId
        pure (accessToken, refreshToken)

def loginUser (lib : Lib) (req : LoginRequest) : Py Answer := do
  match req.deviceSessionToken with
  | none | some "" => httpException 400 "Device session token is required for login"
  | some deviceSession =>
    let (access, refresh) ← issueAuthTokens lib req deviceSession
    pure (.tokens access refresh)

def reuseDetail : String := "Refresh token reuse detected; session revoked"

/-- The part of refresh that holds the lock of the device session. -/
def rotateLocked (lib : Lib) (t : ℕ) (plainToken : String) (deviceAuth : DeviceAuthToken)
    (ds : DeviceSession) : Py String := do
  match ← getLockedDeviceAuth lib (lib.hashToken plainToken) deviceAuth with
  | none => httpException 403 "Invalid refresh token "
  | some locked =>
    if locked.revokedAt.isSome && !(locked.revokedBy ∈
        [none, some "rotation", some "rotated", some "rotated_by_device"]) then
      revokeDeviceAndTokens deviceAuth.deviceSessionId "reuse_detetction"
      httpException 403 reuseDetail
    else
      match locked.expiresAt with
      | none => raiseApp (.typeError "'>=' not supported between instances of 'datetime.datetime' and 'NoneType'")
      | some expiresAt =>
        if expiresAt ≤ t + 40 * 1000000 then httpException 401 "Refresh token expired"
        else
          let refreshPlain ← saveRefreshToken lib ds.id deviceAuth.userId "rotation"
          updateDeviceSessionLastActivity ds.id t
          commit
          pure refreshPlain

def validateRefreshAndUpdateRefresh (lib : Lib) (plainToken : String) :
    Py (UserClaims × UUID × String) := do
  let t ← now
  match ← getDeviceAuth (lib.hashToken plainToken) with
  | none => httpException 403 "Invalid refresh token "
  | some deviceAuth =>
    match deviceAuth.expiresAt with
    | none => raiseApp (.typeError "'<=' not supported between instances of 'NoneType' and 'datetime.datetime'")
    | some expiresAt =>
      if expiresAt ≤ t + minutes 1 then httpException 403 "Refresh token expired"
      else if deviceAuth.revokedAt.isSome then httpException 403 "Refresh token revoked"
      else
        match ← getDeviceSessionFields deviceAuth.userId deviceAuth.deviceSessionId with
        | none => httpException 401 "Device session unauthorized or invalid"
        | some ds =>
          if ds.revokedAt.isSome then httpException 401 "Device session revoked"
          else if ds.sessionExpiresAt ≤ t then httpException 401 "Session absolute expiry reached"
          else
            let refreshPlain ← rotateLocked lib t plainToken deviceAuth ds
            let claims ← fetchUserClaims deviceAuth.userId
            pure (claims, ds.publicId, refreshPlain)

def refreshAuth (lib : Lib) (refreshToken : Option String) : Py Answer := do
  match refreshToken with
  | none | some "" => httpException 401 "Missing refresh token"
  | some plainToken =>
    let (claims, sessionPid, refreshPlain) ← validateRefreshAndUpdateRefresh lib plainToken
    let access ← createAccessToken lib claims.userPublicId claims.roleIds claims.roleVersion sessionPid
    pure (.tokens access refreshPlain)

structure ChangePasswordRequest where
  userIdentifier : ℕ
  currentPassword : String
  newPassword : String

def changePassword (lib : Lib) (req : ChangePasswordRequest) : Py Answer := do
  let (isValid, detail) := validatePassword lib req.newPassword
  if !isValid then httpException 400 detail
  else
    match ← getPasswordCredential req.userIdentifier with
    | none => raiseApp (.typeError "hash must be unicode or bytes, not None")
    | some currPwdHash =>
      if !lib.verifyPassword req.currentPassword currPwdHash then
        httpException 403 "Current password is incorrect"
      else
        let salt ← randomText
        match ← updatePassword req.userIdentifier (lib.hashPassword salt req.newPassword) with
        | none | some 0 => httpException 500 "Failed to update password retry"
        | some _ =>
          revokeAllTokensPerUser req.userIdentifier "password_change"
          commit
          pure (.message "Password changed successfully")

inductive AuthRequest where
  | login (req : LoginRequest)
  | refresh (refreshToken : Option String)
  | changePassword (req : ChangePasswordRequest)

def AuthRequest.handler (lib : Lib) : AuthRequest → Py Answer
  | .login req => loginUser lib req
  | .refresh refreshToken => refreshAuth lib refreshToken
  | .changePassword req => Auth.changePassword lib req

/-- Requests that run at the same time. -/
def authRequests {n : ℕ} (lib : Lib) (reqs : Fin n → AuthRequest) (w : World accounts authHost) :
    Sys accounts authHost n (Except (Exn AppErr) Answer) :=
  .start w fun i => ((reqs i).handler lib).session

end Phyllonix.Auth
