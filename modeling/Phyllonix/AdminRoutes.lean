import Phyllonix.AuthRoutes

/-!
# Guarded routes and the middlewares before them

Authentication runs first, authorization second, each in a session of its own. Both
select the requests by the prefix of their path. The routes with a permission guard
create products, update products and change the roles of a user. Products have tables
of their own; their handlers are not followed past the guard.
-/

namespace Phyllonix.Auth
open Relational

structure AdminLib extends Lib where
  /-- How the driver reads text that is compared with a UUID column. -/
  uuidOf : String → Option UUID

/-- What the middleware keeps of the access token for the request. -/
structure RequestState where
  userIdentifier : ℕ
  userPublicId : UUID
  userRoles : List ℕ
  roleVersion : ℕ
  sessionPid : UUID

inductive ApiReply where
  | answered (a : Answer)
  | invalidAuth (status : ℕ) (message : String)
  /-- The guard let the request pass, and the handler ended so. -/
  | handled (r : Except (Exn AppErr) String)

/-! ## Paths -/

def versionPrefix : String := "/api/v1"

def startswith (s p : String) : Bool := p.toList.isPrefixOf s.toList

/-- The paths that need no access token. -/
def authenticationPaths : List String :=
  ["/auth/", "/health", "/session/init", "/admin/uploads", "/webhooks"].map (versionPrefix ++ ·) ++
    ["/webhooks"] ++ ["/products", "/checkout/test", "/admin/tests"].map (versionPrefix ++ ·)

/-- The paths on which the role version is compared. -/
def authorizationPaths : List String := [versionPrefix ++ "/admin/products"]

def Authorized (path : String) : Prop := authorizationPaths.any (startswith path) = true

/-! ## Users and roles -/

/-- `async with session_maker() as session` -/
def withSession {α : Type} (p : Py α) : Py α := do
  let r ← p.session
  Prog.ofExcept r

def identifyUserByPid (userPid : UUID) : Py (Option ℕ) := do
  let res ← select .users fun u : Users => u.publicId = userPid && u.deletedAt.isNone
  oneOrNone (res.map Users.id)

def checkUserRolesVersion (identifier roleVersion : ℕ) : Py (Option ℕ) := do
  let res ← select .users fun u : Users => u.id = identifier && u.roleVersion = roleVersion
  pure (res.head?.map Users.roleVersion)

def useridByPublicId (lib : AdminLib) (userPid : String) : Py (Option ℕ) := do
  match lib.uuidOf userPid with
  | none => raiseApp .dataError
  | some pid =>
    let res ← select .users fun u : Users => u.publicId = pid
    pure (res.head?.map Users.id)

def getRoleIdsByNames (roleNames : List String) : Py (List Role) := do
  let roles ← select .role fun r : Role => r.name ∈ roleNames
  if roles.isEmpty || roles.length != roleNames.length then
    httpException 400 "One or more role names are invalid"
  else pure roles

def getRolenamesByIds (roleIds : List ℕ) : Py (List String) := do
  let res ← select .role fun r : Role => r.id ∈ roleIds
  pure (res.map Role.name)

def UserRole.delete (r : UserRole) : UserRole := { r with deleted := true }

def deleteUserRoles (userId : ℕ) (roleIds : List ℕ) : Py Unit := do
  let _ ← update .userRole
    (fun r : UserRole => r.userId = userId && r.roleId ∈ roleIds && !r.deleted) UserRole.delete

/-- A role that the user has already takes the statements before it back with it. -/
def addUserRoles (userId : ℕ) (roles : List Role) : List String → Py Unit
  | [] => pure ()
  | name :: names => do
    match roles.find? fun r => r.name = name with
    | none => raiseApp (.other name)
    | some role =>
      match ← (insert .userRole fun n => (⟨n, userId, role.id, false⟩ : UserRole)).attempt with
      | .ok _ => addUserRoles userId roles names
      | .error .integrity =>
        rollback
        addUserRoles userId roles names
      | .error e => .raise e

def Users.promote (u : Users) : Users := { u with roleVersion := u.roleVersion + 1 }

def changeUserRoles (userId : ℕ) (curRoleIds : List ℕ) (newRoleNames : List String) :
    Py (Option ℕ) := do
  let roles ← getRoleIdsByNames newRoleNames
  if !curRoleIds.isEmpty then deleteUserRoles userId curRoleIds
  addUserRoles userId roles newRoleNames
  match ← (update .users (fun u : Users => u.id = userId) Users.promote).attempt with
  | .ok res =>
    let user ← oneOrNone res
    pure (user.map Users.roleVersion)
  | .error .integrity =>
    rollback
    httpException 400 ("Integrity constraint violation while updating role_version: " ++
      exnText .integrity)
  | .error e => .raise e

/-- How `changeUserRoles` ends. -/
def updateRoleVersion (userId : ℕ) : Py (Option ℕ) := do
  match ← (update .users (fun u : Users => u.id = userId) Users.promote).attempt with
  | .ok res =>
    let user ← oneOrNone res
    pure (user.map Users.roleVersion)
  | .error .integrity =>
    rollback
    httpException 400 ("Integrity constraint violation while updating role_version: " ++
      exnText .integrity)
  | .error e => .raise e

/-! ## Routes -/

structure PromoteIn where
  roleNames : List String

inductive Endpoint where
  | createProduct
  | updateProduct (productPublicId : String)
  | changeUserRole (userPublicId : String) (payload : PromoteIn)

def Endpoint.path : Endpoint → String
  | .createProduct => versionPrefix ++ "/admin/products/"
  | .updateProduct productPublicId => versionPrefix ++ "/admin/products/" ++ productPublicId
  | .changeUserRole userPublicId _ => versionPrefix ++ "/admin/users/" ++ userPublicId ++ "/roles"

def Endpoint.permission : Endpoint → String
  | .createProduct => "product:create"
  | .updateProduct _ => "product:update"
  | .changeUserRole _ _ => "user:manage"

def changeUserRole (lib : AdminLib) (userPublicId : String) (payload : PromoteIn)
    (state : RequestState) : Py String := do
  match ← useridByPublicId lib userPublicId with
  | none | some 0 => httpException 404 "User not found"
  | some targetUserId =>
    let roleNames ← getRolenamesByIds state.userRoles
    if state.userIdentifier = targetUserId && "admin" ∈ roleNames && "admin" ∉ payload.roleNames then
      httpException 409 "An admin cannot downgrade their role"
    else
      let roleVersion ← changeUserRoles targetUserId state.userRoles payload.roleNames
      commit
      pure ("User roles updated successfully ,role_version: " ++ (roleVersion.map toString).getD "None")

def Endpoint.handler (lib : AdminLib) (state : RequestState) : Endpoint → Py String
  | .createProduct => pure "product created"
  | .updateProduct productPublicId => pure ("product " ++ productPublicId ++ " updated")
  | .changeUserRole userPublicId payload => Auth.changeUserRole lib userPublicId payload state

def permittedRows (d : Db) (perm : String) (userRoles : List ℕ) : List ℕ :=
  ((d .rolePermission).filter fun r : RolePermission => r.roleId ∈ userRoles &&
    (d .permission).any fun p : Permission => p.id = r.permissionId && p.name = perm).map
      fun r : RolePermission => r.id

def requirePermissions (perm : String) (userRoles : List ℕ) : Py Unit := do
  let rows ← Prog.call (.read fun d : Db => (permittedRows d perm userRoles).take 1 : AuthAction)
  match ← oneOrNone rows with
  | none | some 0 => httpException 401 "User doesn't have any permissions"
  | some _ => pure ()

/-- The guard and the handler share the session of the request. -/
def Endpoint.serve (lib : AdminLib) (e : Endpoint) (state : Option RequestState) : Py ApiReply :=
  withSession do
    match state with
    | none => raiseApp .attributeError
    | some st =>
      requirePermissions e.permission st.userRoles
      let r ← (e.handler lib st).attempt
      pure (.handled r)

/-! ## Middlewares -/

def authenticate (token : Option AccessToken) : Py (Option AccessToken) := do
  match token with
  | none => pure none
  | some t =>
    let ok ← hostCall (.verify t)
    pure (if ok then some t else none)

def authenticationDispatch (path : String) (token : Option AccessToken)
    (callNext : Option RequestState → Py ApiReply) : Py ApiReply := do
  if authenticationPaths.any (startswith path) then callNext none
  else
    match ← authenticate token with
    | none => pure (.invalidAuth 401 "Missing or Invalid Auth Headers")
    | some t =>
      match ← withSession (identifyUserByPid t.sub) with
      | none | some 0 => pure (.invalidAuth 403 "User unidentified and not authorized")
      | some userIdentifier =>
        callNext (some ⟨userIdentifier, t.sub, t.roles, t.roleVersion, t.sessionPid⟩)

def authorizationDispatch (path : String) (state : Option RequestState) (callNext : Py ApiReply) :
    Py ApiReply := do
  if !authorizationPaths.any (startswith path) then callNext
  else
    match state with
    | none => pure (.invalidAuth 403 "User not authenticated")
    | some st =>
      match ← withSession (checkUserRolesVersion st.userIdentifier st.roleVersion) with
      | none => pure (.invalidAuth 403 "Role version mismatch, trigger re login")
      | some _ => callNext

structure AdminRequest where
  endpoint : Endpoint
  token : Option AccessToken

def AdminRequest.dispatch (lib : AdminLib) (req : AdminRequest) : Py ApiReply :=
  authenticationDispatch req.endpoint.path req.token fun state =>
    authorizationDispatch req.endpoint.path state (req.endpoint.serve lib state)

inductive ApiRequest where
  | auth (req : AuthRequest)
  | admin (req : AdminRequest)

def ApiRequest.program (lib : AdminLib) : ApiRequest → Py (Except (Exn AppErr) ApiReply)
  | .auth req => do
    let r ← (req.handler lib.toLib).session
    pure (r.map .answered)
  | .admin req => (req.dispatch lib).attempt

/-- Requests that run at the same time. -/
def apiRequests {n : ℕ} (lib : AdminLib) (reqs : Fin n → ApiRequest) (w : World accounts authHost) :
    Sys accounts authHost n (Except (Exn AppErr) ApiReply) :=
  .start w fun i => (reqs i).program lib

end Phyllonix.Auth
