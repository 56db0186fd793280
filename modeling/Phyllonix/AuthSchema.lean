import Phyllonix.PythonValues
import Phyllonix.RelationalStatements

/-!
# Tables of accounts and sessions

Users, their roles and credentials, device sessions and refresh tokens, and the host
of the auth handlers: the clock, random texts, which may be any texts, and the access
tokens that have been signed. A deleted role of a user stays behind as a row that no
statement selects and that occupies no index entry.
-/

namespace Phyllonix.Auth
open Relational

inductive CredentialType where
  | password | oauth
  deriving DecidableEq

inductive AuthMethod where
  | password | phone | oauth
  deriving DecidableEq

structure Users where
  id : ℕ
  publicId : UUID
  email : Option String
  roleVersion : ℕ
  deletedAt : Option ℕ
  deriving DecidableEq

structure Role where
  id : ℕ
  name : String

structure Permission where
  id : ℕ
  name : String

structure RolePermission where
  id : ℕ
  roleId : ℕ
  permissionId : ℕ

structure UserRole where
  id : ℕ
  userId : ℕ
  roleId : ℕ
  deleted : Bool

structure Credential where
  id : ℕ
  userId : ℕ
  type : CredentialType
  provider : String
  passwordHash : Option String
  updatedAt : ℕ
  revokedAt : Option ℕ
  deriving DecidableEq

structure DeviceSession where
  id : ℕ
  sessionTokenHash : String
  userId : Option ℕ
  publicId : UUID
  lastActivityAt : Option ℕ
  revokedAt : Option ℕ
  sessionExpiresAt : ℕ
  deriving DecidableEq

structure DeviceAuthToken where
  id : ℕ
  deviceSessionId : ℕ
  userId : ℕ
  tokenHash : String
  issuedAt : ℕ
  expiresAt : Option ℕ
  revokedAt : Option ℕ
  revokedBy : Option String
  authMethod : AuthMethod
  deriving DecidableEq

inductive Table where
  | users | role | permission | rolePermission | userRole | credential | deviceSession
  | deviceAuthToken
  deriving DecidableEq

@[reducible] def Table.Row : Table → Type
  | .users => Users
  | .role => Role
  | .permission => Permission
  | .rolePermission => RolePermission
  | .userRole => UserRole
  | .credential => Credential
  | .deviceSession => DeviceSession
  | .deviceAuthToken => DeviceAuthToken

def rowId : {t : Table} → t.Row → ℕ
  | .users, r => r.id
  | .role, r => r.id
  | .permission, r => r.id
  | .rolePermission, r => r.id
  | .userRole, r => r.id
  | .credential, r => r.id
  | .deviceSession, r => r.id
  | .deviceAuthToken, r => r.id

theorem rowId_revokedAt (t : ℕ) (s : DeviceSession) :
    rowId (t := .deviceSession) { s with revokedAt := some t } = rowId (t := .deviceSession) s := rfl

inductive IndexKey where
  | publicId (u : UUID)
  | email (e : String)
  | name (s : String)
  | rolePermission (role permission : ℕ)
  | userRole (user role : ℕ)
  | userProvider (user : ℕ) (provider : String)
  | sessionTokenHash (h : String)
  | tokenHash (h : String)
  deriving DecidableEq

def rowKeys : {t : Table} → t.Row → List IndexKey
  | .users, r => .publicId r.publicId :: (r.email.map .email).toList
  | .role, r => [.name r.name]
  | .permission, r => [.name r.name]
  | .rolePermission, r => [.rolePermission r.roleId r.permissionId]
  | .userRole, r => if r.deleted then [] else [.userRole r.userId r.roleId]
  | .credential, r => [.userProvider r.userId r.provider]
  | .deviceSession, r => [.sessionTokenHash r.sessionTokenHash, .publicId r.publicId]
  | .deviceAuthToken, r => [.tokenHash r.tokenHash]

@[reducible] def accounts : Schema where
  Tbl := Table
  Row := Table.Row
  id := rowId
  Key := IndexKey
  keys := rowKeys

/-- The claims of an access token. -/
structure AccessToken where
  sub : UUID
  iat : ℕ
  exp : ℕ
  jti : String
  roles : List ℕ
  roleVersion : ℕ
  sessionPid : UUID
  deriving DecidableEq

inductive HostAct where
  | now
  | randomText
  | sign (token : AccessToken)
  | verify (token : AccessToken)

@[reducible] def HostAct.Res : HostAct → Type
  | .now => ℕ
  | .randomText => String
  | .sign _ => Unit
  | .verify _ => Bool

inductive HostChoice where
  | proceed
  | text (s : String)

structure HostState where
  clock : ℕ
  signed : List AccessToken

def HostAct.step : (a : HostAct) → HostChoice → HostState →
    Option (Except AppErr a.Res × HostState)
  | .now, .proceed, s => some (.ok s.clock, s)
  | .randomText, .text t, s => some (.ok t, s)
  | .sign token, .proceed, s => some (.ok (), { s with signed := token :: s.signed })
  | .verify token, .proceed, s =>
    some (.ok (decide (token ∈ s.signed) && decide (s.clock / 1000000 ≤ token.exp)), s)
  | _, _, _ => none

@[reducible] def authHost : Host where
  State := HostState
  Act := HostAct
  Res := HostAct.Res
  Choice := HostChoice
  Err := AppErr
  step := HostAct.step
  Env := ℕ
  env d s := { s with clock := s.clock + d }

abbrev Py := Prog accounts authHost

abbrev AuthAction := Action accounts authHost

abbrev Db := Store accounts

def raiseApp {α : Type} (e : AppErr) : Py α := .raise (.app e)

def httpException {α : Type} (status : ℕ) (detail : String) : Py α :=
  raiseApp (.http status (.str detail))

def hostCall (a : HostAct) : Py a.Res := .call (.host a : AuthAction)

def now : Py ℕ := hostCall .now

def randomText : Py String := hostCall .randomText

def select (t : Table) (p : t.Row → Bool) : Py (List t.Row) := Prog.select (S := accounts) t p

def selectForUpdate (t : Table) (p : t.Row → Bool) : Py (List t.Row) :=
  Prog.selectForUpdate (S := accounts) t p

/-- An update of the rows that match when the statement begins. -/
def update (t : Table) (p : t.Row → Bool) (f : t.Row → t.Row)
    (hf : ∀ r, rowId (f r) = rowId r := by intro _; rfl) : Py (List t.Row) :=
  Prog.updateWhere (S := accounts) t p f hf

def insert (t : Table) (mk : ℕ → t.Row) (hmk : ∀ n, rowId (mk n) = n := by intro _; rfl) :
    Py t.Row := Prog.insertRow (S := accounts) t mk hmk

def commit : Py Unit := .call (.commit : AuthAction)

def rollback : Py Unit := .call (.rollback : AuthAction)

/-- `one_or_none` and `scalar_one_or_none` -/
def oneOrNone {α : Type} : List α → Py (Option α)
  | [] => pure none
  | [a] => pure (some a)
  | _ => raiseApp .multipleResultsFound

def minutes (n : ℕ) : ℕ := n * 60 * 1000000

def days (n : ℕ) : ℕ := n * 24 * 60 * 60 * 1000000

end Phyllonix.Auth
