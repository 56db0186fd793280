import Phyllonix.AuthActions
import Phyllonix.AccountRoutes

/-!
# What logins, refreshes and changes of password write

They write credentials, device sessions and refresh tokens. No request of a user writes its
roles, apart from the signup that gives it the first one.
-/

namespace Phyllonix.Auth
open Relational

/-- The class holds the statements that read, and those that write device sessions, and credentials and tokens of
the users of `U`. -/
structure SessionStatements (A : AuthAction → Prop) (U : ℕ → Prop) : Prop extends Reads A where
  revoke : ∀ (p : DeviceAuthToken → Bool) (by_ : String) (t : ℕ)
    (hf : ∀ r : DeviceAuthToken, rowId (t := .deviceAuthToken) (r.revoke by_ t) = rowId (t := .deviceAuthToken) r),
    A (.update .deviceAuthToken p (DeviceAuthToken.revoke by_ t) hf)
  session : ∀ (p : DeviceSession → Bool) (f : DeviceSession → DeviceSession)
    (hf : ∀ s : DeviceSession, rowId (t := .deviceSession) (f s) = rowId (t := .deviceSession) s),
    A (.update .deviceSession p f hf)
  rehash : ∀ (u : ℕ) (p : Credential → Bool) (f : Credential → Credential)
    (hf : ∀ c : Credential, rowId (t := .credential) (f c) = rowId (t := .credential) c), U u →
    (∀ c : Credential, (f c).userId = c.userId) → (∀ c : Credential, p c = true → c.userId = u) →
    A (.update .credential p f hf)
  start : ∀ (mk : ℕ → DeviceSession) (hmk : ∀ n, rowId (t := .deviceSession) (mk n) = n) (skip : Bool),
    A (.insert .deviceSession mk hmk skip)
  issue : ∀ (u : ℕ) (mk : ℕ → DeviceAuthToken) (hmk : ∀ n, rowId (t := .deviceAuthToken) (mk n) = n) (skip : Bool),
    U u → (∀ n, (mk n).userId = u) → A (.insert .deviceAuthToken mk hmk skip)
  enrol : ∀ (u : ℕ) (mk : ℕ → Credential) (hmk : ∀ n, rowId (t := .credential) (mk n) = n) (skip : Bool),
    U u → (∀ n, (mk n).userId = u) → A (.insert .credential mk hmk skip)
  commit : A .commit

section Programs
variable {A : AuthAction → Prop} {U : ℕ → Prop} (hA : SessionStatements A U)
include hA

theorem revoke_writes (p : DeviceAuthToken → Bool) (by_ : String) (t : ℕ)
    (hf : ∀ r : DeviceAuthToken, rowId (t := .deviceAuthToken) (r.revoke by_ t) = rowId (t := .deviceAuthToken) r) :
    (update .deviceAuthToken p (DeviceAuthToken.revoke by_ t) hf).Acts A :=
  Prog.updateWhere_acts (fun g => hA.read g) fun _ => hA.revoke _ _ _ _

theorem session_writes (p : DeviceSession → Bool) (f : DeviceSession → DeviceSession)
    (hf : ∀ r : DeviceSession, rowId (t := .deviceSession) (f r) = rowId (t := .deviceSession) r) :
    (update .deviceSession p f hf).Acts A :=
  Prog.updateWhere_acts (fun g => hA.read g) fun _ => hA.session _ _ _

theorem saveRefreshToken_writes (lib : Lib) (ds : ℕ) {u : ℕ} (hu : U u) (by_ : String) :
    (saveRefreshToken lib ds u by_).Acts A := by
  apply Prog.Acts.bind (.call hA.now)
  intro t
  apply (revoke_writes hA _ _ _ _).bind
  intro rows
  apply Prog.Acts.bind (.call hA.randomText)
  intro plain
  apply (Prog.insertRow_acts (S := accounts) (hA.issue u _ _ _ hu fun _ => rfl)).bind
  intro r
  trivial

theorem linkUserDevice_writes (ds u : ℕ) : (linkUserDevice ds u).Acts A := by
  apply Prog.Acts.bind (.call hA.now)
  intro t
  apply (session_writes hA _ _ _).bind
  intro rows
  trivial

theorem updateDeviceSessionLastActivity_writes (ds t : ℕ) : (updateDeviceSessionLastActivity ds t).Acts A := by
  apply (session_writes hA _ _ _).bind
  intro rows
  trivial

theorem revokeAllTokensPerUser_writes (u : ℕ) (by_ : String) : (revokeAllTokensPerUser u by_).Acts A := by
  apply Prog.Acts.bind (.call hA.now)
  intro t
  apply (revoke_writes hA _ _ _ _).bind
  intro rows
  trivial

theorem revokeDeviceAndTokens_writes (ds : ℕ) (by_ : String) : (revokeDeviceAndTokens ds by_).Acts A := by
  apply Prog.Acts.bind (.call hA.now)
  intro t
  apply (revoke_writes hA _ _ _ _).bind
  intro rows
  apply (session_writes hA _ _ _).bind
  intro rows'
  trivial

theorem updatePassword_writes {u : ℕ} (hu : U u) (hash : String) : (updatePassword u hash).Acts A := by
  apply Prog.Acts.bind (.call hA.now)
  intro t
  have hrehash : (update .credential
      (fun c : Credential => c.userId = u && c.type = .password && c.revokedAt.isNone)
      fun c : Credential => { c with passwordHash := some hash, updatedAt := t }).Acts A := by
    apply Prog.updateWhere_acts (fun g => hA.read g)
    intro k
    apply hA.rehash u _ _ _ hu
    · exact fun _ => rfl
    · intro c hc
      simp only [Bool.and_eq_true, decide_eq_true_eq] at hc
      exact hc.2.1.1
  apply hrehash.bind
  intro rows
  apply (oneOrNone_acts rows).bind
  intro o
  trivial

theorem issueLocked_writes (lib : Lib) {u : ℕ} (hu : U u) (ds : DeviceSession) : (issueLocked lib u ds).Acts A := by
  have hissue : (do
      let refreshToken ← saveRefreshToken lib ds.id u "new_login"
      commit
      pure refreshToken : Py String).Acts A := by
    apply (saveRefreshToken_writes hA _ _ hu _).bind
    intro plain
    apply Prog.Acts.bind (.call hA.commit)
    intro _
    trivial
  rw [issueLocked]
  split
  · apply (linkUserDevice_writes hA _ _).bind
    intro _
    exact hissue
  · exact hissue

theorem rotateLocked_writes (lib : Lib) (t : ℕ) (plain : String) {r : DeviceAuthToken} (hu : U r.userId)
    (ds : DeviceSession) : (rotateLocked lib t plain r ds).Acts A := by
  apply (getLockedDeviceAuth_acts hA.toReads _ _ _).bind
  intro o
  cases o with
  | none => trivial
  | some locked =>
  dsimp only
  split
  · apply (revokeDeviceAndTokens_writes hA _ _).bind
    intro _
    trivial
  · cases locked.expiresAt with
    | none => trivial
    | some e =>
      dsimp only
      split
      · trivial
      · apply (saveRefreshToken_writes hA _ _ hu _).bind
        intro plain'
        apply (updateDeviceSessionLastActivity_writes hA _ _).bind
        intro _
        apply Prog.Acts.bind (.call hA.commit)
        intro _
        trivial

theorem changePassword_writes (lib : Lib) {req : ChangePasswordRequest} (hu : U req.userIdentifier) :
    (changePassword lib req).Acts A := by
  rw [changePassword]
  generalize validatePassword lib req.newPassword = valid
  dsimp only
  split
  · trivial
  apply (getPasswordCredential_acts hA.toReads _).bind
  intro o
  cases o with
  | none => trivial
  | some hash =>
  dsimp only
  split
  · trivial
  apply Prog.Acts.bind (.call hA.randomText)
  intro salt
  apply (updatePassword_writes hA hu _).bind
  intro updated
  split
  · trivial
  · trivial
  · apply (revokeAllTokensPerUser_writes hA _ _).bind
    intro _
    apply Prog.Acts.bind (.call hA.commit)
    intro _
    trivial

theorem sessionInit_writes (lib : AccountLib) : (sessionInit lib).Acts A := by
  rw [sessionInit, saveDeviceState]
  apply Prog.Acts.bind
  · apply Prog.Acts.bind (.call hA.randomText)
    intro plain
    apply Prog.Acts.bind (.call hA.randomText)
    intro drawn
    apply Prog.Acts.bind (.call hA.now)
    intro t
    apply Prog.Acts.bind (.call hA.now)
    intro t'
    apply (Prog.insertRow_acts (S := accounts) (hA.start _ _ _)).bind
    intro ds
    trivial
  · rintro ⟨k, pid, plain⟩
    apply Prog.Acts.bind (.call hA.commit)
    intro _
    trivial

theorem createCredential_writes (lib : AccountLib) {userId : ℕ} (hu : U userId) (hash : String) :
    (createCredential lib userId hash).Acts A := by
  rw [createCredential]
  apply Prog.Acts.bind (.call hA.now)
  intro t
  apply Prog.Acts.bind (.call (hA.enrol userId _ _ true hu fun _ => rfl))
  intro row
  have hfound : (credentialConflict lib userId).Acts A := by
    apply (select_acts hA.toReads (t := .credential) _).bind
    intro res
    apply (oneOrNone_acts _).bind
    intro found
    split <;> trivial
  split
  · exact hfound
  · exact hfound
  · trivial

end Programs
end Phyllonix.Auth
