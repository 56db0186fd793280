import Phyllonix.AccountRoutes
import Phyllonix.AuthActions
import Phyllonix.TokenRotation
import Phyllonix.RelationalUpheld

/-!
# Logout

The call that would revoke the device session is not awaited, so the statement on the
tokens gets a coroutine in place of an identifier and is refused. A logout reaches
neither the device session nor a token, and every end of it is an error.
-/

namespace Phyllonix.Auth
open Relational
variable {n : ℕ} {lib : AccountLib} {reqs : Fin n → AccountRequest} {w : World accounts authHost}

/-- No statement fails on its own account. -/
def NoFault : Guard accounts authHost n := fun _ _ _ _ c => c.isFault = false

instance decidableNoFault (i : Fin n) (sh : Shared accounts authHost) (l : Txn accounts) (a : AuthAction)
    (c : Choice authHost) : Decidable (NoFault i sh l a c) :=
  inferInstanceAs (Decidable (c.isFault = false))

/-- The tokens of the device session `ds` in `d` are revoked. -/
def TokensRevoked (ds : ℕ) (d : Db) : Prop :=
  ∀ r ∈ d .deviceAuthToken, (r : DeviceAuthToken).deviceSessionId = ds → r.revokedAt.isSome

/-- A refresh that comes after `s` with a token of the device session `ds` gets no new one. -/
def RefreshesRefused (lib : AccountLib) (reqs : Fin n → AccountRequest) (w : World accounts authHost)
    (ds : ℕ) (s : Sys accounts authHost n (Except (Exn AppErr) AccountReply)) : Prop :=
  ∀ s', s.Reach s' → ∀ j plain, reqs j = .api (.auth (.refresh (some plain))) →
    s.procs j = (accountRequests lib reqs w).procs j →
    (∃ r ∈ s.world.db .deviceAuthToken, (r : DeviceAuthToken).tokenHash = lib.hashToken plain ∧
      r.deviceSessionId = ds) →
    ∀ access plain', s'.outcome j ≠ some (.ok (.api (.answered (.tokens access plain'))))

/-- Whenever the logout `i` of the device session `pid` is over, without a failure of the
database on the way, it has succeeded and ended the device session. -/
def LogoutWorks (lib : AccountLib) (reqs : Fin n → AccountRequest) (w : World accounts authHost)
    (i : Fin n) (pid : UUID) (s : Sys accounts authHost n (Except (Exn AppErr) AccountReply)) : Prop :=
  ∀ s', Sys.Run NoFault History.none s () s' () → ∀ reply, s'.outcome i = some reply →
    reply = .ok (.loggedOut "Logged out successfully.") ∧
      ∃ ds ∈ s'.world.db .deviceSession, (ds : DeviceSession).publicId = pid ∧ ds.revokedAt.isSome ∧
        TokensRevoked ds.id s'.world.db ∧ RefreshesRefused lib reqs w ds.id s'

/-- The clock and the end of the session are all that a logout uses. -/
def Aside : AuthAction → Prop
  | .host .now | .rollback => True
  | _ => False

/-- The tree of a logout holds no commit: it is left before by an exception. -/
theorem logoutDeviceSession_acts (pid : Option String) : (logoutDeviceSession lib pid).Acts Aside := by
  refine ⟨trivial, fun started => ?_⟩
  cases started with
  | error e => trivial
  | ok _ =>
    refine ⟨trivial, fun t => ?_⟩
    cases t <;> trivial

theorem logout_acts (pid : Option String) : (logout lib pid).session.Acts Aside := by
  apply Prog.Acts.session
  · apply (logoutDeviceSession_acts pid).bind
    intro _
    trivial
  · trivial

theorem logout_ends (pid : Option String) :
    (logout lib pid).session.Ends fun reply => ∃ e, reply = .error e := by
  apply Prog.Ends.session
  intro started
  cases started with
  | error e => exact ⟨e, rfl⟩
  | ok _ =>
    intro t
    cases t with
    | error e => exact ⟨e, rfl⟩
    | ok t => exact ⟨_, rfl⟩

theorem Aside.step {a : AuthAction} (ha : Aside a) (busy : Lock accounts → Bool)
    (w : World accounts authHost) (l : Txn accounts) :
    ∃ c, c.isFault = false ∧ (a.run c busy w l).isSome := by
  cases a with
  | host b =>
    cases b with
    | now => exact ⟨.host .proceed, rfl, rfl⟩
    | _ => exact ha.elim
  | rollback => exact ⟨.go, rfl, rfl⟩
  | _ => exact ha.elim

theorem Aside.same {a : AuthAction} (ha : Aside a) {c : Choice authHost} {busy : Lock accounts → Bool}
    {w w' : World accounts authHost} {l l' : Txn accounts} {r : Except (Exn AppErr) a.Res}
    (h : a.run c busy w l = some (r, w', l')) : w'.db = w.db := by
  cases a with
  | host b =>
    cases c with
    | host c =>
      obtain ⟨x, -, hx⟩ := Option.map_eq_some_iff.mp h
      cases hx
      rfl
    | _ => cases h
  | rollback =>
    cases c with
    | host c => cases h
    | _ =>
      cases h
      rfl
  | _ => exact ha.elim

section Runs
variable {s : Sys accounts authHost n (Except (Exn AppErr) AccountReply)} {i : Fin n} {text : String}

/-- A logout that has begun comes to an end, and it is an error. -/
theorem logout_fails (h : (accountRequests lib reqs w).Reach s) (hreq : reqs i = .logout (some text)) :
    (s.procs i).prog.Acts Aside ∧
      ∃ s' e, Sys.Run NoFault History.none s () s' () ∧ s'.outcome i = some (.error e) := by
  have hprog : ((accountRequests lib reqs w).procs i).prog = (logout lib (some text)).session := by
    simp only [accountRequests, Sys.start, hreq, AccountRequest.program]
  have hacts : (s.procs i).prog.Acts Aside := by
    apply h.acts
    rw [hprog]
    exact logout_acts (some text)
  have hends : (s.procs i).prog.Ends fun reply => ∃ e, reply = .error e := by
    apply h.ends
    rw [hprog]
    exact logout_ends (some text)
  refine ⟨hacts, ?_⟩
  have hrun : Sys.Run NoFault History.none s () s () := .start
  obtain ⟨s', ⟨⟩, r, hrun', hover⟩ := hrun.finish (fun a ha busy w l => ha.step busy w l) hacts
  have hends' := hrun'.ends hends
  rw [hover] at hends'
  cases r with
  | error e => exact hends'.elim
  | ok reply =>
    obtain ⟨e, rfl⟩ := hends'
    refine ⟨s', e, hrun', ?_⟩
    simp only [Sys.outcome, hover, Prog.ofExcept]

theorem not_logoutWorks (h : (accountRequests lib reqs w).Reach s) (hreq : reqs i = .logout (some text))
    (pid : UUID) : ¬LogoutWorks lib reqs w i pid s := by
  intro hworks
  obtain ⟨-, s', e, hrun, hout⟩ := logout_fails h hreq
  obtain ⟨hok, -⟩ := hworks s' hrun _ hout
  cases hok

/-- Logout never works, and none of its steps touches the store. -/
theorem logout_never (h : (accountRequests lib reqs w).Reach s) (hreq : reqs i = .logout (some text))
    (pid : UUID) : ¬LogoutWorks lib reqs w i pid s ∧
      ∀ c s', s.step (.proc i c) = some s' → s'.world.db = s.world.db := by
  refine ⟨not_logoutWorks h hreq pid, fun c s' hstep => ?_⟩
  have hacts := (logout_fails h hreq).1
  obtain ⟨a, k, r, w', l', hp, hrun, rfl⟩ := Sys.step_proc hstep
  rw [hp] at hacts
  exact hacts.1.same hrun

end Runs

/-! ## The session stays -/

def openAccountLib : AccountLib :=
  { openLib with
    hashPassword := fun _ plain => "#" ++ plain
    verifyPassword := fun plain hash => hash = "#" ++ plain
    lower := fun s => String.ofList (s.toList.map Char.toLower)
    uuidOf := fun s => if s = "1" then some 1 else none
    validateEmail := .ok
    uuid7 := String.length
    defaultRole := "buyer"
    selfProvider := "self"
    deviceSessionExpireDays := 30 }

/-- A logout of the only device session, and a refresh with its token. -/
def logoutAndRefresh : Fin 2 → AccountRequest
  | 0 => .logout (some "1")
  | 1 => .api (.auth (.refresh (some "rt")))

theorem logout_never_oneSession :
    ¬LogoutWorks openAccountLib logoutAndRefresh oneSession 0 1
      (accountRequests openAccountLib logoutAndRefresh oneSession) ∧
    ∀ c s', (accountRequests openAccountLib logoutAndRefresh oneSession).step (.proc 0 c) = some s' →
      s'.world.db = oneSession.db :=
  logout_never .start rfl 1

theorem logout_spares_session : ¬∀ s, (accountRequests openAccountLib logoutAndRefresh oneSession).Reach s →
    (∃ ds ∈ s.world.db .deviceSession, (ds : DeviceSession).publicId = 1) →
      LogoutWorks openAccountLib logoutAndRefresh oneSession 0 1 s := by
  intro hclaim
  have hsession : ∃ ds ∈ oneSession.db .deviceSession, (ds : DeviceSession).publicId = 1 :=
    ⟨_, List.mem_cons_self, rfl⟩
  exact not_logoutWorks .start rfl 1 (hclaim _ .start hsession)

end Phyllonix.Auth
