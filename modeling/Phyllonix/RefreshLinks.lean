import Phyllonix.AccountActions
import Phyllonix.AuthPlays

/-!
# Refresh tokens and the users of their device sessions

Login issues a token on any usable device session, and links the session to the user only
when it has no user yet. Refresh wants the session to be linked to the user of the token.
-/

namespace Phyllonix.Auth
open Relational
variable {n : ℕ} {lib : AccountLib}

/-! ## Tokens stay what they are -/

/-- A token keeps its hash, its device session and its user, and no device session goes. -/
def tokenRel : (t : Table) → Option t.Row → Option t.Row → Prop
  | .deviceAuthToken, some r, r' => ∃ s : DeviceAuthToken, r' = some s ∧ s.tokenHash = r.tokenHash ∧
      s.deviceSessionId = r.deviceSessionId ∧ s.userId = r.userId
  | .deviceSession, some _, r' => r'.isSome = true
  | _, _, _ => True

def tokenOrder : RowOrder accounts where
  rel := tokenRel
  refl t r := by
    cases t with
    | deviceAuthToken =>
      cases r with
      | none => trivial
      | some r => exact ⟨r, rfl, rfl, rfl, rfl⟩
    | deviceSession => cases r <;> trivial
    | _ => trivial
  trans {t r r' r''} h h' := by
    cases t with
    | deviceAuthToken =>
      cases r with
      | none => trivial
      | some r =>
        obtain ⟨s, rfl, hhash, hds, hu⟩ := h
        obtain ⟨s', rfl, hhash', hds', hu'⟩ := h'
        exact ⟨s', rfl, hhash'.trans hhash, hds'.trans hds, hu'.trans hu⟩
    | deviceSession =>
      cases r with
      | none => trivial
      | some r =>
        cases r' with
        | none => cases h
        | some r' => exact h'
    | _ => trivial

theorem tokenRel_none (t : Table) (r : Option t.Row) : tokenRel t none r := by
  cases t <;> trivial

theorem token_statements : AccountStatements (Action.Keeps tokenOrder) where
  read _ := trivial
  lock _ _ := trivial
  now := trivial
  randomText := trivial
  update t p f hf h r := by
    cases t with
    | deviceAuthToken =>
      obtain ⟨by_, t, rfl⟩ := h
      exact ⟨_, rfl, rfl, rfl, rfl⟩
    | deviceSession => rfl
    | _ => trivial
  insert t mk hmk skip ht m := tokenRel_none t _
  promote _ _ _ := trivial
  verify _ := trivial
  commit := trivial
  rollback := trivial
  sign _ := trivial

theorem token_adds (email : String) : AddsUser (Action.Keeps tokenOrder) email := fun _ _ _ => trivial

/-- The token `plain` and its device session are in the store. -/
def StoredToken (lib : Lib) (plain : String) (d : Db) : Prop :=
  ∃ k, ∃ r : DeviceAuthToken, d.get .deviceAuthToken k = some r ∧ r.tokenHash = lib.hashToken plain ∧
    (d.get .deviceSession r.deviceSessionId).isSome = true

theorem session_stays {d d' : Db} {k : ℕ} (h : (d.get .deviceSession k).isSome = true)
    (hd : Evolves tokenOrder d d') : (d'.get .deviceSession k).isSome = true := by
  have hrel := hd .deviceSession k
  obtain ⟨ds, hds⟩ := Option.isSome_iff_exists.mp h
  rw [hds] at hrel
  exact hrel

theorem StoredToken.later {lib : Lib} {plain : String} {d d' : Db} (h : StoredToken lib plain d)
    (hd : Evolves tokenOrder d d') : StoredToken lib plain d' := by
  obtain ⟨k, r, hr, hhash, hds⟩ := h
  have hrel := hd .deviceAuthToken k
  rw [hr] at hrel
  obtain ⟨r', hr', hhash', hds', -⟩ := hrel
  refine ⟨k, r', hr', hhash'.trans hhash, ?_⟩
  rw [hds']
  exact session_stays hds hd

/-! ## A login stores the token that it returns -/

/-- Requests may count on tokens and device sessions that stay. -/
def tokensStay (n : ℕ) : Protocol accounts authHost n := evolution tokenOrder (fun _ => True) fun _ => False

section Login
variable {G : Guard accounts authHost n} {i : Fin n} {sh : Shared accounts authHost} {x : Unit}
variable {l : Txn accounts}

theorem within_keeps : Statements (fun a : AuthAction => a.Keeps tokenOrder ∧ a.Within) where
  read f := ⟨token_statements.read f, trivial⟩
  lock t p := ⟨token_statements.lock t p, trivial⟩
  now := ⟨trivial, trivial⟩
  randomText := ⟨trivial, trivial⟩
  update t p f hf h := ⟨token_statements.update t p f hf h, trivial⟩
  insert t mk hmk skip ht := ⟨token_statements.insert t mk hmk skip ht, trivial⟩

/-- A part of a login that leaves its transaction open. -/
theorem goes_on {α β : Type} {p : Py α} {f : α → Py β}
    {Q : β → Shared accounts authHost → Unit → Txn accounts → Prop}
    (hp : p.Acts fun a => a.Keeps tokenOrder ∧ a.Within)
    (h : ∀ a sh' x l', Evolves tokenOrder sh.db sh'.db → Safe (tokensStay n) G i (.ofOk Q) (f a) sh' x l') :
    Safe (tokensStay n) G i (.ofOk Q) (p >>= f) sh x l := by
  apply Safe.bind
  apply (Safe.of_within hp).mono
  intro r sh' x l' hr
  cases r with
  | error e => trivial
  | ok a => exact h a sh' x l' hr.1

theorem identifyDeviceSession_stored {token : String} (hl : l.writes = []) :
    Safe (tokensStay n) G i (.ofOk fun o sh' _ _ => ∀ ds, o = some ds →
      (sh'.db.get .deviceSession (ds : DeviceSession).id).isSome = true)
      (identifyDeviceSession lib.toLib token) sh x l := by
  rw [identifyDeviceSession]
  apply Safe.bind
  apply Safe.lock
  · intro w y hs _
    have hview : l.view w.db = w.db := Txn.view_of_no_writes hl _
    rw [hview]
    have hstored : ∀ ds ∈ (w.db .deviceSession).filter fun s : DeviceSession =>
        s.sessionTokenHash = lib.hashToken token,
        (w.db.get .deviceSession (ds : DeviceSession).id).isSome = true := by
      intro ds hds
      have hget : w.db.get .deviceSession ds.id = some ds :=
        Store.get_of_mem (S := accounts) hs.world.wf.ids (List.mem_filter.mp hds).1
      rw [hget]
      rfl
    generalize (w.db .deviceSession).filter (fun s : DeviceSession =>
      s.sessionTokenHash = lib.hashToken token) = rows at hstored
    rcases rows with _ | ⟨s, _ | ⟨_, _⟩⟩
    · exact fun ds hds => by cases hds
    · intro ds hds
      cases hds
      exact hstored _ List.mem_cons_self
    · trivial
  · exact fun _ _ _ _ _ _ _ => trivial

/-- The last write is a token of the device session `ds`, which is in the store. -/
def TokenWritten (lib : Lib) (plain : String) (ds : ℕ) (d : Db) (l : Txn accounts) : Prop :=
  (d.get .deviceSession ds).isSome = true ∧ ∃ new : DeviceAuthToken, ∃ ws,
    l.writes = ⟨.deviceAuthToken, new⟩ :: ws ∧ new.tokenHash = lib.hashToken plain ∧
      new.deviceSessionId = ds

theorem saveRefreshToken_stored {ds u : ℕ} {by_ : String}
    (h : (sh.db.get .deviceSession ds).isSome = true) :
    Safe (tokensStay n) G i (.ofOk fun plain sh' _ l' => TokenWritten lib.toLib plain ds sh'.db l')
      (saveRefreshToken lib.toLib ds u by_) sh x l := by
  rw [saveRefreshToken]
  apply goes_on (.call within_keeps.now)
  intro t sh₁ x₁ l₁ hev₁
  apply goes_on (update_acts within_keeps (t := .deviceAuthToken) _ _ _ ⟨_, _, rfl⟩)
  intro rows sh₂ x₂ l₂ hev₂
  apply goes_on (.call within_keeps.randomText)
  intro plain sh₃ x₃ l₃ hev₃
  apply Safe.bind
  apply Safe.insertRow
  · intro w y hs m _ _
    have hev : Evolves tokenOrder sh₃.db w.db := hs.rely
    exact ⟨session_stays h (((hev₁.trans hev₂).trans hev₃).trans hev), _, _, rfl, rfl, rfl⟩
  · exact fun _ _ _ _ _ _ => trivial

theorem issueLocked_stored {u : ℕ} {ds : DeviceSession}
    (h : (sh.db.get .deviceSession ds.id).isSome = true) :
    Safe (tokensStay n) (G.evolving tokenOrder) i (.ofOk fun plain sh' _ _ => StoredToken lib.toLib plain sh'.db)
      (issueLocked lib.toLib u ds) sh x l := by
  have hissue : ∀ sh x l, (sh.db.get .deviceSession ds.id).isSome = true →
      Safe (tokensStay n) (G.evolving tokenOrder) i
        (.ofOk fun plain sh' _ _ => StoredToken lib.toLib plain sh'.db) (do
          let refreshToken ← saveRefreshToken lib.toLib ds.id u "new_login"
          commit
          pure refreshToken) sh x l := by
    intro sh x l h
    apply Safe.bind_ok (saveRefreshToken_stored h)
    intro plain sh x l hr
    obtain ⟨hds, new, ws, hwrites, hhash, hown⟩ := hr
    apply Safe.bind
    apply Safe.commit_evolving (I := fun _ => True) id
    · intro w y hs hev
      have hsession : (w.db.get .deviceSession ds.id).isSome = true := session_stays hds hs.rely
      have hnew : (l.view w.db).get .deviceAuthToken new.id = some new := by
        rw [Txn.view, hwrites]
        exact get_put_token _ new
      refine ⟨trivial, new.id, new, hnew, hhash, ?_⟩
      rw [hown]
      exact session_stays hsession hev
    · exact fun _ _ _ _ _ _ _ => trivial
  rw [issueLocked]
  split
  · apply goes_on (linkUserDevice_acts within_keeps _ _)
    intro _ sh' x' l' hev
    exact hissue sh' x' l' (session_stays h hev)
  · exact hissue sh x l h

theorem loginUser_stored {req : LoginRequest} (hl : l.writes = []) :
    Safe (tokensStay n) (G.evolving tokenOrder) i (.ofOk fun answer sh' _ _ => ∀ access plain,
      answer = .tokens access plain → StoredToken lib.toLib plain sh'.db)
      (loginUser lib.toLib req) sh x l := by
  have hissue : ∀ token, Safe (tokensStay n) (G.evolving tokenOrder) i
      (.ofOk fun issued sh' _ _ => StoredToken lib.toLib issued.2 sh'.db)
      (issueAuthTokens lib.toLib req token) sh x l := by
    intro token
    rw [issueAuthTokens]
    have hquiet : (identifyUser lib.toLib req.email req.password).Acts (Action.Confined fun _ => False) :=
      (identifyUser_acts quiet_reads _ _ _).mono fun a ha => ha.2
    apply Safe.bind
    apply (Safe.of_confined (identifyUser_acts within_keeps.toReads _ _ _) hquiet
      (fun v hv => by rw [hl] at hv; cases hv)).mono
    rintro r sh₁ x₁ l₁ ⟨-, -, hnone⟩
    cases r with
    | error e => trivial
    | ok user =>
    have hl₁ : l₁.writes = [] := List.eq_nil_iff_forall_not_mem.mpr hnone
    apply Safe.bind_ok (identifyDeviceSession_stored hl₁)
    intro o sh₂ x₂ l₂ hr
    cases o with
    | none => trivial
    | some ds =>
    have hds := hr ds rfl
    dsimp only
    split
    · trivial
    apply goes_on (.call within_keeps.now)
    intro t sh₃ x₃ l₃ hev₃
    split
    · trivial
    apply Safe.bind_ok (issueLocked_stored (session_stays hds hev₃))
    intro plain sh₄ x₄ l₄ hr
    have hstored : StoredToken lib.toLib plain sh₄.db := hr
    apply goes_on (getUserRoleIds_acts within_keeps.toReads _)
    intro roles sh₅ x₅ l₅ hev₅
    have hsign : ∀ token, (fun a : AuthAction => a.Keeps tokenOrder ∧ a.Within) (.host (.sign token)) :=
      fun token => ⟨trivial, trivial⟩
    apply goes_on (createAccessToken_acts within_keeps.toReads hsign _ _ _ _ _)
    intro access sh₆ x₆ l₆ hev₆
    exact Safe.pure ((hstored.later hev₅).later hev₆)
  rw [loginUser]
  split
  · trivial
  · trivial
  · apply Safe.bind
    apply (hissue _).mono
    intro r sh' x' l' hr
    cases r with
    | error e => trivial
    | ok issued =>
      rintro access plain ⟨⟩
      exact hr

end Login
section Runs
variable {reqs : Fin n → AccountRequest} {w : World accounts authHost} {i j : Fin n}
variable {s : Sys accounts authHost n (Except (Exn AppErr) AccountReply)}

/-- The token of every login that is over is in the store. -/
theorem login_stored (hw : w.Ok) (h : (accountRequests lib reqs w).Reach s) {req : LoginRequest}
    (hreq : reqs i = .api (.auth (.login req))) {access : AccessToken} {plain : String}
    (hout : s.outcome i = some (.ok (.api (.answered (.tokens access plain))))) :
    StoredToken lib.toLib plain s.world.db := by
  have hacts : ∀ k, ((reqs k).program lib).Acts (Action.Keeps tokenOrder) := fun k =>
    (reqs k).program_acts token_statements fun payload _ => token_adds payload.email
  have hrun := h.guarded (Sys.evolving_start hw hacts)
  let Q : Post (tokensStay n) (Except (Exn AppErr) AccountReply) := fun r sh' _ _ =>
    ∀ access plain, r = .ok (.ok (.api (.answered (.tokens access plain)))) → StoredToken lib.toLib plain sh'.db
  have hlogin : Safe (tokensStay n) (Guard.evolving tokenOrder fun _ _ _ _ _ => True) i Q
      ((reqs i).program lib) w.toShared () {} := by
    rw [hreq, AccountRequest.program]
    apply Safe.bind
    rw [ApiRequest.program]
    apply Safe.bind
    apply Safe.session
    apply (loginUser_stored rfl).mono
    intro r sh' x' l' hr w' y hs
    cases r with
    | error e => exact fun access plain he => by cases he
    | ok answer =>
      rintro access plain ⟨⟩
      exact (hr access plain rfl).later hs.rely
  have hstart : (accountRequests lib reqs w).Inv (tokensStay n)
      (Guard.evolving tokenOrder fun _ _ _ _ _ => True)
      (Function.update (fun _ _ _ _ _ => True) i Q) () := by
    apply Sys.inv_start hw trivial
    intro k
    by_cases hk : k = i
    · subst hk
      rw [Function.update_self]
      exact hlogin
    · rw [Function.update_of_ne hk]
      apply Safe.of_inert (W := fun _ => True) id _ (fun _ _ _ _ h => h) (.refl _ _) (fun _ _ => trivial)
      exact (hacts k).mono fun a ha => ⟨ha, a.confined_true⟩
  have hs := Sys.Run.inv (P := tokensStay n) hrun hstart
  obtain ⟨sh, ⟨⟩, hq, -, hrely⟩ := hs.safe i
  rw [Function.update_self, Sys.prog_of_outcome hout] at hq
  exact (hq access plain rfl).later hrely

/-- The refresh `j`, going on alone from `s`, ends with new tokens. -/
def Renews (lib : AccountLib) (s : Sys accounts authHost n (Except (Exn AppErr) AccountReply)) (j : Fin n) :
    Prop :=
  Ends (Drawn lib.toLib s.world.db) (fun r _ _ => ∃ reply, r = .ok reply ∧ ∃ access refresh,
    reply = .ok (.api (.answered (.tokens access refresh))))
    (s.procs j).prog s.world (s.procs j).txn

/-- A token that a login has returned and that is in order is renewed by the next refresh if
and only if its device session is linked to its user. -/
theorem renews_iff (hw : w.Ok) (h : (accountRequests lib reqs w).Reach s) {plain : String}
    (hreq : reqs j = .api (.auth (.refresh (some plain))))
    (harrives : s.procs j = (accountRequests lib reqs w).procs j) (hne : plain ≠ "")
    (hreload : ∀ r, lib.reloaded r r = r) (hd : Unexhausted lib.toLib s.world.db) {r : DeviceAuthToken}
    {ds : DeviceSession} (hr : Renewable lib.toLib s.world plain r ds) :
    Renews lib s j ↔ ds.userId = some r.userId := by
  have hok := (h.ok (Sys.start_ok hw _)).world
  have hproc : s.procs j = ⟨(reqs j).program lib, {}⟩ := harrives
  have hends := authRequest_ends (.refresh (some plain)) (Q := fun reply =>
    (ds.userId = some r.userId → ∃ access refresh, reply = .ok (.api (.answered (.tokens access refresh)))) ∧
    (ds.userId ≠ some r.userId → ∃ e, reply = .error e))
    ((refreshAuth_ends hne hd (hreload r) hr).mono fun res w' l' _ _ hres => by
      refine ⟨fun hlinked => ?_, fun hno => ?_⟩
      · obtain ⟨access, refresh, rfl⟩ := hres.1 hlinked
        exact ⟨access, refresh, rfl⟩
      · obtain ⟨e, rfl⟩ := hres.2 hno
        exact ⟨e, rfl⟩)
  rw [← hreq] at hends
  rw [Renews, hproc]
  constructor
  · intro hrenews
    by_contra hno
    obtain ⟨_, _, _, ⟨reply, rfl, access, refresh, rfl⟩, reply', hreply, -, hrefused⟩ :=
      hrenews.meet hok (Txn.ok_of_no_writes hok.wf rfl) hends
    obtain ⟨e, rfl⟩ := hrefused hno
    cases hreply
  · intro hlinked
    apply hends.mono
    rintro res w' l' _ _ ⟨reply, rfl, htokens, -⟩
    exact ⟨reply, rfl, htokens hlinked⟩

/-- Every token that a login has returned is stored, and while it is in order it is renewed by
the next refresh if and only if its device session is linked to its user. -/
theorem refresh_token_usable_iff (hw : w.Ok) (h : (accountRequests lib reqs w).Reach s)
    {req : LoginRequest} (hlogin : reqs i = .api (.auth (.login req))) {access : AccessToken}
    {plain : String} (hout : s.outcome i = some (.ok (.api (.answered (.tokens access plain)))))
    (hreq : reqs j = .api (.auth (.refresh (some plain))))
    (harrives : s.procs j = (accountRequests lib reqs w).procs j) (hne : plain ≠ "")
    (hreload : ∀ r, lib.reloaded r r = r) (hd : Unexhausted lib.toLib s.world.db) :
    ∃ r ∈ s.world.db .deviceAuthToken, ∃ ds ∈ s.world.db .deviceSession,
      (r : DeviceAuthToken).tokenHash = lib.hashToken plain ∧ (ds : DeviceSession).id = r.deviceSessionId ∧
      (Renewable lib.toLib s.world plain r ds → (Renews lib s j ↔ ds.userId = some r.userId)) := by
  obtain ⟨k, r, hr, hhash, hsome⟩ := login_stored hw h hlogin hout
  obtain ⟨ds, hds⟩ := Option.isSome_iff_exists.mp hsome
  refine ⟨r, Store.mem_of_get hr, ds, Store.mem_of_get hds, hhash, Store.id_of_get hds, ?_⟩
  intro hrenewable
  exact renews_iff hw h hreq harrives hne hreload hd hrenewable

end Runs
/-! ## Two users on one device session -/

/-- Two users with a password and a role, and a device session of nobody. -/
def twoUsers : World accounts authHost where
  db
    | .users => [⟨1, 1, some "a@b", 0, none⟩, ⟨2, 2, some "c@d", 0, none⟩]
    | .role => [⟨1, "buyer"⟩]
    | .userRole => [⟨1, 1, 1, false⟩, ⟨2, 2, 1, false⟩]
    | .credential => [⟨1, 1, .password, "self", some "#Good1!pwd", 0, none⟩,
        ⟨2, 2, .password, "self", some "#Good1!pwd", 0, none⟩]
    | .deviceSession => [⟨1, "ds", none, 1, none, none, days 30⟩]
    | _ => []
  host := ⟨0, []⟩
  seq _ := 3

theorem twoUsers_ok : twoUsers.Ok :=
  ⟨Store.wf_of_pairwise fun t => by cases t <;> decide, fun t => by cases t <;> decide⟩

/-- Both users log in on the device session, and the token `plain` comes back. -/
def sharedSession (plain : String) : Fin 3 → AccountRequest
  | 0 => .api (.auth (.login ⟨"a@b", "Good1!pwd", some "ds"⟩))
  | 1 => .api (.auth (.login ⟨"c@d", "Good1!pwd", some "ds"⟩))
  | 2 => .api (.auth (.refresh (some plain)))

/-- The statements of the login `k`; the first one links the device session. -/
def loginSteps (k : Fin 3) (links : Bool) (plain : String) : List (Label authHost 3) :=
  [.proc k .go, .proc k .go, .proc k .go, .proc k (.host .proceed)] ++
    (if links then [.proc k (.host .proceed), .proc k .go, .proc k .go] else []) ++
    [.proc k (.host .proceed), .proc k .go, .proc k (.host (.text plain)), .proc k .go, .proc k .go,
      .proc k .go, .proc k (.host .proceed), .proc k (.host (.text "jti")), .proc k (.host .proceed),
      .proc k .go]

/-- The refresh token of an answer. -/
def issuedToken : Option (Except (Exn AppErr) AccountReply) → Option String
  | some (.ok (.api (.answered (.tokens _ plain)))) => some plain
  | _ => none

theorem issuedToken_eq {r : Option (Except (Exn AppErr) AccountReply)} {plain : String}
    (h : issuedToken r = some plain) : ∃ access, r = some (.ok (.api (.answered (.tokens access plain)))) := by
  rw [issuedToken.eq_def] at h
  split at h
  · cases h
    exact ⟨_, rfl⟩
  · cases h

def linkedSession : DeviceSession := ⟨1, "ds", some 1, 1, some 0, none, days 30⟩

def tokenOf (k user : ℕ) (plain : String) : DeviceAuthToken :=
  ⟨k, 1, user, plain, 0, some (days 7), none, none, .password⟩

theorem bothLogins_run (plain : String) (i : Fin 3) (k user : ℕ)
    (hexec : ((accountRequests openAccountLib (sharedSession plain) twoUsers).exec (fun j _ _ _ _ => j ≠ 2)
      (loginSteps 0 true "rt1" ++ loginSteps 1 false "rt2")).map (fun s => (issuedToken (s.outcome i),
        decide (s.world.host.clock = 0), decide (linkedSession ∈ s.world.db .deviceSession),
        decide ((s.world.db .deviceAuthToken : List DeviceAuthToken) = [tokenOf 3 1 "rt1", tokenOf 4 2 "rt2"]),
        decide (tokenOf k user plain ∈ s.world.db .deviceAuthToken),
        (userClaimRows s.world.db user).isEmpty)) = some (some plain, true, true, true, true, false)) :
    ∃ s access, (accountRequests openAccountLib (sharedSession plain) twoUsers).Reach s ∧
      s.outcome i = some (.ok (.api (.answered (.tokens access plain)))) ∧
      s.procs 2 = (accountRequests openAccountLib (sharedSession plain) twoUsers).procs 2 ∧
      Unexhausted openAccountLib.toLib s.world.db ∧
      Renewable openAccountLib.toLib s.world plain (tokenOf k user plain) linkedSession := by
  obtain ⟨s, hs, hall⟩ := Option.map_eq_some_iff.mp hexec
  obtain ⟨hissued, hall⟩ := Prod.mk.inj hall
  obtain ⟨hclock, hall⟩ := Prod.mk.inj hall
  obtain ⟨hsession, hall⟩ := Prod.mk.inj hall
  obtain ⟨htokens, hall⟩ := Prod.mk.inj hall
  obtain ⟨hmem, hroles⟩ := Prod.mk.inj hall
  obtain ⟨⟨⟩, hrun⟩ := Sys.run_of_exec History.none () hs
  obtain ⟨access, hout⟩ := issuedToken_eq hissued
  have hzero := of_decide_eq_true hclock
  refine ⟨s, access, hrun.relax (fun _ _ _ _ _ _ => trivial), hout, hrun.idle (fun _ _ _ _ => by decide),
    ⟨"rt3", ?_⟩, ?_⟩
  · intro r hr
    rw [of_decide_eq_true htokens] at hr
    rcases List.mem_cons.mp hr with rfl | hr
    · decide
    · rw [List.mem_singleton.mp hr]
      decide
  · refine ⟨of_decide_eq_true hmem, rfl, rfl, ⟨days 7, rfl, ?_⟩, of_decide_eq_true hsession, rfl, rfl, ?_, ?_⟩
    · rw [hzero]
      decide
    · rw [hzero]
      decide
    · intro hempty
      have hnone : userClaimRows s.world.db user = [] := hempty
      rw [hnone] at hroles
      cases hroles

theorem openAccountLib_reloaded (r : DeviceAuthToken) : openAccountLib.reloaded r r = r := rfl

theorem first_user_renews : ∃ s, (accountRequests openAccountLib (sharedSession "rt1") twoUsers).Reach s ∧
    Renews openAccountLib s 2 := by
  obtain ⟨s, access, hrun, hout, harrives, hd, hrenewable⟩ :=
    bothLogins_run "rt1" 0 3 1 (by decide +kernel)
  obtain ⟨r, hr, ds, hds, hhash, hown, hiff⟩ := refresh_token_usable_iff twoUsers_ok hrun rfl hout rfl
    harrives (by decide) openAccountLib_reloaded hd
  have hwf := (hrun.ok (Sys.start_ok twoUsers_ok _)).world.wf
  have htoken : r = tokenOf 3 1 "rt1" := by
    apply hwf.eq_of_key (t := .deviceAuthToken) hr hrenewable.mem (k := .tokenHash "rt1")
    · exact List.mem_singleton.mpr (congrArg IndexKey.tokenHash hhash.symm)
    · exact List.mem_singleton.mpr rfl
  subst htoken
  have hsession : ds = linkedSession := hwf.eq_of_id (t := .deviceSession) hds hrenewable.session hown
  subst hsession
  exact ⟨s, hrun, (hiff hrenewable).mpr rfl⟩

/-- The second user's token is not accepted, though it is in order. -/
theorem second_user_refused : ¬∀ s access r ds,
    (accountRequests openAccountLib (sharedSession "rt2") twoUsers).Reach s →
    s.outcome 1 = some (.ok (.api (.answered (.tokens access "rt2")))) →
    s.procs 2 = (accountRequests openAccountLib (sharedSession "rt2") twoUsers).procs 2 →
    Renewable openAccountLib.toLib s.world "rt2" r ds → Renews openAccountLib s 2 := by
  intro hclaim
  obtain ⟨s, access, hrun, hout, harrives, hd, hrenewable⟩ :=
    bothLogins_run "rt2" 1 4 2 (by decide +kernel)
  have hlinked := (renews_iff twoUsers_ok hrun rfl harrives (by decide) openAccountLib_reloaded hd
    hrenewable).mp (hclaim s access _ _ hrun hout harrives hrenewable)
  cases hlinked

end Phyllonix.Auth
