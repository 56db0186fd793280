import Phyllonix.AccountActions
import Phyllonix.AuthPlays
import Phyllonix.RelationalAlone

/-!
# Signup and login

Signup checks a normalised copy of the address and stores the address as it was given.
Login looks up the address without its surrounding blanks and in lower case. The two
agree where the given address is the one that login looks up.
-/

namespace Phyllonix.Auth
open Relational
variable {n : ℕ} {lib : AccountLib}

/-- Login looks the address up as it stands. -/
def LookedUpAsGiven (lib : Lib) (email : String) : Prop := lib.lower (strip lib email) = email

/-! ## What a signup adds -/

structure UserAdded (email : String) (d d' : Db) (u : Users) : Prop where
  fresh : ∀ v ∈ d .users, (v : Users).id < u.id
  email : u.email = some email
  active : u.deletedAt = none
  users : d' .users = d .users ++ [u]

/-- A user with one password credential. -/
structure SignedUp (lib : AccountLib) (payload : SignupIn) (d d' : Db) (u : Users) : Prop
    extends UserAdded payload.email d d' u where
  credential : ∃ c : Credential, ∃ salt, c.userId = u.id ∧ c.type = .password ∧
    c.passwordHash = some (lib.hashPassword salt payload.password) ∧
    d' .credential = d .credential ++ [c]

section Writes
variable {d₀ d : Db} {l : Txn accounts} {u : Users} {email : String} {payload : SignupIn}

theorem view_write (l : Txn accounts) (d : Db) {t : Table} (ks : List IndexKey) (r : t.Row) :
    (l.write t ks r).view d = (l.view d).put t r := rfl

theorem put_fresh {d : Db} {t : Table} {r : t.Row} (h : ∀ s ∈ d t, rowId s < rowId r) :
    Store.put (S := accounts) d t r t = d t ++ [r] := by
  rw [Store.put_self]
  apply putRow_of_fresh (S := accounts)
  intro s hs
  exact (h s hs).ne

theorem put_other (d : Db) {t t' : Table} (r : t.Row) (h : t' ≠ t) :
    Store.put (S := accounts) d t r t' = d t' := Store.put_of_ne (S := accounts) d r h

/-- A row of another table than those of users and credentials changes nothing. -/
theorem SignedUp.write (h : SignedUp lib payload d₀ d u) {t : Table} (hu : t ≠ .users)
    (hc : t ≠ .credential) (r : t.Row) : SignedUp lib payload d₀ (Store.put (S := accounts) d t r) u := by
  refine ⟨⟨h.fresh, h.email, h.active, ?_⟩, ?_⟩
  · rw [put_other d r hu.symm]
    exact h.users
  · obtain ⟨c, salt, hcu, htype, hhash, hrows⟩ := h.credential
    refine ⟨c, salt, hcu, htype, hhash, ?_⟩
    rw [put_other d r hc.symm]
    exact hrows

end Writes

section Programs
variable {G : Guard accounts authHost n} {i : Fin n} {sh : Shared accounts authHost} {x : Unit}
variable {l : Txn accounts} {payload : SignupIn} {u : Users}

theorem hostCall_alone {a : HostAct} :
    Safe (alone i) G i (.ofOk fun _ sh' _ l' => sh'.db = sh.db ∧ l' = l) (hostCall a) sh x l := by
  apply Safe.host
  intro w y hs c r s _
  refine ⟨trivial, fun hi => absurd rfl hi, ?_⟩
  cases r with
  | error e => trivial
  | ok v => exact ⟨hs.db_alone, rfl⟩

theorem createNGetUser_safe {email : String} (hl : l.writes = []) :
    Safe (alone i) G i (.ofOk fun created sh' _ l' => sh'.db = sh.db ∧ ∃ u : Users,
      created = (u.id, u.publicId) ∧ UserAdded email sh.db (l'.view sh.db) u ∧
        l'.view sh.db .credential = sh.db .credential)
      (createNGetUser lib email) sh x l := by
  rw [createNGetUser]
  apply Safe.bind_ok hostCall_alone
  intro drawn sh' x l' hr
  obtain ⟨hdb, rfl⟩ := hr
  have hview : ∀ d, l'.view d = d := fun d => Txn.view_of_no_writes hl _
  apply Safe.bind
  apply Safe.insert
  · intro w y hs m hm _
    rw [hview, hs.db_alone.trans hdb] at hm
    apply Safe.pure
    refine ⟨hs.db_alone.trans hdb, _, rfl, ⟨hm, rfl, rfl, ?_⟩, ?_⟩
    · rw [view_write, hview]
      exact put_fresh hm
    · rw [view_write, hview]
      exact put_other _ _ (by decide)
  · intro _ w y hs m _
    apply Safe.bind
    apply Safe.read
    · intro w y hs
      dsimp only
      generalize (l'.view w.db .users).filter _ = rows
      rcases rows with _ | ⟨v, _ | ⟨_, _⟩⟩
      · trivial
      · apply Safe.bind
        apply Safe.pure
        dsimp only
        split <;> trivial
      · trivial
    · exact fun _ _ _ _ _ _ _ => trivial
  · exact fun _ _ _ _ _ _ => trivial

theorem createCredential_safe {salt : String} (h : UserAdded payload.email sh.db (l.view sh.db) u)
    (hl : l.view sh.db .credential = sh.db .credential) :
    Safe (alone i) G i (.ofOk fun _ sh' _ l' => sh'.db = sh.db ∧
      SignedUp lib payload sh.db (l'.view sh.db) u)
      (createCredential lib u.id (lib.hashPassword salt payload.password)) sh x l := by
  rw [createCredential]
  apply Safe.bind_ok hostCall_alone
  intro t sh' x l' hr
  obtain ⟨hdb, rfl⟩ := hr
  -- without a new row of its own the statement leads to an exception
  have hraise : ∀ sh' y l', Safe (alone i) G i (.ofOk fun _ sh' _ l' => sh'.db = sh.db ∧
      SignedUp lib payload sh.db (l'.view sh.db) u) (credentialConflict lib u.id) sh' y l' := by
    intro sh' y l'
    apply Safe.bind
    apply Safe.read
    · intro w y hs
      dsimp only
      generalize (l'.view w.db .credential).filter _ = rows
      rcases rows with _ | ⟨c, _ | ⟨_, _⟩⟩
      · trivial
      · rw [List.map_singleton]
        cases c.userId <;> trivial
      · trivial
    · exact fun _ _ _ _ _ _ _ => trivial
  apply Safe.bind
  apply Safe.insert
  · intro w y hs m hm _
    have hd := hs.db_alone.trans hdb
    rw [hd] at hm
    let c : Credential := ⟨m, u.id, .password, lib.selfProvider,
      some (lib.hashPassword salt payload.password), t, none⟩
    have hadded : SignedUp lib payload sh.db ((l'.write .credential [] c).view sh.db) u := by
      refine ⟨⟨h.fresh, h.email, h.active, ?_⟩, c, salt, rfl, rfl, rfl, ?_⟩
      · rw [view_write, put_other _ _ (by decide)]
        exact h.users
      · rw [view_write, put_fresh hm, hl]
    cases m with
    | zero => exact hraise w.toShared y _
    | succ m => exact ⟨hd, hadded⟩
  · intro _ w y hs m _
    exact hraise w.toShared y l'
  · exact fun _ _ _ _ _ _ => trivial

theorem linkUserRole_safe {d : Db} {k : ℕ} (h : SignedUp lib payload d (l.view sh.db) u) :
    Safe (alone i) G i (.ofOk fun _ sh' _ l' => sh'.db = sh.db ∧ SignedUp lib payload d (l'.view sh.db) u)
      (linkUserRole lib k) sh x l := by
  rw [linkUserRole]
  apply Safe.bind
  apply Safe.read
  · intro w y hs
    have hdb := hs.db_alone
    generalize (l.view w.db .role).filter _ = rows
    have hlink : ∀ roleId, Safe (alone i) G i
        (.ofOk fun _ sh' _ l' => sh'.db = sh.db ∧ SignedUp lib payload d (l'.view sh.db) u) (do
          let _ ← insertOrNothing .userRole fun n => (⟨n, k, roleId, false⟩ : UserRole))
        w.toShared y l := by
      intro roleId
      apply Safe.bind
      apply Safe.insert
      · intro w' y' hs' m _ _
        exact ⟨hs'.db_alone.trans hdb, h.write (t := .userRole) (by decide) (by decide) _⟩
      · intro _ w' y' hs' m _
        exact ⟨hs'.db_alone.trans hdb, h⟩
      · exact fun _ _ _ _ _ _ => trivial
    rcases rows with _ | ⟨role, _ | ⟨_, _⟩⟩
    · trivial
    · dsimp only
      rw [List.map_singleton]
      cases role.id with
      | zero => trivial
      | succ roleId => exact hlink (roleId + 1)
    · trivial
  · exact fun _ _ _ _ _ _ _ => trivial

theorem signupUser_safe (hl : l.writes = []) :
    Safe (alone i) G i (.ofOk fun _ sh' _ _ => ∃ u, SignedUp lib payload sh.db sh'.db u)
      (signupUser lib payload) sh x l := by
  have hcreate : Safe (alone i) G i (.ofOk fun _ sh' _ _ => ∃ u, SignedUp lib payload sh.db sh'.db u)
      (createSignup lib payload) sh x l := by
    rw [createSignup]
    apply Safe.bind_ok (createNGetUser_safe hl)
    intro created sh' x l hr
    obtain ⟨hdb, u, rfl, hadded, hcredential⟩ := hr
    apply Safe.bind_ok hostCall_alone
    intro salt sh₁ x l₁ hr
    obtain ⟨hdb₁, rfl⟩ := hr
    have hd₁ : sh₁.db = sh.db := hdb₁.trans hdb
    rw [← hd₁] at hadded hcredential
    apply Safe.bind_ok (createCredential_safe hadded hcredential)
    intro credId sh₂ x l₂ hr
    obtain ⟨hdb₂, hsigned⟩ := hr
    rw [← hdb₂] at hsigned
    apply Safe.bind_ok (linkUserRole_safe hsigned)
    intro _ sh₃ x l₃ hr
    obtain ⟨hdb₃, hsigned⟩ := hr
    have hd₂ : sh₂.db = sh.db := hdb₂.trans hd₁
    rw [hd₂] at hsigned
    apply Safe.bind
    apply Safe.commit
    · intro w y hs _
      have hd : w.db = sh.db := hs.db_alone.trans (hdb₃.trans hd₂)
      refine ⟨trivial, fun hi => absurd rfl hi, u, ?_⟩
      change SignedUp lib payload sh.db (l₃.view w.db) u
      rw [hd]
      exact hsigned
    · exact fun _ _ _ _ _ _ _ => trivial
  rw [signupUser, signupValidation]
  cases normalizeEmailAddress lib payload.email with
  | error e => trivial
  | ok normalised =>
    generalize validatePassword lib.toLib payload.password = valid
    dsimp only
    apply Safe.bind
    split
    · trivial
    · apply Safe.bind
      apply hcreate.mono
      intro r sh' x l' hr
      cases r with
      | error e => trivial
      | ok created => exact hr

end Programs

section Runs
variable {reqs : Fin n → AccountRequest} {w : World accounts authHost} {i : Fin n} {payload : SignupIn}
variable {s : Sys accounts authHost n (Except (Exn AppErr) AccountReply)} {message : String}

theorem signed_up (hw : w.Ok) (hreq : reqs i = .signup payload)
    (h : Sys.Run (Guard.only i) History.none (accountRequests lib reqs w) () s ())
    (hout : s.outcome i = some (.ok (.created message))) :
    ∃ u, SignedUp lib payload w.db s.world.db u := by
  have hsafe : Safe (alone i) (Guard.only i) i (fun r sh' _ _ => ∀ message, r = .ok (.ok (.created message)) →
      ∃ u, SignedUp lib payload w.db sh'.db u) ((reqs i).program lib) w.toShared () {} := by
    rw [hreq, AccountRequest.program]
    apply Safe.session
    apply (signupUser_safe rfl).mono
    intro r sh' x l hr w' y hs
    cases r with
    | error e => exact fun _ he => by cases he
    | ok reply =>
      intro _ _
      rw [show w'.toShared.db = sh'.db from hs.db_alone]
      exact hr
  obtain ⟨host, l, hq⟩ := Sys.Run.alone hw h hsafe hout
  exact hq message rfl

/-- The login `j`, going on alone from `s`, ends with an access token of the user `u`. -/
def LogsIn (lib : AccountLib) (s : Sys accounts authHost n (Except (Exn AppErr) AccountReply)) (j : Fin n)
    (u : Users) : Prop :=
  Ends (Drawn lib.toLib s.world.db) (fun r _ _ => ∃ reply, r = .ok reply ∧ ∃ access refresh,
    reply = .ok (.api (.answered (.tokens access refresh))) ∧ access.sub = u.publicId)
    (s.procs j).prog s.world (s.procs j).txn

/-- Every credential belongs to a user. -/
def CredentialsOwned (d : Db) : Prop :=
  ∀ c ∈ d .credential, ∃ v ∈ d .users, (v : Users).id = (c : Credential).userId

theorem SignedUp.admits {d d' : Db} {u : Users} (h : SignedUp lib payload d d' u)
    (hverify : ∀ salt stored given, lib.verifyPassword given (lib.hashPassword salt stored) = true ↔
      given = stored)
    (hhash : ∀ salt plain, lib.hashPassword salt plain ≠ "") (howned : CredentialsOwned d) :
    Admits lib.toLib d' payload.password u := by
  obtain ⟨c, salt, hcu, htype, hc, hrows⟩ := h.credential
  refine ⟨⟨c, ?_, hcu, htype⟩, ?_⟩
  · rw [hrows]
    exact List.mem_append_right _ List.mem_cons_self
  · intro c' hc' hcu' _
    rw [hrows] at hc'
    rcases List.mem_append.mp hc' with hold | hnew
    · obtain ⟨v, hv, hid⟩ := howned c' hold
      have hlt := h.fresh v hv
      rw [hid, hcu'] at hlt
      exact absurd hlt (lt_irrefl _)
    · rw [List.mem_singleton.mp hnew]
      exact ⟨_, hc, hhash _ _, (hverify _ _ _).mpr rfl⟩

/-- The login of a new user succeeds where login looks the address up as it was given. -/
theorem signup_then_login (hw : w.Ok)
    (hverify : ∀ salt stored given, lib.verifyPassword given (lib.hashPassword salt stored) = true ↔
      given = stored)
    (hhash : ∀ salt plain, lib.hashPassword salt plain ≠ "") (howned : CredentialsOwned w.db)
    (hreq : reqs i = .signup payload)
    (h : Sys.Run (Guard.only i) History.none (accountRequests lib reqs w) () s ())
    (hout : s.outcome i = some (.ok (.created message))) {j : Fin n} (hij : j ≠ i) {token : String}
    (hlogin : reqs j = .api (.auth (.login ⟨payload.email, payload.password, some token⟩)))
    (htoken : token ≠ "") {ds : DeviceSession} (hds : Usable lib.toLib s.world token ds)
    (hd : Unexhausted lib.toLib s.world.db) :
    (∃ u ∈ s.world.db .users, (∀ v ∈ w.db .users, (v : Users).id ≠ (u : Users).id) ∧ LogsIn lib s j u) ↔
      LookedUpAsGiven lib.toLib payload.email := by
  obtain ⟨u, hu⟩ := signed_up hw hreq h hout
  have hmem : u ∈ s.world.db .users := by
    rw [hu.users]
    exact List.mem_append_right _ List.mem_cons_self
  have hproc : s.procs j = ⟨(reqs j).program lib, {}⟩ := h.idle fun _ _ _ _ => hij
  have hok : s.Ok := h.ok (Sys.start_ok hw _)
  have hends := authRequest_ends (.login ⟨payload.email, payload.password, some token⟩)
    (Q := fun reply =>
      (∀ access refresh, reply = .ok (.api (.answered (.tokens access refresh))) →
        ∃ v, LooksUp lib.toLib s.world.db payload.email v ∧ access.sub = v.publicId) ∧
      (LooksUp lib.toLib s.world.db payload.email u →
        ∃ access refresh, reply = .ok (.api (.answered (.tokens access refresh)))))
    ((loginUser_ends hd).mono fun r w' l' _ _ hr => by
      refine ⟨fun access refresh hreply => ?_, fun hlooks => ?_⟩
      · cases r with
        | error e => cases hreply
        | ok answer =>
          cases hreply
          exact hr.1 access refresh rfl
      · obtain ⟨access, refresh, rfl⟩ := hr.2 u token ds rfl htoken hlooks
          (hu.admits hverify hhash howned) hds
        exact ⟨access, refresh, rfl⟩)
  rw [← hlogin] at hends
  have hkeys : ∀ v ∈ s.world.db .users, (v : Users).publicId = u.publicId → v = u := by
    intro v hv hpid
    apply hok.world.wf.eq_of_key (t := .users) hv hmem (k := .publicId u.publicId)
    · rw [← hpid]
      exact List.mem_cons_self
    · exact List.mem_cons_self
  constructor
  · rintro ⟨u', hu', hnew, hlogs⟩
    have hsame : u' = u := by
      rw [hu.users] at hu'
      rcases List.mem_append.mp hu' with hold | hlast
      · exact absurd rfl (hnew u' hold)
      · exact List.mem_singleton.mp hlast
    rw [LogsIn, hproc, hsame] at hlogs
    obtain ⟨r, w', l', ⟨reply, rfl, access, refresh, rfl, hsub⟩, reply', hreply, hlooks, -⟩ :=
      hlogs.meet hok.world (Txn.ok_of_no_writes hok.world.wf rfl) hends
    cases hreply
    obtain ⟨v, hv, hsub'⟩ := hlooks access refresh rfl
    have hvu := hkeys v hv.mem (hsub'.symm.trans hsub)
    have hmail := hv.email
    rw [hvu, hu.email] at hmail
    exact (Option.some.inj hmail).symm
  · intro hgiven
    refine ⟨u, hmem, fun v hv => (hu.fresh v hv).ne, ?_⟩
    have hlooks : LooksUp lib.toLib s.world.db payload.email u := by
      refine ⟨hmem, ?_, hu.active⟩
      rw [hgiven]
      exact hu.email
    rw [LogsIn, hproc]
    apply hends.mono
    rintro r w' l' _ _ ⟨reply, rfl, hsub, htokens⟩
    obtain ⟨access, refresh, rfl⟩ := htokens hlooks
    obtain ⟨v, hv, hpid⟩ := hsub access refresh rfl
    have hvu : v = u := by
      apply hok.world.wf.eq_of_key (t := .users) hv.mem hmem
        (k := .email (lib.lower (strip lib.toLib payload.email)))
      · simp [rowKeys, hv.email]
      · simp [rowKeys, hlooks.email]
    exact ⟨_, rfl, access, refresh, rfl, hvu ▸ hpid⟩

end Runs
/-! ## Addresses that differ in letter case -/

section Addresses
variable {N : String → Prop}

/-- Users keep their address, and a new user has one that satisfies `N`. -/
def emailRel (N : String → Prop) : (t : Table) → Option t.Row → Option t.Row → Prop
  | .users, some u, r' => ∃ u' : Users, r' = some u' ∧ u'.email = u.email
  | .users, none, r' => ∀ u : Users, r' = some u → ∀ email, u.email = some email → N email
  | _, _, _ => True

def emailOrder (N : String → Prop) : RowOrder accounts where
  rel := emailRel N
  refl t r := by
    cases t with
    | users =>
      cases r with
      | none => exact fun u hu => by cases hu
      | some u => exact ⟨u, rfl, rfl⟩
    | _ => trivial
  trans {t r r' r''} h h' := by
    cases t with
    | users =>
      cases r with
      | some u =>
        obtain ⟨u', rfl, hu'⟩ := h
        obtain ⟨u'', rfl, hu''⟩ := h'
        exact ⟨u'', rfl, hu''.trans hu'⟩
      | none =>
        intro u hu email hemail
        cases r' with
        | none => exact h' u hu email hemail
        | some u' =>
          obtain ⟨u'', hu'', hsame⟩ := h'
          rw [hu] at hu''
          cases hu''
          exact h u' rfl email (hsame ▸ hemail)
    | _ => trivial

theorem emailRel_of_ne {t : Table} (ht : t ≠ .users) (r r' : Option t.Row) : emailRel N t r r' := by
  cases t with
  | users => exact absurd rfl ht
  | _ => trivial

theorem email_statements : AccountStatements (Action.Keeps (emailOrder N)) where
  read _ := trivial
  lock _ _ := trivial
  now := trivial
  randomText := trivial
  update t p f hf h r := by
    cases t with
    | users => exact h.elim
    | _ => trivial
  insert t mk hmk skip ht m := emailRel_of_ne ht none (some (mk m))
  promote _ _ u := ⟨u.promote, rfl, rfl⟩
  verify _ := trivial
  commit := trivial
  rollback := trivial
  sign _ := trivial

theorem email_adds {email : String} (h : N email) : AddsUser (Action.Keeps (emailOrder N)) email := by
  intro pid hmk m u hu email' hemail
  cases hu
  cases hemail
  exact h

end Addresses

/-- The addresses of two users that were added since `d` are the same up to letter case. -/
structure Twins (lib : Lib) (d d' : Db) (u v : Users) : Prop where
  left : u ∈ d' .users
  right : v ∈ d' .users
  leftNew : ∀ r ∈ d .users, (r : Users).id ≠ u.id
  rightNew : ∀ r ∈ d .users, (r : Users).id ≠ v.id
  same : ∃ e e', u.email = some e ∧ v.email = some e' ∧ lib.lower e = lib.lower e'

/-- When all signups give addresses that login looks up as given, no two users are twins. -/
theorem signups_apart {reqs : Fin n → AccountRequest} {w : World accounts authHost} (hw : w.Ok)
    (hlower : ∀ e, lib.lower (lib.lower e) = lib.lower e)
    (hgiven : ∀ i payload, reqs i = .signup payload → LookedUpAsGiven lib.toLib payload.email)
    {s : Sys accounts authHost n (Except (Exn AppErr) AccountReply)}
    (h : (accountRequests lib reqs w).Reach s) {u v : Users} (htwins : Twins lib.toLib w.db s.world.db u v) :
    u = v := by
  have hstart : (accountRequests lib reqs w).Evolving (emailOrder (LookedUpAsGiven lib.toLib)) := by
    apply Sys.evolving_start hw
    intro i
    apply (reqs i).program_acts email_statements
    intro payload hreq
    exact email_adds (hgiven i payload hreq)
  have hevolves := (h.evolving hstart).2
  have hwf := (h.ok (Sys.start_ok hw _)).world.wf
  have hlooked : ∀ r : Users, r ∈ s.world.db .users → (∀ q ∈ w.db .users, (q : Users).id ≠ r.id) →
      ∀ e, r.email = some e → LookedUpAsGiven lib.toLib e := by
    intro r hr hnew e he
    have hrel := hevolves .users r.id
    have hnone : w.db.get .users r.id = none := Store.get_eq_none_iff.mpr hnew
    have hsome : s.world.db.get .users r.id = some r := Store.get_of_mem (S := accounts) hwf.ids hr
    rw [show (accountRequests lib reqs w).world.db.get .users r.id = none from hnone, hsome] at hrel
    exact hrel r rfl e he
  have hfixed : ∀ e, LookedUpAsGiven lib.toLib e → lib.lower e = e := by
    intro e he
    calc lib.lower e = lib.lower (lib.lower (strip lib.toLib e)) := by rw [he]
      _ = lib.lower (strip lib.toLib e) := hlower _
      _ = e := he
  obtain ⟨e, e', he, he', hsame⟩ := htwins.same
  have heq : e = e' := by
    rw [← hfixed e (hlooked u htwins.left htwins.leftNew e he),
      ← hfixed e' (hlooked v htwins.right htwins.rightNew e' he'), hsame]
  apply hwf.eq_of_key (t := .users) htwins.left htwins.right (k := .email e)
  · simp [rowKeys, he]
  · simp [rowKeys, he', heq]

/-- No users yet, one role, one device session. -/
def noUsers : World accounts authHost where
  db
    | .role => [⟨1, "buyer"⟩]
    | .deviceSession => [⟨1, "ds", none, 1, none, none, days 30⟩]
    | _ => []
  host := ⟨0, []⟩
  seq _ := 2

theorem noUsers_ok : noUsers.Ok :=
  ⟨Store.wf_of_pairwise fun t => by cases t <;> decide, fun t => by cases t <;> decide⟩

/-- A signup, and a login with its address and password. -/
def signupThenLogin (email : String) : Fin 2 → AccountRequest
  | 0 => .signup ⟨email, "Good1!pwd"⟩
  | 1 => .api (.auth (.login ⟨email, "Good1!pwd", some "ds"⟩))

def signupSteps : List (Label authHost 2) :=
  [.proc 0 (.host (.text "u")), .proc 0 .go, .proc 0 (.host (.text "salt")), .proc 0 (.host .proceed),
    .proc 0 .go, .proc 0 .go, .proc 0 .go, .proc 0 .go, .proc 0 .go]

/-- Did the request create a user? -/
def createsUser : Option (Except (Exn AppErr) AccountReply) → Bool
  | some (.ok (.created _)) => true
  | _ => false

theorem createsUser_eq {r : Option (Except (Exn AppErr) AccountReply)} (h : createsUser r = true) :
    ∃ message, r = some (.ok (.created message)) := by
  rw [createsUser.eq_def] at h
  split at h
  · exact ⟨_, rfl⟩
  · cases h

/-- After the signup the device session is as before, and a token can be drawn. -/
theorem signupSteps_run (email : String)
    (hexec : ((accountRequests openAccountLib (signupThenLogin email) noUsers).exec (Guard.only 0)
      signupSteps).map (fun s => (createsUser (s.outcome 0), decide (s.world.host.clock = 0),
        decide ((⟨1, "ds", none, 1, none, none, days 30⟩ : DeviceSession) ∈ s.world.db .deviceSession),
        decide ((s.world.db .deviceAuthToken : List DeviceAuthToken) = []))) =
      some (true, true, true, true)) :
    ∃ s message ds, Sys.Run (Guard.only 0) History.none
        (accountRequests openAccountLib (signupThenLogin email) noUsers) () s () ∧
      s.outcome 0 = some (.ok (.created message)) ∧ Usable openAccountLib.toLib s.world "ds" ds ∧
      Unexhausted openAccountLib.toLib s.world.db := by
  obtain ⟨s, hs, hall⟩ := Option.map_eq_some_iff.mp hexec
  obtain ⟨hcreates, hall⟩ := Prod.mk.inj hall
  obtain ⟨hclock, hall⟩ := Prod.mk.inj hall
  obtain ⟨hsession, htokens⟩ := Prod.mk.inj hall
  obtain ⟨⟨⟩, hrun⟩ := Sys.run_of_exec History.none () hs
  obtain ⟨message, hout⟩ := createsUser_eq hcreates
  refine ⟨s, message, _, hrun, hout, ⟨of_decide_eq_true hsession, rfl, rfl, ?_⟩, "rt", ?_⟩
  · rw [of_decide_eq_true hclock]
    decide
  · intro r hr
    rw [of_decide_eq_true htokens] at hr
    cases hr

theorem openAccountLib_verify (salt stored given : String) :
    openAccountLib.verifyPassword given (openAccountLib.hashPassword salt stored) = true ↔ given = stored := by
  simp [openAccountLib, eq_comm]

theorem openAccountLib_hash (salt plain : String) : openAccountLib.hashPassword salt plain ≠ "" := by
  simp [openAccountLib]

theorem toLower_toLower (c : Char) : c.toLower.toLower = c.toLower := by
  unfold Char.toLower
  split
  · rename_i h
    rw [dif_neg]
    intro h'
    have hupper := UInt32.le_iff_toNat_le.mp h.1
    have hlower := UInt32.le_iff_toNat_le.mp h'.2
    simp at hupper hlower
    have hbound := UInt32.le_iff_toNat_le.mp h.2
    simp at hbound
    omega
  · rfl

theorem openAccountLib_lower (e : String) :
    openAccountLib.lower (openAccountLib.lower e) = openAccountLib.lower e := by
  simp [openAccountLib, Function.comp_def, toLower_toLower]

theorem noUsers_owned : CredentialsOwned noUsers.db := by
  intro c hc
  cases hc

end Phyllonix.Auth
