import Phyllonix.TokenVersions
import Phyllonix.TokenRotation

/-!
# Access tokens whose role version is out of date

Where the role version is compared, a token that is out of date stays out of date. The
guard itself looks at the roles in the token only, and the route that changes roles is
not among those where the version is compared.
-/

namespace Phyllonix.Auth
open Relational
variable {n : ℕ}

/-! ## Where the version is compared -/

/-- The version is compared on the routes of the products, not where roles change. -/
theorem authorized_iff (e : Endpoint) :
    Authorized e.path ↔ ∀ pid payload, e ≠ .changeUserRole pid payload := by
  cases e <;> simp [Authorized, authorizationPaths, startswith, Endpoint.path, versionPrefix]

section Refusal
variable {G : Guard accounts authHost n} {i : Fin n}
variable {sh : Shared accounts authHost} {x : Unit} {l : Txn accounts} {v : ℕ}

/-- The user `k` is past the version. -/
def Past (k v : ℕ) (d : Db) : Prop := ∃ u : Users, d.get .users k = some u ∧ v < u.roleVersion

theorem Past.later {k : ℕ} {d d' : Db} (h : Past k v d) (hd : Evolves versionOrder d d') :
    Past k v d' := by
  obtain ⟨u, hu, hlt⟩ := h
  obtain ⟨u', hu', -, hle⟩ := hd .users k u hu
  exact ⟨u', hu', hlt.trans_le hle⟩

/-- What a session of a middleware has read stays known after the session. -/
theorem withSession_later {α : Type} {p : Py α} {K : α → Db → Prop}
    (hK : ∀ a d d', Evolves versionOrder d d' → K a d → K a d')
    (h : Safe (tokensBacked.protocol n) G i (.ofOk fun a sh _ _ => K a sh.db) p sh x l) :
    Safe (tokensBacked.protocol n) G i (.ofOk fun a sh _ l => K a sh.db ∧ l.writes = [])
      (withSession p) sh x l := by
  apply Safe.bind
  apply Safe.session
  apply h.mono
  intro r sh x l hr w y hs
  cases r with
  | error e => trivial
  | ok a => exact ⟨hK a _ _ hs.rely hr, rfl⟩

theorem identifyUserByPid_past {pid : UUID} (hl : l.writes = []) (h : Reaches pid (v + 1) sh.db) :
    Safe (tokensBacked.protocol n) G i (.ofOk fun o sh _ _ => ∀ k, o = some k → Past k v sh.db)
      (identifyUserByPid pid) sh x l := by
  apply Safe.bind
  apply Safe.read
  · intro w y hs
    have hreaches : Reaches pid (v + 1) w.db := h.later hs.rely
    have hrow : ∀ k ∈ ((l.view w.db .users).filter fun u : Users =>
        u.publicId = pid && u.deletedAt.isNone).map Users.id, Past k v w.db := by
      intro k hk
      obtain ⟨u, hu, rfl⟩ := List.mem_map.mp hk
      obtain ⟨hmem, hp⟩ := List.mem_filter.mp hu
      rw [Txn.view_of_no_writes hl] at hmem
      have hpid : u.publicId = pid := by
        rw [Bool.and_eq_true, decide_eq_true_eq] at hp
        exact hp.1
      have hget : w.db.get Table.users u.id = some u :=
        Store.get_of_mem (S := accounts) hs.world.wf.ids hmem
      exact ⟨u, hget, hreaches.of_get hs.world.wf hget hpid⟩
    dsimp only
    generalize ((l.view w.db .users).filter _).map Users.id = ks at hrow
    cases ks with
    | nil => exact fun k hk => by cases hk
    | cons k rest =>
      cases rest with
      | nil =>
        intro j hj
        cases hj
        exact hrow k List.mem_cons_self
      | cons => trivial
  · exact fun _ _ _ _ _ _ _ => trivial

theorem checkUserRolesVersion_past {k : ℕ} (hl : l.writes = []) (h : Past k v sh.db) :
    Safe (tokensBacked.protocol n) G i (.ofOk fun o _ _ _ => o = none)
      (checkUserRolesVersion k v) sh x l := by
  apply Safe.bind
  apply Safe.read
  · intro w y hs
    obtain ⟨u, hu, hlt⟩ := h.later hs.rely
    have hrows : (l.view w.db .users).filter
        (fun u : Users => u.id = k && u.roleVersion = v) = [] := by
      rw [Txn.view_of_no_writes hl]
      apply List.filter_eq_nil_iff.mpr
      intro u' hu' hp
      rw [Bool.and_eq_true, decide_eq_true_eq, decide_eq_true_eq] at hp
      have hsame : u' = u := by
        apply hs.world.wf.eq_of_id hu' (Store.mem_of_get hu)
        exact hp.1.trans (Store.id_of_get hu).symm
      rw [hsame] at hp
      omega
    dsimp only
    rw [hrows]
    rfl
  · exact fun _ _ _ _ _ _ _ => trivial

/-- The request does not come to its handler. -/
def Unhandled (r : Except (Exn AppErr) ApiReply) : Prop := ∀ out, r ≠ .ok (.handled out)

theorem authorizationDispatch_refuses {path : String} (hpath : Authorized path)
    {state : Option RequestState} (callNext : Py ApiReply) (hl : l.writes = [])
    (h : ∀ st, state = some st → Past st.userIdentifier st.roleVersion sh.db) :
    Safe (tokensBacked.protocol n) G i (fun r _ _ _ => Unhandled r)
      (authorizationDispatch path state callNext) sh x l := by
  unfold authorizationDispatch
  rw [hpath]
  cases state with
  | none => exact fun out hout => by cases hout
  | some st =>
    apply Safe.bind
    apply (withSession_later (K := fun o _ => o = none) (fun _ _ _ _ hn => hn)
      (checkUserRolesVersion_past hl (h st rfl))).mono
    intro r sh x l hr
    cases r with
    | error e => exact fun out hout => by cases hout
    | ok o =>
      obtain ⟨rfl, -⟩ := hr
      exact fun out hout => by cases hout

theorem authenticate_later {token : AccessToken} {K : Db → Prop}
    (hK : ∀ d d', Evolves versionOrder d d' → K d → K d') (hl : l.writes = []) (h : K sh.db) :
    Safe (tokensBacked.protocol n) G i
      (.ofOk fun o sh _ l => (∀ t, o = some t → t = token) ∧ K sh.db ∧ l.writes = [])
      (authenticate (some token)) sh x l := by
  apply Safe.bind
  apply Safe.host
  intro w y hs c r s hstep
  cases c with
  | text t => cases hstep
  | proceed =>
    cases hstep
    refine ⟨hs.inv, .refl _ _, Safe.pure ⟨?_, hK _ _ hs.rely h, hl⟩⟩
    intro t ht
    split at ht
    · exact (Option.some.inj ht).symm
    · cases ht

theorem dispatch_refuses (lib : AdminLib) {req : AdminRequest} (hpath : Authorized req.endpoint.path)
    {token : AccessToken} (htoken : req.token = some token) (hl : l.writes = [])
    (h : Reaches token.sub (token.roleVersion + 1) sh.db) :
    Safe (tokensBacked.protocol n) G i (fun r _ _ _ => Unhandled r) (req.dispatch lib) sh x l := by
  rw [AdminRequest.dispatch, htoken, authenticationDispatch]
  split
  · exact authorizationDispatch_refuses hpath _ hl fun st hst => by cases hst
  apply Safe.bind
  apply (authenticate_later (fun _ _ hd hk => hk.later hd) hl h).mono
  intro r sh x l hr
  cases r with
  | error e => exact fun out hout => by cases hout
  | ok o =>
  obtain ⟨ho, hreaches, hl⟩ := hr
  cases o with
  | none => exact fun out hout => by cases hout
  | some t =>
  have hsame : t = token := ho t rfl
  subst hsame
  apply Safe.bind
  apply (withSession_later (K := fun o d => ∀ k, o = some k → Past k t.roleVersion d)
    (fun _ _ _ hd hk k hkey => (hk k hkey).later hd) (identifyUserByPid_past hl hreaches)).mono
  intro r sh x l hr
  cases r with
  | error e => exact fun out hout => by cases hout
  | ok o =>
  obtain ⟨hpast, hl⟩ := hr
  dsimp only
  split
  · exact fun out hout => by cases hout
  · exact fun out hout => by cases hout
  · rename_i k _
    apply authorizationDispatch_refuses hpath _ hl
    intro st hst
    cases hst
    exact hpast k rfl

end Refusal

/-! ## Runs -/

section Runs
variable {G : Guard accounts authHost n} {i : Fin n}

theorem program_backed (lib : AdminLib) (req : ApiRequest) (sh : Shared accounts authHost) :
    Safe (tokensBacked.protocol n) G i (fun _ _ _ _ => True) (req.program lib) sh () {} := by
  have hstart : ∀ {W}, Tracked versionOrder W sh.db sh {} := fun {W} =>
    ⟨.refl _ _, .refl _ _, fun v hv => by cases hv⟩
  cases req with
  | auth req =>
    apply Safe.bind
    apply Safe.session
    apply (AuthRequest.handler_backed lib.toLib req hstart).mono
    intros
    trivial
  | admin req =>
    apply Safe.attempt
    apply (Safe.tracked (dispatch_acts steady_statements lib req) hstart).mono
    intros
    trivial

/-- The guard has let the request pass: it can only end in the reply of the handler. -/
def PassedGuard (p : Py (Except (Exn AppErr) ApiReply)) : Prop :=
  p.Ends fun a => ∃ out, a = .ok (.handled out)

theorem authHost_steps (a : HostAct) (s : HostState) :
    ∃ c r s', HostAct.step a c s = some (r, s') := by
  cases a with
  | randomText => exact ⟨.text "", _, _, rfl⟩
  | _ => exact ⟨.proceed, _, _, rfl⟩

/-- A request whose role version is out of date when it arrives never passes the guard,
where its path is one on which the version is compared. -/
theorem stale_role_refused (lib : AdminLib) (reqs : Fin n → ApiRequest) {w : World accounts authHost}
    (hw : w.Ok) (hbacked : tokensBacked.holds w.toShared)
    {s₁ s₂ : Sys accounts authHost n (Except (Exn AppErr) ApiReply)}
    (h₁ : (apiRequests lib reqs w).Reach s₁) (h₂ : s₁.Reach s₂) {req : AdminRequest}
    (hreq : reqs i = .admin req) (harrives : s₁.procs i = (apiRequests lib reqs w).procs i)
    {token : AccessToken} (htoken : req.token = some token) (hissued : token ∈ s₁.world.host.signed)
    {u : Users} (hu : u ∈ s₁.world.db .users) (hpid : u.publicId = token.sub)
    (hstale : u.roleVersion ≠ token.roleVersion) (hpath : Authorized req.endpoint.path) :
    ¬PassedGuard (s₂.procs i).prog := by
  have hstart : (apiRequests lib reqs w).Inv (tokensBacked.protocol n) (fun _ _ _ _ _ => True)
      (fun _ _ _ _ _ => True) () :=
    Sys.inv_start hw hbacked fun j => program_backed lib (reqs j) _
  have hs₁ := Sys.Run.inv (P := tokensBacked.protocol n) h₁ hstart
  have hget : s₁.world.db.get Table.users u.id = some u :=
    Store.get_of_mem (S := accounts) hs₁.ok.world.wf.ids hu
  have hle : token.roleVersion ≤ u.roleVersion :=
    (hs₁.inv token hissued).of_get hs₁.ok.world.wf hget hpid
  have hpast : Reaches token.sub (token.roleVersion + 1) s₁.world.db :=
    ⟨u.id, u, hget, hpid, by omega⟩
  have hrefused : Safe (tokensBacked.protocol n) (fun _ _ _ _ _ => True) i
      (fun r _ _ _ => ∀ a, r = .ok a → ∀ out, a ≠ .ok (.handled out))
      (s₁.procs i).prog s₁.world.toShared () (s₁.procs i).txn := by
    rw [harrives]
    simp only [apiRequests, Sys.start, hreq, ApiRequest.program]
    apply Safe.attempt
    apply (dispatch_refuses lib hpath htoken rfl hpast).mono
    intro r sh x l hr a ha
    cases ha
    exact hr
  have hs₂ := Sys.Run.inv (P := tokensBacked.protocol n) h₂ (hs₁.focus hrefused)
  obtain ⟨sh, y, hsafe, hseen⟩ := hs₂.seen i
  rw [Function.update_self] at hsafe
  apply hsafe.not_ends authHost_steps (fun _ _ _ _ => trivial) _ hseen
  rintro a sh y l hQ ⟨out, hout⟩
  exact hQ a rfl out hout

end Runs

/-! ## A demoted administrator -/

def openAdminLib : AdminLib := { openLib with uuidOf := fun s => if s = "11" then some 11 else none }

def adminToken (sub : UUID) : AccessToken := ⟨sub, 0, 600, "jti", [1], 0, 5⟩

/-- Two administrators with an access token each. -/
def twoAdmins : World accounts authHost where
  db
    | .users => [⟨1, 11, none, 0, none⟩, ⟨2, 22, none, 0, none⟩]
    | .role => [⟨1, "admin"⟩, ⟨2, "buyer"⟩]
    | .permission => [⟨1, "user:manage"⟩, ⟨2, "product:create"⟩]
    | .rolePermission => [⟨1, 1, 1⟩, ⟨2, 1, 2⟩]
    | .userRole => [⟨1, 1, 1, false⟩, ⟨2, 2, 1, false⟩]
    | _ => []
  host := ⟨0, [adminToken 11, adminToken 22]⟩
  seq _ := 9

theorem twoAdmins_ok : twoAdmins.Ok := by
  refine ⟨Store.wf_of_pairwise fun t => ?_, fun t => ?_⟩ <;> cases t <;> decide

theorem twoAdmins_backed : tokensBacked.holds twoAdmins.toShared := by
  intro t ht
  have hcases : t = adminToken 11 ∨ t = adminToken 22 := by
    rcases List.mem_cons.mp ht with h | h
    · exact .inl h
    · exact .inr (List.mem_singleton.mp h)
  rcases hcases with rfl | rfl
  · exact ⟨1, ⟨1, 11, none, 0, none⟩, rfl, rfl, le_rfl⟩
  · exact ⟨2, ⟨2, 22, none, 0, none⟩, rfl, rfl, le_rfl⟩

/-- The second administrator makes the first a buyer, who comes back with `endpoint`. -/
def afterDemotion (endpoint : Endpoint) : Fin 2 → ApiRequest
  | 0 => .admin ⟨.changeUserRole "11" ⟨["buyer"]⟩, some (adminToken 22)⟩
  | 1 => .admin ⟨endpoint, some (adminToken 11)⟩

def demotionSteps : List (Label authHost 2) :=
  .proc 0 (.host .proceed) :: List.replicate 13 (.proc 0 .go)

/-- The first administrator after the demotion. -/
def demoted : Users := ⟨1, 11, none, 1, none⟩

instance (s : Sys accounts authHost 2 (Except (Exn AppErr) ApiReply)) : Decidable (
    demoted ∈ s.world.db .users) :=
  inferInstanceAs (Decidable (demoted ∈ (s.world.db .users : List Users)))

/-- Did the request come to its handler, and did that succeed? -/
def succeeded : Option (Except (Exn AppErr) ApiReply) → Bool
  | some (.ok (.handled (.ok _))) => true
  | _ => false

theorem succeeded_eq {r : Option (Except (Exn AppErr) ApiReply)} (h : succeeded r = true) :
    ∃ text, r = some (.ok (.handled (.ok text))) := by
  rw [succeeded.eq_def] at h
  split at h
  · exact ⟨_, rfl⟩
  · cases h

/-- Was the request refused with a status? -/
def refusedWith (status : ℕ) : Option (Except (Exn AppErr) ApiReply) → Bool
  | some (.ok (.invalidAuth k _)) => k = status
  | _ => false

/-- Runs the demotion and then the steps of the request of the demoted administrator. -/
def demotionThen {α : Type} (endpoint : Endpoint) (steps : List (Label authHost 2))
    (f : Sys accounts authHost 2 (Except (Exn AppErr) ApiReply) → α) : Option (Bool × α) :=
  ((apiRequests openAdminLib (afterDemotion endpoint) twoAdmins).exec (fun i _ _ _ _ => i = 0)
    demotionSteps).bind fun s₁ => (s₁.exec (fun _ _ _ _ _ => True) steps).map fun s₂ =>
      (decide (demoted ∈ s₁.world.db .users) && decide (adminToken 11 ∈ s₁.world.host.signed), f s₂)

theorem demotionThen_eq {α : Type} {endpoint : Endpoint} {steps : List (Label authHost 2)}
    {f : Sys accounts authHost 2 (Except (Exn AppErr) ApiReply) → α} {a : α}
    (h : demotionThen endpoint steps f = some (true, a)) :
    ∃ s₁ s₂, (apiRequests openAdminLib (afterDemotion endpoint) twoAdmins).Reach s₁ ∧ s₁.Reach s₂ ∧
      s₁.procs 1 = (apiRequests openAdminLib (afterDemotion endpoint) twoAdmins).procs 1 ∧
      adminToken 11 ∈ s₁.world.host.signed ∧ demoted ∈ s₁.world.db .users ∧ f s₂ = a := by
  obtain ⟨s₁, hs₁, h⟩ := Option.bind_eq_some_iff.mp h
  obtain ⟨s₂, hs₂, h⟩ := Option.map_eq_some_iff.mp h
  obtain ⟨hboth, hf⟩ := Prod.mk.inj h
  obtain ⟨hdemoted, hsigned⟩ := Bool.and_eq_true_iff.mp hboth
  obtain ⟨⟨⟩, hrun₁⟩ := Sys.run_of_exec History.none () hs₁
  obtain ⟨⟨⟩, hrun₂⟩ := Sys.run_of_exec History.none () hs₂
  exact ⟨s₁, s₂, hrun₁.relax (fun _ _ _ _ _ _ => trivial), hrun₂, hrun₁.idle (fun _ _ _ _ => by decide),
    of_decide_eq_true hsigned, of_decide_eq_true hdemoted, hf⟩

theorem stale_role_refused_product : ∃ s₁ s₂,
    (apiRequests openAdminLib (afterDemotion .createProduct) twoAdmins).Reach s₁ ∧ s₁.Reach s₂ ∧
      demoted ∈ s₁.world.db .users ∧ refusedWith 403 (s₂.outcome 1) = true ∧
      ¬PassedGuard (s₂.procs 1).prog := by
  have hexec : demotionThen .createProduct (.proc 1 (.host .proceed) :: List.replicate 4 (.proc 1 .go))
      (fun s => refusedWith 403 (s.outcome 1)) = some (true, true) := by
    decide +kernel
  obtain ⟨s₁, s₂, h₁, h₂, harrives, hsigned, hdemoted, hrefused⟩ := demotionThen_eq hexec
  exact ⟨s₁, s₂, h₁, h₂, hdemoted, hrefused, stale_role_refused openAdminLib _ twoAdmins_ok
    twoAdmins_backed h₁ h₂ rfl harrives rfl hsigned hdemoted rfl (by decide)
    ((authorized_iff _).mpr nofun)⟩

/-- The demoted administrator gives the role back to himself. -/
theorem stale_role_changes_roles : ¬∀ s₁ s₂,
    (apiRequests openAdminLib (afterDemotion (.changeUserRole "11" ⟨["admin"]⟩)) twoAdmins).Reach s₁ →
    s₁.Reach s₂ →
    s₁.procs 1 = (apiRequests openAdminLib (afterDemotion (.changeUserRole "11" ⟨["admin"]⟩))
      twoAdmins).procs 1 →
    adminToken 11 ∈ s₁.world.host.signed → ∀ u : Users, u ∈ s₁.world.db .users →
      u.publicId = (adminToken 11).sub → u.roleVersion ≠ (adminToken 11).roleVersion →
      ¬PassedGuard (s₂.procs 1).prog := by
  intro hclaim
  have hexec : demotionThen (.changeUserRole "11" ⟨["admin"]⟩)
      (.proc 1 (.host .proceed) :: List.replicate 12 (.proc 1 .go))
      (fun s => succeeded (s.outcome 1)) = some (true, true) := by
    decide +kernel
  obtain ⟨s₁, s₂, h₁, h₂, harrives, hsigned, hdemoted, hsucceeded⟩ := demotionThen_eq hexec
  obtain ⟨text, hout⟩ := succeeded_eq hsucceeded
  have hpassed : PassedGuard (s₂.procs 1).prog := by
    rw [PassedGuard, Sys.prog_of_outcome hout]
    exact ⟨_, rfl⟩
  exact hclaim s₁ s₂ h₁ h₂ harrives hsigned demoted hdemoted rfl (by decide) hpassed

end Phyllonix.Auth
