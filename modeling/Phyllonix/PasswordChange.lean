import Phyllonix.TokenRotation

/-!
# Sessions after a change of password

The revocation of a change of password is one update that shares no lock with the
other flows. Where no commit slips past it, every token that is live afterwards goes
back to a login with the new password: from the change on, a token that was issued
before it is cut off, and so are the tokens issued on its device session meanwhile.
-/

namespace Phyllonix.Auth
open Relational
variable {n : ℕ}

def Credential.verifies (lib : Lib) (plain : String) (c : Credential) : Bool :=
  match c.passwordHash with
  | some hash => lib.verifyPassword plain hash
  | none => false

/-- The text is a committed password of the user. -/
def Verifies (lib : Lib) (d : Db) (u : ℕ) (plain : String) : Prop :=
  ∃ c ∈ d .credential, (c : Credential).userId = u ∧ c.type = .password ∧ c.verifies lib plain

/-- Token `r` is `g`, or was issued after it on the same device session to the same user. -/
def Follows (g r : DeviceAuthToken) : Prop :=
  r.deviceSessionId = g.deviceSessionId ∧ r.userId = g.userId ∧ g.id ≤ r.id

/-- A change of password has revoked the token or one that follows it. -/
def CutOff (g : DeviceAuthToken) (d : Db) : Prop :=
  ∃ r ∈ d .deviceAuthToken, Follows g r ∧ (r : DeviceAuthToken).live = false ∧
    r.revokedBy = some "password_change"

def NoLive (u : ℕ) (d : Db) : Prop :=
  ∀ r ∈ d .deviceAuthToken, (r : DeviceAuthToken).userId = u → r.live = false

instance (lib : Lib) (d : Db) (u : ℕ) (plain : String) : Decidable (Verifies lib d u plain) :=
  inferInstanceAs (Decidable (∃ c ∈ d .credential, _))

instance (g : DeviceAuthToken) (d : Db) : Decidable (CutOff g d) :=
  inferInstanceAs (Decidable (∃ r ∈ d .deviceAuthToken, (_ ∧ _ ∧ _) ∧ _))

instance (u : ℕ) (d : Db) : Decidable (NoLive u d) :=
  inferInstanceAs (Decidable (∀ r ∈ d .deviceAuthToken, _))

/-- A login commits a token of a user whose password still is the one it was given; a
refresh commits before a change of password has cut off the token it was given; a
change of password commits when no live token of the user is left. -/
def AuthRequest.InTime (lib : Lib) (d d' : Db) : AuthRequest → Prop
  | .login req => ∀ r ∈ d' .deviceAuthToken, (r : DeviceAuthToken) ∉ d .deviceAuthToken →
      r.live → Verifies lib d r.userId req.password
  | .refresh none => True
  | .refresh (some plain) => ∀ g ∈ d .deviceAuthToken,
      (g : DeviceAuthToken).tokenHash = lib.hashToken plain → ¬CutOff g d
  | .changePassword req => NoLive req.userIdentifier d'

instance (lib : Lib) (d d' : Db) : (req : AuthRequest) → Decidable (req.InTime lib d d')
  | .login req => inferInstanceAs (Decidable (∀ r ∈ d' .deviceAuthToken,
      (r : DeviceAuthToken) ∉ d .deviceAuthToken → r.live → Verifies lib d r.userId req.password))
  | .refresh none => .isTrue trivial
  | .refresh (some plain) => inferInstanceAs (Decidable (∀ g ∈ d .deviceAuthToken,
      (g : DeviceAuthToken).tokenHash = lib.hashToken plain → ¬CutOff g d))
  | .changePassword req => inferInstanceAs (Decidable (NoLive req.userIdentifier d'))

def InTime (lib : Lib) (reqs : Fin n → AuthRequest) (e : Commit accounts n) : Prop :=
  (reqs e.proc).InTime lib e.before e.after

instance (lib : Lib) (reqs : Fin n → AuthRequest) : DecidablePred (InTime lib reqs) := fun e =>
  inferInstanceAs (Decidable ((reqs e.proc).InTime lib e.before e.after))

/-- The commit adds the token `r`. -/
def Creates (e : Commit accounts n) (r : DeviceAuthToken) : Prop :=
  e.before.get .deviceAuthToken r.id = none ∧ e.after.get .deviceAuthToken r.id = some r

/-- Token `k` was issued by a login of the user `u` with a password that `d` verifies, or
by a refresh that was given such a token. -/
inductive Descends (lib : Lib) (reqs : Fin n → AuthRequest) (d : Db) (x : List (Commit accounts n))
    (u : ℕ) : ℕ → Prop
  | login {e : Commit accounts n} {req : LoginRequest} {r : DeviceAuthToken} : e ∈ x →
      reqs e.proc = .login req → Creates e r → r.userId = u → Verifies lib d u req.password →
      Descends lib reqs d x u r.id
  | refresh {e : Commit accounts n} {plain : String} {g r : DeviceAuthToken} : e ∈ x →
      reqs e.proc = .refresh (some plain) → Creates e r → g ∈ e.before .deviceAuthToken →
      g.tokenHash = lib.hashToken plain → Descends lib reqs d x u g.id →
      Descends lib reqs d x u r.id

section Steps
variable {lib : Lib} {reqs : Fin n → AuthRequest} {C : Commit accounts n → Prop} {d₀ d d' : Db}
variable {es x x' : List (Commit accounts n)} {e : Commit accounts n} {u k : ℕ}

theorem Descends.mono (hd : ∀ plain, Verifies lib d u plain → Verifies lib d' u plain)
    (hx : ∀ e ∈ x, e ∈ x') (h : Descends lib reqs d x u k) : Descends lib reqs d' x' u k := by
  induction h with
  | login he hreq hcreates hu hv => exact .login (hx _ he) hreq hcreates hu (hd _ hv)
  | refresh he hreq hcreates hg hhash _ ih => exact .refresh (hx _ he) hreq hcreates hg hhash ih

/-- Every descent starts at a login with a password of the user. -/
theorem Descends.login_verifies (h : Descends lib reqs d x u k) :
    ∃ i req, reqs i = .login req ∧ Verifies lib d u req.password := by
  induction h with
  | @login e req _ _ hreq _ _ hv => exact ⟨e.proc, req, hreq, hv⟩
  | refresh _ _ _ _ _ _ ih => exact ih

/-! ## Passwords -/

/-- A commit that sets no password of the user keeps what the user's passwords are. -/
theorem verifies_evolves {A : Scope} (h : Evolves A.order d d') (hd : d.Wf)
    (hu : ∀ hash, ¬A.sets u hash) {plain : String} (hv : Verifies lib d u plain) :
    Verifies lib d' u plain := by
  obtain ⟨c, hc, hcu, htype, hverifies⟩ := hv
  have hrel := h .credential (accounts.id (t := .credential) c)
  rw [Store.get_of_mem hd.ids hc] at hrel
  rcases hrel with hsame | ⟨hash, t, hsets, -, -⟩
  · exact ⟨c, Store.mem_of_get hsame, hcu, htype, hverifies⟩
  · exact absurd (hcu ▸ hsets) (hu hash)

/-! ## Cut-off tokens -/

/-- Of a token that was live, one that follows it is live, or it is cut off. -/
def Traced (g : DeviceAuthToken) (d : Db) : Prop :=
  (∃ r ∈ d .deviceAuthToken, Follows g r ∧ (r : DeviceAuthToken).live) ∨ CutOff g d

theorem CutOff.evolves {g : DeviceAuthToken} (h : CutOff g d) (hd : d.Wf)
    (hev : Evolves Scope.any.order d d') : CutOff g d' := by
  obtain ⟨r, hr, hfollows, hdead, hby⟩ := h
  obtain ⟨r', hr', rfl | ⟨hlive, -⟩⟩ := Scope.token hev (Store.get_of_mem hd.ids hr)
  · exact ⟨r', Store.mem_of_get hr', hfollows, hdead, hby⟩
  · rw [hdead] at hlive
    cases hlive

theorem Issues.traced {by_ : String} {g new : DeviceAuthToken} (h : Issues by_ new d d') (hd : d.Wf)
    (ht : Traced g d) : Traced g d' := by
  rcases ht with ⟨r, hr, ⟨hds, hu, hid⟩, hlive⟩ | hcut
  · have hget := Store.get_of_mem hd.ids hr
    by_cases hpair : r.deviceSessionId = new.deviceSessionId ∧ r.userId = new.userId
    · have habove : r.id < new.id := h.above _ r hget hpair.1
      refine .inl ⟨new, Store.mem_of_get h.present, ⟨?_, ?_, by omega⟩, h.live⟩
      · rw [← hpair.1, hds]
      · rw [← hpair.2, hu]
    · obtain ⟨r', hr', rfl | ⟨-, b, t, ⟨hds', hu', -⟩, -⟩⟩ := Scope.token h.evolves hget
      · exact .inl ⟨r', Store.mem_of_get hr', ⟨hds, hu, hid⟩, hlive⟩
      · exact absurd ⟨hds', hu'⟩ hpair
  · exact .inr (hcut.evolves hd (Scope.evolves_mono (Scope.le_any _) h.evolves))

theorem changing_traced {v : ℕ} {hash : String} {g : DeviceAuthToken}
    (h : Evolves (changing v hash).order d d') (hd : d.Wf) (ht : Traced g d) : Traced g d' := by
  rcases ht with ⟨r, hr, hfollows, hlive⟩ | hcut
  · obtain ⟨r', hr', rfl | ⟨-, b, t, ⟨-, rfl⟩, rfl⟩⟩ := Scope.token h (Store.get_of_mem hd.ids hr)
    · exact .inl ⟨r', Store.mem_of_get hr', hfollows, hlive⟩
    · exact .inr ⟨_, Store.mem_of_get hr', hfollows, rfl, rfl⟩
  · exact .inr (hcut.evolves hd (Scope.evolves_mono (Scope.le_any _) h))

theorem traced_step {g : DeviceAuthToken} (hd : e.before.Wf) (ht : Traced g e.before)
    (h : (authLedger lib reqs C d₀).allows es e) : Traced g e.after := by
  obtain ⟨-, hcommits⟩ := h
  cases hreq : reqs e.proc with
  | login req =>
    rw [hreq] at hcommits
    obtain ⟨new, hissues⟩ := hcommits
    exact hissues.traced hd ht
  | refresh token =>
    rw [hreq] at hcommits
    cases token with
    | none => exact hcommits.elim
    | some plain =>
      obtain ⟨g, new, -, -, -, -, -, hissues⟩ := hcommits
      exact hissues.traced hd ht
  | changePassword req =>
    rw [hreq] at hcommits
    obtain ⟨hash, hchange⟩ := hcommits
    exact changing_traced hchange hd ht

/-- Where no token of its user is left alive, a token that was live before is cut off. -/
theorem cutOff_of_noLive {p : Commit accounts n → Prop} {g : DeviceAuthToken} (hd : d.Wf)
    (hg : d.get .deviceAuthToken g.id = some g) (hlive : g.live)
    (h : (authLedger lib reqs C d₀).Later p x d x' d') (hno : NoLive g.userId d') : CutOff g d' := by
  have htraced : d'.Wf ∧ Traced g d' := by
    apply h.keeps (I := fun _ d => d.Wf ∧ Traced g d)
    · exact ⟨hd, .inl ⟨g, Store.mem_of_get hg, ⟨rfl, rfl, le_rfl⟩, hlive⟩⟩
    · intro es e hbefore _ hallows
      exact ⟨hallows.1.2, traced_step hbefore.1 hbefore.2 hallows⟩
  rcases htraced.2 with ⟨r, hr, ⟨-, hu, -⟩, hrlive⟩ | hcut
  · rw [hno r hr hu] at hrlive
    cases hrlive
  · exact hcut

/-! ## What is live after the change -/

/-- Since a point of the log at which the user had no live token, only tokens that
descend from logins with a password of the user were issued to the user. -/
def Renewed (lib : Lib) (reqs : Fin n → AuthRequest) (d₀ : Db) (u : ℕ)
    (x : List (Commit accounts n)) (d : Db) : Prop :=
  ∃ es, es <:+ x ∧ NoLive u (Ledger.lastStore d₀ es) ∧
    ∀ k (r : DeviceAuthToken), d.get .deviceAuthToken k = some r → r.userId = u →
      (Ledger.lastStore d₀ es).get .deviceAuthToken k = none → Descends lib reqs d x u k

/-- A token that a refresh was given before it was cut off was issued after that point. -/
theorem given_renewed {g r : DeviceAuthToken} (hd₀ : d₀.Wf)
    (hlog : (authLedger lib reqs C d₀).Logged d₀ x d) (hseen : SeenIn d₀ x g) (hlive : g.live)
    (hes : es <:+ x) (hno : NoLive g.userId (Ledger.lastStore d₀ es)) (hcut : ¬CutOff g d)
    (hr : (Ledger.lastStore d₀ es).get .deviceAuthToken g.id = some r) : False := by
  obtain ⟨es₀, hsuf, hg⟩ := hseen
  have hat : ∀ {es'}, es' <:+ x → (authLedger lib reqs C d₀).Logged d₀ es' (Ledger.lastStore d₀ es') :=
    fun h => hlog.suffix h
  rcases List.suffix_or_suffix_of_suffix hes hsuf with hold | hnew
  · -- the refresh read the token when it was not live any more
    have hlater := (hat hsuf).later hold
    obtain ⟨r', hr', -, -, -, hsame⟩ := Scope.token_same (later_evolves hlater) hr
    rw [hg] at hr'
    obtain rfl := hsame (Option.some.inj hr' ▸ hlive)
    obtain rfl := Option.some.inj hr'
    rw [hno _ (Store.mem_of_get hr) rfl] at hlive
    cases hlive
  · -- the token was live before the point, so it is cut off from there on
    have hlater := (hat hes).later hnew
    have hbroken := cutOff_of_noLive (logged_wf hd₀ (hat hsuf)) hg hlive hlater hno
    exact hcut (hbroken.evolves (logged_wf hd₀ (hat hes)) (later_evolves (hlog.later hes)))

/-- A token that was not created by the commit goes on to descend as it did. -/
theorem renewed_old (hd : e.before.Wf) {A : Scope} (hev : Evolves A.order e.before e.after)
    (hsets : ∀ hash, ¬A.sets u hash)
    (hdesc : ∀ k (r : DeviceAuthToken), e.before.get .deviceAuthToken k = some r → r.userId = u →
      (Ledger.lastStore d₀ x).get .deviceAuthToken k = none → Descends lib reqs e.before es u k)
    {r s : DeviceAuthToken} (hr : e.after.get .deviceAuthToken k = some r) (hru : r.userId = u)
    (hs : e.before.get .deviceAuthToken k = some s)
    (hnone : (Ledger.lastStore d₀ x).get .deviceAuthToken k = none) :
    Descends lib reqs e.after (e :: es) u k := by
  obtain ⟨r', hr', -, hu, -, -⟩ := Scope.token_same hev hs
  rw [hr] at hr'
  obtain rfl := Option.some.inj hr'
  apply (hdesc k s hs (hu.symm.trans hru) hnone).mono
  · intro plain hv
    exact verifies_evolves hev hd hsets hv
  · intro e' he'
    exact List.mem_cons_of_mem _ he'

/-- A commit that issues a token keeps the point, when the new token descends. -/
theorem Issues.renewed {by_ : String} {new : DeviceAuthToken} (h : Issues by_ new e.before e.after)
    (hd : e.before.Wf) (hes : x <:+ es) (hno : NoLive u (Ledger.lastStore d₀ x))
    (hdesc : ∀ k (r : DeviceAuthToken), e.before.get .deviceAuthToken k = some r → r.userId = u →
      (Ledger.lastStore d₀ x).get .deviceAuthToken k = none → Descends lib reqs e.before es u k)
    (hnew : new.userId = u → Descends lib reqs e.after (e :: es) u new.id) :
    Renewed lib reqs d₀ u (e :: es) e.after := by
  refine ⟨x, hes.trans (List.suffix_cons _ _), hno, ?_⟩
  intro k r hr hru hnone
  cases hs : e.before.get .deviceAuthToken k with
  | none =>
    have hrel := h.evolves .deviceAuthToken k
    rw [hs, hr] at hrel
    have hid : r.id = new.id := hrel r rfl
    have hk : k = new.id := (token_id hr).symm.trans hid
    subst hk
    rw [h.present] at hr
    obtain rfl := Option.some.inj hr
    exact hnew hru
  | some s => exact renewed_old hd h.evolves (fun _ hsets => hsets) hdesc hr hru hs hnone

theorem renewed_step (hd₀ : d₀.Wf)
    (hlog : (authLedger lib reqs (InTime lib reqs) d₀).Logged d₀ es e.before)
    (h : Renewed lib reqs d₀ u es e.before)
    (hallows : (authLedger lib reqs (InTime lib reqs) d₀).allows es e) :
    Renewed lib reqs d₀ u (e :: es) e.after := by
  have hd := logged_wf hd₀ hlog
  obtain ⟨y, hy, hno, hdesc⟩ := h
  obtain ⟨⟨htime, -⟩, hcommits⟩ := hallows
  rw [InTime] at htime
  cases hreq : reqs e.proc with
  | login req =>
    rw [hreq] at hcommits htime
    obtain ⟨new, hissues⟩ := hcommits
    apply hissues.renewed hd hy hno hdesc
    intro hu
    have hfresh : new ∉ e.before .deviceAuthToken := by
      intro hmem
      have hget := Store.get_of_mem hd.ids hmem
      have hnone : e.before.get .deviceAuthToken (accounts.id (t := .deviceAuthToken) new) = none :=
        hissues.absent
      rw [hnone] at hget
      cases hget
    have hv := htime new (Store.mem_of_get hissues.present) hfresh hissues.live
    rw [hu] at hv
    have hv' := verifies_evolves hissues.evolves hd (fun _ hsets => hsets) hv
    exact .login List.mem_cons_self hreq ⟨hissues.absent, hissues.present⟩ hu hv'
  | refresh token =>
    rw [hreq] at hcommits htime
    cases token with
    | none => exact hcommits.elim
    | some plain =>
      obtain ⟨g, new, hseen, hlive, hhash, hds, hgu, hissues⟩ := hcommits
      apply hissues.renewed hd hy hno hdesc
      intro hu
      obtain ⟨r, hr, hrds, hru, hrhash, -⟩ := hseen.token hlog
      have hid : r.id = g.id := token_id hr
      have hcut : ¬CutOff g e.before := by
        intro hcut
        apply htime r (Store.mem_of_get hr) (hrhash.trans hhash)
        obtain ⟨s, hs, ⟨h₁, h₂, h₃⟩, hrest⟩ := hcut
        exact ⟨s, hs, ⟨h₁.trans hrds.symm, h₂.trans hru.symm, hid ▸ h₃⟩, hrest⟩
      have hgu' : g.userId = u := hgu.symm.trans hu
      have hnone : (Ledger.lastStore d₀ y).get .deviceAuthToken g.id = none := by
        cases hold : (Ledger.lastStore d₀ y).get .deviceAuthToken g.id with
        | none => rfl
        | some s =>
          exact (given_renewed hd₀ hlog hseen hlive hy (by rwa [hgu']) hcut hold).elim
      have hbefore := hdesc g.id r hr (hru.trans hgu') hnone
      have hafter : Descends lib reqs e.after (e :: es) u r.id := by
        rw [hid]
        apply hbefore.mono
        · intro p hv
          exact verifies_evolves hissues.evolves hd (fun _ hsets => hsets) hv
        · exact fun e' he' => List.mem_cons_of_mem _ he'
      exact .refresh List.mem_cons_self hreq ⟨hissues.absent, hissues.present⟩
        (Store.mem_of_get hr) (hrhash.trans hhash) hafter
  | changePassword req =>
    rw [hreq] at hcommits htime
    obtain ⟨hash, hchange⟩ := hcommits
    by_cases hu : req.userIdentifier = u
    · rw [AuthRequest.InTime, hu] at htime
      refine ⟨e :: es, List.suffix_refl _, htime, ?_⟩
      intro k r hr _ hnone
      have hlast : e.after.get .deviceAuthToken k = none := hnone
      rw [hlast] at hr
      cases hr
    · refine ⟨y, hy.trans (List.suffix_cons _ _), hno, ?_⟩
      intro k r hr hru hnone
      cases hs : e.before.get .deviceAuthToken k with
      | none =>
        have hrel := hchange .deviceAuthToken k
        rw [hs, hr] at hrel
        exact (hrel r rfl).elim
      | some s =>
        exact renewed_old hd hchange (fun _ hsets => hu hsets.1.symm) hdesc hr hru hs hnone

end Steps

/-- Did the request change the password? -/
def changed : Option (Except (Exn AppErr) Answer) → Bool
  | some (.ok (.message _)) => true
  | _ => false

theorem changed_eq {r : Option (Except (Exn AppErr) Answer)} (h : changed r = true) :
    ∃ text, r = some (.ok (.message text)) := by
  rw [changed.eq_def] at h
  split at h
  · exact ⟨_, rfl⟩
  · cases h

def loginAgain : Fin 2 → AuthRequest
  | 0 => .changePassword ⟨1, "Old1!pwd", "New1!pwd"⟩
  | 1 => .login ⟨"a@b", "New1!pwd", some "ds"⟩

def loginMeanwhile : Fin 2 → AuthRequest
  | 0 => .login ⟨"a@b", "Old1!pwd", some "ds"⟩
  | 1 => .changePassword ⟨1, "Old1!pwd", "New1!pwd"⟩

end Phyllonix.Auth
