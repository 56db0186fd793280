import Phyllonix.CheckoutInitiation
import Phyllonix.ShopRules
import Phyllonix.RelationalLog

/-!
# What checkout initiation answers

The initiate requests of one user run interleaved. A request that finds an active checkout
answers with its identifier, and with the expiry that it computed for one of its own.
-/

namespace Phyllonix
open Relational
variable {n : ℕ}

def initiations (u : ℕ) (w : World shop shopHost) : Sys shop shopHost n (Except (Exn AppErr) Reply) :=
  .start w fun _ => (initiateBuyNow u).session

/-- The reply that gives a checkout and its expiry. -/
def initiated (checkoutPublicId : UUID) (reservedUntil : ℕ) : Reply :=
  jsonOk (buildSuccess (.obj [("checkout_id", .str (uuidStr checkoutPublicId)),
    ("reserved_until", .str (datetimeStr reservedUntil))])) 201

/-- The reply gives an active, unexpired checkout of the user with the expiry that is stored. -/
def Truthful (u : ℕ) (sh : Shared shop shopHost) (r : Reply) : Prop :=
  ∃ c : CheckoutSession, c ∈ sh.db .checkoutSession ∧ c.userId = u ∧ c.isActive = true ∧
    sh.host.clock ≤ c.expiresAt ∧ r = initiated c.publicId c.expiresAt

/-- The insertion of a checkout that expires at `t`. -/
inductive AsksFor (t : ℕ) : ShopAction → Prop
  | insert {mk hmk skip} : (∀ m, CheckoutSession.expiresAt (mk m) = t) →
      AsksFor t (.insert .checkoutSession mk hmk skip)

/-- The read of `get_checkout_session`. -/
inductive LooksUp (u : ℕ) : ShopAction → Prop
  | read : LooksUp u (.read fun d : Db => (d .checkoutSession).filter fun c : CheckoutSession =>
      c.userId = u && c.isActive)

/-- Request `i` asks for a checkout that expires at `reservedUntil i`, and the checkout that it
finds instead, unless it has expired, expires at that time too. -/
def findsOwnExpiry (u : ℕ) (reservedUntil : Fin n → ℕ) : Guard shop shopHost n := fun i sh _ a _ =>
  (∀ t, AsksFor t a → t = reservedUntil i) ∧ (LooksUp u a → ∀ c : CheckoutSession,
    c ∈ sh.db .checkoutSession → c.userId = u → c.isActive = true → sh.host.clock ≤ c.expiresAt →
      c.expiresAt = reservedUntil i)

/-! ## Checkouts while only initiate requests run -/

/-- A checkout keeps its identifier, its user and its expiry, and is active until it expires. -/
structure Lasts (clock : ℕ) (c c' : CheckoutSession) : Prop where
  publicId : c'.publicId = c.publicId
  userId : c'.userId = c.userId
  expiresAt : c'.expiresAt = c.expiresAt
  active : c.isActive = true → clock ≤ c.expiresAt → c'.isActive = true

/-- Time goes on, and every checkout lasts. -/
structure Passes (sh sh' : Shared shop shopHost) : Prop where
  clock : sh.host.clock ≤ sh'.host.clock
  lasts : ∀ k (c : CheckoutSession), sh.db.get .checkoutSession k = some c →
    ∃ c' : CheckoutSession, sh'.db.get .checkoutSession k = some c' ∧ Lasts sh'.host.clock c c'

theorem Lasts.refl (clock : ℕ) (c : CheckoutSession) : Lasts clock c c := ⟨rfl, rfl, rfl, fun h _ => h⟩

theorem Passes.of_db {sh sh' : Shared shop shopHost} (hclock : sh.host.clock ≤ sh'.host.clock)
    (hdb : sh'.db = sh.db) : Passes sh sh' :=
  ⟨hclock, fun _ c hc => ⟨c, hdb ▸ hc, .refl _ c⟩⟩

theorem Passes.trans {sh sh' sh'' : Shared shop shopHost} (h : Passes sh sh') (h' : Passes sh' sh'') :
    Passes sh sh'' := by
  refine ⟨h.clock.trans h'.clock, fun k c hc => ?_⟩
  obtain ⟨c', hc', hlast⟩ := h.lasts k c hc
  obtain ⟨c'', hc'', hlast'⟩ := h'.lasts k c' hc'
  refine ⟨c'', hc'', hlast'.publicId.trans hlast.publicId, hlast'.userId.trans hlast.userId,
    hlast'.expiresAt.trans hlast.expiresAt, fun hactive hle => ?_⟩
  apply hlast'.active
  · exact hlast.active hactive (h'.clock.trans hle)
  · rwa [hlast.expiresAt]

def checkoutsLast (n : ℕ) : Protocol shop shopHost n where
  toHistory := History.none
  inv _ _ := True
  rely _ _ sh _ sh' _ := Passes sh sh'
  guar _ _ sh _ sh' := Passes sh sh'
  next_same := History.none_same
  rely_refl _ _ _ _ := .of_db le_rfl rfl
  rely_trans h h' := h.trans h'
  guar_same _ _ _ _ := .of_db le_rfl rfl
  compat _ _ _ _ _ h := h
  env_inv _ _ _ h := h
  env_rely _ _ _ _ _ _ := .of_db (Nat.le_add_right _ _) rfl

theorem checkoutsLast_quiet : Quiet (checkoutsLast n) where
  inv _ h := h
  next _ _ _ _ := rfl
  guar _ _ _ _ _ hclock := .of_db hclock.ge rfl

section Requests
variable {u : ℕ} {G : Guard shop shopHost n} {i : Fin n} {sh : Shared shop shopHost} {x : Unit}
variable {l : Txn shop}

/-- What an answered request has got: a checkout that stays active until the request's own expiry. -/
structure Got (u : ℕ) (t : ℕ) (sh : Shared shop shopHost) (r : Reply) (k : ℕ) (c : CheckoutSession) : Prop where
  stored : sh.db.get .checkoutSession k = some c
  user : c.userId = u
  expiresAt : c.expiresAt = t
  active : sh.host.clock ≤ c.expiresAt → c.isActive = true
  reply : r = initiated c.publicId t

theorem Got.passes {t k : ℕ} {r : Reply} {c : CheckoutSession} (h : Got u t sh r k c)
    {sh' : Shared shop shopHost} (hp : Passes sh sh') : ∃ c', Got u t sh' r k c' := by
  obtain ⟨c', hc', hlast⟩ := hp.lasts k c h.stored
  refine ⟨c', hc', hlast.userId.trans h.user, hlast.expiresAt.trans h.expiresAt, fun hle => ?_, ?_⟩
  · rw [hlast.expiresAt] at hle
    exact hlast.active (h.active (hp.clock.trans hle)) hle
  · rw [hlast.publicId]
    exact h.reply

/-- Nothing is said of a request that raises. -/
def GotPost (u t : ℕ) : Post (checkoutsLast n) Reply :=
  Post.ofOk fun r sh _ _ => ∃ k c, Got u t sh r k c

/-- The deactivation of a checkout that has expired. -/
theorem deactivate_safe {k : ℕ} {c : CheckoutSession} (hget : sh.db.get .checkoutSession k = some c)
    (hexp : c.expiresAt < sh.host.clock) :
    Safe (checkoutsLast n) G i (fun _ _ _ _ => True) (updateCheckoutActiveness k) sh x {} := by
  apply Safe.bind
  apply safe_updateById
  · intro w y hs l' hu
    obtain ⟨c₁, hget₁, hlast⟩ := hs.rely.lasts k c hget
    obtain ⟨hw, hlock⟩ := updated_one hu hget₁
    apply Safe.commit
    · rintro w₂ y₂ hs₂ -
      have hget₂ : w₂.db.get .checkoutSession k = some c₁ := (hs₂.still.row _ _ hlock).trans hget₁
      have hid : CheckoutSession.id c₁ = k := Store.id_of_get hget₁
      have hclock : sh.host.clock ≤ w₂.host.clock := hs.rely.clock.trans hs₂.rely.clock
      refine ⟨trivial, ⟨le_rfl, fun k' c' hc' => ?_⟩, trivial⟩
      have hview : l'.view w₂.db = w₂.db.put .checkoutSession { c₁ with isActive := false } := by
        rw [Txn.view, hw]
        rfl
      by_cases hk : k' = k
      · subst hk
        obtain rfl : c₁ = c' := Option.some.inj (hget₂.symm.trans hc')
        refine ⟨{ c₁ with isActive := false }, ?_, rfl, rfl, rfl, fun _ hle => ?_⟩
        · change (l'.view w₂.db).get .checkoutSession k' = _
          rw [hview, ← hid]
          exact Store.get_put_self (S := shop) _ .checkoutSession { c₁ with isActive := false }
        · have hexp₁ := hlast.expiresAt
          change w₂.host.clock ≤ _ at hle
          omega
      · refine ⟨c', ?_, .refl _ _⟩
        change (l'.view w₂.db).get .checkoutSession k' = _
        rw [hview, Store.get_put_of_ne _ _ fun h => hk (h.2.trans hid)]
        exact hc'
    · exact fun _ _ _ _ _ _ _ => trivial
  · exact fun _ _ _ _ _ _ _ => trivial

variable {reservedUntil : Fin n → ℕ}

theorem getCheckoutSession_safe :
    Safe (checkoutsLast n) (findsOwnExpiry u reservedUntil) i (.ofOk fun o sh _ l => l.writes = [] ∧
      ∀ pid, o = some pid → ∃ k c, Got u (reservedUntil i) sh (initiated pid (reservedUntil i)) k c)
      (getCheckoutSession u) sh x {} := by
  apply Safe.bind
  apply Safe.read_guarded
  · rintro w y hs ⟨_, hG⟩
    apply Safe.bind
    apply safe_oneOrNone
    · exact fun _ => Safe.pure ⟨rfl, fun pid h => by cases h⟩
    · intro c hrows
      have hmem : c ∈ (w.db .checkoutSession).filter fun c : CheckoutSession => c.userId = u && c.isActive :=
        hrows ▸ List.mem_singleton_self c
      obtain ⟨hc, hp⟩ := List.mem_filter.mp hmem
      simp only [Bool.and_eq_true, decide_eq_true_eq] at hp
      have hget : w.db.get .checkoutSession (CheckoutSession.id c) = some c := Store.get_of_mem hs.world.wf.ids hc
      apply Safe.bind
      apply safe_now checkoutsLast_quiet
      intro w₁ y₁ hs₁
      obtain ⟨c₁, hget₁, hlast⟩ := hs₁.rely.lasts _ c hget
      dsimp only
      split
      · rename_i hexp
        apply Safe.bind
        rw [← hlast.expiresAt] at hexp
        apply (deactivate_safe hget₁ hexp).mono
        intro r sh x l _
        cases r with
        | error e => trivial
        | ok _ => exact Safe.raise trivial
      · rename_i hexp
        have hle : w₁.host.clock ≤ CheckoutSession.expiresAt c := Nat.le_of_not_lt hexp
        have hown := hG.2 .read c hc hp.1 hp.2 (hs₁.rely.clock.trans hle)
        apply Safe.pure
        refine ⟨rfl, ?_⟩
        rintro pid ⟨⟩
        refine ⟨_, c₁, hget₁, hlast.userId.trans hp.1, hlast.expiresAt.trans hown, fun _ => hlast.active hp.2 hle, ?_⟩
        rw [hlast.publicId]
    · trivial
  · exact fun _ _ _ _ _ _ _ => trivial

/-- The request has inserted a checkout of its own. -/
structure Inserted (u t : ℕ) (sh : Shared shop shopHost) (l : Txn shop) (c : CheckoutSession) : Prop where
  writes : l.writes = [⟨.checkoutSession, c⟩]
  absent : sh.db.get .checkoutSession c.id = none
  locked : .row .checkoutSession c.id ∈ l.locks
  user : c.userId = u
  expiresAt : c.expiresAt = t
  active : c.isActive = true

theorem getOrCreateCheckoutSession_safe {t : ℕ} :
    Safe (checkoutsLast n) (findsOwnExpiry u reservedUntil) i (.ofOk fun pid sh _ l => t = reservedUntil i ∧
      ((∃ c, Inserted u t sh l c ∧ c.publicId = pid) ∨
        (l.writes = [] ∧ ∃ k c, Got u t sh (initiated pid t) k c)))
      (getOrCreateCheckoutSession u t) sh x {} := by
  apply Safe.bind
  apply safe_uuid7 checkoutsLast_quiet
  intro w y hs pid s _
  apply Safe.bind
  apply Safe.insertSkip
  · rintro w₁ y₁ hs₁ ⟨_, hG⟩ m hm
    have hown : t = reservedUntil i := hG.1 t (.insert fun _ => rfl)
    apply Safe.pure
    refine ⟨hown, .inl ⟨_, ⟨rfl, ?_, List.mem_cons_self, rfl, rfl, rfl⟩, rfl⟩⟩
    exact Store.get_eq_none_iff.2 fun r hr => (hm r hr).ne
  · rintro w₁ y₁ hs₁ ⟨_, hG⟩ m -
    have hown : t = reservedUntil i := hG.1 t (.insert fun _ => rfl)
    apply Safe.bind_ok getCheckoutSession_safe
    intro o sh x l hr
    obtain ⟨hl, hgot⟩ := hr
    cases o with
    | none => trivial
    | some pid' =>
      rw [← hown] at hgot
      exact Safe.pure ⟨hown, .inr ⟨hl, hgot pid' rfl⟩⟩
  · exact fun _ _ _ _ _ _ _ => trivial

theorem initiateBuyNow_safe :
    Safe (checkoutsLast n) (findsOwnExpiry u reservedUntil) i (GotPost u (reservedUntil i))
      (initiateBuyNow u) sh x {} := by
  apply Safe.bind
  apply safe_now checkoutsLast_quiet
  intro w y hs
  dsimp only
  generalize w.host.clock + seconds (RESERVATION_TTL_MINUTES * 60) = t
  apply Safe.bind
  apply Safe.bind
  apply Safe.read
  · intro w₁ y₁ hs₁
    dsimp only
    split
    · trivial
    · trivial
    · apply Safe.pure
      apply Safe.bind_ok getOrCreateCheckoutSession_safe
      intro pid sh x l hr
      obtain ⟨rfl, hgot⟩ := hr
      apply Safe.bind
      rcases hgot with ⟨c, hins, rfl⟩ | ⟨hl, k, c, hgot⟩
      · apply Safe.commit
        · rintro w₂ y₂ hs₂ -
          have hview : l.view w₂.db = w₂.db.put .checkoutSession c := by
            rw [Txn.view, hins.writes]
            rfl
          have habsent : w₂.db.get .checkoutSession c.id = none := (hs₂.still.row _ _ hins.locked).trans hins.absent
          have hget : (l.view w₂.db).get .checkoutSession c.id = some c := by
            rw [hview]
            exact Store.get_put_self (S := shop) _ .checkoutSession c
          refine ⟨trivial, ⟨le_rfl, fun k c' hc' => ?_⟩, c.id, c, hget, hins.user, hins.expiresAt,
            fun _ => hins.active, rfl⟩
          · refine ⟨c', ?_, .refl _ _⟩
            change (l.view w₂.db).get .checkoutSession k = _
            rw [hview, Store.get_put_of_ne]
            · exact hc'
            · rintro ⟨-, rfl⟩
              cases habsent.symm.trans hc'
        · exact fun _ _ _ _ _ _ _ => trivial
      · apply Safe.commit_nothing hl
        · intro w₂ y₂ hs₂
          obtain ⟨c', hgot'⟩ := hgot.passes hs₂.rely
          exact ⟨k, c', hgot'⟩
        · exact fun _ _ _ _ _ _ _ => trivial
  · exact fun _ _ _ _ _ _ _ => trivial

end Requests

/-! ## Runs -/

/-- One active checkout of the user, and true replies, the same for all, to the requests whose
expiry is not over. -/
structure InitiationLaw (u : ℕ) (reservedUntil : Fin n → ℕ) (s : Sys shop shopHost n (Except (Exn AppErr) Reply)) :
    Prop where
  single : ∀ c c' : CheckoutSession, c ∈ s.world.db .checkoutSession → c' ∈ s.world.db .checkoutSession →
    c.userId = u → c'.userId = u → c.isActive = true → c'.isActive = true → c = c'
  truthful : ∀ i r, s.outcome i = some (.ok r) → s.world.host.clock ≤ reservedUntil i →
    Truthful u s.world.toShared r
  identical : ∀ i j r r', s.outcome i = some (.ok r) → s.outcome j = some (.ok r') →
    s.world.host.clock ≤ reservedUntil i → s.world.host.clock ≤ reservedUntil j → r = r'

theorem active_unique {d : Db} (hd : d.Wf) {c c' : CheckoutSession} (hc : c ∈ d .checkoutSession)
    (hc' : c' ∈ d .checkoutSession) (huser : c.userId = c'.userId) (hactive : c.isActive = true)
    (hactive' : c'.isActive = true) : c = c' := by
  have hkeys : ∀ b : CheckoutSession, b.isActive = true →
      IndexKey.activeUser b.userId ∈ rowKeys (t := .checkoutSession) b := by
    intro b hb
    simp [rowKeys, hb]
  exact hd.eq_of_key hc hc' (hkeys c hactive) (huser ▸ hkeys c' hactive')

theorem Truthful.unique {u : ℕ} {sh : Shared shop shopHost} (hd : sh.db.Wf) {r r' : Reply} (h : Truthful u sh r)
    (h' : Truthful u sh r') : r = r' := by
  obtain ⟨c, hc, huser, hactive, -, rfl⟩ := h
  obtain ⟨c', hc', huser', hactive', -, rfl⟩ := h'
  rw [active_unique hd hc hc' (huser.trans huser'.symm) hactive hactive']

theorem initiations_got {u : ℕ} {reservedUntil : Fin n → ℕ} {w : World shop shopHost} (hw : w.Ok)
    {s : Sys shop shopHost n (Except (Exn AppErr) Reply)}
    (hrun : Sys.Run (findsOwnExpiry u reservedUntil) History.none (initiations u w) () s ()) {i : Fin n} {r : Reply}
    (hr : s.outcome i = some (.ok r)) : ∃ k c, Got u (reservedUntil i) s.world.toShared r k c := by
  have hinv : s.Inv (checkoutsLast n) (findsOwnExpiry u reservedUntil) (fun i => .ofOk fun a sh _ _ =>
      ∀ r, a = .ok r → ∃ k c, Got u (reservedUntil i) sh r k c) () := by
    apply Sys.Run.inv (P := checkoutsLast n) hrun
    apply Sys.inv_start hw trivial
    intro i
    apply Safe.session
    apply initiateBuyNow_safe.mono
    rintro a sh x l ha w y hs r rfl
    obtain ⟨k, c, hgot⟩ := ha
    exact ⟨k, hgot.passes hs.rely⟩
  obtain ⟨sh, y, hsafe, hseen⟩ := hinv.seen i
  rw [Sys.prog_of_outcome hr] at hsafe
  obtain ⟨k, c, hgot⟩ := hsafe r rfl
  exact ⟨k, hgot.passes hseen.rely⟩

/-- Where a found checkout, unless it has expired, expires at the request's own time. -/
theorem initiation_law {u : ℕ} {reservedUntil : Fin n → ℕ} {w : World shop shopHost} (hw : w.Ok)
    {s : Sys shop shopHost n (Except (Exn AppErr) Reply)}
    (hrun : Sys.Run (findsOwnExpiry u reservedUntil) History.none (initiations u w) () s ()) :
    InitiationLaw u reservedUntil s := by
  have hd : s.world.db.Wf := (hrun.ok (Sys.start_ok hw _)).world.wf
  have htrue : ∀ i r, s.outcome i = some (.ok r) → s.world.host.clock ≤ reservedUntil i →
      Truthful u s.world.toShared r := by
    intro i r hr hle
    obtain ⟨k, c, hgot⟩ := initiations_got hw hrun hr
    rw [← hgot.expiresAt] at hle
    refine ⟨c, Store.mem_of_get hgot.stored, hgot.user, hgot.active hle, hle, ?_⟩
    rw [hgot.expiresAt]
    exact hgot.reply
  refine ⟨fun c c' hc hc' huser huser' hactive hactive' => ?_, htrue, fun i j r r' hr hr' hle hle' => ?_⟩
  · exact active_unique hd hc hc' (huser.trans huser'.symm) hactive hactive'
  · exact (htrue i r hr hle).unique hd (htrue j r' hr' hle')

/-- User 1 has one item in the cart. -/
def filledCart : World shop shopHost where
  db
    | .cart => [⟨1, some 1, none⟩]
    | .cartItem => [⟨1, some 1, 1, 1⟩]
    | _ => []
  host := ⟨0, 0, [], []⟩
  seq _ := 2

theorem filledCart_ok : filledCart.Ok :=
  ⟨Store.wf_of_pairwise fun t => by cases t <;> decide, fun t => by cases t <;> decide⟩

/-- Requests 0 and 1, one after the other; `pause` comes between them. -/
def twoInitiations (pause : ℕ) : List (Label shopHost 2) :=
  [.proc 0 (.host .proceed), .proc 0 .go, .proc 0 (.host .proceed), .proc 0 .go, .proc 0 .go, .proc 0 .go,
    .env pause, .proc 1 (.host .proceed), .proc 1 .go, .proc 1 (.host .proceed), .proc 1 .go, .proc 1 .go,
    .proc 1 (.host .proceed), .proc 1 .go]

def reservedUntilText : Option (Except (Exn AppErr) Reply) → Option String
  | some (.ok ⟨201, .obj [_, (_, .obj [_, (_, .str t)]), _, _, _]⟩) => some t
  | _ => none

theorem reservedUntilText_initiated (pid : UUID) (t : ℕ) :
    reservedUntilText (some (.ok (initiated pid t))) = some (datetimeStr t) := rfl

/-- Every insertion asks for, and every stored checkout has, the expiry `t`. -/
def expiresAlways (t : ℕ) : Guard shop shopHost n := fun _ sh _ a _ =>
  (∀ c : CheckoutSession, c ∈ sh.db .checkoutSession → c.expiresAt = t) ∧ match a with
    | .insert .checkoutSession mk _ _ => CheckoutSession.expiresAt (mk 0) = t
    | _ => True

instance (t : ℕ) (i : Fin n) (sh : Shared shop shopHost) (l : Txn shop) (a : ShopAction) (c : Choice shopHost) :
    Decidable (expiresAlways t i sh l a c) :=
  match a with
  | .insert s mk _ _ => match s with
    | .checkoutSession => inferInstanceAs (Decidable
        ((∀ c ∈ (sh.db .checkoutSession : List CheckoutSession), c.expiresAt = t) ∧
        CheckoutSession.expiresAt (mk 0) = t))
    | .product | .cart | .cartItem | .inventoryReservation | .idempotencyKey | .orders | .orderItem | .payment
    | .paymentAttempt | .paymentWebhookEvent | .outboxEvent | .commitIntent =>
      inferInstanceAs (Decidable ((∀ c ∈ (sh.db .checkoutSession : List CheckoutSession), c.expiresAt = t) ∧ True))
  | .commit | .read _ | .lock _ _ | .lockSkip _ _ | .update _ _ _ _ | .tryLock _ | .rollback | .host _ =>
    inferInstanceAs (Decidable ((∀ c ∈ (sh.db .checkoutSession : List CheckoutSession), c.expiresAt = t) ∧ True))

theorem expiresAlways_own {u t : ℕ} {i : Fin n} {sh : Shared shop shopHost} {l : Txn shop} {a : ShopAction}
    {c : Choice shopHost} (h : expiresAlways t i sh l a c) : findsOwnExpiry u (fun _ => t) i sh l a c := by
  refine ⟨?_, fun _ b hb _ _ _ => h.1 b hb⟩
  rintro t' ⟨hasks⟩
  exact (hasks 0).symm.trans h.2

theorem initiation_law_twice : ∃ s : Sys shop shopHost 2 (Except (Exn AppErr) Reply),
    Sys.Run (findsOwnExpiry 1 fun _ => seconds 3600) History.none (initiations 1 filledCart) () s () ∧
      reservedUntilText (s.outcome 1) = some "1970-01-01 01:00:00+00:00" ∧
      InitiationLaw 1 (fun _ => seconds 3600) s := by
  have hexec : ((initiations (n := 2) 1 filledCart).exec (expiresAlways (seconds 3600))
      (twoInitiations 0 ++ [.proc 1 .go])).map (fun s => reservedUntilText (s.outcome 1)) =
        some (some "1970-01-01 01:00:00+00:00") := by decide +kernel
  obtain ⟨s, hs, htext⟩ := Option.map_eq_some_iff.mp hexec
  obtain ⟨⟨⟩, hrun⟩ := Sys.run_of_exec History.none () hs
  have hown := hrun.relax fun _ _ _ _ _ => expiresAlways_own (u := 1)
  exact ⟨s, hown, htext, initiation_law filledCart_ok hown⟩

/-- The second request, a second later, answers with an expiry that no checkout has. -/
theorem found_checkout_misdated : ¬∀ (s s' : Sys shop shopHost 2 (Except (Exn AppErr) Reply)) (i : Fin 2)
    (c : Choice shopHost) (r : Reply),
    Sys.Run (fun _ _ _ _ _ => True) History.none (initiations 1 filledCart) () s () →
      s.step (.proc i c) = some s' → s'.outcome i = some (.ok r) → Truthful 1 s'.world.toShared r := by
  intro h
  have hexec : (((initiations 1 filledCart).exec (fun _ _ _ _ _ => True) (twoInitiations (seconds 1))).bind
      fun s => (s.step (.proc 1 .go)).map fun s' => (reservedUntilText (s'.outcome 1),
        (s'.world.db .checkoutSession).map CheckoutSession.expiresAt)) =
        some (some "1970-01-01 01:00:01+00:00", [seconds 3600]) := by decide +kernel
  obtain ⟨s, hs, hstep⟩ := Option.bind_eq_some_iff.mp hexec
  obtain ⟨s', hs', hst⟩ := Option.map_eq_some_iff.mp hstep
  obtain ⟨htext, hrows⟩ := Prod.mk.inj hst
  obtain ⟨⟨⟩, hrun⟩ := Sys.run_of_exec History.none () hs
  cases hr : s'.outcome 1 with
  | none =>
    rw [hr] at htext
    cases htext
  | some a =>
    cases a with
    | error e =>
      rw [hr] at htext
      cases htext
    | ok r =>
      obtain ⟨c, hc, -, -, -, rfl⟩ := h s s' 1 .go r hrun hs' hr
      have hexpires : c.expiresAt = seconds 3600 := by
        have hmem := List.mem_map_of_mem (f := CheckoutSession.expiresAt) hc
        rw [hrows] at hmem
        exact List.mem_singleton.mp hmem
      rw [hr, reservedUntilText_initiated, hexpires] at htext
      revert htext
      decide +kernel

end Phyllonix
