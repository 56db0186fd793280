import Phyllonix.CartActions
import Phyllonix.CheckoutReservations
import Phyllonix.RelationalOutcomes

/-!
# Whose cart a request gets

A cart has two owners, a user and a device session, and each owner has at most one cart. A request
of a user looks for the cart of the user, and a request without one for the cart of the
session; both insert a cart with what they know. An insertion that is refused looks again for the
owner it has asked for, although the other index may have refused it.
-/

namespace Phyllonix
open Relational
variable {n : ℕ}

/-- The ids that a request comes with. -/
structure Caller where
  userId : Option ℕ
  sessionId : Option ℕ
  deriving DecidableEq

namespace Caller

/-- A request is not without any id. -/
def Known (q : Caller) : Prop := q.userId.isSome ∨ q.sessionId.isSome

instance (q : Caller) : Decidable q.Known := inferInstanceAs (Decidable (_ ∨ _))

def Owns (q : Caller) (c : Cart) : Prop :=
  match q.userId with
  | some u => c.userId = some u
  | none => c.sessionId = q.sessionId ∧ c.userId = none

/-- A guest finds no cart of a user at the session, and a user without a cart finds none at all there. -/
def SessionFits (q : Caller) (d : Db) : Prop :=
  match q.userId with
  | some u => (∃ c : Cart, c ∈ d .cart ∧ c.userId = some u) ∨ ∀ c : Cart, c ∈ d .cart → q.sessionId.isSome →
      c.sessionId ≠ q.sessionId
  | none => ∀ c : Cart, c ∈ d .cart → c.sessionId = q.sessionId → c.userId = none

instance (q : Caller) (d : Db) : Decidable (q.SessionFits d) :=
  match q with
  | ⟨some u, sid⟩ => inferInstanceAs (Decidable ((∃ c : Cart, c ∈ d .cart ∧ c.userId = some u) ∨
      ∀ c : Cart, c ∈ d .cart → sid.isSome → c.sessionId ≠ sid))
  | ⟨none, sid⟩ => inferInstanceAs (Decidable (∀ c : Cart, c ∈ d .cart → c.sessionId = sid → c.userId = none))

end Caller

/-- The session fits whenever a guest takes a step, and whenever a user inserts a cart. -/
def sessionsFit (callers : Fin n → Caller) : Guard shop shopHost n := fun i sh _ a _ =>
  match a with
  | .insert .. => (callers i).SessionFits sh.db
  | _ => (callers i).userId = none → (callers i).SessionFits sh.db

instance (callers : Fin n → Caller) (i : Fin n) (sh : Shared shop shopHost) (l : Txn shop) (a : ShopAction)
    (c : Choice shopHost) : Decidable (sessionsFit callers i sh l a c) :=
  match a with
  | .insert .. => inferInstanceAs (Decidable ((callers i).SessionFits sh.db))
  | .read _ | .lock .. | .lockSkip .. | .update .. | .tryLock _ | .commit | .rollback | .host _ =>
    inferInstanceAs (Decidable ((callers i).userId = none → (callers i).SessionFits sh.db))

/-- No handler changes a cart. -/
def cartOrder : RowOrder shop where
  rel t r r' := t = .cart → r.isSome → r' = r
  refl _ _ _ _ := rfl
  trans h h' ht hr := by
    have heq := h ht hr
    exact (h' ht (heq ▸ hr)).trans heq

theorem cart_stays {d d' : Db} (h : Evolves cartOrder d d') {k : ℕ} {c : Cart} (hc : d.get .cart k = some c) :
    d'.get .cart k = some c :=
  (h .cart k rfl (by rw [hc]; rfl)).trans hc

section Statements
variable {P : Protocol shop shopHost n} {G : Guard shop shopHost n} {i : Fin n} {sh : Shared shop shopHost} {x : P.Val}
variable {l : Txn shop}

theorem safe_cartIdWhere {p : Cart → Bool} {key : IndexKey} (hkey : ∀ c, p c = true → key ∈ rowKeys (t := .cart) c)
    (hl : l.writes = []) (ha : l.aborted = false) {Q : Post P (Option ℕ)}
    (hnone : ∀ w y, Seen P i l sh x w y → (∀ c : Cart, c ∈ w.db .cart → ¬p c = true) → Q (.ok none) w.toShared y l)
    (hsome : ∀ w y, Seen P i l sh x w y → (∃ g : Db → List Cart, ∃ c, G i w.toShared l (.read g) c) →
      ∀ c : Cart, w.db.get .cart c.id = some c → p c = true → Q (.ok (some c.id)) w.toShared y l)
    (he : Faulty G i → ∀ w y e l', e ≠ .integrity → AfterError l l' → Q (.error e) w y l') :
    Safe P G i Q (cartIdWhere p) sh x l := by
  apply Safe.bind
  apply Safe.unrefused (a := .read fun d : Db => (d .cart).filter p) trivial
  apply Safe.read_guarded
  · intro w y hs hg _
    rw [Txn.view_of_no_writes hl]
    cases hrows : (w.db .cart).filter p with
    | nil =>
      refine Safe.bind (Safe.pure (Safe.pure (hnone w y hs fun c hc hp => ?_)))
      have hmem : c ∈ (w.db .cart).filter p := List.mem_filter.mpr ⟨hc, hp⟩
      rw [hrows] at hmem
      cases hmem
    | cons c rows =>
      have hmem : c ∈ (w.db .cart).filter p := hrows ▸ List.mem_cons_self
      obtain ⟨hc, hp⟩ := List.mem_filter.mp hmem
      have hone : (w.db .cart).filter p = [c] := hs.world.wf.filter_key (S := shop) hc hp hkey
      rw [hrows] at hone
      rw [hone]
      refine Safe.bind (Safe.pure (Safe.pure (hsome w y hs ?_ c (Store.get_of_mem hs.world.wf.ids hc) hp)))
      obtain ⟨c', hg⟩ := hg
      exact ⟨_, c', hg⟩
  · intro hf w y _ e l' hl' hne
    exact he (faulty_of_fails ha hf) _ _ _ _ (fun h => hne (congrArg Except.error h)) hl'

end Statements

/-! ## The answer of a request -/

abbrev cartProtocol (n : ℕ) : Protocol shop shopHost n := evolution cartOrder (fun _ => True) fun _ => False

/-- The request has got a cart of its caller, or a statement of it has failed. -/
def GetsCart (q : Caller) (G : Guard shop shopHost n) (i : Fin n) (r : Except (Exn AppErr) (Option ℕ))
    (d : Db) : Prop :=
  (∃ c : Cart, d.get .cart c.id = some c ∧ r = .ok (some c.id) ∧ q.Owns c) ∨ ((∃ e, r = .error e) ∧ Faulty G i)

section Requests
variable {q : Caller} {G : Guard shop shopHost n} {i : Fin n} {sh : Shared shop shopHost} {x : Unit} {l : Txn shop}

theorem GetsCart.later {r : Except (Exn AppErr) (Option ℕ)} {d d' : Db} (h : GetsCart q G i r d)
    (hd : Evolves cartOrder d d') : GetsCart q G i r d' := by
  rcases h with ⟨c, hc, hr⟩ | h
  · exact .inl ⟨c, cart_stays hd hc, hr⟩
  · exact .inr h

theorem faulty_evolving (h : Faulty (G.evolving cartOrder) i) : Faulty G i := by
  obtain ⟨sh, l, a, hfault, -⟩ := h
  exact ⟨sh, l, a, hfault⟩

theorem refreshCart_finds {c : Cart} (hc : sh.db.get .cart c.id = some c) (hl : l.writes = []) (ha : l.aborted = false)
    {Q : Post (cartProtocol n) Cart} (hok : ∀ w y, w.db.get .cart c.id = some c → Q (.ok c) w y l)
    (he : Faulty (G.evolving cartOrder) i → ∀ w y e l', e ≠ .integrity → Q (.error e) w y l') :
    Safe (cartProtocol n) (G.evolving cartOrder) i Q (refreshCart c.id) sh x l := by
  apply Safe.bind
  apply Safe.unrefused (a := .read fun d : Db => (d .cart).filter fun c' : Cart => c'.id = c.id) trivial
  apply Safe.read
  · intro w y hs _
    have hget : w.db.get .cart c.id = some c := cart_stays hs.rely hc
    have hrows := Store.filter_id (S := shop) hs.world.wf.ids .cart c.id
    rw [hget] at hrows
    rw [Txn.view_of_no_writes hl]
    change Safe _ _ _ _ (oneOrNone ((w.db .cart).filter fun c' : Cart => decide (c'.id = c.id)) >>= _) _ _ _
    have hrows' : (w.db .cart).filter (fun c' : Cart => decide (c'.id = c.id)) = [c] := hrows
    rw [hrows']
    exact Safe.bind (Safe.pure (Safe.pure (hok _ _ hget)))
  · intro hf w y _ e l' hl' hne
    exact he (faulty_of_fails ha hf) _ _ _ _ fun h => hne (congrArg Except.error h)

/-- A wanted cart keeps the index entry, and what makes an insertion fail is such a cart. -/
structure Seeks (q : Caller) (G : Guard shop shopHost n) (i : Fin n) (wanted : Cart → Bool) (key : IndexKey)
    (mk : ℕ → Cart) : Prop where
  key : ∀ c, wanted c = true → key ∈ rowKeys (t := .cart) c
  new : ∀ m, q.Owns (mk m)
  clash : ∀ (w : World shop shopHost) (hmk : ∀ m, rowId (t := .cart) (mk m) = m) l c, w.db.Wf →
    G i w.toShared l (.insert .cart mk hmk false) c → ∀ m, ¬w.db.Free .cart (rowKeys (t := .cart) (mk m)) →
    ∃ c : Cart, c ∈ w.db .cart ∧ wanted c = true
  owned : ∀ (sh : Shared shop shopHost) (l : Txn shop) (g : Db → List Cart) c, G i sh l (.read g) c →
    ∀ c : Cart, c ∈ sh.db .cart → wanted c = true → q.Owns c

variable {wanted : Cart → Bool} {key : IndexKey} {userId sessionId : Option ℕ}

theorem cartIdWhere_answers (h : Seeks q G i wanted key fun m => ⟨m, userId, sessionId⟩) (hl : l.writes = [])
    (ha : l.aborted = false) {Q : Post (cartProtocol n) (Option ℕ)}
    (hnone : ∀ w y, Seen (cartProtocol n) i l sh x w y → (∀ c : Cart, c ∈ w.db .cart → ¬wanted c = true) →
      Q (.ok none) w.toShared y l)
    (hsome : ∀ w y, ∀ c : Cart, w.db.get .cart c.id = some c → wanted c = true → q.Owns c →
      Q (.ok (some c.id)) w y l)
    (he : ∀ w y e l', GetsCart q G i (.error e) w.db → Q (.error e) w y l') :
    Safe (cartProtocol n) (G.evolving cartOrder) i Q (cartIdWhere wanted) sh x l := by
  refine safe_cartIdWhere h.key hl ha hnone ?_ ?_
  · intro w y hs hg c hc hp
    obtain ⟨g, c', hg, -⟩ := hg
    exact hsome _ y c hc hp (h.owned _ _ g _ hg c (Store.mem_of_get hc) hp)
  · intro hf w y e l' _ _
    exact he w y e l' (.inr ⟨⟨e, rfl⟩, faulty_evolving hf⟩)

/-- The insertion of a cart that is committed and read again. -/
theorem insertCart_answers (h : Seeks q G i wanted key fun m => ⟨m, userId, sessionId⟩) (hl : l.writes = [])
    (ha : l.aborted = false) :
    Safe (cartProtocol n) (G.evolving cartOrder) i (fun r sh _ _ => match r with
        | .ok c => sh.db.get .cart c.id = some c ∧ q.Owns c
        | .error e => (e = .integrity ∧ ∃ c : Cart, sh.db.get .cart c.id = some c ∧ wanted c = true) ∨
            (e ≠ .integrity ∧ Faulty G i))
      (do
        let cart ← insert .cart fun m => ⟨m, userId, sessionId⟩
        commit
        refreshCart cart.id) sh x l := by
  apply Safe.bind
  apply Safe.bind
  refine Safe.insert_refused ?_ ?_ ?_
  · intro w y hs m hm
    let cart : Cart := ⟨m, userId, sessionId⟩
    have haborted : (l.write .cart [] cart).aborted = false := ha
    refine Safe.bind (Safe.unrefused (a := .commit) trivial (Safe.commit_evolving id ?_ ?_))
    · intro w₁ y₁ hs₁ hev
      refine ⟨trivial, fun _ => ?_⟩
      have hget : ((l.write .cart [] cart).view w₁.db).get .cart cart.id = some cart :=
        Store.get_put_self _ _ _
      apply refreshCart_finds (c := cart)
      · exact hget
      · rfl
      · rfl
      · intro w₂ y₂ hget₂
        exact ⟨hget₂, h.new m⟩
      · intro hf w₂ y₂ e l' hne
        exact .inr ⟨hne, faulty_evolving hf⟩
    · intro hf w₁ y₁ _ e l' _ hne
      exact .inr ⟨fun he => hne (congrArg Except.error he), faulty_evolving (faulty_of_fails haborted hf)⟩
  · intro w y hs hg m hfree
    obtain ⟨c', hg, -⟩ := hg
    rw [Txn.view_of_no_writes hl] at hfree
    obtain ⟨c, hc, hp⟩ := h.clash w _ l c' hs.world.wf hg m hfree
    exact .inl ⟨rfl, c, Store.get_of_mem hs.world.wf.ids hc, hp⟩
  · intro hf w y e l' hne _
    exact .inr ⟨hne, faulty_evolving (faulty_of_fails ha hf)⟩

theorem createCart_answers (h : Seeks q G i wanted key fun m => ⟨m, userId, sessionId⟩) (hl : l.writes = [])
    (ha : l.aborted = false) :
    Safe (cartProtocol n) (G.evolving cartOrder) i (fun r sh _ _ => GetsCart q G i r sh.db)
      (createCart userId sessionId wanted) sh x l := by
  apply Safe.bind
  apply Safe.attempt
  apply (insertCart_answers h hl ha).mono
  intro created sh x l hcreated
  match created with
  | .ok cart => exact .inl ⟨cart, hcreated.1, rfl, hcreated.2⟩
  | .error .integrity =>
    obtain ⟨-, c, hc, hp⟩ | ⟨hne, -⟩ := hcreated
    · refine Safe.bind (Safe.rollback_faulty ?_ fun hf w y => .inr ⟨⟨_, rfl⟩, faulty_evolving hf⟩)
      intro w y hs
      have hget : w.db.get .cart c.id = some c := cart_stays hs.rely hc
      refine cartIdWhere_answers h rfl rfl ?_ ?_ ?_
      · intro w₁ y₁ hs₁ hnone
        exact absurd hp (hnone c (Store.mem_of_get (cart_stays hs₁.rely hget)))
      · intro w₁ y₁ c' hc' _ howns
        exact .inl ⟨c', hc', rfl, howns⟩
      · intro w₁ y₁ e l' he
        exact he
    · exact absurd rfl hne
  | .error .fault | .error .inFailedTransaction | .error (.app e) =>
    obtain ⟨he, -⟩ | ⟨-, hf⟩ := hcreated
    · cases he
    · exact .inr ⟨⟨_, rfl⟩, hf⟩

end Requests

theorem cart_clash {d : Db} {m : ℕ} {userId sessionId : Option ℕ}
    (h : ¬d.Free .cart (rowKeys (t := .cart) ⟨m, userId, sessionId⟩)) :
    ∃ c : Cart, c ∈ d .cart ∧
      ((userId.isSome ∧ c.userId = userId) ∨ (sessionId.isSome ∧ c.sessionId = sessionId)) := by
  have hclash : ∃ c : Cart, c ∈ d .cart ∧
      ∃ k ∈ rowKeys (t := .cart) ⟨m, userId, sessionId⟩, k ∈ rowKeys (t := .cart) c := by
    by_contra hnone
    refine h fun c hc k hk hk' => hnone ⟨c, hc, k, hk, hk'⟩
  obtain ⟨c, hc, k, hk, hk'⟩ := hclash
  refine ⟨c, hc, ?_⟩
  simp only [rowKeys, List.mem_append, Option.mem_toList, Option.map_eq_some_iff] at hk hk'
  rcases hk with ⟨u, rfl, rfl⟩ | ⟨sid, rfl, rfl⟩
  · obtain ⟨u', hu', he⟩ | ⟨sid', _, he⟩ := hk'
    · cases he
      exact .inl ⟨rfl, hu'⟩
    · cases he
  · obtain ⟨u', _, he⟩ | ⟨sid', hsid', he⟩ := hk'
    · cases he
    · cases he
      exact .inr ⟨rfl, hsid'⟩

section Callers
variable {callers : Fin n → Caller} {G : Guard shop shopHost n} {i : Fin n} {u sid : ℕ} {sessionId : Option ℕ}
variable {sh : Shared shop shopHost} {x : Unit}

theorem seeks_user (hG : ∀ i sh l a c, G i sh l a c → sessionsFit callers i sh l a c)
    (hi : callers i = ⟨some u, sessionId⟩) :
    Seeks (callers i) G i (fun c => decide (c.userId = some u)) (.userId u) fun m => ⟨m, some u, sessionId⟩ where
  key c hc := by simp [rowKeys, of_decide_eq_true hc]
  new m := by simp [Caller.Owns, hi]
  owned sh l g c _ cart _ hcart := by simpa [Caller.Owns, hi] using hcart
  clash w hmk l c hw hg m hfree := by
    have hfits : (callers i).SessionFits w.db := hG _ _ _ _ _ hg
    rw [hi] at hfits
    have hthere : ∃ c : Cart, c ∈ w.db .cart ∧ c.userId = some u := by
      obtain ⟨c, hc, ⟨-, hu⟩ | ⟨hsome, hs⟩⟩ := cart_clash hfree
      · exact ⟨c, hc, hu⟩
      · rcases hfits with hhas | hnone
        · exact hhas
        · exact absurd hs (hnone c hc hsome)
    obtain ⟨c, hc, hu⟩ := hthere
    exact ⟨c, hc, decide_eq_true hu⟩

theorem seeks_guest (hG : ∀ i sh l a c, G i sh l a c → sessionsFit callers i sh l a c)
    (hi : callers i = ⟨none, some sid⟩) :
    Seeks (callers i) G i (fun c => decide (c.sessionId = some sid)) (.sessionId sid) fun m => ⟨m, none, some sid⟩ where
  key c hc := by simp [rowKeys, of_decide_eq_true hc]
  new m := by simp [Caller.Owns, hi]
  owned sh l g c hg cart hmem hcart := by
    have hfits : (callers i).SessionFits sh.db := hG _ _ _ _ _ hg (by rw [hi])
    rw [hi] at hfits ⊢
    have hs : cart.sessionId = some sid := of_decide_eq_true hcart
    exact ⟨hs, hfits cart hmem hs⟩
  clash w hmk l c hw hg m hfree := by
    obtain ⟨c, hc, ⟨hsome, -⟩ | ⟨-, hs⟩⟩ := cart_clash hfree
    · cases hsome
    · exact ⟨c, hc, decide_eq_true hs⟩

theorem getOrCreateCart_answers (hG : ∀ i sh l a c, G i sh l a c → sessionsFit callers i sh l a c)
    (hknown : (callers i).Known) :
    Safe (cartProtocol n) (G.evolving cartOrder) i (fun r sh _ _ => GetsCart (callers i) G i r sh.db)
      (getOrCreateCart (callers i).userId (callers i).sessionId) sh x {} := by
  rcases hi : callers i with ⟨_ | u, sessionId⟩
  · cases sessionId with
    | none => simp [Caller.Known, hi] at hknown
    | some sid =>
      have hseeks := hi ▸ seeks_guest hG hi
      apply Safe.bind
      apply cartIdWhere_answers hseeks rfl rfl
      · intro w y hs _
        exact createCart_answers hseeks rfl rfl
      · intro w y c hc _ howns
        exact .inl ⟨c, hc, rfl, howns⟩
      · intro w y e l' he
        exact he
  · have hseeks := hi ▸ seeks_user hG hi
    apply Safe.bind
    apply cartIdWhere_answers hseeks rfl rfl
    · intro w y hs _
      exact createCart_answers hseeks rfl rfl
    · intro w y c hc _ howns
      -- an id that is zero counts as none here
      by_cases hzero : c.id = 0
      · rw [hzero]
        exact createCart_answers hseeks rfl rfl
      · have hfound : (some c.id).any (· ≠ 0) = true := by simpa using hzero
        dsimp only
        rw [if_pos hfound]
        exact .inl ⟨c, hc, rfl, howns⟩
    · intro w y e l' he
      exact he

theorem getOrCreateCart_session (hG : ∀ i sh l a c, G i sh l a c → sessionsFit callers i sh l a c)
    (hknown : (callers i).Known) :
    Safe (cartProtocol n) (G.evolving cartOrder) i
      (fun r sh _ _ => ∃ r', r = .ok r' ∧ GetsCart (callers i) G i r' sh.db)
      (getOrCreateCart (callers i).userId (callers i).sessionId).session sh x {} := by
  apply Safe.session
  apply (getOrCreateCart_answers hG hknown).mono
  intro r sh x l hr w y hs
  exact ⟨r, rfl, hr.later hs.rely⟩

end Callers

/-! ## No request waits in vain -/

section Waits
variable {l : Txn shop}

theorem cartIdWhere_prompt {p : Cart → Bool} {Q : Except (Exn AppErr) (Option ℕ) → Txn shop → Prop} (hl : l.locks = [])
    (h : ∀ r l', l'.locks = [] → Q r l') : (cartIdWhere p).Prompt Q l := by
  apply Prog.Prompt.bind
  apply Prog.Prompt.read hl
  intro r l' hl'
  match r with
  | .ok [] => exact h _ _ hl'
  | .ok [_] => exact h _ _ hl'
  | .ok (_ :: _ :: _) => exact h _ _ hl'
  | .error _ => exact h _ _ hl'

theorem createCart_prompt (userId sessionId : Option ℕ) (wanted : Cart → Bool) (hl : l.locks = []) :
    (createCart userId sessionId wanted).Prompt (fun _ _ => True) l := by
  apply Prog.Prompt.bind
  apply Prog.Prompt.attempt
  have hbody : (do
      let cart ← insert .cart fun m => ⟨m, userId, sessionId⟩
      commit
      refreshCart cart.id : Py Cart).Prompt (fun _ _ => True) l := by
    apply Prog.Prompt.bind
    apply Prog.Prompt.bind
    apply Prog.Prompt.call (.inl hl)
    intro c busy w r w' l' _
    match r with
    | .error _ => trivial
    | .ok none => trivial
    | .ok (some cart) =>
      apply Prog.Prompt.bind
      apply Prog.Prompt.commit
      · intro l'' hl''
        apply Prog.Prompt.bind
        apply Prog.Prompt.read hl''
        intro r l₃ _
        match r with
        | .ok [] => trivial
        | .ok [_] => trivial
        | .ok (_ :: _ :: _) => trivial
        | .error _ => trivial
      · intro e l''
        trivial
  apply hbody.mono
  intro created l' _
  match created with
  | .ok cart => trivial
  | .error .integrity =>
    apply Prog.Prompt.bind
    apply Prog.Prompt.rollback
    intro r l'' hl''
    cases r with
    | ok _ => exact cartIdWhere_prompt hl'' fun _ _ _ => trivial
    | error _ => trivial
  | .error .fault => trivial
  | .error .inFailedTransaction => trivial
  | .error (.app e) => trivial

theorem getOrCreateCart_prompt (userId sessionId : Option ℕ) (hl : l.locks = []) :
    (getOrCreateCart userId sessionId).Prompt (fun _ _ => True) l := by
  have hfind : ∀ (p : Cart → Bool) (c : Option ℕ → Bool) (u : Option ℕ),
      (do
        let cartId ← cartIdWhere p
        if c cartId then pure cartId else createCart u sessionId p : Py (Option ℕ)).Prompt (fun _ _ => True) l := by
    intro p c u
    apply Prog.Prompt.bind
    apply cartIdWhere_prompt hl
    intro r l' hl'
    cases r with
    | error _ => trivial
    | ok cartId =>
      dsimp only
      split
      · trivial
      · exact createCart_prompt _ _ _ hl'
  match userId, sessionId with
  | some u, _ => exact hfind _ _ _
  | none, some sid => exact hfind _ _ _
  | none, none => trivial

end Waits

/-! ## Runs -/

def cartCalls (callers : Fin n → Caller) (w : World shop shopHost) :
    Sys shop shopHost n (Except (Exn AppErr) (Option ℕ)) :=
  .start w fun i => (getOrCreateCart (callers i).userId (callers i).sessionId).session

/-- Each request can be answered, and gets a cart of its caller; the requests of one user get one cart. -/
structure CartsOwned (callers : Fin n → Caller) (G : Guard shop shopHost n)
    (s : Sys shop shopHost n (Except (Exn AppErr) (Option ℕ))) : Prop where
  ends : ∀ i, ∃ s' r, Sys.Run Guard.faultless History.none s () s' () ∧ s'.outcome i = some r
  answered : ∀ i r, s.outcome i = some r → GetsCart (callers i) G i r s.world.db
  same : ∀ i j u o o', (callers i).userId = some u → (callers j).userId = some u →
    s.outcome i = some (.ok o) → s.outcome j = some (.ok o') → o = o'

theorem cartOrder_creation : CartCreation (Action.Keeps cartOrder) where
  read _ := trivial
  create _ _ := fun _ _ hr => Bool.noConfusion hr
  commit := trivial
  rollback := trivial

section Runs
variable {callers : Fin n → Caller} {G : Guard shop shopHost n} {w : World shop shopHost}
variable {s : Sys shop shopHost n (Except (Exn AppErr) (Option ℕ))}

theorem cartCalls_answered (hw : w.Ok) (hknown : ∀ i, (callers i).Known)
    (hG : ∀ i sh l a c, G i sh l a c → sessionsFit callers i sh l a c)
    (hrun : Sys.Run G History.none (cartCalls callers w) () s ()) (i : Fin n) (r : Except (Exn AppErr) (Option ℕ))
    (hr : s.outcome i = some r) : s.Ok ∧ GetsCart (callers i) G i r s.world.db := by
  have hacts (i : Fin n) :
      (getOrCreateCart (callers i).userId (callers i).sessionId).session.Acts (Action.Keeps cartOrder) :=
    (getOrCreateCart_acts cartOrder_creation _ _).session trivial
  have hstart : (cartCalls callers w).Inv (cartProtocol n) (G.evolving cartOrder)
      (fun i r sh _ _ => ∃ r', r = .ok r' ∧ GetsCart (callers i) G i r' sh.db) () :=
    Sys.inv_start hw trivial fun i => getOrCreateCart_session hG (hknown i)
  have hinv := (hrun.guarded (Sys.evolving_start hw hacts)).inv hstart
  obtain ⟨sh, y, hsafe, hseen⟩ := hinv.seen i
  rw [Sys.prog_of_outcome hr] at hsafe
  obtain ⟨r', hr', hanswered⟩ := hsafe
  cases hr'
  exact ⟨hinv.ok, hanswered.later hseen.rely⟩

theorem cart_ownership (hw : w.Ok) (hknown : ∀ i, (callers i).Known)
    (hG : ∀ i sh l a c, G i sh l a c → sessionsFit callers i sh l a c)
    (hrun : Sys.Run G History.none (cartCalls callers w) () s ()) : CartsOwned callers G s := by
  have hanswered := cartCalls_answered hw hknown hG hrun
  refine ⟨fun i => ?_, fun i r hr => (hanswered i r hr).2, ?_⟩
  · have hprompt : (cartCalls callers w).Prompt :=
      Sys.prompt_start fun i => (getOrCreateCart_prompt _ _ rfl).session
    exact (hrun.prompt hprompt).finish hostAct_answers i
  · intro i j u o o' hi hj ho ho'
    obtain ⟨hok, ⟨c, hc, hr, howns⟩ | ⟨⟨e, he⟩, -⟩⟩ := hanswered i _ ho
    · obtain ⟨-, ⟨c', hc', hr', howns'⟩ | ⟨⟨e, he⟩, -⟩⟩ := hanswered j _ ho'
      · cases hr
        cases hr'
        rw [Caller.Owns, hi] at howns
        rw [Caller.Owns, hj] at howns'
        rw [cart_unique hok.world.wf (Store.mem_of_get hc) (Store.mem_of_get hc') howns howns']
      · cases he
    · cases he

end Runs

/-- A user has left a cart at session 5. -/
def sharedDevice : World shop shopHost where
  db
    | .cart => [⟨1, some 1, some 5⟩]
    | _ => []
  host := ⟨0, 0, [], []⟩
  seq _ := 2

theorem sharedDevice_ok : sharedDevice.Ok :=
  ⟨Store.wf_of_pairwise fun t => by cases t <;> decide, fun t => by cases t <;> decide⟩

/-- A user on two devices, and a guest. -/
def ownDevices : Fin 3 → Caller := [⟨some 2, some 6⟩, ⟨some 2, some 7⟩, ⟨none, some 8⟩].get

/-- A guest and another user at the session of the cart. -/
def sameDevice : Fin 2 → Caller := [⟨none, some 5⟩, ⟨some 2, some 5⟩].get

/-- The insertion of the second device is refused, and it gets the cart of the first one. -/
theorem cart_ownership_two_devices : ∃ s,
    Sys.Run (sessionsFit ownDevices) History.none (cartCalls ownDevices sharedDevice) () s () ∧
      ([0, 1, 2].map fun i => (s.outcome i).bind Except.toOption) = [some (some 2), some (some 2), some (some 3)] ∧
      CartsOwned ownDevices (sessionsFit ownDevices) s := by
  have hexec : ((cartCalls ownDevices sharedDevice).exec (sessionsFit ownDevices)
      ([0, 1, 0, 0, 0, 0, 1, 1, 1, 1, 2, 2, 2, 2, 2].map fun i => .proc i .go)).map (fun s =>
        [0, 1, 2].map fun i => (s.outcome i).bind Except.toOption) =
      some [some (some 2), some (some 2), some (some 3)] := by
    decide +kernel
  obtain ⟨s, hs, hcarts⟩ := Option.map_eq_some_iff.mp hexec
  obtain ⟨⟨⟩, hrun⟩ := Sys.run_of_exec History.none () hs
  exact ⟨s, hrun, hcarts, cart_ownership sharedDevice_ok (by decide) (fun _ _ _ _ _ h => h) hrun⟩

/-- The guest gets the cart of the user, and the other user gets none. -/
theorem cart_ownership_shared_device : sharedDevice.Ok ∧ (∀ i, (sameDevice i).Known) ∧ ∃ s,
    Sys.Run Guard.faultless History.none (cartCalls sameDevice sharedDevice) () s () ∧
      s.outcome 0 = some (.ok (some 1)) ∧ s.outcome 1 = some (.ok none) ∧
      ∀ i r, s.outcome i = some r → ¬GetsCart (sameDevice i) Guard.faultless i r s.world.db := by
  have hexec : ((cartCalls sameDevice sharedDevice).exec Guard.faultless
      ([0, 0, 1, 1, 1, 1, 1].map fun i => .proc i .go)).map (fun s =>
        ((s.outcome 0).bind Except.toOption, (s.outcome 1).bind Except.toOption,
          decide (∀ c : Cart, c ∈ s.world.db .cart → c.userId = some 1))) = some (some (some 1), some none, true) := by
    decide +kernel
  obtain ⟨s, hs, hend⟩ := Option.map_eq_some_iff.mp hexec
  obtain ⟨⟨⟩, hrun⟩ := Sys.run_of_exec History.none () hs
  simp only [Prod.mk.injEq] at hend
  obtain ⟨hguest, huser, hcarts⟩ := hend
  have hguest := ok_of_toOption hguest
  have huser := ok_of_toOption huser
  have hnone : ∀ i, ∀ c : Cart, c.userId = some 1 → ¬(sameDevice i).Owns c :=
    Fin.forall_fin_two.mpr ⟨fun c hc => by simp [Caller.Owns, sameDevice, hc],
      fun c hc => by simp [Caller.Owns, sameDevice, hc]⟩
  refine ⟨sharedDevice_ok, by decide, s, hrun, hguest, huser, fun i r hr hanswered => ?_⟩
  obtain ⟨c, hc, -, howns⟩ | ⟨-, sh, l, a, hfault⟩ := hanswered
  · exact hnone i c (of_decide_eq_true hcarts c (Store.mem_of_get hc)) howns
  · cases hfault

end Phyllonix
