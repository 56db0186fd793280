import Phyllonix.UserRows
import Phyllonix.CheckoutInitiation

/-!
# Checkout requests write rows of their user

Updates select by the user, or by a key, id or public id that the request has found or
inserted as its own; the row still is the user's when it is written.
-/

namespace Phyllonix
open Relational

/-- The user has a record under the key. -/
def KeyOf (d : Db) (u : ℕ) (key : String) : Prop :=
  ∃ id k, d.get .idempotencyKey id = some k ∧ IdempotencyKey.key k = key ∧ IdempotencyKey.createdBy k = u

/-- The user has a payment with the public id. -/
def PublicPaymentOf (d : Db) (u : ℕ) (publicId : UUID) : Prop :=
  ∃ id p, d.get .payment id = some p ∧ Payment.publicId p = publicId ∧ OrderOf d u (Payment.orderId p)

def AttemptOf (d : Db) (u attempt : ℕ) : Prop :=
  ∃ a, d.get .paymentAttempt attempt = some a ∧ PaymentOf d u (PaymentAttempt.paymentId a)

section Known
variable {d d' : Db} {u : ℕ}

theorem KeyOf.later (h : Evolves ownerOrder d d') {key : String} (hk : KeyOf d u key) : KeyOf d' u key := by
  obtain ⟨id, k, hk, hkey, hu⟩ := hk
  obtain ⟨k', hk', hsame⟩ := h .idempotencyKey id k hk
  exact ⟨id, k', hk', hsame.1.trans hkey, hsame.2.trans hu⟩

theorem PublicPaymentOf.later (h : Evolves ownerOrder d d') {publicId : UUID}
    (hp : PublicPaymentOf d u publicId) : PublicPaymentOf d' u publicId := by
  obtain ⟨id, p, hp, hpub, hu⟩ := hp
  obtain ⟨p', hp', hsame⟩ := h .payment id p hp
  refine ⟨id, p', hp', hsame.1.trans hpub, ?_⟩
  rw [hsame.2]
  exact hu.later h

theorem AttemptOf.later (h : Evolves ownerOrder d d') {k : ℕ} (hk : AttemptOf d u k) : AttemptOf d' u k := by
  obtain ⟨a, ha, hu⟩ := hk
  obtain ⟨a', ha', hsame⟩ := h .paymentAttempt k a ha
  have heq : a'.paymentId = a.paymentId := hsame
  refine ⟨a', ha', ?_⟩
  rw [heq]
  exact hu.later h

/-- A row that is found by its key is the one known to be there. -/
theorem get_of_filter_id (hd : d.Wf) {t : Table} {k : ℕ} {a r : t.Row} (ha : d.get t k = some a)
    (hr : r ∈ d t) (hk : rowId r = k) : r = a := by
  have hget := Store.get_of_mem hd.ids hr
  subst hk
  exact Option.some.inj (hget.symm.trans ha)

theorem CheckoutOf.belongs (hd : d.Wf) {k : ℕ} (h : CheckoutOf d u k) {r : CheckoutSession}
    (hr : r ∈ d .checkoutSession) (hk : r.id = k) : Belongs d u (t := .checkoutSession) r := by
  obtain ⟨c, hc, hu⟩ := h
  obtain rfl := get_of_filter_id (t := .checkoutSession) hd hc hr hk
  exact hu

theorem KeyOf.belongs (hd : d.Wf) {key : String} (h : KeyOf d u key) {r : IdempotencyKey}
    (hr : r ∈ d .idempotencyKey) (hk : r.key = key) : Belongs d u (t := .idempotencyKey) r := by
  obtain ⟨id, k, hget, hkey, hu⟩ := h
  have hsame : r = k := by
    apply hd.eq_of_key (t := .idempotencyKey) (k := .key key) hr (Store.mem_of_get hget)
    · simp [rowKeys, hk]
    · simp [rowKeys, hkey]
  rw [hsame]
  exact hu

theorem PaymentOf.belongs (hd : d.Wf) {k : ℕ} (h : PaymentOf d u k) {r : Payment}
    (hr : r ∈ d .payment) (hk : r.id = k) : Belongs d u (t := .payment) r := by
  obtain ⟨p, hp, hu⟩ := h
  obtain rfl := get_of_filter_id (t := .payment) hd hp hr hk
  exact hu

theorem AttemptOf.belongs (hd : d.Wf) {k : ℕ} (h : AttemptOf d u k) {r : PaymentAttempt}
    (hr : r ∈ d .paymentAttempt) (hk : r.id = k) : Belongs d u (t := .paymentAttempt) r := by
  obtain ⟨a, ha, hu⟩ := h
  obtain rfl := get_of_filter_id (t := .paymentAttempt) hd ha hr hk
  exact hu

theorem PublicPaymentOf.paymentOf (hd : d.Wf) {publicId : UUID} (h : PublicPaymentOf d u publicId)
    {r : Payment} (hr : r ∈ d .payment) (hpub : r.publicId = publicId) : PaymentOf d u r.id := by
  obtain ⟨id, p, hget, hpub', hu⟩ := h
  have hsame : r = p := by
    apply hd.eq_of_key (t := .payment) (k := .publicId publicId) hr (Store.mem_of_get hget)
    · simp [rowKeys, hpub]
    · simp [rowKeys, hpub']
  subst hsame
  exact ⟨r, Store.get_of_mem hd.ids hr, hu⟩

end Known

section Rules
variable {n : ℕ} {A : Fin n → Allowance ownerOrder} {G : Guard shop shopHost n} {i : Fin n} {u : ℕ}
variable {d : Db}

theorem heeds_oneOrNone {α : Type} {rows : List α} {Q : Option α → Db → Prop}
    (hQ : ∀ o d', Evolves ownerOrder d d' → (∀ a ∈ o, a ∈ rows) → Q o d') :
    Heeds A G i Q (oneOrNone rows) d := by
  match rows with
  | [] => exact Heeds.pure fun d' h => hQ none d' h nofun
  | [a] =>
    apply Heeds.pure
    intro d' h
    apply hQ (some a) d' h
    intro b hb
    cases hb
    exact List.mem_singleton_self a
  | _ :: _ :: _ => exact Heeds.raise _

theorem heeds_selectForUpdate {t : Table} {p : t.Row → Bool} {Q : List t.Row → Db → Prop}
    (hQ : ∀ d' : Db, Evolves ownerOrder d d' → d'.Wf → Q ((d' t).filter p) d') :
    Heeds A G i Q (selectForUpdate t p) d :=
  Heeds.lock (S := shop) hQ

theorem heeds_ofApp {α : Type} {r : Except AppErr α} {Q : α → Db → Prop}
    (hQ : ∀ a d', Evolves ownerOrder d d' → Q a d') : Heeds A G i Q (ofApp r) d := by
  cases r with
  | ok a => exact Heeds.pure (hQ a)
  | error e => exact Heeds.raise _

theorem heeds_update (hA : A i = ownRows u) {t : Table} {p : t.Row → Bool} {f : t.Row → t.Row}
    {hf : ∀ r, rowId (f r) = rowId r} {Q : List t.Row → Db → Prop} (hsame : ∀ r, SameOwner r (f r))
    (hw : ∀ d' : Db, Evolves ownerOrder d d' → d'.Wf → ∀ r ∈ d' t, p r = true → Belongs d' u r)
    (hQ : ∀ rs d', Evolves ownerOrder d d' → Q rs d') : Heeds A G i Q (update t p f hf) d := by
  apply Heeds.update (R := ownerOrder) _ _ hQ
  · intro r a ha
    cases ha
    exact ⟨f r, rfl, hsame r⟩
  · intro d' h hd r hr hp
    rw [hA]
    exact (hw d' h hd r hr hp).later (.refl _ _) (hsame r)

theorem heeds_insertOnConflict (hA : A i = ownRows u) {t : Table} {mk : ℕ → t.Row}
    {hmk : ∀ m, rowId (mk m) = m} {Q : Option t.Row → Db → Prop}
    (hw : ∀ d' m, Evolves ownerOrder d d' → Belongs d' u (mk m))
    (hQ : ∀ m d', Evolves ownerOrder d d' → d'.get t m = some (mk m) → Q (some (mk m)) d')
    (hnone : ∀ d', Evolves ownerOrder d d' → Q none d') :
    Heeds A G i Q (insertOnConflictDoNothing t mk hmk) d := by
  apply Heeds.insert (R := ownerOrder)
  · exact fun m a ha => nomatch ha
  · intro d' h m
    rw [hA]
    exact hw d' m h
  · exact fun m d' h _ hget => hQ m d' h hget
  · exact fun _ d' h => hnone d' h

/-- What is inserted stays, though others may commit before it is used. -/
theorem heeds_insert (hA : A i = ownRows u) {t : Table} {mk : ℕ → t.Row} {hmk : ∀ m, rowId (mk m) = m}
    {Q : t.Row → Db → Prop} (hw : ∀ d' m, Evolves ownerOrder d d' → Belongs d' u (mk m))
    (hQ : ∀ m d' r, Evolves ownerOrder d d' → d'.get t m = some r → SameOwner (mk m) r → Q (mk m) d') :
    Heeds A G i Q (insert t mk hmk) d := by
  have hcall : Heeds A G i (fun o d' => ∀ r, o = some r → ∃ m, r = mk m ∧ d'.get t m = some (mk m))
      (.call (.insert t mk hmk false : ShopAction)) d := by
    apply Heeds.insert (R := ownerOrder)
    · exact fun m a ha => nomatch ha
    · intro d' h m
      rw [hA]
      exact hw d' m h
    · intro m d' _ _ hget r hr
      cases hr
      exact ⟨m, rfl, hget⟩
    · exact fun h => nomatch h
  apply hcall.bind
  intro o d' h ho
  cases o with
  | none => exact Heeds.raise _
  | some r =>
    obtain ⟨m, rfl, hget⟩ := ho r rfl
    apply Heeds.pure
    intro d'' h'
    obtain ⟨r', hr', hsame⟩ := h' t m _ hget
    exact hQ m d'' r' (h.trans h') hr' hsame

end Rules

/-! ## Checkout -/

section Requests
variable {n : ℕ} {A : Fin n → Allowance ownerOrder} {G : Guard shop shopHost n} {i : Fin n} {u : ℕ}
variable {d : Db} {lib : Lib}

theorem updateCheckoutActiveness_heeds (hA : A i = ownRows u) {csId : ℕ} (h : CheckoutOf d u csId)
    (active : Bool) : Heeds A G i (fun _ _ => True) (updateCheckoutActiveness csId active) d := by
  have hupdate : Heeds A G i (fun _ _ => True)
      (update .checkoutSession (fun c : CheckoutSession => c.id = csId)
        fun c : CheckoutSession => { c with isActive := active }) d := by
    apply heeds_update hA
    · exact fun _ => rfl
    · exact fun d' hev hd r hr hp => (h.later hev).belongs hd hr (of_decide_eq_true hp)
    · exact fun _ _ _ => trivial
  apply hupdate.bind
  exact fun _ _ _ _ => Heeds.commit fun _ _ => trivial

/-- The checkouts that a request selects are its user's. -/
theorem checkoutOf_of_selected {d : Db} (hd : d.Wf) {p : CheckoutSession → Bool}
    (hp : ∀ c, p c = true → c.userId = u) {c : CheckoutSession} (hc : c ∈ (d .checkoutSession).filter p) :
    CheckoutOf d u c.id := by
  obtain ⟨hmem, hpc⟩ := List.mem_filter.mp hc
  exact ⟨c, Store.get_of_mem hd.ids hmem, hp c hpc⟩

theorem getCheckoutDetails_heeds (hA : A i = ownRows u) (checkoutId : UUID) :
    Heeds A G i (fun cs d' => CheckoutOf d' u cs.csId) (getCheckoutDetails checkoutId u) d := by
  have hselect : Heeds A G i (fun res d' => ∀ c ∈ res, CheckoutOf d' u c.id)
      (select .checkoutSession fun c : CheckoutSession =>
        c.userId = u && c.isActive && c.publicId = checkoutId) d := by
    apply Heeds.read
    intro d' _ hd c hc
    apply checkoutOf_of_selected hd _ hc
    simp only [Bool.and_eq_true, decide_eq_true_eq]
    exact fun c hc => hc.1.1
  apply hselect.bind
  intro res d₁ _ hres
  apply (heeds_oneOrNone fun o d₂ h ho => show ∀ c ∈ o, CheckoutOf d₂ u c.id from
    fun c hc => (hres c (ho c hc)).later h).bind
  intro o d₂ _ ho
  cases o with
  | none => exact Heeds.raise _
  | some cs =>
    have hcs : CheckoutOf d₂ u cs.id := ho cs rfl
    apply (Heeds.host (Q := fun _ _ => True) fun _ _ _ => trivial).bind
    intro t d₃ h _
    split
    · exact (updateCheckoutActiveness_heeds hA (hcs.later h) false).bind fun _ _ _ _ => Heeds.raise _
    · exact Heeds.pure fun d₄ h' => (hcs.later h).later h'

theorem getCheckoutSession_heeds (hA : A i = ownRows u) :
    Heeds A G i (fun _ _ => True) (getCheckoutSession u) d := by
  have hselect : Heeds A G i (fun res d' => ∀ c ∈ res, CheckoutOf d' u c.id)
      (select .checkoutSession fun c : CheckoutSession => c.userId = u && c.isActive) d := by
    apply Heeds.read
    intro d' _ hd c hc
    apply checkoutOf_of_selected hd _ hc
    simp only [Bool.and_eq_true, decide_eq_true_eq]
    exact fun c hc => hc.1
  apply hselect.bind
  intro res d₁ _ hres
  apply (heeds_oneOrNone fun o d₂ h ho => show ∀ c ∈ o, CheckoutOf d₂ u c.id from
    fun c hc => (hres c (ho c hc)).later h).bind
  intro o d₂ _ ho
  cases o with
  | none => exact Heeds.pure fun _ _ => trivial
  | some cs =>
    have hcs : CheckoutOf d₂ u cs.id := ho cs rfl
    apply (Heeds.host (Q := fun _ _ => True) fun _ _ _ => trivial).bind
    intro t d₃ h _
    split
    · exact (updateCheckoutActiveness_heeds hA (hcs.later h) false).bind fun _ _ _ _ => Heeds.raise _
    · exact Heeds.pure fun _ _ => trivial

theorem getOrCreateCheckoutSession_heeds (hA : A i = ownRows u) (reservedUntil : ℕ) :
    Heeds A G i (fun _ _ => True) (getOrCreateCheckoutSession u reservedUntil) d := by
  apply (Heeds.host (Q := fun _ _ => True) fun _ _ _ => trivial).bind
  intro publicId d₁ _ _
  apply Heeds.bind (Q := fun _ _ => True)
  · apply heeds_insertOnConflict hA
    · exact fun _ _ _ => rfl
    · exact fun _ _ _ _ => trivial
    · exact fun _ _ => trivial
  intro cs d₂ _ _
  cases cs with
  | some cs => exact Heeds.pure fun _ _ => trivial
  | none =>
    apply (getCheckoutSession_heeds hA).bind
    intro o d₃ _ _
    cases o with
    | some pid => exact Heeds.pure fun _ _ => trivial
    | none => exact Heeds.raise _

theorem initiateBuyNow_heeds (hA : A i = ownRows u) :
    Heeds A G i (fun _ _ => True) (initiateBuyNow u) d := by
  have hcart : ∀ d, Heeds A G i (fun _ _ => True) (ifCartExists u) d := by
    intro d
    apply (Heeds.read (Q := fun _ _ => True) fun _ _ _ => trivial).bind
    intro rows d' _ _
    split
    · exact Heeds.raise _
    · exact Heeds.raise _
    · exact Heeds.pure fun _ _ => trivial
  apply (Heeds.host (Q := fun _ _ => True) fun _ _ _ => trivial).bind
  intro t d₁ _ _
  apply (hcart d₁).bind
  intro _ d₂ _ _
  apply (getOrCreateCheckoutSession_heeds hA _).bind
  intro pid d₃ _ _
  apply (Heeds.commit (Q := fun _ _ => True) fun _ _ => trivial).bind
  exact fun _ _ _ _ => Heeds.pure fun _ _ => trivial

/-! ## Order summary -/

theorem lockCartProducts_heeds (rows : List (CartItem × Product)) :
    Heeds A G i (fun _ _ => True) (lockCartProducts rows) d := by
  induction rows generalizing d with
  | nil => exact Heeds.pure fun _ _ => trivial
  | cons row rows ih =>
    apply (Heeds.lock (Q := fun _ _ => True) fun _ _ _ => trivial).bind
    intro ps d₁ _ _
    exact ih.bind fun _ _ _ _ => Heeds.pure fun _ _ => trivial

theorem captureCartSnapshot_heeds : Heeds A G i (fun _ _ => True) (captureCartSnapshot u) d := by
  apply (Heeds.read (Q := fun _ _ => True) fun _ _ _ => trivial).bind
  intro rows d₁ _ _
  apply (lockCartProducts_heeds rows).bind
  intro items d₂ _ _
  cases items with
  | nil => exact Heeds.raise _
  | cons it items => exact Heeds.pure fun _ _ => trivial

theorem validateItemsAvblty_heeds (items : List SnapshotItem) :
    Heeds A G i (fun _ _ => True) (validateItemsAvblty items) d := by
  apply (Heeds.host (Q := fun _ _ => True) fun _ _ _ => trivial).bind
  intro t d₁ _ _
  apply (Heeds.read (Q := fun _ _ => True) fun _ _ _ => trivial).bind
  intro reserved d₂ _ _
  dsimp only
  split
  · exact Heeds.pure fun _ _ => trivial
  · exact Heeds.raise _

theorem reserveInventory_heeds (hA : A i = ownRows u) {csId : ℕ} (h : CheckoutOf d u csId)
    (items : List SnapshotItem) (reservedUntil : ℕ) :
    Heeds A G i (fun _ _ => True) (reserveInventory items csId reservedUntil) d := by
  induction items generalizing d with
  | nil => exact Heeds.pure fun _ _ => trivial
  | cons it items ih =>
    apply Heeds.bind (Q := fun _ _ => True)
    · apply heeds_insertOnConflict hA
      · exact fun _ _ hev => h.later hev
      · exact fun _ _ _ _ => trivial
      · exact fun _ _ => trivial
    exact fun _ d₁ hev _ => ih (h.later hev)

theorem reserveSnapshot_heeds (hA : A i = ownRows u) {req : SummaryRequest} (hu : req.userIdentifier = u)
    (m : PaymentMethod) {cs : CheckoutDetails} (h : CheckoutOf d u cs.csId) :
    Heeds A G i (fun _ _ => True) (reserveSnapshot lib req m cs) d := by
  subst hu
  apply captureCartSnapshot_heeds.bind
  intro cart d₁ h₁ _
  apply (validateItemsAvblty_heeds _).bind
  intro _ d₂ h₂ _
  have hcs₂ := (h.later h₁).later h₂
  apply (reserveInventory_heeds hA hcs₂ _ _).bind
  intro _ d₃ h₃ _
  have hupdate : Heeds A G i (fun _ _ => True) (updateCheckoutCartNPaymethod cs.csId m cart.items) d₃ := by
    have hrow : Heeds A G i (fun _ _ => True)
        (update .checkoutSession (fun c : CheckoutSession => c.id = cs.csId) fun c : CheckoutSession =>
          { c with selectedPaymentMethod := some m, cartSnapshot := some cart.items }) d₃ := by
      apply heeds_update hA
      · exact fun _ => rfl
      · exact fun d' hev hd r hr hp =>
          ((hcs₂.later h₃).later hev).belongs hd hr (of_decide_eq_true hp)
      · exact fun _ _ _ => trivial
    exact hrow.bind fun _ _ _ _ => Heeds.pure fun _ _ => trivial
  apply hupdate.bind
  intro _ d₄ _ _
  apply (Heeds.commit (Q := fun _ _ => True) fun _ _ => trivial).bind
  exact fun _ _ _ _ => Heeds.pure fun _ _ => trivial

theorem getOrderSummary_heeds (hA : A i = ownRows u) {req : SummaryRequest} (hu : req.userIdentifier = u) :
    Heeds A G i (fun _ _ => True) (getOrderSummary lib req) d := by
  rw [getOrderSummary]
  split
  · exact Heeds.raise _
  · have hdetails : Heeds A G i (fun cs d' => CheckoutOf d' u cs.csId)
        (getCheckoutDetails req.checkoutId req.userIdentifier) d := hu ▸ getCheckoutDetails_heeds (hu ▸ hA) _
    apply hdetails.bind
    intro cs d₁ _ hcs
    split
    · exact Heeds.pure fun _ _ => trivial
    · exact reserveSnapshot_heeds hA hu _ hcs

/-! ## Secure confirm -/

theorem validateCheckout_heeds (hA : A i = ownRows u) (checkoutId : UUID) :
    Heeds A G i (fun v d' => CheckoutOf d' u v.1) (validateCheckoutGetItemsPaymethod checkoutId u) d := by
  have hselect : Heeds A G i (fun res d' => ∀ c ∈ res, CheckoutOf d' u c.id)
      (selectForUpdate .checkoutSession fun c : CheckoutSession =>
        c.userId = u && c.isActive && c.publicId = checkoutId) d := by
    apply heeds_selectForUpdate
    intro d' _ hd c hc
    apply checkoutOf_of_selected hd _ hc
    simp only [Bool.and_eq_true, decide_eq_true_eq]
    exact fun c hc => hc.1.1
  apply hselect.bind
  intro res d₁ _ hres
  apply (heeds_oneOrNone fun o d₂ h ho => show ∀ c ∈ o, CheckoutOf d₂ u c.id from
    fun c hc => (hres c (ho c hc)).later h).bind
  intro o d₂ _ ho
  cases o with
  | none => exact Heeds.raise _
  | some cs =>
    have hcs : CheckoutOf d₂ u cs.id := ho cs rfl
    apply (Heeds.host (Q := fun _ _ => True) fun _ _ _ => trivial).bind
    intro t d₃ h _
    split
    · exact (updateCheckoutActiveness_heeds hA (hcs.later h) false).bind fun _ _ _ _ => Heeds.raise _
    · split
      · exact Heeds.raise _
      · split
        · exact Heeds.raise _
        · exact Heeds.pure fun d₄ h' => (hcs.later h).later h'

/-- A record that is found is the user's. -/
theorem spcByIkey_heeds (key : String) :
    Heeds A G i (fun o d' => o.isSome → KeyOf d' u key) (spcByIkey key u) d := by
  have hselect : Heeds A G i (fun res d' => ∀ k ∈ res, KeyOf d' u key)
      (select .idempotencyKey fun k : IdempotencyKey => k.key = key && k.createdBy = u) d := by
    apply Heeds.read
    intro d' _ hd k hk
    obtain ⟨hmem, hp⟩ := List.mem_filter.mp hk
    simp only [Bool.and_eq_true, decide_eq_true_eq] at hp
    exact ⟨k.id, k, Store.get_of_mem hd.ids hmem, hp⟩
  apply hselect.bind
  intro res d₁ _ hres
  apply (heeds_oneOrNone fun o d₂ h ho => show o.isSome → KeyOf d₂ u key from fun hsome => by
    obtain ⟨k, rfl⟩ := Option.isSome_iff_exists.mp hsome
    exact (hres k (ho k rfl)).later h).bind
  intro o d₂ _ ho
  cases o with
  | none => exact Heeds.pure fun _ _ => nofun
  | some k =>
    apply (Heeds.host (Q := fun _ _ => True) fun _ _ _ => trivial).bind
    intro t d₃ h _
    split
    · exact Heeds.raise _
    · split
      · exact Heeds.raise _
      · exact Heeds.pure fun d₄ h' _ => ((ho rfl).later h).later h'

theorem recordOrderIdempotency_heeds (hA : A i = ownRows u) (key : String) (csId : ℕ) :
    Heeds A G i (fun o d' => o.isSome → KeyOf d' u key) (recordOrderIdempotency key u csId) d := by
  apply (Heeds.host (Q := fun _ _ => True) fun _ _ _ => trivial).bind
  intro t d₁ _ _
  apply Heeds.bind (Q := fun ik d' => ik.isSome → KeyOf d' u key)
  · apply heeds_insertOnConflict hA
    · exact fun _ _ _ => rfl
    · exact fun m d' _ hget _ => ⟨m, _, hget, rfl, rfl⟩
    · exact fun _ _ => nofun
  intro ik d₂ _ hik
  apply Heeds.pure
  intro d₃ h hsome
  rw [Option.isSome_map] at hsome
  exact (hik hsome).later h

theorem updateOrderIdempotencyRecord_heeds (hA : A i = ownRows u) (ikId ownerId : ℕ) (code : Option ℕ)
    (body : Option (List (String × PyVal))) (ownerType : String) :
    Heeds A G i (fun _ _ => True) (updateOrderIdempotencyRecord lib u ikId ownerId code body ownerType) d := by
  have hrow : ∀ (b : Option Json) d, Heeds A G i (fun _ _ => True)
      (update .idempotencyKey (fun k : IdempotencyKey => k.id = ikId && k.createdBy = u)
        fun k : IdempotencyKey =>
          { k with ownerId := some ownerId, ownerType := some ownerType, responseBody := b, responseCode := code }) d := by
    intro b d
    apply heeds_update hA
    · exact fun _ => ⟨rfl, rfl⟩
    · intro d' _ _ k _ hp
      simp only [Bool.and_eq_true, decide_eq_true_eq] at hp
      exact hp.2
    · exact fun _ _ _ => trivial
  have hrest : ∀ b d, Heeds A G i (fun _ _ => True) _ d := fun b d =>
    (hrow b d).bind (f := fun _ => (pure () : Py Unit)) fun _ _ _ _ => Heeds.pure fun _ _ => trivial
  match body with
  | none => exact (Heeds.pure (Q := fun _ _ => True) fun _ _ => trivial).bind fun b d' _ _ => hrest b d'
  | some [] => exact (Heeds.pure (Q := fun _ _ => True) fun _ _ => trivial).bind fun b d' _ _ => hrest b d'
  | some (x :: xs) => exact (heeds_ofApp (Q := fun _ _ => True) fun _ _ _ => trivial).bind fun b d' _ _ => hrest b d'

theorem addOrderItems_heeds (hA : A i = ownRows u) {orderId : ℕ} (h : OrderOf d u orderId)
    (items : List SnapshotItem) : Heeds A G i (fun _ _ => True) (addOrderItems lib orderId items) d := by
  induction items generalizing d with
  | nil => exact Heeds.pure fun _ _ => trivial
  | cons it items ih =>
    apply Heeds.bind (Q := fun _ _ => True)
    · apply heeds_insert hA
      · exact fun _ _ hev => h.later hev
      · exact fun _ _ _ _ _ _ => trivial
    exact fun _ d₁ hev _ => ih (h.later hev)

theorem recordPaymentInitPending_heeds (hA : A i = ownRows u) {orderId : ℕ} (h : OrderOf d u orderId)
    (total : ℤ) (provider : String) :
    Heeds A G i (fun pub d' => PublicPaymentOf d' u pub) (recordPaymentInitPending orderId total provider) d := by
  apply (Heeds.host (Q := fun _ _ => True) fun _ _ _ => trivial).bind
  intro publicId d₁ h₁ _
  apply Heeds.bind (Q := fun p d' => PublicPaymentOf d' u p.publicId)
  · apply heeds_insert hA
    · exact fun _ _ hev => (h.later h₁).later hev
    · intro m d' r hev hget hsame
      refine ⟨m, r, hget, hsame.1, ?_⟩
      rw [hsame.2]
      exact (h.later h₁).later hev
  exact fun p d₂ _ hp => Heeds.pure fun d₃ h' => hp.later h'

theorem placeOrderWithItems_heeds (hA : A i = ownRows u) (m : PaymentMethod) (totals : FinalTotal) (ikId : ℕ) :
    Heeds A G i (fun resp d' => ∀ pub ∈ resp.payPublicId, PublicPaymentOf d' u pub)
      (placeOrderWithItems lib u m totals ikId) d := by
  apply (Heeds.host (Q := fun _ _ => True) fun _ _ _ => trivial).bind
  intro publicId d₁ _ _
  apply Heeds.bind (Q := fun o d' => OrderOf d' u o.id)
  · apply heeds_insert hA
    · exact fun _ _ _ => rfl
    · exact fun m d' r _ hget hsame => ⟨r, hget, hsame⟩
  intro order d₂ _ horder
  apply (addOrderItems_heeds hA horder _).bind
  intro _ d₃ h₃ _
  dsimp only
  split
  · apply (recordPaymentInitPending_heeds hA (horder.later h₃) _ _).bind
    intro pub d₄ _ hpub
    apply (updateOrderIdempotencyRecord_heeds hA _ _ _ _ _).bind
    intro _ d₅ h₅ _
    apply Heeds.pure
    intro d₆ h₆ pub' hpub'
    cases hpub'
    exact (hpub.later h₅).later h₆
  · apply (updateOrderIdempotencyRecord_heeds hA _ _ _ _ _).bind
    exact fun _ _ _ _ => Heeds.pure fun _ _ => nofun

/-! ## Payment -/

theorem payIdByPublicPayid_heeds {publicId : UUID} (h : PublicPaymentOf d u publicId) :
    Heeds A G i (fun o d' => ∀ payId ∈ o, PaymentOf d' u payId) (payIdByPublicPayid publicId) d := by
  have hselect : Heeds A G i (fun res d' => ∀ p ∈ res, PaymentOf d' u p.id)
      (select .payment fun p : Payment => p.publicId = publicId) d := by
    apply Heeds.read
    intro d' hev hd p hp
    obtain ⟨hmem, hpub⟩ := List.mem_filter.mp hp
    exact (h.later hev).paymentOf hd hmem (of_decide_eq_true hpub)
  apply hselect.bind
  intro res d₁ _ hres
  apply (heeds_oneOrNone fun o d₂ hev ho => show ∀ p ∈ o, PaymentOf d₂ u p.id from
    fun p hp => (hres p (ho p hp)).later hev).bind
  intro o d₂ _ ho
  apply Heeds.pure
  intro d₃ h₃ payId hpay
  obtain ⟨p, hp, rfl⟩ := Option.map_eq_some_iff.mp hpay
  exact (ho p hp).later h₃

theorem recordPaymentAttempt_heeds (hA : A i = ownRows u) {payId : ℕ} (h : PaymentOf d u payId) (no status : ℕ) :
    Heeds A G i (fun attempt d' => AttemptOf d' u attempt) (recordPaymentAttempt payId no status) d := by
  apply Heeds.bind (Q := fun a d' => AttemptOf d' u a.id)
  · apply heeds_insert hA
    · exact fun _ _ hev => h.later hev
    · intro m d' r hev hget hsame
      have hpay : r.paymentId = payId := hsame
      refine ⟨r, hget, ?_⟩
      rw [hpay]
      exact h.later hev
  exact fun a d₁ _ ha => Heeds.pure fun d₂ h₂ => ha.later h₂

theorem updatePaymentAttemptResp_heeds (hA : A i = ownRows u) {attempt : ℕ} (h : AttemptOf d u attempt)
    (status : ℕ) (resp : Json) :
    Heeds A G i (fun _ _ => True) (updatePaymentAttemptResp attempt status resp) d := by
  apply Heeds.bind (Q := fun _ _ => True)
  · apply heeds_update hA
    · exact fun _ => rfl
    · exact fun d' hev hd r hr hp => (h.later hev).belongs hd hr (of_decide_eq_true hp)
    · exact fun _ _ _ => trivial
  exact fun _ _ _ _ => Heeds.pure fun _ _ => trivial

/-- Each attempt is recorded for the payment of the user, and its outcome in its own row. -/
theorem retryWrapper_heeds (hA : A i = ownRows u) {func : Py PspResponse}
    (hfunc : ∀ d, Heeds A G i (fun _ _ => True) func d) {payId : ℕ} (h : PaymentOf d u payId) (maxRetries : ℕ)
    (backoffBase : Rat) (nos : List ℕ) (retryable : Option (Exn AppErr)) :
    Heeds A G i (fun _ _ => True) (retryWrapper func payId maxRetries backoffBase nos retryable) d := by
  induction nos generalizing d retryable with
  | nil => exact Heeds.pure fun _ _ => trivial
  | cons no nos ih =>
    rw [retryWrapper]
    apply (recordPaymentAttempt_heeds hA h no _).bind
    intro attempt d₁ h₁ hattempt
    apply Heeds.bind (Q := fun _ d' => AttemptOf d' u attempt ∧ PaymentOf d' u payId)
    · apply Heeds.attempt (Q := fun _ _ => True)
      · apply (hfunc d₁).bind
        intro resp d₂ h₂ _
        apply (updatePaymentAttemptResp_heeds hA (hattempt.later h₂) _ _).bind
        exact fun _ _ _ _ => Heeds.pure fun _ _ => trivial
      · exact fun _ _ h₂ _ => ⟨hattempt.later h₂, (h.later h₁).later h₂⟩
      · exact fun _ _ h₂ => ⟨hattempt.later h₂, (h.later h₁).later h₂⟩
    intro r d₂ _ hr
    obtain ⟨hattempt₂, hpay₂⟩ := hr
    have hend : ∀ (status : ℕ) (resp : Json) (res : PspResult), Heeds A G i (fun _ _ => True) (do
        updatePaymentAttemptResp attempt status resp
        pure res) d₂ := fun _ _ _ =>
      (updatePaymentAttemptResp_heeds hA hattempt₂ _ _).bind fun _ _ _ _ => Heeds.pure fun _ _ => trivial
    have hretry : ∀ (status : ℕ) (resp : Json) (pause : Rat) (ex : Exn AppErr), Heeds A G i (fun _ _ => True) (do
        updatePaymentAttemptResp attempt status resp
        sleep pause
        retryWrapper func payId maxRetries backoffBase nos (some ex)) d₂ := by
      intro status resp pause ex
      apply (updatePaymentAttemptResp_heeds hA hattempt₂ _ _).bind
      intro _ d₃ h₃ _
      apply (Heeds.host (Q := fun _ _ => True) fun _ _ _ => trivial).bind
      exact fun _ d₄ h₄ _ => ih ((hpay₂.later h₃).later h₄) _
    split
    · exact Heeds.pure fun _ _ => trivial
    · exact hretry _ _ _ _
    · split
      · exact hretry _ _ _ _
      · exact hend _ _ _
    · exact hend _ _ _

theorem settlePspResult_heeds (hA : A i = ownRows u) {key : String} (hkey : KeyOf d u key) {payId : ℕ}
    (hpay : PaymentOf d u payId) (data : OrderResponse) (pub : UUID) (res : PspResult) :
    Heeds A G i (fun _ _ => True) (settlePspResult lib key data pub payId res) d := by
  rw [settlePspResult]
  split
  · exact Heeds.raise _
  · exact Heeds.raise _
  · exact Heeds.raise _
  · split
    · exact (recordPaymentAttempt_heeds hA hpay _ _).bind fun _ _ _ _ => Heeds.raise _
    · apply Heeds.bind (Q := fun _ _ => True)
      · apply (heeds_ofApp (Q := fun _ _ => True) fun _ _ _ => trivial).bind
        intro poid d₁ h₁ _
        apply Heeds.bind (Q := fun _ _ => True)
        · apply heeds_update hA
          · exact fun _ => ⟨rfl, rfl⟩
          · exact fun d' hev hd r hr hp =>
              ((hpay.later h₁).later hev).belongs hd hr (of_decide_eq_true hp)
          · exact fun _ _ _ => trivial
        exact fun _ _ _ _ => Heeds.pure fun _ _ => trivial
      intro _ d₂ h₂ _
      apply Heeds.bind (Q := fun _ _ => True)
      · apply Heeds.bind (Q := fun _ _ => True)
        · apply heeds_update hA
          · exact fun _ => ⟨rfl, rfl⟩
          · exact fun d' hev hd r hr hp =>
              ((hkey.later h₂).later hev).belongs hd hr (of_decide_eq_true hp)
          · exact fun _ _ _ => trivial
        exact fun _ _ _ _ => Heeds.pure fun _ _ => trivial
      intro _ d₃ _ _
      apply (Heeds.commit (Q := fun _ _ => True) fun _ _ => trivial).bind
      exact fun _ _ _ _ => Heeds.pure fun _ _ => trivial

theorem createPaymentIntent_heeds (hA : A i = ownRows u) {key : String} (hkey : KeyOf d u key) {pub : UUID}
    (hpub : PublicPaymentOf d u pub) (totals : FinalTotal) (data : OrderResponse) :
    Heeds A G i (fun _ _ => True) (createPaymentIntent lib key totals data pub) d := by
  apply (payIdByPublicPayid_heeds hpub).bind
  intro o d₁ h₁ ho
  cases o with
  | none => exact Heeds.raise _
  | some payId =>
    have hpay := ho payId rfl
    have hfunc : ∀ req d, Heeds A G i (fun _ _ => True) (createPspOrder req) d :=
      fun _ _ => Heeds.host fun _ _ _ => trivial
    apply (retryWrapper_heeds hA (hfunc _) hpay _ _ _ _).bind
    exact fun res d₂ h₂ _ => settlePspResult_heeds hA ((hkey.later h₁).later h₂) (hpay.later h₂) _ _ _

/-! ## The handler -/

theorem confirmOrder_heeds (hA : A i = ownRows u) {req : ConfirmRequest} (hu : req.userIdentifier = u)
    {csId : ℕ} (hcs : CheckoutOf d u csId) (hkey : KeyOf d u req.idempotencyKey)
    (items : List SnapshotItem) (m : PaymentMethod) (ikId : ℕ) :
    Heeds A G i (fun _ _ => True) (confirmOrder lib req csId items m ikId) d := by
  subst hu
  apply (placeOrderWithItems_heeds hA m _ ikId).bind
  intro data d₁ h₁ hdata
  apply (Heeds.commit (Q := fun _ _ => True) fun _ _ => trivial).bind
  intro _ d₂ h₂ _
  have hev := h₁.trans h₂
  split
  · rename_i pub hpub
    apply (createPaymentIntent_heeds hA (hkey.later hev) ((hdata pub hpub).later h₂) _ _).bind
    intro res d₃ h₃ _
    apply (updateCheckoutActiveness_heeds hA ((hcs.later hev).later h₃) false).bind
    exact fun _ _ _ _ => Heeds.pure fun _ _ => trivial
  · apply (heeds_ofApp (Q := fun _ _ => True) fun _ _ _ => trivial).bind
    exact fun _ _ _ _ => Heeds.pure fun _ _ => trivial

theorem confirmUnanswered_heeds (hA : A i = ownRows u) {req : ConfirmRequest} (hu : req.userIdentifier = u)
    {csId : ℕ} (hcs : CheckoutOf d u csId) (items : List SnapshotItem) (m : PaymentMethod) :
    Heeds A G i (fun _ _ => True) (confirmUnanswered lib req csId items m) d := by
  rw [confirmUnanswered, hu]
  apply (recordOrderIdempotency_heeds hA _ _).bind
  intro o d₁ h₁ ho
  cases o with
  | some ikId => exact confirmOrder_heeds hA hu (hcs.later h₁) (ho rfl) _ _ _
  | none =>
    apply (Heeds.host (Q := fun _ _ => True) fun _ _ _ => trivial).bind
    intro _ d₂ h₂ _
    apply (spcByIkey_heeds _).bind
    intro o d₃ h₃ ho
    cases o with
    | none => exact Heeds.raise _
    | some k =>
      dsimp only
      split
      · exact Heeds.pure fun _ _ => trivial
      · exact confirmOrder_heeds hA hu ((hcs.later h₁).later (h₂.trans h₃)) (ho rfl) _ _ _

theorem placeOrder_heeds (hA : A i = ownRows u) {req : ConfirmRequest} (hu : req.userIdentifier = u) :
    Heeds A G i (fun _ _ => True) (placeOrder lib req) d := by
  rw [placeOrder]
  split
  · exact Heeds.raise _
  rw [hu]
  apply (validateCheckout_heeds hA _).bind
  intro v d₁ _ hcs
  apply (Heeds.tryLock (Q := fun _ _ => True) fun _ _ _ => trivial).bind
  intro _ d₂ h₂ _
  apply (spcByIkey_heeds _).bind
  intro o d₃ h₃ _
  have hcs₃ := (hcs.later h₂).later h₃
  cases o with
  | none => exact confirmUnanswered_heeds hA hu hcs₃ _ _
  | some k =>
    dsimp only
    split
    · exact Heeds.raise _
    · split
      · exact Heeds.pure fun _ _ => trivial
      · exact confirmUnanswered_heeds hA hu hcs₃ _ _

end Requests
end Phyllonix
