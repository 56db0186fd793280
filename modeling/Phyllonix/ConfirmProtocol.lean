import Phyllonix.ShopRules
import Phyllonix.OrderRoutes

/-!
# The protocol of secure-confirm requests

An idempotency record is committed together with its order, by a request that holds
the lock of the checkout it is recorded for. Afterwards only that request writes
the record, to store the response. Checkouts change in nothing but being active.
-/

namespace Phyllonix
open Relational
variable {n : ℕ}

def CheckoutSession.fixed (c : CheckoutSession) : CheckoutSession := { c with isActive := true }

/-- Records keep what identifies them, and the response once they have one. -/
structure IkGrows (k k' : IdempotencyKey) : Prop where
  key : k'.key = k.key
  csId : k'.csId = k.csId
  createdBy : k'.createdBy = k.createdBy
  expiresAt : k'.expiresAt = k.expiresAt
  response : k.responseBody.isSome → k'.responseBody = k.responseBody ∧ k'.responseCode = k.responseCode

theorem IkGrows.refl (k : IdempotencyKey) : IkGrows k k := ⟨rfl, rfl, rfl, rfl, fun _ => ⟨rfl, rfl⟩⟩

theorem IkGrows.trans {k k' k'' : IdempotencyKey} (h : IkGrows k k') (h' : IkGrows k' k'') :
    IkGrows k k'' := by
  refine ⟨h'.key.trans h.key, h'.csId.trans h.csId, h'.createdBy.trans h.createdBy,
    h'.expiresAt.trans h.expiresAt, fun hk => ?_⟩
  obtain ⟨hb, hc⟩ := h.response hk
  obtain ⟨hb', hc'⟩ := h'.response (by rw [hb]; exact hk)
  exact ⟨hb'.trans hb, hc'.trans hc⟩

/-- Every record of `d` is still there in `d'`, possibly with a response. -/
def IkKept (d d' : Db) : Prop :=
  ∀ id k, d.get .idempotencyKey id = some k → ∃ k', d'.get .idempotencyKey id = some k' ∧ IkGrows k k'

theorem IkKept.refl (d : Db) : IkKept d d := fun _ k hk => ⟨k, hk, .refl k⟩

theorem IkKept.trans {d d' d'' : Db} (h : IkKept d d') (h' : IkKept d' d'') : IkKept d d'' := by
  intro id k hk
  obtain ⟨k', hk', hg⟩ := h id k hk
  obtain ⟨k'', hk'', hg'⟩ := h' id k' hk'
  exact ⟨k'', hk'', hg.trans hg'⟩

/-- The checkout of a record or a request, as it was at the start. -/
structure Chosen (d₀ : Db) (csId user : ℕ) (items : List SnapshotItem) (m : PaymentMethod)
    (publicId : UUID) : Prop where
  row : ∃ c, d₀.get .checkoutSession csId = some c ∧ c.userId = user ∧ c.publicId = publicId ∧
    c.cartSnapshot = some items ∧ c.selectedPaymentMethod = some m
  nonempty : items ≠ []

def orderItems (d : Db) (o : ℕ) : List OrderItem :=
  (d .orderItem).filter fun it : OrderItem => it.orderId = o

/-- The items of an order are those of a snapshot. -/
def Copies (its : List OrderItem) (items : List SnapshotItem) : Prop :=
  its.map (fun it => (it.productId, it.quantity, it.unitPriceSnapshot)) =
    items.map fun it => (it.productId, it.quantity, it.prodBasePrice)

/-- The amounts of an order are those computed for a snapshot. -/
structure Charged (lib : Lib) (o : Orders) (items : List SnapshotItem) (m : PaymentMethod) : Prop where
  subtotal : o.subtotal = (computeFinalTotal lib items m).subtotal
  tax : o.tax = (computeFinalTotal lib items m).tax
  shipping : o.shipping = (computeFinalTotal lib items m).shipping
  discount : o.discount = (computeFinalTotal lib items m).discount
  total : o.total = (computeFinalTotal lib items m).total

/-- The order belongs to the user of the record and was built from its checkout. -/
structure BuiltFrom (lib : Lib) (d₀ d : Db) (k : IdempotencyKey) (o : Orders) : Prop where
  user : o.userId = some k.createdBy
  checkout : ∃ items m publicId, Chosen d₀ k.csId k.createdBy items m publicId ∧
    Charged lib o items m ∧ Copies (orderItems d o.id) items

structure ConfirmInv (lib : Lib) (strict : Prop) (d₀ d : Db) (x : ℕ → Option (Fin n)) : Prop where
  checkouts : ∀ c, (d.get .checkoutSession c).map CheckoutSession.fixed =
    (d₀.get .checkoutSession c).map CheckoutSession.fixed
  ordered : ∀ id k, d.get .idempotencyKey id = some k → ∃ o ∈ d .orders, Orders.ikId o = id
  built : ∀ o : Orders, o ∈ d .orders → ∃ k, d.get .idempotencyKey o.ikId = some k ∧
    BuiltFrom lib d₀ d k o
  items : ∀ it : OrderItem, it ∈ d .orderItem → (d.get .orders it.orderId).isSome
  owned : ∀ id j, x id = some j → (d.get .idempotencyKey id).isSome
  single : strict → ∀ id id' k k', d.get .idempotencyKey id = some k →
    d.get .idempotencyKey id' = some k' → k.csId = k'.csId → id = id'

/-- A record under the key of the request is of its user and its checkout. -/
def OwnKey (d₀ : Db) (req : ConfirmRequest) (d : Db) : Prop :=
  ∀ id k, d.get .idempotencyKey id = some k → k.key = req.idempotencyKey →
    ∃ items m, Chosen d₀ k.csId req.userIdentifier items m req.checkoutId ∧
      k.createdBy = req.userIdentifier

/-- The tables that a request with a foreign key leaves alone. -/
def SameOrders (d d' : Db) : Prop :=
  ∀ t ∈ [Table.orders, .orderItem, .payment, .idempotencyKey], d' t = d t

structure ConfirmGuar (d₀ : Db) (req : ConfirmRequest) (i : Fin n) (l : Txn shop) (d d' : Db)
    (x : ℕ → Option (Fin n)) : Prop where
  kept : IkKept d d'
  others : ∀ id j, x id = some j → j ≠ i → d'.get .idempotencyKey id = d.get .idempotencyKey id
  locked : ∀ id k, d.get .idempotencyKey id = none → d'.get .idempotencyKey id = some k →
    .row .checkoutSession k.csId ∈ l.locks
  presents : SameOrders d d' ∨ OwnKey d₀ req d

structure ConfirmRely (i : Fin n) (l : Txn shop) (d : Db) (x : ℕ → Option (Fin n)) (d' : Db)
    (x' : ℕ → Option (Fin n)) : Prop where
  kept : IkKept d d'
  own : ∀ id, x id = some i → x' id = some i ∧
    d'.get .idempotencyKey id = d.get .idempotencyKey id
  locked : ∀ c, Lock.row Table.checkoutSession c ∈ l.locks → ∀ id k,
    d'.get .idempotencyKey id = some k → k.csId = c → (d.get .idempotencyKey id).isSome

theorem ConfirmGuar.refl (d₀ : Db) (req : ConfirmRequest) (i : Fin n) (l : Txn shop) (d : Db)
    (x : ℕ → Option (Fin n)) : ConfirmGuar d₀ req i l d d x := by
  refine ⟨.refl d, fun _ _ _ _ => rfl, fun id k hnone hk => ?_, .inl fun _ _ => rfl⟩
  rw [hnone] at hk
  cases hk

theorem ConfirmRely.refl (i : Fin n) (l : Txn shop) (d : Db) (x : ℕ → Option (Fin n)) :
    ConfirmRely i l d x d x := by
  refine ⟨.refl d, fun _ hx => ⟨hx, rfl⟩, fun _ _ id k hk _ => ?_⟩
  rw [hk]
  rfl

/-- Who committed a record. -/
def recorders (n : ℕ) : History shop shopHost n where
  Val := ℕ → Option (Fin n)
  next i sh sh' x := fun id =>
    if (sh.db.get .idempotencyKey id).isNone ∧ (sh'.db.get .idempotencyKey id).isSome then some i
    else x id

theorem recorders_same (i : Fin n) (sh sh' : Shared shop shopHost) (x : ℕ → Option (Fin n))
    (h : ∀ id, (sh'.db.get .idempotencyKey id).isSome = (sh.db.get .idempotencyKey id).isSome) :
    (recorders n).next i sh sh' x = x := by
  funext id
  refine if_neg fun hc => ?_
  rw [h id] at hc
  cases hg : sh.db.get .idempotencyKey id <;> simp [hg] at hc

theorem ConfirmRely.trans {i : Fin n} {l : Txn shop} {d d' d'' : Db}
    {x x' x'' : ℕ → Option (Fin n)} (h : ConfirmRely i l d x d' x') (h' : ConfirmRely i l d' x' d'' x'') :
    ConfirmRely i l d x d'' x'' := by
  refine ⟨h.kept.trans h'.kept, fun id hx => ?_, fun c hc id k hk hcs => ?_⟩
  · obtain ⟨hx', hd'⟩ := h.own id hx
    obtain ⟨hx'', hd''⟩ := h'.own id hx'
    exact ⟨hx'', hd''.trans hd'⟩
  · obtain ⟨k', hk'⟩ := Option.isSome_iff_exists.mp (h'.locked c hc id k hk hcs)
    obtain ⟨k₁, hk₁, hgrows⟩ := h'.kept id k' hk'
    obtain rfl : k₁ = k := Option.some.inj (hk₁.symm.trans hk)
    exact h.locked c hc id k' hk' (hgrows.csId.symm.trans hcs)

/-- What a request of another program does is what a request may rely on. -/
theorem ConfirmGuar.rely {d₀ : Db} {req : ConfirmRequest} {i j : Fin n} {l m : Txn shop}
    {sh sh' : Shared shop shopHost} {x : ℕ → Option (Fin n)} (hij : i ≠ j) (hlm : l.Apart m)
    (howned : ∀ id j, x id = some j → (sh.db.get .idempotencyKey id).isSome)
    (h : ConfirmGuar d₀ req i l sh.db sh'.db x) :
    ConfirmRely j m sh.db x sh'.db ((recorders n).next i sh sh' x) := by
  refine ⟨h.kept, fun id hx => ⟨?_, h.others id j hx (Ne.symm hij)⟩, fun c hc id k hk hcs => ?_⟩
  · have hsome := howned id j hx
    refine (if_neg fun hc => ?_).trans hx
    obtain ⟨k, hk⟩ := Option.isSome_iff_exists.mp hsome
    simp [hk] at hc
  · by_contra hnone
    simp only [Option.not_isSome_iff_eq_none] at hnone
    have hlock := h.locked id k hnone hk
    rw [hcs] at hlock
    exact hlm _ hlock hc

def confirmProtocol (lib : Lib) (reqs : Fin n → ConfirmRequest) (strict : Prop) (d₀ : Db) :
    Protocol shop shopHost n where
  toHistory := recorders n
  inv sh x := ConfirmInv lib strict d₀ sh.db x
  rely i l sh x sh' x' := ConfirmRely i l sh.db x sh'.db x'
  guar i l sh x sh' := ConfirmGuar d₀ (reqs i) i l sh.db sh'.db x
  next_same i sh x := recorders_same i sh sh x fun _ => rfl
  rely_refl i l sh x := .refl i l sh.db x
  rely_trans h h' := h.trans h'
  guar_same _ _ sh x := .refl d₀ _ _ _ sh.db x
  compat hij hlm hinv _ _ hg := hg.rely hij hlm hinv.owned
  env_inv _ _ _ h := h
  env_rely _ sh x j m _ := .refl j m sh.db x

theorem confirm_quiet (lib : Lib) (reqs : Fin n → ConfirmRequest) (strict : Prop) (d₀ : Db) :
    Quiet (confirmProtocol lib reqs strict d₀) :=
  ⟨fun _ h => h, fun i sh s x => recorders_same i sh ⟨sh.db, s⟩ x fun _ => rfl,
    fun i l sh x _ _ => .refl d₀ (reqs i) i l sh.db x⟩

end Phyllonix
