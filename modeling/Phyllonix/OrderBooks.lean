import Phyllonix.OrderReconciliation
import Phyllonix.RelationalUpheld

/-!
# The money of an order

The snapshot of a checkout, the lines and the columns of its order, the payment and the requests
to the payment provider carry one amount, whichever requests run beside it.
-/

namespace Phyllonix
open Relational
variable {n : ℕ}

/-- What a payment is for. -/
def Payment.terms (p : Payment) : ℕ × UUID × ℕ × ℤ := (p.id, p.publicId, p.orderId, p.amount)

/-- Orders and lines stay; payments change in status and provider ids, checkouts in being active. -/
def booksKept : RowOrder shop where
  rel
    | .orders, r, r' => r' = r
    | .orderItem, r, r' => r' = r
    | .payment, r, r' => r'.map Payment.terms = r.map Payment.terms
    | .checkoutSession, r, r' => r'.map CheckoutSession.fixed = r.map CheckoutSession.fixed
    | _, _, _ => True
  refl t r := by cases t <;> first | rfl | trivial
  trans {t} _ _ _ h h' := by cases t <;> first | exact h'.trans h | trivial

/-- The order was built from the checkout of the request, and its payment is for its total. -/
structure ChargedFor (lib : Lib) (req : ConfirmRequest) (d : Db) (o : Orders) : Prop where
  checkout : ∃ c : CheckoutSession, c ∈ d .checkoutSession ∧ c.userId = req.userIdentifier ∧
    c.publicId = req.checkoutId ∧ c.selectedPaymentMethod = some .UPI ∧ ∃ items lines,
      c.cartSnapshot = some items ∧ List.Forall₂ (LineOf lib o) items lines ∧ (orderItems d o.id).Perm lines
  subtotal : o.subtotal = ((orderItems d o.id).map fun it => it.unitPriceSnapshot * it.quantity).sum
  payment : ∃ p : Payment, p ∈ d .payment ∧ p.orderId = o.id ∧ p.amount = o.total

/-- Who placed which order, and who sent which request to the provider. -/
structure OrderLog (n : ℕ) where
  placer : ℕ → Option (Fin n)
  calls : List (Fin n × PspRequest)

def orderLog (n : ℕ) : History shop shopHost n where
  Val := OrderLog n
  next i sh sh' x :=
    { placer := fun id =>
        if (sh.db.get .orders id).isNone ∧ (sh'.db.get .orders id).isSome then some i else x.placer id
      calls := x.calls ++ (sh'.host.pspCalls.drop sh.host.pspCalls.length).map fun req => (i, req) }

/-- Lines and payments belong to orders. -/
structure Referenced (d : Db) : Prop where
  lines : ∀ it : OrderItem, it ∈ d .orderItem → (d.get .orders it.orderId).isSome
  payments : ∀ p : Payment, p ∈ d .payment → (d.get .orders p.orderId).isSome

structure Books (lib : Lib) (reqs : Fin n → ConfirmRequest) (d₀ d : Db) (x : OrderLog n) : Prop
    extends Referenced d where
  old : ∀ id o, d₀.get .orders id = some o → d.get .orders id = some o
  placed : ∀ o : Orders, o ∈ d .orders → d₀.get .orders o.id = none →
    ∃ i, x.placer o.id = some i ∧ ChargedFor lib (reqs i) d o
  known : ∀ id i, x.placer id = some i → (d.get .orders id).isSome ∧ d₀.get .orders id = none
  one : ∀ id id' i, x.placer id = some i → x.placer id' = some i → id = id'
  calls : ∀ call ∈ x.calls, ∃ o : Orders, o ∈ d .orders ∧ x.placer o.id = some call.1 ∧
    call.2.amount = 100 * o.total

section Stores
variable {lib : Lib} {reqs : Fin n → ConfirmRequest} {req : ConfirmRequest} {d₀ d d' : Db} {o : Orders} {x : OrderLog n}

theorem perm_of_get {t : Table} (hd : d.Wf) (hd' : d'.Wf) (h : ∀ id, d'.get t id = d.get t id) :
    (d' t).Perm (d t) := by
  apply (List.perm_ext_iff_of_nodup (hd'.ids t).of_map (hd.ids t).of_map).mpr
  intro r
  constructor
  · intro hr
    exact Store.mem_of_get ((h _).symm.trans (Store.get_of_mem hd'.ids hr))
  · intro hr
    exact Store.mem_of_get ((h _).trans (Store.get_of_mem hd.ids hr))

theorem exists_fixed {c : CheckoutSession} (hc : d.get .checkoutSession c.id = some c)
    (h : (d'.get .checkoutSession c.id).map CheckoutSession.fixed =
      (d.get .checkoutSession c.id).map CheckoutSession.fixed) :
    ∃ c' : CheckoutSession, d'.get .checkoutSession c'.id = some c' ∧ c'.userId = c.userId ∧ c'.publicId = c.publicId ∧
      c'.cartSnapshot = c.cartSnapshot ∧ c'.selectedPaymentMethod = c.selectedPaymentMethod := by
  rw [hc] at h
  obtain ⟨c', hc', he⟩ := Option.map_eq_some_iff.mp h
  simp only [CheckoutSession.fixed, CheckoutSession.mk.injEq] at he
  obtain ⟨hid, hpub, huser, hsnap, hpay, -⟩ := he
  exact ⟨c', hid ▸ hc', huser, hpub, hsnap, hpay⟩

theorem exists_terms {p : Payment} (hd : d.Wf) (hp : p ∈ d .payment)
    (h : (d'.get .payment p.id).map Payment.terms = (d.get .payment p.id).map Payment.terms) :
    ∃ p' : Payment, p' ∈ d' .payment ∧ p'.orderId = p.orderId ∧ p'.amount = p.amount := by
  have hget : d.get .payment p.id = some p := Store.get_of_mem hd.ids hp
  rw [hget] at h
  obtain ⟨p', hp', he⟩ := Option.map_eq_some_iff.mp h
  simp only [Payment.terms, Prod.mk.injEq] at he
  exact ⟨p', Store.mem_of_get hp', he.2.2.1, he.2.2.2⟩

theorem ChargedFor.evolves (h : ChargedFor lib req d o) (hd : d.Wf) (hd' : d'.Wf) (hev : Evolves booksKept d d') :
    ChargedFor lib req d' o := by
  have hlines : (orderItems d' o.id).Perm (orderItems d o.id) :=
    (perm_of_get hd hd' fun id => hev .orderItem id).filter _
  obtain ⟨c, hc, huser, hpub, hmethod, items, lines, hsnap, hrel, hperm⟩ := h.checkout
  obtain ⟨p, hp, horder, hamount⟩ := h.payment
  refine ⟨?_, ?_, ?_⟩
  · obtain ⟨c', hc', huser', hpub', hsnap', hmethod'⟩ := exists_fixed
      (Store.get_of_mem hd.ids hc) (hev .checkoutSession c.id)
    exact ⟨c', Store.mem_of_get hc', huser'.trans huser, hpub'.trans hpub, hmethod'.trans hmethod, items, lines,
      hsnap'.trans hsnap, hrel, hlines.trans hperm⟩
  · rw [h.subtotal]
    exact (hlines.map _).sum_eq.symm
  · obtain ⟨p', hp', horder', hamount'⟩ := exists_terms hd hp (hev .payment p.id)
    exact ⟨p', hp', horder'.trans horder, hamount'.trans hamount⟩

theorem Books.evolves (h : Books lib reqs d₀ d x) (hd : d.Wf) (hd' : d'.Wf) (hev : Evolves booksKept d d')
    {calls : List (Fin n × PspRequest)} (hcalls : ∀ call ∈ calls, ∃ o : Orders, o ∈ d .orders ∧
      x.placer o.id = some call.1 ∧ call.2.amount = 100 * o.total) :
    Books lib reqs d₀ d' ⟨x.placer, x.calls ++ calls⟩ := by
  have horders : ∀ id, d'.get .orders id = d.get .orders id := fun id => hev .orders id
  have hmem : ∀ o : Orders, o ∈ d' .orders ↔ o ∈ d .orders := fun o => (perm_of_get hd hd' horders).mem_iff
  have hlines : ∀ it : OrderItem, it ∈ d' .orderItem ↔ it ∈ d .orderItem := fun it =>
    (perm_of_get hd hd' fun id => hev .orderItem id).mem_iff
  refine ⟨⟨fun it hit => ?_, fun p hp => ?_⟩, fun id o ho => ?_, fun o ho hnew => ?_, fun id i hi => ?_, h.one,
    fun call hcall => ?_⟩
  · rw [horders]
    exact h.lines it ((hlines it).mp hit)
  · obtain ⟨p', hp', horder, -⟩ := exists_terms hd' hp (hev .payment p.id).symm
    rw [horders, ← horder]
    exact h.payments p' hp'
  · rw [horders]
    exact h.old id o ho
  · obtain ⟨i, hi, hcharged⟩ := h.placed o ((hmem o).mp ho) hnew
    exact ⟨i, hi, hcharged.evolves hd hd' hev⟩
  · rw [horders]
    exact h.known id i hi
  · have hall : ∃ o : Orders, o ∈ d .orders ∧ x.placer o.id = some call.1 ∧ call.2.amount = 100 * o.total := by
      rcases List.mem_append.mp hcall with hcall | hcall
      · exact h.calls call hcall
      · exact hcalls call hcall
    obtain ⟨o, ho, hplacer, hamount⟩ := hall
    exact ⟨o, (hmem o).mpr ho, hplacer, hamount⟩

end Stores

/-! ## The protocol -/

/-- Orders stay, and checkouts change in being active only. -/
structure BooksStep (d d' : Db) : Prop where
  orders : ∀ id o, d.get .orders id = some o → d'.get .orders id = some o
  checkouts : ∀ c, (d'.get .checkoutSession c).map CheckoutSession.fixed =
    (d.get .checkoutSession c).map CheckoutSession.fixed

theorem BooksStep.refl (d : Db) : BooksStep d d := ⟨fun _ _ h => h, fun _ => rfl⟩

theorem BooksStep.trans {d d' d'' : Db} (h : BooksStep d d') (h' : BooksStep d' d'') : BooksStep d d'' :=
  ⟨fun id o ho => h'.orders id o (h.orders id o ho), fun c => (h'.checkouts c).trans (h.checkouts c)⟩

theorem BooksStep.of_evolves {d d' : Db} (h : Evolves booksKept d d') : BooksStep d d' :=
  ⟨fun id _ ho => Eq.trans (h .orders id) ho, fun c => h .checkoutSession c⟩

theorem orderLog_same {i : Fin n} {sh sh' : Shared shop shopHost} (x : OrderLog n)
    (h : ∀ id, (sh'.db.get .orders id).isSome = (sh.db.get .orders id).isSome) :
    (orderLog n).next i sh sh' x =
      ⟨x.placer, x.calls ++ (sh'.host.pspCalls.drop sh.host.pspCalls.length).map fun req => (i, req)⟩ := by
  have hplacer : (fun id => if (sh.db.get .orders id).isNone ∧ (sh'.db.get .orders id).isSome then some i
      else x.placer id) = x.placer := by
    funext id
    apply if_neg
    intro hc
    rw [h id] at hc
    cases hg : sh.db.get .orders id <;> simp [hg] at hc
  exact congrArg (fun f => OrderLog.mk f _) hplacer

theorem orderLog_quiet {i : Fin n} {sh sh' : Shared shop shopHost} (x : OrderLog n) (hdb : sh'.db = sh.db)
    (hcalls : sh'.host.pspCalls = sh.host.pspCalls) : (orderLog n).next i sh sh' x = x := by
  rw [orderLog_same x fun id => by rw [hdb], hcalls, List.drop_length]
  exact congrArg (OrderLog.mk x.placer) (List.append_nil x.calls)

/-- What a program finds of its own in the log. -/
def SamePlacer (i : Fin n) (x x' : OrderLog n) : Prop := ∀ id, x'.placer id = some i ↔ x.placer id = some i

def booksProtocol (lib : Lib) (reqs : Fin n → ConfirmRequest) (w : World shop shopHost) :
    Protocol shop shopHost n where
  toHistory := orderLog n
  inv sh x := Books lib reqs w.db sh.db x ∧ sh.host.pspCalls = w.host.pspCalls ++ x.calls.map Prod.snd
  rely i _ sh x sh' x' := BooksStep sh.db sh'.db ∧ SamePlacer i x x'
  guar _ _ sh _ sh' := BooksStep sh.db sh'.db
  next_same _ _ x := orderLog_quiet x rfl rfl
  rely_refl _ _ _ _ := ⟨.refl _, fun _ => .rfl⟩
  rely_trans h h' := ⟨h.1.trans h'.1, fun id => (h'.2 id).trans (h.2 id)⟩
  guar_same _ _ _ _ := .refl _
  compat {i j _ _ sh x sh'} hij _ hinv _ _ hg := by
    refine ⟨hg, fun id => ?_⟩
    change (if _ then _ else _) = _ ↔ _
    split
    · rename_i hnew
      refine ⟨fun he => absurd (Option.some.inj he) hij, fun he => ?_⟩
      have hknown := (hinv.1.known id j he).1
      cases hget : sh.db.get .orders id <;> simp [hget] at hnew hknown
    · exact .rfl
  env_inv _ _ _ h := h
  env_rely _ _ _ _ _ _ := ⟨.refl _, fun _ => .rfl⟩

section Protocol
variable {lib : Lib} {reqs : Fin n → ConfirmRequest} {w₀ : World shop shopHost} {G : Guard shop shopHost n} {i : Fin n}
variable {sh : Shared shop shopHost} {x : OrderLog n} {l : Txn shop} {α β : Type}

theorem books_indifferent : Indifferent (booksProtocol lib reqs w₀) where
  inv hcalls h := ⟨h.1, Eq.trans hcalls h.2⟩
  next _ _ _ x hcalls := orderLog_quiet x rfl hcalls
  guar _ _ _ _ _ _ := .refl _

/-- The order that the request has placed costs a hundredth of the amount. -/
def Owes (i : Fin n) (amount : ℤ) (d : Db) (x : OrderLog n) : Prop :=
  ∃ o : Orders, d.get .orders o.id = some o ∧ x.placer o.id = some i ∧ amount = 100 * o.total

theorem Owes.later {amount : ℤ} {d d' : Db} {x x' : OrderLog n} (h : Owes i amount d x) (hstep : BooksStep d d')
    (hx : SamePlacer i x x') : Owes i amount d' x' := by
  obtain ⟨o, ho, hplacer, hamount⟩ := h
  exact ⟨o, hstep.orders o.id o ho, (hx o.id).mpr hplacer, hamount⟩

/-- The provider is asked for the amount, or not at all. -/
def Asks (A : Option ℤ) : ShopAction → Prop
  | .host (.createPspOrder req) => A = some req.amount
  | _ => True

theorem run_asks {A : Option ℤ} {a : ShopAction} (ha : Asks A a) {c : Choice shopHost}
    {busy : Lock shop → Bool} {w w' : World shop shopHost} {l' : Txn shop} {r : Except (Exn AppErr) a.Res}
    (h : a.run c busy w l = some (r, w', l')) :
    w'.host.pspCalls = w.host.pspCalls ∨
      ∃ req, A = some req.amount ∧ w'.host.pspCalls = w.host.pspCalls ++ [req] := by
  by_cases hs : a.Silent
  · rw [Action.run_silent hs h]
    exact .inl rfl
  · cases a with
    | host a =>
      cases c with
      | go => cases h
      | fault => cases h
      | host c =>
        obtain ⟨⟨r₁, s⟩, hst, hx⟩ := Option.map_eq_some_iff.mp h
        simp only [Prod.mk.injEq] at hx
        obtain ⟨-, rfl, -⟩ := hx
        cases a with
        | createPspOrder req =>
          cases c <;> simp only [HostAct.step, Option.some.injEq, Prod.mk.injEq, reduceCtorEq] at hst <;>
            obtain ⟨-, rfl⟩ := hst <;> exact .inr ⟨req, ha, rfl⟩
        | _ => exact .inl (HostAct.step_pspCalls (fun _ he => by cases he) hst)
    | _ => exact absurd trivial hs

/-- A program that keeps the books may commit; what it asks the provider for is owed. -/
theorem books_kept {p : Py α} {A : Option ℤ} {W : Write shop → Prop}
    (hp : p.Acts fun a => a.Keeps booksKept ∧ Asks A a ∧ a.Confined W) (hview : Evolves booksKept sh.db (l.view sh.db))
    (hW : ∀ u ∈ l.writes, W u) (howes : ∀ amount, A = some amount → Owes i amount sh.db x) :
    Safe (booksProtocol lib reqs w₀) G i (fun _ sh' x' l' => Evolves booksKept sh'.db (l'.view sh'.db) ∧
      (∀ u ∈ l'.writes, W u) ∧ BooksStep sh.db sh'.db ∧ SamePlacer i x x') p sh x l := by
  induction p generalizing sh x l with
  | ret a => exact ⟨hview, hW, .refl _, fun _ => .rfl⟩
  | raise e => exact ⟨hview, hW, .refl _, fun _ => .rfl⟩
  | act a k ih =>
    intro w y hs c busy r w' l' _ hr
    obtain ⟨⟨hkeeps, hasks, hconf⟩, hk⟩ := hp
    obtain ⟨hdb, hview'⟩ := Action.run_evolves hkeeps hs.world hs.ok (hview.still hs.ok hs.still) hr
    have hwf' := (Action.run_spec hs.world hs.ok hr).world.wf
    have hstep := BooksStep.of_evolves hdb
    have hnext : (orderLog n).next i w.toShared w'.toShared y = ⟨y.placer,
        y.calls ++ (w'.host.pspCalls.drop w.host.pspCalls.length).map fun req => (i, req)⟩ :=
      orderLog_same y fun id => by rw [hdb .orders id]
    have howes' : ∀ amount, A = some amount → Owes i amount w.db y := fun amount ha =>
      (howes amount ha).later hs.rely.1 hs.rely.2
    have hcalls : ∀ call ∈ (w'.host.pspCalls.drop w.host.pspCalls.length).map fun req => (i, req),
        ∃ o : Orders, o ∈ w.db .orders ∧ y.placer o.id = some call.1 ∧ call.2.amount = 100 * o.total := by
      intro call hcall
      obtain ⟨req, hreq, rfl⟩ := List.mem_map.mp hcall
      rcases run_asks hasks hr with hsame | ⟨req', hamount, hcalls⟩
      · rw [hsame, List.drop_length] at hreq
        cases hreq
      · rw [hcalls, List.drop_left] at hreq
        obtain rfl := List.mem_singleton.mp hreq
        obtain ⟨o, ho, hplacer, htotal⟩ := howes' _ hamount
        exact ⟨o, Store.mem_of_get ho, hplacer, htotal⟩
    have hhost : w'.host.pspCalls = w.host.pspCalls ++ w'.host.pspCalls.drop w.host.pspCalls.length := by
      rcases run_asks hasks hr with hsame | ⟨req', -, hcalls⟩
      · rw [hsame, List.drop_length, List.append_nil]
      · rw [hcalls, List.drop_left]
    obtain ⟨hbooks, hlog⟩ := hs.inv
    have hinv : (booksProtocol lib reqs w₀).inv w'.toShared
        ⟨y.placer, y.calls ++ (w'.host.pspCalls.drop w.host.pspCalls.length).map fun req => (i, req)⟩ := by
      refine ⟨hbooks.evolves hs.world.wf hwf' hdb hcalls, ?_⟩
      have hsnd : (w'.host.pspCalls.drop w.host.pspCalls.length).map (Prod.snd ∘ fun req => (i, req)) =
          w'.host.pspCalls.drop w.host.pspCalls.length := List.map_id _
      rw [List.map_append, List.map_map, hsnd, ← List.append_assoc, ← hlog]
      exact hhost
    have hplacer : ((orderLog n).next i w.toShared w'.toShared y).placer = y.placer := by rw [hnext]
    refine ⟨hnext ▸ hinv, hstep, ?_⟩
    apply (ih r (hk r) hview' (Action.run_confined hconf hW hr) fun amount ha => ?_).mono
    · rintro r' sh' x' l'' ⟨hev, hwrites, hlater, hsame⟩
      refine ⟨hev, hwrites, (hs.rely.1.trans hstep).trans hlater, fun id => ?_⟩
      have hid : x'.placer id = some i ↔ ((orderLog n).next i w.toShared w'.toShared y).placer id = some i := hsame id
      rw [hplacer] at hid
      exact hid.trans (hs.rely.2 id)
    · apply (howes' amount ha).later hstep
      intro id
      change ((orderLog n).next i w.toShared w'.toShared y).placer id = some i ↔ _
      rw [hplacer]

/-- Inside a transaction nothing of the books changes by the program itself. -/
theorem books_within {p : Py α} (hp : p.Acts fun a => a.Within ∧ Asks none a) :
    Safe (booksProtocol lib reqs w₀) G i (fun _ sh' x' _ => BooksStep sh.db sh'.db ∧ SamePlacer i x x') p sh x l := by
  induction p generalizing sh x l with
  | ret a => exact ⟨.refl _, fun _ => .rfl⟩
  | raise e => exact ⟨.refl _, fun _ => .rfl⟩
  | act a k ih =>
    intro w y hs c busy r w' l' _ hr
    obtain ⟨⟨hin, hasks⟩, hk⟩ := hp
    have hdb := Action.run_uncommitted hin hs.world hs.ok hr
    have hcalls : w'.host.pspCalls = w.host.pspCalls := by
      rcases run_asks hasks hr with hsame | ⟨req, hamount, -⟩
      · exact hsame
      · cases hamount
    have hnext : (booksProtocol lib reqs w₀).next i w.toShared w'.toShared y = y := orderLog_quiet y hdb hcalls
    obtain ⟨hbooks, hlog⟩ := hs.inv
    rw [hnext]
    refine ⟨⟨?_, Eq.trans hcalls hlog⟩, ?_, (ih r (hk r)).mono ?_⟩
    · rw [hdb]
      exact hbooks
    · change BooksStep w.db w'.db
      rw [hdb]
      exact .refl _
    · rintro r' sh' x' l'' ⟨hlater, hsame⟩
      rw [hdb] at hlater
      exact ⟨hs.rely.1.trans hlater, fun id => (hsame id).trans (hs.rely.2 id)⟩

/-! ## Up to the order -/

/-- The snapshot and the payment method of the checkout of the request. -/
def Chose (req : ConfirmRequest) (items : List SnapshotItem) (m : PaymentMethod) (d : Db) : Prop :=
  ∃ c : CheckoutSession, d.get .checkoutSession c.id = some c ∧ c.userId = req.userIdentifier ∧
    c.publicId = req.checkoutId ∧ c.cartSnapshot = some items ∧ c.selectedPaymentMethod = some m

theorem Chose.later {req : ConfirmRequest} {items : List SnapshotItem} {m : PaymentMethod} {d d' : Db}
    (h : Chose req items m d) (hstep : BooksStep d d') : Chose req items m d' := by
  obtain ⟨c, hc, huser, hpub, hsnap, hpay⟩ := h
  obtain ⟨c', hc', huser', hpub', hsnap', hpay'⟩ := exists_fixed hc (hstep.checkouts c.id)
  exact ⟨c', hc', huser'.trans huser, hpub'.trans hpub, hsnap'.trans hsnap, hpay'.trans hpay⟩

theorem updateCheckoutActiveness_keeps (csId : ℕ) (active : Bool) (A : Option ℤ) :
    (updateCheckoutActiveness csId active).Acts fun a =>
      a.Keeps booksKept ∧ Asks A a ∧ a.Confined fun _ => True := by
  have hupdate : (update .checkoutSession (fun c : CheckoutSession => c.id = csId)
      fun c : CheckoutSession => { c with isActive := active }).Acts fun a =>
      a.Keeps booksKept ∧ Asks A a ∧ a.Confined fun _ => True :=
    .call ⟨fun _ => rfl, trivial, fun _ _ => trivial⟩
  exact hupdate.bind fun _ => .call ⟨trivial, trivial, trivial⟩

/-- What a request knows before it places its order. -/
def Choosing (req : ConfirmRequest) (i : Fin n) (x : OrderLog n) (l : Txn shop) (items : List SnapshotItem)
    (m : PaymentMethod) (d : Db) : Prop :=
  Untouched l ∧ Chose req items m d ∧ ∀ id, x.placer id ≠ some i

theorem validate_chooses {req : ConfirmRequest} (hidle : ∀ id, x.placer id ≠ some i) (hl : l.writes = []) :
    Safe (booksProtocol lib reqs w₀) G i (fun r sh' x' l' => match r with
        | .ok (_, items, m) => Choosing req i x' l' items m sh'.db
        | .error _ => True)
      (validateCheckoutGetItemsPaymethod req.checkoutId req.userIdentifier) sh x l := by
  apply Safe.bind
  apply Safe.lock
  · intro w y hs _
    have hrow : ∀ c ∈ (l.view w.db .checkoutSession).filter (fun c : CheckoutSession =>
        decide (c.userId = req.userIdentifier) && c.isActive && decide (c.publicId = req.checkoutId)),
        w.db.get .checkoutSession c.id = some c ∧ c.userId = req.userIdentifier ∧ c.publicId = req.checkoutId := by
      intro c hc
      obtain ⟨hmem, hfound⟩ := List.mem_filter.mp hc
      rw [Txn.view_of_no_writes hl] at hmem
      simp only [Bool.and_eq_true, decide_eq_true_eq] at hfound
      exact ⟨Store.get_of_mem hs.world.wf.ids hmem, hfound.1.1, hfound.2⟩
    apply Safe.bind
    apply safe_oneOrNone
    · exact fun _ => trivial
    · intro c hone
      obtain ⟨hget, huser, hpub⟩ := hrow c (hone ▸ List.mem_singleton.mpr rfl)
      apply Safe.bind
      apply books_indifferent.safe_now
      intro w₁ y₁ hs₁
      have hidle₁ : ∀ id, y₁.placer id ≠ some i := fun id he =>
        hidle id ((hs.rely.2 id).mp ((hs₁.rely.2 id).mp he))
      have hnil : ∀ ks, (l.acquire ks).writes = [] := fun _ => hl
      dsimp only
      split
      · apply Safe.bind
        apply (books_kept (updateCheckoutActiveness_keeps c.id false none) ?_ (fun _ _ => trivial) nofun).mono
        · intro r sh₂ x₂ l₂ _
          cases r with
          | ok _ => exact Safe.raise trivial
          | error e => trivial
        · rw [Txn.view_of_no_writes (hnil _)]
          exact .refl _ _
      · split
        · trivial
        · rename_i m hmethod
          cases hsnap : c.cartSnapshot with
          | none => trivial
          | some items =>
            cases items with
            | nil => trivial
            | cons it rest =>
              have hchose : Chose req (it :: rest) m w.db := ⟨c, hget, huser, hpub, hsnap, hmethod⟩
              refine Safe.pure ⟨fun u hu => ?_, hchose.later hs₁.rely.1, hidle₁⟩
              rw [hnil] at hu
              cases hu
    · trivial
  · exact fun _ _ _ _ _ _ _ => trivial

theorem Untouched.evolves (h : Untouched l) (d : Db) : Evolves booksKept d (l.view d) := by
  have hsame : ∀ t, IsEntry t ∨ t = .checkoutSession → l.view d t = d t := by
    intro t ht
    apply applyWrites_of_untouched
    intro u hu he
    rcases ht with ht | ht
    · exact (h u hu).1 (he ▸ ht)
    · exact (h u hu).2 (he.trans ht)
  intro t id
  cases t with
  | orders => exact congrArg (List.find? _) (hsame .orders (.inl (.inl rfl)))
  | orderItem => exact congrArg (List.find? _) (hsame .orderItem (.inl (.inr (.inl rfl))))
  | payment => exact congrArg (fun rows => (List.find? _ rows).map _) (hsame .payment (.inl (.inr (.inr rfl))))
  | checkoutSession => exact congrArg (fun rows => (List.find? _ rows).map _) (hsame .checkoutSession (.inr rfl))
  | _ => trivial

theorem choosing_bind {req : ConfirmRequest} {items : List SnapshotItem} {m : PaymentMethod} {p : Py α} {f : α → Py β}
    (hp : p.Acts fun a => a.Keeps booksKept ∧ Asks none a ∧
      a.Confined fun u => ¬IsEntry u.tbl ∧ u.tbl ≠ Table.checkoutSession)
    (h : Choosing req i x l items m sh.db) (hf : ∀ a sh x l, Choosing req i x l items m sh.db →
      Safe (booksProtocol lib reqs w₀) G i (fun _ _ _ _ => True) (f a) sh x l) :
    Safe (booksProtocol lib reqs w₀) G i (fun _ _ _ _ => True) (p >>= f) sh x l := by
  obtain ⟨hun, hchose, hidle⟩ := h
  apply Safe.bind
  apply (books_kept hp (hun.evolves _) hun nofun).mono
  rintro r sh' x' l' ⟨-, hun', hstep, hsame⟩
  cases r with
  | ok a => exact hf a sh' x' l' ⟨hun', hchose.later hstep, fun id he => hidle id ((hsame id).mp he)⟩
  | error e => trivial

/-! ## The order -/

section Order
variable {items : List SnapshotItem} {o : Orders} {lines : List OrderItem} {p : Payment} {d : Db}

theorem lines_ofOrder (h : List.Forall₂ (LineOf lib o) items lines) : ∀ line ∈ lines, line.orderId = o.id := by
  induction h with
  | nil => exact fun _ hline => by cases hline
  | cons hline _ ih =>
    intro line hmem
    rcases List.mem_cons.mp hmem with rfl | hmem
    · exact hline.order
    · exact ih line hmem

theorem lines_prices (h : List.Forall₂ (LineOf lib o) items lines) :
    lines.map (fun line => line.unitPriceSnapshot * line.quantity) =
      items.map fun it => it.prodBasePrice * it.quantity := by
  induction h with
  | nil => rfl
  | cons hline _ ih => rw [List.map_cons, List.map_cons, hline.price, hline.quantity, ih]

theorem Entered.view_orders (h : Entered lib o items lines [p] d l) : l.view d .orders = d .orders ++ [o] := by
  rw [Txn.view, applyWrites_written h.inserts (.inl rfl), h.order]

theorem Entered.view_get (h : Entered lib o items lines [p] d l) (id : ℕ) :
    (l.view d).get .orders id = (d.get .orders id).or (if o.id = id then some o else none) := by
  rw [Store.get, h.view_orders, List.find?_append]
  congr 1
  by_cases hid : o.id = id <;> simp [hid, rowId]

theorem Entered.order_fresh (h : Entered lib o items lines [p] d l) (hv : (l.view d).Wf) :
    ∀ o' : Orders, o' ∈ d .orders → o'.id ≠ o.id := by
  have hnd := hv.ids .orders
  rw [h.view_orders, List.map_append] at hnd
  intro o' ho' he
  have hmem : o'.id ∈ List.map (shop.id (t := Table.orders)) [o] := List.mem_singleton.mpr he
  exact (List.nodup_append.mp hnd).2.2 _ (List.mem_map_of_mem ho') _ hmem rfl

/-- The lines of an order are those that it had, or the new ones. -/
theorem Entered.view_lines (h : Entered lib o items lines [p] d l) (q : ℕ) :
    orderItems (l.view d) q = orderItems d q ++ if q = o.id then lines else [] := by
  have hview : l.view d .orderItem = d .orderItem ++ lines := by
    rw [Txn.view, applyWrites_written h.inserts (.inr (.inl rfl)), h.items]
  have hof := lines_ofOrder h.forItems
  rw [orderItems, hview, List.filter_append, orderItems]
  congr 1
  split
  · rename_i hq
    exact List.filter_eq_self.mpr fun it hit => by simp [hof it hit, hq]
  · rename_i hq
    exact List.filter_eq_nil_iff.mpr fun it hit => by simp [hof it hit, Ne.symm hq]

theorem Entered.view_payments (h : Entered lib o items lines [p] d l) : l.view d .payment = d .payment ++ [p] := by
  rw [Txn.view, applyWrites_written h.inserts (.inr (.inr rfl)), h.payments]

theorem Entered.view_checkouts (h : Entered lib o items lines [p] d l) :
    l.view d .checkoutSession = d .checkoutSession :=
  applyWrites_of_untouched h.checkouts

/-- The other orders are charged as before. -/
theorem ChargedFor.entered {req : ConfirmRequest} {o' : Orders} (h' : ChargedFor lib req d o')
    (h : Entered lib o items lines [p] d l) (hne : o'.id ≠ o.id) : ChargedFor lib req (l.view d) o' := by
  have hlines : orderItems (l.view d) o'.id = orderItems d o'.id := by
    rw [h.view_lines, if_neg hne, List.append_nil]
  obtain ⟨q, hq, horder, hamount⟩ := h'.payment
  refine ⟨?_, ?_, q, ?_, horder, hamount⟩
  · rw [h.view_checkouts, hlines]
    exact h'.checkout
  · rw [hlines]
    exact h'.subtotal
  · rw [h.view_payments]
    exact List.mem_append_left _ hq

/-- The new order is charged for the snapshot. -/
theorem Entered.chargedFor {req : ConfirmRequest} (h : Entered lib o items lines [p] d l)
    (hchose : Chose req items .UPI d) (hcharged : Charged lib o items .UPI) (horder : p.orderId = o.id)
    (hamount : p.amount = o.total) (hnone : orderItems d o.id = []) : ChargedFor lib req (l.view d) o := by
  have hlines : orderItems (l.view d) o.id = lines := by
    rw [h.view_lines, if_pos rfl, hnone, List.nil_append]
  obtain ⟨c, hc, huser, hpub, hsnap, hpay⟩ := hchose
  refine ⟨⟨c, ?_, huser, hpub, hpay, items, lines, hsnap, h.forItems, ?_⟩, ?_, p, ?_, horder, hamount⟩
  · rw [h.view_checkouts]
    exact Store.mem_of_get hc
  · rw [hlines]
  · rw [hlines, lines_prices h.forItems]
    exact hcharged.subtotal_eq
  · rw [h.view_payments]
    exact List.mem_append_right _ (List.mem_singleton.mpr rfl)

theorem Books.entered {x : OrderLog n} (hbooks : Books lib reqs w₀.db d x) (h : Entered lib o items lines [p] d l)
    (hv : (l.view d).Wf) (hchose : Chose (reqs i) items .UPI d) (hcharged : Charged lib o items .UPI)
    (horder : p.orderId = o.id) (hamount : p.amount = o.total) (hidle : ∀ id, x.placer id ≠ some i) :
    Books lib reqs w₀.db (l.view d) ⟨fun id => if id = o.id then some i else x.placer id, x.calls⟩ := by
  have hfresh := h.order_fresh hv
  have hold : ∀ id o', d.get .orders id = some o' → (l.view d).get .orders id = some o' := by
    intro id o' ho'
    rw [h.view_get, ho', Option.some_or]
  have hnew : (l.view d).get .orders o.id = some o := by
    have hnone : d.get .orders o.id = none := Store.get_eq_none_iff.mpr hfresh
    rw [h.view_get, hnone, if_pos rfl, Option.none_or]
  have hnone : orderItems d o.id = [] := by
    apply List.filter_eq_nil_iff.mpr
    intro it hit
    obtain ⟨o', ho'⟩ := Option.isSome_iff_exists.mp (hbooks.lines it hit)
    have hid : o'.id = it.orderId := Store.id_of_get ho'
    have hne := hfresh o' (Store.mem_of_get ho')
    simpa [← hid] using hne
  have hkept : ∀ {id}, (d.get .orders id).isSome → ((l.view d).get .orders id).isSome := by
    intro id hid
    obtain ⟨o', ho'⟩ := Option.isSome_iff_exists.mp hid
    rw [hold id o' ho']
    rfl
  refine ⟨⟨fun it hit => ?_, fun q hq => ?_⟩, fun id o' ho' => hold id o' (hbooks.old id o' ho'),
    fun o' ho' hnew' => ?_, fun id j hj => ?_, fun id id' j hj hj' => ?_, fun call hcall => ?_⟩
  · have hmem : it ∈ d .orderItem ++ lines := by
      rw [← h.items, ← applyWrites_written h.inserts (.inr (.inl rfl))]
      exact hit
    rcases List.mem_append.mp hmem with hmem | hmem
    · exact hkept (hbooks.lines it hmem)
    · rw [lines_ofOrder h.forItems it hmem, hnew]
      rfl
  · rw [h.view_payments] at hq
    rcases List.mem_append.mp hq with hq | hq
    · exact hkept (hbooks.payments q hq)
    · obtain rfl := List.mem_singleton.mp hq
      rw [horder, hnew]
      rfl
  · rw [h.view_orders] at ho'
    rcases List.mem_append.mp ho' with ho' | ho'
    · obtain ⟨j, hj, hcharged'⟩ := hbooks.placed o' ho' hnew'
      have hne := hfresh o' ho'
      exact ⟨j, (if_neg hne).trans hj, hcharged'.entered h hne⟩
    · obtain rfl := List.mem_singleton.mp ho'
      exact ⟨i, if_pos rfl, h.chargedFor hchose hcharged horder hamount hnone⟩
  · dsimp only at hj
    split at hj
    · rename_i hid
      rw [hid, hnew]
      refine ⟨rfl, Option.eq_none_iff_forall_ne_some.mpr fun o' ho' => ?_⟩
      exact hfresh o' (Store.mem_of_get (hbooks.old _ o' ho')) (Store.id_of_get ho')
    · obtain ⟨hthere, hnone₀⟩ := hbooks.known id j hj
      exact ⟨hkept hthere, hnone₀⟩
  · dsimp only at hj hj'
    split at hj <;> split at hj'
    · rename_i hid hid'
      exact hid.trans hid'.symm
    · exact absurd (hj' ▸ hj.symm ▸ rfl) (hidle id')
    · exact absurd (hj ▸ hj'.symm ▸ rfl) (hidle id)
    · exact hbooks.one id id' j hj hj'
  · obtain ⟨o', ho', hplacer, hcall'⟩ := hbooks.calls call hcall
    refine ⟨o', ?_, (if_neg (hfresh o' ho')).trans hplacer, hcall'⟩
    rw [h.view_orders]
    exact List.mem_append_left _ ho'

theorem Entered.next (h : Entered lib o items lines [p] d l) (hv : (l.view d).Wf) (s : HostState) (x : OrderLog n) :
    (orderLog n).next i ⟨d, s⟩ ⟨l.view d, s⟩ x =
      ⟨fun id => if id = o.id then some i else x.placer id, x.calls⟩ := by
  have hplacer : (fun id => if (d.get .orders id).isNone ∧ ((l.view d).get .orders id).isSome then some i
      else x.placer id) = fun id => if id = o.id then some i else x.placer id := by
    funext id
    rw [h.view_get]
    by_cases hid : id = o.id
    · subst hid
      have hnone : d.get .orders o.id = none := Store.get_eq_none_iff.mpr (h.order_fresh hv)
      simp [hnone]
    · cases hget : d.get .orders id <;> simp [Ne.symm hid, hid]
  have hcalls : x.calls ++ (s.pspCalls.drop s.pspCalls.length).map (fun req => (i, req)) = x.calls := by
    rw [List.drop_length]
    exact List.append_nil _
  exact congr (congrArg OrderLog.mk hplacer) hcalls

theorem Entered.step (h : Entered lib o items lines [p] d l) : BooksStep d (l.view d) := by
  refine ⟨fun id o' ho' => ?_, fun c => ?_⟩
  · rw [h.view_get, ho', Option.some_or]
  · rw [Store.get, h.view_checkouts]
    rfl

end Order

/-! ## A request -/

section Actions
variable {A : Option ℤ}

/-- Statements on other tables, and on attempts, records and the payment that has been made. -/
abbrev Posts (A : Option ℤ) (a : ShopAction) : Prop := a.Keeps booksKept ∧ Asks A a ∧ a.Confined fun _ => True

theorem recordPaymentAttempt_posts (payId no st : ℕ) : (recordPaymentAttempt payId no st).Acts (Posts A) := by
  have hinsert : (insert .paymentAttempt fun m => (⟨m, payId, no, st, none⟩ : PaymentAttempt)).Acts (Posts A) := by
    apply Prog.Acts.bind (.call ⟨fun _ => trivial, trivial, fun _ => trivial⟩)
    intro r
    cases r <;> trivial
  exact hinsert.bind fun _ => trivial

theorem updatePaymentAttemptResp_posts (attemptId st : ℕ) (resp : Json) :
    (updatePaymentAttemptResp attemptId st resp).Acts (Posts A) := by
  have hupdate : (update .paymentAttempt (fun a : PaymentAttempt => a.id = attemptId)
      fun a : PaymentAttempt => { a with status := st, providerResponse := some resp }).Acts (Posts A) :=
    .call ⟨fun _ => trivial, trivial, fun _ _ => trivial⟩
  exact hupdate.bind fun _ => trivial

theorem sleep_posts (q : Rat) : (sleep q).Acts (Posts A) := .call ⟨trivial, trivial, trivial⟩

theorem retryWrapper_posts {func : Py PspResponse} (hfunc : func.Acts (Posts A)) (payId max : ℕ) (base : Rat)
    (attempts : List ℕ) (exc : Option (Exn AppErr)) :
    (retryWrapper func payId max base attempts exc).Acts (Posts A) := by
  induction attempts generalizing exc with
  | nil => trivial
  | cons no rest ih =>
    apply (recordPaymentAttempt_posts payId no _).bind
    intro attemptId
    have hretry : ∀ (st : ℕ) (resp : Json) (e : Exn AppErr) (q : Rat), (do
        updatePaymentAttemptResp attemptId st resp
        sleep q
        retryWrapper func payId max base rest (some e)).Acts (Posts A) := fun st resp e q =>
      (updatePaymentAttemptResp_posts attemptId st resp).bind fun _ => (sleep_posts q).bind fun _ => ih _
    apply Prog.Acts.bind
    · apply Prog.Acts.attempt
      apply hfunc.bind
      intro resp
      exact (updatePaymentAttemptResp_posts attemptId _ _).bind fun _ => trivial
    · intro r
      dsimp only
      split
      · trivial
      · exact hretry _ _ _ _
      · split
        · exact hretry _ _ _ _
        · exact (updatePaymentAttemptResp_posts attemptId _ _).bind fun _ => trivial
      · exact (updatePaymentAttemptResp_posts attemptId _ _).bind fun _ => trivial

theorem settlePspResult_posts (lib : Lib) (key : String) (orderData : OrderResponse) (pub : UUID) (payId : ℕ)
    (res : PspResult) : (settlePspResult lib key orderData pub payId res).Acts (Posts A) := by
  rw [settlePspResult]
  split
  · trivial
  · trivial
  · trivial
  · split
    · exact (recordPaymentAttempt_posts payId _ _).bind fun _ => trivial
    · have hprovider : ∀ providerOrderId, (updatePaymentStatusNprovider payId providerOrderId).Acts (Posts A) := by
        intro providerOrderId
        apply (ofApp_acts _).bind
        intro poid
        apply Prog.Acts.bind (.call ⟨fun _ => rfl, trivial, fun _ _ => trivial⟩)
        exact fun _ => trivial
      have hresponse : ∀ body, (updateIdempotentResponse key 200 body).Acts (Posts A) := by
        intro body
        apply Prog.Acts.bind (.call ⟨fun _ => trivial, trivial, fun _ _ => trivial⟩)
        exact fun _ => trivial
      apply (hprovider _).bind
      intro _
      apply (hresponse _).bind
      intro _
      exact Prog.Acts.bind (.call ⟨trivial, trivial, trivial⟩) fun _ => trivial

theorem createPaymentIntent_posts (lib : Lib) (key : String) (totals : FinalTotal)
    (orderData : OrderResponse) (pub : UUID) :
    (createPaymentIntent lib key totals orderData pub).Acts (Posts (some (totals.total * 100))) := by
  have hselect : (payIdByPublicPayid pub).Acts (Posts (some (totals.total * 100))) := by
    apply Prog.Acts.bind (.call ⟨trivial, trivial, trivial⟩)
    intro rows
    exact (oneOrNone_acts rows).bind fun _ => trivial
  apply hselect.bind
  intro o
  cases o with
  | none => trivial
  | some payId =>
    have hcall : (createPspOrder (pspRequest key totals orderData pub)).Acts (Posts (some (totals.total * 100))) :=
      .call ⟨trivial, rfl, trivial⟩
    exact (retryWrapper_posts hcall _ _ _ _ _).bind fun res => settlePspResult_posts lib key orderData pub payId res

/-- Within the open transaction, and without a call of the provider. -/
abbrev Enters (a : ShopAction) : Prop := a.Within ∧ Asks none a

theorem insert_enters {t : Table} (mk : ℕ → t.Row) (hmk : ∀ m, rowId (mk m) = m) : (insert t mk hmk).Acts Enters := by
  apply Prog.Acts.bind (.call ⟨trivial, trivial⟩)
  intro r
  cases r <;> trivial

theorem uuid7_enters : uuid7.Acts Enters := .call ⟨trivial, trivial⟩

theorem updateOrderIdempotencyRecord_within (lib : Lib) (userId ikId ownerId : ℕ) (code : Option ℕ)
    (body : Option (List (String × PyVal))) (ownerType : String) :
    (updateOrderIdempotencyRecord lib userId ikId ownerId code body ownerType).Acts Enters := by
  have hupdate : ∀ body, (do
      let _ ← update .idempotencyKey (fun k : IdempotencyKey => k.id = ikId && k.createdBy = userId)
        fun k : IdempotencyKey => { k with ownerId := some ownerId, ownerType := some ownerType,
                                           responseBody := body, responseCode := code }).Acts Enters := fun body =>
    Prog.Acts.bind (.call ⟨trivial, trivial⟩) fun _ => trivial
  unfold updateOrderIdempotencyRecord
  match body with
  | none => exact hupdate none
  | some [] => exact hupdate _
  | some (_ :: _) => exact (ofApp_acts _).bind fun body => hupdate body

theorem addOrderItems_within (lib : Lib) (orderId : ℕ) (items : List SnapshotItem) :
    (addOrderItems lib orderId items).Acts Enters := by
  induction items with
  | nil => trivial
  | cons it items ih => exact (insert_enters _ _).bind fun _ => ih

theorem placeOrderWithItems_within (lib : Lib) (userId : ℕ) (m : PaymentMethod) (totals : FinalTotal) (ik : ℕ) :
    (placeOrderWithItems lib userId m totals ik).Acts Enters := by
  apply uuid7_enters.bind
  intro u
  apply (insert_enters _ _).bind
  intro order
  apply (addOrderItems_within lib _ _).bind
  intro _
  dsimp only
  split
  · have hpayment : (recordPaymentInitPending order.id totals.total "razorpay").Acts Enters :=
      uuid7_enters.bind fun _ => (insert_enters _ _).bind fun _ => trivial
    apply hpayment.bind
    intro pub
    exact (updateOrderIdempotencyRecord_within lib _ _ _ _ _ _).bind fun _ => trivial
  · exact (updateOrderIdempotencyRecord_within lib _ _ _ _ _ _).bind fun _ => trivial

/-- Statements that write nothing of an order, and no checkout. -/
abbrev Asides (a : ShopAction) : Prop :=
  a.Keeps booksKept ∧ Asks none a ∧ a.Confined fun u => ¬IsEntry u.tbl ∧ u.tbl ≠ Table.checkoutSession

theorem sleep_aside {q : Rat} : (sleep q).Acts Asides := .call ⟨trivial, trivial, trivial⟩

theorem tryLock_aside (k : ℤ) : (Prog.call (.tryLock k : ShopAction)).Acts Asides := .call ⟨trivial, trivial, trivial⟩

theorem spcByIkey_aside (key : String) (userId : ℕ) : (spcByIkey key userId).Acts Asides := by
  apply Prog.Acts.bind (.call ⟨trivial, trivial, trivial⟩)
  intro rows
  apply (oneOrNone_acts rows).bind
  intro o
  cases o with
  | none => trivial
  | some k =>
    apply Prog.Acts.bind (.call ⟨trivial, trivial, trivial⟩)
    intro t
    split
    · trivial
    · split <;> trivial

theorem recordOrderIdempotency_aside (key : String) (userId csId : ℕ) :
    (recordOrderIdempotency key userId csId).Acts Asides := by
  apply Prog.Acts.bind (.call ⟨trivial, trivial, trivial⟩)
  intro t
  have hrecord : ¬IsEntry Table.idempotencyKey := by
    rintro (he | he | he) <;> cases he
  apply Prog.Acts.bind (.call ⟨fun _ => trivial, trivial, fun _ => ⟨hrecord, nofun⟩⟩)
  exact fun _ => trivial

end Actions

section Request
variable {req : ConfirmRequest} {items : List SnapshotItem} {m : PaymentMethod}

theorem confirmOrder_books (csId ikId : ℕ) (h : Choosing (reqs i) i x l items m sh.db) :
    Safe (booksProtocol lib reqs w₀) G i (fun _ _ _ _ => True) (confirmOrder lib (reqs i) csId items m ikId)
      sh x l := by
  obtain ⟨hun, hchose, hidle⟩ := h
  apply Safe.bind
  apply ((placeOrderWithItems_builds books_indifferent lib (reqs i).userIdentifier m items ikId hun).and
    (books_within (placeOrderWithItems_within lib _ m _ ikId))).mono
  rintro r sh₁ x₁ l₁ ⟨hbuilt, hstep, hsame⟩
  have hidle₁ : ∀ id, x₁.placer id ≠ some i := fun id he => hidle id ((hsame id).mp he)
  cases r with
  | error e => trivial
  | ok resp =>
    apply Safe.bind
    cases hlive : l₁.aborted with
    | true => exact Safe.of_aborted rfl hlive fun _ _ _ _ _ _ => trivial
    | false =>
      cases hbuilt hlive with
      | @charged _ o lines p _ _ hentered huser hcharged horder hamount hresp =>
      apply Safe.commit
      · intro w y hs _
        have hnow := hentered.seen hs
        have hidle₂ : ∀ id, y.placer id ≠ some i := fun id he => hidle₁ id ((hs.rely.2 id).mp he)
        obtain ⟨hbooks, hlog⟩ := hs.inv
        have hnew := hbooks.entered hnow hs.ok.wf ((hchose.later hstep).later hs.rely.1) hcharged horder hamount hidle₂
        have hnext : (booksProtocol lib reqs w₀).next i w.toShared ⟨l₁.view w.db, w.host⟩ y =
            ⟨fun id => if id = o.id then some i else y.placer id, y.calls⟩ := hnow.next hs.ok.wf w.host y
        have hinv : (booksProtocol lib reqs w₀).inv ⟨l₁.view w.db, w.host⟩
            ((booksProtocol lib reqs w₀).next i w.toShared ⟨l₁.view w.db, w.host⟩ y) := by
          rw [hnext]
          exact ⟨hnew, hlog⟩
        refine ⟨hinv, hnow.step, ?_⟩
        have howes : Owes i (o.total * 100) (l₁.view w.db)
            ((booksProtocol lib reqs w₀).next i w.toShared ⟨l₁.view w.db, w.host⟩ y) := by
          rw [hnext]
          refine ⟨o, ?_, if_pos rfl, Int.mul_comm _ _⟩
          exact Store.get_of_mem hs.ok.wf.ids (hnow.view_orders ▸ List.mem_append_right _ (List.mem_singleton.mpr rfl))
        dsimp only
        rw [hresp]
        have hposts : (createPaymentIntent lib (reqs i).idempotencyKey
            (computeFinalTotal lib items .UPI) resp p.publicId >>=
            fun orderPayRes => updateCheckoutActiveness csId >>= fun _ => Pure.pure (jsonOk orderPayRes)).Acts
              (Posts (some (o.total * 100))) := by
          rw [hcharged.total]
          apply (createPaymentIntent_posts lib _ _ resp _).bind
          intro body
          exact (updateCheckoutActiveness_keeps csId false _).bind fun _ => trivial
        apply Safe.mono fun _ _ _ _ _ => trivial
        apply books_kept hposts _ (fun _ _ => trivial)
        · intro amount ha
          exact Option.some.inj ha ▸ howes
        · rw [Txn.view_of_no_writes (l := l₁.committed) rfl]
          exact .refl _ _
      · exact fun _ _ _ _ _ _ _ => trivial

theorem confirmUnanswered_books (csId : ℕ) (h : Choosing (reqs i) i x l items m sh.db) :
    Safe (booksProtocol lib reqs w₀) G i (fun _ _ _ _ => True) (confirmUnanswered lib (reqs i) csId items m)
      sh x l := by
  apply choosing_bind (recordOrderIdempotency_aside _ _ _) h
  intro o sh₁ x₁ l₁ h₁
  cases o with
  | some ikId => exact confirmOrder_books csId ikId h₁
  | none =>
    apply choosing_bind sleep_aside h₁
    intro _ sh₂ x₂ l₂ h₂
    apply choosing_bind (spcByIkey_aside _ _) h₂
    intro r sh₃ x₃ l₃ h₃
    cases r with
    | none => trivial
    | some d =>
      dsimp only
      split
      · trivial
      · exact confirmOrder_books csId d.ikId h₃

theorem placeOrder_books (hidle : ∀ id, x.placer id ≠ some i) (hl : l.writes = []) :
    Safe (booksProtocol lib reqs w₀) G i (fun _ _ _ _ => True) (placeOrder lib (reqs i)) sh x l := by
  unfold placeOrder
  split
  · trivial
  · apply Safe.bind
    apply (validate_chooses hidle hl).mono
    intro r sh₁ x₁ l₁ hr
    cases r with
    | error e => trivial
    | ok res =>
      obtain ⟨csId, items, m⟩ := res
      have hr' : Choosing (reqs i) i x₁ l₁ items m sh₁.db := hr
      apply choosing_bind (tryLock_aside _) hr'
      intro _ sh₂ x₂ l₂ h₂
      apply choosing_bind (spcByIkey_aside _ _) h₂
      intro o sh₃ x₃ l₃ h₃
      cases o with
      | none => exact confirmUnanswered_books csId h₃
      | some d =>
        dsimp only
        split
        · trivial
        · split
          · trivial
          · exact confirmUnanswered_books csId h₃

end Request

end Protocol

/-! ## Runs -/

theorem Books.start (lib : Lib) (reqs : Fin n → ConfirmRequest) {d : Db} (hd : d.Wf) (href : Referenced d) :
    Books lib reqs d d ⟨fun _ => none, []⟩ := by
  refine ⟨href, fun _ _ h => h, fun o ho hnew => ?_, nofun, nofun, nofun⟩
  have hget : d.get .orders o.id = some o := Store.get_of_mem hd.ids ho
  rw [hget] at hnew
  cases hnew

/-- An order has one payment. -/
theorem one_payment {d : Db} (hd : d.Wf) {p p' : Payment} (hp : p ∈ d .payment) (hp' : p' ∈ d .payment)
    (h : p'.orderId = p.orderId) : p' = p := by
  have hkey : IndexKey.orderId p.orderId ∈ rowKeys (t := .payment) p' := by simp [rowKeys, h]
  exact hd.eq_of_key hp' hp hkey (by simp [rowKeys])

/-- In every run of secure-confirm requests each new order has the lines of the snapshot it was placed
from, their sum for its subtotal, and a payment of its total; a request to the provider is made for
the one order of its request, and asks for a hundred times the amount of the payment. -/
theorem order_money_chain (lib : Lib) (reqs : Fin n → ConfirmRequest) {w : World shop shopHost} (hw : w.Ok)
    (href : Referenced w.db) {s : Sys shop shopHost n (Except (Exn AppErr) Reply)} {x : OrderLog n}
    (hrun : Sys.Run (fun _ _ _ _ _ => True) (orderLog n) (confirmRequests lib reqs w) ⟨fun _ => none, []⟩ s x) :
    (∀ o : Orders, o ∈ s.world.db .orders → w.db.get .orders o.id = none →
      ∃ i, x.placer o.id = some i ∧ ChargedFor lib (reqs i) s.world.db o) ∧
    (∀ id id' i, x.placer id = some i → x.placer id' = some i → id = id') ∧
    s.world.host.pspCalls = w.host.pspCalls ++ x.calls.map Prod.snd ∧
    ∀ call ∈ x.calls, ∃ o : Orders, o ∈ s.world.db .orders ∧ w.db.get .orders o.id = none ∧
      x.placer o.id = some call.1 ∧
      ∀ p : Payment, p ∈ s.world.db .payment → p.orderId = o.id → call.2.amount = 100 * p.amount := by
  have hsafe : ∀ i, Safe (booksProtocol lib reqs w) (fun _ _ _ _ _ => True) i (fun _ _ _ _ => True)
      (placeOrder lib (reqs i)).session w.toShared ⟨fun _ => none, []⟩ {} := fun i =>
    Safe.session ((placeOrder_books (fun _ h => by cases h) rfl).mono fun _ _ _ _ _ _ _ _ => trivial)
  have hstart : (booksProtocol lib reqs w).inv w.toShared ⟨fun _ => none, []⟩ :=
    ⟨.start lib reqs hw.wf href, (List.append_nil _).symm⟩
  have hinv := Sys.Run.inv (P := booksProtocol lib reqs w) hrun (Sys.inv_start hw hstart hsafe)
  obtain ⟨hbooks, hlog⟩ := hinv.inv
  refine ⟨hbooks.placed, hbooks.one, hlog, fun call hcall => ?_⟩
  obtain ⟨o, ho, hplacer, hamount⟩ := hbooks.calls call hcall
  have hnew := (hbooks.known o.id call.1 hplacer).2
  obtain ⟨i, -, hcharged⟩ := hbooks.placed o ho hnew
  obtain ⟨q, hq, horder, htotal⟩ := hcharged.payment
  refine ⟨o, ho, hnew, hplacer, fun p hp hpo => ?_⟩
  obtain rfl := one_payment hinv.ok.world.wf hq hp (hpo.trans horder.symm)
  rw [hamount, htotal]

theorem order_money_chain_one : ∃ s x, ∃ o : Orders, ∃ p : Payment,
    Sys.Run (fun _ _ _ _ _ => True) (orderLog 1) (confirmRequests plainLib (fun _ => oneConfirm) oneCheckout)
      ⟨fun _ => none, []⟩ s x ∧ o ∈ s.world.db .orders ∧ ChargedFor plainLib oneConfirm s.world.db o ∧
    p.orderId = o.id ∧ s.world.host.pspCalls.map PspRequest.amount = [100 * p.amount] := by
  have hexec : ((confirmRequests plainLib (fun _ : Fin 1 => oneConfirm) oneCheckout).exec (fun _ _ _ _ _ => True)
      (ordering 0 ++ refusal 0)).map (fun s => s.world.host.pspCalls.length) = some 1 := by decide +kernel
  obtain ⟨s, hs, hone⟩ := Option.map_eq_some_iff.mp hexec
  obtain ⟨x, hrun⟩ := Sys.run_of_exec (orderLog 1) ⟨fun _ => none, []⟩ hs
  have href : Referenced oneCheckout.db := ⟨fun _ h => absurd h List.not_mem_nil, fun _ h => absurd h List.not_mem_nil⟩
  obtain ⟨hplaced, -, hlog, hcalls⟩ := order_money_chain plainLib _ oneCheckout_ok href hrun
  have hlog' : s.world.host.pspCalls = x.calls.map Prod.snd := hlog
  rw [hlog', List.length_map] at hone
  obtain ⟨call, hcall⟩ := List.length_eq_one_iff.mp hone
  obtain ⟨o, ho, hnew, -, hamount⟩ := hcalls call (hcall ▸ List.mem_singleton.mpr rfl)
  obtain ⟨i, -, hcharged⟩ := hplaced o ho hnew
  obtain ⟨p, hp, horder, -⟩ := hcharged.payment
  refine ⟨s, x, o, p, hrun, ho, hcharged, horder, ?_⟩
  rw [hlog', hcall]
  exact congrArg (fun a => [a]) (hamount p hp horder)

end Phyllonix
