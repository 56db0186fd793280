import Phyllonix.ConfirmProtocol

/-!
# The rows of an order

What placing an order adds to the open transaction: the row of the order, one line for each item
of the snapshot, and for an UPI order its payment. The rows of a cash-on-delivery order are built
as well, before the request fails.
-/

namespace Phyllonix
open Relational
variable {n : ℕ} {P : Protocol shop shopHost n} {G : Guard shop shopHost n} {i : Fin n}
variable {sh : Shared shop shopHost} {x : P.Val} {l : Txn shop}

/-- The protocol does not mind host steps other than those of the clock and the provider. -/
structure Indifferent (P : Protocol shop shopHost n) : Prop where
  inv : ∀ {sh : Shared shop shopHost} {s x}, s.pspCalls = sh.host.pspCalls → P.inv sh x → P.inv ⟨sh.db, s⟩ x
  next : ∀ i (sh : Shared shop shopHost) s x, s.pspCalls = sh.host.pspCalls → P.next i sh ⟨sh.db, s⟩ x = x
  guar : ∀ i l (sh : Shared shop shopHost) x s, s.pspCalls = sh.host.pspCalls → P.guar i l sh x ⟨sh.db, s⟩

theorem HostAct.step_pspCalls {a : HostAct} (ha : ∀ req, a ≠ .createPspOrder req) {c : HostChoice}
    {s s' : HostState} {r : Except AppErr a.Res} (h : a.step c s = some (r, s')) : s'.pspCalls = s.pspCalls := by
  cases a with
  | createPspOrder req => exact absurd rfl (ha req)
  | _ =>
    cases c <;> simp only [HostAct.step, Option.some.injEq, Prod.mk.injEq, reduceCtorEq] at h <;>
      obtain ⟨-, rfl⟩ := h <;> rfl

theorem Indifferent.safe_hostCall (hP : Indifferent P) {a : HostAct} (ha : ∀ req, a ≠ .createPspOrder req)
    {Q : Post P a.Res} (h : ∀ w y, Seen P i l sh x w y → ∀ c r s, a.step c w.host = some (r, s) →
      Q (r.mapError .app) ⟨w.db, s⟩ y l) : Safe P G i Q (hostCall a) sh x l := by
  apply Safe.host
  intro w y hs c r s hst
  have hcalls := HostAct.step_pspCalls ha hst
  have hn : P.next i w.toShared ⟨w.db, s⟩ y = y := hP.next i w.toShared s y hcalls
  rw [hn]
  exact ⟨hP.inv hcalls hs.inv, hP.guar i l w.toShared y s hcalls, h w y hs c r s hst⟩

theorem Indifferent.safe_uuid7 (hP : Indifferent P) {Q : Post P UUID}
    (h : ∀ w y, Seen P i l sh x w y → ∀ u s, Q (.ok u) ⟨w.db, s⟩ y l) : Safe P G i Q uuid7 sh x l := by
  apply hP.safe_hostCall fun _ he => by cases he
  intro w y hs c r s hst
  cases c <;> simp only [HostAct.step, Option.some.injEq, Prod.mk.injEq, reduceCtorEq] at hst
  obtain ⟨rfl, rfl⟩ := hst
  exact h w y hs _ _

theorem Indifferent.safe_now (hP : Indifferent P) {Q : Post P ℕ}
    (h : ∀ w y, Seen P i l sh x w y → Q (.ok w.host.clock) w.toShared y l) : Safe P G i Q now sh x l := by
  apply hP.safe_hostCall fun _ he => by cases he
  intro w y hs c r s hst
  cases c <;> simp only [HostAct.step, Option.some.injEq, Prod.mk.injEq, reduceCtorEq] at hst
  obtain ⟨rfl, rfl⟩ := hst
  exact h w y hs

/-! ## The rows -/

/-- The line of an order for an item of the snapshot. -/
structure LineOf (lib : Lib) (o : Orders) (it : SnapshotItem) (line : OrderItem) : Prop where
  order : line.orderId = o.id
  product : line.productId = it.productId
  quantity : line.quantity = it.quantity
  price : line.unitPriceSnapshot = it.prodBasePrice
  tax : line.taxSnapshot = lib.twoPercent (it.prodBasePrice * it.quantity)
  discount : line.discountSnapshot = 0

def IsEntry (t : Table) : Prop := t = .orders ∨ t = .orderItem ∨ t = .payment

/-- The transaction has inserted the order, a line for each of `done`, and the payments `ps`. -/
structure Entered (lib : Lib) (o : Orders) (done : List SnapshotItem) (lines : List OrderItem) (ps : List Payment)
    (d : Db) (l : Txn shop) : Prop where
  inserts : Inserts IsEntry l.writes d
  order : written Table.orders l.writes = [o]
  items : written Table.orderItem l.writes = lines
  forItems : List.Forall₂ (LineOf lib o) done lines
  payments : written Table.payment l.writes = ps
  checkouts : ∀ w ∈ l.writes, w.tbl ≠ Table.checkoutSession

/-- Nothing of an order has been written so far. -/
def Untouched (l : Txn shop) : Prop := ∀ w ∈ l.writes, ¬IsEntry w.tbl ∧ w.tbl ≠ .checkoutSession

section Entered
variable {lib : Lib} {o : Orders} {done : List SnapshotItem} {lines : List OrderItem} {ps : List Payment} {d : Db}

theorem Entered.seen (h : Entered lib o done lines ps sh.db l) {w : World shop shopHost} {y : P.Val}
    (hs : Seen P i l sh x w y) : Entered lib o done lines ps w.db l :=
  ⟨h.inserts.congr fun v hv => hs.still.row _ _ (hs.ok.locked v hv), h.order, h.items, h.forItems, h.payments,
    h.checkouts⟩

theorem Untouched.written_nil (h : Untouched l) {t : Table} (ht : IsEntry t) : written t l.writes = [] := by
  have hne : ∀ w ∈ l.writes, w.tbl ≠ t := fun w hw he => (h w hw).1 (he ▸ ht)
  have happ : written t (l.writes ++ []) = [] := written_append_of_untouched hne
  rwa [List.append_nil] at happ

theorem Untouched.start (h : Untouched l) (hfresh : (l.view d).get .orders o.id = none) :
    Entered lib o [] [] [] d (l.write .orders [] o) := by
  have hnil := fun t ht => h.written_nil (t := t) ht
  have hinserts : Inserts IsEntry l.writes d := by
    have hnone : Inserts IsEntry ([] : List (Write shop)) d := trivial
    have happ := hnone.append_untouched fun w hw => (h w hw).1
    rwa [List.append_nil] at happ
  refine ⟨⟨fun _ => hfresh, hinserts⟩, ?_, ?_, .nil, ?_, ?_⟩
  · rw [Txn.write, written_cons_self, hnil _ (.inl rfl)]
    rfl
  · rw [Txn.write, written_cons_of_ne (by decide), hnil _ (.inr (.inl rfl))]
  · rw [Txn.write, written_cons_of_ne (by decide), hnil _ (.inr (.inr rfl))]
  · intro w hw
    rcases List.mem_cons.mp hw with rfl | hw
    · simp
    · exact (h w hw).2

theorem Entered.addLine (h : Entered lib o done lines ps d l) {it : SnapshotItem} {line : OrderItem}
    (hline : LineOf lib o it line) (hfresh : (l.view d).get .orderItem line.id = none) :
    Entered lib o (done ++ [it]) (lines ++ [line]) ps d (l.write .orderItem [] line) := by
  refine ⟨⟨fun _ => hfresh, h.inserts⟩, ?_, ?_, ?_, ?_, ?_⟩
  · rw [Txn.write, written_cons_of_ne (by decide), h.order]
  · rw [Txn.write, written_cons_self, h.items]
  · exact List.rel_append h.forItems (.cons hline .nil)
  · rw [Txn.write, written_cons_of_ne (by decide), h.payments]
  · intro w hw
    rcases List.mem_cons.mp hw with rfl | hw
    · simp
    · exact h.checkouts w hw

theorem Entered.addPayment (h : Entered lib o done lines ps d l) {p : Payment}
    (hfresh : (l.view d).get .payment p.id = none) :
    Entered lib o done lines (ps ++ [p]) d (l.write .payment [] p) := by
  refine ⟨⟨fun _ => hfresh, h.inserts⟩, ?_, ?_, h.forItems, ?_, ?_⟩
  · rw [Txn.write, written_cons_of_ne (by decide), h.order]
  · rw [Txn.write, written_cons_of_ne (by decide), h.items]
  · rw [Txn.write, written_cons_self, h.payments]
  · intro w hw
    rcases List.mem_cons.mp hw with rfl | hw
    · simp
    · exact h.checkouts w hw

/-- Rows of another table may be written too. -/
theorem Entered.append (h : Entered lib o done lines ps d l) {ws : List (Write shop)} {l' : Txn shop}
    (hw : l'.writes = ws ++ l.writes) (hws : ∀ w ∈ ws, ¬IsEntry w.tbl ∧ w.tbl ≠ .checkoutSession) :
    Entered lib o done lines ps d l' := by
  have hne : ∀ {t : Table}, IsEntry t → ∀ w ∈ ws, w.tbl ≠ t := fun ht w hw he => (hws w hw).1 (he ▸ ht)
  refine ⟨?_, ?_, ?_, h.forItems, ?_, ?_⟩
  · rw [hw]
    exact h.inserts.append_untouched fun w hw => (hws w hw).1
  · rw [hw, written_append_of_untouched (hne (.inl rfl)), h.order]
  · rw [hw, written_append_of_untouched (hne (.inr (.inl rfl))), h.items]
  · rw [hw, written_append_of_untouched (hne (.inr (.inr rfl))), h.payments]
  · rw [hw]
    intro w hw
    rcases List.mem_append.mp hw with hw | hw
    · exact (hws w hw).2
    · exact h.checkouts w hw

end Entered

/-! ## Placing an order -/

section Place
variable {lib : Lib} {o : Orders} {done : List SnapshotItem} {lines : List OrderItem} {ps : List Payment}

/-- After a failed statement the transaction is aborted. -/
def orAborted {α : Type} (Q : α → Shared shop shopHost → P.Val → Txn shop → Prop) : Post P α
  | .ok a, sh, x, l => Q a sh x l
  | .error _, _, _, l => l.aborted = true

theorem orAborted_onError {α : Type} {Q : α → Shared shop shopHost → P.Val → Txn shop → Prop} :
    OnError (P := P) (orAborted Q) i sh x l :=
  fun _ _ _ _ _ hl => hl.aborted

theorem addOrderItems_enters {items : List SnapshotItem} (h : Entered lib o done lines ps sh.db l) :
    Safe P G i (orAborted fun _ sh' _ l' => ∃ lines', Entered lib o (done ++ items) lines' ps sh'.db l')
      (addOrderItems lib o.id items) sh x l := by
  induction items generalizing done lines sh x l with
  | nil =>
    rw [List.append_nil]
    exact Safe.pure ⟨lines, h⟩
  | cons it items ih =>
    rw [List.append_cons]
    apply Safe.bind
    apply safe_insert
    · intro w y hs m hm _
      apply ih
      apply (h.seen hs).addLine ⟨rfl, rfl, rfl, rfl, rfl, rfl⟩
      exact Store.get_eq_none_iff.mpr fun r hr => (hm r hr).ne
    · exact orAborted_onError

theorem updateOrderIdempotencyRecord_enters (userId ikId ownerId : ℕ) (ty : String)
    (h : Entered lib o done lines ps sh.db l) :
    Safe P G i (orAborted fun _ sh' _ l' => Entered lib o done lines ps sh'.db l')
      (updateOrderIdempotencyRecord lib userId ikId ownerId none none ty) sh x l := by
  apply Safe.bind
  apply Safe.pure
  apply Safe.bind
  apply Safe.update
  · intro w y hs l' hu
    apply Safe.pure
    apply (h.seen hs).append hu.writes
    intro v hv
    obtain ⟨k, -, rfl⟩ := List.mem_map.mp (List.mem_reverse.mp hv)
    refine ⟨fun he => ?_, nofun⟩
    rcases he with he | he | he <;> cases he
  · exact fun _ => orAborted_onError

/-- The rows that placing the order builds, and whether it is answered. -/
inductive Built (lib : Lib) (user : ℕ) (items : List SnapshotItem) : PaymentMethod →
    Except (Exn AppErr) OrderResponse → Db → Txn shop → Prop
  | charged {resp : OrderResponse} {o : Orders} {lines : List OrderItem} {p : Payment} {d : Db} {l : Txn shop}
      (hentered : Entered lib o items lines [p] d l) (huser : o.userId = some user)
      (hcharged : Charged lib o items .UPI) (horder : p.orderId = o.id) (hamount : p.amount = o.total)
      (hresp : resp.payPublicId = some p.publicId) : Built lib user items .UPI (.ok resp) d l
  | unanswered {e : Exn AppErr} {o : Orders} {lines : List OrderItem} {d : Db} {l : Txn shop}
      (hentered : Entered lib o items lines [] d l) (huser : o.userId = some user)
      (hcharged : Charged lib o items .COD) : Built lib user items .COD (.error e) d l

theorem placeOrderWithItems_builds (hP : Indifferent P) (lib : Lib) (user : ℕ) (m : PaymentMethod)
    (items : List SnapshotItem) (ik : ℕ) (h : Untouched l) :
    Safe P G i (fun r sh' _ l' => l'.aborted = false → Built lib user items m r sh'.db l')
      (placeOrderWithItems lib user m (computeFinalTotal lib items m) ik) sh x l := by
  have hlost : ∀ {Q : Prop} {l' : Txn shop}, l'.aborted = true → l'.aborted = false → Q := by
    intro Q l' hdead hlive
    rw [hdead] at hlive
    cases hlive
  apply Safe.bind
  apply hP.safe_uuid7
  intro w y hs u s
  apply Safe.bind
  apply safe_insert
  · intro w₁ y₁ hs₁ k hk _
    have hfresh : (l.view w₁.db).get .orders k = none := Store.get_eq_none_iff.mpr fun r hr => (hk r hr).ne
    apply Safe.bind
    apply (addOrderItems_enters (h.start hfresh)).mono
    intro r sh₂ x₂ l₂ hr
    cases r with
    | error e => exact hlost hr
    | ok _ =>
      obtain ⟨lines, hentered⟩ := hr
      cases m with
      | COD => exact fun _ => .unanswered hentered rfl ⟨rfl, rfl, rfl, rfl, rfl⟩
      | UPI =>
        apply Safe.bind
        apply Safe.bind
        apply hP.safe_uuid7
        intro w₃ y₃ hs₃ v t
        have hentered₃ : Entered lib _ items lines [] (⟨w₃.db, t⟩ : Shared shop shopHost).db l₂ := hentered.seen hs₃
        apply Safe.bind
        apply safe_insert
        · intro w₄ y₄ hs₄ q hq _
          have hfresh₄ : (l₂.view w₄.db).get .payment q = none :=
            Store.get_eq_none_iff.mpr fun r hr => (hq r hr).ne
          apply Safe.pure
          apply Safe.bind
          apply (updateOrderIdempotencyRecord_enters user ik _ "pay_now"
            ((hentered₃.seen hs₄).addPayment hfresh₄)).mono
          intro r sh₅ x₅ l₅ hr
          cases r with
          | error e => exact hlost hr
          | ok _ => exact fun _ => .charged hr rfl ⟨rfl, rfl, rfl, rfl, rfl⟩ rfl rfl rfl
        · exact fun w y hs e l' hl => hlost hl.aborted
  · exact fun w y hs e l' hl => hlost hl.aborted

end Place
end Phyllonix
