import Phyllonix.OrderViews
import Phyllonix.OrderEntries
import Phyllonix.UserIsolation

/-!
# Turns of the order book

Whatever a request commits is one turn of the order book that the store represents, or none. The
requests count on little of each other: orders stay with their lines, payments with the order
that the provider knows, and nobody else touches a payment before the provider has accepted it.
-/

namespace Phyllonix.Fulfilment
open Relational
variable {n : ℕ}

/-! ## What requests leave each other -/

structure Later (d d' : Db) : Prop where
  orders : ∀ o r, d.get .orders o = some r → ∃ r', d'.get .orders o = some r' ∧ r'.userId = r.userId
  items : ∀ o, (d.get .orders o).isSome → orderPairs d' o = orderPairs d o
  payments : ∀ k p, d.get .payment k = some p → ∃ p', d'.get .payment k = some p' ∧ p'.orderId = p.orderId ∧
    p'.provider = p.provider ∧ ∀ po, p.providerOrderId = some po → p'.providerOrderId = some po
  intents : ∀ k c, d.get .commitIntent k = some c → ∃ c', d'.get .commitIntent k = some c' ∧
    c'.aggregateId = c.aggregateId
  products : ∀ p, (d'.get .product p).isSome = (d.get .product p).isSome

theorem Later.refl (d : Db) : Later d d where
  orders _ r h := ⟨r, h, rfl⟩
  items _ _ := rfl
  payments _ p h := ⟨p, h, rfl, rfl, fun _ hpo => hpo⟩
  intents _ c h := ⟨c, h, rfl⟩
  products _ := rfl

theorem Later.isSome {d d' : Db} (h : Later d d') {o : ℕ} (ho : (d.get .orders o).isSome) :
    (d'.get .orders o).isSome := by
  obtain ⟨r, hr⟩ := Option.isSome_iff_exists.mp ho
  obtain ⟨r', hr', -⟩ := h.orders o r hr
  rw [hr']
  rfl

theorem Later.trans {d d' d'' : Db} (h : Later d d') (h' : Later d' d'') : Later d d'' := by
  constructor
  · intro o r hr
    obtain ⟨r', hr', huser⟩ := h.orders o r hr
    obtain ⟨r'', hr'', huser'⟩ := h'.orders o r' hr'
    exact ⟨r'', hr'', huser'.trans huser⟩
  · intro o ho
    rw [h'.items o (h.isSome ho), h.items o ho]
  · intro k p hp
    obtain ⟨p', hp', ho, hprov, hpo⟩ := h.payments k p hp
    obtain ⟨p'', hp'', ho', hprov', hpo'⟩ := h'.payments k p' hp'
    exact ⟨p'', hp'', ho'.trans ho, hprov'.trans hprov, fun po he => hpo' po (hpo po he)⟩
  · intro k c hc
    obtain ⟨c', hc', hagg⟩ := h.intents k c hc
    obtain ⟨c'', hc'', hagg'⟩ := h'.intents k c' hc'
    exact ⟨c'', hc'', hagg'.trans hagg⟩
  · exact fun p => (h'.products p).trans (h.products p)

/-- The tables of orders and the products. -/
def Watched (t : Table) : Prop := Booked t ∨ t = .product

instance (t : Table) : Decidable (Watched t) := inferInstanceAs (Decidable ((_ ∨ _ ∨ _ ∨ _ ∨ _) ∨ _))

theorem Later.of_same {d d' : Db} (h : ∀ t, Watched t → d' t = d t) : Later d d' := by
  have hget : ∀ t, Watched t → ∀ k, d'.get t k = d.get t k := by
    intro t ht k
    rw [Store.get, h t ht, Store.get]
  constructor
  · exact fun o r hr => ⟨r, (hget _ (by decide) o).trans hr, rfl⟩
  · intro o _
    rw [orderPairs, h .orderItem (by decide), orderPairs]
  · exact fun k p hp => ⟨p, (hget _ (by decide) k).trans hp, rfl, rfl, fun _ hpo => hpo⟩
  · exact fun k c hc => ⟨c, (hget _ (by decide) k).trans hc, rfl⟩
  · intro p
    rw [hget _ (by decide)]

/-! ## Who does what -/

/-- The notification reports that the payment stands at `p`. -/
def Reports (req : WebhookRequest) (p : Progress) : Prop :=
  ∃ payload event f st, req.json = some payload ∧ payload.get "event" .null = .ok event ∧
    paymentFields payload = .ok f ∧ payOrderStatusUtil f.pspPayStatus event = .ok st ∧
    st.paymentStatus = p.paymentStatus

/-- Orders are placed, and accepted by the provider, in confirmations of their users. They are settled by signed
notifications that name their provider order. Workers see to their goods. -/
inductive Does (lib : Lib) (d : Db) : ShopRequest → Operation → Prop
  | place {req : ConfirmRequest} {o : ℕ} {wants : ℕ → ℤ}
      (own : ∃ r, d.get .orders o = some r ∧ r.userId = some req.userIdentifier) :
      Does lib d (.secureConfirm req) (.place o wants)
  | accept {req : ConfirmRequest} {o : ℕ}
      (own : ∃ r, d.get .orders o = some r ∧ r.userId = some req.userIdentifier) :
      Does lib d (.secureConfirm req) (.accept o)
  | settle {req : WebhookRequest} {o : ℕ} {p : Progress} (signed : ∃ sig, Signed lib req sig)
      (reports : Reports req p) (named : ∃ k q, d.get .payment k = some q ∧ NamedBy req q ∧ q.orderId = o) :
      Does lib d (.webhook req) (.settle o p)
  | work {max k o : ℕ} {s : Stage} (intended : ∃ c, d.get .commitIntent k = some c ∧ c.aggregateId = o) :
      Does lib d (.commitIntent max (some k)) (.work o s)

theorem named_later {req : WebhookRequest} {p p' : Payment} (h : NamedBy req p) (hprov : p'.provider = p.provider)
    (hpo : ∀ po, p.providerOrderId = some po → p'.providerOrderId = some po) : NamedBy req p' := by
  obtain ⟨hrazorpay, payload, f, o, hjson, hfields, hf, ho⟩ := h
  exact ⟨hprov.trans hrazorpay, payload, f, o, hjson, hfields, hf, hpo o ho⟩

theorem Does.later {lib : Lib} {d d' : Db} {req : ShopRequest} {op : Operation} (h : Does lib d req op)
    (hlater : Later d d') : Does lib d' req op := by
  cases h with
  | place own =>
    obtain ⟨r, hr, huser⟩ := own
    obtain ⟨r', hr', huser'⟩ := hlater.orders _ r hr
    exact .place ⟨r', hr', huser'.trans huser⟩
  | accept own =>
    obtain ⟨r, hr, huser⟩ := own
    obtain ⟨r', hr', huser'⟩ := hlater.orders _ r hr
    exact .accept ⟨r', hr', huser'.trans huser⟩
  | settle signed reports named =>
    obtain ⟨k, q, hq, hnamed, ho⟩ := named
    obtain ⟨q', hq', ho', hprov, hpo⟩ := hlater.payments k q hq
    exact .settle signed reports ⟨k, q', hq', named_later hnamed hprov hpo, ho'.trans ho⟩
  | work intended =>
    obtain ⟨c, hc, hagg⟩ := intended
    obtain ⟨c', hc', hagg'⟩ := hlater.intents _ c hc
    exact .work ⟨c', hc', hagg'.trans hagg⟩

section Requests
variable {lib : Lib} {d : Db} {req : ShopRequest} {o : ℕ}

theorem Does.place_request {wants : ℕ → ℤ} (h : Does lib d req (.place o wants)) : ∃ confirm,
    req = .secureConfirm confirm ∧ ∃ r, d.get .orders o = some r ∧ r.userId = some confirm.userIdentifier := by
  cases h with
  | place own => exact ⟨_, rfl, own⟩

theorem Does.accept_request (h : Does lib d req (.accept o)) : ∃ confirm,
    req = .secureConfirm confirm ∧ ∃ r, d.get .orders o = some r ∧ r.userId = some confirm.userIdentifier := by
  cases h with
  | accept own => exact ⟨_, rfl, own⟩

theorem Does.settle_request {p : Progress} (h : Does lib d req (.settle o p)) : ∃ notification,
    req = .webhook notification ∧ (∃ sig, Signed lib notification sig) ∧ Reports notification p ∧
      ∃ k q, d.get .payment k = some q ∧ NamedBy notification q ∧ q.orderId = o := by
  cases h with
  | settle signed reports named => exact ⟨_, rfl, signed, reports, named⟩

theorem Does.work_request {g : Stage} (h : Does lib d req (.work o g)) : ∃ max k,
    req = .commitIntent max (some k) ∧ ∃ c, d.get .commitIntent k = some c ∧ c.aggregateId = o := by
  cases h with
  | work intended => exact ⟨_, _, rfl, intended⟩

end Requests

/-- What the request commits is a turn that it may do, or none. -/
def Turned (lib : Lib) (req : ShopRequest) (d d' : Db) : Prop :=
  ∀ f, Represents d f → Represents d' f ∨ ∃ f' op, Represents d' f' ∧ Turn f op f' ∧ Does lib d' req op

/-! ## The protocol -/

/-- The request that placed an order. -/
def placers (n : ℕ) : History shop shopHost n where
  Val := ℕ → Option (Fin n)
  next i sh sh' x o := if (sh.db.get .orders o).isNone ∧ (sh'.db.get .orders o).isSome then some i else x o

theorem placers_same {i : Fin n} {sh sh' : Shared shop shopHost} (x : ℕ → Option (Fin n))
    (h : sh'.db .orders = sh.db .orders) : (placers n).next i sh sh' x = x := by
  funext o
  have hget : sh'.db.get .orders o = sh.db.get .orders o := by rw [Store.get, h, Store.get]
  simp only [placers, hget]
  cases sh.db.get .orders o <;> rfl

theorem placers_known {i j : Fin n} {sh sh' : Shared shop shopHost} {x : ℕ → Option (Fin n)} {o : ℕ}
    (hknown : (sh.db.get .orders o).isSome) (h : x o = some j) : (placers n).next i sh sh' x o = some j := by
  simp only [placers]
  rw [if_neg (fun hnew => by simp [Option.isNone_iff_eq_none.mp hnew.1] at hknown), h]

structure Orderly (d : Db) (x : ℕ → Option (Fin n)) : Prop where
  book : ∃ f, Represents d f
  known : ∀ o i, x o = some i → (d.get .orders o).isSome

/-- A payment that the provider has not accepted is left alone by all but the request that placed its order. -/
def LeavesPending (mine : ℕ → Prop) (d d' : Db) : Prop :=
  ∀ k p, d.get .payment k = some p → p.status = PaymentStatus.pending.value → mine p.orderId →
    d'.get .payment k = some p

theorem LeavesPending.trans {mine mine' : ℕ → Prop} {d d' d'' : Db} (h : LeavesPending mine d d')
    (h' : LeavesPending mine' d' d'') (hmine : ∀ o, mine o → mine' o) : LeavesPending mine d d'' :=
  fun k p hp hpending ho => h' k p (h k p hp hpending ho) hpending (hmine _ ho)

def orderly (lib : Lib) (reqs : Fin n → ShopRequest) : Protocol shop shopHost n where
  toHistory := placers n
  inv sh x := Orderly sh.db x
  rely i _ sh x sh' x' := Later sh.db sh'.db ∧ (∀ o, x o = some i → x' o = some i) ∧
    LeavesPending (fun o => x o = some i) sh.db sh'.db
  guar i _ sh x sh' := Later sh.db sh'.db ∧ LeavesPending (fun o => x o ≠ some i) sh.db sh'.db ∧
    Turned lib (reqs i) sh.db sh'.db
  next_same _ _ x := placers_same x rfl
  rely_refl _ _ _ _ := ⟨.refl _, fun _ h => h, fun _ _ h _ _ => h⟩
  rely_trans h h' := ⟨h.1.trans h'.1, fun o ho => h'.2.1 o (h.2.1 o ho), h.2.2.trans h'.2.2 h.2.1⟩
  guar_same _ _ _ _ := ⟨.refl _, fun _ _ h _ _ => h, fun _ h => .inl h⟩
  compat := by
    intro i j l m sh x sh' hij _ hinv _ _ hg
    refine ⟨hg.1, fun o ho => placers_known (hinv.known o j ho) ho, fun k p hp hpending hmine => ?_⟩
    exact hg.2.1 k p hp hpending fun hi => hij (Option.some.inj (hi.symm.trans hmine))
  env_inv _ _ _ h := h
  env_rely _ _ _ _ _ _ := ⟨.refl _, fun _ h => h, fun _ _ h _ _ => h⟩

/-! ## Commits of requests -/

section Commits
variable {d d' : Db} {r : Orders} {p p' : Payment} {q : Progress} {lines : List OrderItem}
variable {intents : List CommitIntent} {events : List OutboxEvent} {mine : ℕ → Prop}

theorem Placed.later (h : Placed d d' r p lines) (hproducts : d' .product = d .product) : Later d d' := by
  constructor
  · exact fun o u hu => ⟨u, Store.get_append_some h.orders hu, rfl⟩
  · intro o ho
    have hne : o ≠ r.id := by
      rintro rfl
      rw [h.fresh] at ho
      cases ho
    rw [h.pairs, if_neg hne, List.append_nil]
  · exact fun k u hu => ⟨u, Store.get_append_some h.payments hu, rfl, rfl, fun _ hpo => hpo⟩
  · intro k c hc
    refine ⟨c, ?_, rfl⟩
    rw [Store.get, h.intents]
    exact hc
  · intro k
    rw [Store.get, hproducts, Store.get]

theorem Placed.stored (h : Placed d d' r p lines) (hd' : d'.Wf) : d'.get .orders r.id = some r := by
  apply Store.get_of_mem hd'.ids
  rw [h.orders]
  exact List.mem_append_right _ (List.mem_singleton.mpr rfl)

theorem Placed.stored_payment (h : Placed d d' r p lines) (hd' : d'.Wf) : d'.get .payment p.id = some p := by
  apply Store.get_of_mem hd'.ids
  rw [h.payments]
  exact List.mem_append_right _ (List.mem_singleton.mpr rfl)

theorem Placed.placer (h : Placed d d' r p lines) (hd' : d'.Wf) {i : Fin n} {s s' : HostState}
    {x : ℕ → Option (Fin n)} : (placers n).next i ⟨d, s⟩ ⟨d', s'⟩ x r.id = some i := by
  simp only [placers, h.fresh, h.stored hd', Option.isNone_none, Option.isSome_some, and_self, if_true]

theorem Placed.leaves (h : Placed d d' r p lines) : LeavesPending mine d d' :=
  fun _ _ hu _ _ => Store.get_append_some h.payments hu

theorem Moved.get_payment (h : Moved d d' p p' q intents events) (k : ℕ) :
    d'.get .payment k = if k = p.id then some p' else d.get .payment k := by
  rw [Store.get_putRow h.payments, ← h.id]
  rfl

theorem Moved.later (h : Moved d d' p p' q intents events) (hd : d.Wf)
    (horders : ∀ o u, d.get .orders o = some u → ∃ u', d'.get .orders o = some u' ∧ u'.userId = u.userId)
    (hprov : p'.provider = p.provider) (hpo : ∀ po, p.providerOrderId = some po → p'.providerOrderId = some po)
    (hproducts : d' .product = d .product) : Later d d' := by
  refine ⟨horders, fun o _ => ?_, fun k u hu => ?_, fun k c hc => ?_, fun k => ?_⟩
  · rw [orderPairs, h.items, orderPairs]
  · rw [h.get_payment]
    split
    · rename_i hk
      subst hk
      have hp : d.get .payment p.id = some p := Store.get_of_mem hd.ids h.stored
      obtain rfl : u = p := Option.some.inj (hu.symm.trans hp)
      exact ⟨p', rfl, h.order, hprov, hpo⟩
    · exact ⟨u, hu, rfl, rfl, fun _ he => he⟩
  · exact ⟨c, Store.get_append_some h.commitIntents hc, rfl⟩
  · rw [Store.get, hproducts, Store.get]

theorem Moved.leaves (h : Moved d d' p p' q intents events) (hd : d.Wf)
    (hp : p.status = PaymentStatus.pending.value → ¬mine p.orderId) : LeavesPending mine d d' := by
  intro k u hu hpending hmine
  rw [h.get_payment]
  split
  · rename_i hk
    subst hk
    have hstored : d.get .payment p.id = some p := Store.get_of_mem hd.ids h.stored
    obtain rfl : u = p := Option.some.inj (hu.symm.trans hstored)
    exact absurd hmine (hp hpending)
  · exact hu

end Commits

/-- The open transaction writes these rows of the tables of orders, and no other. -/
structure Moving (p : Payment) (rs : List Orders) (cs : List CommitIntent) (es : List OutboxEvent) (l : Txn shop) :
    Prop where
  payments : written Table.payment l.writes = [p]
  orders : written Table.orders l.writes = rs
  items : written Table.orderItem l.writes = []
  intents : written Table.commitIntent l.writes = cs
  events : written Table.outboxEvent l.writes = es
  products : written Table.product l.writes = []

section Moving
variable {rs : List Orders} {cs : List CommitIntent} {es : List OutboxEvent} {l l' : Txn shop}

theorem written_nil {t : Table} (hl : ∀ v ∈ l.writes, ¬Watched v.tbl) (ht : Watched t) : written t l.writes = [] :=
  written_of_untouched fun v hv he => hl v hv (he ▸ ht)

theorem Moving.start (hl : ∀ v ∈ l.writes, ¬Watched v.tbl) (hw : l'.writes = ⟨.payment, p⟩ :: l.writes) :
    Moving p [] [] [] l' := by
  constructor
  · rw [hw, written_cons_self, written_nil hl (by decide)]
    rfl
  all_goals
    rw [hw, written_cons_of_ne (by decide)]
    exact written_nil hl (by decide)

/-- Rows of other tables may be written too. -/
theorem Moving.append (h : Moving p rs cs es l) {ws : List (Write shop)} (hw : l'.writes = ws ++ l.writes)
    (hws : ∀ v ∈ ws, ¬Watched v.tbl) : Moving p rs cs es l' := by
  have hsame : ∀ t, Watched t → written t l'.writes = written t l.writes := by
    intro t ht
    rw [hw]
    exact written_append_of_untouched fun v hv he => hws v hv (he ▸ ht)
  exact ⟨(hsame _ (by decide)).trans h.payments, (hsame _ (by decide)).trans h.orders,
    (hsame _ (by decide)).trans h.items, (hsame _ (by decide)).trans h.intents,
    (hsame _ (by decide)).trans h.events, (hsame _ (by decide)).trans h.products⟩

theorem Moving.view_payments (h : Moving p rs cs es l) (d : Db) :
    l.view d .payment = putRow (S := shop) (t := .payment) p (d .payment) := by
  rw [Txn.view, applyWrites_rows, h.payments]
  rfl

theorem view_of_written_nil {t : Table} (h : written t l.writes = []) (d : Db) : l.view d t = d t := by
  rw [Txn.view, applyWrites_rows, h]
  rfl

end Moving

section Orderly
variable {lib : Lib} {reqs : Fin n → ShopRequest}

/-- After a turn the store represents an order book again. -/
theorem Orderly.next {i : Fin n} {d d' : Db} {s s' : HostState} {x : ℕ → Option (Fin n)} (h : Orderly d x)
    (hlater : Later d d') (hturned : Turned lib (reqs i) d d') :
    Orderly d' ((placers n).next i ⟨d, s⟩ ⟨d', s'⟩ x) := by
  refine ⟨?_, fun o j hj => ?_⟩
  · obtain ⟨f, hf⟩ := h.book
    rcases hturned f hf with hsame | ⟨f', op, hf', -⟩
    · exact ⟨f, hsame⟩
    · exact ⟨f', hf'⟩
  · simp only [placers] at hj
    split at hj
    · rename_i hnew
      exact hnew.2
    · exact hlater.isSome (h.known o j hj)

theorem safe_commit_turned {G : Guard shop shopHost n} {i : Fin n} {sh : Shared shop shopHost}
    {x : ℕ → Option (Fin n)} {l : Txn shop} {Q : Post (orderly lib reqs) Unit}
    (h : ∀ w y, Seen (orderly lib reqs) i l sh x w y → Later w.db (l.view w.db) ∧
      LeavesPending (fun o => y o ≠ some i) w.db (l.view w.db) ∧ Turned lib (reqs i) w.db (l.view w.db) ∧
      Q (.ok ()) ⟨l.view w.db, w.host⟩ ((placers n).next i w.toShared ⟨l.view w.db, w.host⟩ y) l.committed)
    (he : OnError (P := orderly lib reqs) Q i sh x l) : Safe (orderly lib reqs) G i Q (.call .commit) sh x l := by
  apply Safe.commit _ fun _ => he
  intro w y hs _
  obtain ⟨hlater, hleaves, hturned, hnext⟩ := h w y hs
  have hinv : Orderly w.db y := hs.inv
  exact ⟨hinv.next hlater hturned, ⟨hlater, hleaves, hturned⟩, hnext⟩

theorem orderly_watches : (orderly lib reqs).Watches Watched where
  inv := by
    intro sh sh' x hsame hinv
    obtain ⟨f, hf⟩ := hinv.book
    refine ⟨⟨f, hf.congr fun t ht => hsame t (.inl ht)⟩, fun o i ho => ?_⟩
    rw [Store.get, hsame .orders (by decide)]
    exact hinv.known o i ho
  next hsame := placers_same _ (hsame .orders (by decide))
  guar := by
    intro i l sh sh' x hsame
    refine ⟨.of_same hsame, fun k p hp _ _ => ?_, fun f hf => .inl (hf.congr fun t ht => hsame t (.inl ht))⟩
    rw [Store.get, hsame .payment (by decide)]
    exact hp

theorem orderly_quiet : Quiet (orderly lib reqs) where
  inv _ h := h
  next _ _ _ x := placers_same x rfl
  guar _ _ _ _ _ _ := ⟨.refl _, fun _ _ h _ _ => h, fun _ h => .inl h⟩

theorem orderly_indifferent : Indifferent (orderly lib reqs) where
  inv _ h := h
  next _ _ _ x _ := placers_same x rfl
  guar _ _ _ _ _ _ := ⟨.refl _, fun _ _ h _ _ => h, fun _ h => .inl h⟩

theorem orderly_commitsEvents {G : Guard shop shopHost n} {i : Fin n} : CommitsEvents (orderly lib reqs) G i := by
  intro sh x l hl
  apply Safe.commit_aside orderly_watches
  intro v hv
  rw [hl v hv]
  decide

/-- What a request knows of the store while it only looks. -/
theorem orderly_lasting {i : Fin n} {K : Db → Prop} (hlater : ∀ {d d' : Db}, Later d d' → K d → K d') :
    (orderly lib reqs).Lasting Watched i fun d _ => K d where
  rely h hk := hlater h.1 hk
  same hsame hk := hlater (.of_same hsame) hk

end Orderly
end Phyllonix.Fulfilment
