import Phyllonix.CatalogueCommits

/-!
# What the product handlers answer

A request that succeeds has done its operation on a committed version of the catalogue. A
refusal holds of a committed version, and a request that is refused, or that fails, commits
nothing.
-/

namespace Phyllonix.Products
open Relational
variable {n : ℕ}

/-! ## Answers -/

/-- What has to be so for a request to be refused with `e`. -/
inductive Refused (lib : ProductLib) (names : Set String) (c : Catalogue) : ProductRequest → AppErr → Prop
  | duplicate {user : ℕ} {uuid7 : UUID} {payload : ProductCreateIn}
      (taken : NameTaken c payload.name ∨ c uuid7 ≠ none) : Refused lib names c (.create user uuid7 payload)
        (.http 409 (.str "Product with same name already exists"))
  | uncategorized {user : ℕ} {uuid7 : UUID} {payload : ProductCreateIn} {name : String}
      (asked : name ∈ stripped (payload.categoryNames.getD [])) (unknown : name ∉ names) :
      Refused lib names c (.create user uuid7 payload) (.http 409 (.str "One or more categories do not exist"))
  | oversize {user : ℕ} {uuid7 : UUID} {payload : ProductCreateIn}
      (misfit : ¬(Int4 payload.basePrice ∧ Int4 payload.stockQty ∧ skuFits payload.sku = true)) :
      Refused lib names c (.create user uuid7 payload) .dataError
  | malformed {user : ℕ} {value : String} {payload : ProductUpdateIn} (bad : lib.uuidOf value = none) :
      Refused lib names c (.update user value payload) (.http 400 (.str "Invalid product_public_id"))
  | missing {user : ℕ} {value : String} {payload : ProductUpdateIn} {absent : List String}
      (nonempty : absent ≠ [])
      (isAbsent : ∀ name,
        name ∈ absent ↔ name ∈ stripped (payload.categoryNames.join.getD []) ∧ name ∉ names) :
      Refused lib names c (.update user value payload)
        (.http 422 (.str ("Categories not found: " ++ lib.listText absent)))
  | unlisted {user : ℕ} {value : String} {payload : ProductUpdateIn} {u : UUID} (read : lib.uuidOf value = some u)
      (gone : ∀ e, c u = some e → e.deletedAt ≠ none) :
      Refused lib names c (.update user value payload) (.http 404 (.str "Product not found"))
  | foreign {user : ℕ} {value : String} {payload : ProductUpdateIn} {u : UUID} {e : Listing}
      (read : lib.uuidOf value = some u) (listed : c u = some e) (other : e.owner ≠ some user) :
      Refused lib names c (.update user value payload) (.http 403 (.str "Not authorized to update."))
  | misfit {user : ℕ} {value : String} {payload : ProductUpdateIn}
      (unfit : payload.bound = false ∨ payload.refused = some (.app .dataError)) :
      Refused lib names c (.update user value payload) .dataError

/-- The operation is the one commit of the request, or it has changed nothing. -/
def TookEffect (d₀ : Db) (i : Fin n) (o : Operation) (x : List (Commit products n)) : Prop :=
  ∃ es d', Step (catalogue (Ledger.lastStore d₀ es)) o (catalogue d') ∧
    (⟨i, Ledger.lastStore d₀ es, d'⟩ :: es <:+ x ∨
      es <:+ x ∧ d' = Ledger.lastStore d₀ es ∧ Ledger.commitsOf i x = [])

/-- The request committed nothing, and a refusal held of a version of the catalogue. -/
structure Turned (lib : ProductLib) (d₀ : Db) (i : Fin n) (req : ProductRequest) (e : Exn AppErr)
    (x : List (Commit products n)) : Prop where
  quiet : Ledger.commitsOf i x = []
  why : ∀ a, e = .app a → ∃ es, es <:+ x ∧ Refused lib (known d₀) (catalogue (Ledger.lastStore d₀ es)) req a

def Explained (lib : ProductLib) (d₀ : Db) (i : Fin n) (req : ProductRequest) :
    Except (Exn AppErr) Reply → List (Commit products n) → Prop
  | .ok reply, x => ∃ o, Does lib (known d₀) req o ∧ reply = answer o ∧ TookEffect d₀ i o x
  | .error e, x => Turned lib d₀ i req e x

section Stable
variable {lib : ProductLib} {reqs : Fin n → ProductRequest} {names : Set String} {d₀ d d' : Db} {i : Fin n}
variable {x x' : List (Commit products n)} {p : Commit products n → Prop} {req : ProductRequest}

theorem TookEffect.later {o : Operation} (h : TookEffect d₀ i o x)
    (hx : (ledger lib names reqs).Later p x d x' d') (hp : ∀ e, p e → e.proc ≠ i) :
    TookEffect d₀ i o x' := by
  obtain ⟨es, d₁, hstep, hwhere⟩ := h
  refine ⟨es, d₁, hstep, ?_⟩
  rcases hwhere with hsuf | ⟨hsuf, hsame, hquiet⟩
  · exact .inl (hsuf.trans hx.suffix)
  · exact .inr ⟨hsuf.trans hx.suffix, hsame, (hx.commitsOf hp).trans hquiet⟩

theorem Turned.later {e : Exn AppErr} (h : Turned lib d₀ i req e x)
    (hx : (ledger lib names reqs).Later p x d x' d') (hp : ∀ e, p e → e.proc ≠ i) :
    Turned lib d₀ i req e x' := by
  refine ⟨(hx.commitsOf hp).trans h.quiet, fun a ha => ?_⟩
  obtain ⟨es, hsuf, hrefused⟩ := h.why a ha
  exact ⟨es, hsuf.trans hx.suffix, hrefused⟩

theorem Explained.later {r : Except (Exn AppErr) Reply} (h : Explained lib d₀ i req r x)
    (hx : (ledger lib names reqs).Later p x d x' d') (hp : ∀ e, p e → e.proc ≠ i) :
    Explained lib d₀ i req r x' := by
  cases r with
  | error e => exact Turned.later h hx hp
  | ok reply =>
    obtain ⟨o, hdoes, hreply, heffect⟩ := h
    exact ⟨o, hdoes, hreply, heffect.later hx hp⟩

end Stable

/-! ## A request before its commit -/

/-- The log up to now, with no commit of the request. -/
structure Waiting (lib : ProductLib) (d₀ : Db) (reqs : Fin n → ProductRequest) (i : Fin n)
    (sh : Shared products productHost) (x : List (Commit products n)) : Prop where
  logged : (ledger lib (known d₀) reqs).Logged d₀ x sh.db
  quiet : Ledger.commitsOf i x = []

/-- Errors are explained; a result satisfies `K`. -/
def OrTurned {α : Type} (lib : ProductLib) (d₀ : Db) (reqs : Fin n → ProductRequest) (i : Fin n)
    (K : α → Shared products productHost → List (Commit products n) → Txn products → Prop) :
    Post (ledgerProtocol (H := productHost) (ledger lib (known d₀) reqs) d₀) α
  | .ok a, sh, x, l => K a sh x l
  | .error e, _, x, _ => Turned lib d₀ i (reqs i) e x

section Waits
variable {lib : ProductLib} {reqs : Fin n → ProductRequest} {d₀ : Db} {i : Fin n} {α β : Type}
variable {sh : Shared products productHost} {x y : List (Commit products n)} {l : Txn products}
variable {w : World products productHost} {G : Guard products productHost n}

theorem Waiting.seen (h : Waiting lib d₀ reqs i sh x)
    (hs : Seen (ledgerProtocol (ledger lib (known d₀) reqs) d₀) i l sh x w y) :
    Waiting lib d₀ reqs i w.toShared y :=
  ⟨hs.inv, (hs.rely.commitsOf fun _ he => he.1).trans h.quiet⟩

theorem Waiting.turned (h : Waiting lib d₀ reqs i sh x) {e : Exn AppErr}
    (hwhy : ∀ a, e = .app a → Refused lib (known d₀) (catalogue sh.db) (reqs i) a) :
    Turned lib d₀ i (reqs i) e x := by
  refine ⟨h.quiet, fun a ha => ⟨x, List.suffix_refl x, ?_⟩⟩
  rw [h.logged.last]
  exact hwhy a ha

theorem Waiting.refused (h : Waiting lib d₀ reqs i sh x) {a : AppErr}
    (hwhy : Refused lib (known d₀) (catalogue sh.db) (reqs i) a) : Turned lib d₀ i (reqs i) (.app a) x := by
  refine h.turned fun b hb => ?_
  cases hb
  exact hwhy

/-- Statements that fail refuse nothing. -/
theorem Waiting.onError (h : Waiting lib d₀ reqs i sh x)
    {K : α → Shared products productHost → List (Commit products n) → Txn products → Prop} :
    OnError (OrTurned lib d₀ reqs i K) i sh x l := by
  intro w y hs e l' _
  refine (h.seen hs).turned fun a ha => ?_
  exact absurd ha (e.2 a)

theorem Safe.turned_bind
    {K : α → Shared products productHost → List (Commit products n) → Txn products → Prop}
    {K' : β → Shared products productHost → List (Commit products n) → Txn products → Prop}
    {p : Py α} {f : α → Py β}
    (hp : Safe (ledgerProtocol (ledger lib (known d₀) reqs) d₀) G i (OrTurned lib d₀ reqs i K) p sh x l)
    (hf : ∀ a sh x l, K a sh x l →
      Safe (ledgerProtocol (ledger lib (known d₀) reqs) d₀) G i (OrTurned lib d₀ reqs i K') (f a) sh x l) :
    Safe (ledgerProtocol (ledger lib (known d₀) reqs) d₀) G i (OrTurned lib d₀ reqs i K') (p >>= f) sh x l := by
  apply Safe.bind
  apply hp.mono
  intro r sh x l hr
  cases r with
  | error e => exact hr
  | ok a => exact hf a sh x l hr

theorem now_safe {K : ℕ → Shared products productHost → List (Commit products n) → Txn products → Prop}
    (h : ∀ w y, Seen (ledgerProtocol (ledger lib (known d₀) reqs) d₀) i l sh x w y →
      ∀ t, K t w.toShared y l) :
    Safe (ledgerProtocol (ledger lib (known d₀) reqs) d₀) G i (OrTurned lib d₀ reqs i K) now sh x l := by
  apply Safe.host_logged
  intro w y hs c r s hst
  cases hst
  exact h w y hs _

theorem select_safe {t : Table} {p : t.Row → Bool}
    {K : List t.Row → Shared products productHost → List (Commit products n) → Txn products → Prop}
    (hx : Waiting lib d₀ reqs i sh x)
    (h : ∀ w y, Seen (ledgerProtocol (ledger lib (known d₀) reqs) d₀) i l sh x w y →
      K ((l.view w.db t).filter p) w.toShared y l) :
    Safe (ledgerProtocol (ledger lib (known d₀) reqs) d₀) G i (OrTurned lib d₀ reqs i K) (select t p) sh x l :=
  Safe.read h fun _ => hx.onError

theorem selectForUpdate_safe {t : Table} {p : t.Row → Bool}
    {K : List t.Row → Shared products productHost → List (Commit products n) → Txn products → Prop}
    (hx : Waiting lib d₀ reqs i sh x)
    (h : ∀ w y, Seen (ledgerProtocol (ledger lib (known d₀) reqs) d₀) i l sh x w y →
      ∀ l', K ((l.view w.db t).filter p) w.toShared y l') :
    Safe (ledgerProtocol (ledger lib (known d₀) reqs) d₀) G i (OrTurned lib d₀ reqs i K)
      (selectForUpdate t p) sh x l :=
  Safe.lock (fun w y hs _ => h w y hs _) fun _ => hx.onError

/-- At most one row is found. -/
theorem oneOrNone_safe {rows : List α}
    {K : Option α → Shared products productHost → List (Commit products n) → Txn products → Prop}
    (hone : rows.length ≤ 1) (h : K rows.head? sh x l) :
    Safe (ledgerProtocol (ledger lib (known d₀) reqs) d₀) G i (OrTurned lib d₀ reqs i K)
      (oneOrNone rows) sh x l := by
  cases rows with
  | nil => exact h
  | cons a rows =>
    cases rows with
    | nil => exact h
    | cons b rows => simp at hone

theorem Waiting.known_eq (h : Waiting lib d₀ reqs i sh x) : known sh.db = known d₀ :=
  known_kept (logged_kept h.logged)

theorem Waiting.namesOf_eq (h : Waiting lib d₀ reqs i sh x) (cids : List ℕ) :
    namesOf sh.db cids = namesOf d₀ cids := by
  simp only [namesOf, (logged_kept h.logged).categories]

end Waits

/-! ## Updating -/

theorem mem_missing {d : Db} {names : List String} {name : String} :
    (name ∈ names.filter fun name => ((d .productCategory).filter fun c : ProductCategory =>
      c.name ∈ names).all fun c : ProductCategory => c.name ≠ name) ↔ name ∈ names ∧ name ∉ known d := by
  simp only [List.mem_filter, List.all_eq_true, decide_eq_true_eq, and_congr_right_iff]
  intro hname
  constructor
  · rintro hall ⟨c, hc, rfl⟩
    exact hall c ⟨hc, hname⟩ rfl
  · rintro hno c ⟨hc, -⟩ heq
    exact hno ⟨c, hc, heq⟩

/-- The product that a request has found. -/
def Found (u : UUID) (f : FoundProduct) (d : Db) : Prop :=
  ∃ p : Product, d.get .product f.productId = some p ∧ p.publicId = u ∧ p.ownerId = f.productOwnerId ∧
    p.deletedAt = none

theorem Found.kept {u : UUID} {f : FoundProduct} {d d' : Db} (h : Found u f d) (hd : Kept d d') : Found u f d' := by
  obtain ⟨p, hp, hu, howner, hdel⟩ := h
  obtain ⟨p', hp', hpid, howner', -, hdel'⟩ := hd.rows _ p hp
  exact ⟨p', hp', hpid.trans hu, howner'.trans howner, hdel'.trans hdel⟩

theorem patchable_filter {user productId : ℕ} {d : Db} {p : Product} (hd : d.Wf)
    (hp : d.get .product productId = some p) (howner : p.ownerId = some user) (hdel : p.deletedAt = none) :
    (d .product).filter (Product.patchable user productId) = [p] := by
  have hid : p.id = productId := Store.id_of_get hp
  have hmem := Store.mem_of_get hp
  have hnd : ((d .product).filter (Product.patchable user productId)).Nodup := (hd.ids .product).of_map.filter _
  apply List.perm_singleton.mp
  rw [List.perm_ext_iff_of_nodup hnd (List.nodup_singleton p)]
  intro q
  rw [List.mem_singleton, List.mem_filter]
  constructor
  · rintro ⟨hq, hpatchable⟩
    simp only [Product.patchable, Bool.and_eq_true, decide_eq_true_eq] at hpatchable
    exact product_of_id hd hq hmem (hpatchable.1.1.trans hid.symm)
  · rintro rfl
    exact ⟨hmem, by simp [Product.patchable, hid, howner, hdel]⟩

/-- The transaction has written the new version of the product, and nothing else. -/
structure Patching (u : UUID) (user : ℕ) (payload : ProductUpdateIn) (t : ℕ) (p : Product) (d : Db)
    (l : Txn products) : Prop where
  get : d.get .product p.id = some p
  publicId : p.publicId = u
  owner : p.ownerId = some user
  kept : p.deletedAt = none
  writes : l.writes = [⟨.product, p.patch payload t⟩]

section Update
variable {lib : ProductLib} {reqs : Fin n → ProductRequest} {d₀ : Db} {i : Fin n}
variable {sh : Shared products productHost} {x y : List (Commit products n)} {l : Txn products}
variable {w : World products productHost} {G : Guard products productHost n}
variable {user : ℕ} {value : String} {payload : ProductUpdateIn} {u : UUID} {p : Product} {t : ℕ}

theorem Patching.seen (h : Patching u user payload t p sh.db l)
    (hs : Seen (ledgerProtocol (ledger lib (known d₀) reqs) d₀) i l sh x w y) :
    Patching u user payload t p w.db l := by
  have hlock : Lock.row (S := products) .product p.id ∈ l.locks := by
    have hmem : (⟨.product, p.patch payload t⟩ : Write products) ∈ l.writes := by
      rw [h.writes]
      exact List.mem_cons_self
    exact hs.ok.locked _ hmem
  exact ⟨(hs.still.row _ _ hlock).trans h.get, h.publicId, h.owner, h.kept, h.writes⟩

theorem validateCategoriesByNames_safe (hreq : reqs i = .update user value payload)
    (hx : Waiting lib d₀ reqs i sh x) (hl : l.writes = []) :
    Safe (ledgerProtocol (ledger lib (known d₀) reqs) d₀) G i
      (OrTurned lib d₀ reqs i fun _ sh x l => Waiting lib d₀ reqs i sh x ∧ l.writes = [] ∧
        ∀ name ∈ stripped (payload.categoryNames.join.getD []), name ∈ known d₀)
      (validateCategoriesByNames lib payload.categoryNames.join) sh x l := by
  rw [validateCategoriesByNames]
  split
  · rename_i hnone
    refine ⟨hx, hl, fun name hname => ?_⟩
    rw [hnone] at hname
    cases hname
  · apply Safe.turned_bind (K := fun rows sh x l => Waiting lib d₀ reqs i sh x ∧ l.writes = [] ∧
      rows = (sh.db .productCategory).filter fun c : ProductCategory =>
        c.name ∈ stripped (payload.categoryNames.join.getD []))
    · apply select_safe hx
      intro w y hs
      refine ⟨hx.seen hs, hl, ?_⟩
      rw [Txn.view_of_no_writes hl]
    · rintro rows sh x l ⟨hx, hl, rfl⟩
      dsimp only
      split
      · rename_i hmissing
        refine hx.refused ?_
        rw [hreq]
        refine .missing hmissing fun name => ?_
        rw [mem_missing, hx.known_eq]
      · rename_i hnone
        refine ⟨hx, hl, fun name hname => ?_⟩
        by_contra hno
        rw [← hx.known_eq] at hno
        have hmem := mem_missing.mpr ⟨hname, hno⟩
        rw [not_not.mp hnone] at hmem
        cases hmem

theorem findProductByPid_safe (hreq : reqs i = .update user value payload) (hread : lib.uuidOf value = some u)
    (hx : Waiting lib d₀ reqs i sh x) (hl : l.writes = []) :
    Safe (ledgerProtocol (ledger lib (known d₀) reqs) d₀) G i
      (OrTurned lib d₀ reqs i fun f sh x l => Waiting lib d₀ reqs i sh x ∧ l.writes = [] ∧ sh.db.Wf ∧
        Found u f sh.db)
      (findProductByPid u) sh x l := by
  rw [findProductByPid]
  apply Safe.turned_bind (K := fun rows sh x l => Waiting lib d₀ reqs i sh x ∧ l.writes = [] ∧ sh.db.Wf ∧
    rows = (sh.db .product).filter fun p : Product => p.publicId = u && p.deletedAt.isNone)
  · apply select_safe hx
    intro w y hs
    refine ⟨hx.seen hs, hl, hs.world.wf, ?_⟩
    rw [Txn.view_of_no_writes hl]
  · rintro rows sh x l ⟨hx, hl, hwf, rfl⟩
    have hone : ∀ p ∈ (sh.db .product).filter fun p : Product => p.publicId = u && p.deletedAt.isNone,
        (sh.db .product).filter (fun p : Product => p.publicId = u && p.deletedAt.isNone) = [p] := by
      intro p hp
      obtain ⟨hmem, hpid⟩ := List.mem_filter.mp hp
      apply hwf.filter_key (S := products) (t := .product) hmem hpid (k := .publicId u)
      intro q hq
      simp only [Bool.and_eq_true, decide_eq_true_eq] at hq
      rw [← hq.1]
      exact List.mem_cons_self
    apply Safe.turned_bind (K := fun o sh' x' l' => sh' = sh ∧ x' = x ∧ l' = l ∧
      o = ((sh.db .product).filter fun p : Product => p.publicId = u && p.deletedAt.isNone).head?)
    · refine oneOrNone_safe ?_ ⟨rfl, rfl, rfl, rfl⟩
      cases hrows : (sh.db .product).filter fun p : Product => p.publicId = u && p.deletedAt.isNone with
      | nil => simp
      | cons p rows =>
        have hp := hone p (by rw [hrows]; exact List.mem_cons_self)
        rw [← hrows, hp]
        simp
    · rintro o sh' x' l' ⟨rfl, rfl, rfl, rfl⟩
      cases hhead : ((sh'.db .product).filter fun p : Product => p.publicId = u && p.deletedAt.isNone).head? with
      | none =>
        refine hx.refused ?_
        rw [hreq]
        refine .unlisted hread fun e he => ?_
        obtain ⟨p, hp, hpid, rfl⟩ := (catalogue_eq_some hwf).mp he
        intro hdel
        have hdel' : p.deletedAt = none := hdel
        have hmem : p ∈ (sh'.db .product).filter fun p : Product => p.publicId = u && p.deletedAt.isNone :=
          List.mem_filter.mpr ⟨hp, by simp [hpid, hdel']⟩
        rw [List.head?_eq_none_iff.mp hhead] at hmem
        cases hmem
      | some p =>
        obtain ⟨hmem, hpid⟩ := List.mem_filter.mp (List.mem_of_head? hhead)
        simp only [Bool.and_eq_true, decide_eq_true_eq, Option.isNone_iff_eq_none] at hpid
        have hget : sh'.db.get .product p.id = some p :=
          Store.get_of_mem (S := products) (t := .product) hwf.ids hmem
        exact ⟨hx, hl, hwf, p, hget, hpid.1, rfl, hpid.2⟩

/-- What `refused` raises is explained. -/
theorem refused_turned (hreq : reqs i = .update user value payload) (hx : Waiting lib d₀ reqs i sh x)
    {e : Exn AppErr} (he : payload.refused = some e) : Turned lib d₀ i (reqs i) e x := by
  refine hx.turned fun a ha => ?_
  subst ha
  rw [hreq]
  rw [ProductUpdateIn.refused] at he
  have hdata : AppErr.dataError = a := by
    split at he
    · cases he
    split at he
    · cases he
      rfl
    · cases he
  subst hdata
  exact .misfit (.inr (by rw [ProductUpdateIn.refused]; exact he))

theorem patchProduct_safe {productId : ℕ} (hreq : reqs i = .update user value payload)
    (hx : Waiting lib d₀ reqs i sh x) (hl : l.writes = []) (hfound : Found u ⟨productId, some user⟩ sh.db) :
    Safe (ledgerProtocol (ledger lib (known d₀) reqs) d₀) G i
      (OrTurned lib d₀ reqs i fun pid sh x l => Waiting lib d₀ reqs i sh x ∧ pid = u ∧
        payload.refused = none ∧ payload.bound = true ∧ ∃ t p, Patching u user payload t p sh.db l)
      (patchProduct payload user productId) sh x l := by
  rw [patchProduct]
  apply Safe.turned_bind (K := fun _ sh x l => Waiting lib d₀ reqs i sh x ∧ l.writes = [] ∧
    Found u ⟨productId, some user⟩ sh.db)
  · apply now_safe
    intro w y hs t
    exact ⟨hx.seen hs, hl, hfound.kept (later_kept hs.rely)⟩
  rintro t sh x l ⟨hx, hl, hfound⟩
  split
  · rename_i hunbound
    refine hx.refused ?_
    rw [hreq]
    exact .misfit (.inl (by simpa using hunbound))
  rename_i hbound
  split
  · rename_i e he
    apply Safe.turned_bind (K := fun rows sh x _ => Waiting lib d₀ reqs i sh x ∧ rows ≠ [])
    · apply selectForUpdate_safe hx
      intro w y hs l'
      obtain ⟨p, hp, -, howner, hdel⟩ := hfound.kept (later_kept hs.rely)
      rw [Txn.view_of_no_writes hl, patchable_filter hs.world.wf hp howner hdel]
      exact ⟨hx.seen hs, List.cons_ne_nil _ _⟩
    · rintro rows sh x l ⟨hx, hrows⟩
      cases rows with
      | nil => exact absurd rfl hrows
      | cons p rows => exact refused_turned hreq hx he
  · rename_i hnone
    apply Safe.turned_bind (K := fun rows sh x l => Waiting lib d₀ reqs i sh x ∧ ∃ p,
      rows = [Product.patch payload t p] ∧ Patching u user payload t p sh.db l)
    · apply Safe.update
      · intro w y hs l' hu
        obtain ⟨p, hp, hpid, howner, hdel⟩ := hfound.kept (later_kept hs.rely)
        have hid : p.id = productId := Store.id_of_get hp
        rw [Txn.view_of_no_writes hl, patchable_filter hs.world.wf hp howner hdel] at hu ⊢
        refine ⟨hx.seen hs, p, rfl, hid.symm ▸ hp, hpid, howner, hdel, ?_⟩
        rw [hu.writes, hl]
        rfl
      · exact fun _ => hx.onError
    · rintro rows sh x l ⟨hx, p, rfl, hpatching⟩
      exact ⟨hx, hpatching.publicId, hnone, by simpa using hbound, t, p, hpatching⟩

theorem updated_safe (hreq : reqs i = .update user value payload) (hread : lib.uuidOf value = some u)
    (hx : Waiting lib d₀ reqs i sh x) (hpatching : Patching u user payload t p sh.db l)
    (hnames : ∀ name ∈ stripped (payload.categoryNames.join.getD []), name ∈ known d₀)
    (hrefused : payload.refused = none) (hbound : payload.bound = true) :
    Safe (ledgerProtocol (ledger lib (known d₀) reqs) d₀) G i
      (OrTurned lib d₀ reqs i fun _ _ x _ => Explained lib d₀ i (reqs i) (.ok (updatedReply u)) x)
      commit sh x l := by
  apply Safe.commit_logged
  · intro w y hs _
    have hy := hx.seen hs
    have hpatch := hpatching.seen hs
    have hmem : p ∈ w.db .product := Store.mem_of_get hpatch.get
    have hstep := patch_step hs.world.wf hs.ok.wf hmem hpatch.writes hpatch.owner hpatch.kept
    rw [hpatch.publicId] at hstep
    have hdoes : Does lib (known d₀) (reqs i) (.revise u user payload.changes t) := by
      rw [hreq]
      exact ⟨hread, rfl, rfl, hrefused, hbound, hnames⟩
    have hkept := patch_kept hs.world.wf hmem hpatch.writes
    refine ⟨⟨⟨hy.quiet, hs.ok.wf, hkept, _, hdoes, hstep⟩, fun z hz => hz.elim⟩, ?_⟩
    intro y' hy'
    refine ⟨_, hdoes, rfl, y, l.view w.db, ?_, ?_⟩
    · rw [hy.logged.last]
      exact hstep
    · rw [hy.logged.last]
      rcases hy' with ⟨rfl, hsame⟩ | rfl
      · exact .inr ⟨List.suffix_refl _, hsame, hy.quiet⟩
      · exact .inl (List.suffix_refl _)
  · exact fun _ => hx.onError

theorem updateProduct_safe (hreq : reqs i = .update user value payload) (hx : Waiting lib d₀ reqs i sh x)
    (hl : l.writes = []) :
    Safe (ledgerProtocol (ledger lib (known d₀) reqs) d₀) G i
      (OrTurned lib d₀ reqs i fun reply _ x _ => Explained lib d₀ i (reqs i) (.ok reply) x)
      (updateProduct lib payload user value) sh x l := by
  rw [updateProduct]
  split
  · rename_i hbad
    refine hx.refused ?_
    rw [hreq]
    exact .malformed hbad
  rename_i u hread
  apply Safe.turned_bind (validateCategoriesByNames_safe hreq hx hl)
  rintro cids sh x l ⟨hx, hl, hnames⟩
  apply Safe.turned_bind (findProductByPid_safe hreq hread hx hl)
  rintro f sh x l ⟨hx, hl, hwf, hfound⟩
  split
  · rename_i hother
    refine hx.refused ?_
    rw [hreq]
    obtain ⟨p, hp, hpid, howner, -⟩ := hfound
    have hlisted := catalogue_of_mem hwf (Store.mem_of_get hp)
    rw [hpid] at hlisted
    exact .foreign hread hlisted fun he => hother (howner.symm.trans he)
  rename_i howner
  rw [not_not] at howner
  obtain ⟨productId, owner⟩ := f
  obtain rfl : owner = some user := howner
  apply Safe.turned_bind (patchProduct_safe hreq hx hl hfound)
  rintro pid sh x l ⟨hx, rfl, hrefused, hbound, t, p, hpatching⟩
  apply Safe.turned_bind (updated_safe hreq hread hx hpatching hnames hrefused hbound)
  exact fun _ _ _ _ h => h

end Update

/-! ## Creating -/

section Categories
variable {d : Db} {names : List String}

theorem found_names_nodup (hd : d.Wf) : (((d .productCategory).filter fun c : ProductCategory =>
    c.name ∈ names).map ProductCategory.name).Nodup := by
  apply List.Nodup.map_on _ ((hd.ids .productCategory).of_map.filter _)
  intro c hc c' hc' hname
  exact hd.eq_of_key (S := products) (t := .productCategory) (List.mem_of_mem_filter hc) (List.mem_of_mem_filter hc')
    (k := .name c.name) List.mem_cons_self (by rw [hname]; exact List.mem_cons_self)

theorem mem_found_names {name : String} : name ∈ ((d .productCategory).filter fun c : ProductCategory =>
    c.name ∈ names).map ProductCategory.name ↔ name ∈ names ∧ name ∈ known d := by
  simp only [List.mem_map, List.mem_filter, decide_eq_true_eq]
  constructor
  · rintro ⟨c, ⟨hc, hname⟩, rfl⟩
    exact ⟨hname, c, hc, rfl⟩
  · rintro ⟨hname, c, hc, rfl⟩
    exact ⟨c, ⟨hc, hname⟩, rfl⟩

/-- As many categories are found as were asked for when all of them are known, and only then. -/
theorem found_length_iff (hd : d.Wf) (hnames : names.Nodup) :
    ((d .productCategory).filter fun c : ProductCategory => c.name ∈ names).length = names.length ↔
      ∀ name ∈ names, name ∈ known d := by
  have hnd : (((d .productCategory).filter fun c : ProductCategory => c.name ∈ names).map
      ProductCategory.name).Nodup := found_names_nodup hd
  have hsub := hnd.subperm fun name h => (mem_found_names.mp h).1
  rw [← List.length_map (f := ProductCategory.name)]
  constructor
  · intro hlen name hname
    exact (mem_found_names.mp ((hsub.perm_of_length_le hlen.ge).mem_iff.mpr hname)).2
  · intro hall
    apply le_antisymm hsub.length_le
    exact (hnames.subperm fun name h => mem_found_names.mpr ⟨h, hall name h⟩).length_le

theorem namesOf_found (hd : d.Wf) (hall : ∀ name ∈ names, name ∈ known d) :
    namesOf d (((d .productCategory).filter fun c : ProductCategory => c.name ∈ names).map ProductCategory.id) =
      {name | name ∈ names} := by
  ext name
  constructor
  · rintro ⟨c, hc, hid, rfl⟩
    obtain ⟨c', hc', hsame⟩ := List.mem_map.mp hid
    obtain ⟨hmem, hname⟩ := List.mem_filter.mp hc'
    obtain rfl : c' = c := hd.eq_of_id (S := products) (t := .productCategory) hmem hc hsame
    exact of_decide_eq_true hname
  · intro hname
    obtain ⟨c, hc, rfl⟩ := hall name hname
    exact ⟨c, hc, List.mem_map.mpr ⟨c, List.mem_filter.mpr ⟨hc, decide_eq_true hname⟩, rfl⟩, rfl⟩

end Categories

/-- The row of a create request. -/
structure Ready (payload : ProductCreateIn) (user : ℕ) (uuid7 : UUID) (p : Product) : Prop where
  publicId : p.publicId = uuid7
  name : p.name = payload.name
  description : p.description = payload.description
  basePrice : p.basePrice = payload.basePrice
  stockQty : p.stockQty = payload.stockQty
  sku : p.sku = payload.sku
  specs : p.specs = payload.specs
  owner : p.ownerId = some user
  deletedAt : p.deletedAt = none
  fits : Int4 payload.basePrice ∧ Int4 payload.stockQty ∧ skuFits payload.sku = true

theorem Ready.asked {payload : ProductCreateIn} {user : ℕ} {uuid7 : UUID} {p : Product} {d : Db}
    (h : Ready payload user uuid7 p)
    (hcats : categoriesOf d p.id = {name | name ∈ stripped (payload.categoryNames.getD [])}) :
    Asked payload user (listing d p) :=
  ⟨h.name, h.description, h.basePrice, h.stockQty, h.sku, h.specs, h.owner, hcats, h.deletedAt, h.fits⟩

section Create
variable {lib : ProductLib} {reqs : Fin n → ProductRequest} {d₀ d : Db} {i : Fin n}
variable {sh : Shared products productHost} {x y : List (Commit products n)} {l : Txn products}
variable {w : World products productHost} {G : Guard products productHost n}
variable {user : ℕ} {uuid7 : UUID} {payload : ProductCreateIn} {p : Product} {done : List ℕ}

theorem Publishing.seen (h : Publishing p done l sh.db)
    (hs : Seen (ledgerProtocol (ledger lib (known d₀) reqs) d₀) i l sh x w y) : Publishing p done l w.db := by
  refine ⟨h.product, h.links, h.categories, h.inserts.congr fun v hv => ?_⟩
  exact hs.still.row _ _ (hs.ok.locked v hv)

theorem Publishing.start (hl : l.writes = []) (hfresh : ∀ q : Product, q ∈ d .product → q.id < p.id) :
    Publishing p [] (l.write .product [] p) d := by
  have hw : (l.write .product [] p).writes = [⟨.product, p⟩] := by
    change (⟨.product, p⟩ :: l.writes : List (Write products)) = _
    rw [hl]
  refine ⟨?_, ?_, ?_, ?_⟩ <;> rw [hw]
  · rfl
  · rfl
  · rfl
  · exact ⟨fun _ => Store.get_eq_none_iff.mpr fun q hq => (hfresh q hq).ne, trivial⟩

theorem Publishing.link (h : Publishing p done l d) {m cid : ℕ}
    (hfresh : ∀ link : ProductCategoryLink, link ∈ l.view d .productCategoryLink → link.id < m) :
    Publishing p (done ++ [cid]) (l.write .productCategoryLink [] ⟨m, p.id, cid⟩) d := by
  refine ⟨?_, ?_, ?_, ⟨fun _ => ?_, h.inserts⟩⟩
  · exact (written_cons_of_ne (S := products) (by decide) _).trans h.product
  · have hcons : written (S := products) .productCategoryLink
        (⟨.productCategoryLink, ⟨m, p.id, cid⟩⟩ :: l.writes) =
        written (S := products) .productCategoryLink l.writes ++ [⟨m, p.id, cid⟩] := written_cons_self _
    have hmap := congrArg (List.map fun link : ProductCategoryLink => (link.productId, link.prodCategoryId)) hcons
    rw [List.map_append, h.links] at hmap
    rw [List.map_append]
    exact hmap
  · exact (written_cons_of_ne (S := products) (by decide) _).trans h.categories
  · exact Store.get_eq_none_iff.mpr fun link hlink => (hfresh link hlink).ne

/-- The links of a new product are new. -/
theorem Publishing.unlinked_key (h : Publishing p done l d) (hv : (l.view d).Wf) (hlinked : Linked d) {cid : ℕ}
    (hnew : cid ∉ done) : (l.view d).Free .productCategoryLink [.productCategory p.id cid] := by
  intro link hlink k hk hkey
  obtain rfl := List.mem_singleton.mp hk
  have hsame : IndexKey.productCategory p.id cid = .productCategory link.productId link.prodCategoryId :=
    List.mem_singleton.mp hkey
  obtain ⟨hpid, hcid⟩ := IndexKey.productCategory.inj hsame
  have hor := (h.mem_link p.id cid).mp ⟨link, hlink, hpid.symm, hcid.symm⟩
  rcases hor with ⟨link', hlink', hpid', -⟩ | ⟨-, hdone⟩
  · exact h.unlinked hv hlinked hlink' hpid'
  · exact hnew hdone

theorem insertLinks_safe (hlinked : Linked d₀) (cids : List ℕ) (hnd : (done ++ cids).Nodup)
    (hx : Waiting lib d₀ reqs i sh x) (h : Publishing p done l sh.db) :
    Safe (ledgerProtocol (ledger lib (known d₀) reqs) d₀) G i
      (OrTurned lib d₀ reqs i fun _ sh x l => Waiting lib d₀ reqs i sh x ∧ Publishing p (done ++ cids) l sh.db)
      (insertLinks p.id cids) sh x l := by
  induction cids generalizing done sh x l with
  | nil =>
    rw [List.append_nil]
    exact ⟨hx, h⟩
  | cons cid rest ih =>
    have hassoc : done ++ cid :: rest = (done ++ [cid]) ++ rest := by simp
    rw [hassoc] at hnd ⊢
    apply Safe.turned_bind (K := fun _ sh x l => Waiting lib d₀ reqs i sh x ∧
      Publishing p (done ++ [cid]) l sh.db)
    · apply Safe.insert
      · intro w y hs m hfresh _
        exact ⟨hx.seen hs, (h.seen hs).link hfresh⟩
      · intro _ w y hs m htaken
        have hw := (logged_kept (hx.seen hs).logged).linked hlinked
        have hnew : cid ∉ done := fun hmem => by
          have hdisj := (List.nodup_append.mp (List.nodup_append.mp hnd).1).2.2
          exact hdisj cid hmem cid List.mem_cons_self rfl
        exact absurd ((h.seen hs).unlinked_key hs.ok.wf hw hnew) htaken
      · exact hx.onError
    · rintro _ sh x l ⟨hx, h⟩
      exact ih hnd hx h

theorem addProductCategories_safe (hreq : reqs i = .create user uuid7 payload) (hlinked : Linked d₀)
    {names : List String} (hnames : payload.categoryNames.getD [] = names)
    (hx : Waiting lib d₀ reqs i sh x) (h : Publishing p [] l sh.db) :
    Safe (ledgerProtocol (ledger lib (known d₀) reqs) d₀) G i
      (OrTurned lib d₀ reqs i fun _ sh x l => Waiting lib d₀ reqs i sh x ∧ ∃ done, Publishing p done l sh.db ∧
        namesOf d₀ done = {name | name ∈ stripped names} ∧ ∀ name ∈ stripped names, name ∈ known d₀)
      (addProductCategories p.id names) sh x l := by
  rw [addProductCategories]
  apply Safe.turned_bind (K := fun rows sh x l => Waiting lib d₀ reqs i sh x ∧ sh.db.Wf ∧
    Publishing p [] l sh.db ∧
    rows = (sh.db .productCategory).filter fun c : ProductCategory => c.name ∈ stripped names)
  · apply select_safe hx
    intro w y hs
    rw [(h.seen hs).category_view]
    exact ⟨hx.seen hs, hs.world.wf, h.seen hs, rfl⟩
  rintro rows sh x l ⟨hx, hwf, h, rfl⟩
  have hiff := found_length_iff hwf (List.nodup_dedup (names.map fun name =>
    String.ofList (Numeral.strip name.toList)))
  dsimp only
  split
  · rename_i hlen
    refine hx.refused ?_
    rw [hreq]
    rw [List.length_map] at hlen
    have hsome := mt hiff.mpr hlen
    push Not at hsome
    obtain ⟨name, hname, hunknown⟩ := hsome
    rw [hx.known_eq] at hunknown
    exact .uncategorized (hnames.symm ▸ hname) hunknown
  · rename_i hlen
    rw [not_not, List.length_map] at hlen
    have hall := hiff.mp hlen
    have hnd : (((sh.db .productCategory).filter fun c : ProductCategory => c.name ∈ stripped names).map
        ProductCategory.id).Nodup := (hwf.ids .productCategory).sublist (List.filter_sublist.map _)
    have hnames' := namesOf_found hwf hall
    rw [hx.known_eq] at hall
    rw [hx.namesOf_eq] at hnames'
    apply (insertLinks_safe hlinked _ hnd hx h).mono
    intro r sh x l hr
    cases r with
    | error e => exact hr
    | ok _ => exact ⟨hr.1, _, hr.2, hnames', hall⟩

theorem createProductWithCatgs_safe (hreq : reqs i = .create user uuid7 payload) (hlinked : Linked d₀)
    (hx : Waiting lib d₀ reqs i sh x) (hl : l.writes = []) :
    Safe (ledgerProtocol (ledger lib (known d₀) reqs) d₀) G i
      (OrTurned lib d₀ reqs i fun p sh x l => Waiting lib d₀ reqs i sh x ∧ Ready payload user uuid7 p ∧
        ∃ done, Publishing p done l sh.db ∧
          namesOf d₀ done = {name | name ∈ stripped (payload.categoryNames.getD [])} ∧
          ∀ name ∈ stripped (payload.categoryNames.getD []), name ∈ known d₀)
      (createProductWithCatgs payload user uuid7) sh x l := by
  rw [createProductWithCatgs]
  apply Safe.turned_bind (K := fun _ sh x l => Waiting lib d₀ reqs i sh x ∧ l.writes = [])
  · exact now_safe fun w y hs _ => ⟨hx.seen hs, hl⟩
  rintro createdAt sh x l ⟨hx, hl⟩
  apply Safe.turned_bind (K := fun _ sh x l => Waiting lib d₀ reqs i sh x ∧ l.writes = [])
  · exact now_safe fun w y hs _ => ⟨hx.seen hs, hl⟩
  rintro updatedAt sh x l ⟨hx, hl⟩
  split
  · rename_i hmisfit
    refine hx.refused ?_
    rw [hreq]
    exact .oversize fun hfits => by simp [hfits] at hmisfit
  rename_i hfits
  have hfits' : Int4 payload.basePrice ∧ Int4 payload.stockQty ∧ skuFits payload.sku = true := by
    simpa [and_assoc] using hfits
  apply Safe.turned_bind (K := fun row sh x l => Waiting lib d₀ reqs i sh x ∧
    (row = none → NameTaken (catalogue sh.db) payload.name ∨ catalogue sh.db uuid7 ≠ none) ∧
    ∀ p : Product, row = some p → Ready payload user uuid7 p ∧ Publishing p [] l sh.db)
  · apply Safe.insert
    · intro w y hs m hfresh _
      rw [Txn.view_of_no_writes hl] at hfresh
      refine ⟨hx.seen hs, fun h => absurd h (Option.some_ne_none _), fun p hp => ?_⟩
      cases hp
      exact ⟨⟨rfl, rfl, rfl, rfl, rfl, rfl, rfl, rfl, rfl, hfits'⟩, .start hl hfresh⟩
    · intro _ w y hs m htaken
      refine ⟨hx.seen hs, fun _ => ?_, fun p hp => absurd hp (Option.some_ne_none p).symm⟩
      rw [Txn.view_of_no_writes hl, Store.Free] at htaken
      push Not at htaken
      obtain ⟨q, hq, k, hk, hkey⟩ := htaken
      have hlisted := catalogue_of_mem hs.world.wf hq
      have hq' : k = .publicId q.publicId ∨ k = .name q.name := by simpa [rowKeys] using hkey
      have hk' : k = .publicId uuid7 ∨ k = .name payload.name := by simpa [rowKeys] using hk
      rcases hk' with rfl | rfl
      · rcases hq' with hu | hu
        · rw [IndexKey.publicId.inj hu, hlisted]
          exact .inr (Option.some_ne_none _)
        · cases hu
      · rcases hq' with hu | hu
        · cases hu
        · exact .inl ⟨_, _, hlisted, (IndexKey.name.inj hu).symm⟩
    · exact hx.onError
  rintro row sh x l ⟨hx, hnone, hsome⟩
  cases row with
  | none =>
    refine hx.refused ?_
    rw [hreq]
    exact .duplicate (hnone rfl)
  | some p =>
    obtain ⟨hready, hpublishing⟩ := hsome p rfl
    dsimp only
    split
    · rename_i hnames
      rw [hnames]
      refine ⟨hx, hready, [], hpublishing, ?_, fun name hname => by cases hname⟩
      ext name
      constructor
      · rintro ⟨c, -, hc, -⟩
        cases hc
      · intro hname
        cases hname
    · apply Safe.turned_bind (addProductCategories_safe hreq hlinked rfl hx hpublishing)
      rintro _ sh x l ⟨hx, hdone⟩
      exact ⟨hx, hready, hdone⟩

theorem created_safe (hreq : reqs i = .create user uuid7 payload) (hlinked : Linked d₀)
    (hx : Waiting lib d₀ reqs i sh x) (hready : Ready payload user uuid7 p) (h : Publishing p done l sh.db)
    (hnames : namesOf d₀ done = {name | name ∈ stripped (payload.categoryNames.getD [])})
    (hknown : ∀ name ∈ stripped (payload.categoryNames.getD []), name ∈ known d₀) :
    Safe (ledgerProtocol (ledger lib (known d₀) reqs) d₀) G i
      (OrTurned lib d₀ reqs i fun _ _ x _ => Explained lib d₀ i (reqs i)
        (.ok (createdReply p.publicId p.name p.basePrice p.stockQty)) x)
      commit sh x l := by
  apply Safe.commit_logged
  · intro w y hs _
    have hy := hx.seen hs
    have hw := h.seen hs
    have hcats := hw.categories_new hs.ok.wf ((logged_kept hy.logged).linked hlinked)
    rw [hy.namesOf_eq, hnames] at hcats
    have hstep := hw.step hs.world.wf hs.ok.wf
    have hdoes : Does lib (known d₀) (reqs i) (.publish p.publicId (listing (l.view w.db) p)) := by
      rw [hreq]
      exact ⟨hready.publicId, hready.asked hcats, hknown⟩
    refine ⟨⟨⟨hy.quiet, hs.ok.wf, hw.kept hs.ok.wf, _, hdoes, hstep⟩, fun z hz => hz.elim⟩, ?_⟩
    intro y' hy'
    refine ⟨_, hdoes, rfl, y, l.view w.db, ?_, ?_⟩
    · rw [hy.logged.last]
      exact hstep
    · rw [hy.logged.last]
      rcases hy' with ⟨rfl, hsame⟩ | rfl
      · exact .inr ⟨List.suffix_refl _, hsame, hy.quiet⟩
      · exact .inl (List.suffix_refl _)
  · exact fun _ => hx.onError

theorem createProduct_safe (hreq : reqs i = .create user uuid7 payload) (hlinked : Linked d₀)
    (hx : Waiting lib d₀ reqs i sh x) (hl : l.writes = []) :
    Safe (ledgerProtocol (ledger lib (known d₀) reqs) d₀) G i
      (OrTurned lib d₀ reqs i fun reply _ x _ => Explained lib d₀ i (reqs i) (.ok reply) x)
      (createProduct payload user uuid7) sh x l := by
  rw [createProduct]
  apply Safe.turned_bind (createProductWithCatgs_safe hreq hlinked hx hl)
  rintro p sh x l ⟨hx, hready, done, hpublishing, hnames, hknown⟩
  apply Safe.turned_bind (created_safe hreq hlinked hx hready hpublishing hnames hknown)
  exact fun _ _ _ _ h => h

end Create

/-! ## Requests -/

/-- In every run the store is the last entry of a log, and every answer is explained. -/
theorem products_report {lib : ProductLib} {reqs : Fin n → ProductRequest} {w : World products productHost}
    (hw : w.Ok) (hlinked : Linked w.db) {s : Sys products productHost n (Except (Exn AppErr) Reply)}
    {x : List (Commit products n)}
    (h : Sys.Run (fun _ _ _ _ _ => True) History.commits (productRequests lib reqs w) [] s x) :
    (ledger lib (known w.db) reqs).Logged w.db x s.world.db ∧
      ∀ i r, s.outcome i = some r → Explained lib w.db i (reqs i) r x := by
  have hstart : (productRequests lib reqs w).Inv (ledgerProtocol (ledger lib (known w.db) reqs) w.db)
      (fun _ _ _ _ _ => True) (fun i => .ofOk fun r _ x _ => Explained lib w.db i (reqs i) r x) [] := by
    apply Sys.inv_start hw rfl
    intro i
    have hx : Waiting lib w.db reqs i w.toShared [] := ⟨rfl, rfl⟩
    have hsafe : Safe (ledgerProtocol (ledger lib (known w.db) reqs) w.db) (fun _ _ _ _ _ => True) i
        (OrTurned lib w.db reqs i fun reply _ x _ => Explained lib w.db i (reqs i) (.ok reply) x)
        ((reqs i).handler lib) w.toShared [] {} := by
      cases hreq : reqs i with
      | create user uuid7 payload =>
        have h := createProduct_safe (G := fun _ _ _ _ _ => True) (l := {}) hreq hlinked hx rfl
        simp only [hreq] at h
        exact h
      | update user value payload =>
        have h := updateProduct_safe (G := fun _ _ _ _ _ => True) (l := {}) hreq hx rfl
        simp only [hreq] at h
        exact h
    apply Safe.session
    apply hsafe.mono
    intro r sh x l hr w' y hs
    have hexplained : Explained lib w.db i (reqs i) r x := by
      cases r with
      | error e => exact hr
      | ok reply => exact hr
    exact hexplained.later hs.rely fun _ he => he.1
  have hinv := Sys.Run.inv (P := ledgerProtocol (ledger lib (known w.db) reqs) w.db) h hstart
  refine ⟨hinv.inv, fun i r hr => ?_⟩
  obtain ⟨sh, y, hsafe, hseen⟩ := hinv.seen i
  rw [Sys.prog_of_outcome hr] at hsafe
  exact Explained.later hsafe hseen.rely fun _ he => he.1

end Phyllonix.Products
