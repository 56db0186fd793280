import Phyllonix.CatalogueMachine
import Phyllonix.CatalogueRoutes
import Phyllonix.RelationalHistory

/-!
# What the product handlers commit

The tables stand for a catalogue. A create commits one product with its links, an update one
row; on the catalogue the first is a publication and the second a revision. Nobody changes a
category, and links lead from products that are there.
-/

namespace Phyllonix.Products
open Relational Abstract
variable {n : ℕ}

/-! ## What the tables stand for -/

def categoriesOf (d : Db) (productId : ℕ) : Set String :=
  {name | ∃ link : ProductCategoryLink, link ∈ d .productCategoryLink ∧ link.productId = productId ∧
    ∃ c : ProductCategory, c ∈ d .productCategory ∧ c.id = link.prodCategoryId ∧ c.name = name}

def listing (d : Db) (p : Product) : Listing where
  name := p.name
  description := p.description
  basePrice := p.basePrice
  stockQty := p.stockQty
  sku := p.sku
  specs := p.specs
  owner := p.ownerId
  categories := categoriesOf d p.id
  createdAt := p.createdAt
  updatedAt := p.updatedAt
  deletedAt := p.deletedAt

def catalogue (d : Db) : Catalogue := fun u =>
  ((d .product).find? fun p : Product => p.publicId = u).map (listing d)

/-- The category names that there are. -/
def known (d : Db) : Set String := {name | ∃ c : ProductCategory, c ∈ d .productCategory ∧ c.name = name}

/-- Links lead from products. -/
def Linked (d : Db) : Prop :=
  ∀ link : ProductCategoryLink, link ∈ d .productCategoryLink → (d.get .product link.productId).isSome

section Abstraction
variable {d d' : Db} {p q : Product} {u : UUID} {e : Listing}

theorem product_unique (hd : d.Wf) (hp : p ∈ d .product) (hq : q ∈ d .product) (h : p.publicId = q.publicId) :
    p = q :=
  hd.eq_of_key (S := products) (t := .product) hp hq (k := .publicId p.publicId) List.mem_cons_self
    (by rw [h]; exact List.mem_cons_self)

theorem product_of_id (hd : d.Wf) (hp : p ∈ d .product) (hq : q ∈ d .product) (h : p.id = q.id) : p = q :=
  hd.eq_of_id (S := products) (t := .product) hp hq h

theorem catalogue_eq_some (hd : d.Wf) :
    catalogue d u = some e ↔ ∃ p : Product, p ∈ d .product ∧ p.publicId = u ∧ listing d p = e := by
  rw [catalogue, Option.map_eq_some_iff]
  constructor
  · rintro ⟨p, hfind, he⟩
    exact ⟨p, List.mem_of_find?_eq_some hfind, by simpa using List.find?_some hfind, he⟩
  · rintro ⟨p, hp, hu, he⟩
    refine ⟨p, ?_, he⟩
    cases hfind : (d .product).find? fun p : Product => p.publicId = u with
    | none =>
      have hno := List.find?_eq_none.mp hfind p hp
      simp [hu] at hno
    | some q =>
      have hq : q.publicId = u := by simpa using List.find?_some hfind
      rw [product_unique hd (List.mem_of_find?_eq_some hfind) hp (hq.trans hu.symm)]

theorem catalogue_of_mem (hd : d.Wf) (hp : p ∈ d .product) : catalogue d p.publicId = some (listing d p) :=
  (catalogue_eq_some hd).mpr ⟨p, hp, rfl, rfl⟩

theorem catalogue_eq_none (h : ∀ p : Product, p ∈ d .product → p.publicId ≠ u) : catalogue d u = none := by
  rw [catalogue, Option.map_eq_none_iff, List.find?_eq_none]
  intro p hp
  simpa using h p hp

theorem nameTaken_iff (hd : d.Wf) {name : String} :
    NameTaken (catalogue d) name ↔ ∃ p : Product, p ∈ d .product ∧ p.name = name := by
  constructor
  · rintro ⟨u, e, hu, rfl⟩
    obtain ⟨p, hp, -, rfl⟩ := (catalogue_eq_some hd).mp hu
    exact ⟨p, hp, rfl⟩
  · rintro ⟨p, hp, rfl⟩
    exact ⟨p.publicId, listing d p, catalogue_of_mem hd hp, rfl⟩

/-- Other products are listed as before where their rows and links are as before. -/
theorem catalogue_congr (hd : d.Wf) (hd' : d'.Wf)
    (hrows : ∀ p : Product, p.publicId = u → (p ∈ d' .product ↔ p ∈ d .product))
    (hlist : ∀ p : Product, p ∈ d .product → p.publicId = u → listing d' p = listing d p) :
    catalogue d' u = catalogue d u := by
  apply Option.ext
  intro e
  rw [catalogue_eq_some hd, catalogue_eq_some hd']
  constructor
  · rintro ⟨p, hp, hu, he⟩
    have hmem := (hrows p hu).mp hp
    exact ⟨p, hmem, hu, (hlist p hmem hu).symm.trans he⟩
  · rintro ⟨p, hp, hu, he⟩
    exact ⟨p, (hrows p hu).mpr hp, hu, (hlist p hp hu).trans he⟩

end Abstraction

/-! ## Operations of requests -/

/-- The listing that a create request asks for. -/
structure Asked (payload : ProductCreateIn) (user : ℕ) (e : Listing) : Prop where
  name : e.name = payload.name
  description : e.description = payload.description
  basePrice : e.basePrice = payload.basePrice
  stockQty : e.stockQty = payload.stockQty
  sku : e.sku = payload.sku
  specs : e.specs = payload.specs
  owner : e.owner = some user
  categories : e.categories = {name | name ∈ stripped (payload.categoryNames.getD [])}
  deletedAt : e.deletedAt = none
  fits : Int4 payload.basePrice ∧ Int4 payload.stockQty ∧ skuFits payload.sku = true

def ProductUpdateIn.changes (payload : ProductUpdateIn) : Changes where
  name := payload.name.join
  description := payload.description
  basePrice := payload.basePrice.join
  stockQty := payload.stockQty.join
  sku := payload.sku
  specs := payload.specs

theorem listing_patch (d : Db) (payload : ProductUpdateIn) (t : ℕ) (p : Product) :
    listing d (p.patch payload t) = payload.changes.apply t (listing d p) := rfl

/-- The operations that a request may do where the categories `names` are known. -/
def Does (lib : ProductLib) (names : Set String) : ProductRequest → Operation → Prop
  | .create user uuid7 payload, .publish u e =>
    u = uuid7 ∧ Asked payload user e ∧ ∀ name ∈ stripped (payload.categoryNames.getD []), name ∈ names
  | .update user value payload, .revise u user' ch _ =>
    lib.uuidOf value = some u ∧ user' = user ∧ ch = payload.changes ∧ payload.refused = none ∧
      payload.bound = true ∧ ∀ name ∈ stripped (payload.categoryNames.join.getD []), name ∈ names
  | _, _ => False

/-- What a request answers that has done the operation. -/
def answer : Operation → Reply
  | .publish u e => createdReply u e.name e.basePrice e.stockQty
  | .revise u _ _ _ => updatedReply u

/-- A request does one operation at most from one state to another. -/
theorem Does.unique {lib : ProductLib} {names : Set String} {req : ProductRequest} {o o' : Operation}
    (h : Does lib names req o) (h' : Does lib names req o') {a b : Catalogue} (hs : Step a o b)
    (hs' : Step a o' b) : o = o' := by
  cases req with
  | create user uuid7 payload =>
    cases hs with
    | revise _ _ _ _ => exact h.elim
    | @publish u e fresh unused =>
      cases o' with
      | revise _ _ _ _ => exact h'.elim
      | publish u' e' =>
        have hu : u = uuid7 := h.1
        have hu' : u' = uuid7 := h'.1
        subst hu
        subst hu'
        have hafter := Step.after hs' u'
        rw [Function.update_self, fresh, after, if_pos rfl] at hafter
        rw [Option.some.inj hafter]
  | update user value payload =>
    cases hs with
    | publish _ _ => exact h.elim
    | @revise u user₁ ch t e listed owned kept unused =>
      cases o' with
      | publish _ _ => exact h'.elim
      | revise u' user₂ ch' t' =>
        obtain ⟨hu, rfl, rfl, -⟩ := h
        obtain ⟨hu', rfl, rfl, -⟩ := h'
        obtain rfl := Option.some.inj (hu.symm.trans hu')
        have hafter := Step.after hs' u
        rw [Function.update_self, listed, after, if_pos rfl] at hafter
        have htime := congrArg Listing.updatedAt (Option.some.inj hafter)
        rw [show t = t' from htime]

/-! ## The ledger -/

/-- What every commit leaves of the store. -/
structure Kept (d d' : Db) : Prop where
  categories : d' .productCategory = d .productCategory
  rows : ∀ k (p : Product), d.get .product k = some p → ∃ p' : Product, d'.get .product k = some p' ∧
    p'.publicId = p.publicId ∧ p'.ownerId = p.ownerId ∧ p'.createdAt = p.createdAt ∧ p'.deletedAt = p.deletedAt
  linked : Linked d → Linked d'

theorem Kept.refl (d : Db) : Kept d d := ⟨rfl, fun _ p hp => ⟨p, hp, rfl, rfl, rfl, rfl⟩, id⟩

theorem Kept.trans {d d' d'' : Db} (h : Kept d d') (h' : Kept d' d'') : Kept d d'' := by
  refine ⟨h'.categories.trans h.categories, fun k p hp => ?_, fun hl => h'.linked (h.linked hl)⟩
  obtain ⟨p', hp', hpid, howner, hcreated, hdel⟩ := h.rows k p hp
  obtain ⟨p'', hp'', hpid', howner', hcreated', hdel'⟩ := h'.rows k p' hp'
  exact ⟨p'', hp'', hpid'.trans hpid, howner'.trans howner, hcreated'.trans hcreated, hdel'.trans hdel⟩

def ledger (lib : ProductLib) (names : Set String) (reqs : Fin n → ProductRequest) : Ledger products n where
  allows es e := Ledger.commitsOf e.proc es = [] ∧ e.after.Wf ∧ Kept e.before e.after ∧
    ∃ o, Does lib names (reqs e.proc) o ∧ Step (catalogue e.before) o (catalogue e.after)
  needs _ _ := False

section Ledger
variable {lib : ProductLib} {names : Set String} {reqs : Fin n → ProductRequest} {d₀ d d' : Db}
variable {x x' : List (Commit products n)}

theorem ledger_refines : (ledger lib names reqs).Refines machine catalogue fun i => Does lib names (reqs i) :=
  fun _ _ h => h.2.2.2

theorem later_kept {p : Commit products n → Prop} (h : (ledger lib names reqs).Later p x d x' d') : Kept d d' := by
  apply h.keeps (I := fun _ d' => Kept d d') (.refl d)
  intro es e hbefore _ hallows
  exact hbefore.trans hallows.2.2.1

theorem logged_kept (h : (ledger lib names reqs).Logged d₀ x d) : Kept d₀ d := by
  apply h.keeps (I := fun _ d => Kept d₀ d) (.refl d₀)
  intro es e _ hbefore hallows
  exact hbefore.trans hallows.2.2.1

theorem logged_wf (hd₀ : d₀.Wf) (h : (ledger lib names reqs).Logged d₀ x d) : d.Wf := by
  apply h.keeps (I := fun _ d => d.Wf) hd₀
  intro es e _ _ hallows
  exact hallows.2.1

theorem known_kept (h : Kept d d') : known d' = known d := by
  simp only [known, h.categories]

end Ledger

/-! ## The commit of an update -/

section Patch
variable {d : Db} {l : Txn products} {p : Product} {payload : ProductUpdateIn} {t : ℕ}

theorem patch_view (hw : l.writes = [⟨.product, p.patch payload t⟩]) :
    l.view d = d.put .product (p.patch payload t) := by
  rw [Txn.view, hw]
  rfl

theorem mem_patch_view (hw : l.writes = [⟨.product, p.patch payload t⟩]) {q : Product} :
    q ∈ l.view d .product ↔ (q ∈ d .product ∧ q.id ≠ p.id) ∨ q = p.patch payload t := by
  rw [patch_view hw, Store.put_self]
  exact mem_putRow (S := products) (t := .product)

theorem patch_listing (hw : l.writes = [⟨.product, p.patch payload t⟩]) (q : Product) :
    listing (l.view d) q = listing d q := by
  have hlinks : l.view d .productCategoryLink = d .productCategoryLink := by
    rw [patch_view hw]
    exact Store.put_of_ne (S := products) d _ (by decide)
  have hcats : l.view d .productCategory = d .productCategory := by
    rw [patch_view hw]
    exact Store.put_of_ne (S := products) d _ (by decide)
  simp only [listing, categoriesOf, hlinks, hcats]

theorem patch_step (hd : d.Wf) (hv : (l.view d).Wf) (hp : p ∈ d .product)
    (hw : l.writes = [⟨.product, p.patch payload t⟩]) {user : ℕ} (howner : p.ownerId = some user)
    (hkept : p.deletedAt = none) :
    Step (catalogue d) (.revise p.publicId user payload.changes t) (catalogue (l.view d)) := by
  have hmem : p.patch payload t ∈ l.view d .product := (mem_patch_view hw).mpr (.inr rfl)
  have hself : catalogue (l.view d) p.publicId = some (payload.changes.apply t (listing d p)) := by
    have h := catalogue_of_mem hv hmem
    rw [patch_listing hw, listing_patch] at h
    exact h
  have hother : ∀ u, u ≠ p.publicId → catalogue (l.view d) u = catalogue d u := by
    intro u hu
    refine catalogue_congr hd hv (fun q hq => ?_) fun q _ _ => patch_listing hw q
    rw [mem_patch_view hw]
    constructor
    · rintro (⟨hq', -⟩ | rfl)
      · exact hq'
      · exact absurd hq.symm hu
    · intro hq'
      refine .inl ⟨hq', fun hid => hu ?_⟩
      rw [← hq, product_of_id hd hq' hp hid]
  have heq : catalogue (l.view d) =
      Function.update (catalogue d) p.publicId (some (payload.changes.apply t (listing d p))) := by
    funext u
    by_cases hu : u = p.publicId
    · rw [hu, Function.update_self, hself]
    · rw [Function.update_of_ne hu, hother u hu]
  rw [heq]
  refine .revise (catalogue_of_mem hd hp) howner hkept fun u' e' hu' hname => ?_
  by_contra hne
  rw [← hother u' hne] at hu'
  obtain ⟨q, hq, rfl, rfl⟩ := (catalogue_eq_some hv).mp hu'
  have hkey : IndexKey.name q.name ∈ products.keys (t := .product) (p.patch payload t) := by
    have hname' : q.name = (p.patch payload t).name := hname
    rw [hname']
    exact List.mem_cons_of_mem _ List.mem_cons_self
  have hsame := hv.eq_of_key (S := products) (t := .product) hq hmem (k := .name q.name)
    (List.mem_cons_of_mem _ List.mem_cons_self) hkey
  rw [hsame] at hne
  exact hne rfl

theorem patch_kept (hd : d.Wf) (hp : p ∈ d .product) (hw : l.writes = [⟨.product, p.patch payload t⟩]) :
    Kept d (l.view d) := by
  have hget : ∀ k, k ≠ p.id → (l.view d).get .product k = d.get .product k := by
    intro k hk
    rw [patch_view hw]
    exact Store.get_put_of_ne (S := products) (t := .product) d _ fun he => hk he.2
  have hself : (l.view d).get .product p.id = some (p.patch payload t) := by
    rw [patch_view hw]
    exact Store.get_put_self (S := products) d .product (p.patch payload t)
  refine ⟨?_, fun k q hq => ?_, fun hlinked link hlink => ?_⟩
  · rw [patch_view hw]
    exact Store.put_of_ne (S := products) d _ (by decide)
  · by_cases hk : k = p.id
    · subst hk
      have hqp := product_of_id hd (Store.mem_of_get hq) hp (Store.id_of_get hq)
      subst hqp
      exact ⟨_, hself, rfl, rfl, rfl, rfl⟩
    · exact ⟨q, (hget k hk).trans hq, rfl, rfl, rfl, rfl⟩
  · have hlinks : l.view d .productCategoryLink = d .productCategoryLink := by
      rw [patch_view hw]
      exact Store.put_of_ne (S := products) d _ (by decide)
    rw [hlinks] at hlink
    by_cases hk : link.productId = p.id
    · rw [hk, hself]
      rfl
    · rw [hget _ hk]
      exact hlinked link hlink

end Patch

/-! ## The commit of a create -/

/-- The transaction has inserted the product `p` and its links to the categories `done`. -/
structure Publishing (p : Product) (done : List ℕ) (l : Txn products) (d : Db) : Prop where
  product : written (S := products) .product l.writes = [p]
  links : (written (S := products) .productCategoryLink l.writes).map (fun link : ProductCategoryLink =>
    (link.productId, link.prodCategoryId)) = done.map fun cid => (p.id, cid)
  categories : written (S := products) .productCategory l.writes = []
  inserts : Inserts (fun _ => True) l.writes d

section Publish
variable {d : Db} {l : Txn products} {p : Product} {done : List ℕ}

theorem Publishing.view (h : Publishing p done l d) (t : Table) : l.view d t = d t ++ written t l.writes :=
  applyWrites_written h.inserts trivial

theorem Publishing.mem_product (h : Publishing p done l d) {q : Product} :
    q ∈ l.view d .product ↔ q ∈ d .product ∨ q = p := by
  rw [h.view, h.product, List.mem_append, List.mem_singleton]

theorem Publishing.mem_link (h : Publishing p done l d) (productId cid : ℕ) :
    (∃ link : ProductCategoryLink, link ∈ l.view d .productCategoryLink ∧ link.productId = productId ∧
        link.prodCategoryId = cid) ↔
      (∃ link : ProductCategoryLink, link ∈ d .productCategoryLink ∧ link.productId = productId ∧
        link.prodCategoryId = cid) ∨ productId = p.id ∧ cid ∈ done := by
  have hnew : (∃ link : ProductCategoryLink, link ∈ written (S := products) .productCategoryLink l.writes ∧
      link.productId = productId ∧ link.prodCategoryId = cid) ↔ productId = p.id ∧ cid ∈ done := by
    have hmem : (productId, cid) ∈ (written (S := products) .productCategoryLink l.writes).map
        (fun link : ProductCategoryLink => (link.productId, link.prodCategoryId)) ↔
        (productId, cid) ∈ done.map fun cid => (p.id, cid) := by rw [h.links]
    simp only [List.mem_map, Prod.mk.injEq] at hmem
    rw [hmem]
    constructor
    · rintro ⟨c, hc, rfl, rfl⟩
      exact ⟨rfl, hc⟩
    · rintro ⟨rfl, hc⟩
      exact ⟨cid, hc, rfl, rfl⟩
  rw [← hnew, h.view]
  simp only [List.mem_append, or_and_right, exists_or]

theorem Publishing.category_view (h : Publishing p done l d) :
    l.view d .productCategory = d .productCategory := by
  rw [h.view, h.categories, List.append_nil]

/-- The names of the categories `cids`. -/
def namesOf (d : Db) (cids : List ℕ) : Set String :=
  {name | ∃ c : ProductCategory, c ∈ d .productCategory ∧ c.id ∈ cids ∧ c.name = name}

theorem Publishing.categoriesOf_view (h : Publishing p done l d) (productId : ℕ) :
    categoriesOf (l.view d) productId =
      categoriesOf d productId ∪ {name | productId = p.id ∧ name ∈ namesOf d done} := by
  ext name
  have hlink := h.mem_link productId
  constructor
  · rintro ⟨link, hmem, hpid, c, hc, hid, hname⟩
    rw [h.category_view] at hc
    rcases (hlink c.id).mp ⟨link, hmem, hpid, hid.symm⟩ with ⟨link', hmem', hpid', hcid⟩ | ⟨hp, hdone⟩
    · exact .inl ⟨link', hmem', hpid', c, hc, hcid.symm, hname⟩
    · exact .inr ⟨hp, c, hc, hdone, hname⟩
  · rintro (⟨link, hmem, hpid, c, hc, hid, hname⟩ | ⟨hp, c, hc, hdone, hname⟩)
    · obtain ⟨link', hmem', hpid', hcid⟩ := (hlink c.id).mpr (.inl ⟨link, hmem, hpid, hid.symm⟩)
      exact ⟨link', hmem', hpid', c, h.category_view.symm ▸ hc, hcid.symm, hname⟩
    · obtain ⟨link', hmem', hpid', hcid⟩ := (hlink c.id).mpr (.inr ⟨hp, hdone⟩)
      exact ⟨link', hmem', hpid', c, h.category_view.symm ▸ hc, hcid.symm, hname⟩

theorem Publishing.fresh (h : Publishing p done l d) (hv : (l.view d).Wf) {q : Product}
    (hq : q ∈ d .product) : q.id ≠ p.id := by
  have hids := hv.ids .product
  have hview : l.view d .product = d .product ++ [p] := by rw [h.view, h.product]
  rw [hview, List.map_append] at hids
  intro he
  have hdisj := (List.nodup_append.mp hids).2.2
  exact hdisj _ (List.mem_map_of_mem hq) _ (List.mem_map_of_mem List.mem_cons_self) he

/-- A new product has no links of old. -/
theorem Publishing.unlinked (h : Publishing p done l d) (hv : (l.view d).Wf) (hlinked : Linked d)
    {link : ProductCategoryLink} (hlink : link ∈ d .productCategoryLink) : link.productId ≠ p.id := by
  intro hpid
  obtain ⟨q, hq⟩ := Option.isSome_iff_exists.mp (hlinked link hlink)
  have hid : q.id = link.productId := Store.id_of_get hq
  exact h.fresh hv (Store.mem_of_get hq) (hid.trans hpid)

theorem Publishing.categories_new (h : Publishing p done l d) (hv : (l.view d).Wf) (hlinked : Linked d) :
    categoriesOf (l.view d) p.id = namesOf d done := by
  have hold : categoriesOf d p.id = ∅ := by
    rw [Set.eq_empty_iff_forall_notMem]
    rintro name ⟨link, hlink, hpid, -⟩
    exact h.unlinked hv hlinked hlink hpid
  rw [h.categoriesOf_view, hold, Set.empty_union]
  ext name
  exact and_iff_right rfl

theorem Publishing.step (h : Publishing p done l d) (hd : d.Wf) (hv : (l.view d).Wf) :
    Step (catalogue d) (.publish p.publicId (listing (l.view d) p)) (catalogue (l.view d)) := by
  have hmem : p ∈ l.view d .product := h.mem_product.mpr (.inr rfl)
  have hnew : ∀ q : Product, q ∈ d .product → q.publicId ≠ p.publicId ∧ q.name ≠ p.name := by
    intro q hq
    have hq' : q ∈ l.view d .product := h.mem_product.mpr (.inl hq)
    have hne : q ≠ p := fun he => h.fresh hv hq (congrArg Product.id he)
    refine ⟨fun hpid => hne (product_unique hv hq' hmem hpid), fun hname => hne ?_⟩
    exact hv.eq_of_key (S := products) (t := .product) hq' hmem (k := .name q.name)
      (List.mem_cons_of_mem _ List.mem_cons_self)
      (by rw [hname]; exact List.mem_cons_of_mem _ List.mem_cons_self)
  have heq : catalogue (l.view d) =
      Function.update (catalogue d) p.publicId (some (listing (l.view d) p)) := by
    funext u
    by_cases hu : u = p.publicId
    · rw [hu, Function.update_self, catalogue_of_mem hv hmem]
    · rw [Function.update_of_ne hu]
      refine catalogue_congr hd hv (fun q hq => ?_) fun q hq _ => ?_
      · rw [h.mem_product]
        refine ⟨fun hor => hor.resolve_right fun he => hu ?_, .inl⟩
        rw [← hq, he]
      · have hcats : categoriesOf (l.view d) q.id = categoriesOf d q.id := by
          rw [h.categoriesOf_view, Set.union_eq_left]
          rintro name ⟨hid, -⟩
          exact absurd hid (h.fresh hv hq)
        simp only [listing, hcats]
  rw [heq]
  refine .publish (catalogue_eq_none fun q hq => (hnew q hq).1) ?_
  rw [nameTaken_iff hd]
  rintro ⟨q, hq, hname⟩
  exact (hnew q hq).2 hname

theorem Publishing.kept (h : Publishing p done l d) (hv : (l.view d).Wf) : Kept d (l.view d) := by
  have hget : ∀ k (q : Product), d.get .product k = some q → (l.view d).get .product k = some q := by
    intro k q hq
    have hid : q.id = k := Store.id_of_get hq
    have hq' := h.mem_product.mpr (.inl (Store.mem_of_get hq))
    have hmem := Store.get_of_mem (S := products) (t := .product) hv.ids hq'
    rw [← hid]
    exact hmem
  refine ⟨h.category_view, fun k q hq => ⟨q, hget k q hq, rfl, rfl, rfl, rfl⟩, fun hlinked link hlink => ?_⟩
  have hor := (h.mem_link link.productId link.prodCategoryId).mp ⟨link, hlink, rfl, rfl⟩
  rcases hor with ⟨link', hlink', hpid, -⟩ | ⟨hpid, -⟩
  · obtain ⟨q, hq⟩ := Option.isSome_iff_exists.mp (hlinked link' hlink')
    rw [hpid] at hq
    rw [hget _ q hq]
    rfl
  · have hmem := Store.get_of_mem (S := products) (t := .product) hv.ids (h.mem_product.mpr (.inr rfl))
    rw [hpid]
    exact Option.isSome_iff_exists.mpr ⟨p, hmem⟩

end Publish
end Phyllonix.Products
