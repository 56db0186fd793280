import Phyllonix.CatalogueHistory
import Phyllonix.ListingTraversals

/-!
# Paging while products are created and updated

A client follows the listing while the product handlers run. Each page is computed from a
committed version of the catalogue, not always the newest, as pages are cached.
-/

namespace Phyllonix.Products
open Relational
variable {n : ℕ}

/-- The columns that the listing selects; `stamp` is how the driver returns a time. -/
def Product.listed (stamp : ℕ → Iso.DateTime) (p : Product) : Catalog.Product where
  id := p.id
  public_id := p.publicId
  name := p.name
  base_price := p.basePrice
  created_at := stamp p.createdAt

/-- Pages that are read from committed versions. -/
structure ReadsOf (stamp : ℕ → Iso.DateTime) (d₀ : Db) (x : List (Commit products n))
    (reads : ℕ → Catalog.PageRead) : Prop where
  version : ∀ k, ∃ es, es <:+ x ∧
    (reads k).products = (Ledger.lastStore d₀ es .product).map fun p : Product => p.listed stamp
  limit_le : ∀ k, 1 ≤ (reads k).limit ∧ (reads k).limit ≤ 100
  fresh : ∀ k, (reads (k + 1)).decoded - (reads k).minted ≤ 24 * 3600

section Reads
variable {lib : ProductLib} {reqs : Fin n → ProductRequest} {names : Set String} {d₀ d : Db}
variable {x es es' : List (Commit products n)} {stamp : ℕ → Iso.DateTime} {reads : ℕ → Catalog.PageRead}

theorem version_kept (h : (ledger lib names reqs).Logged d₀ x d) (hsuf : es <:+ x) :
    Kept (Ledger.lastStore d₀ es) d := later_kept (h.later hsuf)

theorem Kept.mem {d d' : Db} (h : Kept d d') (hd : d.Wf) {p : Product} (hp : p ∈ d .product) :
    ∃ p' : Product, p' ∈ d' .product ∧ p'.id = p.id ∧ p'.createdAt = p.createdAt := by
  obtain ⟨p', hp', -, -, hcreated, -⟩ := h.rows _ p (Store.get_of_mem (S := products) (t := .product) hd.ids hp)
  exact ⟨p', Store.mem_of_get hp', Store.id_of_get hp', hcreated⟩

/-- Products of one id, from whatever versions, were created at one time. -/
theorem created_eq (hd₀ : d₀.Wf) (h : (ledger lib names reqs).Logged d₀ x d) (hes : es <:+ x) (hes' : es' <:+ x)
    {p q : Product} (hp : p ∈ Ledger.lastStore d₀ es .product) (hq : q ∈ Ledger.lastStore d₀ es' .product)
    (hid : p.id = q.id) : p.createdAt = q.createdAt := by
  obtain ⟨p', hp', hpid, hpc⟩ := (version_kept h hes).mem (logged_wf hd₀ (h.suffix hes)) hp
  obtain ⟨q', hq', hqid, hqc⟩ := (version_kept h hes').mem (logged_wf hd₀ (h.suffix hes')) hq
  have hsame := product_of_id (logged_wf hd₀ h) hp' hq' (hpid.trans (hid.trans hqid.symm))
  rw [← hpc, ← hqc, hsame]

theorem ReadsOf.changing (hd₀ : d₀.Wf) (h : (ledger lib names reqs).Logged d₀ x d)
    (hreads : ReadsOf stamp d₀ x reads) : Catalog.Changing reads := by
  refine ⟨fun k => ?_, fun j k p hp q hq hid => ?_, hreads.limit_le, hreads.fresh⟩
  · obtain ⟨es, hes, hproducts⟩ := hreads.version k
    have hids := (logged_wf hd₀ (h.suffix hes)).ids .product
    have hcast := hids.map (f := fun i : ℕ => (i : ℤ)) Nat.cast_injective
    rw [List.map_map] at hcast
    rw [hproducts, List.map_map]
    exact hcast
  · obtain ⟨es, hes, hproducts⟩ := hreads.version j
    obtain ⟨es', hes', hproducts'⟩ := hreads.version k
    rw [hproducts] at hp
    rw [hproducts'] at hq
    obtain ⟨p, hp', rfl⟩ := List.mem_map.mp hp
    obtain ⟨q, hq', rfl⟩ := List.mem_map.mp hq
    have hid' : p.id = q.id := Nat.cast_injective (R := ℤ) hid
    have hcreated := created_eq hd₀ h hes hes' hp' hq' hid'
    simp only [Product.listed, hcreated]

end Reads

/-- Whatever creates and updates run meanwhile, a client that asks for more pages than there are products
comes to the end; it has seen every product of the start, and none twice. -/
theorem listing_complete {lib : ProductLib} {reqs : Fin n → ProductRequest} {w : World products productHost}
    {s : Sys products productHost n (Except (Exn AppErr) Reply)} {x : List (Commit products n)}
    {stamp : ℕ → Iso.DateTime} {reads : ℕ → Catalog.PageRead} (hmac : List UInt8 → List UInt8) (hw : w.Ok)
    (hlinked : Linked w.db)
    (h : Sys.Run (fun _ _ _ _ _ => True) History.commits (productRequests lib reqs w) [] s x)
    (hreads : ReadsOf stamp w.db x reads) {m : ℕ} (hm : (s.world.db .product).length < m) :
    ∃ pages rows, Catalog.follow hmac reads m 0 none = .ok (pages, true) ∧ Catalog.Shown reads pages true rows ∧
      ∀ p : Product, p ∈ w.db .product → (rows.flatten.map Catalog.Product.id).count (p.id : ℤ) = 1 := by
  obtain ⟨hlog, -⟩ := products_report hw hlinked h
  have hchanging := hreads.changing hw.wf hlog
  have hcursor : Catalog.cursorVals hmac (reads 0).decoded none = .ok none := rfl
  obtain ⟨pages, hfollow, hitems⟩ := Catalog.follow_traversal hchanging (n := m) hcursor
  have hshown := Catalog.shown_traversal hchanging hitems
  have hids : ∀ k, ∀ p ∈ (reads k).products,
      p.id ∈ (s.world.db .product).map fun p : Product => (p.id : ℤ) := by
    intro k q hq
    obtain ⟨es, hes, hproducts⟩ := hreads.version k
    rw [hproducts] at hq
    obtain ⟨p, hp, rfl⟩ := List.mem_map.mp hq
    obtain ⟨p', hp', hid, -⟩ := (version_kept hlog hes).mem (logged_wf hw.wf (hlog.suffix hes)) hp
    exact List.mem_map.mpr ⟨p', hp', congrArg _ hid⟩
  have hended := Catalog.traversal_ends hchanging hshown hids (by rwa [List.length_map])
  rw [hended] at hfollow hshown
  refine ⟨pages, _, hfollow, hshown, fun p hp => List.count_eq_one_of_mem hshown.once ?_⟩
  refine hshown.complete rfl _ fun j _ => ?_
  obtain ⟨es, hes, hproducts⟩ := hreads.version j
  have hstart : Kept w.db (Ledger.lastStore w.db es) := logged_kept (hlog.suffix hes)
  obtain ⟨p', hp', hid, -⟩ := hstart.mem hw.wf hp
  rw [hproducts, List.map_map]
  exact List.mem_map.mpr ⟨p', hp', congrArg (fun i : ℕ => (i : ℤ)) hid⟩

/-- The first page is read at the start, the others at the end. -/
def pagesAround (x : List (Commit products 3)) (k : ℕ) : Catalog.PageRead where
  products := (Ledger.lastStore oneProduct.db (if k = 0 then [] else x) .product).map fun p : Product =>
    p.listed fun _ => Catalog.firstOfMay (Fin.last 23)
  limit := 1
  decoded := 1714555800 + k
  minted := 1714555800 + k

theorem pagesAround_reads (x : List (Commit products 3)) :
    ReadsOf (fun _ => Catalog.firstOfMay (Fin.last 23)) oneProduct.db x (pagesAround x) where
  version := by
    intro k
    refine ⟨if k = 0 then [] else x, ?_, rfl⟩
    split
    · exact List.nil_suffix
    · exact List.suffix_refl x
  limit_le := fun _ => ⟨le_refl 1, show 1 ≤ 100 by decide⟩
  fresh := by
    intro k
    simp only [pagesAround]
    omega

theorem listing_complete_updates : ∃ s x,
    Sys.Run (fun _ _ _ _ _ => True) History.commits (productRequests plainLib threeUpdates oneProduct) [] s x ∧
      (∃ reply, s.outcome 0 = some (.ok reply)) ∧ ∃ m pages rows,
        Catalog.follow (fun _ => List.replicate 32 0) (pagesAround x) m 0 none = .ok (pages, true) ∧
          Catalog.Shown (pagesAround x) pages true rows ∧ (rows.flatten.map Catalog.Product.id).count 1 = 1 := by
  obtain ⟨s, x, hrun, h₀, -⟩ := threeUpdates_run
  obtain ⟨pages, rows, hfollow, hshown, hall⟩ := listing_complete (fun _ => List.replicate 32 0) oneProduct_ok
    oneProduct_linked hrun (pagesAround_reads x) (Nat.lt_succ_self _)
  exact ⟨s, x, hrun, h₀, _, pages, rows, hfollow, hshown, hall _ List.mem_cons_self⟩

end Phyllonix.Products
