import Phyllonix.KeysetTraversals
import Phyllonix.ProductListing

/-!
# Paging through a catalogue that changes

Between the pages products are created, renamed and repriced. As their ids and creation times
stay, a client that follows the cursors sees no product twice, and has seen every product that
was there all the time when it comes to the last page.
-/

namespace Phyllonix.Catalog
variable {hmac : List UInt8 → List UInt8} {reads : ℕ → PageRead}

/-- The tables that the pages are read from. -/
structure Changing (reads : ℕ → PageRead) : Prop where
  distinct : ∀ k, ((reads k).products.map Product.id).Nodup
  created : ∀ j k, ∀ p ∈ (reads j).products, ∀ q ∈ (reads k).products, p.id = q.id →
    p.created_at.instant = q.created_at.instant
  limit_le : ∀ k, 1 ≤ (reads k).limit ∧ (reads k).limit ≤ 100
  fresh : ∀ k, (reads (k + 1)).decoded - (reads k).minted ≤ 24 * 3600

def tables (reads : ℕ → PageRead) (k : ℕ) : List Product := (reads k).products

def limits (reads : ℕ → PageRead) (k : ℕ) : ℕ := (reads k).limit

theorem fetch_prods_eq (table : List Product) (cursor_vals : Option (Iso.DateTime × ℤ)) (limit : ℕ) :
    fetch_prods table cursor_vals limit =
      (Keyset.remaining Product.orderKey (cursor_vals.map fun c => orderKey c.1 c.2) table).take (limit + 1) := by
  cases cursor_vals with
  | none => exact fetch_prods_none table limit
  | some c => exact fetch_prods_some table c.1 c.2 limit

/-- The traversal from the `k`-th page on. -/
def traversal (reads : ℕ → PageRead) (n k : ℕ) (cursor_vals : Option (Iso.DateTime × ℤ)) :
    List (List Product) × Bool :=
  Keyset.traverse Product.orderKey (tables reads) (limits reads) n k (cursor_vals.map fun c => orderKey c.1 c.2)

/-- The pages of a client are those of the traversal. -/
theorem follow_traversal (h : Changing reads) {n k : ℕ} {cursor : Option (List Char)}
    {cursor_vals : Option (Iso.DateTime × ℤ)}
    (hcursor : cursorVals hmac (reads k).decoded cursor = .ok cursor_vals) :
    ∃ pages, follow hmac reads n k cursor = .ok (pages, (traversal reads n k cursor_vals).2) ∧
      pages.map Page.items = (traversal reads n k cursor_vals).1.map (List.map Product.item) := by
  induction n generalizing k cursor cursor_vals with
  | zero => exact ⟨[], rfl, rfl⟩
  | succ n ih =>
    have hget : get_products hmac (reads k) cursor = .ok (loader hmac (reads k) cursor_vals) := by
      rw [get_products, hcursor]
      rfl
    have hrows := fetch_prods_eq (reads k).products cursor_vals (reads k).limit
    have hitems := loader_items hmac hrows
    have hmore := loader_has_more hmac hrows
    by_cases hlt : (reads k).limit <
        (Keyset.remaining Product.orderKey (cursor_vals.map fun c => orderKey c.1 c.2) (reads k).products).length
    · obtain ⟨init, p, htake, -⟩ := Keyset.page_last (show 1 ≤ limits reads k from (h.limit_le k).1) hlt
      have htake' : (Keyset.remaining Product.orderKey (cursor_vals.map fun c => orderKey c.1 c.2)
          (reads k).products).take (reads k).limit = init ++ [p] := htake
      have hnext := loader_next_cursor hmac hrows hlt (by rw [htake', List.getLast?_concat])
      have hcursor' : cursorVals hmac (reads (k + 1)).decoded
          (some (encode_cursor hmac (reads k).minted p.created_at p.id 3600)) = .ok (some (p.created_at, p.id)) :=
        cursorVals_encode hmac (h.fresh k) _ _ _
      obtain ⟨pages, hfollow, hpages⟩ := ih hcursor'
      have hstep : traversal reads (n + 1) k cursor_vals = ((init ++ [p]) ::
          (traversal reads n (k + 1) (some (p.created_at, p.id))).1,
          (traversal reads n (k + 1) (some (p.created_at, p.id))).2) := Keyset.traverse_more hlt htake
      refine ⟨loader hmac (reads k) cursor_vals :: pages, ?_, ?_⟩
      · rw [follow, hget, hstep]
        simp only [bind, Except.bind, hmore.2 hlt, if_true, hnext, hfollow]
      · rw [hstep, List.map_cons, List.map_cons, hitems, htake', hpages]
    · have hlast : (loader hmac (reads k) cursor_vals).has_more = false :=
        Bool.eq_false_iff.2 fun hm => hlt (hmore.1 hm)
      have hstep : traversal reads (n + 1) k cursor_vals = ([Keyset.remaining Product.orderKey
          (cursor_vals.map fun c => orderKey c.1 c.2) (reads k).products], true) := Keyset.traverse_last hlt
      refine ⟨[loader hmac (reads k) cursor_vals], ?_, ?_⟩
      · rw [follow, hget, hstep]
        simp only [bind, Except.bind, hlast, Bool.false_eq_true, if_false]
      · rw [hstep, List.map_singleton, List.map_singleton, hitems, List.take_of_length_le (not_lt.1 hlt)]

/-- The rows that a client has been shown, page by page. -/
structure Shown (reads : ℕ → PageRead) (pages : List Page) (ended : Bool) (rows : List (List Product)) : Prop where
  items : pages.map Page.items = rows.map (List.map Product.item)
  /-- each page shows rows as they were when it was read -/
  current : ∀ j page, rows[j]? = some page → ∀ p ∈ page, p ∈ (reads j).products
  ordered : rows.flatten.Pairwise Precedes
  once : (rows.flatten.map Product.id).Nodup
  complete : ended = true → ∀ id, (∀ j < rows.length, id ∈ (reads j).products.map Product.id) →
    id ∈ rows.flatten.map Product.id

theorem Changing.keys_nodup (h : Changing reads) (k : ℕ) : ((tables reads k).map Product.orderKey).Nodup :=
  orderKey_nodup (h.distinct k)

/-- A product keeps its place in the order. -/
theorem Changing.orderKey_eq (h : Changing reads) {j k : ℕ} {p q : Product} (hp : p ∈ (reads j).products)
    (hq : q ∈ (reads k).products) (hid : p.id = q.id) : p.orderKey = q.orderKey := by
  rw [Product.orderKey, Product.orderKey, orderKey, orderKey, h.created j k p hp q hq hid, hid]

theorem shown_traversal (h : Changing reads) {n : ℕ} {pages : List Page}
    (hitems : pages.map Page.items = (traversal reads n 0 none).1.map (List.map Product.item)) :
    Shown reads pages (traversal reads n 0 none).2 (traversal reads n 0 none).1 := by
  have hlimit : ∀ k, 1 ≤ limits reads k := fun k => (h.limit_le k).1
  have hordered : Keyset.Ordered Product.orderKey (traversal reads n 0 none).1.flatten :=
    Keyset.traverse_ordered hlimit h.keys_nodup
  have hcurrent : ∀ j page, (traversal reads n 0 none).1[j]? = some page →
      ∀ p ∈ page, p ∈ (reads j).products := by
    intro j page hpage p hp
    have hrow := Keyset.traverse_rows hlimit hpage hp
    rwa [Nat.zero_add] at hrow
  have hmem : ∀ p ∈ (traversal reads n 0 none).1.flatten, ∃ j, p ∈ (reads j).products := by
    intro p hp
    obtain ⟨page, hpage, hp⟩ := List.mem_flatten.1 hp
    obtain ⟨j, hj⟩ := List.mem_iff_getElem?.1 hpage
    exact ⟨j, hcurrent j page hj p hp⟩
  refine ⟨hitems, hcurrent, hordered.imp precedes_iff.2, ?_, fun hend id hthere => ?_⟩
  · refine List.pairwise_map.2 (hordered.imp_of_mem fun {p q} hp hq hlt hid => ?_)
    obtain ⟨j, hj⟩ := hmem p hp
    obtain ⟨k, hk⟩ := hmem q hq
    exact hlt.ne (h.orderKey_eq hj hk hid)
  · have hpos : 0 < (traversal reads n 0 none).1.length :=
      List.length_pos_iff.2 (Keyset.traverse_ne_nil hend)
    obtain ⟨p, hp, rfl⟩ := List.mem_map.1 (hthere 0 hpos)
    have hkey := Keyset.traverse_complete (c := p.orderKey) hlimit h.keys_nodup hend (fun c hc => by cases hc)
      fun j hj => by
        obtain ⟨q, hq, hid⟩ := List.mem_map.1 (hthere j hj)
        rw [Nat.zero_add]
        exact List.mem_map.2 ⟨q, hq, h.orderKey_eq hq hp hid⟩
    obtain ⟨q, hq, hqp⟩ := List.mem_map.1 hkey
    refine List.mem_map.2 ⟨q, hq, ?_⟩
    exact congrArg (fun k => (ofLex k).2) hqp

/-- A client that asks for more pages than products come up gets to the last. -/
theorem traversal_ends (h : Changing reads) {n : ℕ} {pages : List Page} {ended : Bool}
    (hshown : Shown reads pages ended (traversal reads n 0 none).1) {ids : List ℤ}
    (hids : ∀ k, ∀ p ∈ (reads k).products, p.id ∈ ids) (hlen : ids.length < n) :
    (traversal reads n 0 none).2 = true := by
  by_contra hgoes
  have hmany : n ≤ (traversal reads n 0 none).1.flatten.length :=
    Keyset.traverse_length (fun k => (h.limit_le k).1) (Bool.eq_false_iff.2 hgoes)
  have hsub : (traversal reads n 0 none).1.flatten.map Product.id ⊆ ids := by
    intro id hid
    obtain ⟨p, hp, rfl⟩ := List.mem_map.1 hid
    obtain ⟨page, hpage, hp⟩ := List.mem_flatten.1 hp
    obtain ⟨j, hj⟩ := List.mem_iff_getElem?.1 hpage
    exact hids j p (hshown.current j page hj p hp)
  have hle := (hshown.once.subperm hsub).length_le
  rw [List.length_map] at hle
  omega

/-- A client pages through a catalogue that changes: it never fails, it sees no product twice, it ends when
no more products come up than it asks for pages, and then it has seen all that were there throughout. -/
theorem traversal_once (hmac : List UInt8 → List UInt8) (reads : ℕ → PageRead) (h : Changing reads) (n : ℕ) :
    ∃ pages ended rows, follow hmac reads n 0 none = .ok (pages, ended) ∧ Shown reads pages ended rows ∧
      ∀ ids : List ℤ, (∀ k, ∀ p ∈ (reads k).products, p.id ∈ ids) → ids.length < n → ended = true := by
  have hcursor : cursorVals hmac (reads 0).decoded none = .ok none := rfl
  obtain ⟨pages, hfollow, hitems⟩ := follow_traversal h (n := n) hcursor
  have hshown := shown_traversal h hitems
  exact ⟨pages, _, _, hfollow, hshown, fun ids hids hlen => traversal_ends h hshown hids hlen⟩

/-- Between the pages a product is renamed, and others come and go. -/
def livelyReads (k : ℕ) : PageRead where
  products :=
    let tea : Product := ⟨7, 1, "tea", 900, firstOfMay (Fin.last 23)⟩
    let cup : Product := ⟨3, 2, "cup", 450, firstOfMay (Fin.last 23)⟩
    if k = 0 then [tea, cup]
    else [{ cup with name := "mug", base_price := 500 }, tea, ⟨5, 3, "pot", 1200, firstOfMay (Fin.last 23).rev⟩]
  limit := 1
  decoded := 1714555800 + k
  minted := 1714555800 + k

theorem livelyReads_changing : Changing livelyReads where
  distinct := by
    intro k
    rw [livelyReads]
    dsimp only
    split <;> decide
  created := by
    have hall : ∀ b c : Bool, ∀ p ∈ (if b then (livelyReads 0).products else (livelyReads 1).products),
        ∀ q ∈ (if c then (livelyReads 0).products else (livelyReads 1).products), p.id = q.id →
          p.created_at.instant = q.created_at.instant := by
      decide
    have hcases : ∀ k, ∃ b : Bool, (livelyReads k).products =
        if b then (livelyReads 0).products else (livelyReads 1).products := by
      intro k
      by_cases hk : k = 0
      · exact ⟨true, by rw [hk]; rfl⟩
      · refine ⟨false, ?_⟩
        rw [livelyReads]
        exact if_neg hk
    intro j k p hp q hq
    obtain ⟨b, hb⟩ := hcases j
    obtain ⟨c, hc⟩ := hcases k
    exact hall b c p (hb ▸ hp) q (hc ▸ hq)
  limit_le := fun _ => ⟨le_refl 1, show 1 ≤ 100 by decide⟩
  fresh := by
    intro k
    simp only [livelyReads]
    omega

theorem traversal_once_livelyReads : ∃ pages rows,
    follow (fun _ => List.replicate 32 0) livelyReads 4 0 none = .ok (pages, true) ∧
      Shown livelyReads pages true rows := by
  obtain ⟨pages, ended, rows, hfollow, hshown, hends⟩ :=
    traversal_once (fun _ => List.replicate 32 0) livelyReads livelyReads_changing 4
  have hended : ended = true := by
    refine hends [3, 5, 7] (fun k p hp => ?_) (by decide)
    rw [livelyReads] at hp
    dsimp only at hp
    split at hp <;> simp at hp
    · rcases hp with rfl | rfl <;> simp
    · rcases hp with rfl | rfl | rfl <;> simp
  subst hended
  exact ⟨pages, rows, hfollow, hshown⟩

end Phyllonix.Catalog
