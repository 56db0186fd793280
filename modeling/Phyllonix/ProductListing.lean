import Phyllonix.KeysetPages
import Phyllonix.ProductCursor
import Mathlib.Data.Prod.Lex

/-!
# The product listing

Products are listed by descending creation time and ascending id. A client reads a page,
and follows its cursor while there is more: it meets every product of the first read once,
also when newer products are created meanwhile.
-/

namespace Phyllonix.Catalog

/-- The selected columns of a product. -/
structure Product where
  id : ℤ
  public_id : UUID
  name : String
  /-- in paise -/
  base_price : ℤ
  created_at : Iso.DateTime

def keyset_filter (created_at_val : Iso.DateTime) (last_id : ℤ) (p : Product) : Bool :=
  p.created_at.instant < created_at_val.instant ∨
    p.created_at.instant = created_at_val.instant ∧ last_id < p.id

/-- `desc(created_at), id` -/
def orderKey (created_at : Iso.DateTime) (id : ℤ) : ℤᵒᵈ ×ₗ ℤ :=
  toLex (OrderDual.toDual created_at.instant, id)

def Product.orderKey (p : Product) : ℤᵒᵈ ×ₗ ℤ := Catalog.orderKey p.created_at p.id

/-- One row more than the limit, to see whether there is more. -/
def fetch_prods (table : List Product) (cursor_vals : Option (Iso.DateTime × ℤ)) (limit : ℕ) :
    List Product :=
  let rows := match cursor_vals with
    | some (created_at_val, last_id) => table.filter (keyset_filter created_at_val last_id)
    | none => table
  (rows.insertionSort fun p q => p.orderKey ≤ q.orderKey).take (limit + 1)

structure Item where
  id : List Char
  public_id : String
  name : String
  price : ℤ
  created_at : List Char

/-- A price of zero stays zero: `int(base_price or 0)`. -/
def Product.item (p : Product) : Item where
  id := Numeral.decimal p.id
  public_id := uuidStr p.public_id
  name := p.name
  price := p.base_price
  created_at := p.created_at.isoformat

structure Page where
  items : List Item
  next_cursor : Option (List Char)
  has_more : Bool

/-- `int(value)` -/
def toInt : JsonText.Value → Except AppErr ℤ
  | .str s =>
    match Numeral.integer? s with
    | some n => .ok n
    | none => .error (.other "invalid literal for int() with base 10")
  | .int n => .ok n
  | .bool b => .ok b.toInt
  | .real numeral =>
    match JsonText.real? numeral with
    | some q => .ok (q.num.tdiv q.den)
    | none => .error (.other "cannot convert float to integer")
  | _ => .error (.typeError "int() argument must be a string, a bytes-like object or a real number")

/-- A request for a page: the table it reads and the seconds of the clock when its cursor is
decoded and when the next is minted. -/
structure PageRead where
  products : List Product
  limit : ℕ
  decoded : ℤ
  minted : ℤ

variable (hmac : List UInt8 → List UInt8)

def cursorVals (now : ℤ) (cursor : Option (List Char)) : Except AppErr (Option (Iso.DateTime × ℤ)) :=
  match cursor with
  | none | some [] => .ok none
  | some token => do
    let (prod_created_at, last_prod_id) ← decode_cursor hmac now (some (24 * 3600)) token
    let last_id ← toInt last_prod_id
    .ok (some (prod_created_at, last_id))

def loader (r : PageRead) (cursor_vals : Option (Iso.DateTime × ℤ)) : Page :=
  let rows := fetch_prods r.products cursor_vals r.limit
  let has_more : Bool := r.limit < rows.length
  let page_rows := rows.take r.limit
  { items := page_rows.map Product.item
    next_cursor :=
      if has_more then
        page_rows.getLast?.map fun last => encode_cursor hmac r.minted last.created_at last.id 3600
      else none
    has_more }

def get_products (r : PageRead) (cursor : Option (List Char)) : Except AppErr Page := do
  let cursor_vals ← cursorVals hmac r.decoded cursor
  .ok (loader hmac r cursor_vals)

/-- The pages of a client that follows the cursors, and whether it came to the last. -/
def follow (reads : ℕ → PageRead) : ℕ → ℕ → Option (List Char) → Except AppErr (List Page × Bool)
  | 0, _, _ => .ok ([], false)
  | n + 1, k, cursor => do
    let page ← get_products hmac (reads k) cursor
    if page.has_more then
      let (pages, ended) ← follow reads n (k + 1) page.next_cursor
      .ok (page :: pages, ended)
    else .ok ([page], true)

/-! ## The query reads what remains -/

theorem keyset_filter_iff (t : Iso.DateTime) (last_id : ℤ) (p : Product) :
    keyset_filter t last_id p = true ↔ orderKey t last_id < p.orderKey := by
  simp only [keyset_filter, decide_eq_true_eq, Product.orderKey, orderKey, Prod.Lex.toLex_lt_toLex,
    OrderDual.toDual_lt_toDual, EmbeddingLike.apply_eq_iff_eq]
  exact or_congr Iff.rfl (and_congr eq_comm Iff.rfl)

theorem fetch_prods_none (table : List Product) (limit : ℕ) :
    fetch_prods table none limit = (Keyset.remaining Product.orderKey none table).take (limit + 1) := by
  have hall : (table.filter fun p => ∀ k ∈ (none : Option (ℤᵒᵈ ×ₗ ℤ)), k < p.orderKey) = table :=
    List.filter_eq_self.2 fun p _ => by simp
  rw [fetch_prods, Keyset.remaining, hall]

theorem fetch_prods_some (table : List Product) (t : Iso.DateTime) (last_id : ℤ) (limit : ℕ) :
    fetch_prods table (some (t, last_id)) limit =
      (Keyset.remaining Product.orderKey (some (orderKey t last_id)) table).take (limit + 1) := by
  have hfilter : table.filter (keyset_filter t last_id) =
      table.filter fun p => ∀ k ∈ some (orderKey t last_id), k < p.orderKey := by
    refine List.filter_congr fun p _ => ?_
    rw [Bool.eq_iff_iff, keyset_filter_iff]
    simp
  rw [fetch_prods, Keyset.remaining, ← hfilter]

/-! ## A page -/

section
variable {r : PageRead} {cursor_vals : Option (Iso.DateTime × ℤ)} {rows : List Product}

theorem loader_items (hrows : fetch_prods r.products cursor_vals r.limit = rows.take (r.limit + 1)) :
    (loader hmac r cursor_vals).items = (rows.take r.limit).map Product.item := by
  rw [loader, hrows, List.take_take, Nat.min_eq_left (Nat.le_succ _)]

theorem loader_has_more (hrows : fetch_prods r.products cursor_vals r.limit = rows.take (r.limit + 1)) :
    (loader hmac r cursor_vals).has_more = true ↔ r.limit < rows.length := by
  rw [loader, hrows, decide_eq_true_eq, List.length_take]
  omega

theorem loader_next_cursor (hrows : fetch_prods r.products cursor_vals r.limit = rows.take (r.limit + 1))
    (hmore : r.limit < rows.length) {last : Product} (hlast : (rows.take r.limit).getLast? = some last) :
    (loader hmac r cursor_vals).next_cursor =
      some (encode_cursor hmac r.minted last.created_at last.id 3600) := by
  have hlen : r.limit < (rows.take (r.limit + 1)).length := by
    rw [List.length_take]
    omega
  simp only [loader, hrows, List.take_take, Nat.min_eq_left (Nat.le_succ r.limit), hlast, Option.map_some,
    decide_eq_true hlen, if_true]

end

theorem cursorVals_encode {now later : ℤ} (hage : later - now ≤ 24 * 3600) (t : Iso.DateTime) (id ttl : ℤ) :
    cursorVals hmac later (some (encode_cursor hmac now t id ttl)) = .ok (some (t, id)) := by
  have hint : toInt (.str (Numeral.decimal id)) = .ok id := by
    rw [toInt, Numeral.integer?_decimal]
  have hcons : ∃ c cs, encode_cursor hmac now t id ttl = c :: cs := by
    rw [encode_cursor]
    cases Base64.rstrip _ with
    | nil => exact ⟨_, _, rfl⟩
    | cons c cs => exact ⟨c, _, rfl⟩
  obtain ⟨c, cs, hcs⟩ := hcons
  have hdecode : decode_cursor hmac later (some (24 * 3600)) (encode_cursor hmac now t id ttl) =
      .ok (t, .str (Numeral.decimal id)) :=
    decode_encode_cursor hmac now t id ttl fun m hm => Option.some.inj hm ▸ hage
  rw [hcs] at hdecode ⊢
  rw [cursorVals, hdecode]
  · simp only [bind, Except.bind, hint]
  · exact List.cons_ne_nil c cs

/-! ## The pages of a traversal -/

/-- What the table of each read holds: the products of the first, and newer ones. -/
structure Inserting (reads : ℕ → PageRead) : Prop where
  distinct : ((reads 0).products.map Product.id).Nodup
  newer : ∀ k, ∃ inserted, (reads k).products.Perm ((reads 0).products ++ inserted) ∧
    ∀ p ∈ inserted, ∀ q ∈ (reads 0).products, q.created_at.instant < p.created_at.instant
  limit_le : ∀ k, 1 ≤ (reads k).limit ∧ (reads k).limit ≤ 100
  /-- a cursor is followed within its age limit -/
  fresh : ∀ k, (reads (k + 1)).decoded - (reads k).minted ≤ 24 * 3600

/-- The order of the listing. -/
def Precedes (p q : Product) : Prop :=
  q.created_at.instant < p.created_at.instant ∨
    p.created_at.instant = q.created_at.instant ∧ p.id < q.id

theorem precedes_iff {p q : Product} : Precedes p q ↔ p.orderKey < q.orderKey := by
  simp only [Precedes, Product.orderKey, orderKey, Prod.Lex.toLex_lt_toLex, OrderDual.toDual_lt_toDual,
    EmbeddingLike.apply_eq_iff_eq]

theorem orderKey_nodup {table : List Product} (h : (table.map Product.id).Nodup) :
    (table.map Product.orderKey).Nodup := by
  have hid : table.map Product.id = (table.map Product.orderKey).map fun k => (ofLex k).2 := by
    rw [List.map_map]
    rfl
  exact (hid ▸ h).of_map

variable {hmac} {reads : ℕ → PageRead}

/-- The rows still to come when a page is read at `k` with the cursor. -/
def Awaits (hmac : List UInt8 → List UInt8) (reads : ℕ → PageRead) (k : ℕ) (cursor : Option (List Char))
    (rest : List Product) : Prop :=
  ∃ cursor_vals, cursorVals hmac (reads k).decoded cursor = .ok cursor_vals ∧
    fetch_prods (reads k).products cursor_vals (reads k).limit = rest.take ((reads k).limit + 1)

theorem awaits_after (h : Inserting reads) {front rest : List Product} {p : Product} {k : ℕ} {ttl : ℤ}
    (hordered : Keyset.Ordered Product.orderKey (front ++ p :: rest))
    (hperm : (front ++ p :: rest).Perm (reads 0).products) :
    Awaits hmac reads (k + 1) (some (encode_cursor hmac (reads k).minted p.created_at p.id ttl)) rest := by
  obtain ⟨inserted, htable, hnewer⟩ := h.newer (k + 1)
  refine ⟨some (p.created_at, p.id), cursorVals_encode hmac (h.fresh k) _ _ _, ?_⟩
  have hinserted : ∀ x ∈ inserted, ∀ y ∈ (reads 0).products, x.orderKey < y.orderKey :=
    fun x hx y hy => precedes_iff.1 (.inl (hnewer x hx y hy))
  rw [fetch_prods_some]
  exact congrArg (List.take _) (Keyset.remaining_after hordered hperm htable hinserted)

theorem follow_awaits (h : Inserting reads) {listing : List Product}
    (hordered : Keyset.Ordered Product.orderKey listing) (hperm : listing.Perm (reads 0).products)
    {n k : ℕ} {cursor : Option (List Char)} {front rest : List Product} (hlisting : listing = front ++ rest)
    (hawaits : Awaits hmac reads k cursor rest) (hn : rest.length < n) :
    ∃ pages, follow hmac reads n k cursor = .ok (pages, true) ∧
      pages.flatMap Page.items = rest.map Product.item := by
  induction n generalizing k cursor front rest with
  | zero => exact absurd hn (Nat.not_lt_zero _)
  | succ n ih =>
    obtain ⟨cursor_vals, hcursor, hrows⟩ := hawaits
    have hget : get_products hmac (reads k) cursor = .ok (loader hmac (reads k) cursor_vals) := by
      rw [get_products, hcursor]
      rfl
    have hitems := loader_items hmac hrows
    have hmore := loader_has_more hmac hrows
    by_cases hlt : (reads k).limit < rest.length
    · obtain ⟨init, p, hinit⟩ : ∃ init p, rest.take (reads k).limit = init ++ [p] := by
        have hne : rest.take (reads k).limit ≠ [] := by
          have hpos := (h.limit_le k).1
          rw [← List.length_pos_iff, List.length_take]
          omega
        exact ⟨_, _, (List.dropLast_append_getLast hne).symm⟩
      have hsplit : listing = (front ++ init) ++ p :: rest.drop (reads k).limit := by
        rw [List.append_assoc, ← List.singleton_append, ← List.append_assoc init, ← hinit,
          List.take_append_drop, hlisting]
      have hnext := loader_next_cursor hmac hrows hlt (by rw [hinit, List.getLast?_concat])
      have hlisting' : listing = (front ++ init ++ [p]) ++ rest.drop (reads k).limit := by
        rw [hsplit, List.append_assoc _ [p], List.singleton_append]
      have hlen : (rest.drop (reads k).limit).length < n := by
        have hpos := (h.limit_le k).1
        rw [List.length_drop]
        omega
      have hawaits : Awaits hmac reads (k + 1)
          (some (encode_cursor hmac (reads k).minted p.created_at p.id 3600))
          (rest.drop (reads k).limit) := awaits_after h (hsplit ▸ hordered) (hsplit ▸ hperm)
      obtain ⟨pages, hfollow, hpages⟩ := ih hlisting' hawaits hlen
      refine ⟨loader hmac (reads k) cursor_vals :: pages, ?_, ?_⟩
      · rw [follow, hget]
        simp only [bind, Except.bind, hmore.2 hlt, if_true, hnext, hfollow]
      · rw [List.flatMap_cons, hitems, hpages, ← List.map_append, List.take_append_drop]
    · have hall : rest.take (reads k).limit = rest := List.take_of_length_le (not_lt.1 hlt)
      have hlast : (loader hmac (reads k) cursor_vals).has_more = false :=
        Bool.eq_false_iff.2 fun hm => hlt (hmore.1 hm)
      refine ⟨[loader hmac (reads k) cursor_vals], ?_, ?_⟩
      · rw [follow, hget]
        simp only [bind, Except.bind, hlast, Bool.false_eq_true, if_false]
      · rw [List.flatMap_singleton, hitems, hall]

/-- A traversal ends, and its pages hold the products of the first read once each, in the order of the
listing, whatever newer products are created on the way. -/
theorem pagination_complete (hmac : List UInt8 → List UInt8) (reads : ℕ → PageRead)
    (h : Inserting reads) :
    ∃ listing : List Product, listing.Perm (reads 0).products ∧ listing.Pairwise Precedes ∧
      ∀ n, (reads 0).products.length < n →
        ∃ pages, follow hmac reads n 0 none = .ok (pages, true) ∧
          pages.flatMap Page.items = listing.map Product.item := by
  have hperm : (Keyset.remaining Product.orderKey none (reads 0).products).Perm (reads 0).products :=
    Keyset.remaining_none_perm _
  have hordered := Keyset.remaining_ordered (orderKey_nodup h.distinct)
  refine ⟨_, hperm, hordered.imp precedes_iff.2, fun n hn => ?_⟩
  have hawaits : Awaits hmac reads 0 none
      (Keyset.remaining Product.orderKey none (reads 0).products) :=
    ⟨none, rfl, fetch_prods_none _ _⟩
  exact follow_awaits h hordered hperm (List.nil_append _).symm hawaits (hperm.length_eq ▸ hn)

def firstOfMay (hour : Fin 24) : Iso.DateTime where
  year := 2024
  month := 5
  day := 1
  hour := hour
  minute := 30
  second := 0
  microsecond := 250000
  utcoffset := some 0
  year_le := by decide
  month_le := by decide
  day_le := by decide
  hour_lt := hour.isLt
  minute_lt := by decide
  second_lt := Iso.DateTime.sixty_pos
  microsecond_lt := by decide
  offset_lt := Iso.DateTime.utc_lt

/-- Two products of one moment and an older one; another arrives after the first page. -/
def busyReads (k : ℕ) : PageRead where
  products := [⟨7, 1, "tea", 900, firstOfMay 9⟩, ⟨3, 2, "cup", 450, firstOfMay 9⟩,
    ⟨5, 3, "pot", 1200, firstOfMay 8⟩] ++ if k = 0 then [] else [⟨1, 4, "jar", 0, firstOfMay 10⟩]
  limit := 1
  decoded := 1714555800 + k
  minted := 1714555800 + k

theorem busyReads_inserting : Inserting busyReads where
  distinct := by decide
  newer := by
    intro k
    refine ⟨if k = 0 then [] else [⟨1, 4, "jar", 0, firstOfMay 10⟩], by rw [busyReads]; rfl, ?_⟩
    split
    · simp
    · decide
  limit_le := fun _ => ⟨le_refl 1, show 1 ≤ 100 by decide⟩
  fresh := by
    intro k
    simp only [busyReads]
    omega

theorem pagination_complete_busyReads :
    ∃ listing : List Product, listing.Perm (busyReads 0).products ∧ listing.Pairwise Precedes ∧
      ∀ n, 3 < n → ∃ pages, follow (fun _ => List.replicate 32 0) busyReads n 0 none = .ok (pages, true) ∧
        pages.flatMap Page.items = listing.map Product.item :=
  pagination_complete _ busyReads busyReads_inserting

end Phyllonix.Catalog
