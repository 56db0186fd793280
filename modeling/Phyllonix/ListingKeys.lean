import Phyllonix.ListingCache
import Phyllonix.ProductListing

/-!
# The keys of the listing cache

The key of a page is made of the request's parameters, joined by bars that the free texts are
not searched for, and hashed where it is long.
-/

namespace Phyllonix.Catalog

def canonical_cursor_key : Option (Iso.DateTime × ℤ) → String
  | none => "start"
  | some (prod_created_at, last_prod_id) =>
    String.ofList (prod_created_at.isoformat ++ '_' :: Numeral.decimal last_prod_id)

/-- A text that is there and not empty. -/
def given (text : Option String) : Option String := text.filter (· ≠ "")

def make_params_key (sha256 : List UInt8 → String) (limit : ℤ) (cursor_token q category : Option String) :
    String :=
  let parts := ["limit=" ++ String.ofList (Numeral.decimal limit), "cursor=" ++ cursor_token.getD ""] ++
    (given q).toList.map ("q=" ++ ·) ++ (given category).toList.map ("cat=" ++ ·)
  let joined := String.intercalate "|" parts
  if 200 < joined.length then sha256 (encode joined.toList) else joined

/-- The parameters of a listing request, its cursor decoded. -/
structure ListingParams where
  limit : ℤ
  cursor_vals : Option (Iso.DateTime × ℤ)
  q : Option String
  category : Option String

/-- The key under which `get_products` reads and stores the page. -/
def ListingParams.key (sha256 : List UInt8 → String) (p : ListingParams) : String :=
  Cache.build_key sha256 ["phyl", "products_listing",
    make_params_key sha256 p.limit (some (canonical_cursor_key p.cursor_vals)) p.q p.category]

/-- The same request: an absent text and an empty one are the same. -/
def ListingParams.Same (p p' : ListingParams) : Prop :=
  p.limit = p'.limit ∧ p.cursor_vals = p'.cursor_vals ∧ given p.q = given p'.q ∧
    given p.category = given p'.category

/-! ## Long texts are hashed -/

/-- What is taken of SHA-256: no collisions, and hexadecimal digits as output. -/
structure HexDigest (sha256 : List UInt8 → String) : Prop where
  injective : Function.Injective sha256
  hex : ∀ bytes, ∀ c ∈ (sha256 bytes).toList, c.isDigit = true ∨ 'a' ≤ c ∧ c ≤ 'f'
  ne_empty : ∀ bytes, sha256 bytes ≠ ""

def shorten (sha256 : List UInt8 → String) (joined : String) : String :=
  if 200 < joined.length then sha256 (encode joined.toList) else joined

/-- A text that no digest is: one of its characters is no hexadecimal digit. -/
def Unhashed (text : String) : Prop := ∃ c ∈ text.toList, ¬ (c.isDigit = true ∨ 'a' ≤ c ∧ c ≤ 'f')

variable {sha256 : List UInt8 → String}

theorem HexDigest.ne (hsha : HexDigest sha256) {text : String} (htext : Unhashed text) (bytes : List UInt8) :
    sha256 bytes ≠ text := by
  intro h
  obtain ⟨c, hc, hhex⟩ := htext
  exact hhex (hsha.hex bytes c (h ▸ hc))

theorem shorten_inj (hsha : HexDigest sha256) {a b : String} (ha : Unhashed a) (hb : Unhashed b) :
    shorten sha256 a = shorten sha256 b ↔ a = b := by
  refine ⟨fun h => ?_, fun h => h ▸ rfl⟩
  rw [shorten, shorten] at h
  split at h <;> split at h
  · exact String.toList_inj.1 (encode_injective (hsha.injective h))
  · exact absurd h (hsha.ne hb _)
  · exact absurd h.symm (hsha.ne ha _)
  · exact h

/-- The text that is hashed when it is long. -/
def ListingParams.joined (p : ListingParams) : String :=
  String.intercalate "|" (["limit=" ++ String.ofList (Numeral.decimal p.limit),
    "cursor=" ++ canonical_cursor_key p.cursor_vals] ++
    (given p.q).toList.map ("q=" ++ ·) ++ (given p.category).toList.map ("cat=" ++ ·))

/-- A text behind its label, when there is one. -/
def labelled (label : List Char) (text : Option String) : List Char :=
  ((given text).map fun s => label ++ s.toList).getD []

theorem ListingParams.joined_toList (p : ListingParams) :
    p.joined.toList = ("limit=".toList ++ Numeral.decimal p.limit) ++ '|' ::
      (("cursor=".toList ++ (canonical_cursor_key p.cursor_vals).toList) ++
        (labelled "|q=".toList p.q ++ labelled "|cat=".toList p.category)) := by
  cases hq : given p.q <;> cases hcat : given p.category <;>
    simp [joined, labelled, hq, hcat]

theorem make_params_key_eq (p : ListingParams) :
    make_params_key sha256 p.limit (some (canonical_cursor_key p.cursor_vals)) p.q p.category =
      shorten sha256 p.joined := rfl

theorem ListingParams.joined_unhashed (p : ListingParams) : Unhashed p.joined := by
  refine ⟨'l', ?_, by decide⟩
  rw [joined_toList]
  simp

theorem prefixed_unhashed (text : String) : Unhashed ("phyl:products_listing:" ++ text) := by
  refine ⟨'p', ?_, by decide⟩
  rw [String.toList_append]
  exact List.mem_append_left _ (by decide)

theorem build_key_listing {text : String} (htext : text ≠ "") :
    Cache.build_key sha256 ["phyl", "products_listing", text] =
      shorten sha256 ("phyl:products_listing:" ++ text) := by
  have hfilter : ["phyl", "products_listing", text].filter (fun p => p ≠ "") =
      ["phyl", "products_listing", text] := by simp [htext]
  have hjoin : String.intercalate ":" ["phyl", "products_listing", text] =
      "phyl:products_listing:" ++ text := by
    rw [← String.toList_inj]
    simp
  rw [Cache.build_key, hfilter, hjoin]
  rfl

theorem shorten_ne_empty (hsha : HexDigest sha256) {text : String} (htext : text ≠ "") :
    shorten sha256 text ≠ "" := by
  rw [shorten]
  split
  · exact hsha.ne_empty _
  · exact htext

theorem ListingParams.joined_ne_empty (p : ListingParams) : p.joined ≠ "" := by
  intro h
  obtain ⟨c, hc, -⟩ := p.joined_unhashed
  rw [h] at hc
  exact absurd hc (by simp)

theorem ListingParams.key_eq (hsha : HexDigest sha256) (p : ListingParams) :
    p.key sha256 = shorten sha256 ("phyl:products_listing:" ++ shorten sha256 p.joined) := by
  rw [key, make_params_key_eq, build_key_listing (shorten_ne_empty hsha p.joined_ne_empty)]

theorem ListingParams.key_inj (hsha : HexDigest sha256) {p p' : ListingParams} :
    p.key sha256 = p'.key sha256 ↔ p.joined = p'.joined := by
  rw [key_eq hsha, key_eq hsha, shorten_inj hsha (prefixed_unhashed _) (prefixed_unhashed _),
    String.append_right_inj, shorten_inj hsha p.joined_unhashed p'.joined_unhashed]

/-! ## What the text says -/

/-- The first separator is where the parts meet. -/
theorem append_cons_inj {d : Char} {x x' y y' : List Char} (hx : d ∉ x) (hx' : d ∉ x')
    (h : x ++ d :: y = x' ++ d :: y') : x = x' ∧ y = y' := by
  have hpart {x y : List Char} (hx : d ∉ x) :
      (x ++ d :: y).takeWhile (· ≠ d) = x ∧ (x ++ d :: y).dropWhile (· ≠ d) = d :: y := by
    have hne : ∀ c ∈ x, decide (c ≠ d) = true := fun c hc => decide_eq_true fun heq => hx (heq ▸ hc)
    rw [List.takeWhile_append_of_pos hne, List.dropWhile_append_of_pos hne]
    simp
  have htake := (hpart (y := y) hx).1
  have hdrop := (hpart (y := y) hx).2
  rw [h, (hpart hx').1] at htake
  rw [h, (hpart hx').2] at hdrop
  exact ⟨htake.symm, (List.cons.inj hdrop).2.symm⟩

theorem append_bar_inj {a b t u : List Char} (ha : '|' ∉ a) (hb : '|' ∉ b)
    (ht : t = [] ∨ ∃ t', t = '|' :: t') (hu : u = [] ∨ ∃ u', u = '|' :: u') :
    a ++ t = b ++ u ↔ a = b ∧ t = u := by
  refine ⟨fun h => ?_, fun h => h.1 ▸ h.2 ▸ rfl⟩
  obtain rfl | ⟨t', rfl⟩ := ht <;> obtain rfl | ⟨u', rfl⟩ := hu
  · simpa using h
  · rw [List.append_nil] at h
    exact absurd (h ▸ List.mem_append_right _ List.mem_cons_self) ha
  · rw [List.append_nil] at h
    exact absurd (h ▸ List.mem_append_right _ List.mem_cons_self) hb
  · obtain ⟨hab, htu⟩ := append_cons_inj ha hb h
    exact ⟨hab, htu ▸ rfl⟩

theorem bar_notMem_decimal (n : ℤ) : '|' ∉ Numeral.decimal n := fun h =>
  Numeral.decimal_forall (P := (· ≠ '|')) (fun _ hc => JsonText.ne_of_isDigit hc rfl) (by decide) n '|' h rfl

theorem notMem_isoformat {d : Char} (hdigit : d.isDigit = false) (hmarks : d ∉ ['-', 'T', ':', '.', '+'])
    (t : Iso.DateTime) : d ∉ t.isoformat := fun h =>
  Iso.isoformat_forall (P := (· ≠ d)) (fun _ hc => JsonText.ne_of_isDigit hc hdigit)
    (fun _ hc heq => hmarks (heq ▸ hc)) t d h rfl

theorem bar_notMem_cursor (cursor_vals : Option (Iso.DateTime × ℤ)) :
    '|' ∉ (canonical_cursor_key cursor_vals).toList := by
  cases cursor_vals with
  | none => decide
  | some vals =>
    rw [canonical_cursor_key, String.toList_ofList]
    simp only [List.mem_append, List.mem_cons, not_or]
    exact ⟨notMem_isoformat rfl (by decide) _, by decide, bar_notMem_decimal _⟩

theorem canonical_cursor_key_injective : Function.Injective canonical_cursor_key := by
  have hstart (vals : Iso.DateTime × ℤ) : canonical_cursor_key none ≠ canonical_cursor_key (some vals) := by
    intro h
    have hmem : '_' ∈ (canonical_cursor_key (some vals)).toList := by
      rw [canonical_cursor_key, String.toList_ofList]
      exact List.mem_append_right _ List.mem_cons_self
    rw [← h] at hmem
    exact absurd hmem (by decide)
  intro a b h
  cases a with
  | none =>
    cases b with
    | none => rfl
    | some vals => exact absurd h (hstart vals)
  | some vals =>
    cases b with
    | none => exact absurd h.symm (hstart vals)
    | some vals' =>
      have htext := String.ofList_injective h
      obtain ⟨hiso, hid⟩ := append_cons_inj (notMem_isoformat rfl (by decide) _)
        (notMem_isoformat rfl (by decide) _) htext
      rw [Prod.ext (Iso.isoformat_injective hiso) (Numeral.decimal_injective hid)]

/-! ## Free texts -/

/-- The texts of the filters as they stand in the key. -/
def ListingParams.filters (p : ListingParams) : List Char :=
  labelled "|q=".toList p.q ++ labelled "|cat=".toList p.category

/-- The other request's `q` goes on, after the text of this one's, with the label of a category and the
beginning of this one's category, and what is left of it is the other's own. -/
def Absorbs (p p' : ListingParams) : Prop :=
  ∃ q cat q' rest, given p.q = some q ∧ given p.category = some cat ∧ given p'.q = some q' ∧
    q'.toList = q.toList ++ "|cat=".toList ++ rest ∧ cat.toList = rest ++ labelled "|cat=".toList p'.category

theorem labelled_some {label : List Char} {text : Option String} {s : String} (h : given text = some s) :
    labelled label text = label ++ s.toList := by
  rw [labelled, h]
  rfl

theorem labelled_none {label : List Char} {text : Option String} (h : given text = none) :
    labelled label text = [] := by
  rw [labelled, h]
  rfl

theorem Absorbs.filters_eq {p p' : ListingParams} (h : Absorbs p p') : p.filters = p'.filters := by
  obtain ⟨q, cat, q', rest, hq, hcat, hq', htext, hrest⟩ := h
  rw [ListingParams.filters, ListingParams.filters, labelled_some hq, labelled_some hcat, labelled_some hq', htext,
    hrest]
  simp only [List.append_assoc]

theorem labelled_inj {label : List Char} (hlabel : label ≠ []) {text text' : Option String}
    (h : labelled label text = labelled label text') : given text = given text' := by
  cases hs : given text with
  | none =>
    cases hs' : given text' with
    | none => rfl
    | some s' =>
      rw [labelled_none hs, labelled_some hs'] at h
      exact absurd (List.append_eq_nil_iff.1 h.symm).1 hlabel
  | some s =>
    cases hs' : given text' with
    | none =>
      rw [labelled_none hs', labelled_some hs] at h
      exact absurd (List.append_eq_nil_iff.1 h).1 hlabel
    | some s' =>
      rw [labelled_some hs, labelled_some hs'] at h
      rw [String.toList_inj.1 (List.append_cancel_left h)]

theorem labelled_bar (label : List Char) (text : Option String) :
    labelled ('|' :: label) text = [] ∨ ∃ cs, labelled ('|' :: label) text = '|' :: cs := by
  cases h : given text with
  | none => exact .inl (labelled_none h)
  | some s => exact .inr ⟨_, labelled_some h⟩

/-- Where one category's label begins after more of a `q` than the other's, all of it is in that `q`. -/
theorem label_inside {c : Char} {more cat : List Char} {category : Option String}
    (h : "|cat=".toList ++ cat = (c :: more) ++ labelled "|cat=".toList category) :
    ∃ rest, c :: more = "|cat=".toList ++ rest ∧ cat = rest ++ labelled "|cat=".toList category := by
  have hcons : '|' :: ("cat=".toList ++ cat) = c :: (more ++ labelled "|cat=".toList category) := h
  obtain ⟨rfl, htail⟩ := List.cons.inj hcons
  obtain ⟨rest, hmore, hcat⟩ | ⟨overlap, hlabel, hcat⟩ := List.append_eq_append_iff.1 htail
  · exact ⟨rest, by rw [hmore]; rfl, hcat⟩
  · cases overlap with
    | nil => exact ⟨[], by rw [List.append_nil] at hlabel; rw [← hlabel]; rfl, hcat.symm⟩
    | cons d overlap =>
      -- the label has no second bar
      have hbar : '|' ∉ "cat=".toList := by decide
      obtain hnil | ⟨cs, hcs⟩ := labelled_bar "cat=".toList category
      · exact absurd (hnil.symm.trans hcat) (by simp)
      · have hd : '|' = d := (List.cons.inj (hcs.symm.trans hcat)).1
        rw [hlabel, ← hd] at hbar
        exact absurd (List.mem_append_right _ List.mem_cons_self) hbar

theorem label_ne (q : String) (more : List Char) (category : Option String) :
    labelled "|cat=".toList category ≠ "|q=".toList ++ q.toList ++ more := by
  intro h
  cases hcat : given category with
  | none =>
    rw [labelled_none hcat] at h
    exact absurd h (by simp)
  | some cat =>
    rw [labelled_some hcat] at h
    exact absurd h (by simp)

/-- One `q` is shorter, and its category begins within the other. -/
theorem absorbs_of_longer {p p' : ListingParams} {q q' : String} {more : List Char} (hq : given p.q = some q)
    (hq' : given p'.q = some q') (htext : q'.toList = q.toList ++ more) (hne : more ≠ [])
    (hcat : labelled "|cat=".toList p.category = more ++ labelled "|cat=".toList p'.category) :
    Absorbs p p' := by
  obtain ⟨c, more, rfl⟩ := List.exists_cons_of_ne_nil hne
  cases hp : given p.category with
  | none =>
    rw [labelled_none hp] at hcat
    cases hcat
  | some cat =>
    rw [labelled_some hp] at hcat
    obtain ⟨rest, hmore, hrest⟩ := label_inside hcat
    exact ⟨q, cat, q', rest, hq, hp, hq', by rw [htext, hmore, List.append_assoc], hrest⟩

theorem filters_eq_iff {p p' : ListingParams} : p.filters = p'.filters ↔
    (given p.q = given p'.q ∧ given p.category = given p'.category) ∨ Absorbs p p' ∨ Absorbs p' p := by
  constructor
  · intro h
    rw [ListingParams.filters, ListingParams.filters] at h
    cases hq : given p.q with
    | none =>
      cases hq' : given p'.q with
      | none =>
        rw [labelled_none hq, labelled_none hq', List.nil_append, List.nil_append] at h
        exact .inl ⟨rfl, labelled_inj (by decide) h⟩
      | some q' =>
        rw [labelled_none hq, labelled_some hq'] at h
        exact absurd h (label_ne _ _ _)
    | some q =>
      cases hq' : given p'.q with
      | none =>
        rw [labelled_none hq', labelled_some hq] at h
        exact absurd h.symm (label_ne _ _ _)
      | some q' =>
        rw [labelled_some hq, labelled_some hq', List.append_assoc, List.append_assoc] at h
        obtain ⟨more, htext, hcat⟩ | ⟨more, htext, hcat⟩ :=
          List.append_eq_append_iff.1 (List.append_cancel_left h)
        · by_cases hnil : more = []
          · rw [hnil, List.append_nil] at htext
            rw [hnil, List.nil_append] at hcat
            exact .inl ⟨congrArg some (String.toList_inj.1 htext.symm), labelled_inj (by decide) hcat⟩
          · exact .inr (.inl (absorbs_of_longer hq hq' htext hnil hcat))
        · by_cases hnil : more = []
          · rw [hnil, List.append_nil] at htext
            rw [hnil, List.nil_append] at hcat
            exact .inl ⟨congrArg some (String.toList_inj.1 htext), labelled_inj (by decide) hcat.symm⟩
          · exact .inr (.inr (absorbs_of_longer hq' hq htext hnil hcat))
  · intro h
    obtain ⟨hq, hcat⟩ | habsorbs | habsorbs := h
    · rw [ListingParams.filters, ListingParams.filters, labelled, labelled, labelled, labelled, hq, hcat]
    · exact habsorbs.filters_eq
    · exact habsorbs.filters_eq.symm

theorem filters_bar (p : ListingParams) : p.filters = [] ∨ ∃ cs, p.filters = '|' :: cs := by
  rw [ListingParams.filters]
  obtain hnil | ⟨cs, hcs⟩ := labelled_bar "q=".toList p.q
  · have hq : labelled "|q=".toList p.q = [] := hnil
    rw [hq, List.nil_append]
    exact labelled_bar "cat=".toList p.category
  · have hq : labelled "|q=".toList p.q = '|' :: cs := hcs
    exact .inr ⟨_, by rw [hq, List.cons_append]⟩

theorem ListingParams.joined_inj {p p' : ListingParams} : p.joined = p'.joined ↔
    p.limit = p'.limit ∧ p.cursor_vals = p'.cursor_vals ∧ p.filters = p'.filters := by
  have hlimit (n : ℤ) : '|' ∉ "limit=".toList ++ Numeral.decimal n := by
    rw [List.mem_append, not_or]
    exact ⟨by decide, bar_notMem_decimal n⟩
  have hcursor (vals : Option (Iso.DateTime × ℤ)) :
      '|' ∉ "cursor=".toList ++ (canonical_cursor_key vals).toList := by
    rw [List.mem_append, not_or]
    exact ⟨by decide, bar_notMem_cursor vals⟩
  rw [← String.toList_inj, joined_toList, joined_toList]
  constructor
  · intro h
    obtain ⟨hl, hrest⟩ := append_cons_inj (hlimit _) (hlimit _) h
    obtain ⟨hc, hfilters⟩ := (append_bar_inj (hcursor _) (hcursor _) (filters_bar p) (filters_bar p')).1 hrest
    exact ⟨Numeral.decimal_injective (List.append_cancel_left hl),
      canonical_cursor_key_injective (String.toList_inj.1 (List.append_cancel_left hc)), hfilters⟩
  · intro h
    obtain ⟨hl, hc, hfilters⟩ := h
    rw [← filters, ← filters, hl, hc, hfilters]

theorem Absorbs.q_ne {p p' : ListingParams} (h : Absorbs p p') : given p.q ≠ given p'.q := by
  obtain ⟨q, cat, q', rest, hq, -, hq', htext, -⟩ := h
  intro heq
  rw [hq, hq'] at heq
  have hlen := congrArg List.length htext
  rw [Option.some.inj heq, List.length_append, List.length_append] at hlen
  have hlabel : "|cat=".toList.length = 5 := by decide
  omega

/-- Two requests with one key are the same, unless they agree on the limit and the cursor and the `q` of one
has the label and the beginning of the other's category in it. -/
theorem listing_keys_distinct (sha256 : List UInt8 → String) (hsha : HexDigest sha256) (p p' : ListingParams) :
    (p.key sha256 = p'.key sha256 → p.Same p') ↔
      ¬ (p.limit = p'.limit ∧ p.cursor_vals = p'.cursor_vals ∧ (Absorbs p p' ∨ Absorbs p' p)) := by
  rw [ListingParams.key_inj hsha, ListingParams.joined_inj, filters_eq_iff]
  constructor
  · intro h hconfused
    obtain ⟨hlimit, hcursor, habsorbs⟩ := hconfused
    obtain ⟨-, -, hq, -⟩ := h ⟨hlimit, hcursor, .inr habsorbs⟩
    obtain habsorbs | habsorbs := habsorbs
    · exact habsorbs.q_ne hq
    · exact habsorbs.q_ne hq.symm
  · intro h hkey
    obtain ⟨hlimit, hcursor, ⟨hq, hcat⟩ | habsorbs⟩ := hkey
    · exact ⟨hlimit, hcursor, hq, hcat⟩
    · exact absurd ⟨hlimit, hcursor, habsorbs⟩ h

/-- The digits of the bytes themselves, for texts too short to be hashed. -/
def hexText (bytes : List UInt8) : String :=
  String.ofList ('0' :: bytes.flatMap fun b => Numeral.fixed 16 2 b.toNat)

theorem hexText_hexDigest : HexDigest hexText where
  injective := by
    intro a b h
    have hdigits := (List.cons.inj (String.ofList_injective h)).2
    have hread (x : UInt8) (rest : List Char) :
        Numeral.read 16 2 (Numeral.fixed 16 2 x.toNat ++ rest) = some (x.toNat, rest) :=
      Numeral.read_fixed (by decide) (by decide) (show x.toNat < 16 ^ 2 from x.toNat_lt) rest
    induction a generalizing b with
    | nil =>
      cases b with
      | nil => rfl
      | cons y b => exact absurd hdigits (by simp [Numeral.fixed])
    | cons x a ih =>
      cases b with
      | nil => exact absurd hdigits (by simp [Numeral.fixed])
      | cons y b =>
        rw [List.flatMap_cons, List.flatMap_cons] at hdigits
        have hhead := hread x (a.flatMap fun b => Numeral.fixed 16 2 b.toNat)
        rw [hdigits, hread, Option.some.injEq, Prod.mk.injEq] at hhead
        have htail : hexText a = hexText b := by rw [hexText, hexText, hhead.2]
        rw [UInt8.toNat_inj.1 hhead.1, ih htail hhead.2.symm]
  hex := by
    intro bytes
    have hchar : ∀ d < 16, (Nat.digitChar d).isDigit = true ∨ 'a' ≤ Nat.digitChar d ∧ Nat.digitChar d ≤ 'f' := by
      decide
    rw [hexText, String.toList_ofList]
    refine List.forall_mem_cons.2 ⟨by decide, fun c hc => ?_⟩
    obtain ⟨b, -, hb⟩ := List.mem_flatMap.1 hc
    simp only [Numeral.fixed, List.mem_cons, List.not_mem_nil, or_false] at hb
    obtain rfl | rfl := hb <;> exact hchar _ (Nat.mod_lt _ (by decide))
  ne_empty := by
    intro bytes h
    exact absurd (String.toList_inj.2 h) (by simp [hexText])

/-- A search, and the same words with the category typed into the search. -/
def searchWithin : ListingParams := ⟨20, none, some "tea", some "green"⟩

def searchTyped : ListingParams := ⟨20, none, some "tea|cat=green", none⟩

theorem searchWithin_absorbs : Absorbs searchWithin searchTyped :=
  ⟨"tea", "green", "tea|cat=green", "green".toList, by decide, by decide, by decide, by decide, by decide⟩

theorem listing_keys_distinct_search :
    (searchWithin.key hexText = searchTyped.key hexText → searchWithin.Same searchTyped) ↔
      ¬ (searchWithin.limit = searchTyped.limit ∧ searchWithin.cursor_vals = searchTyped.cursor_vals ∧
        (Absorbs searchWithin searchTyped ∨ Absorbs searchTyped searchWithin)) :=
  listing_keys_distinct hexText hexText_hexDigest searchWithin searchTyped

/-- The two searches have one key. -/
theorem listing_keys_collide :
    ¬ ∀ sha256 : List UInt8 → String, HexDigest sha256 → ∀ p p' : ListingParams,
      p.key sha256 = p'.key sha256 → p.Same p' := by
  intro h
  have hkey : searchWithin.key hexText = searchTyped.key hexText :=
    (ListingParams.key_inj hexText_hexDigest).2
      (ListingParams.joined_inj.2 ⟨rfl, rfl, searchWithin_absorbs.filters_eq⟩)
  obtain ⟨-, -, hq, -⟩ := h hexText hexText_hexDigest _ _ hkey
  exact searchWithin_absorbs.q_ne hq

end Phyllonix.Catalog
