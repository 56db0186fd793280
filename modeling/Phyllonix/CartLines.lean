import Phyllonix.CartSnapshots
import Phyllonix.RelationalWatch

/-!
# Lines of a cart

Requests that add one product to one cart raise the quantity of one line. A request that finds
the line locks it until it commits, and one that finds none inserts a line unless another was
quicker, so each commit that counts raises the quantity by one.
-/

namespace Phyllonix
open Relational
variable {n : ℕ}

def OfPair (cartId productId : ℕ) (ci : CartItem) : Bool := ci.cartId = some cartId && ci.productId = productId

def lines (cartId productId : ℕ) (d : Db) : List CartItem := (d .cartItem).filter (OfPair cartId productId)

/-- The quantities in the lines of a pair to which `k` pieces were added. -/
def quantities : ℕ → List ℤ
  | 0 => []
  | k + 1 => [(k + 1 : ℕ)]

theorem quantities_injective : Function.Injective quantities := by
  intro k k' h
  match k, k' with
  | 0, 0 => rfl
  | k + 1, k' + 1 => simpa [quantities] using h

section Lines
variable {cartId productId : ℕ} {d : Db} {row item : CartItem}

theorem mem_lines : item ∈ lines cartId productId d ↔
    item ∈ d .cartItem ∧ item.cartId = some cartId ∧ item.productId = productId := by
  simp [lines, OfPair, List.mem_filter]

theorem ofPair_key (h : OfPair cartId productId item = true) :
    IndexKey.cartProduct cartId productId ∈ rowKeys (t := .cartItem) item := by
  simp only [OfPair, Bool.and_eq_true, decide_eq_true_eq] at h
  simp [rowKeys, h.1, h.2]

theorem lines_of_mem (hd : d.Wf) (h : item ∈ lines cartId productId d) : lines cartId productId d = [item] := by
  obtain ⟨hmem, hp⟩ := List.mem_filter.mp h
  exact hd.filter_key (S := shop) hmem hp fun s hs => ofPair_key hs

theorem lines_put (hitem : OfPair cartId productId item = true)
    (h : ∀ row ∈ lines cartId productId d, row.id = item.id) :
    lines cartId productId (d.put .cartItem item) = [item] := by
  have hrest : (lines cartId productId d).filter (fun row => decide (row.id ≠ item.id)) = [] := by
    rw [List.filter_eq_nil_iff]
    intro row hrow
    simpa using h row hrow
  rw [lines, List.filter_comm] at hrest
  rw [lines, Store.put_self, putRow, List.filter_append, List.filter_singleton, hitem]
  exact congrArg (· ++ [item]) hrest

end Lines

/-! ## The protocol of the calls -/

/-- The programs that have raised the quantity of the line, the last one first. -/
@[reducible] def raises (cartId productId : ℕ) : History shop shopHost n where
  Val := List (Fin n)
  next i sh sh' x :=
    if (lines cartId productId sh'.db).map CartItem.quantity = (lines cartId productId sh.db).map CartItem.quantity
    then x else i :: x

/-- Each program that raised the quantity has added one piece, up to `m`. -/
structure Raised (cartId productId : ℕ) (m : ℤ) (d : Db) (x : List (Fin n)) : Prop where
  quantity : (lines cartId productId d).map CartItem.quantity = quantities x.length
  bounded : (x.length : ℤ) ≤ m

@[reducible] def lineProtocol (cartId productId : ℕ) (m : ℤ) : Protocol shop shopHost n where
  toHistory := raises cartId productId
  inv sh x := Raised cartId productId m sh.db x
  rely j _ _ x _ x' := ∃ ys, x' = ys ++ x ∧ j ∉ ys
  guar _ _ _ _ _ := True
  next_same _ _ _ := if_pos rfl
  rely_refl _ _ _ _ := ⟨[], rfl, List.not_mem_nil⟩
  rely_trans := by
    rintro i l sh x sh' x' sh'' x'' ⟨ys, rfl, hys⟩ ⟨zs, rfl, hzs⟩
    exact ⟨zs ++ ys, (List.append_assoc ..).symm, by simp [hys, hzs]⟩
  guar_same _ _ _ _ := trivial
  compat {i j l m sh x sh'} hij _ _ _ _ _ := by
    dsimp only
    split
    · exact ⟨[], rfl, List.not_mem_nil⟩
    · exact ⟨[i], rfl, by simpa using Ne.symm hij⟩
  env_inv _ _ _ h := h
  env_rely _ _ _ _ _ _ := ⟨[], rfl, List.not_mem_nil⟩

/-- What a call returns: the quantity that it has raised the line to, or the bound that it has met. -/
def Reckoned (m : ℤ) (i : Fin n) (r : Except (Exn AppErr) (CartItem × Bool)) (x : List (Fin n)) (l : Txn shop) : Prop :=
  (l.commits = 0 ∧ i ∉ x ∧ ∃ e, r = .error e) ∨
    (l.commits = 1 ∧ ∃ item created, r = .ok (item, created) ∧
      ((∃ es, i :: es <:+ x ∧ item.quantity = es.length + 1) ∨ (i ∉ x ∧ m ≤ x.length ∧ item.quantity = m)))

theorem ofStore_cart : CartActs Action.OfStore where
  read _ := trivial
  lock _ := trivial
  update _ _ _ := trivial
  create _ _ := trivial
  add _ _ := trivial
  commit := trivial
  rollback := trivial

section Calls
variable {cartId : ℕ} {m : ℤ} {data : Product} {i : Fin n} {sh : Shared shop shopHost}
variable {x y : List (Fin n)} {l l' : Txn shop}
variable {r : Except (Exn AppErr) (CartItem × Bool)}

theorem Reckoned.later (h : Reckoned m i r x l) (hy : ∃ ys, y = ys ++ x ∧ i ∉ ys) (hl : l'.commits = l.commits) :
    Reckoned m i r y l' := by
  obtain ⟨ys, rfl, hys⟩ := hy
  rcases h with ⟨hc, hi, he⟩ | ⟨hc, item, created, hr, hq⟩
  · exact .inl ⟨hl.trans hc, by simp [hi, hys], he⟩
  · refine .inr ⟨hl.trans hc, item, created, hr, ?_⟩
    rcases hq with ⟨es, hes, hq⟩ | ⟨hi, hm, hq⟩
    · exact .inl ⟨es, hes.trans (List.suffix_append _ _), hq⟩
    · refine .inr ⟨by simp [hi, hys], ?_, hq⟩
      rw [List.length_append]
      omega

theorem not_mem_later (hi : i ∉ x) (hy : ∃ ys, y = ys ++ x ∧ i ∉ ys) : i ∉ y := by
  obtain ⟨ys, rfl, hys⟩ := hy
  simp [hi, hys]

/-- A call that has not committed fails when a statement fails. -/
theorem reckoned_onError {α : Type} {Q : Post (lineProtocol cartId data.id m) α} (hc : l.commits = 0) (hi : i ∉ x)
    (hQ : ∀ e w y l', Reckoned m i (.error e) y l' → Q (.error e) w y l') : OnError Q i sh x l := by
  intro w y hs e l' hl
  exact hQ _ _ _ _ (.inl ⟨hl.commits.trans hc, not_mem_later hi hs.rely, _, rfl⟩)

theorem Raised.row {d : Db} {item : CartItem} (h : Raised cartId data.id m d x) (hd : d.Wf)
    (hitem : item ∈ lines cartId data.id d) : item.quantity = x.length ∧ x ≠ [] := by
  have hq := h.quantity
  rw [lines_of_mem hd hitem] at hq
  cases x with
  | nil => cases hq
  | cons j x => exact ⟨by simpa [quantities] using hq, List.cons_ne_nil _ _⟩

theorem quantities_pos {k : ℕ} (h : 0 < k) : quantities k = [(k : ℤ)] := by
  cases k with
  | zero => cases h
  | succ k => rfl

/-- A commit that puts the next quantity into the line. -/
theorem safe_commitLine (hm : 1 ≤ m) {Q : Post (lineProtocol cartId data.id m) Unit} (item : CartItem) (created : Bool)
    (hitem : OfPair cartId data.id item = true) (hl : l.writes = [⟨.cartItem, item⟩]) (hc : l.commits = 0) (hi : i ∉ x)
    (hline : ∀ w y, Seen (lineProtocol cartId data.id m) i l sh x w y →
      (∀ row ∈ lines cartId data.id w.db, row.id = item.id) ∧ item.quantity = min (y.length + 1 : ℤ) m)
    (hok : ∀ w y, Reckoned m i (.ok (item, created)) y l.committed → Q (.ok ()) w y l.committed)
    (he : ∀ e w y l', Reckoned m i (.error e) y l' → Q (.error e) w y l') :
    Safe (lineProtocol cartId data.id m) (fun _ _ _ _ _ => True) i Q commit sh x l := by
  refine Safe.commit (fun w y hs _ => ?_) fun _ => reckoned_onError hc hi he
  have hinv : Raised cartId data.id m w.db y := hs.inv
  obtain ⟨hrows, hq⟩ := hline w y hs
  have hiy : i ∉ y := not_mem_later hi hs.rely
  have hview : l.view w.db = w.db.put .cartItem item := by
    rw [Txn.view, hl]
    rfl
  have hlines : (lines cartId data.id (l.view w.db)).map CartItem.quantity = [item.quantity] := by
    rw [hview, lines_put hitem hrows]
    rfl
  have hbound := hinv.bounded
  by_cases hroom : (y.length + 1 : ℤ) ≤ m
  · have hnew : [item.quantity] = quantities (i :: y).length := by
      rw [hq, min_eq_left hroom, List.length_cons]
      simp [quantities]
    have hnext : (raises cartId data.id).next i w.toShared ⟨l.view w.db, w.host⟩ y = i :: y := by
      refine if_neg ?_
      rw [hlines, hinv.quantity, hnew]
      intro h
      have hlen := quantities_injective h
      simp at hlen
    change Raised _ _ _ _ ((raises cartId data.id).next i w.toShared ⟨l.view w.db, w.host⟩ y) ∧ True ∧ _
    have hraised : Raised cartId data.id m (l.view w.db) (i :: y) := ⟨hlines.trans hnew, by simpa using hroom⟩
    rw [hnext]
    exact ⟨hraised, trivial, hok _ _ (.inr ⟨by rw [Txn.committed, hc], item, created, rfl,
      .inl ⟨y, List.suffix_refl _, hq.trans (min_eq_left hroom)⟩⟩)⟩
  · have hfull : (y.length : ℤ) = m := by omega
    have hsame : [item.quantity] = quantities y.length := by
      rw [quantities_pos (by omega), hq, hfull, min_eq_right (by omega)]
    have hnext : (raises cartId data.id).next i w.toShared ⟨l.view w.db, w.host⟩ y = y := by
      refine if_pos ?_
      rw [hlines, hinv.quantity, hsame]
    change Raised _ _ _ _ ((raises cartId data.id).next i w.toShared ⟨l.view w.db, w.host⟩ y) ∧ True ∧ _
    have hraised : Raised cartId data.id m (l.view w.db) y := ⟨hlines.trans hsame, hbound⟩
    rw [hnext]
    exact ⟨hraised, trivial, hok _ _ (.inr ⟨by rw [Txn.committed, hc], item, created, rfl,
      .inr ⟨hiy, hfull.ge, hq.trans (min_eq_right (by omega))⟩⟩)⟩

theorem updateLine_counts (hm : 1 ≤ m) {row : CartItem} (hrow : sh.db.get .cartItem row.id = some row)
    (hp : OfPair cartId data.id row = true) (hl : l.writes = []) (hlock : .row .cartItem row.id ∈ l.locks)
    (hc : l.commits = 0) (hi : i ∉ x) :
    Safe (lineProtocol cartId data.id m) (fun _ _ _ _ _ => True) i (fun r _ x l => Reckoned m i r x l) (do
      let updated ← update .cartItem (fun ci : CartItem => ci.id = row.id)
        fun ci : CartItem => { ci with quantity := min (row.quantity + 1) m }
      commit
      match updated with
      | [item] => pure (item, false)
      | _ => raiseApp (.other "No row was found when one was required")) sh x l := by
  let item : CartItem := { row with quantity := min (row.quantity + 1) m }
  refine Safe.bind (safe_updateOne (fun w y hs l' hu => ?_) fun _ => reckoned_onError hc hi fun _ _ _ _ h => h)
  have hiy : i ∉ y := not_mem_later hi hs.rely
  have hget : w.db.get .cartItem row.id = some row := (hs.still.row _ _ hlock).trans hrow
  have hview : (l.view w.db).get .cartItem row.id = some row := by rwa [Txn.view_of_no_writes hl]
  obtain ⟨hwrites, hlock'⟩ := updated_one hu hview
  rw [hl] at hwrites
  rw [hview]
  have hitem : OfPair cartId data.id item = true := hp
  refine Safe.bind (safe_commitLine hm item false hitem hwrites (hu.commits.trans hc) hiy
    (fun w₁ y₁ hs₁ => ?_) (fun _ _ h => h) fun _ _ _ _ h => h)
  have hget₁ : w₁.db.get .cartItem row.id = some row := (hs₁.still.row _ _ hlock').trans hget
  have hmem : row ∈ lines cartId data.id w₁.db := List.mem_filter.mpr ⟨Store.mem_of_get hget₁, hp⟩
  have hinv : Raised cartId data.id m w₁.db y₁ := hs₁.inv
  constructor
  · intro row' hrow'
    rw [lines_of_mem hs₁.world.wf hmem, List.mem_singleton] at hrow'
    rw [hrow']
  · change min (row.quantity + 1) m = _
    rw [(hinv.row hs₁.world.wf hmem).1]

theorem insertLine_counts (hm : 1 ≤ m) (hl : l.writes = []) (hc : l.commits = 0) (hi : i ∉ x) :
    Safe (lineProtocol cartId data.id m) (fun _ _ _ _ _ => True) i (fun r _ x l => Reckoned m i r x l) (do
      let item ← insert .cartItem fun k => ⟨k, some cartId, data.id, 1⟩
      commit
      pure (item, true)) sh x l := by
  refine Safe.bind (safe_insert (fun w y hs k _ hfree => ?_) (reckoned_onError hc hi fun _ _ _ _ h => h))
  let item : CartItem := ⟨k, some cartId, data.id, 1⟩
  have hitem : OfPair cartId data.id item = true := by simp [OfPair, item]
  have hkey : IndexKey.cartProduct cartId data.id ∈ rowKeys (t := .cartItem) item := ofPair_key hitem
  rw [Txn.view_of_no_writes hl] at hfree
  have hwrites : (l.write .cartItem [] item).writes = [⟨.cartItem, item⟩] := congrArg (_ :: ·) hl
  have hlock : Lock.key Table.cartItem (IndexKey.cartProduct cartId data.id) ∈ (l.write .cartItem [] item).locks := by
    refine List.mem_append_left _ (List.mem_cons_of_mem _ (List.mem_map_of_mem ?_))
    exact mem_changedKeys.mpr (.inr ⟨hkey, List.not_mem_nil⟩)
  refine Safe.bind (safe_commitLine hm item true hitem hwrites hc (not_mem_later hi hs.rely)
    (fun w₁ y₁ hs₁ => ?_) (fun _ _ h => h) fun _ _ _ _ h => h)
  have hnone : lines cartId data.id w₁.db = [] := by
    rw [List.eq_nil_iff_forall_not_mem]
    intro row hrow
    obtain ⟨hmem, hp⟩ := List.mem_filter.mp hrow
    have hholds : w₁.db.Holds .cartItem (.cartProduct cartId data.id) row.id :=
      ⟨row, Store.get_of_mem hs₁.world.wf.ids hmem, ofPair_key hp⟩
    exact Txn.not_holds_of_free hfree hkey row.id ((hs₁.still.key _ _ hlock row.id).mp hholds)
  have hinv : Raised cartId data.id m w₁.db y₁ := hs₁.inv
  have hquantity := hinv.quantity
  rw [hnone] at hquantity
  have hlen : y₁.length = 0 := quantities_injective hquantity.symm
  refine ⟨?_, ?_⟩
  · rw [hnone]
    simp
  · rw [hlen]
    exact (min_eq_left (by simpa using hm)).symm

theorem addItemToCart_counts (hm : 1 ≤ m) (hi : i ∉ x) :
    Safe (lineProtocol cartId data.id m) (fun _ _ _ _ _ => True) i (fun r _ x l => Reckoned m i r x l)
      (addItemToCart cartId data m) sh x {} := by
  unfold addItemToCart
  apply Safe.bind
  apply Safe.lock (S := shop) (t := .cartItem)
  · intro w y hs _
    have hiy := not_mem_later hi hs.rely
    change Safe _ _ _ _ (match lines cartId data.id w.db with | row :: _ => _ | [] => _) _ _
      (Txn.acquire _ ((lines cartId data.id w.db).map fun row => Lock.row (S := shop) Table.cartItem row.id))
    cases hlines : lines cartId data.id w.db with
    | nil => exact insertLine_counts hm rfl rfl hiy
    | cons row rows =>
      obtain ⟨hmem, hp⟩ := List.mem_filter.mp (hlines ▸ List.mem_cons_self : row ∈ lines cartId data.id w.db)
      exact updateLine_counts hm (Store.get_of_mem hs.world.wf.ids hmem) hp rfl List.mem_cons_self rfl hiy
  · intro _
    exact reckoned_onError rfl hi fun _ _ _ _ h => h

theorem addItemToCart_session (hm : 1 ≤ m) (hi : i ∉ x) :
    Safe (lineProtocol cartId data.id m) (fun _ _ _ _ _ => True) i
      (fun r _ x l => ∃ r', r = .ok r' ∧ Reckoned m i r' x l) (addItemToCart cartId data m).session sh x {} := by
  apply Safe.session
  apply (addItemToCart_counts hm hi).mono
  intro r sh x l hr w y hs
  exact ⟨r, rfl, hr.later hs.rely rfl⟩

theorem addItemToCart_ofStore : (addItemToCart cartId data m).session.Acts Action.OfStore :=
  (addItemToCart_acts ofStore_cart _ _ _).session trivial

end Calls

/-! ## Runs -/

def adds (cartId : ℕ) (data : Fin n → Product) (m : ℤ) (w : World shop shopHost) :
    Sys shop shopHost n (Except (Exn AppErr) (CartItem × Bool)) :=
  .start w fun i => (addItemToCart cartId (data i) m).session

/-- Every commit has added one piece, up to `m`, and every call has returned what its commit came to. -/
structure AddedUp (cartId productId : ℕ) (m : ℤ) (s : Sys shop shopHost n (Except (Exn AppErr) (CartItem × Bool)))
    (order : List (Fin n)) : Prop where
  line : (lines cartId productId s.world.db).map CartItem.quantity =
    if order = [] then [] else [min m order.length]
  once : order.Nodup
  counted : ∀ i item created, s.outcome i = some (.ok (item, created)) →
    ∃ j : ℕ, order[j]? = some i ∧ item.quantity = min m (j + 1)
  returned : ∀ i ∈ order, ∀ r, s.outcome i = some r → ∃ item created, r = .ok (item, created)

/-- The programs that raised the quantity are the first ones to commit. -/
structure Tracks (m : ℤ) (x order : List (Fin n)) : Prop where
  first : x.reverse = order.take x.length
  length : (x.length : ℤ) = min m order.length

section Runs
variable {cartId productId : ℕ} {m : ℤ} {data : Fin n → Product} {w : World shop shopHost}
variable {s s' : Sys shop shopHost n (Except (Exn AppErr) (CartItem × Bool))} {x order : List (Fin n)} {i : Fin n}

theorem Tracks.raise (h : Tracks m x order) (hroom : (x.length + 1 : ℤ) ≤ m) (i : Fin n) :
    Tracks m (i :: x) (order ++ [i]) := by
  have hlen := h.length
  have hall : x.length = order.length := by omega
  have hfirst := h.first
  rw [hall, List.take_length] at hfirst
  constructor
  · rw [List.reverse_cons, hfirst, List.take_of_length_le (by simp [hall])]
  · simp only [List.length_cons, List.length_append, List.length_nil, Nat.cast_add, Nat.cast_one]
    omega

theorem Tracks.full (h : Tracks m x order) (hfull : m ≤ x.length) (i : Fin n) : Tracks m x (order ++ [i]) := by
  have hlen := h.length
  have hle : x.length ≤ order.length := by omega
  constructor
  · rw [List.take_append_of_le_length hle]
    exact h.first
  · simp only [List.length_append, List.length_cons, List.length_nil, Nat.cast_add, Nat.cast_one]
    omega

/-- What a call returns that has not ended yet is already counted. -/
theorem counts_soon (hinv : s.Inv (lineProtocol cartId productId m) (fun _ _ _ _ _ => True)
      (fun i r _ x l => ∃ r', r = .ok r' ∧ Reckoned m i r' x l) x)
    (hacts : (s.procs i).prog.Acts Action.OfStore) :
    ∃ r l', l'.commits = (s.procs i).txn.commits ∧ Reckoned m i r x l' := by
  obtain ⟨sh, y, hsafe, hseen⟩ := hinv.seen i
  obtain ⟨_, l', hc, r, -, hreckoned⟩ := hsafe.soon hacts (fun hs hq => by
    obtain ⟨r, hr, hreckoned⟩ := hq
    exact ⟨r, hr, hreckoned.later hs.rely rfl⟩) hseen
  exact ⟨r, l', hc, hreckoned⟩

theorem adds_inv (hm : 1 ≤ m) (hdata : ∀ i, (data i).id = productId) (hw : w.Ok)
    (hnone : lines cartId productId w.db = []) :
    (adds cartId data m w).Inv (lineProtocol cartId productId m) (fun _ _ _ _ _ => True)
      (fun i r _ x l => ∃ r', r = .ok r' ∧ Reckoned m i r' x l) [] := by
  have hstart : Raised cartId productId m w.db ([] : List (Fin n)) := by
    constructor
    · rw [hnone]
      rfl
    · simpa using zero_le_one.trans hm
  refine Sys.inv_start hw hstart fun i => ?_
  rw [← hdata i]
  exact addItemToCart_session hm List.not_mem_nil

theorem adds_tracks (hm : 1 ≤ m) (hdata : ∀ i, (data i).id = productId) (hw : w.Ok)
    (hnone : lines cartId productId w.db = [])
    (hrun : Sys.Watched commitOrder (fun _ _ _ => True) (adds cartId data m w) [] s order) :
    ∃ x, s.Inv (lineProtocol cartId productId m) (fun _ _ _ _ _ => True)
      (fun i r _ x l => ∃ r', r = .ok r' ∧ Reckoned m i r' x l) x ∧ Tracks m x order := by
  have hacts {s : Sys shop shopHost n (Except (Exn AppErr) (CartItem × Bool))} (h : Sys.Reach (adds cartId data m w) s)
      (i : Fin n) : (s.procs i).prog.Acts Action.OfStore := h.acts addItemToCart_ofStore
  refine hrun.keeps (J := fun _ x order => Tracks m x order) (adds_inv hm hdata hw hnone) ⟨rfl, ?_⟩ ?_ ?_
  · simpa using zero_le_one.trans hm
  · intro s s' x order i c hreach hinv hx _ hstep hinv'
    rcases Sys.step_commits hinv.ok hstep order with ⟨hdb, -, hnext⟩ | ⟨-, hc, hnext⟩
    · have hsame : (raises cartId productId).next i s.world.toShared s'.world.toShared x = x :=
        if_pos (by rw [hdb])
      rw [hnext, hsame]
      exact hx
    · rw [hnext]
      by_cases hlines : (lines cartId productId s'.world.db).map CartItem.quantity =
          (lines cartId productId s.world.db).map CartItem.quantity
      · have hsame : (raises cartId productId).next i s.world.toShared s'.world.toShared x = x := if_pos hlines
        have hsame' : (lineProtocol cartId productId m).next i s.world.toShared s'.world.toShared x = x := hsame
        rw [hsame'] at hinv' ⊢
        obtain ⟨r, l, hl, hreckoned⟩ := counts_soon hinv (hacts hreach i)
        obtain ⟨r', l', hl', hreckoned'⟩ := counts_soon hinv' (hacts (.proc i c hreach (Sys.allows_true _ _ _) hstep) i)
        rcases hreckoned' with ⟨hzero, -⟩ | ⟨hone', _, _, -, hq⟩
        · omega
        rcases hreckoned with ⟨-, hi, -⟩ | ⟨hone, -⟩
        · rcases hq with ⟨es, hes, -⟩ | ⟨-, hfull, -⟩
          · exact absurd (hes.subset List.mem_cons_self) hi
          · exact hx.full hfull i
        · omega
      · have hraise : (lineProtocol cartId productId m).next i s.world.toShared s'.world.toShared x = i :: x :=
          if_neg hlines
        rw [hraise] at hinv' ⊢
        have hraised : Raised cartId productId m s'.world.db (i :: x) := hinv'.inv
        exact hx.raise (by simpa using hraised.bounded) i
  · intro s s' x order e hx _
    exact hx

/-- The place of a call in the order of the commits, and the quantity that it has returned. -/
theorem Reckoned.place {l : Txn shop} {item : CartItem} {created : Bool} {y : List (Fin n)}
    (h : Reckoned m i (.ok (item, created)) y l) (hy : ∃ ys, x = ys ++ y ∧ i ∉ ys) (hx : Tracks m x order)
    (hi : i ∈ order) : ∃ j : ℕ, order[j]? = some i ∧ item.quantity = min m (j + 1) := by
  have hlen := hx.length
  rcases h.later hy (Eq.refl l.commits) with ⟨-, -, e, he⟩ | ⟨-, item', created', hr, hq⟩
  · cases he
  · cases hr
    rcases hq with ⟨es, ⟨zs, rfl⟩, hq⟩ | ⟨hno, hfull, hq⟩
    · refine ⟨es.length, ?_, ?_⟩
      · have hplace : (order.take (zs ++ i :: es).length)[es.length]? = some i := by
          rw [← hx.first]
          simp
        rw [List.getElem?_take] at hplace
        split at hplace
        · exact hplace
        · cases hplace
      · simp only [List.length_append, List.length_cons] at hlen
        omega
    · obtain ⟨j, hj⟩ := List.mem_iff_getElem?.mp hi
      refine ⟨j, hj, ?_⟩
      have hlate : x.length ≤ j := by
        by_contra hearly
        have hmem : i ∈ order.take x.length := by
          refine List.mem_iff_getElem?.mpr ⟨j, ?_⟩
          rw [List.getElem?_take, if_pos (not_le.mp hearly)]
          exact hj
        rw [← hx.first, List.mem_reverse] at hmem
        exact hno hmem
      omega

theorem no_lost_update (hm : 1 ≤ m) (hdata : ∀ i, (data i).id = productId) (hw : w.Ok)
    (hnone : lines cartId productId w.db = [])
    (hrun : Sys.Watched commitOrder (fun _ _ _ => True) (adds cartId data m w) [] s order) :
    AddedUp cartId productId m s order := by
  obtain ⟨x, hinv, hx⟩ := adds_tracks hm hdata hw hnone hrun
  have hcount (i : Fin n) : (s.procs i).txn.commits = order.count i := hrun.count hw i
  have hraised : Raised cartId productId m s.world.db x := hinv.inv
  have hlen := hx.length
  have hover (i : Fin n) (r : Except (Exn AppErr) (CartItem × Bool)) (hr : s.outcome i = some r) :
      ∃ y : List (Fin n), (∃ ys, x = ys ++ y ∧ i ∉ ys) ∧ Reckoned m i r y (s.procs i).txn := by
    obtain ⟨sh, y, hsafe, hseen⟩ := hinv.seen i
    rw [Sys.prog_of_outcome hr] at hsafe
    obtain ⟨r', hr', hreckoned⟩ := hsafe
    cases hr'
    exact ⟨y, hseen.rely, hreckoned⟩
  refine ⟨?_, ?_, ?_, ?_⟩
  · rw [hraised.quantity]
    by_cases hnil : order = []
    · rw [hnil, List.length_nil] at hlen
      have hzero : x.length = 0 := by omega
      rw [hzero, if_pos hnil]
      rfl
    · have hpos := List.length_pos_iff.mpr hnil
      rw [quantities_pos (by omega), hlen, if_neg hnil]
  · rw [List.nodup_iff_count_le_one]
    intro i
    obtain ⟨r, l, hl, hreckoned⟩ := counts_soon hinv (hrun.reach.acts addItemToCart_ofStore : (s.procs i).prog.Acts _)
    rw [← hcount i, ← hl]
    rcases hreckoned with ⟨hc, -⟩ | ⟨hc, -⟩
    · omega
    · omega
  · intro i item created hr
    obtain ⟨y, hy, hreckoned⟩ := hover i _ hr
    refine hreckoned.place hy hx ?_
    rcases hreckoned with ⟨-, -, e, he⟩ | ⟨hone, -⟩
    · cases he
    · rw [hcount i] at hone
      exact List.count_pos_iff.mp (by omega)
  · intro i hi r hr
    obtain ⟨y, hy, hreckoned⟩ := hover i r hr
    rcases hreckoned with ⟨hzero, -⟩ | ⟨-, item, created, hr, -⟩
    · rw [hcount i, List.count_eq_zero] at hzero
      exact absurd hi hzero
    · exact ⟨item, created, hr⟩

end Runs

/-- A user with an empty cart, and a lamp. -/
def emptyCart : World shop shopHost where
  db
    | .product => [⟨1, 5, 100⟩]
    | .cart => [⟨1, some 1, none⟩]
    | _ => []
  host := ⟨0, 0, [], []⟩
  seq _ := 2

theorem emptyCart_ok : emptyCart.Ok :=
  ⟨Store.wf_of_pairwise fun t => by cases t <;> decide, fun t => by cases t <;> decide⟩

/-- Two calls find no line, and the slower insertion is refused; a third call finds the line. -/
theorem no_lost_update_race : ∃ s order,
    Sys.Watched commitOrder (fun _ _ _ => True) (adds 1 (fun _ : Fin 3 => ⟨1, 5, 100⟩) 2 emptyCart) [] s order ∧
      order.length = 2 ∧ AddedUp 1 1 2 s order := by
  have hexec : ((adds 1 (fun _ : Fin 3 => ⟨1, 5, 100⟩) 2 emptyCart).watch commitOrder (fun _ _ _ => True) []
      ([0, 1, 0, 0, 1, 2, 2, 2].map fun i => .proc i .go)).map (fun x => x.2.length) = some 2 := by
    decide +kernel
  obtain ⟨⟨s, order⟩, hs, hlength⟩ := Option.map_eq_some_iff.mp hexec
  have hrun := Sys.Watched.start.watch hs
  exact ⟨s, order, hrun, hlength, no_lost_update (by decide) (fun _ => rfl) emptyCart_ok rfl hrun⟩

end Phyllonix
