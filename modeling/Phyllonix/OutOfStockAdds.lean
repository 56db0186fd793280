import Phyllonix.CartLines

/-!
# Adds to a product that is out of stock

A request reads the stock of its product first, and the line in its cart later. The quantity that an
empty stock should keep is overwritten by the next one, so the line keeps its quantity only where it
has met the bound. The stock may change between the statements in any way.
-/

namespace Phyllonix
open Relational
variable {n : ℕ}

/-! ## Quantities -/

def lineQty (d : Db) (k : ℕ) : Option ℤ := (d.get .cartItem k).map CartItem.quantity

def lineQtys (d : Db) : List (ℕ × ℤ) := (d .cartItem).map fun ci : CartItem => (ci.id, ci.quantity)

/-- The statement writes no line of a cart. -/
abbrev BesideLines (v : Write shop) : Prop := v.tbl ≠ .cartItem

section Quantities
variable {d d' : Db} {k : ℕ} {item : CartItem} {ws : List (Write shop)}

theorem lineQty_eq : lineQty d k = ((lineQtys d).find? fun x => decide (x.1 = k)).map Prod.snd := by
  rw [lineQtys, List.find?_map, Option.map_map]
  rfl

theorem lineQty_congr (h : lineQtys d' = lineQtys d) (k : ℕ) : lineQty d' k = lineQty d k := by
  rw [lineQty_eq, lineQty_eq, h]

theorem lineQty_of_mem (hd : d.Wf) (h : item ∈ d .cartItem) : lineQty d item.id = some item.quantity := by
  have hget : d.get .cartItem item.id = some item := Store.get_of_mem hd.ids h
  rw [lineQty, hget]
  rfl

theorem lineQtys_beside (h : ∀ v ∈ ws, BesideLines v) : lineQtys (applyWrites ws d) = lineQtys d := by
  rw [lineQtys, applyWrites_of_untouched h]
  rfl

theorem lineQty_put_self : lineQty (d.put .cartItem item) item.id = some item.quantity := by
  have hget : (d.put .cartItem item).get .cartItem item.id = some item := Store.get_put_self _ _ _
  rw [lineQty, hget]
  rfl

theorem lineQty_put_of_ne (h : k ≠ item.id) : lineQty (d.put .cartItem item) k = lineQty d k := by
  have hget : (d.put .cartItem item).get .cartItem k = d.get .cartItem k :=
    Store.get_put_of_ne (S := shop) _ _ fun hk => h hk.2
  rw [lineQty, lineQty, hget]

end Quantities

/-! ## The protocol of the requests -/

/-- The programs that have written lines, the last one first. -/
@[reducible] def lineWriters : History shop shopHost n where
  Val := List (Fin n)
  next i sh sh' x := if lineQtys sh'.db = lineQtys sh.db then x else i :: x

/-- A line that the transaction has written gets one piece more, up to a thousand, or is new and has one. -/
def AddsOne (l : Txn shop) (d d' : Db) : Prop :=
  ∃ item : CartItem, item ∈ written (S := shop) .cartItem l.writes ∧ (∀ k, k ≠ item.id → lineQty d' k = lineQty d k) ∧
    lineQty d' item.id = some (((lineQty d item.id).map fun q => min (q + 1) 1000).getD 1)

@[reducible] def addProtocol (n : ℕ) : Protocol shop shopHost n where
  toHistory := lineWriters
  inv _ _ := True
  rely j _ _ x _ x' := ∃ ys, x' = ys ++ x ∧ j ∉ ys
  guar i l sh x sh' := lineQtys sh'.db = lineQtys sh.db ∨ (i ∉ x ∧ AddsOne l sh.db sh'.db)
  next_same _ _ _ := if_pos rfl
  rely_refl _ _ _ _ := ⟨[], rfl, List.not_mem_nil⟩
  rely_trans := by
    intro i l sh x sh' x' sh'' x'' h h'
    obtain ⟨ys, rfl, hys⟩ := h
    obtain ⟨zs, rfl, hzs⟩ := h'
    exact ⟨zs ++ ys, (List.append_assoc ..).symm, by simp [hys, hzs]⟩
  guar_same _ _ _ _ := .inl rfl
  compat {i j l m sh x sh'} hij _ _ _ _ _ := by
    dsimp only
    split
    · exact ⟨[], rfl, List.not_mem_nil⟩
    · exact ⟨[i], rfl, by simpa using Ne.symm hij⟩
  env_inv _ _ _ _ := trivial
  env_rely _ _ _ _ _ _ := ⟨[], rfl, List.not_mem_nil⟩

section Requests
variable {G : Guard shop shopHost n} {i : Fin n} {sh : Shared shop shopHost} {x : List (Fin n)} {l : Txn shop}

/-- A program that writes no lines leaves them as they are. -/
theorem safe_besideLines {α : Type} {p : Py α} (hp : p.Acts (Action.Confined BesideLines)) (hi : i ∉ x)
    (hl : ∀ v ∈ l.writes, BesideLines v) :
    Safe (addProtocol n) G i (fun _ _ x l => i ∉ x ∧ ∀ v ∈ l.writes, BesideLines v) p sh x l := by
  induction p generalizing sh x l with
  | ret a => exact ⟨hi, hl⟩
  | raise e => exact ⟨hi, hl⟩
  | act a k ih =>
    intro w y hs c busy r w' l' _ hr
    have hiy : i ∉ y := not_mem_later hi hs.rely
    have hsame : lineQtys w'.db = lineQtys w.db := by
      rcases (Action.run_spec hs.world hs.ok hr).db with h | h
      · rw [h]
      · rw [h]
        exact lineQtys_beside hl
    have hnext : (lineWriters (n := n)).next i w.toShared w'.toShared y = y := if_pos hsame
    refine ⟨trivial, .inl hsame, ?_⟩
    rw [hnext]
    exact ih r (hp.2 r) hiy (Action.run_confined hp.1 hl hr)

/-- A commit that puts the next quantity into a line, or the first one. -/
theorem safe_commitAdd (item : CartItem) {ws : List (Write shop)} (hwrites : l.writes = ⟨.cartItem, item⟩ :: ws)
    (hws : ∀ v ∈ ws, BesideLines v) (hlock : .row .cartItem item.id ∈ l.locks) (hi : i ∉ x)
    (hnext : item.quantity = ((lineQty sh.db item.id).map fun q => min (q + 1) 1000).getD 1) :
    Safe (addProtocol n) G i (fun _ _ _ _ => True) commit sh x l := by
  have hview (d : Db) : l.view d = (applyWrites ws d).put .cartItem item := by
    rw [Txn.view, hwrites]
    rfl
  refine Safe.commit (fun w y hs _ => ⟨trivial, .inr ⟨not_mem_later hi hs.rely, item, ?_, ?_, ?_⟩, trivial⟩)
    fun _ _ _ _ _ _ _ => trivial
  · rw [hwrites, written_cons_self]
    exact List.mem_append_right _ (List.mem_singleton_self _)
  · intro k hk
    change lineQty (l.view w.db) k = _
    rw [hview, lineQty_put_of_ne hk]
    exact lineQty_congr (lineQtys_beside hws) k
  · have hstill : lineQty w.db item.id = lineQty sh.db item.id := by
      rw [lineQty, lineQty, hs.still.row _ _ hlock]
    change lineQty (l.view w.db) item.id = some (((lineQty w.db item.id).map fun q => min (q + 1) 1000).getD 1)
    rw [hview, lineQty_put_self, hstill, hnext]

theorem updateLine_adds {row : CartItem} (hrow : sh.db.get .cartItem row.id = some row) (hi : i ∉ x)
    (hl : ∀ v ∈ l.writes, BesideLines v) (hlock : .row .cartItem row.id ∈ l.locks) :
    Safe (addProtocol n) G i (fun _ _ _ _ => True) (do
      let updated ← update .cartItem (fun ci : CartItem => ci.id = row.id)
        fun ci : CartItem => { ci with quantity := min (row.quantity + 1) 1000 }
      commit
      match updated with
      | [item] => pure (item, false)
      | _ => raiseApp (.other "No row was found when one was required")) sh x l := by
  let item : CartItem := { row with quantity := min (row.quantity + 1) 1000 }
  refine Safe.bind (safe_updateOne (fun w y hs l' hu => ?_) fun _ _ _ _ _ _ _ => trivial)
  have hget : w.db.get .cartItem row.id = some row := (hs.still.row _ _ hlock).trans hrow
  have hview : (l.view w.db).get .cartItem row.id = some row := by
    rw [Txn.view, Store.get, applyWrites_of_untouched hl]
    exact hget
  obtain ⟨hwrites, hlock'⟩ := updated_one hu hview
  rw [hview]
  have hqty : item.quantity = ((lineQty w.db item.id).map fun q => min (q + 1) 1000).getD 1 := by
    rw [lineQty, hget]
    rfl
  refine Safe.bind ((safe_commitAdd item hwrites hl hlock' (not_mem_later hi hs.rely) hqty).mono ?_)
  intro r sh x l _
  cases r <;> trivial

theorem insertLine_adds {cartId productId : ℕ} (hi : i ∉ x) (hl : ∀ v ∈ l.writes, BesideLines v) :
    Safe (addProtocol n) G i (fun _ _ _ _ => True) (do
      let item ← insert .cartItem fun k => ⟨k, some cartId, productId, 1⟩
      commit
      pure (item, true)) sh x l := by
  refine Safe.bind (safe_insert (fun w y hs k hnew _ => ?_) fun _ _ _ _ _ _ => trivial)
  let item : CartItem := ⟨k, some cartId, productId, 1⟩
  have hwrites : (l.write .cartItem [] item).writes = ⟨.cartItem, item⟩ :: l.writes := rfl
  have hlock : Lock.row Table.cartItem item.id ∈ (l.write .cartItem [] item).locks :=
    List.mem_append_left _ List.mem_cons_self
  have hnone : lineQty w.db item.id = none := by
    have hget : w.db.get .cartItem k = none := by
      refine Store.get_eq_none_iff.mpr fun r hr he => ?_
      have hview : r ∈ l.view w.db .cartItem := by
        rw [Txn.view, applyWrites_of_untouched hl]
        exact hr
      exact absurd (hnew r hview) (he ▸ lt_irrefl _)
    rw [lineQty, hget]
    rfl
  have hqty : item.quantity = ((lineQty w.db item.id).map fun q => min (q + 1) 1000).getD 1 := by
    rw [hnone]
    rfl
  refine Safe.bind ((safe_commitAdd item hwrites hl hlock (not_mem_later hi hs.rely) hqty).mono ?_)
  intro r sh x l _
  cases r <;> trivial

theorem addItemToCart_adds (cartId : ℕ) (data : Product) (hi : i ∉ x) (hl : ∀ v ∈ l.writes, BesideLines v) :
    Safe (addProtocol n) G i (fun _ _ _ _ => True) (addItemToCart cartId data) sh x l := by
  unfold addItemToCart
  apply Safe.bind
  apply Safe.lock (S := shop) (t := .cartItem)
  · intro w y hs _
    have hiy := not_mem_later hi hs.rely
    rw [Txn.view, applyWrites_of_untouched hl]
    generalize hrows : (w.db Table.cartItem).filter _ = rows
    have hlines : lines cartId data.id w.db = rows := hrows
    cases rows with
    | nil => exact insertLine_adds hiy hl
    | cons row rows =>
      have hmem : row ∈ lines cartId data.id w.db := hlines ▸ List.mem_cons_self
      exact updateLine_adds (Store.get_of_mem hs.world.wf.ids (mem_lines.mp hmem).1) hiy hl List.mem_cons_self
  · intro _ _ _ _ _ _ _
    trivial

theorem besideLines_creation : CartCreation (Action.Confined (H := shopHost) BesideLines) where
  read _ := trivial
  create _ _ := fun _ => by simp [BesideLines]
  commit := trivial
  rollback := trivial

theorem addToCart_adds (publicId : ℕ → UUID) (req : AddToCartRequest) (hi : i ∉ x) :
    Safe (addProtocol n) G i (fun _ _ _ _ => True) (addToCart publicId req).session sh x {} := by
  have hbody : Safe (addProtocol n) G i (fun _ _ _ _ => True) (addToCart publicId req) sh x {} := by
    have hnone : ∀ v ∈ ({} : Txn shop).writes, BesideLines v := nofun
    refine Safe.bind ((safe_besideLines (getProductData_acts besideLines_creation _ _) hi hnone).mono ?_)
    intro r sh x l h
    cases r with
    | error e => trivial
    | ok data =>
      refine Safe.bind ((safe_besideLines (getOrCreateCart_acts besideLines_creation _ _) h.1 h.2).mono ?_)
      intro r sh x l h
      match r with
      | .error e => trivial
      | .ok none => trivial
      | .ok (some 0) => trivial
      | .ok (some (k + 1)) =>
        refine Safe.bind ((addItemToCart_adds (k + 1) data h.1 h.2).mono ?_)
        intro r sh x l _
        cases r <;> trivial
  exact Safe.session (hbody.mono fun _ _ _ _ _ _ _ _ => trivial)

end Requests

/-! ## Runs -/

/-- A program that may write the products, and whatever else is not a line. -/
structure StockChange where
  prog : Py Reply
  writes : prog.Acts (Action.Confined BesideLines)

inductive ShopCall where
  | add (req : AddToCartRequest)
  | change (c : StockChange)

def ShopCall.prog (publicId : ℕ → UUID) : ShopCall → Py Reply
  | .add req => addToCart publicId req
  | .change c => c.prog

def shopCalls (publicId : ℕ → UUID) (calls : Fin n → ShopCall) (w : World shop shopHost) :
    Sys shop shopHost n (Except (Exn AppErr) Reply) :=
  .start w fun i => ((calls i).prog publicId).session

theorem shopCall_adds {publicId : ℕ → UUID} (call : ShopCall) {G : Guard shop shopHost n} {i : Fin n}
    {sh : Shared shop shopHost} :
    Safe (addProtocol n) G i (fun _ _ _ _ => True) (call.prog publicId).session sh [] {} := by
  cases call with
  | add req => exact addToCart_adds publicId req List.not_mem_nil
  | change c =>
    have hnone : ∀ v ∈ ({} : Txn shop).writes, BesideLines v := nofun
    exact (safe_besideLines (c.writes.session trivial) List.not_mem_nil hnone).mono fun _ _ _ _ _ => trivial

/-! ## What is known of a run -/

/-- The products that the first statement of each request has found, the initial quantity of each line, and the
requests in stock that have changed it, the last one first. -/
structure CartLog (n : ℕ) where
  found : Fin n → Option (List Product)
  initial : ℕ → ℤ
  adds : ℕ → List (Fin n)

def CartLog.start (n : ℕ) (d : Db) : CartLog n := ⟨fun _ => none, fun k => (lineQty d k).getD 0, fun _ => []⟩

/-- The request has read that its product is out of stock. -/
def CartLog.OutOfStock (v : CartLog n) (i : Fin n) : Prop :=
  match v.found i with
  | some [p] => p.stockQty = 0
  | _ => False

instance (v : CartLog n) (i : Fin n) : Decidable (v.OutOfStock i) := by
  unfold CartLog.OutOfStock
  split <;> infer_instance

def ShopCall.finds (publicId : ℕ → UUID) (d : Db) : ShopCall → List Product
  | .add req => (d .product).filter fun p : Product => publicId p.id = req.productPublicId
  | .change _ => []

/-- The initial quantity of a line is that of the start, or the one that a request out of stock has inserted it with. -/
@[reducible] def cartLog (publicId : ℕ → UUID) (calls : Fin n → ShopCall) :
    Watch shop shopHost n (Except (Exn AppErr) Reply) where
  Val := CartLog n
  next i s s' v :=
    { found := if (v.found i).isNone then Function.update v.found i (some ((calls i).finds publicId s.world.db))
        else v.found
      initial := fun k => if v.OutOfStock i ∧ lineQty s.world.db k = none then (lineQty s'.world.db k).getD 0
        else v.initial k
      adds := fun k => if ¬v.OutOfStock i ∧ lineQty s'.world.db k ≠ lineQty s.world.db k then i :: v.adds k
        else v.adds k }

/-- A request out of stock commits to no line but a full one or a new one. -/
def commitsFull (i : Fin n) (s : Sys shop shopHost n (Except (Exn AppErr) Reply)) (v : CartLog n) : Prop :=
  v.OutOfStock i → (s.procs i).prog.atCommit = true → ∀ item : CartItem,
    item ∈ written (S := shop) .cartItem (s.procs i).txn.writes → ∀ q ∈ lineQty s.world.db item.id, q = 1000

instance (i : Fin n) (s : Sys shop shopHost n (Except (Exn AppErr) Reply)) (v : CartLog n) :
    Decidable (commitsFull i s v) :=
  inferInstanceAs (Decidable (_ → _ → ∀ item ∈ written (S := shop) .cartItem (s.procs i).txn.writes, _))

structure AddsInStock (s : Sys shop shopHost n (Except (Exn AppErr) Reply)) (v : CartLog n) : Prop where
  unchanged : ∀ i c s', v.OutOfStock i → commitsFull i s v → s.step (.proc i c) = some s' →
    ∀ k q, lineQty s.world.db k = some q → lineQty s'.world.db k = some q
  bounded : ∀ line : CartItem, line ∈ s.world.db .cartItem →
    line.quantity ≤ v.initial line.id + (v.adds line.id).length
  once : ∀ k, (v.adds k).Nodup

/-- The log of a line with the quantity `q`, when `x` are the writers of lines. -/
structure Booked (q : Option ℤ) (x : List (Fin n)) (initial : ℤ) (adds : List (Fin n)) : Prop where
  bounded : ∀ q' ∈ q, q' ≤ initial + adds.length
  new : q = none → initial = 0
  writers : adds ⊆ x
  once : adds.Nodup

namespace Booked
variable {q : Option ℤ} {x x' : List (Fin n)} {initial : ℤ} {adds : List (Fin n)} {i : Fin n}

theorem mono (h : Booked q x initial adds) (hx : x ⊆ x') : Booked q x' initial adds :=
  ⟨h.bounded, h.new, fun _ hi => hx (h.writers hi), h.once⟩

/-- A request out of stock has inserted the line. -/
theorem insert (h : Booked none x initial adds) (hx : x ⊆ x') : Booked (some 1) x' 1 adds := by
  refine ⟨fun q' hq => ?_, nofun, fun _ hi => hx (h.writers hi), h.once⟩
  cases hq
  omega

/-- A request in stock has added a piece, or inserted the line. -/
theorem add (h : Booked q x initial adds) (hi : i ∉ x) :
    Booked (some ((q.map fun q => min (q + 1) 1000).getD 1)) (i :: x) initial (i :: adds) := by
  refine ⟨fun q' hq => ?_, nofun, List.cons_subset_cons i h.writers, ?_⟩
  · cases hq
    rw [List.length_cons]
    cases q with
    | none =>
      have hzero := h.new rfl
      simp only [Option.map_none, Option.getD_none]
      omega
    | some q =>
      have hq := h.bounded q rfl
      simp only [Option.map_some, Option.getD_some]
      omega
  · exact List.nodup_cons.mpr ⟨fun hadds => hi (h.writers hadds), h.once⟩

end Booked

section Runs
variable {publicId : ℕ → UUID} {calls : Fin n → ShopCall} {w : World shop shopHost}
variable {s s' : Sys shop shopHost n (Except (Exn AppErr) Reply)} {x : List (Fin n)} {v : CartLog n} {i : Fin n}
variable {c : Choice shopHost}

abbrev Adding (s : Sys shop shopHost n (Except (Exn AppErr) Reply)) (x : List (Fin n)) : Prop :=
  s.Inv (addProtocol n) (fun _ _ _ _ _ => True) (fun _ _ _ _ _ => True) x

theorem Adding.step (h : Adding s x) (hstep : s.step (.proc i c) = some s') :
    (∀ k, lineQty s'.world.db k = lineQty s.world.db k) ∨
      (i ∉ x ∧ (s.procs i).prog.atCommit = true ∧ AddsOne (s.procs i).txn s.world.db s'.world.db) := by
  rcases Sys.step_changes h.ok hstep with hdb | hcommit
  · rw [hdb]
    exact .inl fun _ => rfl
  · have hguar : lineQtys s'.world.db = lineQtys s.world.db ∨
        (i ∉ x ∧ AddsOne (s.procs i).txn s.world.db s'.world.db) := h.guar (Sys.allows_true _ _ _) hstep
    rcases hguar with hsame | ⟨hi, hadds⟩
    · exact .inl (lineQty_congr hsame)
    · exact .inr ⟨hi, hcommit, hadds⟩

/-- A request out of stock that commits to full or new lines leaves every line as it is. -/
theorem Adding.unchanged (h : Adding s x) (hout : v.OutOfStock i) (hfull : commitsFull i s v)
    (hstep : s.step (.proc i c) = some s') (k : ℕ) (q : ℤ) (hk : lineQty s.world.db k = some q) :
    lineQty s'.world.db k = some q := by
  rcases h.step hstep with hsame | ⟨-, hcommit, item, hitem, hothers, hnext⟩
  · rw [hsame, hk]
  · by_cases hki : k = item.id
    · have hq : q = 1000 := hfull hout hcommit item hitem q (hki ▸ hk)
      rw [← hki, hk, hq] at hnext
      rw [hnext, hq]
      rfl
    · rw [hothers k hki, hk]

abbrev LinesLogged (s : Sys shop shopHost n (Except (Exn AppErr) Reply)) (x : List (Fin n)) (v : CartLog n) : Prop :=
  ∀ k, Booked (lineQty s.world.db k) x (v.initial k) (v.adds k)

/-- What the log lists as found is what the first statement of the request reads. -/
theorem addToCart_finds (publicId : ℕ → UUID) (req : AddToCartRequest) :
    ∃ k, (addToCart publicId req).session = .act (.read fun d : Db => (ShopCall.add req).finds publicId d) k := ⟨_, rfl⟩

theorem subset_next : x ⊆ (lineWriters (n := n)).next i s.world.toShared s'.world.toShared x := by
  change x ⊆ if _ then x else i :: x
  split
  · exact List.Subset.refl x
  · exact List.subset_cons_self i x

theorem Booked.kept {k : ℕ} (h : Booked (lineQty s.world.db k) x (v.initial k) (v.adds k))
    (hsame : lineQty s'.world.db k = lineQty s.world.db k) {x' : List (Fin n)} (hx : x ⊆ x') :
    Booked (lineQty s'.world.db k) x' (((cartLog publicId calls).next i s s' v).initial k)
      (((cartLog publicId calls).next i s s' v).adds k) := by
  have hadds : ((cartLog publicId calls).next i s s' v).adds k = v.adds k := if_neg fun hne => hne.2 hsame
  have hinitial : ((cartLog publicId calls).next i s s' v).initial k = v.initial k := by
    dsimp only [cartLog]
    split
    · rename_i hnew
      rw [hsame, hnew.2, h.new hnew.2]
      rfl
    · rfl
  rw [hsame, hadds, hinitial]
  exact h.mono hx

theorem Adding.logged (h : Adding s x) (hlog : LinesLogged s x v) (hfull : commitsFull i s v)
    (hstep : s.step (.proc i c) = some s') :
    LinesLogged s' ((lineWriters (n := n)).next i s.world.toShared s'.world.toShared x)
      ((cartLog publicId calls).next i s s' v) := by
  intro k
  by_cases hsame : lineQty s'.world.db k = lineQty s.world.db k
  · exact (hlog k).kept hsame subset_next
  · rcases h.step hstep with hall | ⟨hi, -, item, -, hothers, hnext⟩
    · exact absurd (hall k) hsame
    have hki : k = item.id := by
      by_contra hne
      exact hsame (hothers k hne)
    rw [← hki] at hnext
    by_cases hout : v.OutOfStock i
    · -- a line that was there before has stayed as it was
      have hnone : lineQty s.world.db k = none := by
        cases hk : lineQty s.world.db k with
        | none => rfl
        | some q => exact absurd ((h.unchanged hout hfull hstep k q hk).trans hk.symm) hsame
      have hone : lineQty s'.world.db k = some 1 := by
        rw [hnext, hnone]
        rfl
      have hinitial : ((cartLog publicId calls).next i s s' v).initial k = 1 := by
        dsimp only [cartLog]
        rw [if_pos ⟨hout, hnone⟩, hone]
        rfl
      have hadds : ((cartLog publicId calls).next i s s' v).adds k = v.adds k := if_neg fun hin => hin.1 hout
      rw [hone, hinitial, hadds]
      exact (hnone ▸ hlog k).insert subset_next
    · have hinitial : ((cartLog publicId calls).next i s s' v).initial k = v.initial k := if_neg fun hin => hout hin.1
      have hadds : ((cartLog publicId calls).next i s s' v).adds k = i :: v.adds k := if_pos ⟨hout, hsame⟩
      have hx : (lineWriters (n := n)).next i s.world.toShared s'.world.toShared x = i :: x :=
        if_neg fun hqtys => hsame (lineQty_congr hqtys k)
      rw [hnext, hinitial, hadds, hx]
      exact (hlog k).add hi

theorem out_of_stock_adds (hw : w.Ok)
    (hrun : Sys.Watched (cartLog publicId calls) commitsFull (shopCalls publicId calls w) (.start n w.db) s v) :
    AddsInStock s v := by
  have hstart : Adding (shopCalls publicId calls w) [] := Sys.inv_start hw trivial fun i => shopCall_adds (calls i)
  have hlog : LinesLogged (shopCalls publicId calls w) [] (.start n w.db) := by
    intro k
    refine ⟨fun q hq => ?_, fun hnone => ?_, List.Subset.refl _, List.nodup_nil⟩
    · have hq : lineQty w.db k = some q := hq
      simp [CartLog.start, hq]
    · have hnone : lineQty w.db k = none := hnone
      simp [CartLog.start, hnone]
  obtain ⟨x, hinv, hx⟩ := hrun.keeps (J := fun s x v => LinesLogged s x v) hstart hlog
    (fun _ hinv hx hfull hstep _ => Adding.logged hinv hx hfull hstep)
    (fun hx hstep => by
      cases hstep
      exact hx)
  refine ⟨fun i c s' hout hfull hstep => Adding.unchanged hinv hout hfull hstep, fun line hline => ?_,
    fun k => (hx k).once⟩
  exact (hx line.id).bounded _ (lineQty_of_mem hinv.ok.world.wf hline)

end Runs

/-- A cart with a line, and the stock of its product. -/
def lampLine (stock quantity : ℤ) : World shop shopHost where
  db
    | .product => [⟨1, stock, 100⟩]
    | .cart => [⟨1, some 1, none⟩]
    | .cartItem => [⟨1, some 1, 1, quantity⟩]
    | _ => []
  host := ⟨0, 0, [], []⟩
  seq _ := 2

theorem lampLine_ok (stock quantity : ℤ) : (lampLine stock quantity).Ok :=
  ⟨Store.wf_of_pairwise fun t => by cases t <;> simp [lampLine, rowId, rowKeys],
    fun t => by cases t <;> simp [lampLine, rowId]⟩

def soldOut : StockChange where
  prog := do
    let _ ← update .product (fun p : Product => p.id = 1) fun p : Product => { p with stockQty := 0 }
    commit
    pure (jsonOk .null)
  writes := (Prog.Acts.call fun _ _ => by simp [BesideLines]).bind fun _ =>
    (Prog.Acts.call trivial).bind fun _ => .pure _

def addLamp : ShopCall := .add ⟨7, some 1, none, none⟩

/-- The product is sold out between two requests, and the line is full by then. -/
theorem out_of_stock_adds_full : ∃ s v,
    Sys.Watched (cartLog (· + 6) [addLamp, .change soldOut, addLamp].get) commitsFull
        (shopCalls (· + 6) [addLamp, .change soldOut, addLamp].get (lampLine 5 999))
        (.start 3 (lampLine 5 999).db) s v ∧
      v.OutOfStock 2 ∧ lineQty s.world.db 1 = some 1000 ∧ v.initial 1 = 999 ∧ v.adds 1 = [0] ∧ AddsInStock s v := by
  have hexec : ((shopCalls (· + 6) [addLamp, .change soldOut, addLamp].get (lampLine 5 999)).watch
      (cartLog (· + 6) [addLamp, .change soldOut, addLamp].get) commitsFull (.start 3 (lampLine 5 999).db)
      ([0, 0, 0, 0, 0, 0, 1, 1, 1, 2, 2, 2, 2, 2, 2].map fun i => .proc i .go)).map (fun x =>
        (decide (x.2.OutOfStock 2), lineQty x.1.world.db 1, x.2.initial 1, x.2.adds 1)) =
      some (true, some 1000, 999, [0]) := by
    decide +kernel
  obtain ⟨⟨s, v⟩, hs, hend⟩ := Option.map_eq_some_iff.mp hexec
  simp only [Prod.mk.injEq, decide_eq_true_eq] at hend
  have hrun := Sys.Watched.start.watch hs
  exact ⟨s, v, hrun, hend.1, hend.2.1, hend.2.2.1, hend.2.2.2, out_of_stock_adds (lampLine_ok 5 999) hrun⟩

/-- The only request finds the product out of stock, and its line has a piece more. -/
theorem out_of_stock_add_raises : (lampLine 0 1).Ok ∧ ∃ s v,
    Sys.Watched (cartLog (· + 6) fun _ : Fin 1 => addLamp) (fun _ _ _ => True)
        (shopCalls (· + 6) (fun _ => addLamp) (lampLine 0 1)) (.start 1 (lampLine 0 1).db) s v ∧
      v.OutOfStock 0 ∧ lineQty (lampLine 0 1).db 1 = some 1 ∧ lineQty s.world.db 1 = some 2 ∧ ¬AddsInStock s v := by
  have hexec : ((shopCalls (· + 6) (fun _ : Fin 1 => addLamp) (lampLine 0 1)).watch
      (cartLog (· + 6) fun _ : Fin 1 => addLamp) (fun _ _ _ => True) (.start 1 (lampLine 0 1).db)
      (.replicate 6 (.proc 0 .go))).map (fun x =>
        (decide (x.2.OutOfStock 0), lineQty x.1.world.db 1, x.2.initial 1, x.2.adds 1)) =
      some (true, some 2, 1, []) := by
    decide +kernel
  obtain ⟨⟨s, v⟩, hs, hend⟩ := Option.map_eq_some_iff.mp hexec
  simp only [Prod.mk.injEq, decide_eq_true_eq] at hend
  obtain ⟨hout, hqty, hinitial, hadds⟩ := hend
  refine ⟨lampLine_ok 0 1, s, v, Sys.Watched.start.watch hs, hout, rfl, hqty, fun h => ?_⟩
  obtain ⟨line, hget, hline⟩ := Option.map_eq_some_iff.mp hqty
  have hid : line.id = 1 := Store.id_of_get hget
  have hbound := h.bounded line (Store.mem_of_get hget)
  rw [hid, hline, hinitial, hadds] at hbound
  simp at hbound

end Phyllonix
