import Phyllonix.OrderFootprints
import Phyllonix.CommitIntentRuns
import Mathlib.Algebra.BigOperators.Fin

/-!
# Stock and the order book

The account of the workers holds with all requests running: the others write no product, and the
commit intents that they add are pending. What the done intents took is what the orders in the book
wanted whose goods are taken.
-/

namespace Phyllonix.Fulfilment
open Relational
variable {n : ℕ}

/-! ## Requests that are no workers -/

section Sparing
variable {init floor : ℕ → ℤ} {G : Guard shop shopHost n} {i : Fin n} {d d' : Db}
variable {sh : Shared shop shopHost} {x : ℕ → Option (Fin n)} {l : Txn shop}

def Stocked (t : Table) : Prop := t = .product ∨ t = .commitIntent

theorem claimedBy_same {sh sh' : Shared shop shopHost} (h : ∀ c, intentStatus sh'.db c = intentStatus sh.db c) :
    claimedBy i sh sh' x = x := by
  funext c
  rw [claimedBy, if_pos (h c)]

theorem stock_watches : (stockProtocol init floor n).Watches Stocked where
  inv := by
    intro sh sh' x hsame hinv
    have hproducts : sh'.db .product = sh.db .product := hsame _ (.inl rfl)
    have hintents : sh'.db .commitIntent = sh.db .commitIntent := hsame _ (.inr rfl)
    refine ⟨fun p => ?_, fun q hq => ?_, fun c i hc => ?_⟩
    · rw [Store.total, Store.total, hproducts, hintents]
      exact hinv.conserved p
    · rw [hproducts] at hq
      exact hinv.floor q hq
    · rw [intentStatus, Store.get, hintents]
      exact hinv.held c i hc
  next := by
    intro i sh sh' x hsame
    apply claimedBy_same
    intro c
    rw [intentStatus, Store.get, hsame .commitIntent (.inr rfl)]
    rfl
  guar := by
    intro i l sh sh' x hsame c
    left
    rw [intentStatus, Store.get, hsame .commitIntent (.inr rfl)]
    rfl

/-- The open transaction of a request that is no worker. -/
structure Sparing (d : Db) (l : Txn shop) : Prop where
  inserts : Inserts (fun t => t = Table.commitIntent) l.writes d
  writes : ∀ v ∈ l.writes, v.tbl ≠ .product ∧ BornPending v

theorem Sparing.products (h : Sparing d l) : l.view d .product = d .product :=
  applyWrites_of_untouched fun v hv => (h.writes v hv).1

theorem Sparing.intents (h : Sparing d l) :
    ∃ cs : List CommitIntent, l.view d .commitIntent = d .commitIntent ++ cs ∧
      ∀ c ∈ cs, c.status = CommitIntentStatus.pending.value := by
  refine ⟨written (S := shop) Table.commitIntent l.writes, ?_, fun c hc => ?_⟩
  · exact applyWrites_written h.inserts rfl
  · exact (h.writes _ (mem_written.mp hc)).2 c rfl

theorem Sparing.status (h : Sparing d l) (c : ℕ) : intentStatus (l.view d) c = intentStatus d c ∨
    (intentStatus d c = none ∧ intentStatus (l.view d) c = some CommitIntentStatus.pending.value) := by
  obtain ⟨cs, hcs, hpending⟩ := h.intents
  have hget : (l.view d).get .commitIntent c =
      (d.get .commitIntent c).or (cs.find? fun u => rowId (t := .commitIntent) u = c) := by
    rw [Store.get, hcs, List.find?_append]
    rfl
  rw [intentStatus, intentStatus, hget]
  cases d.get .commitIntent c with
  | some u => exact .inl rfl
  | none =>
    cases hfind : cs.find? fun u => rowId (t := .commitIntent) u = c with
    | none => exact .inl rfl
    | some u =>
      right
      refine ⟨rfl, ?_⟩
      rw [Option.none_or, Option.map_some, hpending u (List.mem_of_find?_eq_some hfind)]

theorem Sparing.commit (h : Sparing d l) (hinv : StockInv init floor d x) (s : HostState) :
    StockInv init floor (l.view d) (claimedBy i ⟨d, s⟩ ⟨l.view d, s⟩ x) ∧ Moves i d (l.view d) x := by
  have hunheld : ∀ c, intentStatus d c = none → x c = none := by
    intro c hc
    apply hinv.unheld
    rw [hc]
    exact (Option.some_ne_none _).symm
  refine ⟨⟨fun p => ?_, fun q hq => ?_, fun c j hc => ?_⟩, fun c => ?_⟩
  · obtain ⟨cs, hcs, hpending⟩ := h.intents
    have hzero : (cs.map (doneQty p)).sum = 0 := by
      apply List.sum_eq_zero
      intro z hz
      obtain ⟨c, hc, rfl⟩ := List.mem_map.mp hz
      rw [doneQty, hpending c hc, if_neg (by decide)]
    have htotal : (l.view d).total .commitIntent (doneQty p) = d.total .commitIntent (doneQty p) := by
      rw [Store.total, hcs, List.map_append, List.sum_append, hzero, Int.add_zero, Store.total]
    rw [htotal, Store.total, h.products]
    exact hinv.conserved p
  · rw [h.products] at hq
    exact hinv.floor q hq
  · rcases h.status c with hsame | ⟨hnone, hpending⟩
    · rw [claimedBy, if_pos hsame] at hc
      rw [hsame]
      exact hinv.held c j hc
    · rw [claimedBy, if_neg (by rw [hnone, hpending]; exact Option.some_ne_none _), hpending] at hc
      cases hc
  · rcases h.status c with hsame | ⟨hnone, -⟩
    · exact .inl hsame
    · refine .inr (.inr ⟨hunheld c hnone, ?_⟩)
      rw [hnone]
      exact (Option.some_ne_none _).symm

theorem spares_stock {α : Type} {p : Py α} (hp : p.Acts SparesStock) :
    Safe (stockProtocol init floor n) G i (fun _ _ _ _ => True) p sh x {} := by
  apply Safe.mono (Q := fun _ sh' _ l' => Sparing sh'.db l') fun _ _ _ _ _ => trivial
  refine Safe.throughout (Φ := fun d _ l => Sparing d l) stock_watches ?_ ?_ ?_ (fun h => ⟨h.inserts, h.writes⟩) hp
    ⟨trivial, fun v hv => by cases hv⟩
  · intro sh x l w y h hs
    exact ⟨h.inserts.congr fun v hv => hs.still.row _ _ (hs.ok.locked v hv), h.writes⟩
  · intro a c busy w w' y l l' r ha hun hw hl h hrun
    have hdb := Action.run_db hun hw hl hrun
    have hinserts := Action.run_inserts (fun t ht hupd => hupd.2 ht) ha.1 hw hl h.inserts hrun
    rw [hdb] at hinserts
    have hproduct : a.Confined fun v => ¬v.tbl = Table.product :=
      ha.1.confined (T := fun t => t = Table.product) (fun t ht hins => hins ht) fun t ht hupd => hupd.1 ht
    refine ⟨hinserts, fun v hv => ⟨?_, ?_⟩⟩
    · exact Action.run_confined hproduct (fun v hv => (h.writes v hv).1) hrun v hv
    · exact Action.run_confined ha.2 (fun v hv => (h.writes v hv).2) hrun v hv
  · intro sh x l w y c hs h _
    obtain ⟨hinv, hmoves⟩ := h.commit (i := i) hs.inv w.host
    exact ⟨hinv, hmoves, trivial, fun v hv => by cases hv⟩

end Sparing

/-! ## The account -/

section Account
variable {init floor : ℕ → ℤ} {i : Fin n} {d d' : Db} {x x' : ℕ → Option (Fin n)} {f f' : OrderBook} {op : Operation}

def stocks (d : Db) (p : ℕ) : Option ℤ := (d.get .product p).map Product.stockQty

theorem aggregates_nodup (h : Represents d f) (hd : d.Wf) : ((d .commitIntent).map CommitIntent.aggregateId).Nodup := by
  refine List.Nodup.map_on ?_ (hd.ids .commitIntent).of_map
  intro c hc c' hc' hagg
  have hfound := intentOf_eq hd hc (h.intents c hc)
  rw [hagg, intentOf_eq hd hc' (h.intents c' hc')] at hfound
  exact (Option.some.inj hfound).symm

theorem doneQty_eq (h : Represents d f) (hd : d.Wf) {c : CommitIntent} (hc : c ∈ d .commitIntent) (p : ℕ) :
    doneQty p c = takenQty f p c.aggregateId := by
  obtain ⟨b, s, hb, hpaid, hstatus, hpayload⟩ := h.intent hd hc
  have hwants : itemsQty c.items = b.wants := by
    rw [CommitIntent.items, hpayload]
    exact (h.view hb).2
  have hdone : s.status = CommitIntentStatus.done.value ↔ Progress.paid s = .paid .taken := by
    rw [Progress.paid.injEq]
    exact Stage.status_injective.eq_iff (b := .taken)
  rw [doneQty, hwants, hstatus, takenQty, hb, Option.elim_some, hpaid]
  exact if_congr hdone rfl rfl

/-- The done intents have taken what the taken orders wanted. -/
theorem done_sum (h : Represents d f) (hd : d.Wf) (p : ℕ) {B : Finset ℕ}
    (hB : ∀ c : CommitIntent, c ∈ d .commitIntent → c.aggregateId ∈ B) :
    d.total .commitIntent (doneQty p) = ∑ o ∈ B, takenQty f p o := by
  have hlist : (d .commitIntent).map (doneQty p) =
      ((d .commitIntent).map CommitIntent.aggregateId).map (takenQty f p) := by
    rw [List.map_map]
    exact List.map_congr_left fun c hc => doneQty_eq h hd hc p
  rw [Store.total, hlist, ← List.sum_toFinset _ (aggregates_nodup h hd)]
  apply Finset.sum_subset
  · intro o ho
    obtain ⟨c, hc, rfl⟩ := List.mem_map.mp (List.mem_toFinset.mp ho)
    exact hB c hc
  · intro o _ ho
    apply takenQty_of_not
    rintro ⟨b, hb, htaken⟩
    have hshown := congrArg OrderView.intent (h.view hb).1
    rw [htaken] at hshown
    obtain ⟨c, hc, -⟩ := Option.map_eq_some_iff.mp hshown
    have hmem := List.mem_of_find?_eq_some hc
    have hagg : c.aggregateId = o := aggregate_of_paid (List.find?_some hc)
    exact ho (List.mem_toFinset.mpr (List.mem_map.mpr ⟨c, hmem, hagg⟩))

/-- What the intents have taken more is missing from the stock. -/
theorem stocks_eq (hd : d.Wf) (hd' : d'.Wf) (hlater : Later d d') (hinv : StockInv init floor d x)
    (hinv' : StockInv init floor d' x') {p : ℕ} {k : ℤ}
    (hdone : d'.total .commitIntent (doneQty p) = d.total .commitIntent (doneQty p) + k) :
    stocks d' p = (stocks d p).map fun q => q - k := by
  have hbefore := hinv.conserved p
  have hafter := hinv'.conserved p
  have hsome := hlater.products p
  rw [total_stockOf hd] at hbefore
  rw [total_stockOf hd', hdone] at hafter
  rw [stocks, stocks]
  cases hq : d.get .product p with
  | none =>
    have hnone : d'.get .product p = none := by
      rw [hq] at hsome
      exact Option.not_isSome_iff_eq_none.mp (by simp [hsome])
    rw [hnone]
    rfl
  | some q =>
    rw [hq] at hsome
    obtain ⟨q', hq'⟩ := Option.isSome_iff_exists.mp hsome
    rw [hq, Option.elim_some] at hbefore
    rw [hq', Option.elim_some] at hafter
    rw [hq', Option.map_some, Option.map_some, Option.map_some]
    congr 1
    omega

theorem done_stays (hinv : StockInv init floor d x) (hmoves : Moves i d d' x) {c : ℕ}
    (h : intentStatus d c = some CommitIntentStatus.done.value) :
    intentStatus d' c = some CommitIntentStatus.done.value := by
  rcases hmoves c with hsame | hheld | ⟨-, hnot⟩
  · exact hsame.trans h
  · rw [hinv.held c i hheld] at h
    exact absurd (Option.some.inj h) (by decide)
  · exact absurd h hnot

/-- The work on an order whose goods are taken is over. -/
theorem work_closed (hd : d.Wf) (hd' : d'.Wf) (hf : Represents d f) (hf' : Represents d' f') (hlater : Later d d')
    (hinv : StockInv init floor d x) (hmoves : Moves i d d' x) (hturn : Turn f op f') :
    f' = f ∨ ∀ o s, op = .work o s → ∀ b, f o = some b → b.progress ≠ .paid .taken := by
  by_cases hclosed : ∀ o s, op = .work o s → ∀ b, f o = some b → b.progress ≠ .paid .taken
  · exact .inr hclosed
  · left
    push Not at hclosed
    obtain ⟨o, s, rfl, b, hb, htaken⟩ := hclosed
    cases hturn with
    | @work _ b₀ s₀ _ found paid =>
      obtain rfl : b₀ = b := Option.some.inj (found.symm.trans hb)
      have hshown := congrArg OrderView.intent (hf.view hb).1
      rw [htaken] at hshown
      obtain ⟨c, hc, hcv⟩ := Option.map_eq_some_iff.mp hshown
      obtain ⟨-, hdone⟩ := Prod.mk.inj hcv
      have hagg : c.aggregateId = o := aggregate_of_paid (List.find?_some hc)
      have hget : d.get .commitIntent c.id = some c := Store.get_of_mem hd.ids (List.mem_of_find?_eq_some hc)
      have hstatus : intentStatus d c.id = some CommitIntentStatus.done.value := by
        rw [intentStatus, hget, Option.map_some, hdone]
        rfl
      obtain ⟨c', hget', hagg'⟩ := hlater.intents _ c hget
      have hstatus' := done_stays hinv hmoves hstatus
      rw [intentStatus, hget', Option.map_some] at hstatus'
      obtain ⟨b', s', hb', hpaid', hs', -⟩ := hf'.intent hd' (Store.mem_of_get hget')
      rw [hagg', hagg, Function.update_self] at hb'
      obtain rfl := Option.some.inj hb'
      have hs : s = .taken := by
        apply Stage.status_injective
        rw [Progress.paid.inj hpaid', ← hs']
        exact Option.some.inj hstatus'
      subst hs
      rw [← htaken]
      exact Function.update_eq_self_iff.mpr hb.symm

end Account
end Phyllonix.Fulfilment
