import Phyllonix.OrderConfirmations
import Phyllonix.OrderNotifications
import Phyllonix.OrderStock

/-!
# The shop refines the machine

Requests of all kinds run interleaved. What they commit is a run of the abstract machine: at each
time the tables represent the order book that the operations so far have led to, the stock of the
machine is the stock of the products, and each operation was done by a request that may do it.
-/

namespace Phyllonix.Fulfilment
open Relational Abstract
variable {n : ℕ} {lib : Lib} {publicId : ℕ → UUID} {reqs : Fin n → ShopRequest} {w : World shop shopHost}
variable {s s' : Sys shop shopHost n (Except (Exn AppErr) (Option Reply))}

/-! ## The requests -/

section Requests
variable {G : Guard shop shopHost n} {i : Fin n} {sh : Shared shop shopHost} {x : ℕ → Option (Fin n)}

/-- Notifications name the provider order of their payment. -/
def AllName (reqs : Fin n → ShopRequest) : Prop := ∀ i req, reqs i = .webhook req → NamesOrder req

theorem replied_orderly {p : Py Reply} (hp : Safe (orderly lib reqs) G i (fun _ _ _ _ => True) p sh x {}) :
    Safe (orderly lib reqs) G i (fun _ _ _ _ => True) (do pure (some (← p)) : Py (Option Reply)) sh x {} := by
  apply Safe.bind
  apply hp.mono
  intro r _ _ _ _
  cases r <;> trivial

theorem shopRequest_orderly (hnames : AllName reqs) (i : Fin n) :
    Safe (orderly lib reqs) G i (fun _ _ _ _ => True) ((reqs i).handler lib publicId) sh x {} := by
  cases hreq : reqs i with
  | initiate u => exact replied_orderly (beside_orderly (initiateBuyNow_beside u))
  | orderSummary req => exact replied_orderly (beside_orderly (getOrderSummary_beside lib req))
  | secureConfirm req => exact replied_orderly (placeOrder_orderly hreq)
  | addToCart req => exact replied_orderly (beside_orderly (addToCart_acts beside_cart publicId req))
  | webhook req => exact replied_orderly (razorpayWebhook_orderly hreq (hnames i req hreq))
  | commitIntent maxAttempts ciId =>
    apply Safe.bind
    apply (orderConfirmCommitintentHandler_orderly hreq).mono
    intro r _ _ _ _
    cases r <;> trivial

theorem shopRequest_stock {init floor : ℕ → ℤ} (hfloor : ∀ p, floor p ≤ 0)
    (hG : ∀ sh l a c, G i sh l a c → recoveryAllowed i sh l a c) :
    Safe (stockProtocol init floor n) G i (fun _ _ _ _ => True) ((reqs i).handler lib publicId) sh x {} := by
  have hreplied : ∀ {p : Py Reply}, p.Acts SparesStock →
      Safe (stockProtocol init floor n) G i (fun _ _ _ _ => True) (do pure (some (← p)) : Py (Option Reply)) sh x {} :=
    fun hp => spares_stock (hp.bind fun _ => .pure _)
  cases reqs i with
  | initiate u => exact hreplied (sparesStock (initiateBuyNow_beside u))
  | orderSummary req => exact hreplied (sparesStock (getOrderSummary_beside lib req))
  | secureConfirm req => exact hreplied (placeOrder_spares lib req)
  | addToCart req => exact hreplied (sparesStock (addToCart_acts beside_cart publicId req))
  | webhook req => exact hreplied (razorpayWebhook_spares lib req)
  | commitIntent maxAttempts ciId =>
    apply Safe.bind
    apply (handler_safe hfloor (.inr hG) maxAttempts ciId).mono
    intro r _ _ _ _
    cases r <;> trivial

end Requests

/-! ## Reachable states -/

section Reachable
variable {G : Guard shop shopHost n} {K : History shop shopHost n} {x₀ x : K.Val}

theorem orderly_inv (hnames : AllName reqs) (hw : w.Ok) {f₀ : OrderBook} (hf₀ : Represents w.db f₀)
    (hrun : Sys.Run G K (shopRequests lib publicId reqs w) x₀ s x) :
    ∃ x, s.Inv (orderly lib reqs) G (fun _ _ _ _ _ => True) x := by
  obtain ⟨x, hx⟩ := hrun.history (placers n) fun _ => none
  have hinv : Orderly (n := n) w.db fun _ => none := ⟨⟨f₀, hf₀⟩, fun _ _ h => by cases h⟩
  refine ⟨x, Sys.Run.inv (P := orderly lib reqs) hx (Sys.inv_start hw hinv fun i => ?_)⟩
  exact Safe.session ((shopRequest_orderly hnames i).mono fun _ _ _ _ _ _ _ _ => trivial)

def lowest (d : Db) (p : ℕ) : ℤ := (stocks d p).elim 0 (min 0)

theorem lowest_le (d : Db) (p : ℕ) : lowest d p ≤ 0 := by
  rw [lowest]
  cases stocks d p with
  | none => exact le_refl 0
  | some q => exact min_le_left 0 q

theorem stock_inv (hw : w.Ok) (hG : ∀ i sh l a c, G i sh l a c → recoveryAllowed i sh l a c)
    (hrun : Sys.Run G K (shopRequests lib publicId reqs w) x₀ s x) :
    ∃ x, s.Inv (stockProtocol (initialStock w.db) (lowest w.db) n) G (fun _ _ _ _ _ => True) x := by
  obtain ⟨x, hx⟩ := hrun.history (holders n) fun _ => none
  have hinv : StockInv (n := n) (initialStock w.db) (lowest w.db) w.db fun _ => none := by
    refine ⟨fun _ => rfl, fun q hq => ?_, fun _ _ h => by cases h⟩
    have hget : w.db.get .product q.id = some q := Store.get_of_mem hw.wf.ids hq
    rw [lowest, stocks, hget]
    exact min_le_right 0 q.stockQty
  refine ⟨x, Sys.Run.inv (P := stockProtocol (initialStock w.db) (lowest w.db) n) hx
    (Sys.inv_start hw hinv fun i => ?_)⟩
  exact Safe.session ((shopRequest_stock (lowest_le w.db) (hG i)).mono fun _ _ _ _ _ _ _ _ => trivial)

end Reachable

/-! ## The refinement -/

/-- The operations of the log lead from the shop at the start to the shop as it is. -/
structure Accounts (lib : Lib) (reqs : Fin n → ShopRequest) (d₀ d : Db) (f₀ : OrderBook)
    (log : List (Fin n × Operation)) (f : OrderBook) : Prop where
  runs : machine.Runs ⟨stocks d₀, f₀⟩ (log.map Prod.snd) ⟨stocks d, f⟩
  represents : Represents d f
  does : ∀ e ∈ log, Does lib d (reqs e.1) e.2

section Step
variable {d₀ d d' : Db} {f₀ f : OrderBook} {log : List (Fin n × Operation)} {i : Fin n}
variable {init floor : ℕ → ℤ} {x x' : ℕ → Option (Fin n)}

theorem Accounts.keep (h : Accounts lib reqs d₀ d f₀ log f) (hlater : Later d d') (hf : Represents d' f)
    (hstocks : stocks d' = stocks d) : Accounts lib reqs d₀ d' f₀ log f := by
  refine ⟨?_, hf, fun e he => (h.does e he).later hlater⟩
  rw [hstocks]
  exact h.runs

/-- A commit is an operation, or none. -/
theorem Accounts.commit (h : Accounts lib reqs d₀ d f₀ log f) (hd : d.Wf) (hd' : d'.Wf) (hlater : Later d d')
    (hturned : Turned lib (reqs i) d d') (hinv : StockInv init floor d x) (hinv' : StockInv init floor d' x')
    (hmoves : Moves i d d' x) :
    ∃ log' f', Accounts lib reqs d₀ d' f₀ log' f' := by
  have hkept : Represents d' f → stocks d' = stocks d := by
    intro hf'
    funext p
    let B := ((d .commitIntent ++ d' .commitIntent).map CommitIntent.aggregateId).toFinset
    have hB : ∀ c : CommitIntent, c ∈ d .commitIntent ++ d' .commitIntent → c.aggregateId ∈ B := fun c hc =>
      List.mem_toFinset.mpr (List.mem_map_of_mem hc)
    have hdone : d'.total .commitIntent (doneQty p) = d.total .commitIntent (doneQty p) + 0 := by
      rw [done_sum hf' hd' p fun c hc => hB c (List.mem_append_right _ hc),
        done_sum h.represents hd p fun c hc => hB c (List.mem_append_left _ hc), Int.add_zero]
    rw [stocks_eq hd hd' hlater hinv hinv' hdone]
    cases stocks d p with
    | none => rfl
    | some q => exact congrArg some (Int.sub_zero q)
  rcases hturned f h.represents with hsame | ⟨f', op, hf', hturn, hdoes⟩
  · exact ⟨log, f, h.keep hlater hsame (hkept hsame)⟩
  rcases work_closed hd hd' h.represents hf' hlater hinv hmoves hturn with rfl | hclosed
  · exact ⟨log, f', h.keep hlater hf' (hkept hf')⟩
  have hstocks : ∀ p, stocks d' p = (stocks d p).map fun q => q - op.takes.elim 0 fun o => wanted f o p := by
    intro p
    let B := ((d .commitIntent ++ d' .commitIntent).map CommitIntent.aggregateId).toFinset ∪ op.takes.toFinset
    have hB : ∀ c : CommitIntent, c ∈ d .commitIntent ++ d' .commitIntent → c.aggregateId ∈ B := fun c hc =>
      Finset.mem_union_left _ (List.mem_toFinset.mpr (List.mem_map_of_mem hc))
    have htakes : ∀ o, op.takes = some o → o ∈ B := fun o ho =>
      Finset.mem_union_right _ (Option.mem_toFinset.mpr ho)
    apply stocks_eq hd hd' hlater hinv hinv'
    rw [done_sum hf' hd' p fun c hc => hB c (List.mem_append_right _ hc),
      done_sum h.represents hd p fun c hc => hB c (List.mem_append_left _ hc), hturn.sum_takenQty hclosed p htakes]
  refine ⟨log ++ [(i, op)], f', ?_, hf', fun e he => ?_⟩
  · rw [List.map_append]
    exact h.runs.next ⟨hturn, hclosed, hstocks⟩
  · rcases List.mem_append.mp he with he | he
    · exact (h.does e he).later hlater
    · rw [List.mem_singleton.mp he]
      exact hdoes

end Step

section Refinement
variable {f₀ : OrderBook}

theorem represented_of_run {K : History shop shopHost n} {x₀ x : K.Val} (hnames : AllName reqs) (hw : w.Ok)
    (hf₀ : Represents w.db f₀) (hrun : Sys.Run recoveryAllowed K (shopRequests lib publicId reqs w) x₀ s x) :
    ∃ f, Represents s.world.db f := by
  obtain ⟨y, hbook⟩ := orderly_inv hnames hw hf₀ hrun
  exact hbook.inv.book

/-- The part of a run from any state on is a run of the machine from the order book of that state. -/
theorem accounts_between {K : History shop shopHost n} {x₀ x x' : K.Val} (hnames : AllName reqs) (hw : w.Ok)
    (hf₀ : Represents w.db f₀) (hrun : Sys.Run recoveryAllowed K (shopRequests lib publicId reqs w) x₀ s x)
    {f : OrderBook} (hf : Represents s.world.db f) (hrest : Sys.Run recoveryAllowed K s x s' x') :
    ∃ log f', Accounts lib reqs s.world.db s'.world.db f log f' := by
  induction hrest with
  | start => exact ⟨[], f, .start, hf, fun e he => by cases he⟩
  | @proc s' s'' x' i c hmid hG hstep ih =>
    obtain ⟨log, f', h⟩ := ih
    have hprev := hrun.trans hmid
    obtain ⟨y, hbook⟩ := orderly_inv hnames hw hf₀ hprev
    obtain ⟨z, hstock⟩ := stock_inv hw (fun _ _ _ _ _ h => h) hprev
    have hlater := hbook.guar hG hstep
    have hmoves := hstock.guar hG hstep
    have hafter := hstock.proc hG hstep
    exact h.commit hbook.ok.world.wf hafter.ok.world.wf hlater.1 hlater.2.2 hstock.inv hafter.inv hmoves
  | @env s' s'' x' e hmid hstep ih =>
    obtain ⟨log, f', h⟩ := ih
    simp only [Sys.step, Option.some.injEq] at hstep
    subst hstep
    exact ⟨log, f', h⟩

theorem accounts_of_run {K : History shop shopHost n} {x₀ x : K.Val} (hnames : AllName reqs) (hw : w.Ok)
    (hf₀ : Represents w.db f₀) (hrun : Sys.Run recoveryAllowed K (shopRequests lib publicId reqs w) x₀ s x) :
    ∃ log f, Accounts lib reqs w.db s.world.db f₀ log f := accounts_between hnames hw hf₀ .start hf₀ hrun

/-- In every run of the shop each commit is an operation of the machine, by a request that may do it. -/
theorem shop_refines (hnames : AllName reqs) (hw : w.Ok) (hf₀ : Represents w.db f₀)
    (hrun : Sys.Run recoveryAllowed History.none (shopRequests lib publicId reqs w) () s ()) :
    ∃ log f, Accounts lib reqs w.db s.world.db f₀ log f := accounts_of_run hnames hw hf₀ hrun

end Refinement

/-! ## A sale -/

/-- User 9 is about to buy two pieces of product 5. -/
def freshShop : World shop shopHost where
  db
    | .product => [⟨5, 8, 100⟩]
    | .checkoutSession => [⟨1, 11, 9, some [⟨1, 5, 2, 100, 8⟩], some .UPI, true, seconds 900⟩]
    | _ => []
  host := ⟨0, 100, [], []⟩
  seq _ := 6

theorem freshShop_ok : freshShop.Ok :=
  ⟨Store.wf_of_pairwise fun t => by cases t <;> decide, fun t => by cases t <;> decide⟩

theorem freshShop_empty : Represents freshShop.db fun _ => none := by
  apply represents_of_empty
  intro t ht
  rcases ht with rfl | rfl | rfl | rfl | rfl <;> rfl

/-- The confirmation, the notification of the capture and the worker for the goods. -/
def sale : Fin 3 → ShopRequest
  | 0 => .secureConfirm oneConfirm
  | 1 => .webhook (captureAndFailure 0)
  | 2 => .commitIntent 5 (some 6)

theorem sale_names : AllName sale := by
  intro i req hreq payload f hjson hf
  rcases i with ⟨_ | _ | _ | k, hi⟩
  · cases hreq
  · cases hreq
    cases hjson
    cases hf
    exact fun h => by cases h
  · cases hreq
  · omega

/-- The notification arrives before the confirmation has ended. -/
def saleSteps : List (Label shopHost 3) :=
  ordering 0 ++ .replicate 2 (.proc 0 .go) ++ [.proc 0 (.host (.response [("id", .str "po1")]))] ++
    .replicate 4 (.proc 0 .go) ++ .replicate 7 (.proc 1 .go) ++
    [.proc 1 (.host .proceed), .proc 1 .go, .proc 1 .go, .proc 1 (.host .proceed), .proc 1 (.host .proceed),
      .proc 1 .go] ++
    .replicate 3 (.proc 0 .go) ++ .replicate 9 (.proc 2 .go)

theorem sale_run : ∃ s, Sys.Run recoveryAllowed History.none (shopRequests plainLib id sale freshShop) () s () ∧
    (s.world.db.get .orders 6).map Orders.status = some OrderStatus.confirmed.value ∧
    stocks s.world.db 5 = some 6 ∧ intentStatus s.world.db 6 = some CommitIntentStatus.done.value := by
  have hexec : ((shopRequests plainLib id sale freshShop).exec recoveryAllowed saleSteps).map (fun s =>
      ((s.world.db.get .orders 6).map Orders.status, stocks s.world.db 5, intentStatus s.world.db 6)) =
      some (some OrderStatus.confirmed.value, some 6, some CommitIntentStatus.done.value) := by
    decide +kernel
  obtain ⟨s, hs, heq⟩ := Option.map_eq_some_iff.mp hexec
  obtain ⟨⟨⟩, hrun⟩ := Sys.run_of_exec History.none () hs
  obtain ⟨horder, hrest⟩ := Prod.mk.inj heq
  obtain ⟨hstock, hdone⟩ := Prod.mk.inj hrest
  exact ⟨s, hrun, horder, hstock, hdone⟩

/-- The sale takes the goods from the stock, as operations of the machine. -/
theorem shop_refines_sale : ∃ (s : Sys shop shopHost 3 (Except (Exn AppErr) (Option Reply))) (log : _) (f : OrderBook),
    stocks s.world.db 5 = some 6 ∧ Accounts plainLib sale freshShop.db s.world.db (fun _ => none) log f := by
  obtain ⟨s, hrun, -, hstock, -⟩ := sale_run
  obtain ⟨log, f, h⟩ := shop_refines sale_names freshShop_ok freshShop_empty hrun
  exact ⟨s, log, f, hstock, h⟩

end Phyllonix.Fulfilment
