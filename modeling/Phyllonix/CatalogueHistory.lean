import Phyllonix.CatalogueAnswers

/-!
# Runs of the product handlers

However creates and updates interleave, the catalogue is what one order of their operations
makes of it, each request once. So a field has the value that its last update named, and
nobody but its owner moves a product.
-/

namespace Phyllonix.Products
open Relational Abstract
variable {n : ℕ}

/-- The operations of the requests in one order that explains the catalogue and the answers. -/
structure Linear (lib : ProductLib) (reqs : Fin n → ProductRequest) (w : World products productHost)
    (s : Sys products productHost n (Except (Exn AppErr) Reply)) (log : List (Fin n × Operation)) :
    Prop where
  runs : machine.Runs (catalogue w.db) (log.map Prod.snd) (catalogue s.world.db)
  once : (log.map Prod.fst).Nodup
  does : ∀ i o, (i, o) ∈ log → Does lib (known w.db) (reqs i) o
  /-- An operation that is not in the order would change nothing at some point of it. -/
  done : ∀ i reply, s.outcome i = some (.ok reply) → ∃ o, Does lib (known w.db) (reqs i) o ∧
    reply = answer o ∧ ((i, o) ∈ log ∨ i ∉ log.map Prod.fst ∧ ∃ front back c, log = front ++ back ∧
      machine.Runs (catalogue w.db) (front.map Prod.snd) c ∧ machine.step c o c)
  idle : ∀ i e, s.outcome i = some (.error e) → i ∉ log.map Prod.fst

section Runs
variable {lib : ProductLib} {reqs : Fin n → ProductRequest} {w : World products productHost}
variable {s : Sys products productHost n (Except (Exn AppErr) Reply)}

theorem linear_of_run (hw : w.Ok) (hlinked : Linked w.db) {x : List (Commit products n)}
    (h : Sys.Run (fun _ _ _ _ _ => True) History.commits (productRequests lib reqs w) [] s x) :
    ∃ log, Linear lib reqs w s log := by
  obtain ⟨hlog, hreport⟩ := products_report hw hlinked h
  have hrefines : (ledger lib (known w.db) reqs).Refines machine catalogue fun i => Does lib (known w.db) (reqs i) :=
    ledger_refines
  obtain ⟨op, hop⟩ := hrefines.exists_reads
  have hquiet : ∀ i, Ledger.commitsOf i x = [] → i ∉ (Ledger.history op x).map Prod.fst :=
    fun i hi hmem => Ledger.mem_history_procs.mp hmem hi
  refine ⟨Ledger.history op x, hop.runs hlog, Ledger.history_procs_nodup hlog fun es e he => he.1,
    fun i o => hop.of_mem hlog, fun i reply hi => ?_, fun i e hi => hquiet i (hreport i _ hi).quiet⟩
  obtain ⟨o, hdoes, hreply, es, d', hstep, hwhere⟩ := hreport i _ hi
  refine ⟨o, hdoes, hreply, ?_⟩
  rcases hwhere with hsuf | ⟨⟨front, rfl⟩, rfl, hnone⟩
  · left
    have hmem : (⟨i, Ledger.lastStore w.db es, d'⟩ : Commit products n) ∈ x := hsuf.subset List.mem_cons_self
    obtain ⟨es', -, hallows, -⟩ := hlog.mem hmem
    obtain ⟨hdoes', hstep'⟩ := hop.step es' _ hallows
    rw [hdoes.unique hdoes' hstep hstep']
    exact Ledger.mem_history.mpr ⟨_, hmem, rfl⟩
  · refine .inr ⟨hquiet i hnone, Ledger.history op es, Ledger.history op front, _, ?_, ?_, hstep⟩
    · rw [Ledger.history, List.map_append, List.reverse_append, Ledger.history, Ledger.history]
    · exact hop.runs (hlog.suffix (List.suffix_append front es))

/-- Every run of creates and updates is explained by one order of their operations. -/
theorem catalogue_linear (hw : w.Ok) (hlinked : Linked w.db) (h : Sys.Reach (productRequests lib reqs w) s) :
    ∃ log, Linear lib reqs w s log := by
  obtain ⟨x, hrun⟩ := h.history History.commits []
  exact linear_of_run hw hlinked hrun

end Runs

/-! ## Two updates of one product -/

def plainLib : ProductLib where
  uuidOf value := if value = uuidStr 1 then some 1 else none
  listText names := "[" ++ String.intercalate ", " names ++ "]"

theorem plainLib_uuidOf : plainLib.uuidOf (uuidStr 1) = some 1 := by simp [plainLib]

/-- One product in one category. -/
def oneProduct : World products productHost where
  db
    | .product => [⟨1, 1, 5, none, "lamp", none, 100, none, some 7, 0, 0, none⟩]
    | .productCategory => [⟨1, "light"⟩]
    | .productCategoryLink => [⟨1, 1, 1⟩]
  host := 0
  seq _ := 2

theorem oneProduct_ok : oneProduct.Ok :=
  ⟨Store.wf_of_pairwise fun t => by cases t <;> decide, fun t => by cases t <;> decide⟩

theorem oneProduct_linked : Linked oneProduct.db := by
  intro link hlink
  obtain rfl := List.mem_singleton.mp hlink
  rfl

def priceUpdate : ProductUpdateIn where
  name := none
  description := none
  basePrice := some (some 200)
  stockQty := none
  sku := none
  specs := none
  categoryNames := none
  name_le := by simp
  basePrice_nonneg := by simp
  stockQty_nonneg := by simp

def stockUpdate : ProductUpdateIn where
  name := none
  description := none
  basePrice := none
  stockQty := some (some 9)
  sku := none
  specs := none
  categoryNames := none
  name_le := by simp
  basePrice_nonneg := by simp
  stockQty_nonneg := by simp

/-- The owner changes the price and the stock at the same time, and a stranger tries. -/
def threeUpdates : Fin 3 → ProductRequest
  | 0 => .update 7 (uuidStr 1) priceUpdate
  | 1 => .update 7 (uuidStr 1) stockUpdate
  | 2 => .update 8 (uuidStr 1) priceUpdate

def updatesInterleaved : List (Label productHost 3) :=
  [.proc 0 .go, .proc 1 .go, .proc 0 (.host ()), .proc 1 (.host ()), .proc 2 .go, .proc 0 .go, .proc 0 .go,
    .proc 1 .go, .proc 2 .go, .proc 1 .go, .proc 1 .go, .proc 0 .go]

/-- Which requests have succeeded, and which were forbidden. -/
def verdict : Option (Except (Exn AppErr) Reply) → Option Bool
  | some (.ok _) => some true
  | some (.error (.app (.http 403 _))) => some false
  | _ => none

theorem verdict_true {r : Option (Except (Exn AppErr) Reply)} (h : verdict r = some true) :
    ∃ reply, r = some (.ok reply) := by
  rw [verdict.eq_def] at h
  split at h
  · exact ⟨_, rfl⟩
  · cases h
  · cases h

theorem verdict_false {r : Option (Except (Exn AppErr) Reply)} (h : verdict r = some false) :
    ∃ detail, r = some (.error (.app (.http 403 detail))) := by
  rw [verdict.eq_def] at h
  split at h
  · cases h
  · exact ⟨_, rfl⟩
  · cases h

theorem threeUpdates_run : ∃ s x,
    Sys.Run (fun _ _ _ _ _ => True) History.commits (productRequests plainLib threeUpdates oneProduct) [] s x ∧
      (∃ reply, s.outcome 0 = some (.ok reply)) ∧ (∃ reply, s.outcome 1 = some (.ok reply)) ∧
      ∃ detail, s.outcome 2 = some (.error (.app (.http 403 detail))) := by
  have hexec : ((productRequests plainLib threeUpdates oneProduct).exec (fun _ _ _ _ _ => True)
      updatesInterleaved).map (fun s => (verdict (s.outcome 0), verdict (s.outcome 1), verdict (s.outcome 2))) =
        some (some true, some true, some false) := by
    decide +kernel
  obtain ⟨s, hs, hall⟩ := Option.map_eq_some_iff.mp hexec
  obtain ⟨h₀, hrest⟩ := Prod.mk.inj hall
  obtain ⟨h₁, h₂⟩ := Prod.mk.inj hrest
  obtain ⟨x, hrun⟩ := Sys.run_of_exec History.commits [] hs
  exact ⟨s, x, hrun, verdict_true h₀, verdict_true h₁, verdict_false h₂⟩

theorem threeUpdates_reach : ∃ s, Sys.Reach (productRequests plainLib threeUpdates oneProduct) s ∧
    (∃ reply, s.outcome 0 = some (.ok reply)) ∧ ∃ reply, s.outcome 1 = some (.ok reply) := by
  obtain ⟨s, x, hrun, h₀, h₁, -⟩ := threeUpdates_run
  obtain ⟨⟨⟩, hreach⟩ := hrun.history History.none ()
  exact ⟨s, hreach, h₀, h₁⟩

theorem catalogue_linear_updates : ∃ s, Sys.Reach (productRequests plainLib threeUpdates oneProduct) s ∧
    (∃ reply, s.outcome 0 = some (.ok reply)) ∧ (∃ reply, s.outcome 1 = some (.ok reply)) ∧
    ∃ log, Linear plainLib threeUpdates oneProduct s log := by
  obtain ⟨s, hreach, h₀, h₁⟩ := threeUpdates_reach
  exact ⟨s, hreach, h₀, h₁, catalogue_linear oneProduct_ok oneProduct_linked hreach⟩

section Refusals
variable {lib : ProductLib} {reqs : Fin n → ProductRequest} {w : World products productHost}
variable {s : Sys products productHost n (Except (Exn AppErr) Reply)}

end Refusals

section Updates
variable {lib : ProductLib} {reqs : Fin n → ProductRequest} {w : World products productHost}
variable {s : Sys products productHost n (Except (Exn AppErr) Reply)}

/-- No other request is an update of `u` that names the field. -/
def AloneNames {α : Type} (lib : ProductLib) (reqs : Fin n → ProductRequest) (F : Field α) (u : UUID) (i : Fin n) :
    Prop :=
  ∀ j, j ≠ i → ∀ user value payload, reqs j = .update user value payload → lib.uuidOf value = some u →
    F.named payload.changes = none

theorem Linear.revision {log : List (Fin n × Operation)} (h : Linear lib reqs w s log) {j : Fin n} {u : UUID}
    {user : ℕ} {ch : Changes} {t : ℕ} (hj : (j, .revise u user ch t) ∈ log) :
    ∃ value payload, reqs j = .update user value payload ∧ lib.uuidOf value = some u ∧
      ch = ProductUpdateIn.changes payload := by
  have hdoes := h.does j _ hj
  cases hreq : reqs j with
  | create user' uuid7 payload =>
    rw [hreq] at hdoes
    exact hdoes.elim
  | update user' value payload =>
    rw [hreq] at hdoes
    obtain ⟨hu, rfl, hch, -⟩ := hdoes
    exact ⟨value, payload, rfl, hu, hch⟩

/-- The field keeps the value while others that name it stay away. -/
theorem Linear.field_kept {α : Type} {F : Field α} {u : UUID} {i : Fin n} {log front back : List (Fin n × Operation)}
    (h : Linear lib reqs w s log) (hlog : log = front ++ back) (hi : i ∉ back.map Prod.fst)
    (halone : AloneNames lib reqs F u i) {c : Catalogue} {e : Listing}
    (hback : machine.Runs c (back.map Prod.snd) (catalogue s.world.db)) (he : c u = some e) :
    ∃ e', catalogue s.world.db u = some e' ∧ F.get e' = F.get e := by
  refine ⟨_, runs_listed hback he, ?_⟩
  rw [revised_field]
  cases hlast : latest F.named (revisions u (back.map Prod.snd)) with
  | none => rfl
  | some v =>
    obtain ⟨⟨ch, t⟩, hmem, hnamed⟩ := latest_mem hlast
    obtain ⟨user, ho⟩ := mem_revisions hmem
    obtain ⟨⟨j, o⟩, hj, rfl⟩ := List.mem_map.mp ho
    obtain ⟨value, payload, hreq, hu, rfl⟩ := h.revision (hlog ▸ List.mem_append_right front hj)
    have hji : j ≠ i := fun hji => hi (List.mem_map.mpr ⟨_, hj, hji⟩)
    rw [halone j hji user value payload hreq hu] at hnamed
    cases hnamed

/-- When an update succeeds, a field that it alone names has the value that it names. -/
theorem update_not_lost (hw : w.Ok) (hlinked : Linked w.db) (h : Sys.Reach (productRequests lib reqs w) s)
    {i : Fin n} {user : ℕ} {value : String} {payload : ProductUpdateIn} {u : UUID} {reply : Reply}
    (hreq : reqs i = .update user value payload) (hu : lib.uuidOf value = some u)
    (hi : s.outcome i = some (.ok reply)) {α : Type} (F : Field α) {v : α} (hv : F.named payload.changes = some v)
    (halone : AloneNames lib reqs F u i) : ∃ e, catalogue s.world.db u = some e ∧ F.get e = v := by
  obtain ⟨x, hrun⟩ := h.history History.commits []
  obtain ⟨log, hlog⟩ := linear_of_run hw hlinked hrun
  obtain ⟨o, hdoes, -, hwhere⟩ := hlog.done i reply hi
  rw [hreq] at hdoes
  cases o with
  | publish u' e => exact hdoes.elim
  | revise u' user' ch t =>
    obtain ⟨hu', rfl, rfl, -⟩ := hdoes
    obtain rfl := Option.some.inj (hu'.symm.trans hu)
    have hafter : ∀ {c c' : Catalogue}, machine.step c (.revise u' user' payload.changes t) c' →
        ∃ e, c' u' = some e ∧ F.get e = v := by
      intro c c' hstep
      cases hstep with
      | @revise _ _ _ _ e listed owned kept unused =>
        refine ⟨_, Function.update_self u' _ c, ?_⟩
        rw [F.apply, hv]
        rfl
    have hsplit : ∃ front back c e, log = front ++ back ∧ i ∉ back.map Prod.fst ∧ c u' = some e ∧
        F.get e = v ∧ machine.Runs c (back.map Prod.snd) (catalogue s.world.db) := by
      rcases hwhere with hmem | ⟨hno, front, back, c, rfl, hfront, hstep⟩
      · obtain ⟨front, back, rfl⟩ := List.append_of_mem hmem
        have honce := hlog.once
        rw [List.map_append, List.map_cons, List.nodup_append, List.nodup_cons] at honce
        have hruns := hlog.runs
        rw [List.append_cons, List.map_append] at hruns
        obtain ⟨c, hfront, hback⟩ := hruns.split
        rw [List.map_append, List.map_singleton, Machine.runs_append_singleton] at hfront
        obtain ⟨b, -, hstep⟩ := hfront
        obtain ⟨e, he, hget⟩ := hafter hstep
        exact ⟨front ++ [(i, _)], back, c, e, List.append_cons front _ back, honce.2.1.1, he, hget, hback⟩
      · have hruns := hlog.runs
        rw [List.map_append] at hruns
        obtain ⟨c', hfront', hback⟩ := hruns.split
        have hc : c' = c := by
          funext u
          rw [listing_fold hfront', listing_fold hfront]
        subst hc
        obtain ⟨e, he, hget⟩ := hafter hstep
        exact ⟨front, back, c', e, rfl, fun hmem => hno (by simp [hmem]), he, hget, hback⟩
    obtain ⟨front, back, c, e, hfb, hno, he, hget, hback⟩ := hsplit
    obtain ⟨e', he', hsame⟩ := hlog.field_kept hfb hno halone hback he
    exact ⟨e', he', hsame.trans hget⟩

end Updates

theorem stockAlone : AloneNames plainLib threeUpdates Field.stockQty 1 1 := by
  intro j hj user value payload hreq _
  have hcases : ∀ j : Fin 3, j ≠ 1 → j = 0 ∨ j = 2 := by decide
  rcases hcases j hj with rfl | rfl <;> cases hreq <;> rfl

theorem update_not_lost_stock : ∃ s, Sys.Reach (productRequests plainLib threeUpdates oneProduct) s ∧
    (∃ reply, s.outcome 0 = some (.ok reply)) ∧
    ∃ e, catalogue s.world.db 1 = some e ∧ e.stockQty = 9 := by
  obtain ⟨s, hreach, h₀, reply, h₁⟩ := threeUpdates_reach
  have hkept := update_not_lost oneProduct_ok oneProduct_linked hreach (i := 1) rfl plainLib_uuidOf h₁
    Field.stockQty rfl stockAlone
  exact ⟨s, hreach, h₀, hkept⟩

/-! ## Where the catalogue comes from -/

section Provenance
variable {lib : ProductLib} {reqs : Fin n → ProductRequest} {w : World products productHost}
variable {s : Sys products productHost n (Except (Exn AppErr) Reply)}

/-- The value was there at first, or the owner has named it in an update. -/
def ValueFrom {α : Type} (lib : ProductLib) (reqs : Fin n → ProductRequest) (u : UUID) (e₀ e : Listing)
    (F : Field α) : Prop :=
  F.get e = F.get e₀ ∨ ∃ i user value payload, reqs i = .update user value payload ∧
    lib.uuidOf value = some u ∧ e.owner = some user ∧ F.named (ProductUpdateIn.changes payload) = some (F.get e)

/-- A product was listed at the start, or one of the requests has created it. -/
def ListingFrom (w : World products productHost) (reqs : Fin n → ProductRequest) (u : UUID)
    (e₀ : Listing) : Prop :=
  catalogue w.db u = some e₀ ∨
    catalogue w.db u = none ∧ ∃ i user payload, reqs i = .create user u payload ∧ Asked payload user e₀

theorem Linear.values {log front back : List (Fin n × Operation)} (h : Linear lib reqs w s log)
    (hlog : log = front ++ back) {u : UUID} {e₀ e : Listing} (he : catalogue s.world.db u = some e)
    (hrevised : e = revised e₀ (revisions u (back.map Prod.snd))) {α : Type} (F : Field α) :
    ValueFrom lib reqs u e₀ e F := by
  rw [ValueFrom, hrevised, revised_field]
  cases hlast : latest F.named (revisions u (back.map Prod.snd)) with
  | none => exact .inl rfl
  | some v =>
    obtain ⟨⟨ch, t⟩, hmem, hnamed⟩ := latest_mem hlast
    obtain ⟨user, ho⟩ := mem_revisions hmem
    obtain ⟨⟨j, o⟩, hj, rfl⟩ := List.mem_map.mp ho
    have hj' : (j, Operation.revise u user ch t) ∈ log := hlog ▸ List.mem_append_right front hj
    obtain ⟨value, payload, hreq, hu, rfl⟩ := h.revision hj'
    obtain ⟨e', he', howner⟩ := runs_owner h.runs (List.mem_map.mpr ⟨_, hj', rfl⟩)
    obtain rfl := Option.some.inj (he'.symm.trans he)
    exact .inr ⟨j, user, value, payload, hreq, hu, hrevised ▸ howner, hnamed⟩

/-- Whatever the catalogue lists was listed at the start or created by a request, and what has
changed in it since was changed by its owner. -/
theorem catalogue_provenance (hw : w.Ok) (hlinked : Linked w.db) (h : Sys.Reach (productRequests lib reqs w) s) :
    (∀ u e, catalogue w.db u = some e → (catalogue s.world.db u).isSome) ∧
      ∀ u e, catalogue s.world.db u = some e → ∃ e₀, ListingFrom w reqs u e₀ ∧ SameListing e₀ e ∧
        ∀ {α : Type} (F : Field α), ValueFrom lib reqs u e₀ e F := by
  obtain ⟨x, hrun⟩ := h.history History.commits []
  obtain ⟨log, hlog⟩ := linear_of_run hw hlinked hrun
  refine ⟨fun u e he => ?_, fun u e he => ?_⟩
  · rw [runs_listed hlog.runs he]
    rfl
  rcases runs_origin hlog.runs he with ⟨e₀, he₀, hrevised⟩ | ⟨hnone, front, e₀, back, hsplit, hrevised⟩
  · exact ⟨e₀, .inl he₀, hrevised ▸ revised_same _ _, hlog.values (List.nil_append log).symm he hrevised⟩
  · obtain ⟨front', rest, rfl, hfront, hrest⟩ := List.map_eq_append_iff.mp hsplit
    obtain ⟨⟨i, o⟩, back', rfl, ho, hback⟩ := List.map_eq_cons_iff.mp hrest
    obtain rfl : o = .publish u e₀ := ho
    have hdoes := hlog.does i _ (List.mem_append_right front' List.mem_cons_self)
    refine ⟨e₀, .inr ⟨hnone, i, ?_⟩, hrevised ▸ revised_same _ _, ?_⟩
    · cases hreq : reqs i with
      | create user uuid7 payload =>
        rw [hreq] at hdoes
        obtain ⟨rfl, hasked, -⟩ := hdoes
        exact ⟨user, payload, rfl, hasked⟩
      | update user value payload =>
        rw [hreq] at hdoes
        exact hdoes.elim
    · rw [← hback] at hrevised
      exact hlog.values (List.append_cons front' _ back') he hrevised

end Provenance

theorem catalogue_provenance_updates : ∃ s, Sys.Reach (productRequests plainLib threeUpdates oneProduct) s ∧
    (∃ reply, s.outcome 0 = some (.ok reply)) ∧ ∃ e e₀, catalogue s.world.db 1 = some e ∧
      ListingFrom oneProduct threeUpdates 1 e₀ ∧ SameListing e₀ e ∧
      ValueFrom plainLib threeUpdates 1 e₀ e Field.basePrice := by
  obtain ⟨s, hreach, h₀, -⟩ := threeUpdates_reach
  obtain ⟨hkept, hfrom⟩ := catalogue_provenance oneProduct_ok oneProduct_linked hreach
  obtain ⟨e, he⟩ := Option.isSome_iff_exists.mp (hkept 1 _ rfl)
  obtain ⟨e₀, hlisting, hsame, hvalues⟩ := hfrom 1 e he
  exact ⟨s, hreach, h₀, e, e₀, he, hlisting, hsame, hvalues Field.basePrice⟩

end Phyllonix.Products
