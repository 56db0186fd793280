import Phyllonix.OrderFootprints

/-!
# Workers and the order book

A worker moves the commit intent of its message from stage to stage, and takes the goods of no
other order.
-/

namespace Phyllonix.Fulfilment
open Relational
variable {n : ℕ}

/-- Commit intents go on from stage to stage, and products stay. -/
def stages : RowOrder shop where
  rel
    | .commitIntent, r, r' => Advances r r'
    | .product, r, r' => r'.isSome = r.isSome
    | _, _, _ => True
  refl t r := by cases t <;> first | exact .inl rfl | trivial
  trans {t} _ _ _ h h' := by cases t <;> first | exact Advances.trans h h' | exact h'.trans h | trivial

def ofIntent (k : ℕ) (v : Write shop) : Prop :=
  v.tbl = .product ∨ ∃ c : CommitIntent, v = ⟨.commitIntent, c⟩ ∧ c.id = k

/-- The statements of the worker of intent `k`. -/
abbrev Tends (k : ℕ) (a : ShopAction) : Prop := a.Keeps stages ∧ a.Confined (ofIntent k)

section Actions
variable {k : ℕ}

theorem read_tends {α : Type} (f : Db → α) : (Prog.call (.read f : ShopAction)).Acts (Tends k) :=
  .call ⟨trivial, trivial⟩

theorem moveIntent_tends {f : CommitIntent → CommitIntent} (hf : ∀ c, (f c).id = c.id)
    (hgo : ∀ c, GoesOn c (f c)) :
    (update .commitIntent (fun c : CommitIntent => c.id = k) f hf).Acts (Tends k) := by
  refine .call ⟨fun c => .inr ⟨c, f c, rfl, rfl, hgo c⟩, fun c hc => .inr ⟨f c, rfl, ?_⟩⟩
  exact (hf c).trans (of_decide_eq_true hc)

theorem claimCommitIntent_tends : (claimCommitIntent k).Acts (Tends k) := by
  apply Prog.Acts.bind (.call ⟨trivial, trivial⟩)
  intro rows
  apply (oneOrNone_acts rows).bind
  intro o
  cases o with
  | none => trivial
  | some ci =>
    dsimp only
    split
    · trivial
    · refine Prog.Acts.bind (moveIntent_tends _ ?_) fun _ => .pure _
      exact fun _ => ⟨rfl, rfl, rfl, rfl, .taking, rfl⟩

theorem decrementStock_tends (items : List CommitItem) : (decrementStock items).Acts (Tends k) := by
  induction items with
  | nil => trivial
  | cons it items ih =>
    apply Prog.Acts.bind (.call ⟨trivial, trivial⟩)
    intro rows
    apply (oneOrNone_acts rows).bind
    intro o
    cases o with
    | none => trivial
    | some prod =>
      dsimp only
      split
      · exact ih.bind fun _ => .pure _
      · exact Prog.Acts.bind (.call ⟨fun _ => rfl, fun _ _ => .inl rfl⟩) fun _ => ih

theorem commitStock_tends : (commitStock k).Acts (Tends k) := by
  apply Prog.Acts.bind (.call ⟨trivial, trivial⟩)
  intro rows
  apply (oneOrNone_acts rows).bind
  intro o
  cases o with
  | none => trivial
  | some row =>
    apply (decrementStock_tends _).bind
    intro errors
    split
    · trivial
    · refine Prog.Acts.bind (moveIntent_tends _ ?_) fun _ => .pure _
      exact fun _ => ⟨rfl, rfl, rfl, rfl, .taken, rfl⟩

theorem scheduleRetry_tends (maxAttempts : ℕ) : (scheduleRetry maxAttempts k).Acts (Tends k) := by
  apply (read_tends _).bind
  intro rows
  apply (oneOrNone_acts rows).bind
  intro row
  dsimp only
  split
  · refine Prog.Acts.bind (moveIntent_tends _ ?_) fun _ => .call ⟨trivial, trivial⟩
    exact fun _ => ⟨rfl, rfl, rfl, rfl, .givenUp, rfl⟩
  · apply Prog.Acts.bind (.call ⟨trivial, trivial⟩)
    intro t
    refine Prog.Acts.bind (moveIntent_tends _ ?_) fun _ => .call ⟨trivial, trivial⟩
    exact fun _ => ⟨rfl, rfl, rfl, rfl, .waiting, rfl⟩

theorem orderConfirmCommitintentHandler_tends (maxAttempts : ℕ) :
    (orderConfirmCommitintentHandler maxAttempts (some (k + 1))).Acts (Tends (k + 1)) := by
  have hbody : (do
      if ← Prog.transaction (claimCommitIntent (k + 1)) then
        Prog.transaction (commitStock (k + 1)) : Py Unit).Acts (Tends (k + 1)) := by
    apply (claimCommitIntent_tends.transaction ⟨trivial, trivial⟩ ⟨trivial, trivial⟩).bind
    intro b
    cases b with
    | false => trivial
    | true => exact commitStock_tends.transaction ⟨trivial, trivial⟩ ⟨trivial, trivial⟩
  apply hbody.attempt.bind
  intro r
  cases r with
  | ok _ => trivial
  | error e => exact scheduleRetry_tends maxAttempts

end Actions

/-! ## What a worker commits -/

section Commits
variable {k : ℕ} {d : Db} {l : Txn shop}

/-- The open transaction of a worker. -/
structure Tending (k : ℕ) (d : Db) (l : Txn shop) : Prop where
  evolves : Evolves stages d (l.view d)
  writes : ∀ v ∈ l.writes, ofIntent k v

theorem Tending.untouched (h : Tending k d l) {t : Table} (hproduct : t ≠ .product) (hintent : t ≠ .commitIntent) :
    l.view d t = d t := by
  apply applyWrites_of_untouched
  intro v hv
  rcases h.writes v hv with htbl | ⟨c, rfl, -⟩
  · rw [htbl]
    exact Ne.symm hproduct
  · exact Ne.symm hintent

theorem Tending.worked (h : Tending k d l) : Worked k d (l.view d) := by
  refine ⟨fun t ht hne => h.untouched ?_ hne, fun c hc => ?_, h.evolves .commitIntent k⟩
  · rintro rfl
    rcases ht with he | he | he | he | he <;> cases he
  · apply get_applyWrites_of_not_written
    rintro ⟨v, hv, htbl, hid⟩
    rcases h.writes v hv with hproduct | ⟨c', rfl, hk⟩
    · rw [hproduct] at htbl
      cases htbl
    · exact hc (hid.symm.trans hk)

theorem Worked.intents {d' : Db} (h : Worked k d d') {c : ℕ} {u : CommitIntent}
    (hu : d.get .commitIntent c = some u) :
    ∃ u', d'.get .commitIntent c = some u' ∧ u'.aggregateId = u.aggregateId := by
  by_cases hc : c = k
  · subst hc
    rcases h.own with hsame | ⟨u₀, u', hu₀, hu', hgo⟩
    · exact ⟨u, hsame.trans hu, rfl⟩
    · obtain rfl : u = u₀ := Option.some.inj (hu.symm.trans hu₀)
      exact ⟨u', hu', hgo.aggregateId⟩
  · exact ⟨u, (h.others c hc).trans hu, rfl⟩

theorem Tending.later (h : Tending k d l) : Later d (l.view d) := by
  have hget : ∀ t, t ≠ Table.product → t ≠ .commitIntent → ∀ c, (l.view d).get t c = d.get t c := by
    intro t hproduct hintent c
    rw [Store.get, h.untouched hproduct hintent, Store.get]
  constructor
  · exact fun o r hr => ⟨r, (hget _ (by decide) (by decide) o).trans hr, rfl⟩
  · intro o _
    rw [orderPairs, h.untouched (t := .orderItem) (by decide) (by decide), orderPairs]
  · exact fun c p hp => ⟨p, (hget _ (by decide) (by decide) c).trans hp, rfl, rfl, fun _ hpo => hpo⟩
  · exact fun c u hu => h.worked.intents hu
  · exact fun p => h.evolves .product p

end Commits

section Worker
variable {lib : Lib} {reqs : Fin n → ShopRequest} {G : Guard shop shopHost n} {i : Fin n}
variable {sh : Shared shop shopHost} {x : ℕ → Option (Fin n)}

theorem worker_orderly {maxAttempts k : ℕ} (hreq : reqs i = .commitIntent maxAttempts (some k)) {p : Py Unit}
    (hp : p.Acts (Tends k)) : Safe (orderly lib reqs) G i (fun _ _ _ _ => True) p sh x {} := by
  apply Safe.mono (Q := fun _ sh' _ l' => Tending k sh'.db l') fun _ _ _ _ _ => trivial
  refine Safe.throughout (Φ := fun d _ l => Tending k d l) orderly_watches ?_ ?_ ?_ (fun h => ⟨h.evolves, h.writes⟩)
    hp ⟨.refl _ _, fun v hv => by cases hv⟩
  · exact fun h hs => ⟨h.evolves.still hs.ok hs.still, h.writes⟩
  · intro a c busy w w' y l l' r ha hun hw hl h hrun
    have hdb := Action.run_db hun hw hl hrun
    have hview := (Action.run_evolves ha.1 hw hl h.evolves hrun).2
    rw [hdb] at hview
    exact ⟨hview, Action.run_confined ha.2 h.writes hrun⟩
  · intro sh x l w y c hs h _
    have hinv : Orderly w.db y := hs.inv
    have hturned : Turned lib (reqs i) w.db (l.view w.db) := by
      intro f hf
      rcases hf.worked hs.world.wf hs.ok.wf h.worked with hsame | ⟨c, b, s, s', hc, hb, hpaid, hf'⟩
      · exact .inl hsame
      · obtain ⟨c', hc', hagg⟩ := h.worked.intents hc
        refine .inr ⟨_, .work c.aggregateId s', hf', .work hb hpaid, ?_⟩
        rw [hreq]
        exact .work ⟨c', hc', hagg⟩
    have hpending : LeavesPending (fun o => y o ≠ some i) w.db (l.view w.db) := by
      intro j p hp _ _
      rw [Store.get, h.untouched (t := .payment) (by decide) (by decide)]
      exact hp
    exact ⟨hinv.next h.later hturned, ⟨h.later, hpending, hturned⟩, .refl _ _, fun v hv => by cases hv⟩

theorem orderConfirmCommitintentHandler_orderly {maxAttempts : ℕ} {ciId : Option ℕ}
    (hreq : reqs i = .commitIntent maxAttempts ciId) :
    Safe (orderly lib reqs) G i (fun _ _ _ _ => True) (orderConfirmCommitintentHandler maxAttempts ciId) sh x {} := by
  cases ciId with
  | none => trivial
  | some k =>
    cases k with
    | zero => trivial
    | succ k => exact worker_orderly hreq (orderConfirmCommitintentHandler_tends maxAttempts)

/-- A program that writes no table of orders. -/
theorem beside_any {α : Type} {p : Py α} {l : Txn shop} (hp : p.Acts Beside) (hl : ∀ v ∈ l.writes, ¬Watched v.tbl) :
    Safe (orderly lib reqs) G i (fun _ _ _ _ => True) p sh x l := by
  have hlasting : (orderly lib reqs).Lasting Watched i fun _ _ => True := orderly_lasting fun _ h => h
  exact (Safe.aside orderly_watches hlasting hp (fun _ ht hn => hn ht) (fun _ ht hn => hn ht) trivial hl).mono
    fun _ _ _ _ _ => trivial

theorem beside_orderly {α : Type} {p : Py α} (hp : p.Acts Beside) :
    Safe (orderly lib reqs) G i (fun _ _ _ _ => True) p sh x {} := beside_any hp fun v hv => by cases hv

end Worker
end Phyllonix.Fulfilment
