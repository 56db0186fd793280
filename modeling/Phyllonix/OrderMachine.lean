import Phyllonix.AbstractMachines
import Mathlib.Algebra.BigOperators.Ring.Finset

/-!
# Orders and stock as an abstract machine

An order is placed, accepted by the payment provider and settled. Once it is paid its goods wait
to be taken from the stock; they are taken once, and until then the work on them may be given up
and begun again. What is missing from the stock is what the taken orders wanted.
-/

namespace Phyllonix.Fulfilment
open Abstract

/-- How far the goods of a paid order are. -/
inductive Stage where
  | waiting | taking | givenUp | taken
  deriving DecidableEq

inductive Progress where
  | pending | accepted | authorized | failed | paid (s : Stage)
  deriving DecidableEq

def Progress.level : Progress → ℕ
  | .pending => 0
  | .accepted => 1
  | .authorized => 2
  | .failed => 3
  | .paid _ => 4

structure Order where
  wants : ℕ → ℤ
  progress : Progress

abbrev OrderBook := ℕ → Option Order

structure Shop where
  stock : ℕ → Option ℤ
  orders : OrderBook

inductive Operation where
  | place (o : ℕ) (wants : ℕ → ℤ)
  | accept (o : ℕ)
  | settle (o : ℕ) (p : Progress)
  | work (o : ℕ) (s : Stage)

/-- What settles an order: a payment that is authorized, has failed or is captured. -/
def Progress.Settles (p : Progress) : Prop := p = .authorized ∨ p = .failed ∨ p = .paid .waiting

/-- What an operation does to the orders. -/
inductive Turn : OrderBook → Operation → OrderBook → Prop
  | place {f : OrderBook} {o : ℕ} {wants : ℕ → ℤ} (fresh : f o = none) :
      Turn f (.place o wants) (Function.update f o (some ⟨wants, .pending⟩))
  | accept {f : OrderBook} {o : ℕ} {b : Order} (found : f o = some b) (pending : b.progress = .pending) :
      Turn f (.accept o) (Function.update f o (some ⟨b.wants, .accepted⟩))
  | settle {f : OrderBook} {o : ℕ} {b : Order} {p : Progress} (found : f o = some b)
      (accepted : b.progress ≠ .pending) (rises : b.progress.level < p.level) (settles : p.Settles) :
      Turn f (.settle o p) (Function.update f o (some ⟨b.wants, p⟩))
  | work {f : OrderBook} {o : ℕ} {b : Order} {s s' : Stage} (found : f o = some b) (paid : b.progress = .paid s) :
      Turn f (.work o s') (Function.update f o (some ⟨b.wants, .paid s'⟩))

/-- The order whose goods an operation takes. -/
def Operation.takes : Operation → Option ℕ
  | .work o .taken => some o
  | _ => none

def wanted (f : OrderBook) (o p : ℕ) : ℤ := (f o).elim 0 fun b => b.wants p

/-- Goods leave the stock when they are taken, and an order whose goods are taken is closed. -/
structure Step (a : Shop) (op : Operation) (a' : Shop) : Prop where
  turn : Turn a.orders op a'.orders
  closed : ∀ o s, op = .work o s → ∀ b, a.orders o = some b → b.progress ≠ .paid .taken
  stock : ∀ p, a'.stock p = (a.stock p).map fun q => q - op.takes.elim 0 fun o => wanted a.orders o p

def machine : Machine Shop Operation := ⟨Step⟩

/-! ## One operation -/

def Operation.about : Operation → ℕ
  | .place o _ => o
  | .accept o => o
  | .settle o _ => o
  | .work o _ => o

theorem takes_eq_some {op : Operation} {o : ℕ} : op.takes = some o ↔ op = .work o .taken := by
  constructor
  · intro h
    cases op with
    | work k s =>
      cases s with
      | taken =>
        cases h
        rfl
      | _ => cases h
    | _ => cases h
  · intro h
    subst h
    rfl

/-- An order goes on with what it wants, as far as it was or further. -/
structure Onward (b b' : Order) : Prop where
  wants : b'.wants = b.wants
  level : b.progress.level ≤ b'.progress.level

theorem Onward.refl (b : Order) : Onward b b := ⟨rfl, le_refl _⟩

theorem Onward.trans {b b' b'' : Order} (h : Onward b b') (h' : Onward b' b'') : Onward b b'' :=
  ⟨h'.wants.trans h.wants, h.level.trans h'.level⟩

/-- The goods of the order have been taken. -/
def Taken (f : OrderBook) (o : ℕ) : Prop := ∃ b, f o = some b ∧ b.progress = .paid .taken

section Turn
variable {f f' : OrderBook} {op : Operation} {o : ℕ} {b : Order}

/-- Of another order nothing changes. -/
theorem Turn.other (h : Turn f op f') (ho : o ≠ op.about) : f' o = f o := by
  cases h <;> exact Function.update_of_ne ho _ _

/-- The order that an operation is about, before and after it. -/
theorem Turn.about (h : Turn f op f') (hb : f op.about = some b) : ∃ b', f' op.about = some b' ∧ Onward b b' ∧
    (b'.progress = .paid .taken → b.progress = .paid .taken ∨ op.takes = some op.about) := by
  cases h with
  | place fresh =>
    rw [Operation.about, fresh] at hb
    cases hb
  | accept found pending =>
    rw [Operation.about, found] at hb
    cases hb
    refine ⟨_, Function.update_self _ _ _, ⟨rfl, ?_⟩, fun he => by cases he⟩
    rw [pending]
    exact Nat.zero_le _
  | settle found accepted rises settles =>
    rw [Operation.about, found] at hb
    cases hb
    refine ⟨_, Function.update_self _ _ _, ⟨rfl, rises.le⟩, fun he => ?_⟩
    rcases settles with rfl | rfl | rfl <;> cases he
  | work found paid =>
    rw [Operation.about, found] at hb
    cases hb
    refine ⟨_, Function.update_self _ _ _, ⟨rfl, ?_⟩, fun he => ?_⟩
    · rw [paid]
      exact le_refl 4
    · cases he
      exact .inr rfl

theorem Turn.onward (h : Turn f op f') (hb : f o = some b) : ∃ b', f' o = some b' ∧ Onward b b' := by
  by_cases ho : o = op.about
  · subst ho
    obtain ⟨b', hb', hon, -⟩ := h.about hb
    exact ⟨b', hb', hon⟩
  · exact ⟨b, (h.other ho).trans hb, .refl b⟩

theorem Turn.wanted (h : Turn f op f') (hb : f o = some b) (p : ℕ) :
    Fulfilment.wanted f' o p = Fulfilment.wanted f o p := by
  obtain ⟨b', hb', hon⟩ := h.onward hb
  rw [Fulfilment.wanted, Fulfilment.wanted, hb, hb']
  exact congrFun hon.wants p

/-- An order whose goods are taken is there. -/
theorem Turn.found (h : Turn f (.work o .taken) f') : ∃ b, f o = some b ∧ Taken f' o := by
  cases h with
  | work found paid => exact ⟨_, found, _, Function.update_self _ _ _, rfl⟩

/-- Goods stay taken unless the work begins again, and are taken by the operation that says so. -/
theorem Turn.taken (h : Turn f op f')
    (hclosed : ∀ o s, op = .work o s → ∀ b, f o = some b → b.progress ≠ .paid .taken) :
    Taken f' o ↔ Taken f o ∨ op.takes = some o := by
  constructor
  · rintro ⟨b', hb', htaken⟩
    by_cases ho : o = op.about
    · subst ho
      cases hb : f op.about with
      | some b =>
        obtain ⟨b₁, hb₁, -, hwas⟩ := h.about hb
        rw [hb₁] at hb'
        cases hb'
        exact (hwas htaken).imp (fun hwas => ⟨b, hb, hwas⟩) id
      | none =>
        cases h with
        | place fresh =>
          rw [Operation.about, Function.update_self] at hb'
          cases hb'
          cases htaken
        | accept found => exact absurd (hb.symm.trans found) (Option.some_ne_none _).symm
        | settle found => exact absurd (hb.symm.trans found) (Option.some_ne_none _).symm
        | work found => exact absurd (hb.symm.trans found) (Option.some_ne_none _).symm
    · exact .inl ⟨b', (h.other ho).symm.trans hb', htaken⟩
  · rintro (⟨b, hb, htaken⟩ | htakes)
    · by_cases ho : o = op.about
      · subst ho
        cases h with
        | place fresh => exact absurd (fresh.symm.trans hb) (Option.some_ne_none _).symm
        | accept found pending =>
          rw [Operation.about, found] at hb
          cases hb
          rw [htaken] at pending
          cases pending
        | settle found accepted rises settles =>
          rw [Operation.about, found] at hb
          cases hb
          rw [htaken] at rises
          rcases settles with rfl | rfl | rfl <;> exact absurd rises (by decide)
        | @work k b₀ s s' found paid => exact absurd htaken (hclosed k s' rfl b hb)
      · exact ⟨b, (h.other ho).trans hb, htaken⟩
    · rw [takes_eq_some] at htakes
      subst htakes
      obtain ⟨b, -, htaken⟩ := h.found
      exact htaken

/-- What order `o` has taken of product `p`. -/
def takenQty (f : OrderBook) (p o : ℕ) : ℤ :=
  (f o).elim 0 fun b => if b.progress = .paid .taken then b.wants p else 0

theorem takenQty_of_taken {p : ℕ} (h : Taken f o) : takenQty f p o = Fulfilment.wanted f o p := by
  obtain ⟨b, hb, htaken⟩ := h
  rw [takenQty, Fulfilment.wanted, hb]
  exact if_pos htaken

theorem takenQty_of_not {p : ℕ} (h : ¬Taken f o) : takenQty f p o = 0 := by
  rw [takenQty]
  cases hb : f o with
  | none => rfl
  | some b => exact if_neg fun htaken => h ⟨b, hb, htaken⟩

theorem Turn.takenQty_eq (h : Turn f op f')
    (hclosed : ∀ o s, op = .work o s → ∀ b, f o = some b → b.progress ≠ .paid .taken)
    (p o : ℕ) : takenQty f' p o = takenQty f p o + if op.takes = some o then Fulfilment.wanted f o p else 0 := by
  by_cases htakes : op.takes = some o
  · have hafter : Taken f' o := (h.taken hclosed).mpr (.inr htakes)
    rw [takes_eq_some] at htakes
    subst htakes
    obtain ⟨b, hb, -⟩ := h.found
    have hbefore : ¬Taken f o := by
      rintro ⟨b', hb', htaken⟩
      exact hclosed o .taken rfl b' hb' htaken
    rw [takenQty_of_taken hafter, takenQty_of_not hbefore, h.wanted hb, Int.zero_add]
    exact (if_pos rfl).symm
  · rw [if_neg htakes, Int.add_zero]
    have hsame : Taken f' o ↔ Taken f o := (h.taken hclosed).trans (or_iff_left htakes)
    by_cases htaken : Taken f o
    · have hfound := htaken
      obtain ⟨b, hb, -⟩ := hfound
      rw [takenQty_of_taken (hsame.mpr htaken), takenQty_of_taken htaken, h.wanted hb]
    · rw [takenQty_of_not (mt hsame.mp htaken), takenQty_of_not htaken]

/-- A turn takes what it takes from one order. -/
theorem Turn.sum_takenQty (h : Turn f op f')
    (hclosed : ∀ o s, op = .work o s → ∀ b, f o = some b → b.progress ≠ .paid .taken) (p : ℕ) {B : Finset ℕ}
    (hB : ∀ o, op.takes = some o → o ∈ B) : ∑ o ∈ B, takenQty f' p o =
      ∑ o ∈ B, takenQty f p o + op.takes.elim 0 fun o => Fulfilment.wanted f o p := by
  rw [Finset.sum_congr rfl fun o _ => h.takenQty_eq hclosed p o, Finset.sum_add_distrib]
  congr 1
  cases htakes : op.takes with
  | none => simp
  | some o => simp [hB o htakes]

end Turn

section Step
variable {a a' : Shop} {op : Operation} {o : ℕ}

theorem Step.taken (h : Step a op a') : Taken a'.orders o ↔ Taken a.orders o ∨ op.takes = some o :=
  h.turn.taken h.closed

/-- Goods are taken of an order whose goods were not taken before. -/
theorem Step.takes_open (h : Step a op a') (ho : op.takes = some o) :
    (∃ b, a.orders o = some b) ∧ ¬Taken a.orders o := by
  rw [takes_eq_some] at ho
  subst ho
  obtain ⟨b, hb, -⟩ := h.turn.found
  refine ⟨⟨b, hb⟩, ?_⟩
  rintro ⟨b', hb', htaken⟩
  exact h.closed o .taken rfl b' hb' htaken

end Step

/-! ## Runs -/

section Runs
variable {a₀ a : Shop} {ops : List Operation} {o : ℕ} {b : Order}

/-- The orders whose goods the operations take. -/
def taking (ops : List Operation) : List ℕ := ops.filterMap Operation.takes

theorem taking_concat (ops : List Operation) (op : Operation) :
    taking (ops ++ [op]) = taking ops ++ op.takes.toList := by
  rw [taking, List.filterMap_append, taking]
  cases h : op.takes <;> simp [h]

/-- An order stays, with what it wants, and never falls back. -/
theorem runs_onward (h : machine.Runs a₀ ops a) (hb : a₀.orders o = some b) :
    ∃ b', a.orders o = some b' ∧ Onward b b' := by
  refine h.keeps (I := fun a => ∃ b', a.orders o = some b' ∧ Onward b b') ⟨b, hb, .refl b⟩ ?_
  rintro a op a' ⟨b₁, hb₁, hon₁⟩ - hstep
  obtain ⟨b₂, hb₂, hon₂⟩ := hstep.turn.onward hb₁
  exact ⟨b₂, hb₂, hon₁.trans hon₂⟩

theorem runs_taken (h : machine.Runs a₀ ops a) : Taken a.orders o ↔ Taken a₀.orders o ∨ o ∈ taking ops := by
  induction h with
  | start => simp [taking]
  | next _ hstep ih =>
    rw [hstep.taken, ih, taking_concat, List.mem_append, Option.mem_toList, or_assoc]

/-- The goods of an order are taken once. -/
theorem runs_taking_once (h : machine.Runs a₀ ops a) :
    (taking ops).Nodup ∧ ∀ o ∈ taking ops, ¬Taken a₀.orders o := by
  induction h with
  | start => exact ⟨List.nodup_nil, fun o ho => by cases ho⟩
  | @next os a a' op hrun hstep ih =>
    have hnew : ∀ o ∈ op.takes.toList, o ∉ taking os ∧ ¬Taken a₀.orders o := by
      intro o ho
      have hfresh := (hstep.takes_open (Option.mem_toList.mp ho)).2
      rw [runs_taken hrun, not_or] at hfresh
      exact ⟨hfresh.2, hfresh.1⟩
    rw [taking_concat]
    refine ⟨List.nodup_append.mpr ⟨ih.1, ?_, ?_⟩, ?_⟩
    · cases op.takes <;> simp
    · rintro o ho _ hmem rfl
      exact (hnew o hmem).1 ho
    · intro o ho
      rcases List.mem_append.mp ho with ho | ho
      · exact ih.2 o ho
      · exact (hnew o ho).2

/-- What is missing from the stock is what the orders want whose goods have been taken. -/
theorem runs_stock (h : machine.Runs a₀ ops a) (p : ℕ) :
    a.stock p = (a₀.stock p).map fun q => q - ((taking ops).map fun o => wanted a.orders o p).sum := by
  induction h with
  | start => simp [taking]
  | @next os a a' op hrun hstep ih =>
    have hsame : ∀ o, (∃ b, a.orders o = some b) → wanted a'.orders o p = wanted a.orders o p := by
      rintro o ⟨b, hb⟩
      exact hstep.turn.wanted hb p
    have hbefore : ((taking os).map fun o => wanted a'.orders o p) = (taking os).map fun o => wanted a.orders o p := by
      refine List.map_congr_left fun o ho => hsame o ?_
      obtain ⟨b, hb, -⟩ := (runs_taken hrun).mpr (.inr ho)
      exact ⟨b, hb⟩
    have hnow : (op.takes.toList.map fun o => wanted a'.orders o p).sum =
        op.takes.elim 0 fun o => wanted a.orders o p := by
      cases htakes : op.takes with
      | none => rfl
      | some o => simp [hsame o (hstep.takes_open htakes).1]
    rw [hstep.stock, ih, taking_concat, List.map_append, List.sum_append, hbefore, hnow]
    cases a₀.stock p with
    | none => rfl
    | some q => exact congrArg some (Int.sub_sub _ _ _)

/-- What an order that was placed meanwhile has gone through. -/
def Progress.trail (o : ℕ) (wants : ℕ → ℤ) : Progress → List Operation
  | .pending => [.place o wants]
  | .accepted | .authorized | .failed => [.place o wants, .accept o]
  | .paid .taken => [.place o wants, .accept o, .settle o (.paid .waiting), .work o .taken]
  | .paid _ => [.place o wants, .accept o, .settle o (.paid .waiting)]

theorem trail_paid {s : Stage} (hs : s ≠ .taken) (o : ℕ) (wants : ℕ → ℤ) :
    (Progress.paid s).trail o wants = [.place o wants, .accept o, .settle o (.paid .waiting)] := by
  cases s with
  | taken => exact absurd rfl hs
  | _ => rfl

theorem trail_settled {p q : Progress} (h : p ≠ .pending) (hlt : p.level < q.level) (o : ℕ) (wants : ℕ → ℤ) :
    p.trail o wants = [.place o wants, .accept o] := by
  cases p with
  | pending => exact absurd rfl h
  | paid s => cases q <;> simp [Progress.level] at hlt
  | _ => rfl

/-- No stage is skipped: goods are taken after the capture, that after the acceptance by the
payment provider, and that after the placement. -/
theorem runs_trail (h : machine.Runs a₀ ops a) (h₀ : a₀.orders o = none) (hb : a.orders o = some b) :
    (b.progress.trail o b.wants).Sublist ops := by
  induction h generalizing b with
  | start =>
    rw [h₀] at hb
    cases hb
  | @next os a a' op hrun hstep ih =>
    by_cases ho : o = op.about
    · subst ho
      have hturn := hstep.turn
      have hclosed := hstep.closed
      generalize a'.orders = f' at hturn hb
      cases hturn with
      | place fresh =>
        rw [Operation.about, Function.update_self] at hb
        cases hb
        exact List.sublist_append_right _ _
      | accept found pending =>
        rw [Operation.about, Function.update_self] at hb
        cases hb
        have hbefore := ih found
        rw [pending] at hbefore
        exact hbefore.append (List.Sublist.refl _)
      | settle found accepted rises settles =>
        rw [Operation.about, Function.update_self] at hb
        cases hb
        have hbefore := ih found
        rw [trail_settled accepted rises] at hbefore
        rcases settles with rfl | rfl | rfl
        · exact hbefore.trans (List.sublist_append_left _ _)
        · exact hbefore.trans (List.sublist_append_left _ _)
        · exact hbefore.append (List.Sublist.refl _)
      | @work k b₀ s s' found paid =>
        rw [Operation.about, Function.update_self] at hb
        cases hb
        have hbefore := ih found
        have hs : s ≠ .taken := by
          rintro rfl
          exact hclosed k s' rfl b₀ found paid
        rw [paid, trail_paid hs] at hbefore
        by_cases hs' : s' = .taken
        · subst hs'
          exact hbefore.append (List.Sublist.refl _)
        · rw [trail_paid hs']
          exact hbefore.trans (List.sublist_append_left _ _)
    · exact (ih ((hstep.turn.other ho).symm.trans hb)).trans (List.sublist_append_left _ _)

end Runs
end Phyllonix.Fulfilment
