import Phyllonix.RelationalSolo
import Phyllonix.RelationalChange
import Phyllonix.OrderRepository

/-!
# Plays of the statements of the shop

What the statement and host helpers end in when a handler runs alone.
-/

namespace Phyllonix
open Relational

/-- Clock, identifiers and pauses answer. -/
structure Ordinary (C : HostAct → HostChoice → Prop) : Prop where
  now : C .now .proceed
  uuid7 : C .uuid7 .proceed
  sleep : ∀ q, C (.sleep q) .proceed

variable {C : HostAct → HostChoice → Prop} {w : World shop shopHost} {l : Txn shop}

theorem ends_now (hC : Ordinary C) {Q : Outcomes shop shopHost ℕ} (h : Q (.ok w.host.clock) w l) :
    Ends C Q now w l := by
  refine Ends.host ⟨.proceed, hC.now, rfl⟩ fun _ _ c r s _ hst => ?_
  cases c <;> simp only [HostAct.step, Option.some.injEq, Prod.mk.injEq, reduceCtorEq] at hst
  obtain ⟨rfl, rfl⟩ := hst
  exact h

theorem ends_ofApp {α : Type} {r : Except AppErr α} {a : α} {Q : Outcomes shop shopHost α}
    (hr : r = .ok a) (h : Q (.ok a) w l) : Ends C Q (ofApp r) w l := by
  subst hr
  exact Ends.pure h

/-- Rows that a statement finds through a unique index are at most one. -/
theorem oneOrNone_unique {α : Type} {rows : List α} (hnd : rows.Nodup)
    (h : ∀ a ∈ rows, ∀ b ∈ rows, a = b) : oneOrNone rows = pure rows.head? := by
  match rows with
  | [] => rfl
  | [a] => rfl
  | a :: b :: rest =>
    have hab := h a (by simp) b (by simp)
    simp [hab] at hnd

section ById
variable {t : Table} {k : ℕ}

theorem view_filter_id (hl : l.Ok w.db w.seq) :
    (l.view w.db t).filter (fun r => rowId r = k) = ((l.view w.db).get t k).toList :=
  Store.filter_id (S := shop) hl.wf.ids t k

theorem free_nil (d : Db) (t : Table) (ks : List IndexKey) (h : ks = []) : d.Free t ks := by
  subst h
  intro r _ k hk
  cases hk

/-- An update by primary key that gains no index entry takes place. -/
theorem ends_updateOne {g : t.Row → t.Row} {hg : ∀ r, rowId (g r) = rowId r}
    {Q : Outcomes shop shopHost (List t.Row)} (ha : l.aborted = false)
    (hkeys : ∀ r, rowKeys (g r) ⊆ rowKeys r)
    (hnone : w.Ok → l.Ok w.db w.seq → (l.view w.db).get t k = none → Q (.ok []) w l)
    (hsome : w.Ok → l.Ok w.db w.seq → ∀ r, (l.view w.db).get t k = some r →
      Q (.ok [g r]) w (l.write t (rowKeys r) (g r))) :
    Ends C Q (update t (fun r => rowId r = k) g hg) w l := by
  cases hr : (l.view w.db).get t k with
  | none =>
    refine Ends.update_none ha fun hw hl => ⟨?_, hnone hw hl hr⟩
    rw [view_filter_id hl, hr]
    rfl
  | some r =>
    refine Ends.update_one ha fun hw hl => ⟨?_, ?_, hsome hw hl r hr⟩
    · rw [view_filter_id hl, hr]
      rfl
    · refine free_nil _ _ _ (List.filter_eq_nil_iff.mpr fun k hk => ?_)
      have hmem : k ∈ rowKeys r := hkeys r hk
      simpa using hmem

end ById
end Phyllonix
