import Phyllonix.RelationalLog
import Phyllonix.AbstractMachines

/-!
# Stores that refine an abstract machine

Every commit that a ledger allows is an operation of the machine on what the store stands
for. So a log of commits is a run of the machine, commit by commit.
-/

namespace Relational
open Abstract
variable {S : Schema} {n : ℕ} {A O : Type*}

/-- Each commit of a program is one of the operations that the program may do. -/
def Ledger.Refines (L : Ledger S n) (M : Machine A O) (abs : Store S → A) (does : Fin n → O → Prop) : Prop :=
  ∀ es e, L.allows es e → ∃ o, does e.proc o ∧ M.step (abs e.before) o (abs e.after)

namespace Ledger
variable {L : Ledger S n} {M : Machine A O} {abs : Store S → A} {does : Fin n → O → Prop}
variable {op : Commit S n → O} {d₀ d : Store S} {x es : List (Commit S n)}

/-- The operation of each commit. -/
structure Reads (L : Ledger S n) (M : Machine A O) (abs : Store S → A) (does : Fin n → O → Prop)
    (op : Commit S n → O) : Prop where
  step : ∀ es e, L.allows es e → does e.proc (op e) ∧ M.step (abs e.before) (op e) (abs e.after)

theorem Refines.exists_reads [Nonempty O] (h : L.Refines M abs does) : ∃ op, L.Reads M abs does op := by
  classical
  have hop : ∀ e : Commit S n, ∃ o, (∃ es, L.allows es e) → does e.proc o ∧ M.step (abs e.before) o (abs e.after) := by
    intro e
    by_cases he : ∃ es, L.allows es e
    · obtain ⟨es, hes⟩ := he
      obtain ⟨o, ho⟩ := h es e hes
      exact ⟨o, fun _ => ho⟩
    · exact ⟨Classical.arbitrary O, fun hes => absurd hes he⟩
  choose op hop using hop
  exact ⟨op, ⟨fun es e he => hop e ⟨es, he⟩⟩⟩

/-- The operations of a log, the oldest first, each with the program that did it. -/
def history (op : Commit S n → O) (x : List (Commit S n)) : List (Fin n × O) :=
  (x.map fun e => (e.proc, op e)).reverse

theorem history_cons (op : Commit S n → O) (e : Commit S n) (x : List (Commit S n)) :
    history op (e :: x) = history op x ++ [(e.proc, op e)] := by
  rw [history, List.map_cons, List.reverse_cons, history]

theorem mem_history {p : Fin n × O} : p ∈ history op x ↔ ∃ e ∈ x, (e.proc, op e) = p := by
  rw [history, List.mem_reverse, List.mem_map]

theorem mem_history_procs {i : Fin n} : i ∈ (history op x).map Prod.fst ↔ commitsOf i x ≠ [] := by
  rw [Ne, commitsOf, List.filter_eq_nil_iff]
  constructor
  · intro hi hnone
    obtain ⟨p, hp, rfl⟩ := List.mem_map.mp hi
    obtain ⟨e, he, rfl⟩ := mem_history.mp hp
    exact hnone e he (by simp)
  · intro hsome
    push Not at hsome
    obtain ⟨e, he, hproc⟩ := hsome
    exact List.mem_map.mpr ⟨(e.proc, op e), mem_history.mpr ⟨e, he, rfl⟩, by simpa using hproc⟩

/-- A log is a run of the machine. -/
theorem Reads.runs (hop : L.Reads M abs does op) (h : L.Logged d₀ x d) :
    M.Runs (abs d₀) ((history op x).map Prod.snd) (abs d) := by
  induction x generalizing d with
  | nil =>
    obtain rfl : d = d₀ := h
    exact .start
  | cons e es ih =>
    obtain ⟨rfl, hallows, hbefore⟩ := h
    rw [history_cons, List.map_append]
    exact .next (ih hbefore) (hop.step es e hallows).2

theorem Reads.of_mem (hop : L.Reads M abs does op) (h : L.Logged d₀ x d) {i : Fin n} {o : O}
    (hmem : (i, o) ∈ history op x) : does i o := by
  obtain ⟨e, he, heq⟩ := mem_history.mp hmem
  obtain ⟨es, -, hallows, -⟩ := h.mem he
  have hdoes := (hop.step es e hallows).1
  cases heq
  exact hdoes

/-- When no program commits twice, no program is twice in the history. -/
theorem history_procs_nodup (h : L.Logged d₀ x d)
    (honce : ∀ es e, L.allows es e → commitsOf e.proc es = []) : ((history op x).map Prod.fst).Nodup := by
  induction x generalizing d with
  | nil => simp [history]
  | cons e es ih =>
    obtain ⟨rfl, hallows, hbefore⟩ := h
    rw [history_cons, List.map_append]
    refine List.nodup_append.mpr ⟨ih hbefore, by simp, ?_⟩
    intro i hi j hj hij
    obtain rfl : j = e.proc := by simpa using hj
    subst hij
    exact mem_history_procs.mp hi (honce es e hallows)

end Ledger
end Relational
