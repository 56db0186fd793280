import Phyllonix.AsyncPrograms

/-!
# Coroutines that loop

A coroutine runs its body again and again, until the body returns `false` or raises. The
log keeps each awaited operation with its answer.
-/

namespace Async

/-- An awaited operation and what it gave. -/
structure Answer (M : Machine) where
  op : M.Op
  result : Except M.Err (M.Res op)

/-- The coroutines `ι`, each at its place in its body; the log has the latest answer first. -/
structure Loops (M : Machine) (ι : Type) where
  state : M.State
  procs : ι → Prog M Bool
  log : List (ι × Answer M) := []

/-- A body that is over with `true` starts again. -/
def Prog.again {M : Machine} (body : Prog M Bool) : Prog M Bool → Prog M Bool
  | ret true => body
  | p => p

inductive LoopLabel (M : Machine) (ι : Type)
  | proc (i : ι) (c : M.Choice)
  | env (e : M.Env)

namespace Loops
variable {M : Machine} {ι : Type} [DecidableEq ι]

def start (body : ι → Prog M Bool) (st : M.State) : Loops M ι := { state := st, procs := body }

def step (body : ι → Prog M Bool) (s : Loops M ι) : LoopLabel M ι → Option (Loops M ι)
  | .proc i c =>
    match s.procs i with
    | .await o k => (M.step o c s.state).map fun x =>
      { state := x.2
        procs := Function.update s.procs i ((body i).again (k x.1))
        log := (i, ⟨o, x.1⟩) :: s.log }
    | _ => none
  | .env e => some { s with state := M.env e s.state }

/-- The states reached from `s₀`; the environment acts in the states that are `quiet` to it. -/
inductive Reach (body : ι → Prog M Bool) (quiet : M.Env → M.State → Prop) (s₀ : Loops M ι) : Loops M ι → Prop
  | start : Reach body quiet s₀ s₀
  | proc {s s' : Loops M ι} (i : ι) (c : M.Choice) : Reach body quiet s₀ s →
      s.step body (.proc i c) = some s' → Reach body quiet s₀ s'
  | env {s : Loops M ι} (e : M.Env) : Reach body quiet s₀ s → quiet e s.state →
      Reach body quiet s₀ { s with state := M.env e s.state }

/-- From `s`, the coroutines take `k` steps to `s'`, and the environment none. -/
inductive Runs (body : ι → Prog M Bool) (s : Loops M ι) : ℕ → Loops M ι → Prop
  | nil : Runs body s 0 s
  | step {k : ℕ} {s₁ s' : Loops M ι} (i : ι) (c : M.Choice) : Runs body s k s₁ →
      s₁.step body (.proc i c) = some s' → Runs body s (k + 1) s'

/-- No coroutine can go on. -/
def Still (body : ι → Prog M Bool) (s : Loops M ι) : Prop := ∀ i c, s.step body (.proc i c) = none

variable {body : ι → Prog M Bool} {s s' : Loops M ι} {i : ι} {c : M.Choice}

theorem step_proc (h : s.step body (.proc i c) = some s') :
    ∃ o k r st, s.procs i = .await o k ∧ M.step o c s.state = some (r, st) ∧
      s' = { state := st, procs := Function.update s.procs i ((body i).again (k r)), log := (i, ⟨o, r⟩) :: s.log } := by
  rw [step] at h
  split at h
  next o k hprog =>
    obtain ⟨⟨r, st⟩, hstep, rfl⟩ := Option.map_eq_some_iff.1 h
    exact ⟨o, k, r, st, hprog, hstep, rfl⟩
  next => cases h

/-- A coroutine that waits for an answer does not get one. -/
theorem Still.blocked (h : s.Still body) {o : M.Op} {k : Except M.Err (M.Res o) → Prog M Bool}
    (hprog : s.procs i = .await o k) (c : M.Choice) : M.step o c s.state = none := by
  have hnone := h i c
  simp only [step, hprog, Option.map_eq_none_iff] at hnone
  exact hnone

/-- Takes the listed steps; the environment acts where it may. -/
def exec (body : ι → Prog M Bool) (quiet : M.Env → M.State → Prop) [∀ e st, Decidable (quiet e st)]
    (s : Loops M ι) : List (LoopLabel M ι) → Option (Loops M ι)
  | [] => some s
  | .proc i c :: ls => (s.step body (.proc i c)).bind fun s' => s'.exec body quiet ls
  | .env e :: ls =>
    if quiet e s.state then Loops.exec body quiet { s with state := M.env e s.state } ls else none

theorem Reach.exec {quiet : M.Env → M.State → Prop} [∀ e st, Decidable (quiet e st)] {s₀ : Loops M ι}
    {ls : List (LoopLabel M ι)} (h : Reach body quiet s₀ s) (hls : s.exec body quiet ls = some s') :
    Reach body quiet s₀ s' := by
  induction ls generalizing s with
  | nil =>
    cases hls
    exact h
  | cons l ls ih =>
    cases l with
    | proc i c =>
      obtain ⟨s₁, hstep, hls⟩ := Option.bind_eq_some_iff.1 hls
      exact ih (h.proc i c hstep) hls
    | env e =>
      rw [Loops.exec] at hls
      split at hls
      next hquiet => exact ih (h.env e hquiet) hls
      next => cases hls

end Loops
end Async
