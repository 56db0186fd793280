import Mathlib.Data.Fin.Basic
import Mathlib.Logic.Function.Basic
import Phyllonix.ProcessNumbers

/-!
# Interleaved asynchronous programs

A program is a tree of awaited operations on a machine that all programs share. Between two
awaits of one program the others run, and the machine may change by itself. A log says
which program awaited what.

A protocol has an invariant of the shared state and, for each program, a rely that says what
the others may do. When every program is safe, every reachable state meets the invariant, and
what a program knows when it ends is still true as far as its rely keeps it.
-/

namespace Async

structure Machine where
  State : Type
  Op : Type
  Res : Op → Type
  Err : Type
  Choice : Type
  /-- `none` is an operation that has to wait. -/
  step : (o : Op) → Choice → State → Option (Except Err (Res o) × State)
  Env : Type
  env : Env → State → State

inductive Prog (M : Machine) (α : Type)
  | ret (a : α)
  | raise (e : M.Err)
  | await (o : M.Op) (k : Except M.Err (M.Res o) → Prog M α)

variable {M : Machine} {α β : Type} {n : ℕ}

namespace Prog

protected def bind : Prog M α → (α → Prog M β) → Prog M β
  | ret a, f => f a
  | raise e, _ => raise e
  | await o k, f => await o fun r => (k r).bind f

instance : Monad (Prog M) where
  pure := ret
  bind := Prog.bind

def ofExcept : Except M.Err α → Prog M α
  | .ok a => ret a
  | .error e => raise e

def call (o : M.Op) : Prog M (M.Res o) := await o ofExcept

/-- Runs a program to its end and hands an exception over as a value. -/
def attempt : Prog M α → Prog M (Except M.Err α)
  | ret a => ret (.ok a)
  | raise e => ret (.error e)
  | await o k => await o fun r => (k r).attempt

/-- `try: p finally: cleanup` -/
def tryFinally (p : Prog M α) (cleanup : Prog M Unit) : Prog M α := do
  let r ← p.attempt
  cleanup
  ofExcept r

end Prog

/-- The state of the machine, and the operations awaited so far, the latest first. -/
structure Shared (M : Machine) (n : ℕ) where
  state : M.State
  log : List (Fin n × M.Op) := []

structure Sys (M : Machine) (n : ℕ) (α : Type) extends Shared M n where
  procs : Fin n → Prog M α

inductive Label (M : Machine) (n : ℕ)
  | proc (i : Fin n) (c : M.Choice)
  | env (e : M.Env)

/-- A step is allowed for its label and the state it leads to. -/
abbrev Allows (M : Machine) (n : ℕ) := Label M n → Shared M n → Prop

namespace Sys

def step (s : Sys M n α) : Label M n → Option (Sys M n α)
  | .proc i c =>
    match s.procs i with
    | .await o k => (M.step o c s.state).map fun x =>
      { state := x.2, log := (i, o) :: s.log, procs := Function.update s.procs i (k x.1) }
    | _ => none
  | .env e => some { s with state := M.env e s.state }

/-- The states that are reached by steps that are allowed. -/
inductive Reach (allows : Allows M n) (s₀ : Sys M n α) : Sys M n α → Prop
  | start : Reach allows s₀ s₀
  | step {s s' : Sys M n α} {l : Label M n} : Reach allows s₀ s → s.step l = some s' →
      allows l s'.toShared → Reach allows s₀ s'

theorem Reach.trans {allows : Allows M n} {s₀ s s' : Sys M n α} (h : Reach allows s₀ s)
    (h' : Reach allows s s') : Reach allows s₀ s' := by
  induction h' with
  | start => exact h
  | step _ hstep hallow ih => exact ih.step hstep hallow

/-- Takes the listed steps as long as they are allowed. -/
def exec (allows : Allows M n) [∀ l sh, Decidable (allows l sh)] (s : Sys M n α) :
    List (Label M n) → Option (Sys M n α)
  | [] => some s
  | l :: ls => (s.step l).bind fun s' => if allows l s'.toShared then s'.exec allows ls else none

theorem Reach.exec {allows : Allows M n} [∀ l sh, Decidable (allows l sh)] {s₀ s s' : Sys M n α}
    {ls : List (Label M n)} (h : Reach allows s₀ s) (hls : s.exec allows ls = some s') :
    Reach allows s₀ s' := by
  induction ls generalizing s with
  | nil =>
    cases hls
    exact h
  | cons l ls ih =>
    obtain ⟨s₁, hstep, hls⟩ := Option.bind_eq_some_iff.1 hls
    split at hls
    next hallow => exact ih (h.step hstep hallow) hls
    next => cases hls

/-- What a program has returned. -/
def outcome (s : Sys M n α) (i : Fin n) : Option (Except M.Err α) :=
  match s.procs i with
  | .ret a => some (.ok a)
  | .raise e => some (.error e)
  | .await _ _ => none

end Sys

/-! ## Programs end -/

/-- Whatever it is answered, the program awaits at most `m` operations. -/
def Prog.Within : Prog M α → ℕ → Prop
  | .ret _, _ => True
  | .raise _, _ => True
  | .await _ k, m => 0 < m ∧ ∀ r, (k r).Within (m - 1)

namespace Prog

theorem Within.mono {m m' : ℕ} {p : Prog M α} (h : p.Within m) (hm : m ≤ m') : p.Within m' := by
  induction p generalizing m m' with
  | ret a => exact trivial
  | raise e => exact trivial
  | await o k ih => exact ⟨lt_of_lt_of_le h.1 hm, fun r => ih r (h.2 r) (Nat.sub_le_sub_right hm 1)⟩

theorem Within.bind {m m' : ℕ} {p : Prog M α} {f : α → Prog M β} (h : p.Within m)
    (hf : ∀ a, (f a).Within m') : (p >>= f).Within (m + m') := by
  induction p generalizing m with
  | ret a => exact (hf a).mono (Nat.le_add_left m' m)
  | raise e => exact trivial
  | await o k ih =>
    have hpos := h.1
    refine ⟨by omega, fun r => ?_⟩
    rw [show m + m' - 1 = m - 1 + m' by omega]
    exact ih r (h.2 r)

theorem Within.attempt {m : ℕ} {p : Prog M α} (h : p.Within m) : p.attempt.Within m := by
  induction p generalizing m with
  | ret a => exact trivial
  | raise e => exact trivial
  | await o k ih => exact ⟨h.1, fun r => ih r (h.2 r)⟩

theorem within_ofExcept (r : Except M.Err α) (m : ℕ) : (ofExcept r : Prog M α).Within m := by
  cases r <;> exact trivial

theorem within_pure (a : α) (m : ℕ) : (pure a : Prog M α).Within m := trivial

theorem within_call (o : M.Op) : (call o).Within 1 := ⟨Nat.one_pos, fun r => within_ofExcept r 0⟩

theorem Within.tryFinally {m m' : ℕ} {p : Prog M α} {cleanup : Prog M Unit} (h : p.Within m)
    (hc : cleanup.Within m') : (p.tryFinally cleanup).Within (m + m') :=
  h.attempt.bind fun r => hc.bind fun _ => within_ofExcept r 0

end Prog

/-- The operations that a program has awaited. -/
def awaited (i : Fin n) (log : List (Fin n × M.Op)) : ℕ := log.countP fun x => x.1 = i

/-- A program that is long at most `m` at the start has awaited at most `m` operations. -/
theorem Sys.Reach.awaited_le {allows : Allows M n} {s₀ s : Sys M n α} (h : Sys.Reach allows s₀ s)
    {i : Fin n} {m : ℕ} (hstart : (s₀.procs i).Within m) (hlog : s₀.log = []) :
    ∃ k, (s.procs i).Within k ∧ awaited i s.log + k ≤ m := by
  induction h with
  | start => exact ⟨m, hstart, by rw [hlog, awaited, List.countP_nil, Nat.zero_add]⟩
  | @step s s' l _ hstep _ ih =>
    obtain ⟨k, hwithin, hle⟩ := ih
    cases l with
    | env e =>
      cases hstep
      exact ⟨k, hwithin, hle⟩
    | proc j c =>
      rw [Sys.step] at hstep
      split at hstep
      next o f hprog =>
        obtain ⟨⟨r, st⟩, -, hs'⟩ := Option.map_eq_some_iff.1 hstep
        subst hs'
        by_cases hj : i = j
        · subst hj
          rw [hprog] at hwithin
          refine ⟨k - 1, ?_, ?_⟩
          · dsimp only
            rw [Function.update_self]
            exact hwithin.2 r
          · have hpos := hwithin.1
            rw [awaited, List.countP_cons_of_pos (by simp)]
            rw [awaited] at hle
            omega
        · refine ⟨k, ?_, ?_⟩
          · dsimp only
            rw [Function.update_of_ne hj]
            exact hwithin
          · rw [awaited, List.countP_cons_of_neg (by simpa using Ne.symm hj)]
            exact hle
      next => cases hstep

/-! ## The operations of a program -/

/-- Whatever it is answered, the program awaits such operations only. -/
def Prog.Only (A : M.Op → Prop) : Prog M α → Prop
  | .ret _ => True
  | .raise _ => True
  | .await o k => A o ∧ ∀ r, (k r).Only A

namespace Prog

variable {A B : M.Op → Prop}

theorem Only.mono (hAB : ∀ o, A o → B o) {p : Prog M α} (h : p.Only A) : p.Only B := by
  induction p with
  | ret a => exact trivial
  | raise e => exact trivial
  | await o k ih => exact ⟨hAB o h.1, fun r => ih r (h.2 r)⟩

theorem Only.bind {p : Prog M α} {f : α → Prog M β} (h : p.Only A) (hf : ∀ a, (f a).Only A) :
    (p >>= f).Only A := by
  induction p with
  | ret a => exact hf a
  | raise e => exact trivial
  | await o k ih => exact ⟨h.1, fun r => ih r (h.2 r)⟩

theorem Only.attempt {p : Prog M α} (h : p.Only A) : p.attempt.Only A := by
  induction p with
  | ret a => exact trivial
  | raise e => exact trivial
  | await o k ih => exact ⟨h.1, fun r => ih r (h.2 r)⟩

theorem only_ofExcept (r : Except M.Err α) : (ofExcept r : Prog M α).Only A := by
  cases r <;> exact trivial

theorem only_pure (a : α) : (pure a : Prog M α).Only A := trivial

theorem only_call {o : M.Op} (h : A o) : (call o).Only A := ⟨h, fun r => only_ofExcept r⟩

theorem Only.tryFinally {p : Prog M α} {cleanup : Prog M Unit} (h : p.Only A) (hc : cleanup.Only A) :
    (p.tryFinally cleanup).Only A :=
  h.attempt.bind fun r => hc.bind fun _ => only_ofExcept r

end Prog

theorem Sys.step_eq {s s' : Sys M n α} {i : Fin n} {c : M.Choice} (h : s.step (.proc i c) = some s') :
    ∃ o k r st, s.procs i = .await o k ∧ M.step o c s.state = some (r, st) ∧
      s' = { state := st, log := (i, o) :: s.log, procs := Function.update s.procs i (k r) } := by
  rw [Sys.step] at h
  split at h
  next o k hprog =>
    obtain ⟨⟨r, st⟩, hres, rfl⟩ := Option.map_eq_some_iff.1 h
    exact ⟨o, k, r, st, hprog, hres, rfl⟩
  next => cases h

/-- What the step of a program comes from. -/
theorem Sys.step_proc {s s' : Sys M n α} {i : Fin n} {c : M.Choice} (h : s.step (.proc i c) = some s') :
    ∃ o k r, s.procs i = .await o k ∧ M.step o c s.state = some (r, s'.state) := by
  obtain ⟨o, k, r, st, hprog, hres, rfl⟩ := Sys.step_eq h
  exact ⟨o, k, r, hprog, hres⟩

theorem Sys.step_await {s : Sys M n α} {i : Fin n} {o : M.Op} {k : Except M.Err (M.Res o) → Prog M α}
    {c : M.Choice} {r : Except M.Err (M.Res o)} {st : M.State} (hprog : s.procs i = .await o k)
    (hstep : M.step o c s.state = some (r, st)) : s.step (.proc i c) =
      some { state := st, log := (i, o) :: s.log, procs := Function.update s.procs i (k r) } := by
  simp only [Sys.step, hprog, hstep, Option.map_some]

/-- The steps of the others leave a program where it is. -/
theorem Sys.step_other {s s' : Sys M n α} {l : Label M n} {i : Fin n} (hl : ∀ c, l ≠ .proc i c)
    (hstep : s.step l = some s') : s'.procs i = s.procs i := by
  cases l with
  | env e =>
    cases hstep
    rfl
  | proc j c =>
    have hj : i ≠ j := fun heq => hl c (heq ▸ rfl)
    rw [Sys.step] at hstep
    split at hstep
    next o k hprog =>
      obtain ⟨⟨r, st⟩, -, rfl⟩ := Option.map_eq_some_iff.1 hstep
      exact Function.update_of_ne hj ..
    next => cases hstep

theorem Sys.step_only {A : Fin n → M.Op → Prop} {s s' : Sys M n α} (h : ∀ i, (s.procs i).Only (A i))
    {l : Label M n} (hstep : s.step l = some s') (i : Fin n) : (s'.procs i).Only (A i) := by
  cases l with
  | env e =>
    cases hstep
    exact h i
  | proc j c =>
    rw [Sys.step] at hstep
    split at hstep
    next o k hprog =>
      obtain ⟨⟨r, st⟩, -, rfl⟩ := Option.map_eq_some_iff.1 hstep
      by_cases hj : i = j
      · subst hj
        have hnow := h i
        rw [hprog] at hnow
        dsimp only
        rw [Function.update_self]
        exact hnow.2 r
      · dsimp only
        rw [Function.update_of_ne hj]
        exact h i
    next => cases hstep

/-! ## Programs that keep a protocol -/

structure Protocol (M : Machine) (n : ℕ) (allows : Allows M n) where
  inv : Shared M n → Prop
  rely : Fin n → Shared M n → Shared M n → Prop
  rely_refl : ∀ i sh, rely i sh sh
  rely_trans : ∀ {i sh sh' sh''}, rely i sh sh' → rely i sh' sh'' → rely i sh sh''
  env_inv : ∀ e sh, inv sh → allows (.env e) { sh with state := M.env e sh.state } →
    inv { sh with state := M.env e sh.state }
  env_rely : ∀ i e sh, inv sh → rely i sh { sh with state := M.env e sh.state }

abbrev Post (M : Machine) (n : ℕ) (α : Type) := Except M.Err α → Shared M n → Prop

/-- Nothing is claimed about a raised exception. -/
def Post.ofOk (Q : α → Shared M n → Prop) : Post M n α
  | .ok a, sh => Q a sh
  | .error _, _ => True

variable {allows : Allows M n} (P : Protocol M n allows) (i : Fin n)

/-- What awaiting an operation does. -/
def Performs (o : M.Op) (c : M.Choice) (r : Except M.Err (M.Res o)) (sh sh' : Shared M n) : Prop :=
  M.step o c sh.state = some (r, sh'.state) ∧ sh'.log = (i, o) :: sh.log

def Safe (Q : Post M n α) : Prog M α → Shared M n → Prop
  | .ret a, sh => Q (.ok a) sh
  | .raise e, sh => Q (.error e) sh
  | .await o k, sh => ∀ now, P.rely i sh now → P.inv now → ∀ c r sh', Performs i o c r now sh' →
      allows (.proc i c) sh' → P.inv sh' ∧ (∀ j, j ≠ i → P.rely j now sh') ∧ Safe Q (k r) sh'

variable {P i}

theorem Safe.mono {Q Q' : Post M n α} (hQ : ∀ r sh, Q r sh → Q' r sh) {p : Prog M α} {sh : Shared M n}
    (h : Safe P i Q p sh) : Safe P i Q' p sh := by
  induction p generalizing sh with
  | ret a => exact hQ _ _ h
  | raise e => exact hQ _ _ h
  | await o k ih =>
    intro now hrely hinv c r sh' hperforms hallow
    obtain ⟨hinv', hothers, hnext⟩ := h now hrely hinv c r sh' hperforms hallow
    exact ⟨hinv', hothers, ih r hnext⟩

theorem Safe.bind {Q : Post M n β} {p : Prog M α} {f : α → Prog M β} {sh : Shared M n}
    (h : Safe P i (fun r sh => match r with
      | .ok a => Safe P i Q (f a) sh
      | .error e => Q (.error e) sh) p sh) : Safe P i Q (p >>= f) sh := by
  induction p generalizing sh with
  | ret a => exact h
  | raise e => exact h
  | await o k ih =>
    intro now hrely hinv c r sh' hperforms hallow
    obtain ⟨hinv', hothers, hnext⟩ := h now hrely hinv c r sh' hperforms hallow
    exact ⟨hinv', hothers, ih r hnext⟩

theorem Safe.attempt {Q : Post M n (Except M.Err α)} {p : Prog M α} {sh : Shared M n}
    (h : Safe P i (fun r => Q (.ok r)) p sh) : Safe P i Q p.attempt sh := by
  induction p generalizing sh with
  | ret a => exact h
  | raise e => exact h
  | await o k ih =>
    intro now hrely hinv c r sh' hperforms hallow
    obtain ⟨hinv', hothers, hnext⟩ := h now hrely hinv c r sh' hperforms hallow
    exact ⟨hinv', hothers, ih r hnext⟩

theorem safe_ofExcept {Q : Post M n α} {r : Except M.Err α} {sh : Shared M n} :
    Safe P i Q (.ofExcept r) sh ↔ Q r sh := by
  cases r <;> exact Iff.rfl

theorem Safe.call {o : M.Op} {Q : Post M n (M.Res o)} {sh : Shared M n}
    (h : ∀ now, P.rely i sh now → P.inv now → ∀ c r sh', Performs i o c r now sh' →
      allows (.proc i c) sh' → P.inv sh' ∧ (∀ j, j ≠ i → P.rely j now sh') ∧ Q r sh') :
    Safe P i Q (.call o) sh := by
  intro now hrely hinv c r sh' hperforms hallow
  obtain ⟨hinv', hothers, hpost⟩ := h now hrely hinv c r sh' hperforms hallow
  exact ⟨hinv', hothers, safe_ofExcept.2 hpost⟩

/-- The cleanup runs after a result and after an exception. -/
theorem Safe.tryFinally {Q : Post M n α} {p : Prog M α} {cleanup : Prog M Unit} {sh : Shared M n}
    (h : Safe P i (fun r sh => Safe P i (fun d sh => match d with
      | .ok () => Q r sh
      | .error e => Q (.error e) sh) cleanup sh) p sh) :
    Safe P i Q (p.tryFinally cleanup) sh := by
  refine Safe.bind (Safe.attempt (h.mono fun r sh hr => ?_))
  refine Safe.bind (hr.mono fun d sh hd => ?_)
  cases d with
  | ok u => exact safe_ofExcept.2 hd
  | error e => exact hd

/-- What is known of a program: it was safe at a moment since which the others kept its rely. -/
structure Known (P : Protocol M n allows) (i : Fin n) (Q : Post M n α) (p : Prog M α)
    (now : Shared M n) (sh : Shared M n) : Prop where
  rely : P.rely i sh now
  safe : Safe P i Q p sh

theorem reach_safe {Q : Fin n → Post M n α} {s₀ s : Sys M n α} (hinv : P.inv s₀.toShared)
    (hsafe : ∀ i, Safe P i (Q i) (s₀.procs i) s₀.toShared) (h : Sys.Reach allows s₀ s) :
    P.inv s.toShared ∧ ∀ i, ∃ sh, Known P i (Q i) (s.procs i) s.toShared sh := by
  induction h with
  | start => exact ⟨hinv, fun i => ⟨s₀.toShared, P.rely_refl i _, hsafe i⟩⟩
  | @step s s' l _ hstep hallow ih =>
    obtain ⟨hnow, hknown⟩ := ih
    cases l with
    | env e =>
      cases hstep
      exact ⟨P.env_inv e _ hnow hallow, fun i => (hknown i).imp fun sh hk =>
        ⟨P.rely_trans hk.rely (P.env_rely i e _ hnow), hk.safe⟩⟩
    | proc i c =>
      obtain ⟨sh, hrely, hsafei⟩ := hknown i
      rw [Sys.step] at hstep
      split at hstep
      next o k hprog =>
        obtain ⟨⟨r, st⟩, hres, hs'⟩ := Option.map_eq_some_iff.1 hstep
        subst hs'
        rw [hprog] at hsafei
        obtain ⟨hinv', hothers, hnext⟩ := hsafei _ hrely hnow c r ⟨st, (i, o) :: s.log⟩ ⟨hres, rfl⟩ hallow
        refine ⟨hinv', fun j => ?_⟩
        by_cases hj : j = i
        · subst hj
          refine ⟨⟨st, (j, o) :: s.log⟩, P.rely_refl _ _, ?_⟩
          dsimp only
          rw [Function.update_self]
          exact hnext
        · obtain ⟨shj, hrelyj, hsafej⟩ := hknown j
          refine ⟨shj, P.rely_trans hrelyj (hothers j hj), ?_⟩
          dsimp only
          rw [Function.update_of_ne hj]
          exact hsafej
      next => cases hstep

/-- What a program knew when it ended. -/
theorem Known.outcome {Q : Post M n α} {s : Sys M n α} {sh : Shared M n} {r : Except M.Err α}
    (h : Known P i Q (s.procs i) s.toShared sh) (hr : s.outcome i = some r) : Q r sh := by
  have hsafe := h.safe
  rw [Sys.outcome] at hr
  split at hr
  next a hprog =>
    cases hr
    rw [hprog] at hsafe
    exact hsafe
  next e hprog =>
    cases hr
    rw [hprog] at hsafe
    exact hsafe
  next => cases hr

end Async
