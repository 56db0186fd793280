import Phyllonix.RelationalTransaction
import Mathlib.Data.Fin.Basic
import Mathlib.Data.Fintype.Basic

/-!
# Interleaved programs over a relational store

A program is a tree of actions: statements of its own transaction, commit and
rollback, and actions of the host. A system runs finitely many programs, one
action of one of them at a time. A statement that needs a lock of another
transaction has no step until the lock is free; every statement and every commit
may also fail, and a failed transaction refuses all statements until it is
rolled back. A failed commit has no effect on the store.
-/

namespace Relational

/-- What programs use besides the store: clocks, queues, remote services. -/
structure Host where
  State : Type
  Act : Type
  Res : Act → Type
  Choice : Type
  Err : Type
  step : (a : Act) → Choice → State → Option (Except Err (Res a) × State)
  Env : Type
  env : Env → State → State

inductive Exn (E : Type) where
  | fault
  | inFailedTransaction
  | integrity
  | app (e : E)

inductive Choice (H : Host) where
  | go
  | fault
  | host (c : H.Choice)

def Choice.isFault {H : Host} : Choice H → Bool
  | .fault => true
  | _ => false

/-- What every program of a system sees. -/
structure Shared (S : Schema) (H : Host) where
  db : Store S
  host : H.State

structure World (S : Schema) (H : Host) extends Shared S H where
  seq : S.Tbl → ℕ

inductive Action (S : Schema) (H : Host) : Type 1 where
  | read {β : Type} (f : Store S → β)
  | lock (t : S.Tbl) (p : S.Row t → Bool)
  | lockSkip (t : S.Tbl) (p : S.Row t → Bool)
  | update (t : S.Tbl) (p : S.Row t → Bool) (f : S.Row t → S.Row t) (hf : ∀ r, S.id (f r) = S.id r)
  | insert (t : S.Tbl) (mk : ℕ → S.Row t) (hmk : ∀ n, S.id (mk n) = n) (onConflictDoNothing : Bool)
  | tryLock (n : ℤ)
  | commit
  | rollback
  | host (a : H.Act)

variable {S : Schema} {H : Host}

@[reducible] def Action.Res : Action S H → Type
  | @Action.read _ _ β _ => β
  | .lock t _ => List (S.Row t)
  | .lockSkip t _ => List (S.Row t)
  | .update t _ _ _ => List (S.Row t)
  | .insert t _ _ _ => Option (S.Row t)
  | .tryLock _ => Bool
  | .commit => Unit
  | .rollback => Unit
  | .host a => H.Res a

/-- The result of an action; `none` is an action that has to wait. -/
abbrev Outcome (S : Schema) (H : Host) (β : Type) :=
  Option (Except (Exn H.Err) β × World S H × Txn S)

def statement {β : Type} (c : Choice H) (w : World S H) (l : Txn S) (go : Outcome S H β) :
    Outcome S H β :=
  match c with
  | .fault => some (.error .fault, w, l.abort)
  | .go => if l.aborted then some (.error .inFailedTransaction, w, l) else go
  | .host _ => none

/-- Updates the matched rows one after another. -/
def updateRows (busy : Lock S → Bool) (d : Store S) (t : S.Tbl) (f : S.Row t → S.Row t) :
    List (S.Row t) → Txn S → Option (Except (Exn H.Err) (List (S.Row t)) × Txn S)
  | [], l => some (.ok [], l)
  | r :: rs, l =>
    if (Txn.writeLocks t (S.keys r) (f r)).any busy then none
    else if (l.view d).Free t ((S.keys (f r)).filter (fun k => k ∉ S.keys r)) then
      (updateRows busy d t f rs (l.write t (S.keys r) (f r))).map fun
        | (.ok rs', l') => (.ok (f r :: rs'), l')
        | (.error e, l') => (.error e, l')
    else some (.error .integrity, l.abort)

def lockAll (busy : Lock S → Bool) (w : World S H) (l : Txn S) (t : S.Tbl)
    (rows : List (S.Row t)) : Outcome S H (List (S.Row t)) :=
  let xs := rows.map fun r => Lock.row t (S.id r)
  if xs.any busy then none else some (.ok rows, w, l.acquire xs)

def insertRow (busy : Lock S → Bool) (w : World S H) (l : Txn S) (t : S.Tbl) (r : S.Row t)
    (skip : Bool) : Outcome S H (Option (S.Row t)) :=
  if (Txn.writeLocks t [] r).any busy then none
  else if (l.view w.db).Free t (S.keys r) then
    some (.ok (some r), { w with seq := Function.update w.seq t (w.seq t + 1) }, l.write t [] r)
  else if skip then some (.ok none, w, l)
  else some (.error .integrity, w, l.abort)

def Action.run (a : Action S H) (c : Choice H) (busy : Lock S → Bool) (w : World S H) (l : Txn S) :
    Outcome S H a.Res :=
  match a with
  | .read f => statement c w l (some (.ok (f (l.view w.db)), w, l))
  | .lock t p => statement c w l (lockAll busy w l t ((l.view w.db t).filter p))
  | .lockSkip t p => statement c w l
      (lockAll busy w l t ((l.view w.db t).filter fun r => p r && !busy (.row t (S.id r))))
  | .update t p f _ => statement c w l
      ((updateRows busy w.db t f ((l.view w.db t).filter p) l).map fun x => (x.1, w, x.2))
  | .insert t mk _ skip => statement c w l (insertRow busy w l t (mk (w.seq t)) skip)
  | .tryLock n => statement c w l
      (if busy (.advisory n) then some (.ok false, w, l)
        else some (.ok true, w, l.acquire [.advisory n]))
  | .commit => statement c w l (some (.ok (), { w with db := l.view w.db }, l.committed))
  | .rollback =>
    match c with
    | .go => some (.ok (), w, l.reset)
    | .fault => some (.error .fault, w, l.reset)
    | .host _ => none
  | .host a =>
    match c with
    | .host c => (H.step a c w.host).map fun x => (x.1.mapError .app, { w with host := x.2 }, l)
    | _ => none

inductive Prog (S : Schema) (H : Host) (α : Type) : Type 1 where
  | ret (a : α)
  | raise (e : Exn H.Err)
  | act (a : Action S H) (k : Except (Exn H.Err) a.Res → Prog S H α)

namespace Prog
variable {α β : Type}

protected def bind : Prog S H α → (α → Prog S H β) → Prog S H β
  | ret a, f => f a
  | raise e, _ => raise e
  | act a k, f => act a fun r => (k r).bind f

instance : Monad (Prog S H) where
  pure := ret
  bind := Prog.bind

/-- Runs a program to its end and hands an exception over as a value. -/
def attempt : Prog S H α → Prog S H (Except (Exn H.Err) α)
  | ret a => ret (.ok a)
  | raise e => ret (.error e)
  | act a k => act a fun r => (k r).attempt

def ofExcept : Except (Exn H.Err) α → Prog S H α
  | .ok a => ret a
  | .error e => raise e

def call (a : Action S H) : Prog S H a.Res := act a ofExcept

/-- A block that commits at its end and rolls back when an exception leaves it. -/
def transaction (p : Prog S H α) : Prog S H α := do
  match ← attempt (do let a ← p; call .commit; pure a) with
  | .ok a => pure a
  | .error e =>
    let _ ← attempt (call .rollback)
    raise e

/-- A session is closed at its end, whatever the outcome; closing rolls back. -/
def session (p : Prog S H α) : Prog S H (Except (Exn H.Err) α) := do
  let r ← attempt p
  let _ ← attempt (call .rollback)
  pure r

end Prog

structure Proc (S : Schema) (H : Host) (α : Type) where
  prog : Prog S H α
  txn : Txn S

structure Sys (S : Schema) (H : Host) (n : ℕ) (α : Type) where
  world : World S H
  procs : Fin n → Proc S H α

inductive Label (H : Host) (n : ℕ) where
  | proc (i : Fin n) (c : Choice H)
  | env (e : H.Env)

/-- Restricts the actions that the programs of a run take. -/
abbrev Guard (S : Schema) (H : Host) (n : ℕ) :=
  Fin n → Shared S H → Txn S → Action S H → Choice H → Prop

/-- A value computed along a run from what each step changes. -/
structure History (S : Schema) (H : Host) (n : ℕ) where
  Val : Type
  next : Fin n → Shared S H → Shared S H → Val → Val

def History.none : History S H n := ⟨Unit, fun _ _ _ x => x⟩

theorem History.none_same (i : Fin n) (sh : Shared S H) (x : Unit) :
    (History.none : History S H n).next i sh sh x = x := rfl

namespace Sys
variable {n : ℕ} {α : Type}

def start (w : World S H) (ps : Fin n → Prog S H α) : Sys S H n α := ⟨w, fun i => ⟨ps i, {}⟩⟩

def busy (s : Sys S H n α) (i : Fin n) (x : Lock S) : Bool :=
  decide (∃ j, j ≠ i ∧ x ∈ (s.procs j).txn.locks)

def step (s : Sys S H n α) : Label H n → Option (Sys S H n α)
  | .proc i c =>
    match (s.procs i).prog with
    | .act a k =>
      (a.run c (s.busy i) s.world (s.procs i).txn).map fun x =>
        ⟨x.2.1, Function.update s.procs i ⟨k x.1, x.2.2⟩⟩
    | _ => none
  | .env e => some { s with world := { s.world with host := H.env e s.world.host } }

def Allows (G : Guard S H n) (s : Sys S H n α) (i : Fin n) (c : Choice H) : Prop :=
  match (s.procs i).prog with
  | .act a _ => G i s.world.toShared (s.procs i).txn a c
  | _ => True

/-- What a program that is over has returned. -/
def outcome (s : Sys S H n α) (i : Fin n) : Option α :=
  match (s.procs i).prog with
  | .ret a => some a
  | _ => none

theorem prog_of_outcome {s : Sys S H n α} {i : Fin n} {a : α} (h : s.outcome i = some a) :
    (s.procs i).prog = .ret a := by
  rw [outcome] at h
  split at h
  · rename_i b hb
    rw [hb, Option.some.inj h]
  · cases h

/-- The states of the runs from `s₀` whose steps all meet the guard. -/
inductive Run (G : Guard S H n) (K : History S H n) (s₀ : Sys S H n α) (x₀ : K.Val) :
    Sys S H n α → K.Val → Prop
  | start : Run G K s₀ x₀ s₀ x₀
  | proc {s s' : Sys S H n α} {x : K.Val} (i : Fin n) (c : Choice H) : Run G K s₀ x₀ s x →
      s.Allows G i c → s.step (.proc i c) = some s' →
      Run G K s₀ x₀ s' (K.next i s.world.toShared s'.world.toShared x)
  | env {s s' : Sys S H n α} {x : K.Val} (e : H.Env) : Run G K s₀ x₀ s x →
      s.step (.env e) = some s' → Run G K s₀ x₀ s' x

/-- The states that some run from `s₀` reaches. -/
def Reach (s₀ s : Sys S H n α) : Prop := Run (fun _ _ _ _ _ => True) History.none s₀ () s ()

instance decidableAllows (G : Guard S H n) [∀ i sh l a c, Decidable (G i sh l a c)]
    (s : Sys S H n α) (i : Fin n) (c : Choice H) : Decidable (s.Allows G i c) :=
  match h : (s.procs i).prog with
  | .act a _ => decidable_of_iff (G i s.world.toShared (s.procs i).txn a c) (by simp [Allows, h])
  | .ret _ => .isTrue (by simp [Allows, h])
  | .raise _ => .isTrue (by simp [Allows, h])

/-- Runs the listed steps, when the guard allows them. -/
def exec (G : Guard S H n) [∀ i sh l a c, Decidable (G i sh l a c)] (s : Sys S H n α) :
    List (Label H n) → Option (Sys S H n α)
  | [] => some s
  | .proc i c :: xs =>
    if s.Allows G i c then (s.step (.proc i c)).bind fun s' => s'.exec G xs else none
  | .env e :: xs => (s.step (.env e)).bind fun s' => s'.exec G xs

end Sys
end Relational
