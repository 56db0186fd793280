import Mathlib.Algebra.GroupWithZero.Nat
import Mathlib.Data.Fin.Basic

/-!
# Numbers of processes

In a run on fixed inputs the processes are numbered by the numerals of `Fin n`. The instances give
the numerals of every module one and the same proof that `Fin n` has a first element.
-/

instance oneProcess : NeZero 1 := ⟨Nat.one_ne_zero⟩

instance twoProcesses : NeZero 2 := ⟨Nat.succ_ne_zero 1⟩

instance threeProcesses : NeZero 3 := ⟨Nat.succ_ne_zero 2⟩

instance fourProcesses : NeZero 4 := ⟨Nat.succ_ne_zero 3⟩
