import Mathlib.Data.Nat.ModEq
import Mathlib.Tactic.Ring

/-!
# Numerals

Fixed-width numerals in bases up to sixteen, and the decimal texts of whole numbers:
what a writer prints a reader reads back, and leaves what follows.
-/

namespace Numeral

/-- The value of `c` as a digit of base `b`. -/
def digit? (b : ℕ) (c : Char) : Option ℕ :=
  let d := if '0' ≤ c ∧ c ≤ '9' then c.toNat - 48
    else if 'a' ≤ c ∧ c ≤ 'f' then c.toNat - 87
    else if 'A' ≤ c ∧ c ≤ 'F' then c.toNat - 55
    else b
  if d < b then some d else none

/-- The last `w` digits of `n`, the highest first. -/
def fixed (b : ℕ) : ℕ → ℕ → List Char
  | 0, _ => []
  | w + 1, n => (n / b ^ w % b).digitChar :: fixed b w n

/-- Reads exactly `w` digits after a number already read. -/
def scan (b : ℕ) : ℕ → ℕ → List Char → Option (ℕ × List Char)
  | 0, acc, cs => some (acc, cs)
  | _ + 1, _, [] => none
  | w + 1, acc, c :: cs => (digit? b c).bind fun d => scan b w (b * acc + d) cs

def read (b w : ℕ) (cs : List Char) : Option (ℕ × List Char) := scan b w 0 cs

theorem digit?_digitChar {b d : ℕ} (hb : b ≤ 16) (hd : d < b) : digit? b d.digitChar = some d := by
  have hvalue : ∀ d < 16, ∀ b ≤ 16, d < b → digit? b d.digitChar = some d := by decide
  exact hvalue d (by omega) b hb hd

theorem length_fixed (b w n : ℕ) : (fixed b w n).length = w := by
  induction w with
  | zero => rfl
  | succ w ih => rw [fixed, List.length_cons, ih]

theorem scan_fixed {b : ℕ} (hpos : 0 < b) (hb : b ≤ 16) (w acc n : ℕ) (rest : List Char) :
    scan b w acc (fixed b w n ++ rest) = some (b ^ w * acc + n % b ^ w, rest) := by
  induction w generalizing acc with
  | zero => simp [scan, fixed, Nat.mod_one]
  | succ w ih =>
    rw [fixed, List.cons_append, scan, digit?_digitChar hb (Nat.mod_lt _ hpos), Option.bind_some, ih,
      Nat.mod_pow_succ, pow_succ]
    congr 2
    ring

theorem read_fixed {b w n : ℕ} (hpos : 0 < b) (hb : b ≤ 16) (hn : n < b ^ w) (rest : List Char) :
    read b w (fixed b w n ++ rest) = some (n, rest) := by
  rw [read, scan_fixed hpos hb, Nat.mod_eq_of_lt hn, Nat.mul_zero, Nat.zero_add]

theorem digitChar_isDigit {d : ℕ} (hd : d < 10) : d.digitChar.isDigit = true :=
  have hdigit : ∀ d < 10, d.digitChar.isDigit = true := by decide
  hdigit d hd

theorem fixed_isDigit (w n : ℕ) : ∀ c ∈ fixed 10 w n, c.isDigit = true := by
  induction w with
  | zero => simp [fixed]
  | succ w ih =>
    intro c hc
    rw [fixed, List.mem_cons] at hc
    cases hc with
    | inl heq => exact heq ▸ digitChar_isDigit (Nat.mod_lt _ (by omega))
    | inr hmem => exact ih c hmem

/-- `str(n)` -/
def decimal (n : ℤ) : List Char :=
  if n < 0 then '-' :: Nat.toDigits 10 n.natAbs else Nat.toDigits 10 n.natAbs

theorem toDigits_isDigit {n : ℕ} {c : Char} (hc : c ∈ Nat.toDigits 10 n) : c.isDigit = true :=
  Nat.isDigit_of_mem_toDigits (by decide) (by decide) hc

def isSpace (c : Char) : Bool :=
  c = ' ' ∨ ('\t' ≤ c ∧ c ≤ '\r') ∨ (28 ≤ c.toNat ∧ c.toNat ≤ 31)

def strip (cs : List Char) : List Char := ((cs.dropWhile isSpace).reverse.dropWhile isSpace).reverse

/-- Digits, in which single underscores may stand between two of them. -/
def digits? (afterDigit : Bool) (acc : ℕ) : List Char → Option ℕ
  | [] => if afterDigit then some acc else none
  | c :: cs =>
    if c.isDigit then digits? true (10 * acc + (c.toNat - '0'.toNat)) cs
    else if c = '_' ∧ afterDigit = true then digits? false acc cs
    else none

/-- `int(text)` of an ASCII text -/
def integer? (cs : List Char) : Option ℤ :=
  match strip cs with
  | '-' :: ds => (digits? false 0 ds).map fun n : ℕ => -(n : ℤ)
  | '+' :: ds => (digits? false 0 ds).map fun n : ℕ => (n : ℤ)
  | ds => (digits? false 0 ds).map fun n : ℕ => (n : ℤ)

theorem digits?_eq {cs : List Char} (hcs : ∀ c ∈ cs, c.isDigit = true) (acc : ℕ) :
    digits? true acc cs = some (Nat.ofDigitChars 10 cs acc) := by
  induction cs generalizing acc with
  | nil => rfl
  | cons c cs ih =>
    rw [digits?, if_pos (hcs c List.mem_cons_self), ih (fun d hd => hcs d (List.mem_cons_of_mem c hd)),
      Nat.ofDigitChars_cons]

theorem digits?_toDigits (n : ℕ) : digits? false 0 (Nat.toDigits 10 n) = some n := by
  cases hds : Nat.toDigits 10 n with
  | nil => exact absurd hds Nat.toDigits_ne_nil
  | cons c cs =>
    have hdigits : ∀ d ∈ c :: cs, d.isDigit = true := fun d hd => toDigits_isDigit (hds ▸ hd)
    have hvalue : Nat.ofDigitChars 10 (c :: cs) 0 = n := hds ▸ Nat.ofDigitChars_ten_toDigits
    rw [digits?, if_pos (hdigits c List.mem_cons_self),
      digits?_eq fun d hd => hdigits d (List.mem_cons_of_mem c hd), ← Nat.ofDigitChars_cons, hvalue]

theorem isSpace_of_isDigit {c : Char} (h : c.isDigit = true) : isSpace c = false := by
  simp only [Char.isDigit, Bool.and_eq_true, decide_eq_true_eq] at h
  have hlow : 48 ≤ c.toNat := UInt32.le_iff_toNat_le.1 h.1
  simp only [isSpace, decide_eq_false_iff_not, not_or, not_and]
  refine ⟨fun hc => ?_, fun _ => ?_, fun _ => by omega⟩
  · subst hc
    exact absurd hlow (by decide)
  · have hcr : '\r'.toNat < c.toNat := lt_of_lt_of_le (by decide) hlow
    exact Char.not_le.2 (Char.lt_def.2 (UInt32.lt_iff_toNat_lt.2 hcr))

theorem strip_eq {cs : List Char} (h : ∀ c ∈ cs, isSpace c = false) : strip cs = cs := by
  have hkeep : ∀ ds : List Char, (∀ c ∈ ds, isSpace c = false) → ds.dropWhile isSpace = ds := by
    intro ds hds
    cases ds with
    | nil => rfl
    | cons c ds => rw [List.dropWhile_cons_of_neg (by simp [hds c List.mem_cons_self])]
  rw [strip, hkeep cs h, hkeep cs.reverse fun c hc => h c (List.mem_reverse.1 hc), List.reverse_reverse]

theorem integer?_decimal (n : ℤ) : integer? (decimal n) = some n := by
  have hspace : ∀ c ∈ Nat.toDigits 10 n.natAbs, isSpace c = false :=
    fun c hc => isSpace_of_isDigit (toDigits_isDigit hc)
  by_cases hn : n < 0
  · have hstrip : strip ('-' :: Nat.toDigits 10 n.natAbs) = '-' :: Nat.toDigits 10 n.natAbs :=
      strip_eq (List.forall_mem_cons.2 ⟨by decide, hspace⟩)
    rw [decimal, if_pos hn, integer?, hstrip]
    simp only [digits?_toDigits, Option.map_some, Option.some.injEq]
    omega
  · rw [decimal, if_neg hn, integer?, strip_eq hspace]
    split
    · next ds hds =>
      exact absurd (toDigits_isDigit (hds ▸ List.mem_cons_self)) (by decide)
    · next ds hds =>
      exact absurd (toDigits_isDigit (hds ▸ List.mem_cons_self)) (by decide)
    · rw [digits?_toDigits, Option.map_some, Option.some.injEq]
      omega

theorem decimal_injective : Function.Injective decimal := fun a b h => by
  have hint := integer?_decimal a
  rw [h, integer?_decimal] at hint
  exact (Option.some.inj hint).symm

/-- What the text of an integer is made of. -/
theorem decimal_forall {P : Char → Prop} (hdigit : ∀ c : Char, c.isDigit = true → P c) (hminus : P '-')
    (n : ℤ) : ∀ c ∈ decimal n, P c := by
  have hdigits : ∀ c ∈ Nat.toDigits 10 n.natAbs, P c := fun c hc => hdigit c (toDigits_isDigit hc)
  rw [decimal]
  split
  · exact List.forall_mem_cons.2 ⟨hminus, hdigits⟩
  · exact hdigits

end Numeral
