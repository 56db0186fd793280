import Phyllonix.NumeralTexts
import Mathlib.Algebra.Field.Rat

/-!
# JSON texts

The compact ASCII form that `json.dumps` writes with the separators `,` and `:`, and the
reader `json.loads`. Every document without floats is read back from its text.
-/

namespace JsonText

inductive Value
  | null
  | bool (b : Bool)
  | int (n : ℤ)
  /-- a float, as its numeral -/
  | real (numeral : List Char)
  | str (s : List Char)
  | arr (items : List Value)
  /-- the fields in the order of the text; of two with one name the later counts -/
  | obj (fields : List (List Char × Value))

/-! ## Writing -/

/-- `\uXXXX` -/
def unicodeEscape (n : ℕ) : List Char := '\\' :: 'u' :: Numeral.fixed 16 4 n

def escape (c : Char) : List Char :=
  if c = '"' then ['\\', '"']
  else if c = '\\' then ['\\', '\\']
  else if c = '\n' then ['\\', 'n']
  else if c = '\r' then ['\\', 'r']
  else if c = '\t' then ['\\', 't']
  else if c = '\x0c' then ['\\', 'f']
  else if c = '\x08' then ['\\', 'b']
  else if ' ' ≤ c ∧ c ≤ '~' then [c]
  else if c.toNat < 0x10000 then unicodeEscape c.toNat
  else unicodeEscape (0xd800 + (c.toNat - 0x10000) / 0x400) ++
    unicodeEscape (0xdc00 + (c.toNat - 0x10000) % 0x400)

def quoted (s : List Char) : List Char := '"' :: (s.flatMap escape ++ ['"'])

mutual
def dumps : Value → List Char
  | .null => ['n', 'u', 'l', 'l']
  | .bool true => ['t', 'r', 'u', 'e']
  | .bool false => ['f', 'a', 'l', 's', 'e']
  | .int n => Numeral.decimal n
  | .real numeral => numeral
  | .str s => quoted s
  | .arr items => '[' :: (dumpsItems items ++ [']'])
  | .obj fields => '{' :: (dumpsFields fields ++ ['}'])

def dumpsItems : List Value → List Char
  | [] => []
  | v :: vs => dumps v ++ dumpsRest vs

/-- The items after the first. -/
def dumpsRest : List Value → List Char
  | [] => []
  | v :: vs => ',' :: (dumps v ++ dumpsRest vs)

def dumpsFields : List (List Char × Value) → List Char
  | [] => []
  | (k, v) :: kvs => quoted k ++ ':' :: (dumps v ++ dumpsRestFields kvs)

def dumpsRestFields : List (List Char × Value) → List Char
  | [] => []
  | (k, v) :: kvs => ',' :: (quoted k ++ ':' :: (dumps v ++ dumpsRestFields kvs))
end

/-! ## Reading -/

def isBlank (c : Char) : Bool := c = ' ' ∨ c = '\t' ∨ c = '\n' ∨ c = '\r'

def skip (cs : List Char) : List Char := cs.dropWhile isBlank

/-- What follows `\u`: a character, or a surrogate pair. A lone surrogate is no character. -/
def unicode? (cs : List Char) : Option (Char × List Char) := do
  let (n, cs) ← Numeral.read 16 4 cs
  if 0xd800 ≤ n ∧ n < 0xdc00 then
    match cs with
    | '\\' :: 'u' :: cs => do
      let (m, cs) ← Numeral.read 16 4 cs
      if 0xdc00 ≤ m ∧ m < 0xe000 then
        some (Char.ofNat (0x10000 + (n - 0xd800) * 0x400 + (m - 0xdc00)), cs)
      else none
    | _ => none
  else if 0xdc00 ≤ n ∧ n < 0xe000 then none
  else some (Char.ofNat n, cs)

/-- What follows a backslash. -/
def unescape? : List Char → Option (Char × List Char)
  | [] => none
  | c :: cs =>
    if c = 'u' then unicode? cs
    else if c = '"' ∨ c = '\\' ∨ c = '/' then some (c, cs)
    else if c = 'n' then some ('\n', cs)
    else if c = 'r' then some ('\r', cs)
    else if c = 't' then some ('\t', cs)
    else if c = 'f' then some ('\x0c', cs)
    else if c = 'b' then some ('\x08', cs)
    else none

/-- A text up to its closing quotation mark, of at most `fuel` characters. -/
def chars? : ℕ → List Char → Option (List Char × List Char)
  | 0, _ => none
  | _ + 1, [] => none
  | fuel + 1, c :: cs =>
    if c = '"' then some ([], cs)
    else if c = '\\' then do
      let (d, cs) ← unescape? cs
      (chars? fuel cs).map fun (s, rest) => (d :: s, rest)
    else if c.toNat < 32 then none
    else (chars? fuel cs).map fun (s, rest) => (c :: s, rest)

/-- The longest run of digits. -/
def digitRun (cs : List Char) : List Char × List Char :=
  (cs.takeWhile Char.isDigit, cs.dropWhile Char.isDigit)

/-- `0`, or digits that do not start with a zero. -/
def whole (cs : List Char) : List Char × List Char :=
  match cs with
  | '0' :: cs => (['0'], cs)
  | cs => digitRun cs

def fractionPart (cs : List Char) : List Char × List Char :=
  match cs with
  | '.' :: ds => if (digitRun ds).1 = [] then ([], cs) else ('.' :: (digitRun ds).1, (digitRun ds).2)
  | _ => ([], cs)

def sign (cs : List Char) : List Char × List Char :=
  match cs with
  | '+' :: cs => (['+'], cs)
  | '-' :: cs => (['-'], cs)
  | cs => ([], cs)

def exponentPart (cs : List Char) : List Char × List Char :=
  match cs with
  | c :: ds =>
    if (c = 'e' ∨ c = 'E') ∧ (digitRun (sign ds).2).1 ≠ [] then
      (c :: ((sign ds).1 ++ (digitRun (sign ds).2).1), (digitRun (sign ds).2).2)
    else ([], cs)
  | [] => ([], [])

def unsigned? (negative : Bool) (cs : List Char) : Option (Value × List Char) :=
  let (digits, cs) := whole cs
  if digits = [] then none
  else
    let (fraction, cs) := fractionPart cs
    let (exponent, cs) := exponentPart cs
    if fraction = [] ∧ exponent = [] then
      let n : ℤ := Nat.ofDigitChars 10 digits 0
      some (.int (if negative then -n else n), cs)
    else some (.real ((if negative then ['-'] else []) ++ digits ++ fraction ++ exponent), cs)

def number? (cs : List Char) : Option (Value × List Char) :=
  match cs with
  | '-' :: cs => unsigned? true cs
  | cs => unsigned? false cs

def words : List (List Char × Value) :=
  [(['n', 'u', 'l', 'l'], .null), (['t', 'r', 'u', 'e'], .bool true),
    (['f', 'a', 'l', 's', 'e'], .bool false), (['N', 'a', 'N'], .real ['N', 'a', 'N']),
    (['I', 'n', 'f', 'i', 'n', 'i', 't', 'y'], .real ['I', 'n', 'f', 'i', 'n', 'i', 't', 'y']),
    (['-', 'I', 'n', 'f', 'i', 'n', 'i', 't', 'y'],
      .real ['-', 'I', 'n', 'f', 'i', 'n', 'i', 't', 'y'])]

def scalar? (cs : List Char) : Option (Value × List Char) :=
  match words.find? fun w => w.1.isPrefixOf cs with
  | some w => some (w.2, cs.drop w.1.length)
  | none => number? cs

mutual
/-- The value at the front of a text, nested and long at most as `fuel` allows. -/
def value? : ℕ → List Char → Option (Value × List Char)
  | 0, _ => none
  | _ + 1, [] => none
  | fuel + 1, c :: cs =>
    if c = '"' then (chars? (cs.length + 1) cs).map fun (s, rest) => (.str s, rest)
    else if c = '[' then
      match skip cs with
      | ']' :: rest => some (.arr [], rest)
      | cs => (items? fuel cs).map fun (vs, rest) => (.arr vs, rest)
    else if c = '{' then
      match skip cs with
      | '}' :: rest => some (.obj [], rest)
      | cs => (fields? fuel cs).map fun (kvs, rest) => (.obj kvs, rest)
    else scalar? (c :: cs)

def items? : ℕ → List Char → Option (List Value × List Char)
  | 0, _ => none
  | fuel + 1, cs => do
    let (v, cs) ← value? fuel cs
    match skip cs with
    | ']' :: rest => some ([v], rest)
    | ',' :: cs => (items? fuel (skip cs)).map fun (vs, rest) => (v :: vs, rest)
    | _ => none

def fields? : ℕ → List Char → Option (List (List Char × Value) × List Char)
  | 0, _ => none
  | fuel + 1, cs =>
    match cs with
    | '"' :: cs => do
      let (k, cs) ← chars? (cs.length + 1) cs
      match skip cs with
      | ':' :: cs => do
        let (v, cs) ← value? fuel (skip cs)
        match skip cs with
        | '}' :: rest => some ([(k, v)], rest)
        | ',' :: cs => (fields? fuel (skip cs)).map fun (kvs, rest) => ((k, v) :: kvs, rest)
        | _ => none
      | _ => none
    | _ => none
end

/-- `json.loads`: one value with blanks around it. -/
def loads (cs : List Char) : Option Value := do
  let (v, rest) ← value? (cs.length + 1) (skip cs)
  if skip rest = [] then some v else none

/-- The exact value of a float's numeral; the infinities and `NaN` have none. -/
def real? (numeral : List Char) : Option ℚ :=
  let (negative, cs) := sign numeral
  let (digits, cs) := digitRun cs
  let (fraction, cs) := fractionPart cs
  let (exponent, cs) := exponentPart cs
  if digits = [] ∨ cs ≠ [] then none
  else
    let mantissa : ℤ := Nat.ofDigitChars 10 (digits ++ fraction.drop 1) 0
    let (down, power) := sign (exponent.drop 1)
    let scale : ℤ := Nat.ofDigitChars 10 power 0
    some ((if negative = ['-'] then -mantissa else mantissa) *
      (10 : ℚ) ^ ((if down = ['-'] then -scale else scale) - (fraction.drop 1).length))

/-! ## Strings are read back -/

theorem unicode?_fixed {c : Char} (hc : c.toNat < 0x10000) (rest : List Char) :
    unicode? (Numeral.fixed 16 4 c.toNat ++ rest) = some (c, rest) := by
  have hvalid : c.toNat < 0xd800 ∨ 0xdfff < c.toNat ∧ c.toNat < 0x110000 := c.valid
  rw [unicode?, Numeral.read_fixed (by decide) (by decide) hc, Option.bind_eq_bind, Option.bind_some]
  simp only [if_neg (show ¬(0xd800 ≤ c.toNat ∧ c.toNat < 0xdc00) by omega),
    if_neg (show ¬(0xdc00 ≤ c.toNat ∧ c.toNat < 0xe000) by omega), Char.ofNat_toNat]

theorem unicode?_surrogates {high low : ℕ} (hhigh : high < 0x400) (hlow : low < 0x400)
    (rest : List Char) :
    unicode? (Numeral.fixed 16 4 (0xd800 + high) ++ '\\' :: 'u' ::
      (Numeral.fixed 16 4 (0xdc00 + low) ++ rest)) =
      some (Char.ofNat (0x10000 + (0xd800 + high - 0xd800) * 0x400 + (0xdc00 + low - 0xdc00)), rest) := by
  rw [unicode?, Numeral.read_fixed (by decide) (by decide) (show 0xd800 + high < 16 ^ 4 by omega),
    Option.bind_eq_bind, Option.bind_some]
  simp only [if_pos (show 0xd800 ≤ 0xd800 + high ∧ 0xd800 + high < 0xdc00 by omega)]
  rw [Numeral.read_fixed (by decide) (by decide) (show 0xdc00 + low < 16 ^ 4 by omega), Option.bind_some]
  exact if_pos (by omega)

theorem unicode?_pair {c : Char} (hc : 0x10000 ≤ c.toNat) (rest : List Char) :
    unicode? (Numeral.fixed 16 4 (0xd800 + (c.toNat - 0x10000) / 0x400) ++
      (unicodeEscape (0xdc00 + (c.toNat - 0x10000) % 0x400) ++ rest)) = some (c, rest) := by
  have hvalid : c.toNat < 0xd800 ∨ 0xdfff < c.toNat ∧ c.toNat < 0x110000 := c.valid
  have hchar : 0x10000 + (0xd800 + (c.toNat - 0x10000) / 0x400 - 0xd800) * 0x400 +
      (0xdc00 + (c.toNat - 0x10000) % 0x400 - 0xdc00) = c.toNat := by omega
  rw [unicodeEscape, List.cons_append, List.cons_append,
    unicode?_surrogates (by omega) (by omega), hchar, Char.ofNat_toNat]

theorem chars?_unescape {cs rest : List Char} {c : Char} (h : unescape? cs = some (c, rest)) (fuel : ℕ) :
    chars? (fuel + 1) ('\\' :: cs) = (chars? fuel rest).map fun p => (c :: p.1, p.2) := by
  rw [chars?, if_neg (by decide), if_pos rfl, h]
  rfl

theorem chars?_escape (fuel : ℕ) (c : Char) (rest : List Char) :
    chars? (fuel + 1) (escape c ++ rest) = (chars? fuel rest).map fun p => (c :: p.1, p.2) := by
  unfold escape
  split
  next h =>
    subst h
    exact chars?_unescape rfl fuel
  split
  next h =>
    subst h
    exact chars?_unescape rfl fuel
  split
  next h =>
    subst h
    exact chars?_unescape rfl fuel
  split
  next h =>
    subst h
    exact chars?_unescape rfl fuel
  split
  next h =>
    subst h
    exact chars?_unescape rfl fuel
  split
  next h =>
    subst h
    exact chars?_unescape rfl fuel
  split
  next h =>
    subst h
    exact chars?_unescape rfl fuel
  split
  next hquote hslash _ _ _ _ _ hprint =>
    have hplain : ¬ c.toNat < 32 := by
      have hle : ' '.toNat ≤ c.toNat := UInt32.le_iff_toNat_le.1 hprint.1
      exact not_lt.2 hle
    rw [List.singleton_append, chars?, if_neg hquote, if_neg hslash, if_neg hplain]
  split
  next hsmall =>
    have hread : unescape? ('u' :: (Numeral.fixed 16 4 c.toNat ++ rest)) = some (c, rest) :=
      unicode?_fixed hsmall rest
    exact chars?_unescape hread fuel
  next hlarge =>
    have hread : unescape? ('u' :: (Numeral.fixed 16 4 (0xd800 + (c.toNat - 0x10000) / 0x400) ++
        (unicodeEscape (0xdc00 + (c.toNat - 0x10000) % 0x400) ++ rest))) = some (c, rest) :=
      unicode?_pair (not_lt.1 hlarge) rest
    rw [List.append_assoc]
    exact chars?_unescape hread fuel

theorem escape_ne_nil (c : Char) : escape c ≠ [] := by
  unfold escape unicodeEscape
  repeat' split
  all_goals exact List.cons_ne_nil _ _

theorem length_le_flatMap_escape (s : List Char) : s.length ≤ (s.flatMap escape).length := by
  induction s with
  | nil => exact le_rfl
  | cons c s ih =>
    have hpos : 0 < (escape c).length := List.length_pos_iff.2 (escape_ne_nil c)
    rw [List.flatMap_cons, List.length_append, List.length_cons]
    omega

theorem chars?_flatMap_escape {fuel : ℕ} (s rest : List Char) (h : s.length < fuel) :
    chars? fuel (s.flatMap escape ++ '"' :: rest) = some (s, rest) := by
  induction s generalizing fuel with
  | nil =>
    cases fuel with
    | zero => exact absurd h (Nat.not_lt_zero _)
    | succ fuel => rfl
  | cons c s ih =>
    cases fuel with
    | zero => exact absurd h (Nat.not_lt_zero _)
    | succ fuel =>
      rw [List.flatMap_cons, List.append_assoc, chars?_escape, ih (Nat.lt_of_succ_lt_succ h)]
      rfl

theorem quoted_append (s rest : List Char) :
    quoted s ++ rest = '"' :: (s.flatMap escape ++ '"' :: rest) := by
  rw [quoted, List.cons_append, List.append_assoc, List.singleton_append]

theorem chars?_quoted (s rest : List Char) :
    chars? ((s.flatMap escape ++ '"' :: rest).length + 1) (s.flatMap escape ++ '"' :: rest) =
      some (s, rest) := by
  refine chars?_flatMap_escape s rest ?_
  have hle := length_le_flatMap_escape s
  rw [List.length_append]
  omega

/-! ## Numbers are read back -/

/-- What may follow a number. -/
def Stops (rest : List Char) : Prop :=
  ∀ c ∈ rest.head?, c.isDigit = false ∧ c ≠ '.' ∧ c ≠ 'e' ∧ c ≠ 'E'

theorem stops_nil : Stops [] := fun _ hc => absurd hc (by simp)

theorem stops_cons {c : Char} (rest : List Char)
    (h : c.isDigit = false ∧ c ≠ '.' ∧ c ≠ 'e' ∧ c ≠ 'E') : Stops (c :: rest) := by
  intro d hd
  rw [List.head?_cons, Option.mem_def, Option.some.injEq] at hd
  exact hd ▸ h

theorem digitRun_append {ds rest : List Char} (hds : ∀ c ∈ ds, c.isDigit = true) (hrest : Stops rest) :
    digitRun (ds ++ rest) = (ds, rest) := by
  have hstop : rest.takeWhile Char.isDigit = [] ∧ rest.dropWhile Char.isDigit = rest := by
    cases rest with
    | nil => exact ⟨rfl, rfl⟩
    | cons c rest =>
      have hc : ¬ c.isDigit = true := by simp [(hrest c rfl).1]
      exact ⟨List.takeWhile_cons_of_neg hc, List.dropWhile_cons_of_neg hc⟩
  rw [digitRun, List.takeWhile_append_of_pos hds, List.dropWhile_append_of_pos hds, hstop.1, hstop.2,
    List.append_nil]

/-- No zero leads. -/
theorem toDigits_zero_head (n : ℕ) : ∀ ds, Nat.toDigits 10 n = '0' :: ds → ds = [] := by
  induction n using Nat.strong_induction_on with
  | h n ih =>
    intro ds hds
    by_cases hn : n < 10
    · rw [Nat.toDigits_of_lt_base hn] at hds
      exact (List.cons.inj hds).2.symm
    · cases hq : Nat.toDigits 10 (n / 10) with
      | nil => exact absurd hq Nat.toDigits_ne_nil
      | cons c cs =>
        rw [Nat.toDigits_of_base_le (by decide) (not_lt.1 hn), hq, List.cons_append] at hds
        have hc : c = '0' := (List.cons.inj hds).1
        have hcs : cs = [] := ih (n / 10) (by omega) cs (hc ▸ hq)
        have hvalue : Nat.ofDigitChars 10 (Nat.toDigits 10 (n / 10)) 0 = n / 10 :=
          Nat.ofDigitChars_ten_toDigits
        rw [hq, hc, hcs] at hvalue
        have hzero : (0 : ℕ) = n / 10 := hvalue
        omega

theorem whole_toDigits (n : ℕ) {rest : List Char} (hrest : Stops rest) :
    whole (Nat.toDigits 10 n ++ rest) = (Nat.toDigits 10 n, rest) := by
  cases hds : Nat.toDigits 10 n with
  | nil => exact absurd hds Nat.toDigits_ne_nil
  | cons c ds =>
    have hdigits : ∀ d ∈ c :: ds, d.isDigit = true :=
      fun d hd => Numeral.toDigits_isDigit (hds ▸ hd)
    by_cases hc : c = '0'
    · subst hc
      rw [toDigits_zero_head n ds hds]
      rfl
    · rw [List.cons_append, whole, ← List.cons_append, digitRun_append hdigits hrest]
      exact fun cs h => hc (List.cons.inj h).1

theorem fractionPart_stops {rest : List Char} (hrest : Stops rest) : fractionPart rest = ([], rest) := by
  cases rest with
  | nil => rfl
  | cons c rest =>
    rw [fractionPart]
    exact fun ds h => (hrest c rfl).2.1 (List.cons.inj h).1

theorem exponentPart_stops {rest : List Char} (hrest : Stops rest) : exponentPart rest = ([], rest) := by
  cases rest with
  | nil => rfl
  | cons c rest =>
    obtain ⟨-, -, he, hE⟩ := hrest c rfl
    rw [exponentPart, if_neg fun h => h.1.elim he hE]

theorem unsigned?_toDigits (negative : Bool) (n : ℕ) {rest : List Char} (hrest : Stops rest) :
    unsigned? negative (Nat.toDigits 10 n ++ rest) =
      some (.int (if negative then -(n : ℤ) else n), rest) := by
  simp only [unsigned?, whole_toDigits n hrest, if_neg Nat.toDigits_ne_nil, fractionPart_stops hrest,
    exponentPart_stops hrest, and_self, if_true, Nat.ofDigitChars_ten_toDigits]

theorem words_digit {c : Char} (hc : c.isDigit = true) (cs : List Char) :
    words.find? (fun w => w.1.isPrefixOf (c :: cs)) = none := by
  have hne : ∀ d : Char, d.isDigit = false → (d == c) = false := by
    intro d hd
    refine beq_eq_false_iff_ne.2 fun h => ?_
    rw [h, hc] at hd
    exact absurd hd (by decide)
  simp [words, List.isPrefixOf, hne 'n' rfl, hne 't' rfl, hne 'f' rfl, hne 'N' rfl, hne 'I' rfl,
    hne '-' rfl]

theorem words_minus {c : Char} (hc : c.isDigit = true) (cs : List Char) :
    words.find? (fun w => w.1.isPrefixOf ('-' :: c :: cs)) = none := by
  have hne : ('I' == c) = false := by
    refine beq_eq_false_iff_ne.2 fun h => ?_
    rw [← h] at hc
    exact absurd hc (by decide)
  simp [words, List.isPrefixOf, hne]

theorem scalar?_decimal (n : ℤ) {rest : List Char} (hrest : Stops rest) :
    scalar? (Numeral.decimal n ++ rest) = some (.int n, rest) := by
  cases hds : Nat.toDigits 10 n.natAbs with
  | nil => exact absurd hds Nat.toDigits_ne_nil
  | cons c ds =>
    have hc : c.isDigit = true := Numeral.toDigits_isDigit (hds ▸ List.mem_cons_self)
    by_cases hn : n < 0
    · rw [Numeral.decimal, if_pos hn, scalar?, hds, List.cons_append, List.cons_append, words_minus hc]
      simp only [number?]
      rw [← List.cons_append, ← hds, unsigned?_toDigits true _ hrest, if_pos rfl]
      congr 3
      omega
    · rw [Numeral.decimal, if_neg hn, scalar?, hds, List.cons_append, words_digit hc]
      simp only [number?]
      split
      next cs heq => exact absurd ((List.cons.inj heq).1 ▸ hc) (by decide)
      next cs _ =>
        rw [← List.cons_append, ← hds, unsigned?_toDigits false _ hrest, if_neg Bool.false_ne_true]
        congr 3
        omega

/-! ## Documents are read back -/

/-- A document without floats. -/
inductive Exact : Value → Prop
  | null : Exact .null
  | bool (b : Bool) : Exact (.bool b)
  | int (n : ℤ) : Exact (.int n)
  | str (s : List Char) : Exact (.str s)
  | arr {items : List Value} (h : ∀ v ∈ items, Exact v) : Exact (.arr items)
  | obj {fields : List (List Char × Value)} (h : ∀ kv ∈ fields, Exact kv.2) : Exact (.obj fields)

theorem skip_cons {c : Char} (hc : isBlank c = false) (cs : List Char) : skip (c :: cs) = c :: cs :=
  List.dropWhile_cons_of_neg (by simp [hc])

theorem skip_comma (cs : List Char) : skip (',' :: cs) = ',' :: cs := rfl

theorem skip_colon (cs : List Char) : skip (':' :: cs) = ':' :: cs := rfl

theorem skip_quoted (s rest : List Char) : skip (quoted s ++ rest) = quoted s ++ rest := rfl

theorem decimal_head (n : ℤ) : ∃ c cs, Numeral.decimal n = c :: cs ∧ (c = '-' ∨ c.isDigit = true) := by
  by_cases hn : n < 0
  · exact ⟨'-', _, if_pos hn, .inl rfl⟩
  · cases hds : Nat.toDigits 10 n.natAbs with
    | nil => exact absurd hds Nat.toDigits_ne_nil
    | cons c ds =>
      exact ⟨c, ds, by rw [Numeral.decimal, if_neg hn, hds],
        .inr (Numeral.toDigits_isDigit (hds ▸ List.mem_cons_self))⟩

theorem ne_of_isDigit {c d : Char} (hc : c.isDigit = true) (hd : d.isDigit = false) : c ≠ d := by
  intro h
  rw [h, hd] at hc
  exact absurd hc (by decide)

/-- How a number starts: with none of the characters that start or end something else. -/
theorem number_head {c : Char} (h : c = '-' ∨ c.isDigit = true) :
    isBlank c = false ∧ c ≠ ']' ∧ c ≠ '"' ∧ c ≠ '[' ∧ c ≠ '{' := by
  cases h with
  | inl h =>
    subst h
    decide
  | inr h =>
    have hblank : isBlank c = false := by
      simp only [isBlank, decide_eq_false_iff_not, not_or]
      exact ⟨ne_of_isDigit h rfl, ne_of_isDigit h rfl, ne_of_isDigit h rfl, ne_of_isDigit h rfl⟩
    exact ⟨hblank, ne_of_isDigit h rfl, ne_of_isDigit h rfl, ne_of_isDigit h rfl, ne_of_isDigit h rfl⟩

theorem dumps_head {v : Value} (hv : Exact v) :
    ∃ c cs, dumps v = c :: cs ∧ isBlank c = false ∧ c ≠ ']' := by
  cases hv with
  | null => exact ⟨_, _, rfl, rfl, by decide⟩
  | bool b => cases b <;> exact ⟨_, _, rfl, rfl, by decide⟩
  | int n =>
    obtain ⟨c, cs, hcs, hc⟩ := decimal_head n
    exact ⟨c, cs, hcs, (number_head hc).1, (number_head hc).2.1⟩
  | str s => exact ⟨_, _, rfl, rfl, by decide⟩
  | arr _ => exact ⟨_, _, rfl, rfl, by decide⟩
  | obj _ => exact ⟨_, _, rfl, rfl, by decide⟩

theorem skip_dumps {v : Value} (hv : Exact v) (rest : List Char) :
    skip (dumps v ++ rest) = dumps v ++ rest := by
  obtain ⟨c, cs, hcs, hc, -⟩ := dumps_head hv
  rw [hcs, List.cons_append, skip_cons hc]

theorem length_dumps_pos {v : Value} (hv : Exact v) : 0 < (dumps v).length := by
  obtain ⟨c, cs, hcs, -, -⟩ := dumps_head hv
  rw [hcs]
  exact Nat.succ_pos _

/-- With so much fuel every shorter document is read. -/
def Reads (fuel : ℕ) : Prop :=
  ∀ (v : Value) (rest : List Char), Exact v → (dumps v).length ≤ fuel → Stops rest →
    value? fuel (dumps v ++ rest) = some (v, rest)

theorem stops_rest (vs : List Value) (rest : List Char) : Stops (dumpsRest vs ++ ']' :: rest) := by
  cases vs with
  | nil => exact stops_cons _ (by decide)
  | cons v vs => exact stops_cons _ (by decide)

theorem stops_restFields (kvs : List (List Char × Value)) (rest : List Char) :
    Stops (dumpsRestFields kvs ++ '}' :: rest) := by
  cases kvs with
  | nil => exact stops_cons _ (by decide)
  | cons kv kvs => exact stops_cons _ (by decide)

theorem items?_dumps {fuel : ℕ} (hreads : ∀ m < fuel, Reads m) {v : Value} {vs : List Value}
    (hexact : ∀ w ∈ v :: vs, Exact w) (hlen : (dumps v).length + (dumpsRest vs).length < fuel)
    (rest : List Char) :
    items? fuel (dumps v ++ (dumpsRest vs ++ ']' :: rest)) = some (v :: vs, rest) := by
  have hv : Exact v := hexact v List.mem_cons_self
  induction vs generalizing fuel v with
  | nil =>
    cases fuel with
    | zero => exact absurd hlen (Nat.not_lt_zero _)
    | succ fuel =>
      rw [items?, hreads fuel (Nat.lt_succ_self _) v _ hv (by omega) (stops_rest [] rest),
        Option.bind_eq_bind, Option.bind_some]
      rfl
  | cons w ws ih =>
    cases fuel with
    | zero => exact absurd hlen (Nat.not_lt_zero _)
    | succ fuel =>
      have hw : ∀ u ∈ w :: ws, Exact u := fun u hu => hexact u (List.mem_cons_of_mem v hu)
      have hpos := length_dumps_pos hv
      rw [dumpsRest, List.length_cons, List.length_append] at hlen
      have hrest := ih (fun m hm => hreads m (Nat.lt_succ_of_lt hm)) hw (by omega) (hw w List.mem_cons_self)
      rw [items?, hreads fuel (Nat.lt_succ_self _) v _ hv (by omega) (stops_rest (w :: ws) rest),
        dumpsRest, List.cons_append, List.append_assoc]
      simp only [Option.bind_eq_bind, Option.bind_some, skip_comma, skip_dumps (hw w List.mem_cons_self),
        hrest, Option.map_some]

theorem fields?_dumps {fuel : ℕ} (hreads : ∀ m < fuel, Reads m) {k : List Char} {v : Value}
    {kvs : List (List Char × Value)} (hexact : ∀ kv ∈ (k, v) :: kvs, Exact kv.2)
    (hlen : (dumps v).length + (dumpsRestFields kvs).length < fuel) (rest : List Char) :
    fields? fuel (quoted k ++ ':' :: (dumps v ++ (dumpsRestFields kvs ++ '}' :: rest))) =
      some ((k, v) :: kvs, rest) := by
  have hv : Exact v := hexact (k, v) List.mem_cons_self
  induction kvs generalizing fuel k v with
  | nil =>
    cases fuel with
    | zero => exact absurd hlen (Nat.not_lt_zero _)
    | succ fuel =>
      rw [quoted_append, fields?, chars?_quoted]
      simp only [Option.bind_eq_bind, Option.bind_some, skip_colon, skip_dumps hv,
        hreads fuel (Nat.lt_succ_self _) v _ hv (by omega) (stops_restFields [] rest)]
      rfl
  | cons kv kvs ih =>
    cases fuel with
    | zero => exact absurd hlen (Nat.not_lt_zero _)
    | succ fuel =>
      obtain ⟨l, w⟩ := kv
      have hw : ∀ u ∈ (l, w) :: kvs, Exact u.2 := fun u hu => hexact u (List.mem_cons_of_mem (k, v) hu)
      have hpos := length_dumps_pos hv
      simp only [dumpsRestFields, List.length_cons, List.length_append] at hlen
      have hrest := ih (fun m hm => hreads m (Nat.lt_succ_of_lt hm)) hw (by omega)
        (hw (l, w) List.mem_cons_self)
      have hread := hreads fuel (Nat.lt_succ_self _) v _ hv (by omega)
        (stops_restFields ((l, w) :: kvs) rest)
      rw [quoted_append, fields?, chars?_quoted]
      simp only [Option.bind_eq_bind, Option.bind_some, skip_colon, skip_dumps hv, hread]
      rw [dumpsRestFields, List.cons_append, List.append_assoc, List.cons_append, List.append_assoc]
      simp only [skip_comma, skip_quoted, hrest, Option.map_some]

theorem value?_scalar {fuel : ℕ} {c : Char} (hc : c ≠ '"' ∧ c ≠ '[' ∧ c ≠ '{') (cs : List Char) :
    value? (fuel + 1) (c :: cs) = scalar? (c :: cs) := by
  rw [value?, if_neg hc.1, if_neg hc.2.1, if_neg hc.2.2]

theorem reads (fuel : ℕ) : Reads fuel := by
  induction fuel using Nat.strong_induction_on with
  | h fuel ih =>
    intro v rest hv hlen hrest
    have hpos := length_dumps_pos hv
    obtain ⟨m, rfl⟩ : ∃ m, fuel = m + 1 := ⟨fuel - 1, by omega⟩
    cases hv with
    | null => rfl
    | bool b => cases b <;> rfl
    | int n =>
      obtain ⟨c, cs, hcs, hc⟩ := decimal_head n
      rw [dumps, hcs, List.cons_append, value?_scalar (number_head hc).2.2, ← List.cons_append, ← hcs,
        scalar?_decimal n hrest]
    | str s => rw [dumps, quoted_append, value?, if_pos rfl, chars?_quoted, Option.map_some]
    | @arr items hitems =>
      cases items with
      | nil => rfl
      | cons w ws =>
        have hw : Exact w := hitems w List.mem_cons_self
        simp only [dumps, dumpsItems, List.length_cons, List.length_append, List.length_nil] at hlen
        obtain ⟨c, cs, hcs, -, hbracket⟩ := dumps_head hw
        rw [dumps, dumpsItems, List.cons_append, List.append_assoc, List.append_assoc,
          List.singleton_append, value?, if_neg (by decide), if_pos rfl, skip_dumps hw]
        split
        next tail heq =>
          rw [hcs, List.cons_append] at heq
          exact absurd (List.cons.inj heq).1 hbracket
        next =>
          rw [items?_dumps (fun n hn => ih n (Nat.lt_succ_of_lt hn)) hitems (by omega) rest]
          rfl
    | @obj fields hfields =>
      cases fields with
      | nil => rfl
      | cons kv kvs =>
        obtain ⟨k, w⟩ := kv
        simp only [dumps, dumpsFields, List.length_cons, List.length_append, List.length_nil] at hlen
        rw [dumps, dumpsFields, List.cons_append, List.append_assoc, List.append_assoc, List.cons_append,
          List.append_assoc, List.singleton_append, value?, if_neg (by decide), if_neg (by decide),
          if_pos rfl, skip_quoted]
        have hread := fields?_dumps (fun n hn => ih n (Nat.lt_succ_of_lt hn)) hfields (by omega) rest
        split
        next tail heq =>
          rw [quoted_append] at heq
          exact absurd (List.cons.inj heq).1 (by decide)
        next =>
          rw [hread]
          rfl

theorem loads_dumps {v : Value} (hv : Exact v) : loads (dumps v) = some v := by
  have hskip := skip_dumps hv []
  have hread := reads ((dumps v).length + 1) v [] hv (Nat.le_succ _) stops_nil
  rw [List.append_nil] at hskip hread
  rw [loads, hskip, hread]
  rfl

end JsonText
