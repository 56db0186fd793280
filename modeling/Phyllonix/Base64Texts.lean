import Mathlib.Data.List.Basic
import Mathlib.Data.UInt
import Mathlib.Tactic.Ring

/-!
# URL-safe base64

The standard library's encoder, and its decoder, which skips characters outside the
alphabet and stops at the first complete padding. A text whose padding was taken away
and put back decodes to what was encoded.
-/

namespace Base64

/-- The character of six bits. -/
def letter (n : ℕ) : Char :=
  if n < 26 then Char.ofNat (n + 65)
  else if n < 52 then Char.ofNat (n + 71)
  else if n < 62 then Char.ofNat (n - 4)
  else if n = 62 then '+' else '/'

def sextet? (c : Char) : Option ℕ :=
  if 'A' ≤ c ∧ c ≤ 'Z' then some (c.toNat - 65)
  else if 'a' ≤ c ∧ c ≤ 'z' then some (c.toNat - 71)
  else if '0' ≤ c ∧ c ≤ '9' then some (c.toNat + 4)
  else if c = '+' then some 62
  else if c = '/' then some 63
  else none

def b64encode : List UInt8 → List Char
  | [] => []
  | [a] => [letter (a.toNat / 4), letter (a.toNat % 4 * 16), '=', '=']
  | [a, b] => [letter (a.toNat / 4), letter (a.toNat % 4 * 16 + b.toNat / 16),
      letter (b.toNat % 16 * 4), '=']
  | a :: b :: c :: bytes => letter (a.toNat / 4) :: letter (a.toNat % 4 * 16 + b.toNat / 16) ::
      letter (b.toNat % 16 * 4 + c.toNat / 64) :: letter (c.toNat % 64) :: b64encode bytes

def toUrlsafe (c : Char) : Char := if c = '+' then '-' else if c = '/' then '_' else c

def ofUrlsafe (c : Char) : Char := if c = '-' then '+' else if c = '_' then '/' else c

def urlsafe_b64encode (bytes : List UInt8) : List Char := (b64encode bytes).map toUrlsafe

inductive DecodeError
  | nonAscii
  | oneMoreThanMultipleOfFour
  | incorrectPadding

/-- The decoder at position `quad` of a group of four, with the bits `left` of the last character
read and `pads` padding characters since. -/
def a2b (quad left pads : ℕ) : List Char → Except DecodeError (List UInt8)
  | [] =>
    if quad = 0 then .ok []
    else if quad = 1 then .error .oneMoreThanMultipleOfFour
    else .error .incorrectPadding
  | c :: cs =>
    if c = '=' then
      if 2 ≤ quad then
        if 4 ≤ quad + (pads + 1) then .ok [] else a2b quad left (pads + 1) cs
      else a2b quad left pads cs
    else match sextet? c with
      | none => a2b quad left pads cs
      | some d =>
        match quad with
        | 0 => a2b 1 d 0 cs
        | 1 => (a2b 2 (d % 16) 0 cs).map (UInt8.ofNat (left * 4 + d / 16) :: ·)
        | 2 => (a2b 3 (d % 4) 0 cs).map (UInt8.ofNat (left * 16 + d / 4) :: ·)
        | _ => (a2b 0 0 0 cs).map (UInt8.ofNat (left * 64 + d) :: ·)

def isAscii (c : Char) : Bool := c.toNat < 128

def urlsafe_b64decode (text : List Char) : Except DecodeError (List UInt8) :=
  if text.all isAscii then a2b 0 0 0 (text.map ofUrlsafe) else .error .nonAscii

/-- `text.rstrip("=")` -/
def rstrip (text : List Char) : List Char := (text.reverse.dropWhile (· = '=')).reverse

/-- `text + "=" * ((4 - len(text) % 4) % 4)` -/
def repad (text : List Char) : List Char :=
  text ++ List.replicate ((4 - text.length % 4) % 4) '='

/-! ## Letters -/

theorem sextet?_letter {n : ℕ} (hn : n < 64) : sextet? (letter n) = some n := by
  have hall : ∀ n < 64, sextet? (letter n) = some n := by decide
  exact hall n hn

theorem letter_ne_pad {n : ℕ} (hn : n < 64) : letter n ≠ '=' := by
  have hall : ∀ n < 64, letter n ≠ '=' := by decide
  exact hall n hn

theorem ofUrlsafe_toUrlsafe_letter {n : ℕ} (hn : n < 64) :
    ofUrlsafe (toUrlsafe (letter n)) = letter n := by
  have hall : ∀ n < 64, ofUrlsafe (toUrlsafe (letter n)) = letter n := by decide
  exact hall n hn

/-- What an encoded text is made of: no dot, no character outside ASCII. -/
structure Plain (c : Char) : Prop where
  ascii : isAscii c = true
  not_dot : c ≠ '.'
  not_pad : c ≠ '='

theorem letter_plain {n : ℕ} (hn : n < 64) : Plain (toUrlsafe (letter n)) := by
  have hall : ∀ n < 64, isAscii (toUrlsafe (letter n)) = true ∧ toUrlsafe (letter n) ≠ '.' ∧
      toUrlsafe (letter n) ≠ '=' := by decide
  obtain ⟨hascii, hdot, hpad⟩ := hall n hn
  exact ⟨hascii, hdot, hpad⟩

/-! ## Groups of four -/

/-- The letters of an encoded text, without its padding. -/
def sextets : List UInt8 → List ℕ
  | [] => []
  | [a] => [a.toNat / 4, a.toNat % 4 * 16]
  | [a, b] => [a.toNat / 4, a.toNat % 4 * 16 + b.toNat / 16, b.toNat % 16 * 4]
  | a :: b :: c :: bytes => a.toNat / 4 :: (a.toNat % 4 * 16 + b.toNat / 16) ::
      (b.toNat % 16 * 4 + c.toNat / 64) :: c.toNat % 64 :: sextets bytes

theorem sextets_lt (bytes : List UInt8) : ∀ n ∈ sextets bytes, n < 64 := by
  induction bytes using sextets.induct with
  | case1 => simp [sextets]
  | case2 a =>
    have ha := a.toNat_lt
    simp only [sextets, List.mem_cons, List.not_mem_nil, or_false, forall_eq_or_imp, forall_eq]
    omega
  | case3 a b =>
    have ha := a.toNat_lt
    have hb := b.toNat_lt
    simp only [sextets, List.mem_cons, List.not_mem_nil, or_false, forall_eq_or_imp, forall_eq]
    omega
  | case4 a b c bytes ih =>
    have ha := a.toNat_lt
    have hb := b.toNat_lt
    have hc := c.toNat_lt
    simp only [sextets, List.mem_cons, forall_eq_or_imp]
    refine ⟨by omega, by omega, by omega, by omega, ih⟩

/-- The encoder pads the letters to a whole number of groups. -/
theorem b64encode_eq (bytes : List UInt8) :
    b64encode bytes = repad ((sextets bytes).map letter) := by
  induction bytes using sextets.induct with
  | case1 => rfl
  | case2 a => rfl
  | case3 a b => rfl
  | case4 a b c bytes ih =>
    have hlen : ((sextets bytes).length + 1 + 1 + 1 + 1) % 4 = (sextets bytes).length % 4 := by omega
    simp only [b64encode, ih, repad, sextets, List.map_cons, List.length_cons, List.length_map, hlen,
      List.cons_append]

theorem ofNat_eq {n : ℕ} {a : UInt8} (h : n = a.toNat) : UInt8.ofNat n = a := by
  rw [h, UInt8.ofNat_toNat]

section
variable {n : ℕ} (hn : n < 64) (left pads : ℕ) (cs : List Char)
include hn

theorem a2b_first : a2b 0 left pads (letter n :: cs) = a2b 1 n 0 cs := by
  rw [a2b, if_neg (letter_ne_pad hn), sextet?_letter hn]
  rfl

theorem a2b_second {a : UInt8} (ha : left * 4 + n / 16 = a.toNat) :
    a2b 1 left pads (letter n :: cs) = (a2b 2 (n % 16) 0 cs).map (a :: ·) := by
  rw [a2b, if_neg (letter_ne_pad hn), sextet?_letter hn, ← ofNat_eq ha]
  rfl

theorem a2b_third {b : UInt8} (hb : left * 16 + n / 4 = b.toNat) :
    a2b 2 left pads (letter n :: cs) = (a2b 3 (n % 4) 0 cs).map (b :: ·) := by
  rw [a2b, if_neg (letter_ne_pad hn), sextet?_letter hn, ← ofNat_eq hb]
  rfl

theorem a2b_fourth {c : UInt8} (hc : left * 64 + n = c.toNat) :
    a2b 3 left pads (letter n :: cs) = (a2b 0 0 0 cs).map (c :: ·) := by
  rw [a2b, if_neg (letter_ne_pad hn), sextet?_letter hn, ← ofNat_eq hc]
  rfl

end

theorem a2b_b64encode (bytes : List UInt8) : a2b 0 0 0 (b64encode bytes) = .ok bytes := by
  induction bytes using b64encode.induct with
  | case1 => rfl
  | case2 a =>
    have ha := a.toNat_lt
    rw [b64encode, a2b_first (by omega), a2b_second (a := a) (by omega) _ _ _ (by omega)]
    rfl
  | case3 a b =>
    have ha := a.toNat_lt
    have hb := b.toNat_lt
    rw [b64encode, a2b_first (by omega), a2b_second (a := a) (by omega) _ _ _ (by omega),
      a2b_third (b := b) (by omega) _ _ _ (by omega)]
    rfl
  | case4 a b c bytes ih =>
    have ha := a.toNat_lt
    have hb := b.toNat_lt
    have hc := c.toNat_lt
    rw [b64encode, a2b_first (by omega), a2b_second (a := a) (by omega) _ _ _ (by omega),
      a2b_third (b := b) (by omega) _ _ _ (by omega), a2b_fourth (c := c) (by omega) _ _ _ (by omega), ih]
    rfl

/-- The decoder does not see characters outside its alphabet. -/
theorem a2b_skip {c : Char} (hpad : c ≠ '=') (hc : sextet? c = none) (quad left pads : ℕ) (cs : List Char) :
    a2b quad left pads (c :: cs) = a2b quad left pads cs := by
  rw [a2b, if_neg hpad, hc]

theorem urlsafe_b64decode_skip {c : Char} (hascii : isAscii c = true) (hpad : ofUrlsafe c ≠ '=')
    (hc : sextet? (ofUrlsafe c) = none) (text : List Char) :
    urlsafe_b64decode (c :: text) = urlsafe_b64decode text := by
  rw [urlsafe_b64decode, urlsafe_b64decode, List.all_cons, hascii, Bool.true_and, List.map_cons,
    a2b_skip hpad hc]

/-! ## Padding taken away and put back -/

theorem rstrip_repad {text : List Char} (h : ∀ c ∈ text, c ≠ '=') : rstrip (repad text) = text := by
  have hpads : ∀ (n : ℕ) (cs : List Char),
      (List.replicate n '=' ++ cs).dropWhile (· = '=') = cs.dropWhile (· = '=') := by
    intro n cs
    induction n with
    | zero => rfl
    | succ n ih => rw [List.replicate_succ, List.cons_append, List.dropWhile_cons_of_pos (by decide), ih]
  have hkeep : text.reverse.dropWhile (· = '=') = text.reverse := by
    cases hrev : text.reverse with
    | nil => rfl
    | cons c cs =>
      have hc : c ≠ '=' := h c (List.mem_reverse.1 (hrev ▸ List.mem_cons_self))
      rw [List.dropWhile_cons_of_neg (by simpa using hc)]
  rw [rstrip, repad, List.reverse_append, List.reverse_replicate, hpads, hkeep, List.reverse_reverse]

theorem repad_map (f : Char → Char) (hf : f '=' = '=') (text : List Char) :
    (repad text).map f = repad (text.map f) := by
  rw [repad, repad, List.map_append, List.map_replicate, hf, List.length_map]

/-- The letters of an encoded text as they are sent. -/
theorem rstrip_urlsafe_b64encode (bytes : List UInt8) :
    rstrip (urlsafe_b64encode bytes) = (sextets bytes).map (toUrlsafe ∘ letter) := by
  have hpad : ∀ c ∈ (sextets bytes).map (toUrlsafe ∘ letter), c ≠ '=' := by
    intro c hc
    obtain ⟨n, hn, hcn⟩ := List.mem_map.1 hc
    exact hcn ▸ (letter_plain (sextets_lt bytes n hn)).not_pad
  rw [urlsafe_b64encode, b64encode_eq, repad_map _ (by decide), List.map_map, rstrip_repad hpad]

theorem repad_rstrip_urlsafe_b64encode (bytes : List UInt8) :
    repad (rstrip (urlsafe_b64encode bytes)) = urlsafe_b64encode bytes := by
  rw [rstrip_urlsafe_b64encode, urlsafe_b64encode, b64encode_eq, repad_map _ (by decide), List.map_map]

theorem rstrip_urlsafe_b64encode_plain (bytes : List UInt8) :
    ∀ c ∈ rstrip (urlsafe_b64encode bytes), Plain c := by
  intro c hc
  rw [rstrip_urlsafe_b64encode] at hc
  obtain ⟨n, hn, hcn⟩ := List.mem_map.1 hc
  exact hcn ▸ letter_plain (sextets_lt bytes n hn)

theorem urlsafe_b64decode_repad (bytes : List UInt8) :
    urlsafe_b64decode (repad (rstrip (urlsafe_b64encode bytes))) = .ok bytes := by
  have hascii : (repad (rstrip (urlsafe_b64encode bytes))).all isAscii = true := by
    rw [repad, List.all_append, Bool.and_eq_true, List.all_eq_true, List.all_eq_true]
    refine ⟨fun c hc => (rstrip_urlsafe_b64encode_plain bytes c hc).ascii, fun c hc => ?_⟩
    rw [List.eq_of_mem_replicate hc]
    decide
  have hletters : ((sextets bytes).map (toUrlsafe ∘ letter)).map ofUrlsafe =
      (sextets bytes).map letter := by
    rw [List.map_map]
    exact List.map_congr_left fun n hn => ofUrlsafe_toUrlsafe_letter (sextets_lt bytes n hn)
  rw [urlsafe_b64decode, if_pos hascii, repad_map _ (by decide), rstrip_urlsafe_b64encode, hletters,
    ← b64encode_eq, a2b_b64encode]

end Base64
