import Phyllonix.OrderPricing
import Mathlib.Data.Int.ModEq
import Mathlib.Data.Nat.Digits.Defs

/-!
# Advisory lock keys

The lock key of an idempotency key is the balanced residue modulo 2^64 of eight bytes
of a digest, read as a big-endian number.
-/

namespace Phyllonix

theorem foldl_bytes (v : ℕ) (bs : List UInt8) :
    bs.foldl (fun v b => v * 256 + b.toNat) v =
      v * 256 ^ bs.length + Nat.ofDigits 256 (bs.reverse.map UInt8.toNat) := by
  induction bs generalizing v with
  | nil => simp
  | cons b bs ih =>
    rw [List.foldl_cons, ih, List.reverse_cons, List.map_append, Nat.ofDigits_append, List.length_map,
      List.length_reverse, List.map_singleton, Nat.ofDigits_singleton, List.length_cons]
    ring

theorem fromBytesBig_eq_ofDigits (bs : List UInt8) :
    fromBytesBig bs = Nat.ofDigits 256 (bs.reverse.map UInt8.toNat) := by
  rw [fromBytesBig, foldl_bytes, Nat.zero_mul, Nat.zero_add]

theorem byte_lt {bs : List UInt8} {d : ℕ} (hd : d ∈ bs.reverse.map UInt8.toNat) : d < 256 := by
  obtain ⟨b, -, rfl⟩ := List.mem_map.1 hd
  exact b.toNat_lt

theorem fromBytesBig_lt (bs : List UInt8) : fromBytesBig bs < 256 ^ bs.length := by
  have hlt := Nat.ofDigits_lt_base_pow_length (by decide) fun d (hd : d ∈ bs.reverse.map UInt8.toNat) => byte_lt hd
  rwa [← fromBytesBig_eq_ofDigits, List.length_map, List.length_reverse] at hlt

theorem fromBytesBig_inj {bs bs' : List UInt8} (hlength : bs.length = bs'.length) :
    fromBytesBig bs = fromBytesBig bs' ↔ bs = bs' := by
  refine ⟨fun h => ?_, fun h => by rw [h]⟩
  rw [fromBytesBig_eq_ofDigits, fromBytesBig_eq_ofDigits] at h
  have hmap : bs.reverse.map UInt8.toNat = bs'.reverse.map UInt8.toNat :=
    Nat.ofDigits_inj_of_len_eq (by decide) (by simpa using hlength) (fun d hd => byte_lt hd) (fun d hd => byte_lt hd) h
  exact List.reverse_injective (List.map_injective_iff.2 (fun _ _ => UInt8.toNat_inj.1) hmap)

section Digests
variable {lib : Lib} {ikey ikey' : String}

theorem length_take_digest (hdigest : (lib.sha256 ikey).length = 32) : ((lib.sha256 ikey).take 8).length = 8 := by
  rw [List.length_take, hdigest]
  rfl

/-- The subtraction of 2^64 makes the residue balanced, with -2^63 and not 2^63 in the range. -/
theorem idempotencyLockKey_eq_bmod (hdigest : (lib.sha256 ikey).length = 32) :
    idempotencyLockKey lib ikey = Int.bmod (fromBytesBig ((lib.sha256 ikey).take 8)) (2 ^ 64) := by
  have hlt := fromBytesBig_lt ((lib.sha256 ikey).take 8)
  rw [length_take_digest hdigest] at hlt
  dsimp only [idempotencyLockKey]
  generalize fromBytesBig ((lib.sha256 ikey).take 8) = n at hlt
  have hn : (n : ℤ) % (2 ^ 64 : ℕ) = n := Int.emod_eq_of_lt (by omega) (by omega)
  rw [Int.bmod_def, hn]
  split <;> split <;> omega

theorem idempotencyLockKey_range (hdigest : (lib.sha256 ikey).length = 32) :
    -2 ^ 63 ≤ idempotencyLockKey lib ikey ∧ idempotencyLockKey lib ikey ≤ 2 ^ 63 - 1 := by
  rw [idempotencyLockKey_eq_bmod hdigest]
  exact ⟨Int.le_bmod (by decide), Int.bmod_le (by decide)⟩

theorem idempotencyLockKey_modEq (hdigest : (lib.sha256 ikey).length = 32) :
    idempotencyLockKey lib ikey ≡ fromBytesBig ((lib.sha256 ikey).take 8) [ZMOD 2 ^ 64] := by
  rw [idempotencyLockKey_eq_bmod hdigest]
  exact Int.bmod_emod

/-- Both sides are below 2^64, so equal residues are equal numbers, and these are equal bytes. -/
theorem idempotencyLockKey_inj (h : (lib.sha256 ikey).length = 32) (h' : (lib.sha256 ikey').length = 32) :
    idempotencyLockKey lib ikey = idempotencyLockKey lib ikey' ↔
      (lib.sha256 ikey).take 8 = (lib.sha256 ikey').take 8 := by
  have hlt := fromBytesBig_lt ((lib.sha256 ikey).take 8)
  have hlt' := fromBytesBig_lt ((lib.sha256 ikey').take 8)
  rw [length_take_digest h] at hlt
  rw [length_take_digest h'] at hlt'
  rw [← fromBytesBig_inj ((length_take_digest h).trans (length_take_digest h').symm)]
  refine ⟨fun hkey => ?_, fun hbytes => ?_⟩
  · have hmod := (idempotencyLockKey_modEq h).symm.trans (hkey ▸ idempotencyLockKey_modEq h')
    have heq := hmod.eq
    rw [Int.emod_eq_of_lt (by omega) (by omega), Int.emod_eq_of_lt (by omega) (by omega)] at heq
    exact Int.ofNat.inj heq
  · rw [idempotencyLockKey_eq_bmod h, idempotencyLockKey_eq_bmod h', hbytes]

end Digests

theorem idempotencyLockKey_signed64 (lib : Lib) (hdigest : ∀ ikey, (lib.sha256 ikey).length = 32)
    (ikey ikey' : String) :
    (-2 ^ 63 ≤ idempotencyLockKey lib ikey ∧ idempotencyLockKey lib ikey ≤ 2 ^ 63 - 1) ∧
      idempotencyLockKey lib ikey ≡ fromBytesBig ((lib.sha256 ikey).take 8) [ZMOD 2 ^ 64] ∧
      (idempotencyLockKey lib ikey = idempotencyLockKey lib ikey' ↔
        (lib.sha256 ikey).take 8 = (lib.sha256 ikey').take 8) :=
  ⟨idempotencyLockKey_range (hdigest ikey), idempotencyLockKey_modEq (hdigest ikey),
    idempotencyLockKey_inj (hdigest ikey) (hdigest ikey')⟩

/-- The digests of two keys, one on each side of 2^63. -/
def digestLib : Lib where
  twoPercent := plainLib.twoPercent
  sha256 ikey :=
    if ikey = "abc" then
      [186, 120, 22, 191, 143, 1, 207, 234, 65, 65, 64, 222, 93, 174, 34, 35,
        176, 3, 97, 163, 150, 23, 122, 156, 180, 16, 255, 97, 242, 0, 21, 173]
    else
      [11, 175, 226, 33, 86, 210, 105, 140, 20, 59, 134, 4, 4, 70, 211, 102,
        234, 216, 99, 186, 96, 13, 92, 146, 79, 61, 21, 199, 134, 239, 64, 87]
  hmacHex := plainLib.hmacHex
  jsonText := plainLib.jsonText

theorem length_digestLib (ikey : String) : (digestLib.sha256 ikey).length = 32 := by
  simp only [digestLib]
  split <;> rfl

theorem idempotencyLockKey_signed64_abc :
    (-2 ^ 63 ≤ idempotencyLockKey digestLib "abc" ∧ idempotencyLockKey digestLib "abc" ≤ 2 ^ 63 - 1) ∧
      idempotencyLockKey digestLib "abc" ≡ fromBytesBig ((digestLib.sha256 "abc").take 8) [ZMOD 2 ^ 64] ∧
      (idempotencyLockKey digestLib "abc" = idempotencyLockKey digestLib "order-1" ↔
        (digestLib.sha256 "abc").take 8 = (digestLib.sha256 "order-1").take 8) :=
  idempotencyLockKey_signed64 digestLib length_digestLib "abc" "order-1"

end Phyllonix
