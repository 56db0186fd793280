import Phyllonix.Base64Texts
import Phyllonix.IsoDateTimes
import Phyllonix.JsonTexts
import Phyllonix.PythonValues

/-!
# Pagination cursors

A cursor names the last product of a page by its creation time and its id, with the time
it was minted, and is signed. The signature is HMAC under the server's secret, a function
of the payload's bytes here.
-/

namespace Phyllonix.Catalog

open JsonText

/-- `str.encode` -/
def encode (text : List Char) : List UInt8 := (String.ofList text).toUTF8.data.toList

/-- `bytes.decode` -/
def decode (bytes : List UInt8) : Option (List Char) :=
  (String.fromUTF8? ⟨bytes.toArray⟩).map String.toList

theorem decode_encode (text : List Char) : decode (encode text) = some text := by
  have hvalid : (String.ofList text).toByteArray.IsValidUTF8 := (String.ofList text).isValidUTF8
  rw [decode, encode, String.toUTF8_eq_toByteArray, Array.toArray_toList, String.fromUTF8?, dif_pos hvalid]
  exact congrArg some String.toList_ofList

theorem encode_injective : Function.Injective encode := fun a b h => by
  have hdecode := decode_encode a
  rw [h, decode_encode] at hdecode
  exact (Option.some.inj hdecode).symm

def sign (hmac : List UInt8 → List UInt8) (payload_bytes : List UInt8) : List Char :=
  Base64.rstrip (Base64.urlsafe_b64encode (hmac payload_bytes))

def payload (now : ℤ) (last_cursor : Iso.DateTime) (last_cursor_id ttl_seconds : ℤ) : Value :=
  .obj [(['t'], .int now), (['t', 't', 'l'], .int ttl_seconds),
    (['s'], .arr [.str last_cursor.isoformat, .str (Numeral.decimal last_cursor_id)])]

def encode_cursor (hmac : List UInt8 → List UInt8) (now : ℤ) (last_cursor : Iso.DateTime)
    (last_cursor_id ttl_seconds : ℤ) : List Char :=
  let raw_bytes := encode (dumps (payload now last_cursor last_cursor_id ttl_seconds))
  Base64.rstrip (Base64.urlsafe_b64encode raw_bytes) ++ '.' :: sign hmac raw_bytes

/-- `token.split(".")` into exactly two parts. -/
def splitToken (token : List Char) : Option (List Char × List Char) :=
  match token.dropWhile (· ≠ '.') with
  | _ :: sig_part => if '.' ∈ sig_part then none else some (token.takeWhile (· ≠ '.'), sig_part)
  | [] => none

def badCursor (detail : String) : AppErr := .http 400 (.str detail)

/-- `hmac.compare_digest` of two texts -/
def compare_digest (a b : List Char) : Except AppErr Bool :=
  if a.all Base64.isAscii ∧ b.all Base64.isAscii then .ok (a = b)
  else .error (.typeError "comparing strings with non-ASCII characters is not supported")

/-- `now - t > max_age`; a float counts with the exact value of its numeral. -/
def olderThan (now max_age : ℤ) : Value → Except AppErr Bool
  | .int t => .ok (max_age < now - t)
  | .bool b => .ok (max_age < now - b.toInt)
  | .real numeral =>
    match real? numeral with
    | some t => .ok ((max_age : ℚ) < now - t)
    | none => .ok (numeral = ['-', 'I', 'n', 'f', 'i', 'n', 'i', 't', 'y'])
  | _ => .error (.typeError "unsupported operand type(s) for -")

/-- `payload.get("t", 0)` -/
def mintedAt : Value → Except AppErr Value
  | .obj fields => .ok ((fields.reverse.lookup ['t']).getD (.int 0))
  | _ => .error .attributeError

/-- `payload["s"]` -/
def position : Value → Except AppErr Value
  | .obj fields =>
    match fields.reverse.lookup ['s'] with
    | some v => .ok v
    | none => .error (.other "'s'")
  | _ => .error (.typeError "indices must be integers or slices, not str")

def unpackTwo : List Value → Except AppErr (Value × Value)
  | [a, b] => .ok (a, b)
  | [] => .error (.other "not enough values to unpack (expected 2, got 0)")
  | [_] => .error (.other "not enough values to unpack (expected 2, got 1)")
  | _ => .error (.other "too many values to unpack (expected 2)")

/-- `a, b = value`: a text unpacks into its characters, an object into its keys. -/
def unpackPair : Value → Except AppErr (Value × Value)
  | .arr vs => unpackTwo vs
  | .str cs => unpackTwo (cs.map fun c => .str [c])
  | .obj fields => unpackTwo ((fields.map Prod.fst).eraseDups.map .str)
  | _ => .error (.typeError "cannot unpack non-iterable object")

def fromisoformat : Value → Except AppErr Iso.DateTime
  | .str s =>
    match Iso.fromisoformat s with
    | some t => .ok t
    | none => .error (.other "Invalid isoformat string")
  | _ => .error (.typeError "fromisoformat: argument must be str")

def checkAge (now : ℤ) (payload : Value) : Option ℤ → Except AppErr Unit
  | none => .ok ()
  | some max_age => do
    let t ← mintedAt payload
    let expired ← olderThan now max_age t
    if expired then .error (badCursor "Cursor expired") else .ok ()

/-- The bytes of the part before the dot, its padding restored. -/
def rawBytes (token_part : List Char) : Except AppErr (List UInt8) :=
  match Base64.urlsafe_b64decode (Base64.repad token_part) with
  | .ok raw => .ok raw
  | .error .nonAscii => .error (.other "string argument should contain only ASCII characters")
  | .error .oneMoreThanMultipleOfFour => .error (.other "Invalid base64-encoded string")
  | .error .incorrectPadding => .error (.other "Incorrect padding")

/-- The payload's bytes when the signature is theirs. -/
def verified (hmac : List UInt8 → List UInt8) (token : List Char) : Except AppErr (List UInt8) := do
  let some (token_part, sig_part) := splitToken token
    | .error (badCursor "Invalid cursor format")
  let raw ← rawBytes token_part
  let genuine ← compare_digest (sign hmac raw) sig_part
  if genuine then .ok raw else .error (badCursor "Cursor signature mismatch")

/-- `json.loads(raw.decode())` -/
def readPayload (raw : List UInt8) : Except AppErr Value := do
  let some text := decode raw | .error (.other "invalid utf-8")
  let some payload := loads text | .error (.other "Expecting value")
  .ok payload

def decode_cursor (hmac : List UInt8 → List UInt8) (now : ℤ) (max_age : Option ℤ) (token : List Char) :
    Except AppErr (Iso.DateTime × Value) := do
  let raw ← verified hmac token
  let payload ← readPayload raw
  checkAge now payload max_age
  let s ← position payload
  let (created_at_iso, id_value) ← unpackPair s
  let created_at ← fromisoformat created_at_iso
  .ok (created_at, id_value)

/-! ## The round trip -/

theorem payload_exact (now : ℤ) (t : Iso.DateTime) (id ttl : ℤ) : Exact (payload now t id ttl) := by
  have hs : Exact (.arr [.str t.isoformat, .str (Numeral.decimal id)]) :=
    .arr (List.forall_mem_cons.2 ⟨.str _, List.forall_mem_cons.2 ⟨.str _, by simp⟩⟩)
  exact .obj (List.forall_mem_cons.2 ⟨.int _, List.forall_mem_cons.2 ⟨.int _,
    List.forall_mem_cons.2 ⟨hs, by simp⟩⟩⟩)

theorem splitToken_append {a b : List Char} (ha : ∀ c ∈ a, c ≠ '.') (hb : ∀ c ∈ b, c ≠ '.') :
    splitToken (a ++ '.' :: b) = some (a, b) := by
  have hpart : ∀ c ∈ a, decide (c ≠ '.') = true := fun c hc => decide_eq_true (ha c hc)
  have hsig : '.' ∉ b := fun hmem => hb '.' hmem rfl
  rw [splitToken, List.dropWhile_append_of_pos hpart, List.dropWhile_cons_of_neg (by decide),
    List.takeWhile_append_of_pos hpart, List.takeWhile_cons_of_neg (by decide), List.append_nil]
  exact if_neg hsig

theorem compare_digest_self {a : List Char} (ha : a.all Base64.isAscii = true) :
    compare_digest a a = .ok true := by
  rw [compare_digest, if_pos ⟨ha, ha⟩, decide_eq_true rfl]

theorem sign_plain (hmac : List UInt8 → List UInt8) (bytes : List UInt8) :
    ∀ c ∈ sign hmac bytes, Base64.Plain c := Base64.rstrip_urlsafe_b64encode_plain _

theorem sign_ascii (hmac : List UInt8 → List UInt8) (bytes : List UInt8) :
    (sign hmac bytes).all Base64.isAscii = true :=
  List.all_eq_true.2 fun c hc => (sign_plain hmac bytes c hc).ascii

section
variable (hmac : List UInt8 → List UInt8) (now : ℤ) (t : Iso.DateTime) (id ttl : ℤ)

theorem splitToken_encode_cursor :
    splitToken (encode_cursor hmac now t id ttl) =
      some (Base64.rstrip (Base64.urlsafe_b64encode (encode (dumps (payload now t id ttl)))),
        sign hmac (encode (dumps (payload now t id ttl)))) :=
  splitToken_append (fun c hc => (Base64.rstrip_urlsafe_b64encode_plain _ c hc).not_dot)
    fun c hc => (sign_plain hmac _ c hc).not_dot

theorem verified_encode_cursor :
    verified hmac (encode_cursor hmac now t id ttl) = .ok (encode (dumps (payload now t id ttl))) := by
  have hraw (bytes : List UInt8) :
      rawBytes (Base64.rstrip (Base64.urlsafe_b64encode bytes)) = .ok bytes := by
    rw [rawBytes, Base64.urlsafe_b64decode_repad]
  rw [verified, splitToken_encode_cursor]
  simp only [bind, Except.bind, hraw, compare_digest_self (sign_ascii _ _), if_true]

theorem readPayload_payload :
    readPayload (encode (dumps (payload now t id ttl))) = .ok (payload now t id ttl) := by
  rw [readPayload, decode_encode]
  simp only [loads_dumps (payload_exact now t id ttl)]

theorem checkAge_payload {later : ℤ} {max_age : Option ℤ} (hage : ∀ m ∈ max_age, later - now ≤ m) :
    checkAge later (payload now t id ttl) max_age = .ok () := by
  cases max_age with
  | none => rfl
  | some m => exact if_neg (by simpa using hage m rfl)

theorem decode_encode_cursor {later : ℤ} {max_age : Option ℤ} (hage : ∀ m ∈ max_age, later - now ≤ m) :
    decode_cursor hmac later max_age (encode_cursor hmac now t id ttl) =
      .ok (t, .str (Numeral.decimal id)) := by
  have hposition : position (payload now t id ttl) =
      .ok (.arr [.str t.isoformat, .str (Numeral.decimal id)]) := rfl
  have hiso : fromisoformat (.str t.isoformat) = .ok t := by
    rw [fromisoformat, Iso.fromisoformat_isoformat]
  rw [decode_cursor, verified_encode_cursor]
  simp only [bind, Except.bind, readPayload_payload, checkAge_payload now t id ttl hage, hposition, unpackPair,
    unpackTwo, hiso]

end

end Phyllonix.Catalog
