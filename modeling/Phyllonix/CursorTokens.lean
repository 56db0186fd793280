import Phyllonix.ProductListing

/-!
# Any token as a cursor

The decoder against arbitrary texts: the cursors that the encoder writes come back as they
were, and what else a token can do. Only the split at the dot is guarded; the base64 reader,
the comparison of signatures and the reading of the payload raise their own exceptions.
-/

namespace Phyllonix.Catalog

open JsonText

/-! ## A cursor comes back -/

theorem encode_cursor_one_dot (hmac : List UInt8 → List UInt8) (now : ℤ) (t : Iso.DateTime) (id ttl : ℤ) :
    (encode_cursor hmac now t id ttl).count '.' = 1 := by
  have hplain {cs : List Char} (hcs : ∀ c ∈ cs, Base64.Plain c) : cs.count '.' = 0 :=
    List.count_eq_zero.2 fun hmem => (hcs '.' hmem).not_dot rfl
  rw [encode_cursor, List.count_append, List.count_cons_self,
    hplain (Base64.rstrip_urlsafe_b64encode_plain _), hplain (sign_plain _ _)]

theorem toInt_decimal (id : ℤ) : toInt (.str (Numeral.decimal id)) = .ok id := by
  rw [toInt, Numeral.integer?_decimal]

/-- Whatever the secret, the date-time and the id, a cursor decoded in time gives both back; it has one dot,
and its payload keeps its length modulo four through the padding. -/
theorem cursor_round_trip (hmac : List UInt8 → List UInt8) (minted read : ℤ) (last_cursor : Iso.DateTime)
    (last_cursor_id ttl_seconds : ℤ) (max_age : Option ℤ) (hage : ∀ m ∈ max_age, read - minted ≤ m) :
    (∃ text, decode_cursor hmac read max_age
          (encode_cursor hmac minted last_cursor last_cursor_id ttl_seconds) = .ok (last_cursor, .str text) ∧
        toInt (.str text) = .ok last_cursor_id) ∧
      (encode_cursor hmac minted last_cursor last_cursor_id ttl_seconds).count '.' = 1 ∧
      ∀ payload_bytes, Base64.repad (Base64.rstrip (Base64.urlsafe_b64encode payload_bytes)) =
        Base64.urlsafe_b64encode payload_bytes :=
  ⟨⟨_, decode_encode_cursor hmac minted last_cursor last_cursor_id ttl_seconds hage, toInt_decimal _⟩,
    encode_cursor_one_dot .., Base64.repad_rstrip_urlsafe_b64encode⟩

/-- The cursor of a listing, followed a day later. -/
theorem cursor_round_trip_firstOfMay :
    (∃ text, decode_cursor (fun _ => List.replicate 32 0) 86400 (some 86400)
          (encode_cursor (fun _ => List.replicate 32 0) 0 (firstOfMay 9) (-7) 3600) =
            .ok (firstOfMay 9, .str text) ∧ toInt (.str text) = .ok (-7)) ∧
      (encode_cursor (fun _ => List.replicate 32 0) 0 (firstOfMay 9) (-7) 3600).count '.' = 1 ∧
      ∀ payload_bytes, Base64.repad (Base64.rstrip (Base64.urlsafe_b64encode payload_bytes)) =
        Base64.urlsafe_b64encode payload_bytes :=
  cursor_round_trip _ 0 86400 (firstOfMay 9) (-7) 3600 (some 86400) (by simp)

/-! ## Exceptions that escape -/

section
variable {α β : Type}

/-- A result, or a refusal that the client is told with status 400. -/
def Graceful (outcome : Except AppErr α) : Prop :=
  ∀ e, outcome = .error e → ∃ detail, e = .http 400 detail

theorem graceful_ok (a : α) : Graceful (.ok a) := fun _ h => nomatch h

theorem graceful_error {e : AppErr} : Graceful (.error e : Except AppErr α) ↔ ∃ detail, e = .http 400 detail :=
  ⟨fun h => h e rfl, fun h _ he => Except.error.inj he ▸ h⟩

/-- What raises no status of its own has to succeed. -/
theorem graceful_bind {x : Except AppErr α} {f : α → Except AppErr β}
    (hx : ∀ detail, x ≠ .error (.http 400 detail)) :
    Graceful (x >>= f) ↔ ∃ a, x = .ok a ∧ Graceful (f a) := by
  cases x with
  | error e =>
    refine ⟨fun h => ?_, fun ⟨_, h, _⟩ => nomatch h⟩
    obtain ⟨detail, rfl⟩ := graceful_error.1 h
    exact absurd rfl (hx detail)
  | ok a => exact ⟨fun h => ⟨a, rfl, h⟩, fun ⟨_, h, hf⟩ => Except.ok.inj h ▸ hf⟩

end

/-! ## The position in a payload -/

def IsIso (text : List Char) : Prop := (Iso.fromisoformat text).isSome = true

/-- A list of an ISO text and another value, or an object whose two keys begin with an ISO text. -/
inductive IsPosition : Value → Prop
  | pair {iso : List Char} (hiso : IsIso iso) (id : Value) : IsPosition (.arr [.str iso, id])
  | keys {iso key : List Char} (hiso : IsIso iso) {entries : List (List Char × Value)}
      (hkeys : (entries.map Prod.fst).eraseDups = [iso, key]) : IsPosition (.obj entries)

theorem unpackTwo_ok {vs : List Value} {p : Value × Value} : unpackTwo vs = .ok p ↔ vs = [p.1, p.2] := by
  rw [unpackTwo.eq_def]
  split <;> grind

theorem unpackTwo_error (vs : List Value) (detail : Json) : unpackTwo vs ≠ .error (.http 400 detail) := by
  rw [unpackTwo.eq_def]
  split <;> simp

/-- `datetime.fromisoformat(a), b` -/
def readPosition (s : Value) : Except AppErr (Iso.DateTime × Value) := do
  let (created_at_iso, id_value) ← unpackPair s
  let created_at ← fromisoformat created_at_iso
  .ok (created_at, id_value)

theorem graceful_fromisoformat {v b : Value} :
    Graceful (do let t ← fromisoformat v; .ok (t, b)) ↔ ∃ iso, v = .str iso ∧ IsIso iso := by
  cases v with
  | str iso =>
    cases hiso : Iso.fromisoformat iso with
    | none => simp [fromisoformat, hiso, IsIso, bind, Except.bind, graceful_error]
    | some t => simp [fromisoformat, hiso, IsIso, bind, Except.bind, graceful_ok]
  | _ => simp [fromisoformat, bind, Except.bind, graceful_error]

theorem graceful_unpackTwo {vs : List Value} :
    Graceful (do
      let (a, b) ← unpackTwo vs
      let t ← fromisoformat a
      .ok (t, b)) ↔ ∃ iso b, vs = [.str iso, b] ∧ IsIso iso := by
  rw [graceful_bind (unpackTwo_error vs)]
  simp only [unpackTwo_ok, graceful_fromisoformat]
  exact ⟨fun ⟨(_, b), hvs, iso, ha, hiso⟩ => ⟨iso, b, ha ▸ hvs, hiso⟩,
    fun ⟨iso, b, hvs, hiso⟩ => ⟨(.str iso, b), hvs, iso, rfl, hiso⟩⟩

/-- One character is no date. -/
theorem not_isIso_singleton (c : Char) : ¬ IsIso [c] := by
  simp [IsIso, Iso.fromisoformat, Numeral.read, Numeral.scan]

theorem graceful_readPosition (s : Value) : Graceful (readPosition s) ↔ IsPosition s := by
  have hscalar {e : AppErr} (he : ∀ detail, e ≠ .http 400 detail) {v : Value}
      (hv : readPosition v = .error e) (hvs : ¬ IsPosition v) : Graceful (readPosition v) ↔ IsPosition v := by
    rw [hv, graceful_error]
    exact ⟨fun ⟨detail, h⟩ => absurd h (he detail), fun h => absurd h hvs⟩
  cases s with
  | arr vs =>
    refine graceful_unpackTwo.trans ⟨fun ⟨iso, b, hvs, hiso⟩ => hvs ▸ .pair hiso b, fun h => ?_⟩
    cases h with
    | pair hiso id => exact ⟨_, id, rfl, hiso⟩
  | str cs =>
    -- the first of two characters would have to be a date
    refine graceful_unpackTwo.trans ⟨fun ⟨iso, b, hcs, hiso⟩ => ?_, fun h => nomatch h⟩
    obtain ⟨c, rest, rfl, hc, -⟩ := List.map_eq_cons_iff.1 hcs
    exact absurd (Value.str.inj hc ▸ hiso) (not_isIso_singleton c)
  | obj entries =>
    refine graceful_unpackTwo.trans ⟨fun ⟨iso, b, hkeys, hiso⟩ => ?_, fun h => ?_⟩
    · obtain ⟨k, rest, hentries, hk, hrest⟩ := List.map_eq_cons_iff.1 hkeys
      obtain ⟨key, rest', hrest', -, hnil⟩ := List.map_eq_cons_iff.1 hrest
      rw [List.map_eq_nil_iff.1 hnil] at hrest'
      exact .keys (Value.str.inj hk ▸ hiso) (hrest' ▸ hentries)
    · cases h with
      | @keys iso key hiso _ hkeys => exact ⟨iso, .str key, by rw [hkeys]; rfl, hiso⟩
  | _ => exact hscalar (by simp) rfl (fun h => nomatch h)

/-! ## The payload -/

variable {now : ℤ} {max_age : Option ℤ}

/-- A value that the clock's seconds are subtracted from. -/
def Numeric : Value → Prop
  | .int _ | .bool _ | .real _ => True
  | _ => False

def Positioned (fields : List (List Char × Value)) : Prop :=
  ∃ s, fields.reverse.lookup ['s'] = some s ∧ IsPosition s

/-- With an age limit the time of minting has to be a number, zero by default; a payload that is too old is
refused before its position is read. -/
def Legible (now : ℤ) (max_age : Option ℤ) (fields : List (List Char × Value)) : Prop :=
  match max_age with
  | none => Positioned fields
  | some m => Numeric ((fields.reverse.lookup ['t']).getD (.int 0)) ∧
    (olderThan now m ((fields.reverse.lookup ['t']).getD (.int 0)) = .ok true ∨ Positioned fields)

/-- The bytes are the text of an object that is legible. -/
def LegibleBytes (now : ℤ) (max_age : Option ℤ) (raw : List UInt8) : Prop :=
  ∃ text fields, decode raw = some text ∧ loads text = some (.obj fields) ∧ Legible now max_age fields

theorem graceful_position (fields : List (List Char × Value)) :
    Graceful (do let s ← position (.obj fields); readPosition s) ↔ Positioned fields := by
  cases hs : fields.reverse.lookup ['s'] with
  | none => simp [position, hs, Positioned, bind, Except.bind, graceful_error]
  | some s => simp [position, hs, Positioned, bind, Except.bind, graceful_readPosition]

theorem olderThan_numeric {v : Value} (hv : Numeric v) (now m : ℤ) : ∃ expired, olderThan now m v = .ok expired := by
  cases v with
  | real numeral =>
    rw [olderThan]
    split <;> exact ⟨_, rfl⟩
  | int _ | bool _ => exact ⟨_, rfl⟩
  | _ => exact hv.elim

/-- The age is checked and the position read. -/
def readFields (now : ℤ) (max_age : Option ℤ) (payload : Value) : Except AppErr (Iso.DateTime × Value) := do
  checkAge now payload max_age
  let s ← position payload
  readPosition s

theorem graceful_readFields (fields : List (List Char × Value)) :
    Graceful (readFields now max_age (.obj fields)) ↔ Legible now max_age fields := by
  cases max_age with
  | none => exact graceful_position fields
  | some m =>
    have hread : readFields now (some m) (.obj fields) = (do
        let expired ← olderThan now m ((fields.reverse.lookup ['t']).getD (.int 0))
        if expired then .error (badCursor "Cursor expired")
        else do let s ← position (.obj fields); readPosition s) := by
      simp only [readFields, checkAge, mintedAt, bind, Except.bind]
      cases olderThan now m ((fields.reverse.lookup ['t']).getD (.int 0)) with
      | error e => rfl
      | ok expired => cases expired <;> rfl
    rw [hread, Legible]
    by_cases hnum : Numeric ((fields.reverse.lookup ['t']).getD (.int 0))
    · obtain ⟨expired, hexpired⟩ := olderThan_numeric hnum now m
      rw [hexpired]
      cases expired with
      | true => simp [bind, Except.bind, graceful_error, badCursor, hnum]
      | false => simpa [bind, Except.bind, hnum] using graceful_position fields
    · refine ⟨fun h => ?_, fun h => absurd h.1 hnum⟩
      generalize (fields.reverse.lookup ['t']).getD (.int 0) = v at h hnum
      cases v with
      | int _ | bool _ | real _ => exact absurd trivial hnum
      | _ =>
        obtain ⟨detail, hdetail⟩ := graceful_error.1 h
        cases hdetail

theorem not_graceful_readFields {payload : Value} (hpayload : ∀ fields, payload ≠ .obj fields) :
    ¬ Graceful (readFields now max_age payload) := by
  intro h
  cases payload with
  | obj fields => exact hpayload fields rfl
  | _ =>
    cases max_age with
    | none | some _ =>
      obtain ⟨detail, hdetail⟩ := graceful_error.1 h
      cases hdetail

theorem readPayload_ok {raw : List UInt8} {v : Value} :
    readPayload raw = .ok v ↔ ∃ text, decode raw = some text ∧ loads text = some v := by
  rw [readPayload]
  split
  · split <;> simp_all
  · simp_all

theorem readPayload_error (raw : List UInt8) (detail : Json) :
    readPayload raw ≠ .error (.http 400 detail) := by
  rw [readPayload]
  split
  · split <;> simp
  · simp

theorem graceful_readPayload (raw : List UInt8) :
    Graceful (do let payload ← readPayload raw; readFields now max_age payload) ↔
      LegibleBytes now max_age raw := by
  rw [graceful_bind (readPayload_error raw)]
  refine ⟨fun ⟨v, hv, h⟩ => ?_, fun ⟨text, fields, htext, hfields, h⟩ =>
    ⟨.obj fields, readPayload_ok.2 ⟨text, htext, hfields⟩, (graceful_readFields fields).2 h⟩⟩
  obtain ⟨text, htext, hloads⟩ := readPayload_ok.1 hv
  by_cases hobj : ∃ fields, v = .obj fields
  · obtain ⟨fields, rfl⟩ := hobj
    exact ⟨text, fields, htext, hloads, (graceful_readFields fields).1 h⟩
  · exact absurd h (not_graceful_readFields fun fields heq => hobj ⟨fields, heq⟩)

/-! ## The parts of a token -/

variable {hmac : List UInt8 → List UInt8} {token : List Char} {raw : List UInt8}

theorem rawBytes_ok {token_part : List Char} :
    rawBytes token_part = .ok raw ↔ Base64.urlsafe_b64decode (Base64.repad token_part) = .ok raw := by
  rw [rawBytes]
  split <;> simp [*]

theorem rawBytes_error (token_part : List Char) (detail : Json) :
    rawBytes token_part ≠ .error (.http 400 detail) := by
  rw [rawBytes]
  split <;> simp

/-- The token has two parts: the first decodes to the bytes, the second can be compared with a signature. -/
def Parts (token : List Char) (raw : List UInt8) (sig_part : List Char) : Prop :=
  ∃ token_part, splitToken token = some (token_part, sig_part) ∧
    Base64.urlsafe_b64decode (Base64.repad token_part) = .ok raw ∧ sig_part.all Base64.isAscii = true

/-- The comparison of a signature, and what is done with bytes that carry theirs. -/
def checkSignature {α : Type} (hmac : List UInt8 → List UInt8) (sig_part : List Char) (raw : List UInt8)
    (k : List UInt8 → Except AppErr α) : Except AppErr α := do
  let genuine ← compare_digest (sign hmac raw) sig_part
  if genuine then k raw else .error (badCursor "Cursor signature mismatch")

theorem graceful_checkSignature {α : Type} {sig_part : List Char} {k : List UInt8 → Except AppErr α} :
    Graceful (checkSignature hmac sig_part raw k) ↔
      sig_part.all Base64.isAscii = true ∧ (sign hmac raw = sig_part → Graceful (k raw)) := by
  by_cases hascii : sig_part.all Base64.isAscii = true
  · rw [checkSignature, compare_digest, if_pos ⟨sign_ascii hmac raw, hascii⟩]
    by_cases hsig : sign hmac raw = sig_part
    · simp [bind, Except.bind, hsig, hascii]
    · simp [bind, Except.bind, hsig, hascii, graceful_error, badCursor]
  · rw [checkSignature, compare_digest, if_neg fun h => hascii h.2]
    simp [bind, Except.bind, graceful_error, hascii]

theorem checkSignature_ok {sig_part : List Char} {bytes : List UInt8} :
    checkSignature hmac sig_part bytes .ok = .ok raw ↔ bytes = raw ∧ sig_part = sign hmac raw := by
  by_cases hascii : sig_part.all Base64.isAscii = true
  · rw [checkSignature, compare_digest, if_pos ⟨sign_ascii hmac bytes, hascii⟩]
    by_cases hsig : sign hmac bytes = sig_part
    · simp only [bind, Except.bind, hsig, decide_true, if_true, Except.ok.injEq]
      exact ⟨fun h => ⟨h, h ▸ hsig.symm⟩, And.left⟩
    · simp only [bind, Except.bind, hsig, decide_false, Bool.false_eq_true, if_false, reduceCtorEq, false_iff]
      intro h
      exact hsig (h.1 ▸ h.2.symm)
  · rw [checkSignature, compare_digest, if_neg fun h => hascii h.2]
    simp only [bind, Except.bind, reduceCtorEq, false_iff]
    intro h
    exact hascii (h.2 ▸ sign_ascii hmac raw)

theorem decode_cursor_none (hsplit : splitToken token = none) :
    decode_cursor hmac now max_age token = .error (badCursor "Invalid cursor format") := by
  rw [decode_cursor, verified, hsplit]
  rfl

theorem decode_cursor_some {token_part sig_part : List Char}
    (hsplit : splitToken token = some (token_part, sig_part)) :
    decode_cursor hmac now max_age token = (do
      let raw ← rawBytes token_part
      checkSignature hmac sig_part raw fun raw => do
        let payload ← readPayload raw
        readFields now max_age payload) := by
  rw [decode_cursor, verified, hsplit]
  simp only [bind, Except.bind]
  cases rawBytes token_part with
  | error e => rfl
  | ok raw =>
    simp only [checkSignature, bind, Except.bind]
    cases compare_digest (sign hmac raw) sig_part with
    | error e => rfl
    | ok genuine => cases genuine <;> rfl

section
variable {t ttl id : ℤ} {dt : Iso.DateTime}

theorem verified_some {token_part sig_part : List Char}
    (hsplit : splitToken token = some (token_part, sig_part)) :
    verified hmac token = (rawBytes token_part).bind fun raw => checkSignature hmac sig_part raw .ok := by
  rw [verified, hsplit]
  rfl

theorem verified_ok : verified hmac token = .ok raw ↔ Parts token raw (sign hmac raw) := by
  constructor
  · intro h
    cases hsplit : splitToken token with
    | none =>
      rw [verified, hsplit] at h
      cases h
    | some parts =>
      obtain ⟨token_part, sig_part⟩ := parts
      rw [verified_some hsplit] at h
      cases hraw : rawBytes token_part with
      | error e =>
        rw [hraw] at h
        cases h
      | ok bytes =>
        rw [hraw] at h
        obtain ⟨rfl, rfl⟩ := checkSignature_ok.1 h
        exact ⟨token_part, hsplit, rawBytes_ok.1 hraw, sign_ascii hmac bytes⟩
  · intro h
    obtain ⟨token_part, hsplit, hraw, -⟩ := h
    rw [verified_some hsplit, rawBytes_ok.2 hraw]
    exact checkSignature_ok.2 ⟨rfl, rfl⟩

/-- The bytes that the encoder signs. -/
def rawCursor (t : ℤ) (dt : Iso.DateTime) (id ttl : ℤ) : List UInt8 := encode (dumps (payload t dt id ttl))

/-- The token decodes to the payload of a cursor and has its signature. -/
def Carries (hmac : List UInt8 → List UInt8) (token : List Char) (t : ℤ) (dt : Iso.DateTime) (id ttl : ℤ) : Prop :=
  Parts token (rawCursor t dt id ttl) (sign hmac (rawCursor t dt id ttl))

/-- A signature verifies for bytes that the encoder signed only. -/
def Unforged (hmac : List UInt8 → List UInt8) (token : List Char) : Prop :=
  ∀ raw, Parts token raw (sign hmac raw) → ∃ t dt id ttl, raw = rawCursor t dt id ttl

theorem rawCursor_inj {t' ttl' id' : ℤ} {dt' : Iso.DateTime}
    (h : rawCursor t dt id ttl = rawCursor t' dt' id' ttl') : t = t' ∧ dt = dt' ∧ id = id' ∧ ttl = ttl' := by
  have hread := readPayload_payload t dt id ttl
  rw [← rawCursor, h, rawCursor, readPayload_payload] at hread
  simp only [payload, Except.ok.injEq, Value.obj.injEq, List.cons.injEq, Prod.mk.injEq, Value.int.injEq,
    Value.arr.injEq, Value.str.injEq, true_and, and_true] at hread
  obtain ⟨ht, httl, hdt, hid⟩ := hread
  exact ⟨ht.symm, Iso.isoformat_injective hdt.symm, Numeral.decimal_injective hid.symm, httl.symm⟩

theorem encode_cursor_parts : encode_cursor hmac t dt id ttl =
    Base64.rstrip (Base64.urlsafe_b64encode (rawCursor t dt id ttl)) ++ '.' ::
      sign hmac (rawCursor t dt id ttl) := rfl

theorem carries_encode_cursor : Carries hmac (encode_cursor hmac t dt id ttl) t dt id ttl :=
  verified_ok.1 (verified_encode_cursor hmac t dt id ttl)

/-- The decoder sees the bytes of a token, not its spelling. -/
theorem Carries.decode (h : Carries hmac token t dt id ttl) :
    decode_cursor hmac now max_age token = decode_cursor hmac now max_age (encode_cursor hmac t dt id ttl) := by
  rw [decode_cursor, decode_cursor, verified_ok.2 h, verified_ok.2 carries_encode_cursor]

theorem Carries.unique {t' ttl' id' : ℤ} {dt' : Iso.DateTime} (h : Carries hmac token t dt id ttl)
    (h' : Carries hmac token t' dt' id' ttl') : t = t' ∧ dt = dt' ∧ id = id' ∧ ttl = ttl' :=
  rawCursor_inj (Except.ok.inj ((verified_ok.2 h).symm.trans (verified_ok.2 h')))

theorem Carries.minted {t' ttl' id' : ℤ} {dt' : Iso.DateTime} (h : Carries hmac token t dt id ttl)
    (htoken : token = encode_cursor hmac t' dt' id' ttl') : t = t' ∧ dt = dt' ∧ id = id' ∧ ttl = ttl' := by
  rw [htoken] at h
  exact h.unique carries_encode_cursor

theorem Carries.unforged (h : Carries hmac token t dt id ttl) : Unforged hmac token := by
  intro raw hraw
  exact ⟨t, dt, id, ttl, Except.ok.inj ((verified_ok.2 hraw).symm.trans (verified_ok.2 h))⟩

theorem Carries.fresh {m : ℤ} (h : Carries hmac token t dt id ttl) {p : Iso.DateTime × Value}
    (hp : decode_cursor hmac now (some m) token = .ok p) : now - t ≤ m := by
  by_contra hold
  have hstale : checkAge now (payload t dt id ttl) (some m) = .error (badCursor "Cursor expired") :=
    if_pos (by simpa using not_le.1 hold)
  rw [decode_cursor, verified_ok.2 h] at hp
  simp only [bind, Except.bind, rawCursor, readPayload_payload, hstale, reduceCtorEq] at hp

/-- The tokens that a position is given for are the encoder's own, each for as long as both limits allow. -/
def ExactlyMinted (hmac : List UInt8 → List UInt8) (now max_age : ℤ) (token : List Char) : Prop :=
  ∀ (dt : Iso.DateTime) (id_value : Value), decode_cursor hmac now (some max_age) token = .ok (dt, id_value) ↔
    ∃ id t ttl_seconds : ℤ, id_value = .str (Numeral.decimal id) ∧
      token = encode_cursor hmac t dt id ttl_seconds ∧ now - t ≤ min ttl_seconds max_age

theorem decode_cursor_fresh {max_age : ℤ} (hage : now - t ≤ max_age) :
    decode_cursor hmac now (some max_age) (encode_cursor hmac t dt id ttl) =
      .ok (dt, .str (Numeral.decimal id)) :=
  decode_encode_cursor hmac t dt id ttl fun _ hm => Option.some.inj hm ▸ hage

theorem ExactlyMinted.carried {max_age : ℤ} (h : ExactlyMinted hmac now max_age token)
    (hcarries : Carries hmac token t dt id ttl) (hage : now - t ≤ max_age) :
    token = encode_cursor hmac t dt id ttl ∧ now - t ≤ ttl := by
  obtain ⟨id', t', ttl', -, htoken, hlife⟩ := (h dt _).1 (hcarries.decode.trans (decode_cursor_fresh hage))
  obtain ⟨rfl, -, rfl, rfl⟩ := hcarries.minted htoken
  exact ⟨htoken, hlife.trans (min_le_left _ _)⟩

theorem exactlyMinted_iff (hmac : List UInt8 → List UInt8) (now max_age : ℤ) (token : List Char)
    (hunforged : Unforged hmac token) :
    ExactlyMinted hmac now max_age token ↔ ∀ (t : ℤ) (dt : Iso.DateTime) (id ttl_seconds : ℤ),
      Carries hmac token t dt id ttl_seconds → now - t ≤ max_age →
        token = encode_cursor hmac t dt id ttl_seconds ∧ now - t ≤ ttl_seconds := by
  constructor
  · exact fun h t dt id ttl hcarries hage => h.carried hcarries hage
  · intro h dt id_value
    constructor
    · intro hdecode
      obtain ⟨raw, hraw⟩ : ∃ raw, verified hmac token = .ok raw := by
        rw [decode_cursor] at hdecode
        cases hv : verified hmac token with
        | error e => rw [hv] at hdecode; cases hdecode
        | ok raw => exact ⟨raw, rfl⟩
      obtain ⟨t, dt', id, ttl, rfl⟩ := hunforged raw (verified_ok.1 hraw)
      have hcarries : Carries hmac token t dt' id ttl := verified_ok.1 hraw
      have hage := hcarries.fresh hdecode
      obtain ⟨htoken, hlife⟩ := h t dt' id ttl hcarries hage
      have hpair := hdecode.symm.trans (hcarries.decode.trans (decode_cursor_fresh hage))
      obtain ⟨rfl, rfl⟩ := Prod.mk.inj (Except.ok.inj hpair)
      exact ⟨id, t, ttl, rfl, htoken, le_min hlife hage⟩
    · intro h
      obtain ⟨id, t, ttl, hid, htoken, hlife⟩ := h
      rw [hid, htoken]
      exact decode_cursor_fresh (hlife.trans (min_le_right _ _))

/-- A cursor of the listing, two hours old. -/
theorem exactlyMinted_iff_firstOfMay :
    ExactlyMinted (fun _ => List.replicate 32 0) 7200 86400
        (encode_cursor (fun _ => List.replicate 32 0) 0 (firstOfMay 9) 3 3600) ↔
      ∀ (t : ℤ) (dt : Iso.DateTime) (id ttl_seconds : ℤ),
        Carries (fun _ => List.replicate 32 0)
          (encode_cursor (fun _ => List.replicate 32 0) 0 (firstOfMay 9) 3 3600) t dt id ttl_seconds →
        7200 - t ≤ 86400 →
          encode_cursor (fun _ => List.replicate 32 0) 0 (firstOfMay 9) 3 3600 =
            encode_cursor (fun _ => List.replicate 32 0) t dt id ttl_seconds ∧ 7200 - t ≤ ttl_seconds :=
  exactlyMinted_iff _ 7200 86400 _ carries_encode_cursor.unforged

/-- A cursor past its own time to live is still taken while it is within the age limit. -/
theorem not_exactlyMinted_outlived {max_age : ℤ} (httl : ttl < now - t) (hage : now - t ≤ max_age) :
    ¬ ExactlyMinted hmac now max_age (encode_cursor hmac t dt id ttl) := by
  intro h
  exact absurd (h.carried carries_encode_cursor hage).2 (not_le.2 httl)

/-- The same cursor in another spelling: the base64 reader skips four characters outside its alphabet. -/
theorem carries_respelled :
    Carries hmac ('!' :: '!' :: '!' :: '!' :: encode_cursor hmac t dt id ttl) t dt id ttl := by
  rw [encode_cursor_parts, ← List.cons_append, ← List.cons_append, ← List.cons_append, ← List.cons_append]
  generalize hpart : Base64.rstrip (Base64.urlsafe_b64encode (rawCursor t dt id ttl)) = token_part
  have hplain : ∀ c ∈ token_part, Base64.Plain c := hpart ▸ Base64.rstrip_urlsafe_b64encode_plain _
  have hdot : ∀ c ∈ '!' :: '!' :: '!' :: '!' :: token_part, c ≠ '.' := by
    simpa using fun c hc => (hplain c hc).not_dot
  have hlen : (token_part.length + 1 + 1 + 1 + 1) % 4 = token_part.length % 4 := by omega
  have hpad : Base64.repad ('!' :: '!' :: '!' :: '!' :: token_part) =
      '!' :: '!' :: '!' :: '!' :: Base64.repad token_part := by
    simp only [Base64.repad, List.length_cons, hlen, List.cons_append]
  have hskip (text : List Char) :
      Base64.urlsafe_b64decode ('!' :: text) = Base64.urlsafe_b64decode text :=
    Base64.urlsafe_b64decode_skip (by decide) (by decide) (by decide) text
  refine ⟨_, splitToken_append hdot fun c hc => (sign_plain hmac _ c hc).not_dot, ?_, sign_ascii hmac _⟩
  rw [hpad, hskip, hskip, hskip, hskip, ← hpart, Base64.urlsafe_b64decode_repad]

theorem not_exactlyMinted_respelled {max_age : ℤ} (hage : now - t ≤ max_age) :
    ¬ ExactlyMinted hmac now max_age ('!' :: '!' :: '!' :: '!' :: encode_cursor hmac t dt id ttl) := by
  intro h
  have hlen := congrArg List.length (h.carried carries_respelled hage).1
  simp only [List.length_cons] at hlen
  omega

/-- The listing mints its cursors for an hour and takes them for a day. -/
theorem not_exactlyMinted :
    ¬ ∀ (hmac : List UInt8 → List UInt8) (now max_age : ℤ) (token : List Char),
      Unforged hmac token → ExactlyMinted hmac now max_age token := by
  intro h
  have hold : ¬ ExactlyMinted (fun _ => []) 7200 (24 * 3600)
      (encode_cursor (fun _ => []) 0 (firstOfMay 9) 3 3600) :=
    not_exactlyMinted_outlived (by decide) (by decide)
  exact hold (h _ _ _ _ carries_encode_cursor.unforged)

end

end Phyllonix.Catalog
