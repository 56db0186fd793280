import Mathlib.Data.Int.ConditionallyCompleteOrder
import Mathlib.Order.ConditionallyCompleteLattice.Basic
import Phyllonix.DetailCache

/-!
# Versions in the cache of product details

The script that stores a product's payload compares the seconds of the versions, and keeps the
last of those written for the latest second. The cache's own calls hand it a dictionary, which
the client refuses, and store nothing.
-/

namespace Phyllonix.Cache.Detail

open JsonText

/-! ## What the script keeps -/

/-- A payload and the seconds of its version. -/
abbrev Stamped := Bytes × ℤ

/-- The one that stays: a write takes the place of one that is not newer. -/
def kept : Option Stamped → Stamped → Stamped
  | none, new => new
  | some cur, new => if cur.2 ≤ new.2 then new else cur

/-- The script for one payload after the other. -/
def storeAll (now : ℤ) (value_key ver_key : String) (ttl : ℤ) : Keys → List Stamped → Except AppErr Keys
  | keys, [] => .ok keys
  | keys, new :: rest => do
    let (_, keys) ← setIfNewerLua keys now value_key ver_key new.1
      (Catalog.encode (Numeral.decimal new.2)) (Catalog.encode (Numeral.decimal ttl))
    storeAll now value_key ver_key ttl keys rest

/-- What stands under the two keys. -/
def Stands (keys : Keys) (now : ℤ) (value_key ver_key : String) : Option Stamped → Prop
  | none => keys.get now ver_key = none
  | some cur => keys.get now value_key = some cur.1 ∧
    keys.get now ver_key = some (Catalog.encode (Numeral.decimal cur.2))

theorem tonumber_decimal (n : ℤ) : tonumber (Catalog.encode (Numeral.decimal n)) = .ok n := by
  rw [tonumber, Catalog.decode_encode, Option.bind_some, Numeral.integer?_decimal]

theorem Keys.get_set {keys keys' : Keys} {now ex : ℤ} {key : String} {value : Bytes}
    (h : keys.set now key value ex = .ok keys') : keys'.get now key = some value := by
  rw [Keys.set] at h
  split at h
  next hex =>
    cases h
    have hlive : now < now + 1000 * ex := by omega
    simp [Keys.get, hlive]
  next => cases h

theorem Keys.get_congr {keys keys' : Keys} {key : String} (h : keys' key = keys key) (now : ℤ) :
    keys'.get now key = keys.get now key := by
  rw [Keys.get, Keys.get, h]

section
variable {now ttl : ℤ} {value_key ver_key : String}

theorem setIfNewerLua_stands {keys : Keys} {cur : Option Stamped} (hkeys : value_key ≠ ver_key) (httl : 0 < ttl)
    (hcur : Stands keys now value_key ver_key cur) {new : Stamped} (hnew : 0 ≤ new.2) :
    ∃ r keys', setIfNewerLua keys now value_key ver_key new.1 (Catalog.encode (Numeral.decimal new.2))
        (Catalog.encode (Numeral.decimal ttl)) = .ok (r, keys') ∧
      Stands keys' now value_key ver_key (some (kept cur new)) := by
  have hset (keys : Keys) (key : String) (value : Bytes) : ∃ keys', keys.set now key value ttl = .ok keys' :=
    ⟨_, if_pos httl⟩
  obtain ⟨keys₁, hkeys₁⟩ := hset keys value_key new.1
  obtain ⟨keys₂, hkeys₂⟩ := hset keys₁ ver_key (Catalog.encode (Numeral.decimal new.2))
  have hstored : Stands keys₂ now value_key ver_key (some new) :=
    ⟨(Keys.get_congr (Keys.set_other hkeys₂ (Ne.symm hkeys)) now).trans (Keys.get_set hkeys₁), Keys.get_set hkeys₂⟩
  have hrun {curv : ℤ} (hver : tonumber ((keys.get now ver_key).getD (Catalog.encode ['0'])) = .ok curv) :
      setIfNewerLua keys now value_key ver_key new.1 (Catalog.encode (Numeral.decimal new.2))
        (Catalog.encode (Numeral.decimal ttl)) = if curv ≤ new.2 then .ok (1, keys₂) else .ok (0, keys) := by
    simp only [setIfNewerLua, tonumber_decimal, hver, bind, Except.bind, hkeys₁, hkeys₂]
  cases cur with
  | none =>
    have hver : tonumber ((keys.get now ver_key).getD (Catalog.encode ['0'])) = .ok 0 := by
      rw [show keys.get now ver_key = none from hcur]
      exact tonumber_decimal 0
    rw [hrun hver, if_pos hnew]
    exact ⟨_, _, rfl, hstored⟩
  | some cur =>
    have hver : tonumber ((keys.get now ver_key).getD (Catalog.encode ['0'])) = .ok cur.2 := by
      rw [hcur.2]
      exact tonumber_decimal cur.2
    rw [hrun hver, kept]
    split
    · exact ⟨_, _, rfl, hstored⟩
    · exact ⟨_, _, rfl, hcur⟩

/-- With its arguments accepted, the script leaves the last payload among those of the latest second. -/
theorem storeAll_stands (hkeys : value_key ≠ ver_key) (httl : 0 < ttl) {calls : List Stamped}
    (hcalls : ∀ new ∈ calls, 0 ≤ new.2) {keys : Keys} {cur : Option Stamped}
    (hcur : Stands keys now value_key ver_key cur) :
    ∃ keys', storeAll now value_key ver_key ttl keys calls = .ok keys' ∧
      Stands keys' now value_key ver_key (calls.foldl (fun cur new => some (kept cur new)) cur) := by
  induction calls generalizing keys cur with
  | nil => exact ⟨keys, rfl, hcur⟩
  | cons new rest ih =>
    obtain ⟨hnew, hrest⟩ := List.forall_mem_cons.1 hcalls
    obtain ⟨r, keys₁, hrun, hnext⟩ := setIfNewerLua_stands hkeys httl hcur hnew
    obtain ⟨keys', hall, hstands⟩ := ih hrest hnext
    exact ⟨keys', by rw [storeAll, hrun]; exact hall, hstands⟩

end

/-- Which payload that is: none before it has a later second, and none after it one as late. -/
theorem foldl_kept {calls : List Stamped} (hne : calls ≠ []) :
    ∃ front last back, calls = front ++ last :: back ∧ (∀ x ∈ front, x.2 ≤ last.2) ∧ (∀ x ∈ back, x.2 < last.2) ∧
      calls.foldl (fun cur new => some (kept cur new)) none = some last := by
  induction calls using List.reverseRecOn with
  | nil => exact absurd rfl hne
  | append_singleton calls new ih =>
    rw [List.foldl_append]
    by_cases hnil : calls = []
    · subst hnil
      exact ⟨[], new, [], rfl, by simp, by simp, rfl⟩
    · obtain ⟨front, last, back, hcalls, hfront, hback, hfold⟩ := ih hnil
      rw [hfold]
      by_cases hle : last.2 ≤ new.2
      · refine ⟨calls, new, [], rfl, fun x hx => ?_, by simp, congrArg some (if_pos hle)⟩
        rw [hcalls, List.mem_append, List.mem_cons] at hx
        obtain hx | rfl | hx := hx
        · exact (hfront x hx).trans hle
        · exact hle
        · exact (hback x hx).le.trans hle
      · refine ⟨front, last, back ++ [new], by rw [hcalls, List.append_assoc, List.cons_append], hfront,
          fun x hx => ?_, congrArg some (if_neg hle)⟩
        rw [List.mem_append, List.mem_singleton] at hx
        obtain hx | rfl := hx
        · exact hback x hx
        · exact not_le.1 hle

/-! ## What the calls store -/

/-- The versions of a product, each with a later `updated_at`. -/
structure ProductHistory (m : ℕ) where
  version : Fin m → ProductDetails
  increasing : StrictMono fun k => (version k).updated_at.instant

variable {m n : ℕ}

/-- Calls that each store a version that they have read, with the seconds of its `updated_at`. -/
def storeCalls (orjson_dumps : Value → Except AppErr Bytes) (public_id : String) (history : ProductHistory m)
    (read : Fin n → Fin m) (state : State) : Async.Sys (redis ProductDetails) n Bool where
  state
  procs i := set_product_cache_if_newer orjson_dumps public_id (history.version (read i)).payload
    (timestamp (history.version (read i)).updated_at) PRODUCT_DETAIL_TTL

/-- Redis answers every command; time passes between the steps. -/
def answered : Async.Allows (redis ProductDetails) n
  | .proc _ .up, _ => True
  | .proc _ _, _ => False
  | .env _, _ => True

instance (l : Async.Label (redis ProductDetails) n) (sh : Async.Shared (redis ProductDetails) n) :
    Decidable (answered l sh) :=
  match l with
  | .proc _ .up | .env _ => inferInstanceAs (Decidable True)
  | .proc _ .down | .proc _ .replyLost | .proc _ (.loaded _) => inferInstanceAs (Decidable False)

/-- Under the product's key stands the newest version that was read; `holds` says which bytes are a payload. -/
def NewestCached (holds : Bytes → Value → Prop) (public_id : String) (history : ProductHistory m)
    (read : Fin n → Fin m) (now : ℤ) (keys : Keys) : Prop :=
  ∃ i, (∀ j, read j ≤ read i) ∧ ∃ raw, keys.get now (valueKey public_id) = some raw ∧
    holds raw (history.version (read i)).payload

/-- The client refuses the dictionary. -/
def Refused (o : Op) : Prop := ∃ names argv, o = .eval .setIfNewer names (.other :: argv)

theorem set_product_cache_if_newer_refused (orjson_dumps : Value → Except AppErr Bytes) (public_id : String)
    (payload : Value) (new_ts ttl : ℤ) :
    (set_product_cache_if_newer orjson_dumps public_id payload new_ts ttl).Only Refused := by
  refine (Async.Prog.only_ofExcept _).bind fun data => ?_
  refine (Async.Prog.only_call ⟨_, _, rfl⟩).attempt.bind fun r => ?_
  cases r <;> exact Async.Prog.only_pure _

theorem Refused.step {V : Type} {o : Op} (ho : Refused o) {c : Choice V} {s s' : State}
    {r : Except AppErr (o.Res V)} (h : o.step c s = some (r, s')) : s' = s := by
  obtain ⟨names, argv, rfl⟩ := ho
  cases h
  rfl

theorem storeCalls_keys {orjson_dumps : Value → Except AppErr Bytes} {public_id : String}
    {history : ProductHistory m} {read : Fin n → Fin m} {state : State} {s : Async.Sys (redis ProductDetails) n Bool}
    (h : Async.Sys.Reach answered (storeCalls orjson_dumps public_id history read state) s) :
    (∀ i, (s.procs i).Only Refused) ∧ s.state.keys = state.keys := by
  induction h with
  | start => exact ⟨fun i => set_product_cache_if_newer_refused _ _ _ _ _, rfl⟩
  | @step s s' l _ hstep _ ih =>
    refine ⟨Async.Sys.step_only ih.1 hstep, ?_⟩
    cases l with
    | env d =>
      cases hstep
      exact ih.2
    | proc i c =>
      obtain ⟨o, k, r, hprog, hres⟩ := Async.Sys.step_proc hstep
      have honly := ih.1 i
      rw [hprog] at honly
      rw [honly.1.step hres]
      exact ih.2

/-- After any run of the calls the newest version is cached if and only if it was before: they store nothing. -/
theorem newest_cached_iff (orjson_dumps : Value → Except AppErr Bytes) (holds : Bytes → Value → Prop)
    (public_id : String) (history : ProductHistory m) (read : Fin n → Fin m) (state : State)
    {s : Async.Sys (redis ProductDetails) n Bool}
    (h : Async.Sys.Reach answered (storeCalls orjson_dumps public_id history read state) s) :
    NewestCached holds public_id history read s.state.clock s.state.keys ↔
      NewestCached holds public_id history read s.state.clock state.keys := by
  rw [(storeCalls_keys h).2]

/-- The lamp, changed at half past the second of its first version. -/
def lampHistory : ProductHistory 2 where
  version k := { lamp with
    updated_at := { lamp.updated_at with
      microsecond := 500000 * k
      microsecond_lt := by omega } }
  increasing := by decide

def plainDumps (v : Value) : Except AppErr Bytes := .ok (Catalog.encode (dumps v))

def lampCalls : Async.Sys (redis ProductDetails) 2 Bool :=
  storeCalls plainDumps (uuidStr 1) lampHistory Fin.rev ⟨0, fun _ => none⟩

theorem newest_cached_iff_lamp : ∃ s : Async.Sys (redis ProductDetails) 2 Bool,
    s.state.clock = 40 ∧
      (NewestCached (fun raw v => raw = Catalog.encode (dumps v)) (uuidStr 1) lampHistory Fin.rev s.state.clock
          s.state.keys ↔
        NewestCached (fun raw v => raw = Catalog.encode (dumps v)) (uuidStr 1) lampHistory Fin.rev s.state.clock
          fun _ => none) := by
  have hplay : (lampCalls.exec answered [.proc 0 .up, .env 40, .proc 1 .up]).map (fun s => s.state.clock) =
      some 40 := by decide +kernel
  obtain ⟨s, hs, hclock⟩ := Option.map_eq_some_iff.1 hplay
  exact ⟨s, hclock, newest_cached_iff plainDumps _ (uuidStr 1) lampHistory Fin.rev ⟨0, fun _ => none⟩
    (Async.Sys.Reach.start.exec hs)⟩

/-- One call, and the cache is as empty as before; any bytes would do for the payload. -/
theorem newest_not_cached : ¬ ∀ (m n : ℕ) (public_id : String) (history : ProductHistory m)
    (read : Fin (n + 1) → Fin m) (state : State) (s : Async.Sys (redis ProductDetails) (n + 1) Bool),
      Async.Sys.Reach answered (storeCalls plainDumps public_id history read state) s →
        (∀ i, (s.outcome i).isSome = true) →
          NewestCached (fun _ _ => True) public_id history read s.state.clock s.state.keys := by
  intro h
  have hplay : ((storeCalls plainDumps (uuidStr 1) lampHistory (fun _ : Fin 1 => 0) ⟨0, fun _ => none⟩).exec
      answered [.proc 0 .up]).map (fun s => (decide (∀ i, (s.outcome i).isSome = true),
        s.state.keys.get s.state.clock (valueKey (uuidStr 1)))) = some (true, none) := by
    decide +kernel
  obtain ⟨s, hs, hreport⟩ := Option.map_eq_some_iff.1 hplay
  obtain ⟨hdone, hempty⟩ := Prod.mk.inj hreport
  obtain ⟨i, -, raw, hraw, -⟩ := h 2 0 (uuidStr 1) lampHistory (fun _ => 0) ⟨0, fun _ => none⟩ s
    (Async.Sys.Reach.start.exec hs) (of_decide_eq_true hdone)
  exact absurd (hempty.symm.trans hraw) (by simp)

end Phyllonix.Cache.Detail
