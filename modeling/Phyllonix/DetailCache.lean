import Phyllonix.CacheStore

/-!
# The cache of product details

The loader's dictionary goes to the script as a dictionary, which the client refuses, so the
entry is never stored; and the same dictionary goes to the response, which takes bytes or
text. No request for a product is answered.
-/

namespace Phyllonix.Cache.Detail

open JsonText

/-- What `fetch_product_details` returns. -/
structure ProductDetails where
  public_id : UUID
  stock_qty : ℤ
  name : List Char
  description : Option (List Char)
  base_price : ℤ
  specs : Value
  updated_at : Iso.DateTime
  categories : List (ℤ × List Char)

/-- `int(t.timestamp())` -/
def timestamp (t : Iso.DateTime) : ℤ :=
  (t.instant - (Iso.toordinal 1970 1 1 * 86400 * 1000000 : ℕ)).tdiv 1000000

/-- The dictionary with the cache's own fields. -/
def ProductDetails.payload (d : ProductDetails) : Value :=
  .obj [("public_id".toList, .str (uuidStr d.public_id).toList), ("stock_qty".toList, .int d.stock_qty),
    ("name".toList, .str d.name), ("description".toList, (d.description.map Value.str).getD .null),
    ("base_price".toList, .int d.base_price), ("specs".toList, d.specs),
    ("updated_at".toList, .str d.updated_at.isoformat),
    ("categories".toList, .arr (d.categories.map fun c =>
      .obj [("id".toList, .int c.1), ("name".toList, .str c.2)])),
    ("_cached_at".toList, .int (timestamp d.updated_at))]

/-- What the cache function returns to the route. -/
inductive Content
  | bytes (b : Bytes)
  | none
  | dict (d : Value)

/-- `deserialize` returns what it is given. -/
def deserialize (raw : Option Bytes) : Except AppErr Content :=
  .ok (match raw with
    | some b => .bytes b
    | Option.none => .none)

/-- `if raw:` -/
def truthy (raw : Option Bytes) : Bool := (raw.getD []) ≠ []

/-- `build_success(data)` is a dictionary. -/
def successArg (_data : Bytes) : Arg := .other

def PRODUCT_DETAIL_TTL : ℤ := 15 * 60

variable (orjson_dumps : Value → Except AppErr Bytes) (public_id token : String)

def valueKey : String := "product:" ++ public_id

def verKey : String := valueKey public_id ++ ":ver"

def lockKey : String := valueKey public_id ++ ":lock"

def set_product_cache_if_newer (payload : Value) (new_ts ttl : ℤ) : Py ProductDetails Bool := do
  let data ← Async.Prog.ofExcept (orjson_dumps payload)
  let success_payload := successArg data
  let argv := [success_payload, .text (Numeral.decimal new_ts), .text (Numeral.decimal ttl)]
  match ← (eval .setIfNewer [valueKey public_id, verKey public_id] argv : Py ProductDetails ℤ).attempt with
  | .ok res => pure (res ≠ 0)
  | .error _ => pure false

def loadAndStore : Py ProductDetails Content := do
  let product_details ← load
  let updated_at_ts := timestamp product_details.updated_at
  let _ ← set_product_cache_if_newer orjson_dumps public_id product_details.payload updated_at_ts
    PRODUCT_DETAIL_TTL
  pure (.dict product_details.payload)

/-- Returns `value`, or deletes the entry and goes on. -/
def returnOr (value : Option Bytes) (miss : Py ProductDetails Content) : Py ProductDetails Content :=
  match deserialize value with
  | .ok content => pure content
  | .error _ => do
    delete (valueKey public_id)
    miss

/-- The branch that holds the lock returns the first value that it read, not the second. -/
def underLock (raw : Option Bytes) : Py ProductDetails Content := do
  let raw_after ← get (valueKey public_id)
  if truthy raw_after then returnOr public_id raw (loadAndStore orjson_dumps public_id)
  else loadAndStore orjson_dumps public_id

def pollFor : ℕ → Py ProductDetails Content
  | 0 => loadAndStore orjson_dumps public_id
  | rounds + 1 => do
    sleep 50
    let raw_after ← get (valueKey public_id)
    if truthy raw_after then returnOr public_id raw_after (loadAndStore orjson_dumps public_id)
    else pollFor rounds

/-- `while waited < 6` with steps of 0.05: as floats, 120 of them add up to less than 6. -/
def pollRounds : ℕ := 121

def onMiss (raw : Option Bytes) : Py ProductDetails Content := do
  let locked ← setNx (lockKey public_id) token REDIS_LOCK_TIMEOUT
  if locked then
    (underLock orjson_dumps public_id raw).tryFinally (release_lock (lockKey public_id) token)
  else pollFor orjson_dumps public_id pollRounds

def cache_get_n_set_product_details : Py ProductDetails Content := do
  let raw ← get (valueKey public_id)
  if truthy raw then returnOr public_id raw (onMiss orjson_dumps public_id token raw)
  else onMiss orjson_dumps public_id token raw

structure Response where
  status : ℕ
  body : Bytes

/-- The body of a `Response`: bytes as they are, nothing for `None`; a dictionary has no `encode`. -/
def render : Content → Except AppErr Bytes
  | .bytes b => .ok b
  | .none => .ok []
  | .dict _ => .error .attributeError

def get_product_details : Py ProductDetails Response := do
  let content ← cache_get_n_set_product_details orjson_dumps public_id token
  let body ← Async.Prog.ofExcept (render content)
  pure { status := 200, body }

/-! ## The entry is never stored -/

/-- No product has an entry; the ids of products hold no colon. -/
def NoEntries (keys : Keys) : Prop := ∀ pid : String, ':' ∉ pid.toList → keys (valueKey pid) = none

theorem valueKey_ne {pid suffix other : String} (hpid : ':' ∉ pid.toList) (hsuffix : ':' ∈ suffix.toList) :
    valueKey other ++ suffix ≠ valueKey pid := by
  intro h
  have hlist := congrArg String.toList h
  rw [valueKey, valueKey, String.toList_append, String.toList_append, String.toList_append,
    List.append_assoc, List.append_cancel_left_eq] at hlist
  exact hpid (hlist ▸ List.mem_append_right _ hsuffix)

theorem exchange_cases {V β : Type} {c : Choice V} {s s' : State} {r r' : Except AppErr β} {keys : Keys}
    (h : exchange c s r keys = some (r', s')) :
    (r' = r ∨ r' = .error connectionError) ∧ (s'.keys = s.keys ∨ s'.keys = keys) := by
  cases c with
  | up =>
    cases h
    exact ⟨.inl rfl, .inr rfl⟩
  | down =>
    cases h
    exact ⟨.inr rfl, .inl rfl⟩
  | replyLost =>
    cases h
    exact ⟨.inr rfl, .inr rfl⟩
  | loaded _ => cases h

theorem NoEntries.exchange {V β : Type} {c : Choice V} {s s' : State} {r r' : Except AppErr β} {keys : Keys}
    (h : NoEntries s.keys) (hkeys : NoEntries keys) (hs : exchange c s r keys = some (r', s')) :
    NoEntries s'.keys :=
  (exchange_cases hs).2.elim (fun heq => heq ▸ h) fun heq => heq ▸ hkeys

theorem NoEntries.delete {keys : Keys} (h : NoEntries keys) (key : String) : NoEntries (keys.delete key) := by
  intro pid hpid
  rw [Keys.delete]
  by_cases hkey : valueKey pid = key
  · subst hkey
    exact Function.update_self _ _ _
  · rw [Function.update_of_ne hkey]
    exact h pid hpid

theorem NoEntries.lock {keys keys' : Keys} (h : NoEntries keys) {now ex : ℤ} {pid : String} {value : Bytes}
    (hset : keys.set now (lockKey pid) value ex = .ok keys') : NoEntries keys' := by
  rw [Keys.set] at hset
  split at hset
  · cases hset
    intro other hother
    have hsuffix : ':' ∈ ":lock".toList := by decide
    have hne : lockKey pid ≠ valueKey other := valueKey_ne hother hsuffix
    rw [Function.update_of_ne (Ne.symm hne)]
    exact h other hother
  · cases hset

/-- The operations of the endpoint store no entry. -/
inductive Stores : Op → Prop
  | get (key : String) : Stores (.get key)
  | lock (pid token : String) (ex : ℤ) : Stores (.setNx (lockKey pid) token ex)
  | delete (key : String) : Stores (.delete key)
  | release (key : String) (token : List Char) : Stores (.eval .releaseLock [key] [.text token])
  | refused (names : List String) (argv : List Arg) : Stores (.eval .setIfNewer names (.other :: argv))
  | sleep (ms : ℕ) : Stores (.sleep ms)
  | load : Stores .load

theorem Stores.step {V : Type} {o : Op} (ho : Stores o) {c : Choice V} {s s' : State}
    {r : Except AppErr (o.Res V)} (h : NoEntries s.keys) (hs : o.step c s = some (r, s')) :
    NoEntries s'.keys := by
  cases ho with
  | get key => exact h.exchange h hs
  | lock pid token ex =>
    simp only [Op.step] at hs
    split at hs
    · exact h.exchange h hs
    · split at hs
      next keys hset => exact h.exchange (h.lock hset) hs
      next => exact h.exchange h hs
  | delete key => exact h.exchange (h.delete key) hs
  | release key token =>
    have hrun : exchange c s (.ok (releaseLockLua s.keys s.clock key (Catalog.encode token)).1)
        (releaseLockLua s.keys s.clock key (Catalog.encode token)).2 = some (r, s') := hs
    refine h.exchange ?_ hrun
    rw [releaseLockLua]
    split
    · exact h.delete key
    · exact h
  | refused names argv =>
    -- the client refuses the dictionary before the script runs
    cases hs
    exact h
  | sleep ms => exact h.exchange h hs
  | load =>
    cases c with
    | loaded r =>
      cases hs
      exact h
    | up => cases hs
    | down => cases hs
    | replyLost => cases hs

section
variable {n : ℕ}

/-- The requests only rely on the log growing. -/
def growing (n : ℕ) : Async.Protocol (redis ProductDetails) n fun _ _ => True where
  inv sh := NoEntries sh.state.keys
  rely _ sh sh' := ∀ x ∈ sh.log, x ∈ sh'.log
  rely_refl _ _ := fun _ h => h
  rely_trans h h' := fun x hx => h' x (h x hx)
  env_inv _ _ h _ := h
  env_rely _ _ _ _ := fun _ h => h

theorem Stores.call {i : Fin n} {o : Op} (ho : Stores o)
    {Q : Async.Post (redis ProductDetails) n (o.Res ProductDetails)} {sh : Async.Shared (redis ProductDetails) n}
    (h : ∀ now c r sh', NoEntries now.keys → o.step c now = some (r, sh'.state) → (∀ x ∈ sh.log, x ∈ sh'.log) →
      (i, o) ∈ sh'.log → Q r sh') :
    Async.Safe (growing n) i Q (await o) sh := by
  refine Async.Safe.call fun now hrely hinv c r sh' hperforms _ => ?_
  obtain ⟨hstep, hlog⟩ := hperforms
  have hgrows : ∀ x ∈ now.log, x ∈ sh'.log := fun x hx => hlog ▸ List.mem_cons_of_mem _ hx
  exact ⟨ho.step hinv hstep, fun j _ => hgrows, h now.state c r sh' hinv hstep (fun x hx => hgrows x (hrely x hx))
    (hlog ▸ List.mem_cons_self)⟩

/-- A product without a colon in its id is loaded, or a command fails. -/
def Loads (public_id : String) (i : Fin n) : Async.Post (redis ProductDetails) n Content :=
  fun r sh => ':' ∉ public_id.toList → match r with
    | .ok (.dict _) => (i, Op.load) ∈ sh.log
    | .ok _ => False
    | .error e => e = .attributeError → (i, Op.load) ∈ sh.log

theorem Loads.later {public_id : String} {i : Fin n} {r : Except AppErr Content}
    {sh sh' : Async.Shared (redis ProductDetails) n} (h : Loads public_id i r sh)
    (hlog : ∀ x ∈ sh.log, x ∈ sh'.log) : Loads public_id i r sh' := by
  intro hid
  have hnow := h hid
  cases r with
  | error e => exact fun he => hlog _ (hnow he)
  | ok content =>
    cases content with
    | dict d => exact hlog _ hnow
    | bytes b => exact hnow
    | none => exact hnow

/-- A read finds no entry, or fails. -/
theorem get_replies {public_id : String} {now s' : State} {c : Choice ProductDetails}
    {r : Except AppErr (Option Bytes)} (h : NoEntries now.keys)
    (hs : Op.step (.get (valueKey public_id)) c now = some (r, s')) :
    (∃ raw, r = .ok raw ∧ (':' ∉ public_id.toList → raw = none)) ∨ r = .error connectionError := by
  cases (exchange_cases hs).1 with
  | inl hr =>
    refine .inl ⟨_, hr, fun hid => ?_⟩
    rw [Keys.get, h public_id hid]
    rfl
  | inr hr => exact .inr hr

/-- After a failure of the connection nothing is claimed. -/
theorem loads_failed {public_id : String} {i : Fin n} {e : AppErr} (he : e ≠ .attributeError)
    (sh : Async.Shared (redis ProductDetails) n) : Loads public_id i (.error e) sh :=
  fun _ hattr => absurd hattr he

variable {orjson_dumps : Value → Except AppErr Bytes} {public_id : String}

theorem safe_loadAndStore (i : Fin n) (sh : Async.Shared (redis ProductDetails) n) :
    Async.Safe (growing n) i (Loads public_id i) (loadAndStore orjson_dumps public_id) sh := by
  refine Async.Safe.bind (Stores.load.call fun now c r sh₁ _ _ _ hloaded => ?_)
  cases r with
  | error e => exact fun _ _ => hloaded
  | ok d =>
    refine Async.Safe.bind (Async.Safe.bind (Async.safe_ofExcept.2 ?_))
    cases orjson_dumps d.payload with
    | error e => exact fun _ _ => hloaded
    | ok data =>
      refine Async.Safe.bind (Async.Safe.attempt ((Stores.refused _ _).call fun now c r sh₂ _ _ hlog _ => ?_))
      cases r with
      | error e => exact fun _ => hlog _ hloaded
      | ok res => exact fun _ => hlog _ hloaded

/-- A look at the entry: there is none, and the request goes on with what it does on a miss. -/
theorem safe_returnOr {i : Fin n} {sh : Async.Shared (redis ProductDetails) n} (value : Option Bytes → Option Bytes)
    (hit : Option Bytes → Py ProductDetails Content) {miss : Option Bytes → Py ProductDetails Content}
    (hmiss : ∀ raw sh', Async.Safe (growing n) i (Loads public_id i) (miss raw) sh') :
    Async.Safe (growing n) i (Loads public_id i)
      (get (valueKey public_id) >>= fun raw =>
        if truthy raw then returnOr public_id (value raw) (hit raw) else miss raw) sh := by
  refine Async.Safe.bind ((Stores.get _).call fun now c r sh' hnone hstep _ _ => ?_)
  cases get_replies hnone hstep with
  | inr hr =>
    subst hr
    exact loads_failed (by simp [connectionError]) sh'
  | inl hr =>
    obtain ⟨raw, hr, habsent⟩ := hr
    subst hr
    dsimp only
    split
    next htruthy =>
      intro hid
      rw [habsent hid] at htruthy
      cases htruthy
    next => exact hmiss raw sh'

theorem safe_pollFor (i : Fin n) (rounds : ℕ) (sh : Async.Shared (redis ProductDetails) n) :
    Async.Safe (growing n) i (Loads public_id i) (pollFor orjson_dumps public_id rounds) sh := by
  induction rounds generalizing sh with
  | zero => exact safe_loadAndStore i sh
  | succ rounds ih =>
    refine Async.Safe.bind ((Stores.sleep _).call fun now c r sh₁ _ hstep _ _ => ?_)
    cases (exchange_cases hstep).1 with
    | inl hr =>
      subst hr
      exact safe_returnOr id (fun _ => _) fun _ => ih
    | inr hr =>
      subst hr
      exact loads_failed (by simp [connectionError]) sh₁

/-- The lock is released after the block, whatever it returned. -/
theorem safe_underLock (i : Fin n) (token : String) (raw : Option Bytes)
    (sh : Async.Shared (redis ProductDetails) n) :
    Async.Safe (growing n) i (Loads public_id i)
      ((underLock orjson_dumps public_id raw).tryFinally (release_lock (lockKey public_id) token)) sh := by
  have hblock : Async.Safe (growing n) i (Loads public_id i) (underLock orjson_dumps public_id raw) sh :=
    safe_returnOr (fun _ => raw) (fun _ => _) fun _ => safe_loadAndStore i
  refine Async.Safe.tryFinally (hblock.mono fun r sh₁ hr => ?_)
  refine Async.Safe.bind (Async.Safe.attempt ((Stores.release _ _).call fun now c d sh₂ _ _ hlog _ => ?_))
  cases d with
  | ok z => exact hr.later hlog
  | error e =>
    refine Async.Safe.bind (Async.Safe.attempt ((Stores.delete _).call fun now c d sh₃ _ _ hlog' _ => ?_))
    exact (hr.later hlog).later hlog'

theorem setNx_replies {pid token : String} {now s' : State} {c : Choice ProductDetails}
    {r : Except AppErr Bool} (hs : Op.step (.setNx (lockKey pid) token REDIS_LOCK_TIMEOUT) c now = some (r, s')) :
    (∃ locked, r = .ok locked) ∨ r = .error connectionError := by
  have hset : ∀ (keys : Keys) value, keys.set now.clock (lockKey pid) value REDIS_LOCK_TIMEOUT =
      .ok (Function.update keys (lockKey pid) (some ⟨value, some (now.clock + 1000 * REDIS_LOCK_TIMEOUT)⟩)) :=
    fun _ _ => if_pos (by decide)
  simp only [Op.step, hset] at hs
  split at hs
  · exact (exchange_cases hs).1.imp_left fun hr => ⟨_, hr⟩
  · exact (exchange_cases hs).1.imp_left fun hr => ⟨_, hr⟩

theorem safe_onMiss (i : Fin n) (token : String) (raw : Option Bytes)
    (sh : Async.Shared (redis ProductDetails) n) :
    Async.Safe (growing n) i (Loads public_id i) (onMiss orjson_dumps public_id token raw) sh := by
  refine Async.Safe.bind ((Stores.lock _ _ _).call fun now c r sh₁ _ hstep _ _ => ?_)
  cases setNx_replies hstep with
  | inr hr =>
    subst hr
    exact loads_failed (by simp [connectionError]) sh₁
  | inl hr =>
    obtain ⟨locked, hr⟩ := hr
    subst hr
    cases locked with
    | true => exact safe_underLock i token raw sh₁
    | false => exact safe_pollFor i pollRounds sh₁

/-- What a request for a product without a colon in its id ends with. -/
def Fails (public_id : String) (i : Fin n) : Async.Post (redis ProductDetails) n Response :=
  fun r sh => ':' ∉ public_id.toList → ∃ e, r = .error e ∧ (e = .attributeError → (i, Op.load) ∈ sh.log)

theorem Loads.fails {i : Fin n} {content : Content} {sh : Async.Shared (redis ProductDetails) n}
    (h : Loads public_id i (.ok content) sh) :
    Async.Safe (growing n) i (Fails public_id i) (do
      let body ← Async.Prog.ofExcept (render content)
      pure { status := 200, body }) sh := by
  cases content with
  | bytes b => exact fun hid => (h hid).elim
  | none => exact fun hid => (h hid).elim
  | dict d => exact fun hid => ⟨_, rfl, fun _ => h hid⟩

theorem safe_get_product_details (i : Fin n) (token : String) (sh : Async.Shared (redis ProductDetails) n) :
    Async.Safe (growing n) i (Fails public_id i) (get_product_details orjson_dumps public_id token) sh := by
  have hcache : Async.Safe (growing n) i (Loads public_id i)
      (cache_get_n_set_product_details orjson_dumps public_id token) sh :=
    safe_returnOr id (onMiss orjson_dumps public_id token) (safe_onMiss i token)
  refine Async.Safe.bind (hcache.mono fun r sh' hr => ?_)
  cases r with
  | error e => exact fun hid => ⟨e, rfl, hr hid⟩
  | ok content => exact hr.fails

/-! ## Requests end -/

theorem loadAndStore_within : (loadAndStore orjson_dumps public_id).Within 2 := by
  have hstore : ∀ d : ProductDetails, (set_product_cache_if_newer orjson_dumps public_id d.payload
      (timestamp d.updated_at) PRODUCT_DETAIL_TTL).Within (0 + (1 + 0)) := by
    intro d
    refine (Async.Prog.within_ofExcept _ 0).bind fun data => (Async.Prog.within_call _).attempt.bind fun r => ?_
    cases r <;> exact trivial
  have hload : (loadAndStore orjson_dumps public_id).Within (1 + (0 + (1 + 0) + 0)) :=
    (Async.Prog.within_call _).bind fun d => (hstore d).bind fun _ => Async.Prog.within_pure _ 0
  exact hload

theorem returnOr_within {m : ℕ} (value : Option Bytes → Option Bytes)
    (hit : Option Bytes → Py ProductDetails Content) {miss : Option Bytes → Py ProductDetails Content}
    (h : ∀ raw, (miss raw).Within m) :
    (get (valueKey public_id) >>= fun raw =>
      if truthy raw then returnOr public_id (value raw) (hit raw) else miss raw).Within (1 + m) := by
  refine (Async.Prog.within_call _).bind fun raw => ?_
  split
  · exact Async.Prog.within_pure _ m
  · exact h raw

theorem pollFor_within (rounds : ℕ) : (pollFor orjson_dumps public_id rounds).Within (2 * rounds + 2) := by
  induction rounds with
  | zero => exact loadAndStore_within
  | succ rounds ih =>
    have hround : (pollFor orjson_dumps public_id (rounds + 1)).Within (1 + (1 + (2 * rounds + 2))) :=
      (Async.Prog.within_call _).bind fun _ => returnOr_within id (fun _ => _) fun _ => ih
    exact hround.mono (by omega)

theorem onMiss_within (token : String) (raw : Option Bytes) :
    (onMiss orjson_dumps public_id token raw).Within (1 + (2 * pollRounds + 2)) := by
  refine (Async.Prog.within_call _).bind fun locked => ?_
  cases locked with
  | false => exact pollFor_within pollRounds
  | true =>
    have hlocked : ((underLock orjson_dumps public_id raw).tryFinally
        (release_lock (lockKey public_id) token)).Within (1 + 2 + (1 + 1)) :=
      (returnOr_within (fun _ => raw) (fun _ => _) fun _ => loadAndStore_within).tryFinally (release_lock_within _ _)
    exact hlocked.mono (by decide)

theorem get_product_details_within (token : String) :
    (get_product_details orjson_dumps public_id token).Within 246 := by
  have hcache : (cache_get_n_set_product_details orjson_dumps public_id token).Within
      (1 + (1 + (2 * pollRounds + 2))) := returnOr_within id (onMiss orjson_dumps public_id token) (onMiss_within token)
  have hroute : (get_product_details orjson_dumps public_id token).Within
      (1 + (1 + (2 * pollRounds + 2)) + (0 + 0)) :=
    hcache.bind fun content => (Async.Prog.within_ofExcept _ 0).bind fun body => Async.Prog.within_pure _ 0
  exact hroute

/-! ## Runs of the endpoint -/

/-- The requests before their first command. -/
def requests (orjson_dumps : Value → Except AppErr Bytes) (public_id token : Fin n → String) (s : State) :
    Async.Sys (redis ProductDetails) n Response where
  state := s
  procs i := get_product_details orjson_dumps (public_id i) (token i)

/-- In no run is a product's entry stored, so that no request is served from the cache; and every
request for a product ends, after at most 246 commands, with an error. -/
theorem details_never_served (orjson_dumps : Value → Except AppErr Bytes) (public_id token : Fin n → String)
    (s₀ : State) (hentries : NoEntries s₀.keys) {s : Async.Sys (redis ProductDetails) n Response}
    (h : Async.Sys.Reach (fun _ _ => True) (requests orjson_dumps public_id token s₀) s)
    {i : Fin n} (hid : ':' ∉ (public_id i).toList) :
    s.state.keys (valueKey (public_id i)) = none ∧
      (∀ r, s.outcome i = some r → ∃ e, r = .error e ∧ (e = .attributeError → (i, Op.load) ∈ s.log)) ∧
      Async.awaited i s.log ≤ 246 ∧
      ∀ d : ProductDetails, s.outcome i = none →
        ∃ c : Choice ProductDetails, (c = .up ∨ c = .loaded (.ok d)) ∧ (s.step (.proc i c)).isSome = true := by
  have hsafe : ∀ j, Async.Safe (growing n) j (Fails (public_id j) j)
      ((requests orjson_dumps public_id token s₀).procs j) (requests orjson_dumps public_id token s₀).toShared :=
    fun j => safe_get_product_details j (token j) _
  have hstart : (growing n).inv (requests orjson_dumps public_id token s₀).toShared := hentries
  obtain ⟨hinv, hknown⟩ := Async.reach_safe hstart hsafe h
  refine ⟨hinv _ hid, fun r hr => ?_, ?_, fun d => exists_step d⟩
  · obtain ⟨sh, hk⟩ := hknown i
    obtain ⟨e, he, hload⟩ := hk.outcome hr hid
    exact ⟨e, he, fun hattr => hk.rely _ (hload hattr)⟩
  · obtain ⟨k, -, hle⟩ := h.awaited_le (i := i) (get_product_details_within (token i)) rfl
    exact le_trans (Nat.le_add_right _ k) hle

/-- A product that exists, as the loader returns it. -/
def lamp : ProductDetails where
  public_id := 1
  stock_qty := 5
  name := "lamp".toList
  description := none
  base_price := 1000
  specs := .null
  updated_at :=
    { year := 2025, month := 1, day := 1, hour := 0, minute := 0, second := 0, microsecond := 0, utcoffset := some 0,
      year_le := by decide, month_le := by decide, day_le := by decide, hour_lt := by decide,
      minute_lt := Iso.DateTime.sixty_pos, second_lt := Iso.DateTime.sixty_pos, microsecond_lt := by decide,
      offset_lt := Iso.DateTime.utc_lt }
  categories := []

/-- Two requests for it. -/
def lampRequests : Async.Sys (redis ProductDetails) 2 Response :=
  requests (fun v => .ok (Catalog.encode (dumps v))) (fun _ => uuidStr 1) (fun i => ["a0", "b1"].get i)
    ⟨0, fun _ => none⟩

/-- The second starts after the first has ended; Redis answers every command. -/
def lampSteps : List (Async.Label (redis ProductDetails) 2) :=
  [.proc 0 .up, .proc 0 .up, .proc 0 .up, .proc 0 (.loaded (.ok lamp)), .proc 0 .up, .proc 0 .up,
    .proc 1 .up, .proc 1 .up, .proc 1 .up, .proc 1 (.loaded (.ok lamp)), .proc 1 .up, .proc 1 .up]

def Raised (s : Async.Sys (redis ProductDetails) n Response) (i : Fin n) : Bool :=
  match s.outcome i with
  | some (.error .attributeError) => true
  | _ => false

def Loaded (s : Async.Sys (redis ProductDetails) n Response) (i : Fin n) : Bool :=
  s.log.any fun x => decide (x.1 = i) && match x.2 with
    | .load => true
    | _ => false

/-- Both raise instead of answering 200, and the second loads again. -/
theorem lamp_not_served : (lampRequests.exec (fun _ _ => True) lampSteps).map
    (fun s => decide (∀ i, Raised s i = true ∧ Loaded s i = true)) = some true := by
  decide +kernel

theorem details_never_served_lamp : ∃ s : Async.Sys (redis ProductDetails) 2 Response,
    (s.outcome 1).isSome = true ∧
    s.state.keys (valueKey (uuidStr 1)) = none ∧
      (∀ r, s.outcome 1 = some r → ∃ e, r = .error e ∧ (e = .attributeError → (1, Op.load) ∈ s.log)) ∧
      Async.awaited 1 s.log ≤ 246 ∧
      ∀ d : ProductDetails, s.outcome 1 = none →
        ∃ c : Choice ProductDetails, (c = .up ∨ c = .loaded (.ok d)) ∧ (s.step (.proc 1 c)).isSome = true := by
  have hplay : (lampRequests.exec (fun _ _ => True) lampSteps).map (fun s => (s.outcome 1).isSome) = some true := by
    decide +kernel
  obtain ⟨s, hs, hdone⟩ := Option.map_eq_some_iff.1 hplay
  exact ⟨s, hdone, details_never_served (i := 1) (fun v => .ok (Catalog.encode (dumps v))) (fun _ => uuidStr 1)
    (fun i => ["a0", "b1"].get i) ⟨0, fun _ => none⟩ (fun _ _ => rfl) (Async.Sys.Reach.start.exec hs)
      (by decide +kernel)⟩

end

end Phyllonix.Cache.Detail
