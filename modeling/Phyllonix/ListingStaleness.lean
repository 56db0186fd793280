import Phyllonix.ListingKeys

/-!
# How old a page from the cache can be

Whatever fails, a page that is served is of the key of the request, and was true at most the time
to live and the duration of one request before the request came. A lock is an entry of the cache
as well: a request with the key of a lock is served its token.
-/

namespace Phyllonix.Cache
open Catalog JsonText
variable {n : ℕ}

/-! ## Requests for pages -/

structure PageRequest where
  params : ListingParams
  token : String
  mode : String

def PageRequest.program (codec : Codec) (ttl : ℤ) (req : PageRequest) : Py Value Bytes :=
  cache_get_or_set_product_listings codec req.token ttl "products_listing"
    (make_params_key codec.sha256 req.params.limit (some (canonical_cursor_key req.params.cursor_vals)) req.params.q
      req.params.category) req.mode

/-- Requests, the times at which they come, how long each of them takes at most, and the pages that are true at a
time. -/
structure Traffic (n : ℕ) where
  requests : Fin n → PageRequest
  arrival : Fin n → ℤ
  patience : ℕ
  page : ListingParams → ℤ → Value → Prop

def Traffic.start (T : Traffic n) (codec : Codec) (ttl : ℤ) (s : State) : Async.Sys (redis Value) n Bytes where
  state := s
  procs i := (T.requests i).program codec ttl

/-- What a loader returns is true. -/
def Traffic.Truthful (T : Traffic n) (i : Fin n) (now : ℤ) : Choice Value → Prop
  | .loaded (.ok v) => T.page (T.requests i).params now v
  | _ => True

/-- Requests run after they came and not for too long, and their loaders are truthful. -/
def Traffic.Punctual (T : Traffic n) : Async.Allows (redis Value) n
  | .proc i c, sh => T.arrival i ≤ sh.state.clock ∧ sh.state.clock ≤ T.arrival i + T.patience ∧
      T.Truthful i sh.state.clock c
  | .env _, _ => True

instance (T : Traffic n) [∀ p t v, Decidable (T.page p t v)] (i : Fin n) (now : ℤ) :
    (c : Choice Value) → Decidable (T.Truthful i now c)
  | .loaded (.ok v) => inferInstanceAs (Decidable (T.page (T.requests i).params now v))
  | .loaded (.error _) => .isTrue trivial
  | .up => .isTrue trivial
  | .down => .isTrue trivial
  | .replyLost => .isTrue trivial

instance (T : Traffic n) [∀ p t v, Decidable (T.page p t v)] :
    (l : Async.Label (redis Value) n) → (sh : Async.Shared (redis Value) n) → Decidable (T.Punctual l sh)
  | .proc _ _, _ => inferInstanceAs (Decidable (_ ∧ _ ∧ _))
  | .env _, _ => .isTrue trivial

def Traffic.key (T : Traffic n) (codec : Codec) (i : Fin n) : String := (T.requests i).params.key codec.sha256

/-- The payload of a page that some request for this key asked for, true at the time `t`. -/
def Traffic.PageAt (T : Traffic n) (codec : Codec) (key : String) (t : ℤ) (payload : Bytes) : Prop :=
  ∃ j v, T.key codec j = key ∧ T.page (T.requests j).params t v ∧ payload = codec.serialize (build_success v)

/-- The token of a lock that is kept under this key. -/
def Traffic.LockToken (T : Traffic n) (codec : Codec) (key : String) (payload : Bytes) : Prop :=
  ∃ j, lockKey (T.key codec j) = key ∧ payload = encode (T.requests j).token.toList

/-! ## Commands -/

/-- The command stores this entry. -/
inductive Op.Stores (now : ℤ) : Op → String → Cell → Prop
  | set (key : String) (value : Bytes) (ex : ℤ) : Stores now (.set key value ex) key ⟨value, some (now + 1000 * ex)⟩
  | setNx (key token : String) (ex : ℤ) :
      Stores now (.setNx key token ex) key ⟨encode token.toList, some (now + 1000 * ex)⟩

theorem Op.Stores.of_set {now ex : ℤ} {key k : String} {value : Bytes} {cell : Cell}
    (h : (Op.set key value ex).Stores now k cell) : k = key ∧ cell = ⟨value, some (now + 1000 * ex)⟩ := by
  cases h
  exact ⟨rfl, rfl⟩

theorem Op.Stores.of_setNx {now ex : ℤ} {key token k : String} {cell : Cell}
    (h : (Op.setNx key token ex).Stores now k cell) : k = key ∧ cell.value = encode token.toList := by
  cases h
  exact ⟨rfl, rfl⟩

/-- The only script is the one that releases a lock. -/
def Op.Plain : Op → Prop
  | .eval script _ _ => script = .releaseLock
  | _ => True

theorem Keys.set_some {keys keys' : Keys} {now ex : ℤ} {key k : String} {value : Bytes} {cell : Cell}
    (h : keys.set now key value ex = .ok keys') (hcell : keys' k = some cell) :
    keys k = some cell ∨ k = key ∧ cell = ⟨value, some (now + 1000 * ex)⟩ := by
  by_cases hk : k = key
  · subst hk
    rw [Keys.set] at h
    split at h
    · cases h
      rw [Function.update_self] at hcell
      exact .inr ⟨rfl, (Option.some.inj hcell).symm⟩
    · cases h
  · rw [Keys.set_other h (Ne.symm hk)] at hcell
    exact .inl hcell

theorem Keys.delete_some {keys : Keys} {key k : String} {cell : Cell} (h : keys.delete key k = some cell) :
    keys k = some cell := by
  rw [Keys.delete] at h
  by_cases hk : k = key
  · subst hk
    rw [Function.update_self] at h
    cases h
  · rwa [Function.update_of_ne hk] at h

theorem LuaScript.release_some {keys keys' : Keys} {now z : ℤ} {names : List String} {argv : List Bytes} {k : String}
    {cell : Cell} (h : LuaScript.releaseLock.run keys now names argv = .ok (z, keys')) (hcell : keys' k = some cell) :
    keys k = some cell := by
  rw [LuaScript.run.eq_def] at h
  split at h
  next key token =>
    rw [releaseLockLua] at h
    split at h
    · cases h
      exact Keys.delete_some hcell
    · cases h
      exact hcell
  next heq => cases heq
  next => cases h

theorem exchange_keys {V β : Type} {c : Choice V} {s s' : State} {r r' : Except AppErr β} {keys : Keys}
    (h : exchange c s r keys = some (r', s')) :
    s'.clock = s.clock ∧ (s'.keys = s.keys ∨ s'.keys = keys) := by
  cases c with
  | up =>
    cases h
    exact ⟨rfl, .inr rfl⟩
  | down =>
    cases h
    exact ⟨rfl, .inl rfl⟩
  | replyLost =>
    cases h
    exact ⟨rfl, .inr rfl⟩
  | loaded r => cases h

/-- Every entry after a command was there before it, or is the one that the command stores. -/
theorem Op.step_keys {V : Type} {o : Op} (ho : o.Plain) {c : Choice V} {s s' : State}
    {r : Except AppErr (o.Res V)} (h : o.step c s = some (r, s')) :
    s'.clock = s.clock ∧ ∀ k cell, s'.keys k = some cell → s.keys k = some cell ∨ o.Stores s.clock k cell := by
  have hsame {keys : Keys} (hkeys : s'.keys = s.keys ∨ s'.keys = keys)
      (hnew : ∀ k cell, keys k = some cell → s.keys k = some cell ∨ o.Stores s.clock k cell) :
      ∀ k cell, s'.keys k = some cell → s.keys k = some cell ∨ o.Stores s.clock k cell := by
    intro k cell hcell
    rcases hkeys with hkeys | hkeys
    · exact .inl (hkeys ▸ hcell)
    · exact hnew k cell (hkeys ▸ hcell)
  cases o with
  | get key | sleep ms =>
    obtain ⟨hclock, hkeys⟩ := exchange_keys h
    exact ⟨hclock, hsame hkeys fun _ _ hcell => .inl hcell⟩
  | delete key =>
    obtain ⟨hclock, hkeys⟩ := exchange_keys h
    exact ⟨hclock, hsame hkeys fun _ _ hcell => .inl (Keys.delete_some hcell)⟩
  | load =>
    cases c with
    | loaded res =>
      cases h
      exact ⟨rfl, fun _ _ hcell => .inl hcell⟩
    | up | down | replyLost => cases h
  | set key value ex =>
    simp only [Op.step] at h
    split at h
    next keys hset =>
      obtain ⟨hclock, hkeys⟩ := exchange_keys h
      refine ⟨hclock, hsame hkeys fun k cell hcell => ?_⟩
      rcases Keys.set_some hset hcell with hcell | ⟨rfl, rfl⟩
      · exact .inl hcell
      · exact .inr (.set k value ex)
    next =>
      obtain ⟨hclock, hkeys⟩ := exchange_keys h
      exact ⟨hclock, hsame hkeys fun _ _ hcell => .inl hcell⟩
  | setNx key token ex =>
    simp only [Op.step] at h
    split at h
    · obtain ⟨hclock, hkeys⟩ := exchange_keys h
      exact ⟨hclock, hsame hkeys fun _ _ hcell => .inl hcell⟩
    · split at h
      next keys hset =>
        obtain ⟨hclock, hkeys⟩ := exchange_keys h
        refine ⟨hclock, hsame hkeys fun k cell hcell => ?_⟩
        rcases Keys.set_some hset hcell with hcell | ⟨rfl, rfl⟩
        · exact .inl hcell
        · exact .inr (.setNx k token ex)
      next =>
        obtain ⟨hclock, hkeys⟩ := exchange_keys h
        exact ⟨hclock, hsame hkeys fun _ _ hcell => .inl hcell⟩
  | eval script names argv =>
    obtain rfl : script = .releaseLock := ho
    simp only [Op.step] at h
    split at h
    · cases h
      exact ⟨rfl, fun _ _ hcell => .inl hcell⟩
    · split at h
      next z keys hrun =>
        obtain ⟨hclock, hkeys⟩ := exchange_keys h
        exact ⟨hclock, hsame hkeys fun _ _ hcell => .inl (LuaScript.release_some hrun hcell)⟩
      next =>
        obtain ⟨hclock, hkeys⟩ := exchange_keys h
        exact ⟨hclock, hsame hkeys fun _ _ hcell => .inl hcell⟩

/-! ## Entries grow old -/

section
variable {T : Traffic n} {codec : Codec} {ttl : ℤ}

/-- An entry is a page that was true some time ago, with an expiry that bounds its age, or the token of a lock. -/
def Stored (T : Traffic n) (codec : Codec) (ttl now : ℤ) (key : String) (cell : Cell) : Prop :=
  (∃ t e, T.PageAt codec key t cell.value ∧ t ≤ now ∧ cell.expireAt = some e ∧ e ≤ t + T.patience + 1000 * ttl) ∨
    T.LockToken codec key cell.value

theorem Stored.later {now now' : ℤ} {key : String} {cell : Cell} (h : Stored T codec ttl now key cell)
    (hle : now ≤ now') : Stored T codec ttl now' key cell :=
  h.imp_left fun ⟨t, e, hpage, ht, hexp⟩ => ⟨t, e, hpage, ht.trans hle, hexp⟩

/-- The entries of the pages that are requested. -/
def Aged (T : Traffic n) (codec : Codec) (ttl : ℤ) (s : State) : Prop :=
  ∀ i cell, s.keys (T.key codec i) = some cell → Stored T codec ttl s.clock (T.key codec i) cell

def aging (T : Traffic n) (codec : Codec) (ttl : ℤ) : Async.Protocol (redis Value) n T.Punctual where
  inv sh := Aged T codec ttl sh.state
  rely _ sh sh' := sh.state.clock ≤ sh'.state.clock
  rely_refl _ _ := le_rfl
  rely_trans := le_trans
  env_inv d _ hinv _ i cell hcell := (hinv i cell hcell).later (Int.le_add_of_nonneg_right (Int.natCast_nonneg d))
  env_rely _ d _ _ := Int.le_add_of_nonneg_right (Int.natCast_nonneg d)

/-- What request `i` may be served. -/
def Served (T : Traffic n) (codec : Codec) (ttl : ℤ) (i : Fin n) (payload : Bytes) : Prop :=
  (∃ t, T.PageAt codec (T.key codec i) t payload ∧ T.arrival i < t + T.patience + 1000 * ttl ∧
    t ≤ T.arrival i + T.patience) ∨ T.LockToken codec (T.key codec i) payload

/-- A command of a request keeps the entries aged, when what it stores is. -/
theorem safe_command {i : Fin n} {o : Op} {sh : Async.Shared (redis Value) n}
    {Q : Async.Post (redis Value) n (o.Res Value)}
    (ho : o.Plain)
    (hstores : ∀ now : ℤ, sh.state.clock ≤ now → now ≤ T.arrival i + T.patience → ∀ j cell,
      o.Stores now (T.key codec j) cell → Stored T codec ttl now (T.key codec j) cell)
    (hpost : ∀ now c r sh', sh.state.clock ≤ now.state.clock → Aged T codec ttl now.state →
      Async.Performs (M := redis Value) i o c r now sh' → sh'.state.clock = now.state.clock →
      T.Punctual (.proc i c) sh' → Q r sh') :
    Async.Safe (aging T codec ttl) i Q (await o) sh := by
  apply Async.Safe.call
  intro now hrely hinv c r sh' hperforms hallow
  obtain ⟨hclock, hkeys⟩ := Op.step_keys ho hperforms.1
  have hlater : now.state.clock ≤ sh'.state.clock := hclock.ge
  refine ⟨fun j cell hcell => ?_, fun j _ => hlater, hpost now c r sh' hrely hinv hperforms hclock hallow⟩
  rcases hkeys _ _ hcell with hcell | hstore
  · exact (hinv j cell hcell).later hlater
  · have hdeadline : now.state.clock ≤ T.arrival i + T.patience := hclock ▸ hallow.2.1
    exact (hstores _ hrely hdeadline j cell hstore).later hlater

/-- A command that stores nothing. -/
theorem safe_passive {i : Fin n} {o : Op} {sh : Async.Shared (redis Value) n}
    {Q : Async.Post (redis Value) n (o.Res Value)}
    (ho : o.Plain) (hnone : ∀ now k cell, ¬o.Stores now k cell) (hpost : ∀ r sh', Q r sh') :
    Async.Safe (aging T codec ttl) i Q (await o) sh :=
  safe_command ho (fun _ _ _ _ _ hstore => absurd hstore (hnone _ _ _)) fun _ _ _ _ _ _ _ _ _ => hpost _ _

theorem safe_load {i : Fin n} {sh : Async.Shared (redis Value) n} :
    Async.Safe (aging T codec ttl) i (.ofOk fun v sh => ∃ t, T.page (T.requests i).params t v ∧ T.arrival i ≤ t ∧
      t ≤ T.arrival i + T.patience ∧ t ≤ sh.state.clock) load sh := by
  apply safe_command (o := .load) trivial (fun _ _ _ _ _ hstore => by cases hstore)
  intro now c r sh' _ _ hperforms hclock hallow
  have hstep := hperforms.1
  cases c with
  | loaded res =>
    obtain ⟨rfl, -⟩ := Prod.mk.inj (Option.some.inj hstep)
    cases res with
    | error e => trivial
    | ok v => exact ⟨sh'.state.clock, hallow.2.2, hallow.1, hallow.2.1, le_rfl⟩
  | up | down | replyLost => cases hstep

/-- A live entry is served. -/
theorem safe_get {i : Fin n} {sh : Async.Shared (redis Value) n} :
    Async.Safe (aging T codec ttl) i (.ofOk fun raw _ => ∀ b, raw = some b → Served T codec ttl i b)
      (get (T.key codec i)) sh := by
  apply safe_command (o := .get _) trivial (fun _ _ _ _ _ hstore => by cases hstore)
  intro now c r sh' _ hinv hperforms hclock hallow
  cases r with
  | error e => trivial
  | ok raw =>
    intro b hb
    subst hb
    have hlive : now.state.keys.get now.state.clock (T.key codec i) = some b := by
      have hstep := hperforms.1
      cases c with
      | up => exact Except.ok.inj (Prod.mk.inj (Option.some.inj hstep)).1
      | down | replyLost => cases hstep
      | loaded res => cases hstep
    obtain ⟨cell, hcell, rfl⟩ := Option.map_eq_some_iff.mp hlive
    obtain ⟨hmem, hexp⟩ := Option.filter_eq_some_iff.mp hcell
    rcases hinv i cell hmem with ⟨t, e, hpage, ht, he, hage⟩ | htoken
    · rw [he] at hexp
      have hnow : now.state.clock < e := of_decide_eq_true hexp
      obtain ⟨hcame, hdeadline, -⟩ := hallow
      rw [hclock] at hcame hdeadline
      exact .inl ⟨t, hpage, by omega, by omega⟩
    · exact .inr htoken

/-! ## Programs -/

theorem safe_set {i : Fin n} {sh : Async.Shared (redis Value) n} {payload : Bytes} {t : ℤ}
    (hpage : T.PageAt codec (T.key codec i) t payload) (hpast : t ≤ sh.state.clock) (hcame : T.arrival i ≤ t)
    {Q : Async.Post (redis Value) n Unit} (hpost : ∀ r sh', Q r sh') :
    Async.Safe (aging T codec ttl) i Q (set (T.key codec i) payload ttl) sh := by
  apply safe_command (o := .set _ _ _) trivial
  · intro now hlater hdeadline j cell hstore
    obtain ⟨hkey, rfl⟩ := hstore.of_set
    rw [hkey]
    exact .inl ⟨t, now + 1000 * ttl, hpage, hpast.trans hlater, rfl, by omega⟩
  · exact fun _ _ _ _ _ _ _ _ _ => hpost _ _

theorem safe_loadAndStore_served (httl : 0 < ttl) {i : Fin n} {sh : Async.Shared (redis Value) n} :
    Async.Safe (aging T codec ttl) i (.ofOk fun b _ => Served T codec ttl i b)
      (loadAndStore codec (T.key codec i) ttl) sh := by
  apply Async.Safe.bind
  apply safe_load.mono
  intro r sh hr
  cases r with
  | error e => trivial
  | ok v =>
  obtain ⟨t, hpage, hcame, hdeadline, hpast⟩ := hr
  have hpayload : T.PageAt codec (T.key codec i) t (codec.serialize (build_success v)) := ⟨i, v, rfl, hpage, rfl⟩
  apply Async.Safe.bind
  apply Async.Safe.attempt
  apply safe_set hpayload hpast hcame
  intro _ _
  exact .inl ⟨t, hpayload, by omega, hdeadline⟩

theorem safe_hitOr_served {i : Fin n} {sh : Async.Shared (redis Value) n} {miss : Py Value Bytes}
    (hmiss : ∀ sh', Async.Safe (aging T codec ttl) i (.ofOk fun b _ => Served T codec ttl i b) miss sh') :
    Async.Safe (aging T codec ttl) i (.ofOk fun b _ => Served T codec ttl i b)
      (get (T.key codec i) >>= fun raw => hitOr (T.key codec i) raw miss) sh := by
  apply Async.Safe.bind
  apply safe_get.mono
  intro r sh hr
  cases r with
  | error e => trivial
  | ok raw =>
    cases raw with
    | none => exact hmiss sh
    | some b => exact hr b rfl

theorem safe_sleep {i : Fin n} {sh : Async.Shared (redis Value) n} {ms : ℕ} {Q : Async.Post (redis Value) n Unit}
    (hpost : ∀ r sh', Q r sh') : Async.Safe (aging T codec ttl) i Q (sleep ms) sh :=
  safe_passive (o := .sleep ms) trivial (fun _ _ _ hstore => by cases hstore) hpost

theorem safe_pollFor_served (httl : 0 < ttl) {i : Fin n} (rounds : ℕ) {sh : Async.Shared (redis Value) n} :
    Async.Safe (aging T codec ttl) i (.ofOk fun b _ => Served T codec ttl i b)
      (pollFor codec (T.key codec i) ttl rounds) sh := by
  induction rounds generalizing sh with
  | zero => exact safe_loadAndStore_served httl
  | succ rounds ih =>
    apply Async.Safe.bind
    apply safe_sleep
    intro r sh
    cases r with
    | error e => trivial
    | ok _ =>
      apply Async.Safe.bind
      apply safe_get.mono
      intro r sh hr
      cases r with
      | error e => trivial
      | ok raw =>
        cases raw with
        | none => exact ih
        | some b => exact hr b rfl

theorem safe_staleWait_served (httl : 0 < ttl) {i : Fin n} {sh : Async.Shared (redis Value) n} :
    Async.Safe (aging T codec ttl) i (.ofOk fun b _ => Served T codec ttl i b)
      (staleWait codec (T.key codec i) ttl) sh := by
  apply Async.Safe.bind
  apply safe_sleep
  intro r sh
  cases r with
  | error e => trivial
  | ok _ => exact safe_hitOr_served fun _ => safe_loadAndStore_served httl

/-- The release of a lock leaves the answer, also where it fails. -/
theorem safe_release_lock {i : Fin n} {sh : Async.Shared (redis Value) n} {lock token : String}
    {Q : Async.Post (redis Value) n Unit} (hpost : ∀ r sh', Q r sh') :
    Async.Safe (aging T codec ttl) i Q (release_lock lock token) sh := by
  apply Async.Safe.bind
  apply Async.Safe.attempt
  apply safe_passive (o := .eval .releaseLock [lock] [.text token.toList]) rfl (fun _ _ _ hstore => by cases hstore)
  intro r sh
  cases r with
  | ok z => exact hpost _ _
  | error e =>
    apply Async.Safe.bind
    apply Async.Safe.attempt
    apply safe_passive (o := .delete lock) trivial (fun _ _ _ hstore => by cases hstore)
    exact fun _ _ => hpost _ _

theorem safe_acquire {i : Fin n} {sh : Async.Shared (redis Value) n} {Q : Async.Post (redis Value) n Bool}
    (hpost : ∀ r sh', Q r sh') :
    Async.Safe (aging T codec ttl) i Q
      (setNx (lockKey (T.key codec i)) (T.requests i).token REDIS_LOCK_TIMEOUT) sh := by
  apply safe_command (o := .setNx _ _ _) trivial
  · intro now _ _ j cell hstore
    obtain ⟨hkey, hvalue⟩ := hstore.of_setNx
    exact .inr ⟨i, hkey.symm, hvalue⟩
  · exact fun _ _ _ _ _ _ _ _ _ => hpost _ _

theorem safe_onMiss_served (httl : 0 < ttl) {i : Fin n} {sh : Async.Shared (redis Value) n} (mode : String) :
    Async.Safe (aging T codec ttl) i (.ofOk fun b _ => Served T codec ttl i b)
      (onMiss codec (T.key codec i) (T.requests i).token ttl mode) sh := by
  apply Async.Safe.bind
  apply safe_acquire
  intro r sh
  cases r with
  | error e => trivial
  | ok locked =>
    dsimp only
    split
    · apply Async.Safe.tryFinally
      have hlocked : Async.Safe (aging T codec ttl) i (.ofOk fun b _ => Served T codec ttl i b)
          (underLock codec (T.key codec i) ttl) sh := safe_hitOr_served fun _ => safe_loadAndStore_served httl
      apply hlocked.mono
      intro r sh hr
      apply safe_release_lock
      intro d sh
      cases d with
      | error e => trivial
      | ok _ =>
        cases r with
        | error e => trivial
        | ok b => exact hr
    · split
      · exact safe_pollFor_served httl pollRounds
      · exact safe_staleWait_served httl

/-! ## Runs -/

theorem served_of_reach (httl : 0 < ttl) {s₀ : State} (hs₀ : Aged T codec ttl s₀)
    {s : Async.Sys (redis Value) n Bytes} (h : Async.Sys.Reach T.Punctual (T.start codec ttl s₀) s) :
    Aged T codec ttl s.state ∧ ∀ i b, s.outcome i = some (.ok b) → Served T codec ttl i b := by
  have hsafe : ∀ i, Async.Safe (aging T codec ttl) i (.ofOk fun b _ => Served T codec ttl i b)
      ((T.start codec ttl s₀).procs i) (T.start codec ttl s₀).toShared :=
    fun i => safe_hitOr_served fun _ => safe_onMiss_served httl _
  have hstart : (aging T codec ttl).inv (T.start codec ttl s₀).toShared := hs₀
  obtain ⟨haged, hknown⟩ := Async.reach_safe hstart hsafe h
  refine ⟨haged, fun i b hb => ?_⟩
  obtain ⟨sh, hk⟩ := hknown i
  exact hk.outcome hb

/-- Where no digest begins like `b`, and `b` is the short form of `a` with `:lock`, `a` is not hashed. -/
theorem shorten_lock {sha256 : Bytes → String} (hsha : HexDigest sha256) {a b : String} {c : Char} {bs : List Char}
    (hc : ¬(c.isDigit = true ∨ 'a' ≤ c ∧ c ≤ 'f')) (hb : b.toList = c :: bs)
    (h : shorten sha256 a ++ ":lock" = shorten sha256 b) : a ++ ":lock" = b := by
  have hlock : Unhashed (shorten sha256 a ++ ":lock") := by
    refine ⟨'k', ?_, by decide⟩
    rw [String.toList_append]
    exact List.mem_append_right _ (by decide)
  have hshort : shorten sha256 a ++ ":lock" = b := by
    rw [shorten.eq_def sha256 b] at h
    split at h
    · exact absurd h.symm (hsha.ne hlock _)
    · exact h
  rw [shorten] at hshort
  split at hshort
  · have hlist := congrArg String.toList hshort
    rw [String.toList_append, hb] at hlist
    cases hhex : (sha256 (encode a.toList)).toList with
    | nil => exact absurd (String.toList_inj.mp hhex) (hsha.ne_empty _)
    | cons d ds =>
      rw [hhex] at hlist
      have hd : d = c := (List.cons.inj hlist).1
      have hmem : d ∈ (sha256 (encode a.toList)).toList := hhex ▸ List.mem_cons_self
      exact absurd (hd ▸ hsha.hex _ d hmem) hc
  · exact hshort

/-- The lock of one page is the entry of another only where the other's text is this one's and `:lock`. -/
theorem joined_of_lockKey {sha256 : Bytes → String} (hsha : HexDigest sha256) {p p' : ListingParams}
    (h : lockKey (p.key sha256) = p'.key sha256) : p'.joined = p.joined ++ ":lock" := by
  rw [lockKey, p.key_eq hsha, p'.key_eq hsha] at h
  have hkeys : ("phyl:products_listing:" ++ shorten sha256 p.joined) ++ ":lock" =
      "phyl:products_listing:" ++ shorten sha256 p'.joined :=
    shorten_lock hsha (c := 'p') (by decide) (by rw [String.toList_append]; rfl) h
  rw [String.append_assoc, String.append_right_inj] at hkeys
  exact (shorten_lock hsha (c := 'l') (by decide) (by rw [p'.joined_toList]; rfl) hkeys).symm

/-- In no run is a request answered with anything but a page of its key that was true at most the time to live and
the duration of one request before it came, or the token of a lock. -/
theorem pages_fresh (hsha : HexDigest codec.sha256) (httl : 0 < ttl) {s₀ : State} (hs₀ : Aged T codec ttl s₀)
    {s : Async.Sys (redis Value) n Bytes} (h : Async.Sys.Reach T.Punctual (T.start codec ttl s₀) s) {i : Fin n}
    {b : Bytes} (hb : s.outcome i = some (.ok b)) :
    (∃ j v t, (T.requests j).params.joined = (T.requests i).params.joined ∧ T.page (T.requests j).params t v ∧
        b = codec.serialize (build_success v) ∧ T.arrival i < t + T.patience + 1000 * ttl ∧
        t ≤ T.arrival i + T.patience) ∨
      ∃ j, (T.requests i).params.joined = (T.requests j).params.joined ++ ":lock" ∧
        b = encode (T.requests j).token.toList := by
  rcases (served_of_reach httl hs₀ h).2 i b hb with ⟨t, ⟨j, v, hkey, hpage, hvalue⟩, hage, hlate⟩ | ⟨j, hkey, htoken⟩
  · exact .inl ⟨j, v, t, (ListingParams.key_inj hsha).mp hkey, hpage, hvalue, hage, hlate⟩
  · exact .inr ⟨j, joined_of_lockKey hsha hkey, htoken⟩

end

/-! ## A page that was true two seconds ago -/

def hexCodec : Codec where
  sha256 := hexText
  orjson_dumps := fun v => encode (dumps v)

def noItems : Value → Bool
  | .arr [] => true
  | _ => false

/-- There are no products for a second; the second request comes after two. -/
def launch : Traffic 2 where
  requests i := ⟨⟨20, none, none, none⟩, ["a0", "b1"].get i, "wait"⟩
  arrival i := 2000 * i
  patience := 500
  page _ t v := noItems v = decide (t < 1000)

instance (p : ListingParams) (t : ℤ) (v : Value) : Decidable (launch.page p t v) := inferInstanceAs (Decidable (_ = _))

def answer : Option (Except AppErr Bytes) → Option Bytes
  | some (.ok b) => some b
  | _ => none

theorem outcome_of_answer {r : Option (Except AppErr Bytes)} {b : Bytes} (h : answer r = some b) :
    r = some (.ok b) := by
  cases r with
  | none => cases h
  | some r =>
    cases r with
    | error e => cases h
    | ok a =>
      cases h
      rfl

def launchSteps : List (Async.Label (redis Value) 2) :=
  [.proc 0 .up, .proc 0 .up, .proc 0 .up, .proc 0 (.loaded (.ok (.arr []))), .proc 0 .up, .env 400, .proc 0 .up,
    .env 1600, .proc 1 .up]

/-- The second request is served the empty page. -/
theorem pages_fresh_launch : ∃ s : Async.Sys (redis Value) 2 Bytes,
    s.outcome 1 = some (.ok (hexCodec.serialize (build_success (.arr [])))) ∧
    ((∃ j v t, (launch.requests j).params.joined = (launch.requests 1).params.joined ∧
        launch.page (launch.requests j).params t v ∧
        hexCodec.serialize (build_success (.arr [])) = hexCodec.serialize (build_success v) ∧
        launch.arrival 1 < t + launch.patience + 1000 * 210 ∧ t ≤ launch.arrival 1 + launch.patience) ∨
      ∃ j, (launch.requests 1).params.joined = (launch.requests j).params.joined ++ ":lock" ∧
        hexCodec.serialize (build_success (.arr [])) = encode (launch.requests j).token.toList) := by
  have hplay : ((launch.start hexCodec 210 ⟨0, fun _ => none⟩).exec launch.Punctual launchSteps).map
      (fun s => decide (answer (s.outcome 1) = some (hexCodec.serialize (build_success (.arr []))))) =
        some true := by
    decide +kernel
  obtain ⟨s, hs, hdone⟩ := Option.map_eq_some_iff.1 hplay
  have hout := outcome_of_answer (of_decide_eq_true hdone)
  exact ⟨s, hout, pages_fresh hexText_hexDigest (by decide) (fun _ _ hcell => by cases hcell)
    (Async.Sys.Reach.start.exec hs) hout⟩

/-! ## A lock that is read as a page -/

def teaSearch : Traffic 2 where
  requests i := ⟨⟨20, none, some (["tea", "tea:lock"].get i), none⟩, ["a0", "b1"].get i, "wait"⟩
  arrival _ := 0
  patience := 500
  page _ _ _ := True

instance (p : ListingParams) (t : ℤ) (v : Value) : Decidable (teaSearch.page p t v) := .isTrue trivial

example : ((teaSearch.start hexCodec 210 ⟨0, fun _ => none⟩).exec teaSearch.Punctual
    [.proc 0 .up, .proc 0 .up, .proc 1 .up]).map (fun s => decide (answer (s.outcome 1) = some (encode "a0".toList))) =
      some true := by
  decide +kernel

end Phyllonix.Cache
