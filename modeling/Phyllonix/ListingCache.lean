import Phyllonix.CacheStore

/-!
# The cache of the product listing

A request takes the entry, or loads it under a lock, or polls while another request loads.
As long as every loader run ends, with its write, before its lock expires and before another
request has polled in vain, the loader runs once and all requests return what it loaded.
-/

namespace Phyllonix.Cache

open JsonText

/-- `":".join` of the non-empty parts, hashed when it is long. -/
def build_key (sha256 : Bytes → String) (parts : List String) : String :=
  let joined := String.intercalate ":" (parts.filter fun p => p ≠ "")
  if 200 < joined.length then sha256 (Catalog.encode joined.toList) else joined

def build_success (data : Value) : Value :=
  .obj [("status".toList, .str "ok".toList), ("data".toList, data), ("error".toList, .null),
    ("trace_id".toList, .null), ("request_id".toList, .null)]

/-- What the listing cache is built with: the digest of long keys and the encoder of payloads. -/
structure Codec where
  sha256 : Bytes → String
  orjson_dumps : Value → Bytes

def Codec.serialize (codec : Codec) (value : Value) : Bytes := codec.orjson_dumps value

variable (codec : Codec) (key token : String) (ttl : ℤ)

/-- Loads, and stores what it loaded; a failed write is swallowed. -/
def loadAndStore : Py Value Bytes := do
  let value ← load
  let payload_bytes := codec.serialize (build_success value)
  let _ ← (set key payload_bytes ttl : Py Value Unit).attempt
  pure payload_bytes

/-- Returns a hit; an entry that cannot be read is deleted. -/
def hitOr (raw : Option Bytes) (miss : Py Value Bytes) : Py Value Bytes :=
  match raw with
  | none => miss
  | some raw =>
    match deserialize raw with
    | .ok value => pure value
    | .error _ => do
      delete key
      miss

def underLock : Py Value Bytes := do
  -- another request may have stored the entry between the miss and the lock
  let raw_after ← get key
  hitOr key raw_after (loadAndStore codec key ttl)

/-- The rounds of the polling loop that remain, then the fallback. -/
def pollFor : ℕ → Py Value Bytes
  | 0 => loadAndStore codec key ttl
  | rounds + 1 => do
    sleep 50
    let raw_after ← get key
    match raw_after with
    | none => pollFor rounds
    | some raw =>
      match deserialize raw with
      | .ok value => pure value
      | .error _ => do
        delete key
        loadAndStore codec key ttl

/-- `while waited < 9` with steps of 0.05: as floats, 180 of them add up to less than 9. -/
def pollRounds : ℕ := 181

def staleWait : Py Value Bytes := do
  sleep 150
  let raw_after ← get key
  hitOr key raw_after (loadAndStore codec key ttl)

def lockKey : String := key ++ ":lock"

def onMiss (mode : String) : Py Value Bytes := do
  let locked ← setNx (lockKey key) token REDIS_LOCK_TIMEOUT
  if locked then
    (underLock codec key ttl).tryFinally (release_lock (lockKey key) token)
  else if mode = "wait" then pollFor codec key ttl pollRounds
  else staleWait codec key ttl

def cache_get_or_set_product_listings (ns key_suffix : String) (mode : String) : Py Value Bytes := do
  let key := build_key codec.sha256 ["phyl", ns, key_suffix]
  let raw ← get key
  hitOr key raw (onMiss codec key token ttl mode)

/-! ## Loader runs -/

section
variable {n : ℕ}

abbrev Log (n : ℕ) := List (Fin n × Op)

/-- The requests whose loader run has not written yet. -/
def running : Log n → List (Fin n)
  | [] => []
  | (i, .load) :: log => i :: running log
  | (i, .set _ _ _) :: log => (running log).erase i
  | _ :: log => running log

def loads : Log n → ℕ
  | [] => 0
  | (_, .load) :: log => loads log + 1
  | _ :: log => loads log

def gets (i : Fin n) : Log n → ℕ
  | [] => 0
  | (j, .get _) :: log => if j = i then gets i log + 1 else gets i log
  | _ :: log => gets i log

/-- A waiter's poll timeout has passed: it has made its last poll. -/
def PolledOut (i : Fin n) (log : Log n) : Prop := pollRounds < gets i log

/-- The lock is held with this token and has not expired. -/
def Holds (key token : String) (s : State) : Prop :=
  s.keys.get s.clock (lockKey key) = some (Catalog.encode token.toList)

/-- Every loader run under way is before the expiry of its lock, when it is made under the lock, and
within the poll timeout of the other requests; and the entry's time to live has not run out. -/
structure InTime (key : String) (token : Fin n → String) (sh : Async.Shared (redis Value) n) : Prop where
  lock : ∀ i ∈ running sh.log, PolledOut i sh.log ∨ Holds key (token i) sh.state
  timeout : ∀ i ∈ running sh.log, ∀ j, j ≠ i → ¬PolledOut j sh.log
  entry : ∀ cell, sh.state.keys key = some cell → ∃ b, sh.state.keys.get sh.state.clock key = some b

/-- Redis answers, and the loaders succeed. -/
def Succeeds : Async.Label (redis Value) n → Prop
  | .proc _ .up => True
  | .proc _ (.loaded (.ok _)) => True
  | .env _ => True
  | _ => False

instance : (l : Async.Label (redis Value) n) → Decidable (Succeeds l)
  | .proc _ .up => .isTrue trivial
  | .proc _ .down => .isFalse id
  | .proc _ .replyLost => .isFalse id
  | .proc _ (.loaded (.ok _)) => .isTrue trivial
  | .proc _ (.loaded (.error _)) => .isFalse id
  | .env _ => .isTrue trivial

instance (i : Fin n) (log : Log n) : Decidable (PolledOut i log) := inferInstanceAs (Decidable (_ < _))

instance (key token : String) (s : State) : Decidable (Holds key token s) :=
  inferInstanceAs (Decidable (_ = _))

theorem inTime_iff {key : String} {token : Fin n → String} {sh : Async.Shared (redis Value) n} :
    InTime key token sh ↔
      (∀ i ∈ running sh.log, PolledOut i sh.log ∨ Holds key (token i) sh.state) ∧
      (∀ i ∈ running sh.log, ∀ j, j ≠ i → ¬PolledOut j sh.log) ∧
      ((sh.state.keys key).isSome → (sh.state.keys.get sh.state.clock key).isSome) := by
  simp only [Option.isSome_iff_exists]
  exact ⟨fun h => ⟨h.lock, h.timeout, fun ⟨cell, hcell⟩ => h.entry cell hcell⟩,
    fun h => ⟨h.1, h.2.1, fun cell hcell => h.2.2 ⟨cell, hcell⟩⟩⟩

instance (key : String) (token : Fin n → String) (sh : Async.Shared (redis Value) n) :
    Decidable (InTime key token sh) := decidable_of_iff _ inTime_iff.symm

/-! ## What one request relies on -/

/-- How far the requests have come with the entry. -/
inductive Stage (key : String) (sh : Async.Shared (redis Value) n) : Prop
  | idle (absent : sh.state.keys key = none) (none_running : running sh.log = []) (none_loaded : loads sh.log = 0)
  | loading (i : Fin n) (absent : sh.state.keys key = none) (running_i : running sh.log = [i])
      (once : loads sh.log = 1)
  | stored (cell : Cell) (present : sh.state.keys key = some cell) (none_running : running sh.log = [])
      (once : loads sh.log = 1)

/-- What the other requests leave to request `i`. -/
structure Leaves (key : String) (token : Fin n → String) (i : Fin n) (sh sh' : Async.Shared (redis Value) n) :
    Prop where
  entry : ∀ cell, sh.state.keys key = some cell → sh'.state.keys key = some cell
  gets : gets i sh'.log = gets i sh.log
  polled : ∀ j, Cache.gets j sh.log ≤ Cache.gets j sh'.log
  running : i ∈ Cache.running sh'.log ↔ i ∈ Cache.running sh.log
  lost : ¬Holds key (token i) sh.state → ¬Holds key (token i) sh'.state
  /-- an entry is stored under another lock, or after a poll timeout -/
  filled : sh.state.keys key = none → sh'.state.keys key ≠ none → ¬PolledOut i sh.log ∧
    (¬Holds key (token i) sh'.state ∨ ∃ j, j ≠ i ∧ PolledOut j sh'.log)

variable {key : String} {token : Fin n → String}

theorem Leaves.refl (i : Fin n) (sh : Async.Shared (redis Value) n) : Leaves key token i sh sh where
  entry := fun _ h => h
  gets := rfl
  polled := fun _ => le_rfl
  running := Iff.rfl
  lost := id
  filled := fun h h' => absurd h h'

theorem Leaves.trans {i : Fin n} {sh sh' sh'' : Async.Shared (redis Value) n}
    (h : Leaves key token i sh sh') (h' : Leaves key token i sh' sh'') : Leaves key token i sh sh'' where
  entry := fun cell hc => h'.entry cell (h.entry cell hc)
  gets := h'.gets.trans h.gets
  polled := fun j => (h.polled j).trans (h'.polled j)
  running := h'.running.trans h.running
  lost := fun hl => h'.lost (h.lost hl)
  filled := by
    intro habsent hpresent
    by_cases hmid : sh'.state.keys key = none
    · obtain ⟨hpolled, hlost⟩ := h'.filled hmid hpresent
      refine ⟨?_, hlost⟩
      rwa [PolledOut, ← h.gets]
    · obtain ⟨hpolled, hlost⟩ := h.filled habsent hmid
      refine ⟨hpolled, hlost.imp h'.lost ?_⟩
      exact fun ⟨j, hj, hout⟩ => ⟨j, hj, lt_of_lt_of_le hout (h'.polled j)⟩

/-- What is live later was live before. -/
theorem get_of_later {keys : Keys} {now : ℤ} {d : ℕ} {k : String} {b : Bytes}
    (h : keys.get (now + d) k = some b) : keys.get now k = some b := by
  obtain ⟨cell, hcell, hvalue⟩ := Option.map_eq_some_iff.1 h
  obtain ⟨hmem, hlive⟩ := Option.filter_eq_some_iff.1 hcell
  refine Option.map_eq_some_iff.2 ⟨cell, Option.filter_eq_some_iff.2 ⟨hmem, ?_⟩, hvalue⟩
  cases hexp : cell.expireAt with
  | none => rfl
  | some t =>
    rw [hexp] at hlive
    simp only [Option.all_some, decide_eq_true_eq] at hlive ⊢
    omega

theorem leaves_env (i : Fin n) (d : ℕ) (sh : Async.Shared (redis Value) n) :
    Leaves key token i sh { sh with state := (redis Value).env d sh.state } where
  entry := fun _ h => h
  gets := rfl
  polled := fun _ => le_rfl
  running := Iff.rfl
  lost := fun hl hheld => hl (get_of_later hheld)
  filled := fun h h' => absurd h h'

/-- The runs of the claim: commands and loaders succeed, and the states are in time. -/
def Timely (key : String) (token : Fin n → String) : Async.Allows (redis Value) n :=
  fun l sh => Succeeds l ∧ InTime key token sh

instance (key : String) (token : Fin n → String) (l : Async.Label (redis Value) n)
    (sh : Async.Shared (redis Value) n) : Decidable (Timely key token l sh) :=
  inferInstanceAs (Decidable (_ ∧ _))

def protocol (key : String) (token : Fin n → String) :
    Async.Protocol (redis Value) n (Timely key token) where
  inv sh := InTime key token sh ∧ Stage key sh
  rely := Leaves key token
  rely_refl := Leaves.refl
  rely_trans := Leaves.trans
  env_inv := by
    intro d sh hinv hallow
    refine ⟨hallow.2, ?_⟩
    cases hinv.2 with
    | idle absent hrun hloads => exact .idle absent hrun hloads
    | loading i absent hrun hloads => exact .loading i absent hrun hloads
    | stored cell present hrun hloads => exact .stored cell present hrun hloads
  env_rely := fun i d sh _ => leaves_env i d sh

/-! ## Commands -/

theorem exchange_succeeds {β : Type} {i : Fin n} {c : Choice Value} (hc : Succeeds (.proc i c)) {s : State}
    {r r' : Except AppErr β} {keys : Keys} {s' : State} (h : exchange c s r keys = some (r', s')) :
    r' = r ∧ s' = { s with keys } := by
  cases c with
  | up =>
    cases h
    exact ⟨rfl, rfl⟩
  | down => exact hc.elim
  | replyLost => exact hc.elim
  | loaded _ => cases h

theorem lockKey_ne : lockKey key ≠ key := by
  intro h
  have hlen := congrArg String.length h
  have hsuffix : ":lock".length = 5 := by decide
  rw [lockKey, String.length_append] at hlen
  omega

/-- A command that leaves the entry, the loader runs and the locks of the others. -/
structure Quiet (key : String) (token : Fin n → String) (i : Fin n) (o : Op)
    (now sh' : Async.Shared (redis Value) n) : Prop where
  log : sh'.log = (i, o) :: now.log
  entry : sh'.state.keys key = now.state.keys key
  running : Cache.running sh'.log = Cache.running now.log
  loads : Cache.loads sh'.log = Cache.loads now.log
  gets : ∀ j, j ≠ i → Cache.gets j sh'.log = Cache.gets j now.log
  more : Cache.gets i now.log ≤ Cache.gets i sh'.log
  lost : ∀ j, j ≠ i → ¬Holds key (token j) now.state → ¬Holds key (token j) sh'.state

theorem Quiet.keeps {i : Fin n} {o : Op} {c : Choice Value} {now sh' : Async.Shared (redis Value) n}
    (h : Quiet key token i o now sh') (hinv : (protocol key token).inv now)
    (hallow : Timely key token (.proc i c) sh') :
    (protocol key token).inv sh' ∧ ∀ j, j ≠ i → (protocol key token).rely j now sh' := by
  refine ⟨⟨hallow.2, ?_⟩, fun j hj => ?_⟩
  · cases hinv.2 with
    | idle absent hrun hloads => exact .idle (h.entry.trans absent) (h.running.trans hrun) (h.loads.trans hloads)
    | loading k absent hrun hloads =>
      exact .loading k (h.entry.trans absent) (h.running.trans hrun) (h.loads.trans hloads)
    | stored cell present hrun hloads =>
      exact .stored cell (h.entry.trans present) (h.running.trans hrun) (h.loads.trans hloads)
  · refine ⟨fun cell hc => h.entry.trans hc, h.gets j hj, fun k => ?_, by rw [h.running], h.lost j hj,
      fun habsent hpresent => absurd (h.entry.trans habsent) hpresent⟩
    by_cases hk : k = i
    · subst hk
      exact h.more
    · exact (h.gets k hk).ge

theorem get_performs (key : String) (token : Fin n → String) {i : Fin n} {k : String}
    {c : Choice Value} {r : Except AppErr (Option Bytes)}
    {now sh' : Async.Shared (redis Value) n} (hc : Succeeds (.proc i c))
    (h : Async.Performs (M := redis Value) i (.get k) c r now sh') :
    r = .ok (now.state.keys.get now.state.clock k) ∧ sh'.state = now.state ∧
      Quiet key token i (.get k) now sh' := by
  obtain ⟨hr, hs⟩ := exchange_succeeds hc h.1
  have hstate : sh'.state = now.state := hs
  refine ⟨hr, hstate, h.2, by rw [hstate], by rw [h.2]; rfl, by rw [h.2]; rfl, fun j hj => ?_, ?_,
    fun j _ => by rw [hstate]; exact id⟩
  · rw [h.2, gets, if_neg (Ne.symm hj)]
  · rw [h.2, gets, if_pos rfl]
    omega

theorem sleep_performs (key : String) (token : Fin n → String) {i : Fin n} {ms : ℕ}
    {c : Choice Value} {r : Except AppErr Unit}
    {now sh' : Async.Shared (redis Value) n} (hc : Succeeds (.proc i c))
    (h : Async.Performs (M := redis Value) i (.sleep ms) c r now sh') :
    r = .ok () ∧ Quiet key token i (.sleep ms) now sh' := by
  obtain ⟨hr, hs⟩ := exchange_succeeds hc h.1
  have hstate : sh'.state = now.state := hs
  exact ⟨hr, h.2, by rw [hstate], by rw [h.2]; rfl, by rw [h.2]; rfl, fun j _ => by rw [h.2]; rfl,
    by rw [h.2]; exact le_rfl, fun j _ => by rw [hstate]; exact id⟩

/-- Keys of which only the lock changed, and not to the token of `j`. -/
theorem not_holds_of_lock {s : State} {keys : Keys} {token : String} {cell : Option Cell}
    (hkeys : keys = Function.update s.keys (lockKey key) cell)
    (hcell : ∀ c ∈ cell, c.value ≠ Catalog.encode token.toList) : ¬Holds key token { s with keys } := by
  intro hheld
  obtain ⟨c, hc, hvalue⟩ := Option.map_eq_some_iff.1 hheld
  obtain ⟨hmem, -⟩ := Option.filter_eq_some_iff.1 hc
  have hcell' : keys (lockKey key) = cell := by rw [hkeys, Function.update_self]
  exact hcell c (hcell' ▸ hmem) hvalue

theorem encode_injective {a b : String} (h : Catalog.encode a.toList = Catalog.encode b.toList) : a = b := by
  have hlist : some a.toList = some b.toList := by
    rw [← Catalog.decode_encode, h, Catalog.decode_encode]
  exact String.toList_inj.1 (Option.some.inj hlist)

theorem setNx_performs (htoken : Function.Injective token) {i : Fin n} {c : Choice Value}
    {r : Except AppErr Bool} {now sh' : Async.Shared (redis Value) n} (hc : Succeeds (.proc i c))
    (h : Async.Performs (M := redis Value) i (.setNx (lockKey key) (token i) REDIS_LOCK_TIMEOUT) c r now sh') :
    (∃ locked, r = .ok locked) ∧
      Quiet key token i (.setNx (lockKey key) (token i) REDIS_LOCK_TIMEOUT) now sh' := by
  have hstep := h.1
  simp only [Op.step] at hstep
  split at hstep
  · obtain ⟨hr, hs⟩ := exchange_succeeds hc hstep
    have hstate : sh'.state = now.state := hs
    exact ⟨⟨false, hr⟩, h.2, by rw [hstate], by rw [h.2]; rfl, by rw [h.2]; rfl, fun j _ => by rw [h.2]; rfl,
      by rw [h.2]; exact le_rfl, fun j _ => by rw [hstate]; exact id⟩
  · obtain ⟨hr, hs⟩ := exchange_succeeds hc hstep
    refine ⟨⟨true, hr⟩, h.2, ?_, by rw [h.2]; rfl, by rw [h.2]; rfl, fun j _ => by rw [h.2]; rfl,
      by rw [h.2]; exact le_rfl, fun j hj _ => ?_⟩
    · rw [hs]
      exact Function.update_of_ne (Ne.symm lockKey_ne) _ _
    · rw [hs]
      refine not_holds_of_lock rfl fun cell hcell => ?_
      cases hcell
      exact fun heq => hj (htoken (encode_injective heq)).symm

theorem release_performs {i : Fin n} {c : Choice Value}
    {r : Except AppErr ℤ} {now sh' : Async.Shared (redis Value) n} (hc : Succeeds (.proc i c))
    (h : Async.Performs (M := redis Value) i (.eval .releaseLock [lockKey key] [.text (token i).toList])
      c r now sh') :
    (∃ z, r = .ok z) ∧
      Quiet key token i (.eval .releaseLock [lockKey key] [.text (token i).toList]) now sh' := by
  have hstep : exchange c now.state
      (.ok (releaseLockLua now.state.keys now.state.clock (lockKey key) (Catalog.encode (token i).toList)).1)
      (releaseLockLua now.state.keys now.state.clock (lockKey key) (Catalog.encode (token i).toList)).2 =
      some (r, sh'.state) := h.1
  obtain ⟨hr, hs⟩ := exchange_succeeds hc hstep
  refine ⟨⟨_, hr⟩, h.2, ?_, by rw [h.2]; rfl, by rw [h.2]; rfl, fun j _ => by rw [h.2]; rfl,
    by rw [h.2]; exact le_rfl, fun j hj hlost => ?_⟩
  · rw [hs, releaseLockLua]
    split
    · exact Function.update_of_ne (Ne.symm lockKey_ne) _ _
    · rfl
  · rw [hs, releaseLockLua]
    split
    · exact not_holds_of_lock rfl (by simp)
    · exact hlost

/-! ## A request -/

/-- What a request returns is the entry. -/
def Returned (key : String) : Async.Post (redis Value) n Bytes :=
  fun r sh => ∃ b cell, r = .ok b ∧ sh.state.keys key = some cell ∧ cell.value = b

theorem Returned.later {r : Except AppErr Bytes} {i : Fin n} {sh sh' : Async.Shared (redis Value) n}
    (h : Returned key r sh) (hrely : Leaves key token i sh sh') : Returned key r sh' := by
  obtain ⟨b, cell, hr, hcell, hvalue⟩ := h
  exact ⟨b, cell, hr, hrely.entry cell hcell, hvalue⟩

theorem returned_of_get {sh : Async.Shared (redis Value) n} {b : Bytes}
    (h : sh.state.keys.get sh.state.clock key = some b) : Returned key (.ok b) sh := by
  obtain ⟨cell, hcell, hvalue⟩ := Option.map_eq_some_iff.1 h
  exact ⟨b, cell, rfl, (Option.filter_eq_some_iff.1 hcell).1, hvalue⟩

theorem absent_of_get {sh : Async.Shared (redis Value) n} (hin : InTime key token sh)
    (h : sh.state.keys.get sh.state.clock key = none) : sh.state.keys key = none := by
  cases hcell : sh.state.keys key with
  | none => rfl
  | some cell =>
    obtain ⟨b, hb⟩ := hin.entry cell hcell
    rw [h] at hb
    cases hb

/-- Two locks are not held at once. -/
theorem holds_unique (htoken : Function.Injective token) {i j : Fin n} {s : State}
    (hi : Holds key (token i) s) (hj : Holds key (token j) s) : i = j :=
  htoken (encode_injective (Option.some.inj (hi.symm.trans hj)))

/-- Of two loader runs in time, one is the other. -/
theorem inTime_unique (htoken : Function.Injective token) {sh : Async.Shared (redis Value) n}
    (h : InTime key token sh) {i j : Fin n} (hi : i ∈ running sh.log) (hj : j ∈ running sh.log) : i = j := by
  by_contra hne
  have hiheld : Holds key (token i) sh.state := (h.lock i hi).resolve_left (h.timeout j hj i hne)
  have hjheld : Holds key (token j) sh.state := (h.lock j hj).resolve_left (h.timeout i hi j (Ne.symm hne))
  exact hne (holds_unique htoken hiheld hjheld)

variable {codec : Codec} {ttl : ℤ}

theorem load_performs {i : Fin n} {c : Choice Value} {r : Except AppErr Value}
    {now sh' : Async.Shared (redis Value) n} (hc : Succeeds (.proc i c))
    (h : Async.Performs (M := redis Value) i .load c r now sh') :
    (∃ v, r = .ok v) ∧ sh'.state = now.state ∧ sh'.log = (i, .load) :: now.log := by
  cases c with
  | loaded res =>
    obtain ⟨hr, hs⟩ := Prod.mk.inj (Option.some.inj h.1)
    cases res with
    | ok v => exact ⟨⟨v, hr.symm⟩, hs.symm, h.2⟩
    | error e => exact hc.elim
  | up => exact absurd h.1 (by simp [Op.step])
  | down => exact absurd h.1 (by simp [Op.step])
  | replyLost => exact absurd h.1 (by simp [Op.step])

theorem set_performs (httl : 0 < ttl) {i : Fin n} {payload : Bytes} {c : Choice Value} {r : Except AppErr Unit}
    {now sh' : Async.Shared (redis Value) n} (hc : Succeeds (.proc i c))
    (h : Async.Performs (M := redis Value) i (.set key payload ttl) c r now sh') :
    r = .ok () ∧ sh'.log = (i, .set key payload ttl) :: now.log ∧ ∃ cell : Cell, cell.value = payload ∧
      sh'.state = { now.state with keys := Function.update now.state.keys key (some cell) } := by
  have hstep := h.1
  simp only [Op.step, Keys.set, if_pos httl] at hstep
  obtain ⟨hr, hs⟩ := exchange_succeeds hc hstep
  exact ⟨hr, h.2, _, rfl, hs⟩

/-- The loader is called when the entry is absent and no other run is under way. -/
theorem load_keeps (htoken : Function.Injective token) {i : Fin n} {sh now sh' : Async.Shared (redis Value) n}
    (hidle : i ∉ running sh.log) (habsent : sh.state.keys key = none) (hrely : Leaves key token i sh now)
    (hinv : (protocol key token).inv now) (hstate : sh'.state = now.state)
    (hlog : sh'.log = (i, .load) :: now.log) (hin : InTime key token sh') :
    (protocol key token).inv sh' ∧ ∀ j, j ≠ i → (protocol key token).rely j now sh' := by
  have hrun : running sh'.log = i :: running now.log := by rw [hlog]; rfl
  have hloads : loads sh'.log = loads now.log + 1 := by rw [hlog]; rfl
  have hgets : ∀ j, gets j sh'.log = gets j now.log := fun j => by rw [hlog]; rfl
  have hi : i ∈ running sh'.log := hrun ▸ List.mem_cons_self
  have hnow : now.state.keys key = none := by
    by_contra hpresent
    obtain ⟨hpolled, hother⟩ := hrely.filled habsent hpresent
    have hheld : Holds key (token i) now.state := by
      refine hstate ▸ (hin.lock i hi).resolve_left fun hout => hpolled ?_
      rwa [PolledOut, hgets, hrely.gets] at hout
    obtain ⟨j, hj, hout⟩ := hother.resolve_left (not_not.2 hheld)
    exact hin.timeout i hi j hj (by rwa [PolledOut, hgets])
  refine ⟨⟨hin, ?_⟩, fun j hj => ?_⟩
  · cases hinv.2 with
    | idle absent hnone hzero => exact .loading i (hstate ▸ absent) (by rw [hrun, hnone]) (by rw [hloads, hzero])
    | loading k absent hk hone =>
      have hik : i = k := inTime_unique htoken hin hi (by rw [hrun, hk]; simp)
      exact absurd (hrely.running.1 (by rw [hk, hik]; exact List.mem_singleton_self k)) hidle
    | stored cell present _ _ =>
      rw [hnow] at present
      cases present
  · exact ⟨fun cell hc => hstate ▸ hc, hgets j, fun k => (hgets k).ge, by simp [hrun, hj],
      fun hlost => hstate ▸ hlost, fun h hpresent => absurd (hstate ▸ h) hpresent⟩

/-- The write of a loader run stores the entry. -/
theorem set_keeps (htoken : Function.Injective token) {i : Fin n} {payload : Bytes} {cell : Cell}
    {now sh' : Async.Shared (redis Value) n} (hi : i ∈ running now.log) (hinv : (protocol key token).inv now)
    (hlog : sh'.log = (i, .set key payload ttl) :: now.log)
    (hstate : sh'.state = { now.state with keys := Function.update now.state.keys key (some cell) })
    (hin : InTime key token sh') :
    (protocol key token).inv sh' ∧ ∀ j, j ≠ i → (protocol key token).rely j now sh' := by
  have hrun : running sh'.log = (running now.log).erase i := by rw [hlog]; rfl
  have hloads : loads sh'.log = loads now.log := by rw [hlog]; rfl
  have hgets : ∀ j, gets j sh'.log = gets j now.log := fun j => by rw [hlog]; rfl
  have hentry : sh'.state.keys key = some cell := by
    rw [hstate]
    exact Function.update_self _ _ _
  have hlocks : ∀ k, Holds key k sh'.state ↔ Holds key k now.state := by
    intro k
    rw [Holds, Holds, hstate, Keys.get, Keys.get]
    dsimp only
    rw [Function.update_of_ne lockKey_ne]
  cases hinv.2 with
  | idle _ hnone _ => simp [hnone] at hi
  | stored _ _ hnone _ => simp [hnone] at hi
  | loading k absent hk hone =>
    have hik : i = k := by simpa [hk] using hi
    subst hik
    refine ⟨⟨hin, .stored cell hentry (by rw [hrun, hk]; simp) (hloads.trans hone)⟩, fun j hj => ?_⟩
    refine ⟨fun c hc => ?_, hgets j, fun k => (hgets k).ge, ?_, fun hlost hheld => hlost ((hlocks _).1 hheld),
      fun _ _ => ⟨hinv.1.timeout i hi j hj, ?_⟩⟩
    · rw [absent] at hc
      cases hc
    · rw [hrun, List.mem_erase_of_ne hj]
    · cases hinv.1.lock i hi with
      | inl hout => exact .inr ⟨i, Ne.symm hj, by rwa [PolledOut, hgets]⟩
      | inr hheld => exact .inl fun hother => hj (holds_unique htoken ((hlocks _).1 hother) hheld)

theorem safe_loadAndStore (htoken : Function.Injective token) (httl : 0 < ttl) {i : Fin n}
    {sh : Async.Shared (redis Value) n} (hidle : i ∉ running sh.log) (habsent : sh.state.keys key = none) :
    Async.Safe (protocol key token) i (Returned key) (loadAndStore codec key ttl) sh := by
  refine Async.Safe.bind (Async.Safe.call fun now hrely hinv c r sh₁ hperforms hallow => ?_)
  obtain ⟨⟨v, rfl⟩, hstate, hlog⟩ := load_performs hallow.1 hperforms
  obtain ⟨hinv₁, hothers⟩ := load_keeps htoken hidle habsent hrely hinv hstate hlog hallow.2
  refine ⟨hinv₁, hothers, Async.Safe.bind (Async.Safe.attempt (Async.Safe.call ?_))⟩
  intro now₁ hrely₁ hinv' c₁ r₁ sh₂ hperforms₁ hallow₁
  have hi : i ∈ running now₁.log := hrely₁.running.2 (by rw [hlog]; exact List.mem_cons_self)
  obtain ⟨rfl, hlog₂, cell, hcell, hstate₂⟩ := set_performs httl hallow₁.1 hperforms₁
  obtain ⟨hinv₂, hothers₂⟩ := set_keeps htoken hi hinv' hlog₂ hstate₂ hallow₁.2
  refine ⟨hinv₂, hothers₂, _, cell, rfl, ?_, hcell⟩
  rw [hstate₂]
  exact Function.update_self _ _ _

theorem Quiet.idle {i : Fin n} {o : Op} {now sh' : Async.Shared (redis Value) n} (h : Quiet key token i o now sh')
    (hidle : i ∉ Cache.running now.log) : i ∉ Cache.running sh'.log := by
  rwa [h.running]

/-- A look at the entry: a hit is returned, after a miss the entry is absent. -/
theorem safe_hitOr {i : Fin n} {sh : Async.Shared (redis Value) n} {miss : Py Value Bytes}
    (hidle : i ∉ running sh.log)
    (hmiss : ∀ sh', i ∉ running sh'.log → sh'.state.keys key = none →
      Async.Safe (protocol key token) i (Returned key) miss sh') :
    Async.Safe (protocol key token) i (Returned key) (get key >>= fun raw => hitOr key raw miss) sh := by
  refine Async.Safe.bind (Async.Safe.call fun now hrely hinv c r sh' hperforms hallow => ?_)
  obtain ⟨rfl, hstate, hquiet⟩ := get_performs key token hallow.1 hperforms
  obtain ⟨hinv', hothers⟩ := hquiet.keeps hinv hallow
  have hidle' : i ∉ running sh'.log := hquiet.idle (mt hrely.running.1 hidle)
  refine ⟨hinv', hothers, ?_⟩
  rw [← hstate]
  cases hget : sh'.state.keys.get sh'.state.clock key with
  | none => exact hmiss sh' hidle' (absent_of_get hallow.2 hget)
  | some b => exact returned_of_get hget

theorem safe_pollFor (htoken : Function.Injective token) (httl : 0 < ttl) {i : Fin n} (rounds : ℕ)
    {sh : Async.Shared (redis Value) n} (hidle : i ∉ running sh.log)
    (habsent : rounds = 0 → sh.state.keys key = none) :
    Async.Safe (protocol key token) i (Returned key) (pollFor codec key ttl rounds) sh := by
  induction rounds generalizing sh with
  | zero => exact safe_loadAndStore htoken httl hidle (habsent rfl)
  | succ rounds ih =>
    refine Async.Safe.bind (Async.Safe.call fun now hrely hinv c r sh₁ hperforms hallow => ?_)
    obtain ⟨rfl, hquiet⟩ := sleep_performs key token hallow.1 hperforms
    obtain ⟨hinv₁, hothers⟩ := hquiet.keeps hinv hallow
    have hidle₁ : i ∉ running sh₁.log := hquiet.idle (mt hrely.running.1 hidle)
    refine ⟨hinv₁, hothers, ?_⟩
    exact safe_hitOr hidle₁ fun sh' hidle' habsent' => ih hidle' fun _ => habsent'

/-- The lock is released after the block, whatever it returned. -/
theorem safe_released {i : Fin n} {p : Py Value Bytes} {sh : Async.Shared (redis Value) n}
    (h : Async.Safe (protocol key token) i (Returned key) p sh) :
    Async.Safe (protocol key token) i (Returned key)
      (p.tryFinally (release_lock (lockKey key) (token i))) sh := by
  refine Async.Safe.tryFinally (h.mono fun r sh₁ hr => ?_)
  refine Async.Safe.bind (Async.Safe.attempt (Async.Safe.call ?_))
  intro now hrely hinv c d sh' hperforms hallow
  obtain ⟨⟨z, rfl⟩, hquiet⟩ := release_performs hallow.1 hperforms
  obtain ⟨hinv', hothers⟩ := hquiet.keeps hinv hallow
  obtain ⟨b, cell, hb, hcell, hvalue⟩ := hr.later hrely
  exact ⟨hinv', hothers, b, cell, hb, hquiet.entry.trans hcell, hvalue⟩

theorem safe_onMiss (htoken : Function.Injective token) (httl : 0 < ttl) {i : Fin n}
    {sh : Async.Shared (redis Value) n} (hidle : i ∉ running sh.log) :
    Async.Safe (protocol key token) i (Returned key) (onMiss codec key (token i) ttl "wait") sh := by
  refine Async.Safe.bind (Async.Safe.call fun now hrely hinv c r sh₁ hperforms hallow => ?_)
  obtain ⟨⟨locked, rfl⟩, hquiet⟩ := setNx_performs htoken hallow.1 hperforms
  obtain ⟨hinv₁, hothers⟩ := hquiet.keeps hinv hallow
  have hidle₁ : i ∉ running sh₁.log := hquiet.idle (mt hrely.running.1 hidle)
  refine ⟨hinv₁, hothers, ?_⟩
  cases locked with
  | false => exact safe_pollFor htoken httl pollRounds hidle₁ (fun h => absurd h (by decide))
  | true =>
    exact safe_released (safe_hitOr hidle₁ fun sh' hidle' habsent' =>
      safe_loadAndStore htoken httl hidle' habsent')

/-! ## Requests end -/

theorem loadAndStore_within : (loadAndStore codec key ttl).Within 2 :=
  (Async.Prog.within_call _).bind fun _ =>
    (Async.Prog.within_call _).attempt.bind fun _ => Async.Prog.within_pure _ 0

theorem getOr_within {m : ℕ} {miss : Py Value Bytes} (h : miss.Within m) :
    (get key >>= fun raw => hitOr key raw miss : Py Value Bytes).Within (1 + m) := by
  refine (Async.Prog.within_call _).bind fun raw => ?_
  cases raw with
  | none => exact h
  | some b => exact Async.Prog.within_pure b m

theorem pollFor_within (rounds : ℕ) : (pollFor codec key ttl rounds).Within (2 * rounds + 2) := by
  induction rounds with
  | zero => exact loadAndStore_within
  | succ rounds ih =>
    have hround : (pollFor codec key ttl (rounds + 1)).Within (1 + (1 + (2 * rounds + 2))) :=
      (Async.Prog.within_call _).bind fun _ => getOr_within ih
    exact hround.mono (by omega)

theorem onMiss_within (token : String) :
    (onMiss codec key token ttl "wait").Within (1 + (2 * pollRounds + 2)) := by
  refine (Async.Prog.within_call _).bind fun locked => ?_
  cases locked with
  | false => exact pollFor_within pollRounds
  | true =>
    have hlocked : ((underLock codec key ttl).tryFinally (release_lock (lockKey key) token)).Within
        (1 + 2 + (1 + 1)) := (getOr_within loadAndStore_within).tryFinally (release_lock_within _ _)
    exact hlocked.mono (by decide)

/-- The requests before their first command. -/
def requests (codec : Codec) (ns key_suffix : String) (ttl : ℤ) (token : Fin n → String) (s : State) :
    Async.Sys (redis Value) n Bytes where
  state := s
  procs i := cache_get_or_set_product_listings codec (token i) ttl ns key_suffix "wait"

theorem succeeds_answer {s : Async.Sys (redis Value) n Bytes} {i : Fin n} (h : s.outcome i = none) :
    ∃ c, Succeeds (.proc i c) ∧ (s.step (.proc i c)).isSome = true := by
  obtain ⟨c, hc, hstep⟩ := exists_step .null h
  refine ⟨c, ?_, hstep⟩
  cases hc with
  | inl hup => exact hup ▸ trivial
  | inr hloaded => exact hloaded ▸ trivial

theorem Stage.loads_once {s : Async.Sys (redis Value) n Bytes} (hstage : Stage key s.toShared)
    (hreturned : ∀ i r, s.outcome i = some r → Returned key r s.toShared) :
    loads s.log ≤ 1 ∧ ∃ b, ∀ i r, s.outcome i = some r → r = .ok b ∧ loads s.log = 1 := by
  have habsent : s.state.keys key = none → ∀ i r, s.outcome i = some r → False := by
    intro habsent i r hr
    obtain ⟨b, cell, -, hcell, -⟩ := hreturned i r hr
    rw [habsent] at hcell
    cases hcell
  cases hstage with
  | idle absent _ hzero =>
    exact ⟨hzero ▸ Nat.zero_le 1, [], fun i r hr => (habsent absent i r hr).elim⟩
  | loading k absent _ hone => exact ⟨hone.le, [], fun i r hr => (habsent absent i r hr).elim⟩
  | stored cell present _ hone =>
    refine ⟨hone.le, cell.value, fun i r hr => ?_⟩
    obtain ⟨b, cell', hb, hcell, hvalue⟩ := hreturned i r hr
    rw [present, Option.some.injEq] at hcell
    rw [hb, ← hvalue, ← hcell]
    exact ⟨rfl, hone⟩

/-- The loader runs at most once, exactly once when a request has returned, and all requests return
the bytes of the entry; and they do return, since a request awaits at most 366 commands, and each of
them can be answered. -/
theorem loader_runs_once (codec : Codec) (ns key_suffix : String) (ttl : ℤ) (httl : 0 < ttl)
    (token : Fin n → String) (htoken : Function.Injective token) (s₀ : State)
    (hentry : s₀.keys (build_key codec.sha256 ["phyl", ns, key_suffix]) = none)
    {s : Async.Sys (redis Value) n Bytes}
    (h : Async.Sys.Reach (Timely (build_key codec.sha256 ["phyl", ns, key_suffix]) token)
      (requests codec ns key_suffix ttl token s₀) s) :
    loads s.log ≤ 1 ∧ (∃ b, ∀ i r, s.outcome i = some r → r = .ok b ∧ loads s.log = 1) ∧
      ∀ i, Async.awaited i s.log ≤ 366 ∧
        (s.outcome i = none → ∃ c, Succeeds (.proc i c) ∧ (s.step (.proc i c)).isSome = true) := by
  set key := build_key codec.sha256 ["phyl", ns, key_suffix]
  have hnone : ∀ i : Fin n, i ∉ running (n := n) [] := fun i hi => absurd hi (by simp [running])
  have hstart : (protocol key token).inv (requests codec ns key_suffix ttl token s₀).toShared := by
    refine ⟨⟨fun i hi => absurd hi (hnone i), fun i hi => absurd hi (hnone i), fun cell hcell => ?_⟩,
      .idle hentry rfl rfl⟩
    cases hentry.symm.trans hcell
  have hsafe : ∀ i, Async.Safe (protocol key token) i (Returned key)
      ((requests codec ns key_suffix ttl token s₀).procs i)
      (requests codec ns key_suffix ttl token s₀).toShared :=
    fun i => safe_hitOr (hnone i) fun sh' hidle' _ => safe_onMiss htoken httl hidle'
  obtain ⟨⟨hin, hstage⟩, hknown⟩ := Async.reach_safe hstart hsafe h
  have hreturned : ∀ i r, s.outcome i = some r → Returned key r s.toShared := by
    intro i r hr
    obtain ⟨sh, hk⟩ := hknown i
    exact (hk.outcome hr).later hk.rely
  obtain ⟨hloads, hbytes⟩ := hstage.loads_once hreturned
  refine ⟨hloads, hbytes, fun i => ⟨?_, succeeds_answer⟩⟩
  have hwithin : ((requests codec ns key_suffix ttl token s₀).procs i).Within 366 :=
    getOr_within (onMiss_within (token i))
  obtain ⟨k, -, hle⟩ := h.awaited_le hwithin rfl
  exact le_trans (Nat.le_add_right _ k) hle

/-- Three requests: one loads, one polls, and one takes the lock when it is free again. -/
def herdTokens (i : Fin 3) : String := ["a0", "b1", "c2"].get i

def plainCodec : Codec where
  sha256 := fun _ => ""
  orjson_dumps := fun v => Catalog.encode (dumps v)

def herd : Async.Sys (redis Value) 3 Bytes :=
  requests plainCodec "products_listing" "limit=20" 210 herdTokens ⟨0, fun _ => none⟩

def herdSteps : List (Async.Label (redis Value) 3) :=
  [.proc 0 .up, .proc 1 .up, .proc 2 .up, .proc 0 .up, .proc 1 .up, .proc 0 .up,
    .proc 0 (.loaded (.ok (.arr []))), .env 100, .proc 1 .up, .proc 1 .up, .proc 0 .up, .proc 0 .up,
    .proc 2 .up, .proc 2 .up, .proc 2 .up, .proc 1 .up, .proc 1 .up]

theorem loader_runs_once_herd : ∃ s : Async.Sys (redis Value) 3 Bytes, (∀ i, (s.outcome i).isSome = true) ∧
    loads s.log ≤ 1 ∧ (∃ b, ∀ i r, s.outcome i = some r → r = .ok b ∧ loads s.log = 1) ∧
      ∀ i, Async.awaited i s.log ≤ 366 ∧
        (s.outcome i = none → ∃ c, Succeeds (.proc i c) ∧ (s.step (.proc i c)).isSome = true) := by
  have hplay : (herd.exec (Timely (build_key plainCodec.sha256 ["phyl", "products_listing", "limit=20"])
      herdTokens) herdSteps).map (fun s => decide (∀ i, (s.outcome i).isSome = true)) = some true := by
    decide +kernel
  obtain ⟨s, hs, hdone⟩ := Option.map_eq_some_iff.1 hplay
  exact ⟨s, of_decide_eq_true hdone, loader_runs_once plainCodec "products_listing" "limit=20" 210 (by decide)
    herdTokens (by decide) ⟨0, fun _ => none⟩ rfl (Async.Sys.Reach.start.exec hs)⟩

end

end Phyllonix.Cache
