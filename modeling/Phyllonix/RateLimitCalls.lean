import Phyllonix.SlidingWindow

/-!
# Calls of the limiters from many processes

A call first asks its process for a digest and then asks the server for a script. Between the
two, other calls may run, in the same process or in another one, and the server may lose
the scripts it knew.
-/

namespace Phyllonix.RateLimiting
open Redis

/-- `evalsha` with a digest, `eval` without one -/
def evaluate (script : LuaScript) (sha : Option LuaScript) (keys argv : List Value) : Py Value :=
  match sha with
  | some sha => evalsha sha keys argv
  | none => eval script keys argv

inductive Strategy
  | slidingWindow
  | fixedWindow

def Strategy.script : Strategy → LuaScript
  | .slidingWindow => .slidingWindow
  | .fixedWindow => .fixedWindowIncrAndPexpire

structure Call where
  strategy : Strategy
  key : String
  limit : ℤ
  window : ℤ

namespace Call
variable (call : Call)

def run : Py Verdict :=
  match call.strategy with
  | .slidingWindow => redisAllowSliding call.key call.limit call.window
  | .fixedWindow => redisAllow call.key call.limit call.window

/-- What a call does first: it asks for the digest of its script. -/
def load : Py (Option LuaScript) :=
  match call.strategy with
  | .slidingWindow => ensureLuaLoaded "sliding_window"
  | .fixedWindow => ensureLuaLoaded "fixed_window"

def argv (e : Meets) : List Value :=
  match call.strategy with
  | .slidingWindow =>
    let nowMs := toInt (e.called * 1000)
    [.integer (call.window * 1000), .integer call.limit, .integer nowMs,
      .text (toString nowMs ++ "-" ++ e.uuidHex)]
  | .fixedWindow => [.integer (call.window * 1000)]

/-- A reply that is too short lets the request through. -/
def shortReply (now : ℤ) : Verdict :=
  { allowed := true, remaining := max 0 (call.limit - 1), resetTs := now + call.window,
    source := .shortReply }

/-- How a call reads the reply of the server. -/
def interpret (res : Value) : Py Verdict := do
  let now := toInt (← read).answered
  match call.strategy with
  | .slidingWindow =>
    match replyInts res with
    | curCount :: resetMs :: allowedFlag :: _ =>
      let allowed := allowedFlag = 1
      let remaining := if allowed then max 0 (call.limit - curCount) else 0
      let retryAfterSecs := if 0 ≤ resetMs then ⌈(resetMs : ℚ) / 1000⌉ else call.window
      pure { allowed := allowed, remaining := remaining, resetTs := now + retryAfterSecs,
             source := .redis }
    | _ => pure (call.shortReply now)
  | .fixedWindow =>
    match replyInts res with
    | count :: ttlMs :: _ =>
      let resetTs := if 0 < ttlMs then now + ttlMs / 1000 else now + call.window
      let allowed := count ≤ call.limit
      let remaining := if allowed then max 0 (call.limit - count) else 0
      pure { allowed := allowed, remaining := remaining, resetTs := resetTs, source := .redis }
    | _ => pure (call.shortReply now)

/-- What a call does when an exception keeps it from a reply. -/
def fallback : Py Verdict :=
  match call.strategy with
  | .slidingWindow =>
    if useInMemoryFallback then inMemoryAllow call.key call.limit call.window
    else redisAllow.policy call.limit call.window
  | .fixedWindow =>
    try
      if useInMemoryFallback then inMemoryAllow call.key call.limit call.window
      else redisAllow.policy call.limit call.window
    catch _ => redisAllow.policy call.limit call.window

/-- The rest of a call, with the digest that it was given. -/
def rest (argv : List Value) (sha : Option LuaScript) : Py Verdict :=
  try
    let res ← evaluate call.strategy.script sha [.text call.key] argv
    call.interpret res
  catch _ => call.fallback

/-- A call is its two parts, one after the other. -/
theorem run_eq : call.run = (do
    let argv := call.argv (← read)
    let sha ← call.load
    call.rest argv sha) := by
  obtain ⟨strategy, key, limit, window⟩ := call
  cases strategy with
  | slidingWindow =>
    funext e
    refine congrFun (congrArg (ensureLuaLoaded "sliding_window" >>= ·) (funext fun sha => ?_)) e
    cases sha <;> rfl
  | fixedWindow =>
    funext e
    refine congrFun (congrArg (ensureLuaLoaded "fixed_window" >>= ·) (funext fun sha => ?_)) e
    cases sha <;> rfl

end Call

/-- A call that has its digest, or knows that it has none. -/
structure Pending (P : Type) where
  process : P
  call : Call
  meets : Meets
  /-- `_script_sha` when the call began -/
  found : Option LuaScript
  sha : Option LuaScript

/-- A call that has ended, and the state around its exchange with the server. -/
structure Answered (P : Type) extends Pending P where
  before : Limiter
  verdict : Except PyError Verdict
  after : Limiter

/-- The processes with their module state, the server and the calls. -/
structure Cluster (P : Type) where
  sha : P → Option LuaScript := fun _ => none
  counters : P → String → Option Counter := fun _ _ => none
  server : Server LuaScript
  pending : List (Pending P) := []
  answered : List (Answered P) := []

inductive Event (P : Type)
  | load (p : P) (call : Call) (e : Meets)
  | answer (j : ℕ)
  /-- restarts, `SCRIPT FLUSH` and other clients -/
  | server (s : Server LuaScript)

namespace Cluster
variable {P : Type} [DecidableEq P]

def limiter (c : Cluster P) (p : P) : Limiter := ⟨c.sha p, c.counters p, c.server⟩

def put (c : Cluster P) (p : P) (s : Limiter) : Cluster P :=
  { c with
    sha := Function.update c.sha p s.scriptSha
    counters := Function.update c.counters p s.inMemoryCounters
    server := s.server }

def step (c : Cluster P) : Event P → Option (Cluster P)
  | .load p call e =>
    match call.load.at e (c.limiter p) with
    | (.ok sha, s) => some { c.put p s with pending := c.pending ++ [⟨p, call, e, c.sha p, sha⟩] }
    | (.error _, _) => none
  | .answer j => c.pending[j]?.map fun q =>
    let s := c.limiter q.process
    let (verdict, s') := (q.call.rest (q.call.argv q.meets) q.sha).at q.meets s
    { c.put q.process s' with
      pending := c.pending.eraseIdx j
      answered := c.answered ++ [⟨q, s, verdict, s'⟩] }
  | .server s => some { c with server := s }

def play (c : Cluster P) : List (Event P) → Option (Cluster P)
  | [] => some c
  | ev :: evs => (c.step ev).bind fun c' => c'.play evs

/-- What every step keeps, every run keeps. -/
theorem play_keeps {I : Cluster P → Prop} {A : Event P → Prop}
    (hstep : ∀ c ev c', I c → A ev → c.step ev = some c' → I c') {c c' : Cluster P}
    {evs : List (Event P)} (hc : I c) (hA : ∀ ev ∈ evs, A ev) (h : c.play evs = some c') : I c' := by
  induction evs generalizing c with
  | nil =>
    cases h
    exact hc
  | cons ev evs ih =>
    obtain ⟨c₁, h₁, h⟩ := Option.bind_eq_some_iff.mp h
    apply ih (hstep c ev c₁ hc (hA ev List.mem_cons_self) h₁) _ h
    intro ev' hev'
    exact hA ev' (List.mem_cons_of_mem _ hev')

end Cluster

/-! ## What a call does to the digest -/

/-- The server keeps its keys and the scripts it knows. -/
structure KeepsScripts (s s' : Limiter) : Prop where
  keys : s'.server.keys = s.server.keys
  scripts : ∀ k, s.server.scripts k = true → s'.server.scripts k = true

theorem exchange_up {α : Type} (p : Py α) : exchange .up p = p := rfl

theorem scriptLoad_at (k : LuaScript) (e : Meets) (s : Limiter) : ∃ r s',
    (scriptLoad (some k)).at e s = (r, s') ∧ KeepsScripts s s' ∧ s'.scriptSha = s.scriptSha ∧
      ((∃ err, r = .error err) ∧ e.loading ≠ .up ∨ r = .ok k ∧ s'.server.scripts k = true) := by
  have hknown : ∀ k', s.server.scripts k' = true → (k' = k || s.server.scripts k') = true := by
    intro k' hk'
    simp [hk']
  unfold scriptLoad
  dsimp only
  rw [at_read]
  cases e.loading with
  | up => exact ⟨_, _, rfl, ⟨rfl, hknown⟩, rfl, .inr ⟨rfl, by simp⟩⟩
  | down => exact ⟨_, _, rfl, ⟨rfl, fun _ h => h⟩, rfl, .inl ⟨⟨.connectionError, rfl⟩, by simp⟩⟩
  | replyLost => exact ⟨_, _, rfl, ⟨rfl, hknown⟩, rfl, .inl ⟨⟨.connectionError, rfl⟩, by simp⟩⟩

/-- Asking for the digest never raises; it gives the digest of the process, or that of the own script. -/
theorem ensureLuaLoaded_at {style : String} {k : LuaScript}
    (hk : (if style = "sliding_window" then some LuaScript.slidingWindow
      else if style = "fixed_window" then some LuaScript.fixedWindowIncrAndPexpire else none) = some k)
    (e : Meets) (s : Limiter) : ∃ sha s', (ensureLuaLoaded style).at e s = (.ok sha, s') ∧
      KeepsScripts s s' ∧ s'.scriptSha = sha ∧
      (sha = s.scriptSha ∨ sha = some k ∧ s'.server.scripts k = true) ∧
      (e.loading = .up → sha = some (s.scriptSha.getD k)) := by
  unfold ensureLuaLoaded
  dsimp only
  rw [at_get, hk]
  cases hs : s.scriptSha with
  | some sha => exact ⟨_, _, rfl, ⟨rfl, fun _ h => h⟩, hs, .inl rfl, fun _ => rfl⟩
  | none =>
    dsimp only
    obtain ⟨r, s', hload, hkeeps, hsha, hr⟩ := scriptLoad_at k e s
    rcases hr with ⟨⟨err, rfl⟩, hdown⟩ | ⟨rfl, hknown⟩
    · exact ⟨none, _, at_try_error (at_bind_error hload), ⟨hkeeps.keys, hkeeps.scripts⟩, rfl, .inl rfl,
        fun hup => absurd hup hdown⟩
    · exact ⟨some k, _, at_try_ok (at_bind_ok hload), ⟨hkeeps.keys, hkeeps.scripts⟩, rfl,
        .inr ⟨rfl, hknown⟩, fun _ => rfl⟩

theorem Call.load_at (call : Call) (e : Meets) (s : Limiter) : ∃ sha s',
    call.load.at e s = (.ok sha, s') ∧ KeepsScripts s s' ∧ s'.scriptSha = sha ∧
      (sha = s.scriptSha ∨ sha = some call.strategy.script ∧
        s'.server.scripts call.strategy.script = true) ∧
      (e.loading = .up → sha = some (s.scriptSha.getD call.strategy.script)) := by
  obtain ⟨strategy, key, limit, window⟩ := call
  cases strategy with
  | slidingWindow => exact ensureLuaLoaded_at rfl e s
  | fixedWindow => exact ensureLuaLoaded_at rfl e s

/-! ## What the server runs for a call -/

/-- The script that the server runs for a digest, or for the text of a script without one. -/
def executed (scripts : LuaScript → Bool) (script : LuaScript) : Option LuaScript → Option LuaScript
  | none => some script
  | some sha => if scripts sha then some sha else none

section Evaluation
variable {script k : LuaScript} {sha : Option LuaScript} {e : Meets} {s : Limiter}

theorem evaluate_executed (keys argv : List Value) (hup : e.evaluating = .up)
    (h : executed s.server.scripts script sha = some k) :
    ∃ s₁, KeepsScripts s s₁ ∧ s₁.scriptSha = s.scriptSha ∧
      (evaluate script sha keys argv).at e s = (runScript k keys argv).at e s₁ := by
  cases sha with
  | none =>
    obtain rfl : script = k := Option.some.inj h
    refine ⟨{ s with server := { s.server with
      scripts := fun k => k = script || s.server.scripts k } }, ⟨rfl, fun k hk => by simp [hk]⟩, rfl, ?_⟩
    change (eval script keys argv).at e s = _
    unfold eval
    rw [at_read, hup]
    rfl
  | some sha =>
    rw [executed] at h
    split at h
    · rename_i hknown
      obtain rfl : sha = k := Option.some.inj h
      refine ⟨s, ⟨rfl, fun _ h => h⟩, rfl, ?_⟩
      change (evalsha sha keys argv).at e s = _
      unfold evalsha
      rw [at_read, hup, exchange_up, at_get, if_pos hknown]
    · cases h

end Evaluation
end Phyllonix.RateLimiting
