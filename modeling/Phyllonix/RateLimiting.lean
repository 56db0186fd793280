import Phyllonix.RedisScripts
import Mathlib.Data.Rat.Floor

/-!
# The rate limiters and their middleware

Both strategies ask a Lua script and fall back on a counter in the process. The limiter's
state is the module state of the process and the Redis server it talks to.
-/

namespace Phyllonix.RateLimiting
open Redis

def defaultLimit : ℤ := 5
def defaultWindow : ℤ := 60
def rateLimitPrefix : String := "rl"
def failOpen : Bool := true
def useInMemoryFallback : Bool := true

/-- The two script texts; the server knows a text by its digest. -/
inductive LuaScript
  | slidingWindow
  | fixedWindowIncrAndPexpire
  deriving DecidableEq

open Script in
def slidingWindowScript (keys argv : List Value) : Script Value := do
  let key := index keys 1
  let windowMs := toNumber (index argv 1)
  let limit := toNumber (index argv 2)
  let nowMs := toNumber (index argv 3)
  let member := index argv 4
  -- `oldest_timestamp` is not declared local, and `min_score` is assigned nowhere
  setGlobal "oldest_timestamp" (.integer ((← number nowMs) - (← number windowMs)))
  let _ ← call "ZREMRANGEBYSCORE" [key, .integer 0, ← getGlobal "min_score"]
  let mut current ← call "ZCARD" [key]
  let mut allowed : ℤ := 0
  if (← number (toNumber current)) < (← number limit) then
    let _ ← call "ZADD" [key, nowMs, member]
    let _ ← call "PEXPIRE" [key, windowMs]
    current := .integer ((← number current) + 1)
    allowed := 1
  let mut resetMs ← number windowMs
  let oldest ← call "ZRANGE" [key, .integer 0, .integer 0, .text "WITHSCORES"]
  match oldest with
  | .table (_ :: score :: _) =>
    resetMs := (← number (toNumber score)) + (← number windowMs) - (← number nowMs)
    if resetMs < 0 then resetMs := 0
  | _ => resetMs ← number windowMs
  pure (.table [current, .integer resetMs, .integer allowed])

open Script in
def fixedWindowScript (keys argv : List Value) : Script Value := do
  let counter ← call "INCR" [index keys 1]
  if (← number (toNumber counter)) = 1 then
    let _ ← call "PEXPIRE" [index keys 1, index argv 1]
  else
    let ttl ← call "PTTL" [index keys 1]
    if (← number ttl) < 0 then
      let _ ← call "PEXPIRE" [index keys 1, index argv 1]
  let ttl ← call "PTTL" [index keys 1]
  pure (.table [counter, ttl])

def LuaScript.run : LuaScript → List Value → List Value → Script Value
  | .slidingWindow => slidingWindowScript
  | .fixedWindowIncrAndPexpire => fixedWindowScript

inductive PyError
  | connectionError
  | responseError (e : ScriptError)
  | noScriptError
  | dataError
  | attributeError (message : String)
  | unboundLocalError

structure Counter where
  count : ℤ
  expiresAt : ℤ

/-- `_script_sha` and `_in_memory_counters` of the process, and the server. -/
structure Limiter where
  scriptSha : Option LuaScript := none
  inMemoryCounters : String → Option Counter := fun _ => none
  server : Server LuaScript

/-- How an exchange with the server goes. -/
inductive Link
  | up
  | down
  | replyLost

/-- What one call meets: the clocks, its random member and the network. -/
structure Meets where
  called : ℚ
  answered : ℚ
  replied : ℚ
  serverMs : ℤ
  uuidHex : String
  loading : Link := .up
  evaluating : Link := .up

abbrev Py := ReaderT Meets (ExceptT PyError (StateM Limiter))

/-- `int` of a float -/
def toInt (q : ℚ) : ℤ := if 0 ≤ q then ⌊q⌋ else ⌈q⌉

def exchange {α : Type} (link : Link) (act : Py α) : Py α :=
  match link with
  | .up => act
  | .down => throw .connectionError
  | .replyLost => do
    let _ ← act
    throw .connectionError

def scriptLoad (script : Option LuaScript) : Py LuaScript := do
  match script with
  | none => throw .dataError
  | some script =>
    exchange (← read).loading do
      modify fun s =>
        { s with server := { s.server with scripts := fun k => k = script || s.server.scripts k } }
      pure script

def runScript (script : LuaScript) (keys argv : List Value) : Py Value := do
  let (answer, keyspace) := (script.run keys argv (← read).serverMs).run (← get).server.keys
  modify fun s => { s with server := { s.server with keys := keyspace } }
  match answer with
  | .ok v => pure v
  | .error e => throw (.responseError e)

def evalsha (sha : LuaScript) (keys argv : List Value) : Py Value := do
  exchange (← read).evaluating do
    if (← get).server.scripts sha then runScript sha keys argv else throw .noScriptError

def eval (script : LuaScript) (keys argv : List Value) : Py Value := do
  exchange (← read).evaluating do
    modify fun s =>
      { s with server := { s.server with scripts := fun k => k = script || s.server.scripts k } }
    runScript script keys argv

def ensureLuaLoaded (rateLimStyle : String) : Py (Option LuaScript) := do
  let whichRateLimitingStrategy :=
    if rateLimStyle = "sliding_window" then some LuaScript.slidingWindow
    else if rateLimStyle = "fixed_window" then some LuaScript.fixedWindowIncrAndPexpire
    else none
  match (← get).scriptSha with
  | some sha => pure (some sha)
  | none =>
    try
      let sha ← scriptLoad whichRateLimitingStrategy
      modify fun s => { s with scriptSha := some sha }
      pure (some sha)
    catch _ =>
      modify fun s => { s with scriptSha := none }
      pure none

/-- Who answered a call. -/
inductive Source
  | redis
  | shortReply
  | inMemory
  | policy
  deriving DecidableEq

structure Verdict where
  allowed : Bool
  remaining : ℤ
  resetTs : ℤ
  source : Source
  deriving DecidableEq

/-- What a module-level name is bound to. -/
inductive PyName
  | module (name : String)
  | builtinFunction (name : String)

def PyName.attr : PyName → String → Py PyName
  | .module _, a => pure (.builtinFunction a)
  | .builtinFunction _, a =>
    throw (.attributeError ("'builtin_function_or_method' object has no attribute '" ++ a ++ "'"))

/-- `from time import time` -/
def utilsTime : PyName := .builtinFunction "time"

def inMemoryAllow (key : String) (limit window : ℤ) : Py Verdict := do
  let _ ← utilsTime.attr "time"
  let now := toInt (← read).answered
  match (← get).inMemoryCounters key with
  | none => fresh now
  | some existing =>
    if existing.expiresAt ≤ now then fresh now
    else if limit ≤ existing.count then
      pure { allowed := false, remaining := 0, resetTs := existing.expiresAt, source := .inMemory }
    else do
      store { existing with count := existing.count + 1 }
      pure { allowed := true, remaining := max 0 (limit - (existing.count + 1)),
             resetTs := existing.expiresAt, source := .inMemory }
where
  store (c : Counter) : Py Unit :=
    modify fun s => { s with inMemoryCounters := fun k => if k = key then some c else s.inMemoryCounters k }
  fresh (now : ℤ) : Py Verdict := do
    store { count := 1, expiresAt := now + window }
    pure { allowed := true, remaining := max 0 (limit - 1), resetTs := now + window, source := .inMemory }

/-- The integers of a reply. -/
def replyInts : Value → List ℤ
  | .table l => l.filterMap fun
    | .integer n => some n
    | _ => none
  | _ => []

def redisAllowSliding (key : String) (limit windowSeconds : ℤ) : Py Verdict := do
  let windowMs := windowSeconds * 1000
  let nowMs := toInt ((← read).called * 1000)
  let member := toString nowMs ++ "-" ++ (← read).uuidHex
  let argv : List Value := [.integer windowMs, .integer limit, .integer nowMs, .text member]
  let sha ← ensureLuaLoaded "sliding_window"
  try
    let res ← match sha with
      | some sha => evalsha sha [.text key] argv
      | none => eval .slidingWindow [.text key] argv
    let now := toInt (← read).answered
    match replyInts res with
    | curCount :: resetMs :: allowedFlag :: _ =>
      let allowed := allowedFlag = 1
      let remaining := if allowed then max 0 (limit - curCount) else 0
      let retryAfterSecs := if 0 ≤ resetMs then ⌈(resetMs : ℚ) / 1000⌉ else windowSeconds
      pure { allowed := allowed, remaining := remaining, resetTs := now + retryAfterSecs, source := .redis }
    | _ =>
      pure { allowed := true, remaining := max 0 (limit - 1), resetTs := now + windowSeconds,
             source := .shortReply }
  catch _ =>
    if useInMemoryFallback then inMemoryAllow key limit windowSeconds
    else
      let now := toInt (← read).answered
      if failOpen then
        pure { allowed := true, remaining := max 0 (limit - 1), resetTs := now + windowSeconds,
               source := .policy }
      else pure { allowed := false, remaining := 0, resetTs := now + windowSeconds, source := .policy }

def redisAllow (key : String) (limit window : ℤ) : Py Verdict := do
  let pexpireMs := window * 1000
  let sha ← ensureLuaLoaded "fixed_window"
  try
    let res ← match sha with
      | some sha => evalsha sha [.text key] [.integer pexpireMs]
      | none => eval .fixedWindowIncrAndPexpire [.text key] [.integer pexpireMs]
    let now := toInt (← read).answered
    match replyInts res with
    | count :: ttlMs :: _ =>
      let resetTs := if 0 < ttlMs then now + ttlMs / 1000 else now + window
      let allowed := count ≤ limit
      let remaining := if allowed then max 0 (limit - count) else 0
      pure { allowed := allowed, remaining := remaining, resetTs := resetTs, source := .redis }
    | _ =>
      pure { allowed := true, remaining := max 0 (limit - 1), resetTs := now + window,
             source := .shortReply }
  catch _ =>
    try
      if useInMemoryFallback then inMemoryAllow key limit window else policy
    catch _ => policy
where
  policy : Py Verdict := do
    let now := toInt (← read).answered
    if failOpen then
      pure { allowed := true, remaining := max 0 (limit - 1), resetTs := now + window, source := .policy }
    else pure { allowed := false, remaining := 0, resetTs := now + window, source := .policy }

/-- `request.state.rate_limit` -/
structure RateLimit where
  limit : ℤ
  remaining : ℤ
  reset : ℤ
  deriving DecidableEq

structure Request where
  path : String
  rateLimit : Option RateLimit := none
  userIdentifier : Option String := none
  xForwardedFor : Option String := none
  clientHost : Option String := none

/-- `app.state`, with the overrides of `app.state.rate_limit`. -/
structure App where
  rateLimitStrategy : String := "fixed_window"
  limit : Option ℤ := none
  window : Option ℤ := none

structure RateLimitMiddleware where
  limit : ℤ := defaultLimit
  window : ℤ := defaultWindow

def nonEmpty : Option String → Option String
  | some s => if s = "" then none else some s
  | none => none

def identifierFromRequest (request : Request) : String × String :=
  match nonEmpty request.userIdentifier with
  | some user => (user, "user")
  | none =>
    let clientHost :=
      match nonEmpty request.xForwardedFor with
      | some xff => (((xff.splitOn ",").headD "").trimAscii).toString
      | none => request.clientHost.getD "unknown"
    ((nonEmpty (some clientHost)).getD "unknown", "ip")

def rateLimitKey (request : Request) : String :=
  let (identifier, scope) := identifierFromRequest request
  rateLimitPrefix ++ ":" ++ scope ++ ":" ++ identifier ++ ":" ++ request.path

inductive Response
  /-- `call_next`, with the rate-limit headers when they are set -/
  | forwarded (headers : Option RateLimit)
  /-- 429 with `Retry-After` -/
  | tooManyRequests (retryAfter : ℤ)
  deriving DecidableEq

namespace RateLimitMiddleware
variable (m : RateLimitMiddleware) (app : App)

def effectiveLimit : ℤ := app.limit.getD m.limit
def effectiveWindow : ℤ := app.window.getD m.window

def dispatch (request : Request) : Py Response := do
  match request.rateLimit with
  | some rl => pure (.forwarded (some rl))
  | none =>
    let limit := m.effectiveLimit app
    let window := m.effectiveWindow app
    let key := rateLimitKey request
    if app.rateLimitStrategy = "sliding_window" then
      answer (some <$> redisAllowSliding key limit window) limit
    else if app.rateLimitStrategy = "fixed_window" then
      answer (some <$> redisAllow key limit window) limit
    else throw .unboundLocalError
where
  /-- a strategy that raises lets the request through -/
  answer (strategy : Py (Option Verdict)) (limit : ℤ) : Py Response := do
    match ← (try strategy catch _ => pure none) with
    | none => pure (.forwarded none)
    | some v =>
      if v.allowed then pure (.forwarded (some ⟨limit, v.remaining, v.resetTs⟩))
      else pure (.tooManyRequests (max 0 (v.resetTs - toInt (← read).replied)))

end RateLimitMiddleware
end Phyllonix.RateLimiting
