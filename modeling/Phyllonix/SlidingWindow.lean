import Phyllonix.RateLimiting

/-!
# The sliding-window limiter under load

The sliding-window script assigns a global variable before it touches its sorted set, and
the in-memory fallback asks the function `time` for an attribute. Every call of
`redis_allow_sliding` therefore raises, and the middleware lets the request through.
-/

namespace Phyllonix.RateLimiting
open Redis

/-- What a computation of the process returns, and the state it leaves. -/
def Py.at {α : Type} (p : Py α) (e : Meets) (s : Limiter) : Except PyError α × Limiter := (p e).run s

section Rules
variable {α β : Type} {p : Py α} {f : α → Py β} {q : PyError → Py α} {e : Meets} {s s' : Limiter}
  {a : α} {err : PyError}

theorem at_bind_ok (h : p.at e s = (.ok a, s')) : (p >>= f).at e s = (f a).at e s' := by
  simp only [Py.at, bind, ReaderT.bind, ExceptT.bind, ExceptT.run, ExceptT.mk, StateT.bind] at h ⊢
  rw [h]
  rfl

theorem at_bind_error (h : p.at e s = (.error err, s')) : (p >>= f).at e s = (.error err, s') := by
  simp only [Py.at, bind, ReaderT.bind, ExceptT.bind, ExceptT.run, ExceptT.mk, StateT.bind] at h ⊢
  rw [h]
  rfl

theorem at_try_error (h : p.at e s = (.error err, s')) : (tryCatch p q).at e s = (q err).at e s' := by
  simp only [Py.at, tryCatch, tryCatchThe, MonadExceptOf.tryCatch, ExceptT.tryCatch,
    bind, ExceptT.run, ExceptT.mk, StateT.bind] at h ⊢
  rw [h]

theorem at_try_ok (h : p.at e s = (.ok a, s')) : (tryCatch p q).at e s = (.ok a, s') := by
  simp only [Py.at, tryCatch, tryCatchThe, MonadExceptOf.tryCatch, ExceptT.tryCatch,
    bind, ExceptT.run, ExceptT.mk, StateT.bind] at h ⊢
  rw [h]
  rfl

theorem at_get {g : Limiter → Py β} : (get >>= g).at e s = (g s).at e s := rfl

theorem at_read {g : Meets → Py β} : (read >>= g).at e s = (g e).at e s := rfl

theorem exchange_error (link : Link) (h : p.at e s = (.error err, s')) :
    ∃ err' s'', (exchange link p).at e s = (.error err', s'') ∧ (s'' = s ∨ s'' = s') := by
  cases link with
  | up => exact ⟨err, s', h, Or.inr rfl⟩
  | down => exact ⟨.connectionError, s, rfl, Or.inl rfl⟩
  | replyLost => exact ⟨err, s', at_bind_error h, Or.inr rfl⟩

end Rules

/-- No other strategy has loaded its script in this process. -/
def Sliding (s : Limiter) : Prop := s.scriptSha = none ∨ s.scriptSha = some .slidingWindow

section Calls
variable {e : Meets} {s : Limiter}

theorem runScript_fails (key member : String) (windowMs limit nowMs : ℤ) :
    (runScript .slidingWindow [.text key] [.integer windowMs, .integer limit, .integer nowMs,
      .text member]).at e s = (.error (.responseError (.globalVariable "oldest_timestamp")), s) := rfl

theorem evalsha_fails (key member : String) (windowMs limit nowMs : ℤ) :
    ∃ err s', (evalsha .slidingWindow [.text key] [.integer windowMs, .integer limit, .integer nowMs,
      .text member]).at e s = (.error err, s') ∧ s'.scriptSha = s.scriptSha := by
  unfold evalsha
  rw [at_read]
  generalize hp : (do
    if (← get).server.scripts .slidingWindow then
      runScript .slidingWindow [.text key] [.integer windowMs, .integer limit, .integer nowMs,
        .text member]
    else throw .noScriptError : Py Value) = p
  have hrun : ∃ err, p.at e s = (.error err, s) := by
    rw [← hp, at_get]
    split
    · exact ⟨_, runScript_fails key member windowMs limit nowMs⟩
    · exact ⟨.noScriptError, rfl⟩
  obtain ⟨err, hrun⟩ := hrun
  obtain ⟨err', s', h, hs⟩ := exchange_error e.evaluating hrun
  refine ⟨err', s', h, ?_⟩
  rcases hs with rfl | rfl <;> rfl

theorem eval_fails (key member : String) (windowMs limit nowMs : ℤ) :
    ∃ err s', (eval .slidingWindow [.text key] [.integer windowMs, .integer limit, .integer nowMs,
      .text member]).at e s = (.error err, s') ∧ s'.scriptSha = s.scriptSha := by
  unfold eval
  rw [at_read]
  generalize hcached : ({ s with server := { s.server with
    scripts := fun k => k = .slidingWindow || s.server.scripts k } } : Limiter) = s₁
  generalize hp : (do
    modify fun s : Limiter => { s with server := { s.server with
      scripts := fun k => k = .slidingWindow || s.server.scripts k } }
    runScript .slidingWindow [.text key] [.integer windowMs, .integer limit, .integer nowMs,
      .text member] : Py Value) = p
  have hrun : ∃ err, p.at e s = (.error err, s₁) := by
    rw [← hp, ← hcached]
    exact ⟨_, runScript_fails (e := e) key member windowMs limit nowMs⟩
  obtain ⟨err, hrun⟩ := hrun
  obtain ⟨err', s', h, hs⟩ := exchange_error e.evaluating hrun
  refine ⟨err', s', h, ?_⟩
  rcases hs with rfl | rfl
  · rfl
  · rw [← hcached]

theorem inMemoryAllow_fails (key : String) (limit window : ℤ) :
    ∃ message, (inMemoryAllow key limit window).at e s = (.error (.attributeError message), s) := ⟨_, rfl⟩

theorem scriptLoad_sliding : ∃ r s', (scriptLoad (some .slidingWindow)).at e s = (r, s') ∧
    s'.scriptSha = s.scriptSha ∧ (r = .ok .slidingWindow ∨ ∃ err, r = .error err) := by
  unfold scriptLoad
  dsimp only
  rw [at_read]
  cases e.loading with
  | up => exact ⟨_, _, rfl, rfl, Or.inl rfl⟩
  | down => exact ⟨_, _, rfl, rfl, Or.inr ⟨.connectionError, rfl⟩⟩
  | replyLost => exact ⟨_, _, rfl, rfl, Or.inr ⟨.connectionError, rfl⟩⟩

theorem ensureLuaLoaded_sliding (hs : Sliding s) : ∃ sha s',
    (ensureLuaLoaded "sliding_window").at e s = (.ok sha, s') ∧ Sliding s' ∧
      (sha = none ∨ sha = some .slidingWindow) := by
  unfold ensureLuaLoaded
  dsimp only
  rw [at_get]
  rcases hs with hs | hs
  · rw [hs]
    dsimp only
    obtain ⟨r, s', hload, -, hr⟩ := scriptLoad_sliding (e := e) (s := s)
    rcases hr with rfl | ⟨err, rfl⟩
    · refine ⟨_, _, at_try_ok (at_bind_ok hload), Or.inr rfl, Or.inr rfl⟩
    · refine ⟨_, _, at_try_error (at_bind_error hload), Or.inl rfl, Or.inl rfl⟩
  · rw [hs]
    exact ⟨_, _, rfl, Or.inr hs, Or.inr rfl⟩

/-- Every call raises, whatever the server holds and however the network behaves. -/
theorem redisAllowSliding_fails (key : String) (limit window : ℤ) (hs : Sliding s) : ∃ message s',
    (redisAllowSliding key limit window).at e s = (.error (.attributeError message), s') ∧
      Sliding s' := by
  unfold redisAllowSliding
  dsimp only
  rw [at_read, at_read]
  obtain ⟨sha, s₁, hsha, hs₁, hwhich⟩ := ensureLuaLoaded_sliding (e := e) hs
  rw [at_bind_ok hsha]
  rcases hwhich with rfl | rfl
  · obtain ⟨err, s₂, heval, hs₂⟩ := eval_fails (e := e) (s := s₁) key
      (toString (toInt (e.called * 1000)) ++ "-" ++ e.uuidHex) (window * 1000) limit
      (toInt (e.called * 1000))
    obtain ⟨message, hfall⟩ := inMemoryAllow_fails (e := e) (s := s₂) key limit window
    refine ⟨message, s₂, (at_try_error (at_bind_error heval)).trans hfall, ?_⟩
    rwa [Sliding, hs₂]
  · obtain ⟨err, s₂, heval, hs₂⟩ := evalsha_fails (e := e) (s := s₁) key
      (toString (toInt (e.called * 1000)) ++ "-" ++ e.uuidHex) (window * 1000) limit
      (toInt (e.called * 1000))
    obtain ⟨message, hfall⟩ := inMemoryAllow_fails (e := e) (s := s₂) key limit window
    refine ⟨message, s₂, (at_try_error (at_bind_error heval)).trans hfall, ?_⟩
    rwa [Sliding, hs₂]

end Calls

/-- A request as it arrives: what it meets, and what other clients have made of the server. -/
structure Arrival where
  request : Request
  meets : Meets
  server : Option (Server LuaScript) := none

/-- What became of one request. -/
structure Served where
  key : String
  time : ℚ
  /-- what `redis_allow_sliding` answered, when it was asked -/
  verdict : Option (Except PyError Verdict)
  response : Except PyError Response

def Served.Forwarded (c : Served) : Prop := ∃ headers, c.response = .ok (.forwarded headers)

def Served.AllowedBy (c : Served) (source : Source) (v : Verdict) : Prop :=
  c.verdict = some (.ok v) ∧ v.allowed = true ∧ v.source = source

section Runs
variable (m : RateLimitMiddleware) (app : App)

def serve (s : Limiter) (a : Arrival) : Served × Limiter :=
  let s := match a.server with
    | some server => { s with server := server }
    | none => s
  let key := rateLimitKey a.request
  let verdict := match a.request.rateLimit with
    | some _ => none
    | none => some ((redisAllowSliding key (m.effectiveLimit app) (m.effectiveWindow app)).at a.meets s).1
  let (response, s') := (m.dispatch app a.request).at a.meets s
  (⟨key, a.meets.called, verdict, response⟩, s')

def serveAll (s : Limiter) : List Arrival → List Served
  | [] => []
  | a :: as => (serve m app s a).1 :: serveAll (serve m app s a).2 as

end Runs

open Classical in
/-- In every window at most `limit` calls are allowed, and only they let their requests through. -/
structure Limited (limit window : ℤ) (l : List Served) : Prop where
  redis : ∀ key, ∀ start : ℚ, ((l.filter fun c => c.key = key ∧ (∃ v, c.AllowedBy .redis v) ∧
    start ≤ c.time ∧ c.time < start + window).length : ℤ) ≤ limit
  fallback : ∀ key resetTs, ((l.filter fun c => c.key = key ∧
    ∃ v, c.AllowedBy .inMemory v ∧ v.resetTs = resetTs).length : ℤ) ≤ limit
  forwards : ∀ c ∈ l, c.verdict ≠ none → c.Forwarded →
    ∃ v, c.AllowedBy .redis v ∨ c.AllowedBy .inMemory v

section Serving
variable {m : RateLimitMiddleware} {app : App} {s : Limiter}

theorem dispatch_forwards {e : Meets} {request : Request} (hs : Sliding s)
    (hstrategy : app.rateLimitStrategy = "sliding_window") (hreq : request.rateLimit = none) :
    ∃ s', (m.dispatch app request).at e s = (.ok (.forwarded none), s') ∧ Sliding s' := by
  obtain ⟨message, s', hfail, hs'⟩ := redisAllowSliding_fails (e := e) (rateLimitKey request)
    (m.effectiveLimit app) (m.effectiveWindow app) hs
  refine ⟨s', ?_, hs'⟩
  unfold RateLimitMiddleware.dispatch
  rw [hreq]
  dsimp only
  rw [if_pos hstrategy]
  unfold RateLimitMiddleware.dispatch.answer
  have hmap : (some <$> redisAllowSliding (rateLimitKey request) (m.effectiveLimit app)
      (m.effectiveWindow app)).at e s = (.error (.attributeError message), s') := by
    rw [map_eq_pure_bind]
    exact at_bind_error hfail
  exact at_bind_ok (a := none) ((at_try_error hmap).trans rfl)

theorem serve_cases (hs : Sliding s) (hstrategy : app.rateLimitStrategy = "sliding_window") (a : Arrival) :
    Sliding (serve m app s a).2 ∧
      (a.request.rateLimit ≠ none ∧ (serve m app s a).1.verdict = none ∨
        a.request.rateLimit = none ∧ (serve m app s a).1.Forwarded ∧
          ∃ err, (serve m app s a).1.verdict = some (.error err)) := by
  have hserver : ∃ s₁, Sliding s₁ ∧ (match a.server with
      | some server => { s with server := server }
      | none => s) = s₁ := by
    cases a.server with
    | none => exact ⟨s, hs, rfl⟩
    | some server => exact ⟨{ s with server := server }, hs, rfl⟩
  obtain ⟨s₁, hs₁, heq⟩ := hserver
  unfold serve
  rw [heq]
  cases hreq : a.request.rateLimit with
  | some rl =>
    have hdispatch : (m.dispatch app a.request).at a.meets s₁ = (.ok (.forwarded (some rl)), s₁) := by
      unfold RateLimitMiddleware.dispatch
      rw [hreq]
      rfl
    dsimp only
    rw [hdispatch]
    exact ⟨hs₁, Or.inl ⟨by simp, rfl⟩⟩
  | none =>
    obtain ⟨message, s₂, hfail, -⟩ := redisAllowSliding_fails (e := a.meets) (rateLimitKey a.request)
      (m.effectiveLimit app) (m.effectiveWindow app) hs₁
    obtain ⟨s₃, hdispatch, hs₃⟩ := dispatch_forwards (m := m) (e := a.meets) hs₁ hstrategy hreq
    dsimp only
    rw [hdispatch, hfail]
    exact ⟨hs₃, Or.inr ⟨rfl, ⟨none, rfl⟩, _, rfl⟩⟩

/-- No call is answered by Redis or by the fallback. -/
theorem served_verdict (hs : Sliding s) (hstrategy : app.rateLimitStrategy = "sliding_window")
    (as : List Arrival) : ∀ c ∈ serveAll m app s as, ∀ v, c.verdict ≠ some (.ok v) := by
  induction as generalizing s with
  | nil => simp [serveAll]
  | cons a as ih =>
    obtain ⟨hs', hcases⟩ := serve_cases (m := m) hs hstrategy a
    intro c hc v
    rcases List.mem_cons.mp hc with rfl | hc
    · rcases hcases with ⟨-, hnone⟩ | ⟨-, -, err, herr⟩
      · simp [hnone]
      · simp [herr]
    · exact ih hs' c hc v

/-- A request that reaches the limiter is let through without having been allowed. -/
theorem served_unlimited (hs : Sliding s) (hstrategy : app.rateLimitStrategy = "sliding_window")
    {as : List Arrival} {a : Arrival} (ha : a ∈ as) (hreq : a.request.rateLimit = none) :
    ∃ c ∈ serveAll m app s as, c.Forwarded ∧ ∃ err, c.verdict = some (.error err) := by
  induction as generalizing s with
  | nil => cases ha
  | cons b as ih =>
    obtain ⟨hs', hcases⟩ := serve_cases (m := m) hs hstrategy b
    rcases List.mem_cons.mp ha with rfl | ha
    · rcases hcases with ⟨hne, -⟩ | ⟨-, hfwd, hverdict⟩
      · exact absurd hreq hne
      · exact ⟨_, List.mem_cons_self, hfwd, hverdict⟩
    · obtain ⟨c, hc, hprop⟩ := ih hs' ha
      exact ⟨c, List.mem_cons_of_mem _ hc, hprop⟩

theorem served_preset (hs : Sliding s) (hstrategy : app.rateLimitStrategy = "sliding_window")
    {as : List Arrival} (has : ∀ a ∈ as, a.request.rateLimit ≠ none) :
    ∀ c ∈ serveAll m app s as, c.verdict = none := by
  induction as generalizing s with
  | nil => simp [serveAll]
  | cons a as ih =>
    obtain ⟨hs', hcases⟩ := serve_cases (m := m) hs hstrategy a
    intro c hc
    rcases List.mem_cons.mp hc with rfl | hc
    · rcases hcases with ⟨-, hnone⟩ | ⟨hreq, -⟩
      · exact hnone
      · exact absurd hreq (has a List.mem_cons_self)
    · exact ih hs' (fun b hb => has b (List.mem_cons_of_mem _ hb)) c hc

/-- One request that reaches the limiter is let through without an answer that allows it. -/
theorem not_limited {limit window : ℤ} (hs : Sliding s)
    (hstrategy : app.rateLimitStrategy = "sliding_window") {as : List Arrival} {a : Arrival} (ha : a ∈ as)
    (hreq : a.request.rateLimit = none) : ¬Limited limit window (serveAll m app s as) := by
  intro hlim
  obtain ⟨c, hc, hfwd, err, herr⟩ := served_unlimited (m := m) hs hstrategy ha hreq
  obtain ⟨v, hv | hv⟩ := hlim.forwards c hc (by simp [herr]) hfwd
  · exact served_verdict hs hstrategy as c hc v hv.1
  · exact served_verdict hs hstrategy as c hc v hv.1

/-- The limiter limits if and only if no request reaches it. -/
theorem limited_iff (hstrategy : app.rateLimitStrategy = "sliding_window")
    (hlimit : 0 ≤ m.effectiveLimit app) (server : Server LuaScript) (as : List Arrival) :
    Limited (m.effectiveLimit app) (m.effectiveWindow app) (serveAll m app { server := server } as) ↔
      ∀ a ∈ as, a.request.rateLimit ≠ none := by
  have hs : Sliding { server := server } := Or.inl rfl
  have hno := served_verdict (m := m) hs hstrategy as
  constructor
  · intro hlim a ha hreq
    exact not_limited hs hstrategy ha hreq hlim
  · intro hpreset
    have hnone := served_preset (m := m) hs hstrategy hpreset
    constructor
    · intro key start
      rw [List.filter_eq_nil_iff.mpr]
      · simpa using hlimit
      · simp only [decide_eq_true_eq]
        rintro c hc ⟨-, ⟨v, hv⟩, -⟩
        exact hno c hc v hv.1
    · intro key resetTs
      rw [List.filter_eq_nil_iff.mpr]
      · simpa using hlimit
      · simp only [decide_eq_true_eq]
        rintro c hc ⟨-, v, hv, -⟩
        exact hno c hc v hv.1
    · intro c hc hne
      exact absurd (hnone c hc) hne

end Serving

def slidingApp : App := { rateLimitStrategy := "sliding_window" }

def freshServer : Server LuaScript := { keys := fun _ => none, scripts := fun _ => false }

/-- A request of an anonymous client on an idle system. -/
def firstRequest : Arrival where
  request := { path := "/products", clientHost := some "10.0.0.1" }
  meets := { called := 100, answered := 100, replied := 100, serverMs := 100000, uuidHex := "9f3ab210" }

theorem limited_iff_firstRequest :
    Limited 5 60 (serveAll {} slidingApp { server := freshServer } [firstRequest]) ↔
      ∀ a ∈ [firstRequest], a.request.rateLimit ≠ none := by
  have hlimit : 0 ≤ ({} : RateLimitMiddleware).effectiveLimit slidingApp := by decide
  exact limited_iff (m := {}) rfl hlimit freshServer [firstRequest]

theorem firstRequest_unlimited : ¬∀ (m : RateLimitMiddleware) (app : App) (server : Server LuaScript)
    (as : List Arrival), app.rateLimitStrategy = "sliding_window" → 0 ≤ m.effectiveLimit app →
    as.Pairwise (fun a b => a.meets.called ≤ b.meets.called) →
      Limited (m.effectiveLimit app) (m.effectiveWindow app) (serveAll m app { server := server } as) := by
  intro hall
  exact not_limited (a := firstRequest) (Or.inl rfl) rfl List.mem_cons_self rfl
    (hall {} slidingApp freshServer [firstRequest] rfl (by decide) (List.pairwise_singleton _ _))

end Phyllonix.RateLimiting
