import Phyllonix.FixedWindow
import Mathlib.Tactic.Linarith

/-!
# Waiting as long as Retry-After says

A refused request is told to wait for the whole seconds of the key's time to live, counted
from the clock when the reply was read to the clock when the refusal is written. What the
division cut off and what the second clock is ahead has to have passed already.
-/

namespace Redis.Script

variable {now ms t : ℤ} {keys : Keyspace} {key : String}

theorem pexpire_gone {e : Entry} (h : keys.live now key = some e) (hms : ms ≤ 0) :
    (pexpire key ms).at now keys = (.ok (.integer 1), keys.put key none) := by
  unfold pexpire
  rw [run_bind_ok (liveEntry_at key now keys), h]
  simp only [if_pos hms]
  rfl

theorem pttl_absent (h : keys.live now key = none) :
    (pttl key).at now keys = (.ok (.integer (-2)), keys) := by
  unfold pttl
  rw [run_bind_ok (liveEntry_at key now keys), h]
  rfl

end Redis.Script

namespace Phyllonix.RateLimiting
open Redis Script

/-! ## The key after a call -/

/-- The expiry that a call finds and keeps; a new counter has none. -/
def keptExpiry (e : Option Entry) : Option ℤ := if counted e = 0 then none else e.bind Entry.expireAt

/-- The key after the script: a window that is not positive deletes it. -/
def leftEntry (ms now : ℤ) (e : Option Entry) : Option Entry :=
  match keptExpiry e with
  | some t => some ⟨.integer (counted e + 1), some t⟩
  | none => if 0 < ms then some ⟨.integer (counted e + 1), some (now + ms)⟩ else none

/-- `PTTL` of a key that expires, if it is there. -/
def ttlOf (now : ℤ) (e : Option Entry) : ℤ :=
  match e.bind Entry.expireAt with
  | some t => t - now
  | none => -2

section Scripts
variable {keys : Keyspace} {key : String} {now ms : ℤ}

theorem keyspace_live_none (keys : Keyspace) (key : String) (now : ℤ) : (keys.put key none).live now key = none := by
  rw [Keyspace.live, Keyspace.put_self, Option.filter_none]

/-- A window that is not positive: a counter that is new or does not expire is deleted. -/
theorem fixedWindowScript_closed {m : ℤ} {expireAt : Option ℤ}
    (hincr : (incr key).at now keys = (.ok (.integer m), keys.put key (some ⟨.integer m, expireAt⟩)))
    (hlive : expireAt.all fun t => now < t) (hms : ms ≤ 0) :
    let e := if m = 1 then none else expireAt.map fun t => ⟨.integer m, some t⟩
    (fixedWindowScript [.text key] [.integer ms]).at now keys =
      (.ok (.table [.integer m, .integer (ttlOf now e)]), keys.put key e) := by
  have hentry := Keyspace.live_put keys key (e := ⟨.integer m, expireAt⟩) hlive
  have hexpire := pexpire_gone hentry hms
  rw [Keyspace.put_put] at hexpire
  have hgone := keyspace_live_none keys key now
  dsimp only
  unfold fixedWindowScript
  change (incr key >>= _).at now keys = _
  rw [run_bind_ok hincr]
  by_cases hm : m = 1
  · subst hm
    change (pexpire key ms >>= _).at now _ = _
    rw [run_bind_ok hexpire]
    change (pttl key >>= _).at now _ = _
    rw [run_bind_ok (pttl_absent hgone)]
    rfl
  · change (if m = 1 then _ else pttl key >>= _ : Script Value).at now _ = _
    rw [if_neg hm]
    rw [if_neg hm]
    cases expireAt with
    | none =>
      rw [run_bind_ok (pttl_persistent hentry rfl)]
      change (pexpire key ms >>= _).at now _ = _
      rw [run_bind_ok hexpire]
      change (pttl key >>= _).at now _ = _
      rw [run_bind_ok (pttl_absent hgone)]
      rfl
    | some t =>
      have ht : now < t := by simpa using hlive
      rw [run_bind_ok (pttl_expiring hentry rfl)]
      change (if t - now < 0 then _ else pttl key >>= _ : Script Value).at now _ = _
      rw [if_neg (by omega)]
      rw [run_bind_ok (pttl_expiring hentry rfl)]
      rfl

theorem leftEntry_open (hms : 0 < ms) (e : Option Entry) :
    leftEntry ms now e = some ⟨.integer (counted e + 1), some (lasting ms now e)⟩ := by
  rw [leftEntry, keptExpiry, lasting]
  by_cases hzero : counted e = 0
  · simp only [if_pos hzero, if_pos hms]
  · simp only [if_neg hzero]
    cases e.bind Entry.expireAt with
    | none => exact if_pos hms
    | some t => rfl

theorem leftEntry_closed (hms : ms ≤ 0) {n : ℤ} (expireAt : Option ℤ) :
    leftEntry ms now (some ⟨.integer n, expireAt⟩) =
      if n + 1 = 1 then none else expireAt.map fun t => ⟨.integer (n + 1), some t⟩ := by
  have hms' : ¬ 0 < ms := not_lt.2 hms
  by_cases hn : n = 0
  · have hkept : keptExpiry (some ⟨.integer n, expireAt⟩) = none := if_pos hn
    have hone : n + 1 = 1 := by omega
    rw [leftEntry, hkept, if_pos hone]
    exact if_neg hms'
  · have hkept : keptExpiry (some ⟨.integer n, expireAt⟩) = expireAt := if_neg hn
    have hone : ¬ n + 1 = 1 := by omega
    rw [leftEntry, hkept, if_neg hone]
    cases expireAt with
    | none => exact if_neg hms'
    | some t => rfl

theorem fixedWindowScript_left (h : IsCounter (keys.live now key)) (ms : ℤ) :
    let e := leftEntry ms now (keys.live now key)
    (fixedWindowScript [.text key] [.integer ms]).at now keys =
      (.ok (.table [.integer (counted (keys.live now key) + 1), .integer (ttlOf now e)]), keys.put key e) := by
  by_cases hms : 0 < ms
  · rw [leftEntry_open hms]
    exact fixedWindowScript_at h hms
  · cases hlive : keys.live now key with
    | none =>
      have hnone : leftEntry ms now none = none := if_neg hms
      rw [hnone]
      exact fixedWindowScript_closed (incr_absent hlive) rfl (not_lt.1 hms)
    | some e =>
      obtain ⟨d, expireAt⟩ := e
      obtain ⟨n, rfl⟩ := h _ hlive
      rw [leftEntry_closed (not_lt.1 hms)]
      exact fixedWindowScript_closed (incr_live hlive) (Keyspace.live_expireAt hlive).2 (not_lt.1 hms)

end Scripts

/-! ## The answer of a call -/

/-- How a fixed-window call reads the count and the time to live. -/
def Call.fixedVerdict (call : Call) (count ttlMs : ℤ) (e : Meets) : Verdict where
  allowed := count ≤ call.limit
  remaining := if count ≤ call.limit then max 0 (call.limit - count) else 0
  resetTs := if 0 < ttlMs then toInt e.answered + ttlMs / 1000 else toInt e.answered + call.window
  source := .redis

theorem interpret_fixedVerdict {call : Call} (hcall : call.strategy = .fixedWindow) (count ttlMs : ℤ) (e : Meets)
    (s : Limiter) : (call.interpret (.table [.integer count, .integer ttlMs])).at e s =
      (.ok (call.fixedVerdict count ttlMs e), s) := by
  unfold Call.interpret
  rw [at_read, hcall]
  simp [replyInts, Call.fixedVerdict]
  rfl

/-- The verdict and the key of a call whose key was as `x`. -/
def Call.answerTo (call : Call) (x : Option Entry) (e : Meets) : Verdict :=
  call.fixedVerdict (counted x + 1) (ttlOf e.serverMs (leftEntry (call.window * 1000) e.serverMs x)) e

theorem rest_left {call : Call} (hcall : call.strategy = .fixedWindow) {e : Meets} {s : Limiter}
    {sha : Option LuaScript} (hup : e.evaluating = .up) (hsha : Ready s.server.scripts sha)
    (hkey : IsCounter (s.server.keys.live e.serverMs call.key)) :
    let x := s.server.keys.live e.serverMs call.key
    ∃ s', (call.rest (call.argv e) sha).at e s = (.ok (call.answerTo x e), s') ∧
      s'.scriptSha = s.scriptSha ∧ (∀ k, s.server.scripts k = true → s'.server.scripts k = true) ∧
      s'.server.keys = s.server.keys.put call.key (leftEntry (call.window * 1000) e.serverMs x) := by
  have hargv : call.argv e = [.integer (call.window * 1000)] := by
    rw [Call.argv, hcall]
  obtain ⟨s₁, hkeeps, hsame, heval⟩ := evaluate_executed [.text call.key]
    [.integer (call.window * 1000)] hup hsha
  have hscript := fixedWindowScript_left hkey (call.window * 1000)
  dsimp only at hscript ⊢
  rw [← hkeeps.keys] at hscript ⊢
  have hname : call.strategy.script = .fixedWindowIncrAndPexpire := by rw [hcall, Strategy.script]
  have hreply := heval.trans (runScript_ok (k := .fixedWindowIncrAndPexpire) hscript)
  rw [← hname, ← hargv] at hreply
  exact ⟨_, rest_ok hreply (interpret_fixedVerdict hcall _ _ e _), hsame, hkeeps.scripts, rfl⟩

theorem leftEntry_isCounter (ms now : ℤ) (e : Option Entry) : IsCounter (leftEntry ms now e) := by
  intro x hx
  rw [leftEntry] at hx
  split at hx
  · cases hx
    exact ⟨_, rfl⟩
  · split at hx
    · cases hx
      exact ⟨_, rfl⟩
    · cases hx

/-! ## Runs -/

section Runs
variable {P : Type} [DecidableEq P] {call : Call} {c c₀ : Cluster P}

/-- The key as a call found it. -/
def Answered.metKey (a : Answered P) : Option Entry := a.before.server.keys.live a.now a.call.key

/-- A call of `call` that the script answered. -/
structure Scripted (call : Call) (a : Answered P) : Prop where
  call_eq : a.call = call
  verdict_eq : a.verdict = .ok (call.answerTo a.metKey a.meets)
  left : a.after.server.keys call.key = leftEntry (call.window * 1000) a.now a.metKey

/-- The last call that was answered has left the key as it is. -/
structure Latest (call : Call) (c : Cluster P) : Prop where
  reaching : Reaching call c
  scripted : ∀ a ∈ c.answered.getLast?, Scripted call a
  left : ∀ a ∈ c.answered.getLast?, c.server.keys call.key = a.after.server.keys call.key

theorem Latest.load (h : Latest call c) (hcall : call.strategy = .fixedWindow) (p : P) {e : Meets}
    (hup : e.evaluating = .up) : ∃ c₁ sha, c.step (.load p call e) = some c₁ ∧ Latest call c₁ ∧
      c₁.answered = c.answered ∧ c₁.server.keys = c.server.keys ∧
      c₁.pending = c.pending ++ [⟨p, call, e, c.sha p, sha⟩] := by
  obtain ⟨c₁, sha, hstep, hreaching, hanswered, hkeys, hpending⟩ := h.reaching.load hcall p hup
  refine ⟨c₁, sha, hstep, ⟨hreaching, ?_, ?_⟩, hanswered, hkeys, hpending⟩
  · rw [hanswered]
    exact h.scripted
  · rw [hanswered, hkeys]
    exact h.left

theorem Latest.answer (h : Latest call c) (hcall : call.strategy = .fixedWindow) {j : ℕ} {q : Pending P}
    (hq : c.pending[j]? = some q) : ∃ c₁ b, c.step (.answer j) = some c₁ ∧ Latest call c₁ ∧
      c₁.answered = c.answered ++ [b] ∧
      b.verdict = .ok (call.answerTo (c.server.keys.live q.meets.serverMs call.key) q.meets) := by
  obtain ⟨rfl, hup, hready⟩ := h.reaching.pending q (List.mem_of_getElem? hq)
  have hlive : IsCounter ((c.limiter q.process).server.keys.live q.meets.serverMs q.call.key) :=
    fun x hx => h.reaching.counter x (Keyspace.live_expireAt hx).1
  obtain ⟨s, hrest, hsha, hscripts, hkeys⟩ := rest_left (s := c.limiter q.process) hcall hup hready hlive
  have hafter := congrFun hkeys q.call.key
  rw [Keyspace.put_self] at hafter
  have hcounter : IsCounter (s.server.keys q.call.key) := hafter ▸ leftEntry_isCounter _ _ _
  obtain ⟨c₁, hanswer, hreaching, hanswered, hserver⟩ := h.reaching.answer hq hrest hsha hscripts hcounter
  refine ⟨c₁, _, hanswer, ⟨hreaching, ?_, ?_⟩, hanswered, rfl⟩
  · rw [hanswered, List.getLast?_concat]
    intro a ha
    cases ha
    exact ⟨rfl, rfl, hafter⟩
  · rw [hanswered, List.getLast?_concat, hserver]
    intro a ha
    cases ha
    rfl

/-- Nobody is calling, no process uses another script, and the key is absent or holds a counter. -/
structure Unused (call : Call) (c : Cluster P) : Prop where
  reaching : Reaching call c
  pending : c.pending = []
  answered : c.answered = []

theorem Latest.of_play (hcall : call.strategy = .fixedWindow) (h : Unused call c₀) {evs : List (Event P)}
    (hevs : ∀ ev ∈ evs, CallsOf call ev) (hplay : c₀.play evs = some c) : Latest call c := by
  have hstart : Latest call c₀ := ⟨h.reaching, by simp [h.answered], by simp [h.answered]⟩
  apply Cluster.play_keeps (A := CallsOf call) _ hstart hevs hplay
  intro c ev c' hinv hev hstep
  cases ev with
  | load p call' e =>
    obtain ⟨rfl, hup⟩ := hev
    obtain ⟨c₁, sha, hload, hlatest, -⟩ := hinv.load hcall p hup
    exact Option.some.inj (hload.symm.trans hstep) ▸ hlatest
  | answer j =>
    obtain ⟨q, hq, -⟩ := Option.map_eq_some_iff.mp hstep
    obtain ⟨c₁, b, hanswer, hlatest, -⟩ := hinv.answer hcall hq
    exact Option.some.inj (hanswer.symm.trans hstep) ▸ hlatest
  | server s => exact hev.elim

/-- The next call of the key, from its start to its answer. -/
theorem Latest.next (h : Latest call c) (hcall : call.strategy = .fixedWindow) (p : P) {e : Meets}
    (hup : e.evaluating = .up) :
    ∃ c' b, c.play [.load p call e, .answer c.pending.length] = some c' ∧ c'.answered = c.answered ++ [b] ∧
      b.verdict = .ok (call.answerTo (c.server.keys.live e.serverMs call.key) e) := by
  obtain ⟨c₁, sha, hload, hlatest, hanswered, hkeys, hpending⟩ := h.load hcall p hup
  have hq : c₁.pending[c.pending.length]? = some ⟨p, call, e, c.sha p, sha⟩ := by
    rw [hpending, List.getElem?_concat_length]
  obtain ⟨c₂, b, hanswer, -, hanswered₂, hverdict⟩ := hlatest.answer hcall hq
  refine ⟨c₂, b, ?_, by rw [hanswered₂, hanswered], hkeys ▸ hverdict⟩
  rw [Cluster.play, hload, Option.bind_some, Cluster.play, hanswer, Option.bind_some, Cluster.play]

/-! ## The next request -/

/-- The clocks that a call meets: the script runs before the reply is read, on a server whose clock is `offset`
milliseconds ahead. -/
def Timed (offset : ℚ) (e : Meets) : Prop :=
  ∃ ran : ℚ, 0 ≤ e.called ∧ e.called ≤ ran ∧ ran ≤ e.answered ∧ e.answered ≤ e.replied ∧
    e.serverMs = ⌊1000 * ran + offset⌋

/-- Any call of the key that is the next and begins at `t` or later is let through. -/
def Admits (offset : ℚ) (call : Call) (c : Cluster P) (t : ℚ) : Prop :=
  ∀ (p : P) (e : Meets) (c' : Cluster P), Timed offset e → t ≤ e.called → e.evaluating = .up →
    c.play [.load p call e, .answer c.pending.length] = some c' →
      ∀ b ∈ c'.answered.getLast?, ∃ v, b.verdict = .ok v ∧ v.allowed = true

/-- The middleware refuses a request, with `r` as `Retry-After`, for the verdict `v` of its strategy. -/
def Refuses (limit : ℤ) (v : Verdict) (e : Meets) (s : Limiter) (r : ℤ) : Prop :=
  (RateLimitMiddleware.dispatch.answer (pure (some v)) limit).at e s = (.ok (.tooManyRequests r), s)

/-- `max(0, reset - int(time.time()))` -/
def retryAfter (v : Verdict) (e : Meets) : ℤ := max 0 (v.resetTs - toInt e.replied)

theorem refuses_iff {limit : ℤ} {v : Verdict} {e : Meets} {s : Limiter} {r : ℤ} :
    Refuses limit v e s r ↔ v.allowed = false ∧ r = retryAfter v e := by
  have hanswer : (RateLimitMiddleware.dispatch.answer (pure (some v)) limit).at e s =
      (.ok (if v.allowed = true then .forwarded (some ⟨limit, v.remaining, v.resetTs⟩)
        else .tooManyRequests (retryAfter v e)), s) := by
    unfold RateLimitMiddleware.dispatch.answer
    refine (at_bind_ok (a := some v) (at_try_ok rfl)).trans ?_
    dsimp only
    split
    · rfl
    · rfl
  rw [Refuses, hanswer]
  cases v.allowed with
  | true => simp
  | false => simp [eq_comm]

/-- A request that the strategy refuses is answered so. -/
theorem dispatch_refuses {m : RateLimitMiddleware} {app : App} {request : Request} {e : Meets} {s s' : Limiter}
    {v : Verdict} {r : ℤ} (hstrategy : app.rateLimitStrategy = "fixed_window") (hreq : request.rateLimit = none)
    (hallow : (redisAllow (rateLimitKey request) (m.effectiveLimit app) (m.effectiveWindow app)).at e s =
      (.ok v, s')) (hr : Refuses (m.effectiveLimit app) v e s' r) :
    (m.dispatch app request).at e s = (.ok (.tooManyRequests r), s') := by
  have hfixed : app.rateLimitStrategy ≠ "sliding_window" := by
    rw [hstrategy]
    decide
  have hmap : (some <$> redisAllow (rateLimitKey request) (m.effectiveLimit app) (m.effectiveWindow app)).at e s =
      (.ok (some v), s') := by
    rw [map_eq_pure_bind]
    exact at_bind_ok hallow
  unfold RateLimitMiddleware.dispatch
  rw [hreq]
  dsimp only
  rw [if_neg hfixed, if_pos hstrategy]
  unfold Refuses RateLimitMiddleware.dispatch.answer at hr
  unfold RateLimitMiddleware.dispatch.answer
  have hpure : (pure (some v) : Py (Option Verdict)).at e s' = (.ok (some v), s') := rfl
  exact (at_bind_ok (at_try_ok hmap)).trans ((at_bind_ok (at_try_ok hpure)).symm.trans hr)

omit [DecidableEq P] in
theorem Scripted.expiry {a : Answered P} (h : Scripted call a) :
    a.expiry = (leftEntry (call.window * 1000) a.now a.metKey).bind Entry.expireAt := by
  rw [Answered.expiry, h.call_eq, h.left]

theorem leftEntry_expires {ms now : ℤ} {e : Option Entry} {x : Entry} (h : leftEntry ms now e = some x) :
    ∃ t, x.expireAt = some t := by
  rw [leftEntry] at h
  split at h
  · cases h
    exact ⟨_, rfl⟩
  · split at h
    · cases h
      exact ⟨_, rfl⟩
    · cases h

theorem leftEntry_expiry {ms now t : ℤ} {e : Option Entry} (h : (leftEntry ms now e).bind Entry.expireAt = some t) :
    leftEntry ms now e = some ⟨.integer (counted e + 1), some t⟩ := by
  rw [leftEntry] at h ⊢
  split at h
  next t' heq =>
    cases h
    rfl
  next heq =>
    split at h
    next hms =>
      cases h
      exact if_pos hms
    next => cases h

/-- A key that a script leaves with an expiry is there after the script. -/
theorem leftEntry_later {ms now t : ℤ} {keys : Keyspace} {key : String}
    (h : (leftEntry ms now (keys.live now key)).bind Entry.expireAt = some t) : now < t := by
  rw [leftEntry] at h
  split at h
  next t' heq =>
    cases h
    rw [keptExpiry] at heq
    split at heq
    · cases heq
    · obtain ⟨x, hx, hexpire⟩ := Option.bind_eq_some_iff.mp heq
      simpa [hexpire] using (Keyspace.live_expireAt hx).2
  next heq =>
    split at h
    next hms =>
      cases h
      omega
    next => cases h

/-- After a refusal the next call is let through once the key has expired. -/
theorem Latest.admits_iff (h : Latest call c) (hcall : call.strategy = .fixedWindow) (hlimit : 1 ≤ call.limit)
    {a : Answered P} (hlast : c.answered.getLast? = some a) (hrefused : call.limit < counted a.metKey + 1)
    {offset t : ℚ} (ht : 0 ≤ t) :
    Admits offset call c t ↔ ∀ T, a.expiry = some T → (T : ℚ) ≤ 1000 * t + offset := by
  have hscripted := h.scripted a hlast
  have hkey : c.server.keys call.key = leftEntry (call.window * 1000) a.now a.metKey :=
    (h.left a hlast).trans hscripted.left
  have hallowed (x : Option Entry) (e : Meets) :
      (call.answerTo x e).allowed = true ↔ counted x + 1 ≤ call.limit := by
    simp [Call.answerTo, Call.fixedVerdict]
  rw [hscripted.expiry]
  constructor
  · intro hadmits T hT
    by_contra hlate
    let e : Meets := { called := t, answered := t, replied := t, serverMs := ⌊1000 * t + offset⌋, uuidHex := "" }
    have hfloor : ⌊1000 * t + offset⌋ < T := Int.floor_lt.2 (not_le.1 hlate)
    have hlive : c.server.keys.live e.serverMs call.key = some ⟨.integer (counted a.metKey + 1), some T⟩ := by
      rw [Keyspace.live, hkey, leftEntry_expiry hT, Option.filter_some, if_pos (by simpa using hfloor)]
    obtain ⟨c', b, hplay, hanswered, hverdict⟩ := h.next hcall a.process (e := e) rfl
    obtain ⟨v, hv, hok⟩ := hadmits a.process e c' ⟨t, ht, le_refl t, le_refl t, le_refl t, rfl⟩ (le_refl t) rfl hplay b
      (by rw [hanswered, List.getLast?_concat]; rfl)
    rw [hverdict, Except.ok.injEq] at hv
    have hcounted : counted (some ⟨.integer (counted a.metKey + 1), some T⟩) = counted a.metKey + 1 := rfl
    rw [← hv, hallowed, hlive, hcounted] at hok
    omega
  · intro hexpired p e c' htimed hcalled hup hplay b hb
    obtain ⟨ran, -, hran, -, -, hserver⟩ := htimed
    have hlive : c.server.keys.live e.serverMs call.key = none := by
      rw [Keyspace.live, hkey, Option.filter_eq_none_iff]
      intro x hx
      obtain ⟨T, hT⟩ := leftEntry_expires hx
      have hle : (T : ℚ) ≤ 1000 * t + offset := hexpired T (by rw [hx]; exact hT)
      have hpassed : T ≤ e.serverMs := by
        rw [hserver]
        exact Int.le_floor.2 (by linarith)
      simpa [hT] using hpassed
    obtain ⟨c₁, b₁, hplay₁, hanswered, hverdict⟩ := h.next hcall p hup
    obtain rfl := Option.some.inj (hplay₁.symm.trans hplay)
    rw [hanswered, List.getLast?_concat] at hb
    cases hb
    refine ⟨_, hverdict, (hallowed _ _).2 ?_⟩
    rw [hlive]
    simpa [counted] using hlimit

/-- What the whole seconds that are left and the two clock readings have to make up for. -/
theorem wait_iff {S T A R : ℤ} {replied offset : ℚ} :
    (T : ℚ) ≤ 1000 * (replied + (max 0 (A + (T - S) / 1000 - R) : ℤ)) + offset ↔
      (((T - S) % 1000 + 1000 * (R - A) : ℤ) : ℚ) ≤ 1000 * replied + offset - S ∨
        (T : ℚ) ≤ 1000 * replied + offset := by
  have hdiv : T = S + 1000 * ((T - S) / 1000) + (T - S) % 1000 := by omega
  have hcut : 0 ≤ (T - S) % 1000 := by omega
  generalize (T - S) / 1000 = q at hdiv ⊢
  generalize (T - S) % 1000 = cut at hdiv hcut ⊢
  have hT : (T : ℚ) = S + 1000 * q + cut := by exact_mod_cast hdiv
  rw [hT]
  push_cast
  by_cases hpos : 0 ≤ A + q - R
  · have hmax : max (0 : ℚ) (A + q - R) = A + q - R := max_eq_right (by exact_mod_cast hpos)
    rw [hmax]
    have hpos' : (0 : ℚ) ≤ A + q - R := by exact_mod_cast hpos
    refine ⟨fun h => .inl (by linarith), fun h => ?_⟩
    obtain h | h := h <;> linarith
  · have hneg : (A + q - R : ℚ) ≤ 0 := by exact_mod_cast (not_le.1 hpos).le
    have hmax : max (0 : ℚ) (A + q - R) = 0 := max_eq_left hneg
    rw [hmax]
    refine ⟨fun h => .inr (by linarith), fun h => ?_⟩
    obtain h | h := h <;> linarith

end Runs

def meetsAtTime (t : ℚ) : Meets :=
  { called := t, answered := t, replied := t, serverMs := ⌊1000 * t⌋, uuidHex := "9f3ab210" }

def twoCalls (t : ℚ) : List (Event (Fin 2)) :=
  [.load 0 oncePerMinute (meetsAtTime 100), .answer 0, .load 1 oncePerMinute (meetsAtTime t), .answer 0]

theorem unused_fresh : Unused oncePerMinute ({ server := freshServer } : Cluster (Fin 2)) :=
  ⟨⟨fun _ => rfl, by simp, by simp [IsCounter, freshServer]⟩, rfl, rfl⟩

theorem twoCalls_callsOf (t : ℚ) : ∀ ev ∈ twoCalls t, CallsOf oncePerMinute ev := by
  simp [twoCalls, CallsOf, meetsAtTime]

/-- What the second of the calls answers, the clocks that it meets and the expiry that it leaves. -/
def secondCall (c : Cluster (Fin 2)) : Option (Option Verdict × (ℚ × ℚ × ℚ × ℤ) × Option ℤ) :=
  c.answered.getLast?.map fun a =>
    (a.verdict.toOption, (a.meets.called, a.meets.answered, a.meets.replied, a.now), a.expiry)

theorem secondCall_eq {c : Cluster (Fin 2)} {v : Verdict} {t : ℚ} {expiry : Option ℤ} (ht : 0 ≤ t)
    (h : secondCall c = some (some v, (t, t, t, ⌊1000 * t⌋), expiry)) :
    ∃ a, c.answered.getLast? = some a ∧ a.verdict = .ok v ∧ Timed 0 a.meets ∧ a.meets.answered = t ∧
      a.meets.replied = t ∧ a.now = ⌊1000 * t⌋ ∧ a.expiry = expiry := by
  obtain ⟨a, hlast, ha⟩ := Option.map_eq_some_iff.mp h
  simp only [Prod.mk.injEq] at ha
  obtain ⟨hv, ⟨hcalled, hanswered, hreplied, hnow⟩, hexpiry⟩ := ha
  have hverdict : a.verdict = .ok v := by
    cases hverdict : a.verdict with
    | ok v' =>
      rw [hverdict] at hv
      exact congrArg Except.ok (Option.some.inj hv)
    | error err =>
      rw [hverdict] at hv
      cases hv
  have htimed : Timed 0 a.meets := by
    refine ⟨t, ?_, ?_, ?_, ?_, ?_⟩
    · rwa [hcalled]
    · exact hcalled.le
    · exact hanswered.ge
    · rw [hanswered, hreplied]
    · rw [add_zero]
      exact hnow
  exact ⟨a, hlast, hverdict, htimed, hanswered, hreplied, hnow, hexpiry⟩

end Phyllonix.RateLimiting
