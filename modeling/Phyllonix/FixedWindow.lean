import Phyllonix.RateLimitCalls

/-!
# The fixed-window limiter

The script counts the calls of a key and lets the key expire one window after its creation,
so each lifetime of the key lets its first `limit` calls through.
-/

namespace Redis

/-- What a script returns, and the keys it leaves. -/
def Script.at {α : Type} (x : Script α) (now : ℤ) (keys : Keyspace) : Except ScriptError α × Keyspace :=
  (x now).run keys

def Keyspace.put (keys : Keyspace) (key : String) (e : Option Entry) : Keyspace :=
  fun k => if k = key then e else keys k

@[simp] theorem Keyspace.put_self (keys : Keyspace) (key : String) (e : Option Entry) :
    keys.put key e key = e := if_pos rfl

@[simp] theorem Keyspace.put_put (keys : Keyspace) (key : String) (e e' : Option Entry) :
    (keys.put key e).put key e' = keys.put key e' := by
  funext k
  by_cases hk : k = key
  · simp [Keyspace.put, hk]
  · simp [Keyspace.put, hk]

namespace Script
variable {α β : Type} {x : Script α} {f : α → Script β} {now : ℤ} {keys keys' : Keyspace} {a : α}
variable {key : String} {n ms t : ℤ} {expireAt : Option ℤ}

theorem run_bind_ok (h : x.at now keys = (.ok a, keys')) : (x >>= f).at now keys = (f a).at now keys' := by
  simp only [Script.at, bind, ReaderT.bind, ExceptT.bind, ExceptT.run, ExceptT.mk, StateT.bind] at h ⊢
  rw [h]
  rfl

theorem liveEntry_at (key : String) (now : ℤ) (keys : Keyspace) :
    (liveEntry key).at now keys = (.ok (keys.live now key), keys) := rfl

theorem incr_absent (h : keys.live now key = none) :
    (incr key).at now keys = (.ok (.integer 1), keys.put key (some ⟨.integer 1, none⟩)) := by
  unfold incr
  rw [run_bind_ok (liveEntry_at key now keys), h]
  rfl

theorem incr_live (h : keys.live now key = some ⟨.integer n, expireAt⟩) :
    (incr key).at now keys =
      (.ok (.integer (n + 1)), keys.put key (some ⟨.integer (n + 1), expireAt⟩)) := by
  unfold incr
  rw [run_bind_ok (liveEntry_at key now keys), h]
  rfl

theorem pexpire_live {e : Entry} (h : keys.live now key = some e) (hms : 0 < ms) :
    (pexpire key ms).at now keys =
      (.ok (.integer 1), keys.put key (some { e with expireAt := some (now + ms) })) := by
  unfold pexpire
  rw [run_bind_ok (liveEntry_at key now keys), h]
  simp only [if_neg (not_le.mpr hms)]
  rfl

theorem pttl_expiring {e : Entry} (h : keys.live now key = some e) (he : e.expireAt = some t) :
    (pttl key).at now keys = (.ok (.integer (t - now)), keys) := by
  unfold pttl
  rw [run_bind_ok (liveEntry_at key now keys), h]
  simp only [he]
  rfl

theorem pttl_persistent {e : Entry} (h : keys.live now key = some e) (he : e.expireAt = none) :
    (pttl key).at now keys = (.ok (.integer (-1)), keys) := by
  unfold pttl
  rw [run_bind_ok (liveEntry_at key now keys), h]
  simp only [he]
  rfl

end Script

theorem Keyspace.live_put (keys : Keyspace) (key : String) {now : ℤ} {e : Entry}
    (h : e.expireAt.all fun t => now < t) : (keys.put key (some e)).live now key = some e := by
  rw [Keyspace.live, Keyspace.put_self, Option.filter_some, if_pos h]

theorem Keyspace.live_expireAt {keys : Keyspace} {key : String} {now : ℤ} {e : Entry}
    (h : keys.live now key = some e) : keys key = some e ∧ e.expireAt.all fun t => now < t :=
  Option.filter_eq_some_iff.mp h

end Redis

namespace Phyllonix.RateLimiting
open Redis Script

/-- What a counter has come to; an absent key counts from zero. -/
def counted : Option Entry → ℤ
  | some ⟨.integer n, _⟩ => n
  | _ => 0

/-- When a key expires after it was counted. -/
def lasting (ms now : ℤ) (e : Option Entry) : ℤ :=
  if counted e = 0 then now + ms else (e.bind Entry.expireAt).getD (now + ms)

/-- An absent key, or one that holds a counter. -/
def IsCounter (e : Option Entry) : Prop := ∀ x, e = some x → ∃ n, x.data = .integer n

section Scripts
variable {keys : Keyspace} {key : String} {now ms : ℤ}

/-- Once the key was counted it has an expiry, and keeps the one it had. -/
theorem fixedWindowScript_after {m : ℤ} {expireAt : Option ℤ}
    (hincr : (incr key).at now keys = (.ok (.integer m), keys.put key (some ⟨.integer m, expireAt⟩)))
    (hlive : expireAt.all fun t => now < t) (hms : 0 < ms) :
    let t := if m = 1 then now + ms else expireAt.getD (now + ms)
    (fixedWindowScript [.text key] [.integer ms]).at now keys =
      (.ok (.table [.integer m, .integer (t - now)]), keys.put key (some ⟨.integer m, some t⟩)) := by
  have hentry := Keyspace.live_put keys key (e := ⟨.integer m, expireAt⟩) hlive
  have hnew : ((some (now + ms)).all fun t => now < t) = true := by
    simpa using hms
  have hset := Keyspace.live_put keys key (e := ⟨.integer m, some (now + ms)⟩) hnew
  have hexpire := pexpire_live hentry hms
  rw [Keyspace.put_put] at hexpire
  dsimp only
  unfold fixedWindowScript
  change (incr key >>= _).at now keys = _
  rw [run_bind_ok hincr]
  by_cases hm : m = 1
  · subst hm
    change (pexpire key ms >>= _).at now _ = _
    rw [run_bind_ok hexpire]
    change (pttl key >>= _).at now _ = _
    rw [run_bind_ok (pttl_expiring hset rfl)]
    rfl
  · change (if m = 1 then _ else pttl key >>= _ : Script Value).at now _ = _
    rw [if_neg hm]
    rw [if_neg hm]
    cases expireAt with
    | none =>
      rw [run_bind_ok (pttl_persistent hentry rfl)]
      change (pexpire key ms >>= _).at now _ = _
      rw [run_bind_ok hexpire]
      change (pttl key >>= _).at now _ = _
      rw [run_bind_ok (pttl_expiring hset rfl)]
      rfl
    | some t =>
      have ht : now < t := by simpa using hlive
      rw [run_bind_ok (pttl_expiring hentry rfl)]
      change (if t - now < 0 then _ else pttl key >>= _ : Script Value).at now _ = _
      rw [if_neg (by omega)]
      rw [run_bind_ok (pttl_expiring hentry rfl)]
      rfl

theorem fixedWindowScript_at (h : IsCounter (keys.live now key)) (hms : 0 < ms) :
    let e := keys.live now key
    (fixedWindowScript [.text key] [.integer ms]).at now keys =
      (.ok (.table [.integer (counted e + 1), .integer (lasting ms now e - now)]),
        keys.put key (some ⟨.integer (counted e + 1), some (lasting ms now e)⟩)) := by
  dsimp only
  cases hlive : keys.live now key with
  | none => exact fixedWindowScript_after (incr_absent hlive) rfl hms
  | some e =>
    obtain ⟨d, expireAt⟩ := e
    obtain ⟨n, rfl⟩ := h _ hlive
    have hexp := (Keyspace.live_expireAt hlive).2
    have hafter := fixedWindowScript_after (incr_live hlive) hexp hms
    have hone : n + 1 = 1 ↔ n = 0 := by omega
    simp only [hone] at hafter
    exact hafter

theorem runScript_ok {k : LuaScript} {argv ks : List Value} {e : Meets} {s : Limiter} {v : Value}
    {keyspace : Keyspace} (h : (k.run ks argv).at e.serverMs s.server.keys = (.ok v, keyspace)) :
    (runScript k ks argv).at e s = (.ok v, { s with server := { s.server with keys := keyspace } }) := by
  have h : (k.run ks argv e.serverMs).run s.server.keys = (.ok v, keyspace) := h
  unfold runScript
  rw [at_read, at_get, h]
  rfl

/-- What a call of the limiter finds out from the count of its key. -/
structure Counts (limit n : ℤ) (v : Verdict) : Prop where
  source : v.source = .redis
  allowed : v.allowed = true ↔ n ≤ limit
  remaining : v.allowed = true → v.remaining = limit - n

theorem interpret_fixed {call : Call} (hcall : call.strategy = .fixedWindow) (n ttl : ℤ) (e : Meets)
    (s : Limiter) : ∃ v, (call.interpret (.table [.integer n, .integer ttl])).at e s = (.ok v, s) ∧
      Counts call.limit n v := by
  unfold Call.interpret
  rw [at_read, hcall]
  refine ⟨_, rfl, rfl, ?_, ?_⟩
  · simp
  · intro h
    simp only [decide_eq_true_eq] at h
    simp [h]

theorem rest_ok {call : Call} {argv : List Value} {sha : Option LuaScript} {e : Meets} {s s' : Limiter}
    {res : Value} {v : Verdict}
    (heval : (evaluate call.strategy.script sha [.text call.key] argv).at e s = (.ok res, s'))
    (hread : (call.interpret res).at e s' = (.ok v, s')) :
    (call.rest argv sha).at e s = (.ok v, s') := by
  unfold Call.rest
  exact at_try_ok ((at_bind_ok heval).trans hread)

/-- The server runs the fixed-window script for the digest, or for the text. -/
def Ready (scripts : LuaScript → Bool) (sha : Option LuaScript) : Prop :=
  executed scripts .fixedWindowIncrAndPexpire sha = some .fixedWindowIncrAndPexpire

theorem Ready.mono {scripts scripts' : LuaScript → Bool} {sha : Option LuaScript}
    (h : Ready scripts sha) (hs : ∀ k, scripts k = true → scripts' k = true) : Ready scripts' sha := by
  cases sha with
  | none => rfl
  | some k =>
    rw [Ready, executed] at h
    split at h
    · rename_i hk
      cases h
      exact if_pos (hs _ hk)
    · cases h

/-- A call whose script is the fixed-window script counts its key. -/
theorem rest_fixed {call : Call} (hcall : call.strategy = .fixedWindow) (hwindow : 0 < call.window)
    {e : Meets} {s : Limiter} {sha : Option LuaScript} (hup : e.evaluating = .up)
    (hsha : Ready s.server.scripts sha)
    (hkey : IsCounter (s.server.keys.live e.serverMs call.key)) :
    let x := s.server.keys.live e.serverMs call.key
    ∃ v s', (call.rest (call.argv e) sha).at e s = (.ok v, s') ∧ Counts call.limit (counted x + 1) v ∧
      s'.scriptSha = s.scriptSha ∧ (∀ k, s.server.scripts k = true → s'.server.scripts k = true) ∧
      s'.server.keys = s.server.keys.put call.key
        (some ⟨.integer (counted x + 1), some (lasting (call.window * 1000) e.serverMs x)⟩) := by
  have hargv : call.argv e = [.integer (call.window * 1000)] := by
    rw [Call.argv, hcall]
  obtain ⟨s₁, hkeeps, hsame, heval⟩ := evaluate_executed [.text call.key]
    [.integer (call.window * 1000)] hup hsha
  have hms : 0 < call.window * 1000 := by omega
  have hscript := fixedWindowScript_at hkey hms
  dsimp only at hscript ⊢
  generalize counted (s.server.keys.live e.serverMs call.key) + 1 = n at hscript ⊢
  generalize lasting (call.window * 1000) e.serverMs (s.server.keys.live e.serverMs call.key) = t
    at hscript ⊢
  generalize s.server.keys.put call.key (some ⟨.integer n, some t⟩) = keyspace at hscript ⊢
  rw [← hkeeps.keys] at hscript
  have hrun := runScript_ok (k := .fixedWindowIncrAndPexpire) hscript
  obtain ⟨v, hv, hcounts⟩ := interpret_fixed hcall n (t - e.serverMs) e
    { s₁ with server := { s₁.server with keys := keyspace } }
  refine ⟨v, _, rest_ok ?_ hv, hcounts, hsame, hkeeps.scripts, rfl⟩
  rw [hcall, hargv]
  exact heval.trans hrun

end Scripts

/-! ## Histories of a key -/

variable {P : Type}

namespace Answered

/-- The server's clock when it ran the script. -/
def now (a : Answered P) : ℤ := a.meets.serverMs

/-- The call found no key. -/
def Creates (a : Answered P) : Prop := a.before.server.keys.live a.now a.call.key = none

/-- When the key expires after the call. -/
def expiry (a : Answered P) : Option ℤ := (a.after.server.keys a.call.key).bind Entry.expireAt

end Answered

/-- A history of calls of one key that the limit holds for. -/
structure WindowLimited (limit window : ℤ) (e₀ : Option Entry) (h : List (Answered P)) : Prop where
  ttl : ∀ a ∈ h, ∃ t, a.expiry = some t ∧ a.now < t ∧ t - a.now ≤ window * 1000
  lifetime : ∀ a as, (a :: as) <:+: h → a.Creates → (∀ b ∈ as, ¬b.Creates) →
    ∀ n (hn : n < (a :: as).length), ∃ v, (a :: as)[n].verdict = .ok v ∧ Counts limit (n + 1) v
  renewal : ∀ a b, [a, b] <:+: h → b.Creates → ∃ t, a.expiry = some t ∧ t ≤ b.now
  inherited : ∀ b e, h.head? = some b → b.Creates → e₀ = some e → ∃ t, e.expireAt = some t ∧ t ≤ b.now

/-- Each call counts the key that the one before it left. -/
def Tallied (call : Call) : Option Entry → List (Answered P) → Prop
  | _, [] => True
  | e, a :: as =>
    let x := a.before.server.keys.live a.now call.key
    let e' := some ⟨.integer (counted x + 1), some (lasting (call.window * 1000) a.now x)⟩
    a.call = call ∧ a.before.server.keys call.key = e ∧ a.after.server.keys call.key = e' ∧
      (∃ v, a.verdict = .ok v ∧ Counts call.limit (counted x + 1) v) ∧ Tallied call e' as

/-- The key after a history. -/
def leftKey (key : String) : Option Entry → List (Answered P) → Option Entry
  | e, [] => e
  | _, a :: as => leftKey key (a.after.server.keys key) as

section Tallies
variable {call : Call} {e : Option Entry} {h l : List (Answered P)} {a b : Answered P}

theorem leftKey_snoc (key : String) (e : Option Entry) (h : List (Answered P)) (a : Answered P) :
    leftKey key e (h ++ [a]) = a.after.server.keys key := by
  induction h generalizing e with
  | nil => rfl
  | cons b h ih => exact ih _

theorem Tallied.snoc (hh : Tallied call e h) (ha : Tallied call (leftKey call.key e h) [a]) :
    Tallied call e (h ++ [a]) := by
  induction h generalizing e with
  | nil => exact ha
  | cons b h ih =>
    obtain ⟨hcall, hbefore, hafter, hverdict, hrest⟩ := hh
    rw [leftKey, hafter] at ha
    exact ⟨hcall, hbefore, hafter, hverdict, ih hrest ha⟩

theorem Tallied.prefix {l' : List (Answered P)} (h : Tallied call e (l ++ l')) : Tallied call e l := by
  induction l generalizing e with
  | nil => trivial
  | cons a l ih =>
    obtain ⟨hcall, hbefore, hafter, hverdict, hrest⟩ := h
    exact ⟨hcall, hbefore, hafter, hverdict, ih hrest⟩

theorem Tallied.suffix {l' : List (Answered P)} (h : Tallied call e (l' ++ l)) :
    ∃ e', Tallied call e' l := by
  induction l' generalizing e with
  | nil => exact ⟨e, h⟩
  | cons a l' ih => exact ih h.2.2.2.2

theorem Tallied.infix (hh : Tallied call e h) (hl : l <:+: h) : ∃ e', Tallied call e' l := by
  obtain ⟨l₁, l₂, rfl⟩ := hl
  exact hh.prefix.suffix

/-- A call that creates the key comes when the key that was there has expired. -/
theorem expired_of_creates (hb : b.Creates) (hkey : b.before.server.keys b.call.key = e) :
    ∀ x, e = some x → ∃ t, x.expireAt = some t ∧ t ≤ b.now := by
  intro x hx
  rw [Answered.Creates, Keyspace.live, hkey, hx, Option.filter_eq_none_iff] at hb
  have hall := hb x rfl
  cases ht : x.expireAt with
  | none => simp [ht] at hall
  | some t => exact ⟨t, rfl, by simpa [ht] using hall⟩

theorem lasting_bounds {now t₀ : ℤ} (hwindow : 0 < call.window) (hnow : t₀ ≤ now)
    (he : ∀ x t, e = some x → x.expireAt = some t → t ≤ t₀ + call.window * 1000) {keys : Keyspace}
    (hkeys : keys call.key = e) :
    let t := lasting (call.window * 1000) now (keys.live now call.key)
    now < t ∧ t ≤ now + call.window * 1000 := by
  dsimp only
  rw [lasting]
  split
  · omega
  cases hlive : keys.live now call.key with
  | none =>
    simp only [Option.bind_none, Option.getD_none]
    omega
  | some x =>
    obtain ⟨hx, hall⟩ := Keyspace.live_expireAt hlive
    cases ht : x.expireAt with
    | none =>
      simp only [Option.bind_some, ht, Option.getD_none]
      omega
    | some t =>
      have hle := he x t (hkeys.symm.trans hx) ht
      have hlt : now < t := by simpa [ht] using hall
      simp only [Option.bind_some, ht, Option.getD_some]
      omega

theorem Tallied.ttl (hh : Tallied call e h) (hwindow : 0 < call.window) {t₀ : ℤ}
    (he : ∀ x t, e = some x → x.expireAt = some t → t ≤ t₀ + call.window * 1000)
    (htimes : (t₀ :: h.map Answered.now).Pairwise (· ≤ ·)) :
    ∀ a ∈ h, ∃ t, a.expiry = some t ∧ a.now < t ∧ t - a.now ≤ call.window * 1000 := by
  induction h generalizing e t₀ with
  | nil => simp
  | cons b h ih =>
    obtain ⟨hcall, hbefore, hafter, -, hrest⟩ := hh
    have hb : t₀ ≤ b.now := List.rel_of_pairwise_cons htimes List.mem_cons_self
    obtain ⟨hlt, hle⟩ := lasting_bounds hwindow hb he hbefore
    intro a ha
    rcases List.mem_cons.mp ha with rfl | ha
    · refine ⟨_, ?_, hlt, ?_⟩
      · rw [Answered.expiry, hcall, hafter]
        rfl
      · omega
    · apply ih hrest _ htimes.of_cons a ha
      intro x t hx ht
      cases hx
      cases ht
      exact hle

/-- Within a lifetime each call counts one more. -/
theorem Tallied.counting {m : ℤ} {t : Option ℤ} (hh : Tallied call (some ⟨.integer m, t⟩) h)
    (hno : ∀ b ∈ h, ¬b.Creates) (n : ℕ) (hn : n < h.length) :
    ∃ v, h[n].verdict = .ok v ∧ Counts call.limit (m + n + 1) v := by
  induction h generalizing m t n with
  | nil => cases hn
  | cons b h ih =>
    obtain ⟨hcall, hbefore, -, ⟨v, hv, hcounts⟩, hrest⟩ := hh
    have hlive : b.before.server.keys.live b.now call.key = some ⟨.integer m, t⟩ := by
      cases hx : b.before.server.keys.live b.now call.key with
      | none =>
        have hb := hno b List.mem_cons_self
        rw [Answered.Creates, hcall] at hb
        exact absurd hx hb
      | some x => rw [← (Keyspace.live_expireAt hx).1, hbefore]
    rw [hlive] at hcounts hrest
    cases n with
    | zero => exact ⟨v, hv, by simpa [counted] using hcounts⟩
    | succ n =>
      obtain ⟨v', hv', hcounts'⟩ := ih hrest (fun b hb => hno b (List.mem_cons_of_mem _ hb)) n
        (Nat.lt_of_succ_lt_succ hn)
      refine ⟨v', hv', ?_⟩
      have hm : (m : ℤ) + 1 + n + 1 = m + (n + 1 : ℕ) + 1 := by omega
      rwa [counted, hm] at hcounts'

theorem Tallied.lifetime (hh : Tallied call e (a :: h)) (ha : a.Creates) (hno : ∀ b ∈ h, ¬b.Creates)
    (n : ℕ) (hn : n < (a :: h).length) :
    ∃ v, (a :: h)[n].verdict = .ok v ∧ Counts call.limit (n + 1) v := by
  obtain ⟨hcall, -, -, ⟨v, hv, hcounts⟩, hrest⟩ := hh
  rw [Answered.Creates, hcall] at ha
  rw [ha] at hcounts hrest
  cases n with
  | zero => exact ⟨v, hv, by simpa [counted] using hcounts⟩
  | succ n =>
    obtain ⟨v', hv', hcounts'⟩ := hrest.counting hno n (Nat.lt_of_succ_lt_succ hn)
    refine ⟨v', hv', ?_⟩
    have hm : counted none + 1 + n + 1 = ((n + 1 : ℕ) : ℤ) + 1 := by
      simp only [counted]
      omega
    rwa [hm] at hcounts'

theorem Tallied.renewal (hh : Tallied call e [a, b]) (hb : b.Creates) :
    ∃ t, a.expiry = some t ∧ t ≤ b.now := by
  obtain ⟨hcall, -, hafter, -, hcall', hbefore, -⟩ := hh
  have hkey : b.before.server.keys b.call.key = a.after.server.keys a.call.key := by
    rw [hcall', hcall, hbefore, hafter]
  rw [hcall, hafter] at hkey
  obtain ⟨t, ht, hle⟩ := expired_of_creates hb hkey _ rfl
  refine ⟨t, ?_, hle⟩
  rw [Answered.expiry, hcall, hafter]
  exact ht

theorem Tallied.limited (hh : Tallied call e h) (hwindow : 0 < call.window) {t₀ : ℤ}
    (he : ∀ x t, e = some x → x.expireAt = some t → t ≤ t₀ + call.window * 1000)
    (htimes : (t₀ :: h.map Answered.now).Pairwise (· ≤ ·)) :
    WindowLimited call.limit call.window e h where
  ttl := hh.ttl hwindow he htimes
  lifetime a as hinfix ha hno := by
    obtain ⟨e', h'⟩ := hh.infix hinfix
    exact h'.lifetime ha hno
  renewal a b hinfix hb := by
    obtain ⟨e', h'⟩ := hh.infix hinfix
    exact h'.renewal hb
  inherited b x hhead hb hx := by
    cases h with
    | nil => cases hhead
    | cons a h =>
      cases hhead
      have hkey : b.before.server.keys b.call.key = e := by
        rw [hh.1, hh.2.1]
      exact expired_of_creates hb hkey x hx

end Tallies

/-! ## Runs -/

section Runs
variable [DecidableEq P] {call : Call} {e₀ : Option Entry} {c c' : Cluster P}

/-- Calls of one key by processes that ask for the fixed-window script, and reach the server. -/
structure Reaching (call : Call) (c : Cluster P) : Prop where
  sha : ∀ p, Ready c.server.scripts (c.sha p)
  pending : ∀ q ∈ c.pending, q.call = call ∧ q.meets.evaluating = .up ∧ Ready c.server.scripts q.sha
  counter : IsCounter (c.server.keys call.key)

theorem Reaching.load (h : Reaching call c) (hcall : call.strategy = .fixedWindow) (p : P) {e : Meets}
    (hup : e.evaluating = .up) : ∃ c₁ sha, c.step (.load p call e) = some c₁ ∧ Reaching call c₁ ∧
      c₁.answered = c.answered ∧ c₁.server.keys = c.server.keys ∧
      c₁.pending = c.pending ++ [⟨p, call, e, c.sha p, sha⟩] := by
  obtain ⟨sha, s, hload, hkeeps, hsha, hwhich, -⟩ := call.load_at e (c.limiter p)
  have hkeys : s.server.keys = c.server.keys := hkeeps.keys
  have hready : Ready s.server.scripts sha := by
    rcases hwhich with rfl | ⟨rfl, hk⟩
    · exact (h.sha p).mono hkeeps.scripts
    · rw [hcall] at hk ⊢
      exact if_pos hk
  have hstep : c.step (.load p call e) =
      some { c.put p s with pending := c.pending ++ [⟨p, call, e, c.sha p, sha⟩] } := by
    rw [Cluster.step, hload]
  refine ⟨_, sha, hstep, ⟨?_, ?_, ?_⟩, rfl, hkeys, rfl⟩
  · intro p'
    by_cases hp : p' = p
    · subst hp
      simpa [Cluster.put, hsha] using hready
    · simpa [Cluster.put, hp] using (h.sha p').mono hkeeps.scripts
  · intro q hq
    rcases List.mem_append.mp hq with hq | hq
    · obtain ⟨hc, hu, hr⟩ := h.pending q hq
      exact ⟨hc, hu, hr.mono hkeeps.scripts⟩
    · obtain rfl := List.mem_singleton.mp hq
      exact ⟨rfl, hup, hready⟩
  · change IsCounter (s.server.keys call.key)
    rw [hkeys]
    exact h.counter

/-- A call that leaves a counter, or nothing, under its key. -/
theorem Reaching.answer (h : Reaching call c) {j : ℕ} {q : Pending P} (hq : c.pending[j]? = some q)
    {v : Except PyError Verdict} {s : Limiter}
    (hrest : (q.call.rest (q.call.argv q.meets) q.sha).at q.meets (c.limiter q.process) = (v, s))
    (hsha : s.scriptSha = (c.limiter q.process).scriptSha)
    (hscripts : ∀ k, c.server.scripts k = true → s.server.scripts k = true)
    (hcounter : IsCounter (s.server.keys call.key)) :
    ∃ c₁, c.step (.answer j) = some c₁ ∧ Reaching call c₁ ∧
      c₁.answered = c.answered ++ [⟨q, c.limiter q.process, v, s⟩] ∧ c₁.server = s.server := by
  have hstep : c.step (.answer j) = some { c.put q.process s with
      pending := c.pending.eraseIdx j
      answered := c.answered ++ [⟨q, c.limiter q.process, v, s⟩] } := by
    simp only [Cluster.step, hq, Option.map_some, hrest]
  refine ⟨_, hstep, ⟨?_, ?_, hcounter⟩, rfl, rfl⟩
  · intro p'
    by_cases hp : p' = q.process
    · subst hp
      have hready' : Ready s.server.scripts s.scriptSha := by
        rw [hsha]
        exact (h.sha _).mono hscripts
      simpa [Cluster.put] using hready'
    · simpa [Cluster.put, hp] using (h.sha p').mono hscripts
  · intro q' hq'
    obtain ⟨hc, hu, hr⟩ := h.pending q' (List.mem_of_mem_eraseIdx hq')
    exact ⟨hc, hu, hr.mono hscripts⟩

/-- Calls of one key by processes that ask for the fixed-window script. -/
structure Limiting (call : Call) (e₀ : Option Entry) (c : Cluster P) : Prop where
  sha : ∀ p, Ready c.server.scripts (c.sha p)
  pending : ∀ q ∈ c.pending, q.call = call ∧ q.meets.evaluating = .up ∧ Ready c.server.scripts q.sha
  counter : IsCounter (c.server.keys call.key)
  tallied : Tallied call e₀ c.answered
  last : leftKey call.key e₀ c.answered = c.server.keys call.key

omit [DecidableEq P] in
theorem Limiting.reaching (h : Limiting call e₀ c) : Reaching call c := ⟨h.sha, h.pending, h.counter⟩

/-- The steps of calls of `call`, which reach the server. -/
def CallsOf (call : Call) : Event P → Prop
  | .load _ call' e => call' = call ∧ e.evaluating = .up
  | .answer _ => True
  | .server _ => False

theorem Limiting.load (h : Limiting call e₀ c) (hcall : call.strategy = .fixedWindow) {p : P} {e : Meets}
    (hup : e.evaluating = .up) (hstep : c.step (.load p call e) = some c') : Limiting call e₀ c' := by
  obtain ⟨c₁, sha, hload, hreaching, hanswered, hkeys, -⟩ := h.reaching.load hcall p hup
  obtain rfl := Option.some.inj (hload.symm.trans hstep)
  refine ⟨hreaching.sha, hreaching.pending, hreaching.counter, ?_, ?_⟩
  · rw [hanswered]
    exact h.tallied
  · rw [hanswered, hkeys]
    exact h.last

theorem Limiting.answer (h : Limiting call e₀ c) (hcall : call.strategy = .fixedWindow)
    (hwindow : 0 < call.window) {j : ℕ} (hstep : c.step (.answer j) = some c') :
    Limiting call e₀ c' := by
  obtain ⟨q, hq, -⟩ := Option.map_eq_some_iff.mp hstep
  obtain ⟨rfl, hup, hready⟩ := h.pending q (List.mem_of_getElem? hq)
  have hlive : IsCounter ((c.limiter q.process).server.keys.live q.meets.serverMs q.call.key) := by
    intro x hx
    exact h.counter x (Keyspace.live_expireAt hx).1
  obtain ⟨v, s, hrest, hcounts, hsha, hscripts, hkeys⟩ := rest_fixed
    (s := c.limiter q.process) hcall hwindow hup hready hlive
  have hafter := congrFun hkeys q.call.key
  rw [Keyspace.put_self] at hafter
  have hcounter : IsCounter (s.server.keys q.call.key) := by
    intro x hx
    rw [hafter] at hx
    cases hx
    exact ⟨_, rfl⟩
  obtain ⟨c₁, hanswer, hreaching, hanswered, hserver⟩ := h.reaching.answer hq hrest hsha hscripts hcounter
  obtain rfl := Option.some.inj (hanswer.symm.trans hstep)
  refine ⟨hreaching.sha, hreaching.pending, hreaching.counter, ?_, ?_⟩
  · rw [hanswered]
    apply h.tallied.snoc
    rw [h.last]
    exact ⟨rfl, rfl, hafter, ⟨v, rfl, hcounts⟩, trivial⟩
  · rw [hanswered, hserver]
    exact leftKey_snoc _ _ _ _

/-- An idle system: nobody is calling, no process uses another script, and the key is absent or
holds a counter that does not expire or expires within a window. -/
structure Idle (call : Call) (t₀ : ℤ) (c : Cluster P) : Prop where
  pending : c.pending = []
  answered : c.answered = []
  sha : ∀ p, Ready c.server.scripts (c.sha p)
  counter : IsCounter (c.server.keys call.key)
  expiry : ∀ x t, c.server.keys call.key = some x → x.expireAt = some t → t ≤ t₀ + call.window * 1000

theorem redisAllow_limited {call : Call} (hcall : call.strategy = .fixedWindow)
    (hwindow : 0 < call.window) {t₀ : ℤ} {c₀ c : Cluster P} (hidle : Idle call t₀ c₀)
    {evs : List (Event P)} (hevs : ∀ ev ∈ evs, CallsOf call ev) (hplay : c₀.play evs = some c)
    (htimes : (t₀ :: c.answered.map Answered.now).Pairwise (· ≤ ·)) :
    WindowLimited call.limit call.window (c₀.server.keys call.key) c.answered := by
  have hstart : Limiting call (c₀.server.keys call.key) c₀ := by
    refine ⟨hidle.sha, ?_, hidle.counter, ?_, ?_⟩
    · simp [hidle.pending]
    · rw [hidle.answered]
      trivial
    · rw [hidle.answered]
      rfl
  have hc : Limiting call (c₀.server.keys call.key) c := by
    apply Cluster.play_keeps (A := CallsOf call) _ hstart hevs hplay
    intro c ev c' hinv hev hstep
    cases ev with
    | load p call' e =>
      obtain ⟨rfl, hup⟩ := hev
      exact hinv.load hcall hup hstep
    | answer j => exact hinv.answer hcall hwindow hstep
    | server s => exact hev.elim
  exact hc.tallied.limited hwindow hidle.expiry htimes

end Runs

/-- One call per minute is let through. -/
def oncePerMinute : Call := ⟨.fixedWindow, "rl:ip:10.0.0.1:/products", 1, 60⟩

def meetsAt (t : ℤ) : Meets :=
  { called := t, answered := t, replied := t, serverMs := t * 1000, uuidHex := "9f3ab210" }

/-- Two processes call within a window, and one of them after it. -/
def threeCalls : List (Event (Fin 2)) :=
  [.load 0 oncePerMinute (meetsAt 100), .load 1 oncePerMinute (meetsAt 101), .answer 0, .answer 0,
    .load 0 oncePerMinute (meetsAt 161), .answer 0]

theorem redisAllow_limited_threeCalls : ∃ c : Cluster (Fin 2),
    Cluster.play { server := freshServer } threeCalls = some c ∧
      WindowLimited oncePerMinute.limit oncePerMinute.window none c.answered := by
  have hplay : (Cluster.play { server := freshServer } threeCalls).map
      (fun c => c.answered.map Answered.now) = some [100000, 101000, 161000] := by
    decide +kernel
  obtain ⟨c, hc, htimes⟩ := Option.map_eq_some_iff.mp hplay
  have hidle : Idle oncePerMinute 0 ({ server := freshServer } : Cluster (Fin 2)) :=
    ⟨rfl, rfl, fun _ => rfl, by simp [IsCounter, freshServer], by simp [freshServer]⟩
  have hevs : ∀ ev ∈ threeCalls, CallsOf oncePerMinute ev := by
    simp [threeCalls, CallsOf, meetsAt]
  have htimes' : ((0 : ℤ) :: c.answered.map Answered.now).Pairwise (· ≤ ·) := by
    rw [htimes]
    decide
  exact ⟨c, hc, redisAllow_limited rfl (by decide) hidle hevs hc htimes'⟩

end Phyllonix.RateLimiting
