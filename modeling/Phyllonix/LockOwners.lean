import Phyllonix.ListingCache
import Phyllonix.DetailCache

/-!
# Who releases a cache lock

The release script deletes a lock only while it holds the caller's token. When the script
raises, the lock is deleted without a look at its value, and by then it may be another's.
-/

namespace Phyllonix.Cache
open Async

variable {V β : Type} {n : ℕ}

/-- What a miss does: with the lock, the block and then the release; else the way without. -/
def locking (lock_key token : String) (block other : Py V β) : Py V β := do
  let locked ← setNx lock_key token REDIS_LOCK_TIMEOUT
  if locked then block.tryFinally (release_lock lock_key token) else other

theorem onMiss_eq_locking (codec : Codec) (key token : String) (ttl : ℤ) (mode : String) :
    onMiss codec key token ttl mode = locking (lockKey key) token (underLock codec key ttl)
      (if mode = "wait" then pollFor codec key ttl pollRounds else staleWait codec key ttl) := rfl

theorem detail_onMiss_eq_locking (orjson_dumps : JsonText.Value → Except AppErr Bytes) (public_id token : String)
    (raw : Option Bytes) :
    Detail.onMiss orjson_dumps public_id token raw = locking (Detail.lockKey public_id) token
      (Detail.underLock orjson_dumps public_id raw) (Detail.pollFor orjson_dumps public_id Detail.pollRounds) := rfl

/-! ## Operations on the lock -/

/-- The operation writes other keys than the lock's. -/
def Op.Leaves (lock_key : String) : Op → Prop
  | .get _ | .sleep _ | .load => True
  | .set key _ _ | .setNx key _ _ | .delete key => key ≠ lock_key
  | .eval _ names _ => lock_key ∉ names

/-- What the owner of a token does with the lock. -/
inductive LockOp (lock_key token : String) : Op → Prop
  | acquire : LockOp lock_key token (.setNx lock_key token REDIS_LOCK_TIMEOUT)
  | release : LockOp lock_key token (.eval .releaseLock [lock_key] [.text token.toList])
  | discard : LockOp lock_key token (.delete lock_key)
  | leave {o : Op} (h : o.Leaves lock_key) : LockOp lock_key token o

def tokenBytes (token : String) : Bytes := Catalog.encode token.toList

theorem tokenBytes_injective : Function.Injective tokenBytes := fun _ _ h =>
  String.toList_inj.1 (Catalog.encode_injective h)

theorem release_lock_only (lock_key token : String) :
    (release_lock lock_key token : Py V Unit).Only (LockOp lock_key token) := by
  refine (Prog.only_call .release).attempt.bind fun r => ?_
  cases r with
  | ok z => exact Prog.only_pure ()
  | error e => exact (Prog.only_call .discard).attempt.bind fun _ => Prog.only_pure ()

theorem locking_only {lock_key token : String} {block other : Py V β} (hblock : block.Only (Op.Leaves lock_key))
    (hother : other.Only (Op.Leaves lock_key)) :
    (locking lock_key token block other).Only (LockOp lock_key token) := by
  refine (Prog.only_call .acquire).bind fun locked => ?_
  cases locked with
  | true => exact (hblock.mono fun _ => .leave).tryFinally (release_lock_only lock_key token)
  | false => exact hother.mono fun _ => .leave

/-- A command leaves a key alone, or does to it what it does when it runs. -/
theorem exchange_key {c : Choice V} {s s' : State} {r r' : Except AppErr β} {keys : Keys}
    (h : exchange c s r keys = some (r', s')) (key : String) :
    s'.clock = s.clock ∧ (s'.keys key = s.keys key ∨ s'.keys key = keys key) := by
  cases c with
  | up =>
    cases h
    exact ⟨rfl, .inr rfl⟩
  | down =>
    cases h
    exact ⟨rfl, .inl rfl⟩
  | replyLost =>
    cases h
    exact ⟨rfl, .inr rfl⟩
  | loaded _ => cases h

theorem ok_of_bind {ε α γ : Type} {x : Except ε α} {f : α → Except ε γ} {b : γ} (h : x >>= f = .ok b) :
    ∃ a, x = .ok a ∧ f a = .ok b := by
  cases x with
  | error e => cases h
  | ok a => exact ⟨a, rfl, h⟩

theorem setIfNewerLua_other {keys keys' : Keys} {now r : ℤ} {value_key ver_key other : String}
    {payload new_ts ttl : Bytes} (h : setIfNewerLua keys now value_key ver_key payload new_ts ttl = .ok (r, keys'))
    (hvalue : value_key ≠ other) (hver : ver_key ≠ other) : keys' other = keys other := by
  rw [setIfNewerLua] at h
  obtain ⟨newv, -, h⟩ := ok_of_bind h
  obtain ⟨curv, -, h⟩ := ok_of_bind h
  split at h
  · obtain ⟨ex, -, h⟩ := ok_of_bind h
    obtain ⟨keys₁, hkeys₁, h⟩ := ok_of_bind h
    obtain ⟨keys₂, hkeys₂, h⟩ := ok_of_bind h
    cases h
    rw [Keys.set_other hkeys₂ hver, Keys.set_other hkeys₁ hvalue]
  · cases h
    rfl

theorem LuaScript.run_other {script : LuaScript} {keys keys' : Keys} {now r : ℤ} {names : List String}
    {argv : List Bytes} {other : String} (h : script.run keys now names argv = .ok (r, keys'))
    (hother : other ∉ names) : keys' other = keys other := by
  rw [LuaScript.run.eq_def] at h
  split at h
  next key token =>
    have hkeys : (releaseLockLua keys now key token).2 = keys' := congrArg Prod.snd (Except.ok.inj h)
    rw [← hkeys, releaseLockLua]
    split
    · exact Function.update_of_ne (fun heq => hother (List.mem_singleton.2 heq)) _ _
    · rfl
  next value_key ver_key payload new_ts ttl =>
    exact setIfNewerLua_other h (fun heq => hother (heq ▸ List.mem_cons_self))
      fun heq => hother (heq ▸ List.mem_cons_of_mem _ List.mem_cons_self)
  next => cases h

theorem Op.Leaves.step {lock_key : String} {o : Op} (ho : o.Leaves lock_key) {c : Choice V} {s s' : State}
    {r : Except AppErr (o.Res V)} (h : o.step c s = some (r, s')) :
    s'.clock = s.clock ∧ s'.keys lock_key = s.keys lock_key := by
  have hsame {α : Type} {r r' : Except AppErr α} {keys : Keys} (hkeys : keys lock_key = s.keys lock_key)
      (h : exchange c s r keys = some (r', s')) : s'.clock = s.clock ∧ s'.keys lock_key = s.keys lock_key :=
    (exchange_key h lock_key).imp_right fun hkey => hkey.elim id fun heq => heq.trans hkeys
  cases o with
  | get key => exact hsame rfl h
  | sleep ms => exact hsame rfl h
  | delete key => exact hsame (Function.update_of_ne (Ne.symm ho) _ _) h
  | set key value ex =>
    simp only [Op.step] at h
    split at h
    next keys hset => exact hsame (Keys.set_other hset ho) h
    next => exact hsame rfl h
  | setNx key token ex =>
    simp only [Op.step] at h
    split at h
    · exact hsame rfl h
    · split at h
      next keys hset => exact hsame (Keys.set_other hset ho) h
      next => exact hsame rfl h
  | eval script names argv =>
    simp only [Op.step] at h
    split at h
    · cases h
      exact ⟨rfl, rfl⟩
    · split at h
      next hrun => exact hsame (LuaScript.run_other hrun ho) h
      next => exact hsame rfl h
  | load =>
    cases c with
    | loaded r =>
      cases h
      exact ⟨rfl, rfl⟩
    | up | down | replyLost => cases h

/-! ## Terms -/

/-- Until when each request holds the lock. -/
abbrev Terms (n : ℕ) := Fin n → Option ℤ

/-- An acquisition that is answered starts the caller's term; its release, or the deletion, ends it. -/
def Terms.note (terms : Terms n) (lock_key : String) (i : Fin n) (s : State) : Op → Choice V → Terms n
  | .setNx key token ex, c =>
    match Op.step (.setNx key token ex) c s with
    | some (.ok true, _) => if key = lock_key then Function.update terms i (some (s.clock + 1000 * ex)) else terms
    | _ => terms
  | .eval _ names _, _ => if lock_key ∈ names then Function.update terms i none else terms
  | .delete key, _ => if key = lock_key then Function.update terms i none else terms
  | _, _ => terms

def Terms.after (terms : Terms n) (lock_key : String) (s : Sys (redis V) n β) : Label (redis V) n → Terms n
  | .env _ => terms
  | .proc i c =>
    match s.procs i with
    | .await o _ => terms.note lock_key i s.state o c
    | _ => terms

/-- A term that has not expired. -/
def Terms.Holds (terms : Terms n) (clock : ℤ) (i : Fin n) : Prop := ∃ t, terms i = some t ∧ clock < t

/-- A lock that is another's stays. -/
def KeepsOthers (lock_key token : String) (s s' : State) : Prop :=
  ∀ v, s.keys.get s.clock lock_key = some v → v ≠ tokenBytes token → s'.keys.get s'.clock lock_key = some v

/-- The command runs, whether or not its reply arrives. -/
def Choice.reaches : Choice V → Bool
  | .down => false
  | _ => true

/-- Deleting the lock outright, when the command reaches Redis, finds nothing or the caller's own token. -/
def DeletesOwn (lock_key token : String) (s : State) (o : Op) (c : Choice V) : Prop :=
  match o with
  | .delete key => c.reaches = true → key = lock_key →
    ∀ v ∈ s.keys.get s.clock lock_key, v = tokenBytes token
  | _ => True

instance (lock_key token : String) (s : State) (o : Op) (c : Choice V) :
    Decidable (DeletesOwn lock_key token s o c) :=
  match o with
  | .delete _ => inferInstanceAs (Decidable (_ → _ → ∀ v ∈ _, _))
  | .get _ | .set _ _ _ | .setNx _ _ _ | .eval _ _ _ | .sleep _ | .load => inferInstanceAs (Decidable True)

/-- A request that holds the lock has its token in Redis until the end of its term. -/
def LockKept (lock_key : String) (tokens : Fin n → String) (terms : Terms n) (s : State) : Prop :=
  ∀ i t, terms i = some t → s.clock < t → s.keys lock_key = some ⟨tokenBytes (tokens i), some t⟩

section
variable {lock_key : String} {tokens : Fin n → String} {terms : Terms n} {s s' : State}

theorem get_live {t : ℤ} {v : Bytes} (hcell : s.keys lock_key = some ⟨v, some t⟩) (ht : s.clock < t) :
    s.keys.get s.clock lock_key = some v := by
  simp [Keys.get, hcell, ht]

theorem get_congr (hclock : s'.clock = s.clock) (hkey : s'.keys lock_key = s.keys lock_key) :
    s'.keys.get s'.clock lock_key = s.keys.get s.clock lock_key := by
  rw [Keys.get, Keys.get, hclock, hkey]

theorem LockKept.congr (h : LockKept lock_key tokens terms s) (hclock : s'.clock = s.clock)
    (hkey : s'.keys lock_key = s.keys lock_key) : LockKept lock_key tokens terms s' := by
  intro i t ht hlt
  rw [hkey]
  exact h i t ht (hclock ▸ hlt)

theorem LockKept.drop (h : LockKept lock_key tokens terms s) (i : Fin n) :
    LockKept lock_key tokens (Function.update terms i none) s := by
  intro j t ht hlt
  by_cases hj : j = i
  · rw [hj, Function.update_self] at ht
    cases ht
  · rw [Function.update_of_ne hj] at ht
    exact h j t ht hlt

theorem LockKept.single (h : LockKept lock_key tokens terms s) (htokens : Function.Injective tokens) {i j : Fin n}
    (hi : terms.Holds s.clock i) (hj : terms.Holds s.clock j) : i = j := by
  obtain ⟨t, hti, hlti⟩ := hi
  obtain ⟨u, htj, hltj⟩ := hj
  have hcell := (h i t hti hlti).symm.trans (h j u htj hltj)
  simp only [Option.some.injEq, Cell.mk.injEq] at hcell
  exact htokens (tokenBytes_injective hcell.1)

theorem LockKept.free (h : LockKept lock_key tokens terms s) (hfree : s.keys.get s.clock lock_key = none) (i : Fin n) :
    ¬ terms.Holds s.clock i := by
  intro hi
  obtain ⟨t, ht, hlt⟩ := hi
  rw [get_live (h i t ht hlt) hlt] at hfree
  cases hfree

theorem keepsOthers_congr {token : String} (hclock : s'.clock = s.clock)
    (hkey : s'.keys lock_key = s.keys lock_key) : KeepsOthers lock_key token s s' := by
  intro v hv _
  rw [get_congr hclock hkey]
  exact hv

/-- The client's answer to an acquisition that finds the lock free. -/
theorem step_acquire {token : String} {c : Choice V} {r : Except AppErr Bool}
    (hfree : s.keys.get s.clock lock_key = none)
    (h : Op.step (.setNx lock_key token REDIS_LOCK_TIMEOUT) c s = some (r, s')) :
    exchange c s (.ok true)
      (Function.update s.keys lock_key
        (some ⟨tokenBytes token, some (s.clock + 1000 * REDIS_LOCK_TIMEOUT)⟩)) = some (r, s') := by
  have hset : s.keys.set s.clock lock_key (Catalog.encode token.toList) REDIS_LOCK_TIMEOUT =
      .ok (Function.update s.keys lock_key
        (some ⟨tokenBytes token, some (s.clock + 1000 * REDIS_LOCK_TIMEOUT)⟩)) := if_pos (by decide)
  simp only [Op.step, hfree, Option.isSome_none, Bool.false_eq_true, if_false, hset] at h
  exact h

theorem LockKept.acquire {i : Fin n} {c : Choice V} {r : Except AppErr Bool}
    (hkept : LockKept lock_key tokens terms s)
    (h : Op.step (.setNx lock_key (tokens i) REDIS_LOCK_TIMEOUT) c s = some (r, s')) :
    LockKept lock_key tokens (terms.note lock_key i s (.setNx lock_key (tokens i) REDIS_LOCK_TIMEOUT) c) s' ∧
      KeepsOthers lock_key (tokens i) s s' := by
  rw [Terms.note, h]
  by_cases hheld : (s.keys.get s.clock lock_key).isSome = true
  · simp only [Op.step, hheld, if_true] at h
    obtain ⟨hclock, hkey⟩ := exchange_key h lock_key
    rw [or_self_iff] at hkey
    have hr : r ≠ .ok true := by
      cases c <;> cases h <;> simp [connectionError]
    refine ⟨?_, keepsOthers_congr hclock hkey⟩
    split
    next heq => cases heq; exact absurd rfl hr
    next => exact hkept.congr hclock hkey
  · have hfree : s.keys.get s.clock lock_key = none := by simpa using hheld
    have hnobody := hkept.free hfree
    have hexpired {terms' : Terms n} (hterms : ∀ j t, terms' j = some t → terms j = some t)
        (hclock : s'.clock = s.clock) : LockKept lock_key tokens terms' s' := by
      intro j t ht hlt
      exact absurd ⟨t, hterms j t ht, hclock ▸ hlt⟩ (hnobody j)
    have hothers : KeepsOthers lock_key (tokens i) s s' := by
      intro v hv
      rw [hfree] at hv
      cases hv
    refine ⟨?_, hothers⟩
    have hanswer := step_acquire hfree h
    cases c with
    | up =>
      cases hanswer
      dsimp only
      rw [if_pos rfl]
      intro j t ht hlt
      by_cases hj : j = i
      · subst hj
        rw [Function.update_self] at ht
        cases ht
        exact Function.update_self _ _ _
      · rw [Function.update_of_ne hj] at ht
        exact absurd ⟨t, ht, hlt⟩ (hnobody j)
    | down =>
      cases hanswer
      exact hexpired (fun _ _ ht => ht) rfl
    | replyLost =>
      cases hanswer
      exact hexpired (fun _ _ ht => ht) rfl
    | loaded _ => cases hanswer

/-- The script deletes the lock while it holds the token. -/
theorem LockKept.release {i : Fin n} {c : Choice V} {r : Except AppErr ℤ} (htokens : Function.Injective tokens)
    (hkept : LockKept lock_key tokens terms s)
    (h : Op.step (.eval .releaseLock [lock_key] [.text (tokens i).toList]) c s = some (r, s')) :
    LockKept lock_key tokens (Function.update terms i none) s' ∧ KeepsOthers lock_key (tokens i) s s' := by
  have hrun : exchange c s (.ok (releaseLockLua s.keys s.clock lock_key (tokenBytes (tokens i))).1)
      (releaseLockLua s.keys s.clock lock_key (tokenBytes (tokens i))).2 = some (r, s') := h
  obtain ⟨hclock, hkey⟩ := exchange_key hrun lock_key
  by_cases hown : s.keys.get s.clock lock_key = some (tokenBytes (tokens i))
  · refine ⟨fun j t ht hlt => ?_, fun v hv hne => ?_⟩
    · by_cases hj : j = i
      · rw [hj, Function.update_self] at ht
        cases ht
      · rw [Function.update_of_ne hj] at ht
        have hcell := hkept j t ht (hclock ▸ hlt)
        have hlive := get_live hcell (hclock ▸ hlt)
        rw [hown, Option.some.injEq] at hlive
        exact absurd (htokens (tokenBytes_injective hlive)).symm hj
    · rw [hown, Option.some.injEq] at hv
      exact absurd hv.symm hne
  · have hsame : s'.keys lock_key = s.keys lock_key := by
      rw [releaseLockLua, if_neg hown, or_self_iff] at hkey
      exact hkey
    exact ⟨(hkept.drop i).congr hclock hsame, keepsOthers_congr hclock hsame⟩

/-- Deleting the lock outright takes nothing from the others as long as it finds nothing of theirs. -/
theorem LockKept.discard {i : Fin n} {c : Choice V} {r : Except AppErr Unit} (htokens : Function.Injective tokens)
    (hkept : LockKept lock_key tokens terms s) (h : Op.step (.delete lock_key) c s = some (r, s')) :
    (KeepsOthers lock_key (tokens i) s s' ↔ DeletesOwn lock_key (tokens i) s (.delete lock_key) c) ∧
      (DeletesOwn lock_key (tokens i) s (.delete lock_key) c →
        LockKept lock_key tokens (Function.update terms i none) s') := by
  have hgone : s'.keys = s.keys.delete lock_key → s'.keys.get s'.clock lock_key = none := by
    intro hkeys
    rw [hkeys, Keys.get, Keys.delete, Function.update_self]
    rfl
  have hdeleted (hclock : s'.clock = s.clock) (hkeys : s'.keys = s.keys.delete lock_key) :
      (KeepsOthers lock_key (tokens i) s s' ↔
          ∀ v ∈ s.keys.get s.clock lock_key, v = tokenBytes (tokens i)) ∧
        ((∀ v ∈ s.keys.get s.clock lock_key, v = tokenBytes (tokens i)) →
          LockKept lock_key tokens (Function.update terms i none) s') := by
    refine ⟨⟨fun hkeeps v hv => ?_, fun hown v hv hne => absurd (hown v hv) hne⟩, fun hown j t ht hlt => ?_⟩
    · by_contra hne
      have hkept := hkeeps v hv hne
      rw [hgone hkeys] at hkept
      cases hkept
    · by_cases hj : j = i
      · rw [hj, Function.update_self] at ht
        cases ht
      · rw [Function.update_of_ne hj] at ht
        have hlive := get_live (hkept j t ht (hclock ▸ hlt)) (hclock ▸ hlt)
        exact absurd (htokens (tokenBytes_injective (hown _ hlive))) hj
  cases c with
  | up =>
    cases h
    simpa [DeletesOwn, Choice.reaches] using hdeleted rfl rfl
  | down =>
    cases h
    have hmissed : DeletesOwn lock_key (tokens i) s (.delete lock_key) (.down : Choice V) :=
      fun h => by cases h
    exact ⟨⟨fun _ => hmissed, fun _ => keepsOthers_congr rfl rfl⟩, fun _ => hkept.drop i⟩
  | replyLost =>
    cases h
    simpa [DeletesOwn, Choice.reaches] using hdeleted rfl rfl
  | loaded _ => cases h

theorem Op.Leaves.note {o : Op} (ho : o.Leaves lock_key) {i : Fin n} {c : Choice V} :
    terms.note lock_key i s o c = terms := by
  cases o with
  | get key => rfl
  | set key value ex => rfl
  | sleep ms => rfl
  | load => rfl
  | delete key => exact if_neg ho
  | eval script names argv => exact if_neg ho
  | setNx key token ex =>
    simp only [Terms.note, if_neg (show ¬ key = lock_key from ho)]
    split <;> rfl

theorem Op.Leaves.deletesOwn {o : Op} (ho : o.Leaves lock_key) {token : String} {c : Choice V} :
    DeletesOwn lock_key token s o c := by
  cases o with
  | delete key => exact fun _ heq => absurd heq ho
  | _ => exact trivial

/-- One step of a request: it takes another's lock exactly when its deletion finds one, and otherwise the
running terms stay in Redis. -/
theorem LockOp.step {i : Fin n} {o : Op} (ho : LockOp lock_key (tokens i) o) (htokens : Function.Injective tokens)
    {c : Choice V} {r : Except AppErr (o.Res V)} (hkept : LockKept lock_key tokens terms s)
    (h : o.step c s = some (r, s')) :
    (KeepsOthers lock_key (tokens i) s s' ↔ DeletesOwn lock_key (tokens i) s o c) ∧
      (DeletesOwn lock_key (tokens i) s o c → LockKept lock_key tokens (terms.note lock_key i s o c) s') := by
  cases ho with
  | acquire =>
    obtain ⟨hnext, hothers⟩ := hkept.acquire h
    exact ⟨⟨fun _ => trivial, fun _ => hothers⟩, fun _ => hnext⟩
  | release =>
    obtain ⟨hnext, hothers⟩ := hkept.release htokens h
    have hnote : terms.note lock_key i s (.eval .releaseLock [lock_key] [.text (tokens i).toList]) c =
        Function.update terms i none := if_pos List.mem_cons_self
    exact ⟨⟨fun _ => trivial, fun _ => hothers⟩, fun _ => hnote ▸ hnext⟩
  | discard =>
    obtain ⟨hiff, hnext⟩ := hkept.discard htokens h (i := i)
    have hnote : terms.note lock_key i s (.delete lock_key) c = Function.update terms i none := if_pos rfl
    exact ⟨hiff, fun hown => hnote ▸ hnext hown⟩
  | leave hleave =>
    obtain ⟨hclock, hkey⟩ := hleave.step h
    refine ⟨⟨fun _ => hleave.deletesOwn, fun _ => keepsOthers_congr hclock hkey⟩, fun _ => ?_⟩
    rw [hleave.note]
    exact hkept.congr hclock hkey

end

/-! ## Runs -/

/-- Steps are taken as `G` allows, and the terms are kept along. -/
inductive LockRun (lock_key : String) (G : Sys (redis V) n β → Label (redis V) n → Prop) (s₀ : Sys (redis V) n β) :
    Terms n → Sys (redis V) n β → Prop
  | start : LockRun lock_key G s₀ (fun _ => none) s₀
  | step {terms : Terms n} {s s' : Sys (redis V) n β} {l : Label (redis V) n} :
      LockRun lock_key G s₀ terms s → G s l → s.step l = some s' →
      LockRun lock_key G s₀ (terms.after lock_key s l) s'

/-- When the fallback of a release reaches Redis, the lock is free or holds the caller's token. -/
def FallbackOwn (lock_key : String) (tokens : Fin n → String) (s : Sys (redis V) n β) : Label (redis V) n → Prop
  | .env _ => True
  | .proc i c =>
    match s.procs i with
    | .await o _ => DeletesOwn lock_key (tokens i) s.state o c
    | _ => True

instance (lock_key : String) (tokens : Fin n → String) (s : Sys (redis V) n β) (l : Label (redis V) n) :
    Decidable (FallbackOwn lock_key tokens s l) :=
  match l with
  | .env _ => inferInstanceAs (Decidable True)
  | .proc i c =>
    match h : s.procs i with
    | .await o _ => decidable_of_iff (DeletesOwn lock_key (tokens i) s.state o c) (by rw [FallbackOwn, h])
    | .ret _ => .isTrue (by rw [FallbackOwn, h]; trivial)
    | .raise _ => .isTrue (by rw [FallbackOwn, h]; trivial)

/-- Requests that miss at any moment, each with its token, its block and its way without the lock. -/
def lockRequests (lock_key : String) (tokens : Fin n → String) (block other : Fin n → Py V β) (state : State) :
    Sys (redis V) n β where
  state
  procs i := locking lock_key (tokens i) (block i) (other i)

section
variable {lock_key : String} {tokens : Fin n → String} {s₀ s : Sys (redis V) n β} {terms : Terms n}

theorem LockRun.only {G : Sys (redis V) n β → Label (redis V) n → Prop} (h : LockRun lock_key G s₀ terms s)
    (hstart : ∀ i, (s₀.procs i).Only (LockOp lock_key (tokens i))) :
    ∀ i, (s.procs i).Only (LockOp lock_key (tokens i)) := by
  induction h with
  | start => exact hstart
  | step _ _ hstep ih => exact Sys.step_only ih hstep

theorem LockRun.kept (h : LockRun lock_key (FallbackOwn lock_key tokens) s₀ terms s)
    (htokens : Function.Injective tokens) (hstart : ∀ i, (s₀.procs i).Only (LockOp lock_key (tokens i))) :
    LockKept lock_key tokens terms s.state := by
  induction h with
  | start =>
    intro i t ht
    cases ht
  | @step terms s s' l hrun hown hstep ih =>
    cases l with
    | env d =>
      cases hstep
      -- time passes
      intro i t ht hlt
      have hnow : s.state.clock < t := lt_of_le_of_lt (Int.le_add_of_nonneg_right (Int.natCast_nonneg d)) hlt
      exact ih i t ht hnow
    | proc i c =>
      obtain ⟨o, k, r, hprog, hres⟩ := Sys.step_proc hstep
      have honly := hrun.only hstart i
      rw [hprog] at honly
      have hown' : DeletesOwn lock_key (tokens i) s.state o c := by
        simpa only [FallbackOwn, hprog] using hown
      have hafter : terms.after lock_key s (.proc i c) = terms.note lock_key i s.state o c := by
        rw [Terms.after, hprog]
      rw [hafter]
      exact (honly.1.step htokens ih hres).2 hown'

theorem LockRun.owners (h : LockRun lock_key (FallbackOwn lock_key tokens) s₀ terms s)
    (htokens : Function.Injective tokens) (hstart : ∀ i, (s₀.procs i).Only (LockOp lock_key (tokens i))) :
    (∀ i c s', s.step (.proc i c) = some s' →
        (KeepsOthers lock_key (tokens i) s.state s'.state ↔ FallbackOwn lock_key tokens s (.proc i c))) ∧
      ∀ i j, terms.Holds s.state.clock i → terms.Holds s.state.clock j → i = j := by
  have hkept := h.kept htokens hstart
  refine ⟨fun i c s' hstep => ?_, fun i j => hkept.single htokens⟩
  obtain ⟨o, k, r, hprog, hres⟩ := Sys.step_proc hstep
  have honly := h.only hstart i
  rw [hprog] at honly
  have hown : FallbackOwn lock_key tokens s (.proc i c) ↔ DeletesOwn lock_key (tokens i) s.state o c := by
    rw [FallbackOwn, hprog]
  rw [hown]
  exact (honly.1.step htokens hkept hres).1

/-- Takes the listed steps, with the terms, as long as `G` allows. -/
def lockExec (lock_key : String) (G : Sys (redis V) n β → Label (redis V) n → Prop) [∀ s l, Decidable (G s l)]
    (terms : Terms n) (s : Sys (redis V) n β) : List (Label (redis V) n) → Option (Terms n × Sys (redis V) n β)
  | [] => some (terms, s)
  | l :: ls => if G s l then (s.step l).bind fun s' => lockExec lock_key G (terms.after lock_key s l) s' ls
    else none

theorem LockRun.exec {G : Sys (redis V) n β → Label (redis V) n → Prop} [∀ s l, Decidable (G s l)]
    {terms' : Terms n} {s' : Sys (redis V) n β} {ls : List (Label (redis V) n)}
    (h : LockRun lock_key G s₀ terms s) (hls : lockExec lock_key G terms s ls = some (terms', s')) :
    LockRun lock_key G s₀ terms' s' := by
  induction ls generalizing terms s with
  | nil =>
    cases hls
    exact h
  | cons l ls ih =>
    rw [lockExec] at hls
    split at hls
    next hG =>
      obtain ⟨s₁, hstep, hls⟩ := Option.bind_eq_some_iff.1 hls
      exact ih (h.step hG hstep) hls
    next => cases hls

end

/-- In a run whose fallbacks meet no other's lock, a step takes another's lock exactly when it is a fallback
that does, and no two requests hold the lock. -/
theorem lock_released_by_owner {lock_key : String} {tokens : Fin n → String} (htokens : Function.Injective tokens)
    (block other : Fin n → Py V β) (hblock : ∀ i, (block i).Only (Op.Leaves lock_key))
    (hother : ∀ i, (other i).Only (Op.Leaves lock_key)) (state : State) {terms : Terms n}
    {s : Sys (redis V) n β} (h : LockRun lock_key (FallbackOwn lock_key tokens)
      (lockRequests lock_key tokens block other state) terms s) :
    (∀ i c s', s.step (.proc i c) = some s' →
        (KeepsOthers lock_key (tokens i) s.state s'.state ↔ FallbackOwn lock_key tokens s (.proc i c))) ∧
      ∀ i j, terms.Holds s.state.clock i → terms.Holds s.state.clock j → i = j :=
  h.owners htokens fun i => locking_only (hblock i) (hother i)

def threeTokens : Fin 3 → String := fun i => ["a0", "b1", "c2"].get i

def threeRequests : Sys (redis Unit) 3 Unit :=
  lockRequests "page:lock" threeTokens (fun _ => pure ()) (fun _ => pure ()) ⟨0, fun _ => none⟩

/-- The first request's script does not reach Redis, and its fallback deletes its own lock. -/
theorem lock_released_by_owner_three : ∃ (terms : Terms 3) (s : Sys (redis Unit) 3 Unit),
    terms 1 = some 5000 ∧
      (∀ i c s', s.step (.proc i c) = some s' →
        (KeepsOthers "page:lock" (threeTokens i) s.state s'.state ↔
          FallbackOwn "page:lock" threeTokens s (.proc i c))) ∧
      ∀ i j, terms.Holds s.state.clock i → terms.Holds s.state.clock j → i = j := by
  have hplay : (lockExec "page:lock" (FallbackOwn "page:lock" threeTokens) (fun _ => none) threeRequests
      [.proc 0 .up, .proc 0 .down, .proc 0 .up, .proc 1 .up]).map (fun x => x.1 1) = some (some 5000) := by
    decide +kernel
  obtain ⟨⟨terms, s⟩, hs, hterm⟩ := Option.map_eq_some_iff.1 hplay
  exact ⟨terms, s, hterm, lock_released_by_owner (by decide) (fun _ => pure ()) (fun _ => pure ())
    (fun _ => trivial) (fun _ => trivial) _     (LockRun.start.exec hs)⟩

/-- The first request's lock has expired and the second has it when the first's script fails to reach Redis:
the fallback deletes the second's lock, and the third takes it. -/
theorem lock_taken_by_fallback : ¬ ∀ (n : ℕ) (lock_key : String) (tokens : Fin n → String),
    Function.Injective tokens → ∀ (state : State) (terms : Terms n) (s : Sys (redis Unit) n Unit),
      LockRun lock_key (fun _ _ => True)
        (lockRequests lock_key tokens (fun _ => pure ()) (fun _ => pure ()) state) terms s →
      (∀ i c s', s.step (.proc i c) = some s' → KeepsOthers lock_key (tokens i) s.state s'.state) ∧
        ∀ i j, terms.Holds s.state.clock i → terms.Holds s.state.clock j → i = j := by
  intro h
  have hplay : (lockExec "page:lock" (fun _ _ => True) (fun _ => none) threeRequests
      [.proc 0 .up, .env 5000, .proc 1 .up, .proc 0 .down, .proc 0 .up, .proc 2 .up]).map
        (fun x => (x.1 1, x.1 2, x.2.state.clock)) = some (some 10000, some 10000, 5000) := by
    decide +kernel
  obtain ⟨⟨terms, s⟩, hs, hterms⟩ := Option.map_eq_some_iff.1 hplay
  simp only [Prod.mk.injEq] at hterms
  obtain ⟨h₁, h₂, hclock⟩ := hterms
  have hsingle := (h 3 "page:lock" threeTokens (by decide) _ terms s (LockRun.start.exec hs)).2
  have hsame : (1 : Fin 3) = 2 :=
    hsingle 1 2 ⟨10000, h₁, by rw [hclock]; decide⟩ ⟨10000, h₂, by rw [hclock]; decide⟩
  exact absurd hsame (by decide)

/-! ## The caches' own requests -/

theorem ne_append {key suffix : String} (h : suffix ≠ "") : key ++ suffix ≠ key := by
  intro heq
  have hlen := congrArg String.length heq
  rw [String.length_append] at hlen
  exact h (String.length_eq_zero_iff.1 (by omega))

section
variable {codec : Codec} {key : String} {ttl : ℤ}

theorem key_ne_lockKey : key ≠ lockKey key := Ne.symm (ne_append (by decide))

theorem await_leaves {lock_key : String} (o : Op) (h : o.Leaves lock_key) :
    (await o : Py V (o.Res V)).Only (Op.Leaves lock_key) := Prog.only_call h

theorem loadAndStore_leaves : (loadAndStore codec key ttl).Only (Op.Leaves (lockKey key)) :=
  (await_leaves .load trivial).bind fun value =>
    (await_leaves (.set key (codec.serialize (build_success value)) ttl) key_ne_lockKey).attempt.bind
      fun _ => Prog.only_pure _

theorem hitOr_leaves {miss : Py JsonText.Value Bytes} (h : miss.Only (Op.Leaves (lockKey key)))
    (raw : Option Bytes) : (hitOr key raw miss).Only (Op.Leaves (lockKey key)) := by
  cases raw with
  | none => exact h
  | some raw => exact Prog.only_pure raw

theorem underLock_leaves : (underLock codec key ttl).Only (Op.Leaves (lockKey key)) :=
  (await_leaves (.get key) trivial).bind
    fun raw => hitOr_leaves loadAndStore_leaves raw

theorem staleWait_leaves : (staleWait codec key ttl).Only (Op.Leaves (lockKey key)) :=
  (await_leaves (.sleep 150) trivial).bind fun _ => underLock_leaves

theorem pollFor_leaves (rounds : ℕ) : (pollFor codec key ttl rounds).Only (Op.Leaves (lockKey key)) := by
  induction rounds with
  | zero => exact loadAndStore_leaves
  | succ rounds ih =>
    refine (await_leaves (.sleep 50) trivial).bind fun _ => ?_
    refine (await_leaves (.get key) trivial).bind fun raw => ?_
    cases raw with
    | none => exact ih
    | some raw => exact Prog.only_pure raw

theorem listing_lock_owners {tokens : Fin n → String} (htokens : Function.Injective tokens) (mode : String)
    {s₀ s : Sys (redis JsonText.Value) n Bytes} {terms : Terms n}
    (hstart : ∀ i, s₀.procs i = onMiss codec key (tokens i) ttl mode)
    (h : LockRun (lockKey key) (FallbackOwn (lockKey key) tokens) s₀ terms s) :
    (∀ i c s', s.step (.proc i c) = some s' →
        (KeepsOthers (lockKey key) (tokens i) s.state s'.state ↔ FallbackOwn (lockKey key) tokens s (.proc i c))) ∧
      ∀ i j, terms.Holds s.state.clock i → terms.Holds s.state.clock j → i = j := by
  refine h.owners htokens fun i => ?_
  rw [hstart i, onMiss_eq_locking]
  refine locking_only underLock_leaves ?_
  split
  · exact pollFor_leaves pollRounds
  · exact staleWait_leaves

end

end Phyllonix.Cache
