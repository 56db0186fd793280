import Phyllonix.AsyncPrograms
import Phyllonix.ProductCursor

/-!
# The Redis cache

Keys hold bytes and may expire. A command that fails on the way may or may not have run.
Scripts run atomically; their arguments are encoded by the client, which refuses values
that are not bytes, texts or numbers.
-/

namespace Phyllonix.Cache

abbrev Bytes := List UInt8

structure Cell where
  value : Bytes
  /-- in milliseconds -/
  expireAt : Option ℤ

abbrev Keys := String → Option Cell

def Keys.get (keys : Keys) (now : ℤ) (key : String) : Option Bytes :=
  ((keys key).filter fun cell => cell.expireAt.all fun t => now < t).map Cell.value

def Keys.delete (keys : Keys) (key : String) : Keys := Function.update keys key none

/-- `SET key value EX ex`; the time to live is in seconds. -/
def Keys.set (keys : Keys) (now : ℤ) (key : String) (value : Bytes) (ex : ℤ) : Except AppErr Keys :=
  if 0 < ex then .ok (Function.update keys key (some ⟨value, some (now + 1000 * ex)⟩))
  else .error (.other "invalid expire time in 'set' command")

theorem Keys.set_other {keys keys' : Keys} {now ex : ℤ} {key other : String} {value : Bytes}
    (h : keys.set now key value ex = .ok keys') (hne : key ≠ other) : keys' other = keys other := by
  rw [Keys.set] at h
  split at h
  · cases h
    exact Function.update_of_ne (Ne.symm hne) _ _
  · cases h

/-- A script argument as Python passes it. -/
inductive Arg
  | bytes (b : Bytes)
  | text (s : List Char)
  | int (n : ℤ)
  /-- a dictionary, a list, `None`, ... -/
  | other

/-- The client's encoder. -/
def Arg.encoded : Arg → Except AppErr Bytes
  | .bytes b => .ok b
  | .text s => .ok (Catalog.encode s)
  | .int n => .ok (Catalog.encode (Numeral.decimal n))
  | .other => .error .dataError

inductive LuaScript
  | releaseLock
  | setIfNewer

/-- `tonumber` of a decimal text -/
def tonumber (b : Bytes) : Except AppErr ℤ :=
  match (Catalog.decode b).bind Numeral.integer? with
  | some n => .ok n
  | none => .error (.other "attempt to compare nil with number")

/-- `_RELEASE_LOCK_LUA` -/
def releaseLockLua (keys : Keys) (now : ℤ) (key : String) (token : Bytes) : ℤ × Keys :=
  if keys.get now key = some token then (1, keys.delete key) else (0, keys)

/-- `_SET_IF_NEWER_LUA` -/
def setIfNewerLua (keys : Keys) (now : ℤ) (value_key ver_key : String) (payload new_ts ttl : Bytes) :
    Except AppErr (ℤ × Keys) := do
  let cur := (keys.get now ver_key).getD (Catalog.encode ['0'])
  let newv ← tonumber new_ts
  let curv ← tonumber cur
  if curv ≤ newv then
    let ex ← tonumber ttl
    let keys ← keys.set now value_key payload ex
    let keys ← keys.set now ver_key new_ts ex
    .ok (1, keys)
  else .ok (0, keys)

def LuaScript.run (script : LuaScript) (keys : Keys) (now : ℤ) (names : List String)
    (argv : List Bytes) : Except AppErr (ℤ × Keys) :=
  match script, names, argv with
  | .releaseLock, [key], [token] => .ok (releaseLockLua keys now key token)
  | .setIfNewer, [value_key, ver_key], [payload, new_ts, ttl] =>
    setIfNewerLua keys now value_key ver_key payload new_ts ttl
  | _, _, _ => .error (.other "wrong number of arguments")

/-! ## The machine -/

structure State where
  clock : ℤ
  keys : Keys

/-- What is awaited; a loader returns a `V`. -/
inductive Op
  | get (key : String)
  | set (key : String) (value : Bytes) (ex : ℤ)
  | setNx (key token : String) (ex : ℤ)
  | delete (key : String)
  | eval (script : LuaScript) (names : List String) (argv : List Arg)
  | sleep (ms : ℕ)
  | load

@[reducible] def Op.Res (V : Type) : Op → Type
  | .get _ => Option Bytes
  | .set _ _ _ => Unit
  | .setNx _ _ _ => Bool
  | .delete _ => Unit
  | .eval _ _ _ => ℤ
  | .sleep _ => Unit
  | .load => V

inductive Choice (V : Type)
  | up
  /-- the command never reached the server -/
  | down
  /-- the command ran, and the connection broke before the reply -/
  | replyLost
  | loaded (r : Except AppErr V)

def connectionError : AppErr := .other "Error while reading from socket"

/-- A command that runs with a reply and a new keyspace. -/
def exchange {V β : Type} (c : Choice V) (s : State) (r : Except AppErr β) (keys : Keys) :
    Option (Except AppErr β × State) :=
  match c with
  | .up => some (r, { s with keys })
  | .down => some (.error connectionError, s)
  | .replyLost => some (.error connectionError, { s with keys })
  | .loaded _ => none

def Op.step {V : Type} : (o : Op) → Choice V → State → Option (Except AppErr (o.Res V) × State)
  | .get key, c, s => exchange c s (.ok (s.keys.get s.clock key)) s.keys
  | .set key value ex, c, s =>
    match s.keys.set s.clock key value ex with
    | .ok keys => exchange c s (.ok ()) keys
    | .error e => exchange c s (.error e) s.keys
  | .setNx key token ex, c, s =>
    if (s.keys.get s.clock key).isSome then exchange c s (.ok false) s.keys
    else match s.keys.set s.clock key (Catalog.encode token.toList) ex with
      | .ok keys => exchange c s (.ok true) keys
      | .error e => exchange c s (.error e) s.keys
  | .delete key, c, s => exchange c s (.ok ()) (s.keys.delete key)
  | .eval script names argv, c, s =>
    match argv.mapM Arg.encoded with
    | .error e => some (.error e, s)
    | .ok argv =>
      match script.run s.keys s.clock names argv with
      | .ok (r, keys) => exchange c s (.ok r) keys
      | .error e => exchange c s (.error e) s.keys
  | .sleep _, c, s => exchange c s (.ok ()) s.keys
  | .load, .loaded r, s => some (r, s)
  | .load, _, _ => none

/-- Redis, the clock and the loaders; time passes in milliseconds. -/
@[reducible] def redis (V : Type) : Async.Machine where
  State := State
  Op := Op
  Res := Op.Res V
  Err := AppErr
  Choice := Choice V
  step := Op.step
  Env := ℕ
  env d s := { s with clock := s.clock + d }

variable {V : Type}

abbrev Py (V : Type) := Async.Prog (redis V)

def await (o : Op) : Py V (o.Res V) := Async.Prog.call (M := redis V) o

def get (key : String) : Py V (Option Bytes) := await (.get key)

def set (key : String) (value : Bytes) (ex : ℤ) : Py V Unit := await (.set key value ex)

def setNx (key token : String) (ex : ℤ) : Py V Bool := await (.setNx key token ex)

def delete (key : String) : Py V Unit := await (.delete key)

def eval (script : LuaScript) (names : List String) (argv : List Arg) : Py V ℤ :=
  await (.eval script names argv)

def sleep (ms : ℕ) : Py V Unit := await (.sleep ms)

def load : Py V V := await .load

def release_lock (lock_key token : String) : Py V Unit := do
  match ← (eval .releaseLock [lock_key] [.text token.toList] : Py V ℤ).attempt with
  | .ok _ => pure ()
  | .error _ =>
    -- best effort: a failure is swallowed
    let _ ← (delete lock_key : Py V Unit).attempt
    pure ()

def REDIS_LOCK_TIMEOUT : ℤ := 5

def deserialize (b : Bytes) : Except AppErr Bytes := .ok b

/-! ## Commands and programs end -/

/-- Every command can be answered. -/
theorem Op.exists_answer (v : V) (o : Op) (s : State) :
    ∃ c : Choice V, (c = .up ∨ c = .loaded (.ok v)) ∧ (o.step c s).isSome = true := by
  cases o with
  | load => exact ⟨.loaded (.ok v), .inr rfl, rfl⟩
  | get k => exact ⟨.up, .inl rfl, rfl⟩
  | delete k => exact ⟨.up, .inl rfl, rfl⟩
  | sleep ms => exact ⟨.up, .inl rfl, rfl⟩
  | set k value ex =>
    refine ⟨.up, .inl rfl, ?_⟩
    simp only [Op.step]
    split <;> rfl
  | setNx k token ex =>
    refine ⟨.up, .inl rfl, ?_⟩
    simp only [Op.step]
    split
    · rfl
    · split <;> rfl
  | eval script names argv =>
    refine ⟨.up, .inl rfl, ?_⟩
    simp only [Op.step]
    split
    · rfl
    · split <;> rfl

/-- A request that has not ended can go on. -/
theorem exists_step {n : ℕ} {α : Type} (v : V) {s : Async.Sys (redis V) n α} {i : Fin n}
    (h : s.outcome i = none) :
    ∃ c : Choice V, (c = .up ∨ c = .loaded (.ok v)) ∧ (s.step (.proc i c)).isSome = true := by
  rw [Async.Sys.outcome] at h
  split at h
  · cases h
  · cases h
  next o k hprog =>
    obtain ⟨c, hc, hstep⟩ := o.exists_answer v s.state
    refine ⟨c, hc, ?_⟩
    rw [Async.Sys.step, hprog]
    exact Option.isSome_map.trans hstep

theorem release_lock_within (lock_key token : String) :
    (release_lock lock_key token : Py V Unit).Within (1 + 1) := by
  refine (Async.Prog.within_call _).attempt.bind fun r => ?_
  cases r with
  | ok z => exact Async.Prog.within_pure () 1
  | error e => exact (Async.Prog.within_call _).attempt.bind fun _ => Async.Prog.within_pure () 0

end Phyllonix.Cache
