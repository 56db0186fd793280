import Mathlib.Data.Int.Notation
import Mathlib.Data.Int.Order.Basic
import Mathlib.Data.String.Defs
import Phyllonix.ProcessNumbers

/-!
# A Redis server with Lua scripts

Keys hold an integer or a sorted set and may expire. A script runs atomically: it reads
the server's clock once, its writes are seen by nobody before it ends, and the writes it
made before an error stay.
-/

namespace Redis

inductive Data
  | integer (n : ℤ)
  /-- members with their scores, the lowest score first -/
  | sortedSet (members : List (String × ℤ))

structure Entry where
  data : Data
  /-- in milliseconds -/
  expireAt : Option ℤ := none

abbrev Keyspace := String → Option Entry

def Keyspace.live (keys : Keyspace) (now : ℤ) (key : String) : Option Entry :=
  (keys key).filter fun e => e.expireAt.all fun t => now < t

/-- A value of the script's language. -/
inductive Value
  | nil
  | integer (n : ℤ)
  | text (s : String)
  | table (l : List Value)

inductive ScriptError
  | globalVariable (name : String)
  | badArgument
  | arithmetic
  | wrongType
  | unknownCommand

/-- Scripts read the clock, and may fail after having written. -/
abbrev Script := ReaderT ℤ (ExceptT ScriptError (StateM Keyspace))

namespace Script

def index (l : List Value) (i : ℕ) : Value := (l[i - 1]?).getD .nil

/-- `tonumber`; arguments are numbers or texts that are not numerals. -/
def toNumber : Value → Value
  | .integer n => .integer n
  | _ => .nil

/-- A value used in arithmetic or in a comparison of numbers. -/
def number : Value → Script ℤ
  | .integer n => pure n
  | _ => throw .arithmetic

/-- Assigning a variable that is not local. -/
def setGlobal (name : String) (_ : Value) : Script Unit := throw (.globalVariable name)

/-- A variable that was never assigned. -/
def getGlobal (_ : String) : Script Value := pure .nil

def liveEntry (key : String) : Script (Option Entry) := do
  let now ← read
  let keys ← get
  pure (keys.live now key)

def put (key : String) (e : Option Entry) : Script Unit :=
  modify fun keys k => if k = key then e else keys k

def incr (key : String) : Script Value := do
  match ← liveEntry key with
  | none =>
    put key (some { data := .integer 1 })
    pure (.integer 1)
  | some ⟨.integer n, expireAt⟩ =>
    put key (some ⟨.integer (n + 1), expireAt⟩)
    pure (.integer (n + 1))
  | some ⟨.sortedSet _, _⟩ => throw .wrongType

def pexpire (key : String) (ms : ℤ) : Script Value := do
  match ← liveEntry key with
  | none => pure (.integer 0)
  | some e =>
    let now ← read
    if ms ≤ 0 then put key none else put key (some { e with expireAt := some (now + ms) })
    pure (.integer 1)

def pttl (key : String) : Script Value := do
  match ← liveEntry key with
  | none => pure (.integer (-2))
  | some e =>
    match e.expireAt with
    | none => pure (.integer (-1))
    | some t => pure (.integer (t - (← read)))

/-- The members of a sorted set, with the expiry of its key. -/
def members (key : String) : Script (List (String × ℤ) × Option ℤ) := do
  match ← liveEntry key with
  | none => pure ([], none)
  | some ⟨.sortedSet l, expireAt⟩ => pure (l, expireAt)
  | some ⟨.integer _, _⟩ => throw .wrongType

/-- An empty sorted set has no key. -/
def putMembers (key : String) (l : List (String × ℤ)) (expireAt : Option ℤ) : Script Unit :=
  put key (if l.isEmpty then none else some ⟨.sortedSet l, expireAt⟩)

def zremrangebyscore (key : String) (lo hi : ℤ) : Script Value := do
  let (l, expireAt) ← members key
  let kept := l.filter fun m => ¬(lo ≤ m.2 ∧ m.2 ≤ hi)
  putMembers key kept expireAt
  pure (.integer (l.length - kept.length))

def zcard (key : String) : Script Value := do
  let (l, _) ← members key
  pure (.integer l.length)

def zadd (key : String) (score : ℤ) (member : String) : Script Value := do
  let (l, expireAt) ← members key
  let others := l.filter fun m => m.1 ≠ member
  let before := fun m : String × ℤ => m.2 < score ∨ m.2 = score ∧ m.1 < member
  putMembers key (others.takeWhile (before ·) ++ (member, score) :: others.dropWhile (before ·)) expireAt
  pure (.integer (if others.length = l.length then 1 else 0))

/-- The member with the lowest score, and the score. -/
def zrangeFirst (key : String) : Script Value := do
  let (l, _) ← members key
  match l with
  | [] => pure (.table [])
  | (member, score) :: _ => pure (.table [.text member, .integer score])

def isArgument : Value → Bool
  | .integer _ | .text _ => true
  | .nil | .table _ => false

/-- `redis.call` -/
def call (command : String) (args : List Value) : Script Value :=
  if args.all isArgument then
    match command, args with
    | "INCR", [.text key] => incr key
    | "PEXPIRE", [.text key, .integer ms] => pexpire key ms
    | "PTTL", [.text key] => pttl key
    | "ZREMRANGEBYSCORE", [.text key, .integer lo, .integer hi] => zremrangebyscore key lo hi
    | "ZCARD", [.text key] => zcard key
    | "ZADD", [.text key, .integer score, .text member] => zadd key score member
    | "ZRANGE", [.text key, .integer 0, .integer 0, .text "WITHSCORES"] => zrangeFirst key
    | _, _ => throw .unknownCommand
  else throw .badArgument

end Script

/-- The keys, and the scripts whose digests the server knows. -/
structure Server (S : Type) where
  keys : Keyspace
  scripts : S → Bool

end Redis
