import Phyllonix.RelationalProgram

/-!
# Values of the Python side

JSON documents as `json.loads` returns them, UUID objects, and what the handlers
raise. `json.dumps` refuses a UUID object; `str` writes it in hexadecimal digits.
-/

namespace Phyllonix

inductive Json where
  | null
  | bool (b : Bool)
  | num (q : Rat)
  | str (s : String)
  | arr (l : List Json)
  | obj (l : List (String × Json))

/-- Values are UUIDs of 128 bits. -/
abbrev UUID := ℕ

/-- A value of a response dictionary before it is serialised. -/
inductive PyVal where
  | uuid (u : UUID)
  | json (j : Json)

inductive AppErr where
  | http (status : ℕ) (detail : Json)
  | transient (msg : String)
  | httpStatus (code : Option ℕ) (text : String)
  | typeError (msg : String)
  | attributeError
  | indexError
  | multipleResultsFound
  | dataError
  | runtimeError (msg : String)
  | queueFull
  | other (msg : String)

def AppErr.text : AppErr → String
  | .http _ (.str s) => s
  | .http _ _ => ""
  | .transient m => m
  | .httpStatus _ t => t
  | .typeError m => m
  | .attributeError => "attribute error"
  | .indexError => "list index out of range"
  | .multipleResultsFound => "Multiple rows were found when one or none was required"
  | .dataError => "invalid input for query argument"
  | .runtimeError m => m
  | .queueFull => ""
  | .other m => m

def exnText : Relational.Exn AppErr → String
  | .fault => "database error"
  | .inFailedTransaction => "current transaction is aborted"
  | .integrity => "duplicate key value violates unique constraint"
  | .app e => e.text

mutual
/-- Equality of documents as a test. -/
def Json.same : Json → Json → Bool
  | .null, .null => true
  | .bool a, .bool b => a = b
  | .num p, .num q => p = q
  | .str s, .str t => s = t
  | .arr l, .arr m => Json.sameList l m
  | .obj l, .obj m => Json.sameFields l m
  | _, _ => false

def Json.sameList : List Json → List Json → Bool
  | [], [] => true
  | a :: l, b :: m => a.same b && Json.sameList l m
  | _, _ => false

def Json.sameFields : List (String × Json) → List (String × Json) → Bool
  | [], [] => true
  | (k, a) :: l, (k', b) :: m => k = k' && a.same b && Json.sameFields l m
  | _, _ => false
end

mutual
theorem Json.eq_of_same : ∀ {a b : Json}, a.same b = true → a = b
  | .null, .null, _ => rfl
  | .bool _, .bool _, h => congrArg _ (of_decide_eq_true h)
  | .num _, .num _, h => congrArg _ (of_decide_eq_true h)
  | .str _, .str _, h => congrArg _ (of_decide_eq_true h)
  | .arr _, .arr _, h => congrArg _ (Json.eq_of_sameList h)
  | .obj _, .obj _, h => congrArg _ (Json.eq_of_sameFields h)

theorem Json.eq_of_sameList : ∀ {l m : List Json}, Json.sameList l m = true → l = m
  | [], [], _ => rfl
  | a :: l, b :: m, h => by
    rw [Json.sameList, Bool.and_eq_true] at h
    rw [Json.eq_of_same h.1, Json.eq_of_sameList h.2]

theorem Json.eq_of_sameFields : ∀ {l m : List (String × Json)}, Json.sameFields l m = true → l = m
  | [], [], _ => rfl
  | (k, a) :: l, (k', b) :: m, h => by
    simp only [Json.sameFields, Bool.and_eq_true, decide_eq_true_eq] at h
    rw [h.1.1, Json.eq_of_same h.1.2, Json.eq_of_sameFields h.2]
end

namespace Json

/-- Python truth of a value. -/
def truthy : Json → Bool
  | null => false
  | bool b => b
  | num q => q ≠ 0
  | str s => s ≠ ""
  | arr l => !l.isEmpty
  | obj l => !l.isEmpty

/-- `d.get(key, default)` on a dictionary; other values have no `get`. -/
def get (j : Json) (key : String) (dflt : Json) : Except AppErr Json :=
  match j with
  | obj l => .ok ((l.lookup key).getD dflt)
  | _ => .error .attributeError

/-- `a or b` -/
def orElse (a b : Json) : Json := if a.truthy then a else b

def isStr (s : String) : Json → Bool
  | str t => t = s
  | _ => false

end Json

/-- A value bound to a nullable text column; a value of another type is refused. -/
def bindText : Json → Except AppErr (Option String)
  | .null => .ok none
  | .str s => .ok (some s)
  | _ => .error .dataError

def hexDigits (width u : ℕ) : List Char :=
  let ds := Nat.toDigits 16 u
  List.replicate (width - ds.length) '0' ++ ds

/-- `str(u)` -/
def uuidStr (u : UUID) : String :=
  let h := hexDigits 32 u
  String.intercalate "-" (([h.take 8, (h.drop 8).take 4, (h.drop 12).take 4, (h.drop 16).take 4,
    h.drop 20]).map String.ofList)

def PyVal.toJson : PyVal → Except AppErr Json
  | .json j => .ok j
  | .uuid _ => .error (.typeError "Object of type UUID is not JSON serializable")

/-- `json.dumps` of a dictionary -/
def jsonDumps (d : List (String × PyVal)) : Except AppErr Json := do
  let fields ← d.mapM fun (x : String × PyVal) => do
    let j ← x.2.toJson
    pure (x.1, j)
  pure (.obj fields)

end Phyllonix
