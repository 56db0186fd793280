import Phyllonix.NumeralTexts
import Mathlib.Algebra.Order.Group.Unbundled.Int
import Mathlib.Tactic.SplitIfs

/-!
# Date-times and their ISO texts

A date-time has a civil date and time of day at microsecond resolution and, unless it is
naive, its distance from UTC. What `isoformat` prints `fromisoformat` reads back.
-/

namespace Iso

def isLeap (year : ℕ) : Bool := year % 4 = 0 ∧ (year % 100 ≠ 0 ∨ year % 400 = 0)

def daysInMonth (year month : ℕ) : ℕ :=
  match month with
  | 2 => if isLeap year then 29 else 28
  | 4 | 6 | 9 | 11 => 30
  | _ => 31

structure DateTime where
  year : ℕ
  month : ℕ
  day : ℕ
  hour : ℕ
  minute : ℕ
  second : ℕ
  microsecond : ℕ
  /-- in microseconds -/
  utcoffset : Option ℤ
  year_le : 1 ≤ year ∧ year ≤ 9999
  month_le : 1 ≤ month ∧ month ≤ 12
  day_le : 1 ≤ day ∧ day ≤ daysInMonth year month
  hour_lt : hour < 24
  minute_lt : minute < 60
  second_lt : second < 60
  microsecond_lt : microsecond < 1000000
  offset_lt : ∀ o ∈ utcoffset, o.natAbs < 86400000000

theorem DateTime.sixty_pos : 0 < 60 := by decide

theorem DateTime.utc_lt : ∀ o ∈ some (0 : ℤ), o.natAbs < 86400000000 := by decide

/-- `date.toordinal`: the first of January of the year one is day one. -/
def toordinal (year month day : ℕ) : ℕ :=
  let y := year - 1
  y * 365 + y / 4 - y / 100 + y / 400 + ((List.range (month - 1)).map fun m => daysInMonth year (m + 1)).sum + day

/-- Microseconds on the UTC time line, by which aware date-times compare. -/
def DateTime.instant (t : DateTime) : ℤ :=
  ((toordinal t.year t.month t.day * 86400 + t.hour * 3600 + t.minute * 60 + t.second) * 1000000 +
    t.microsecond : ℕ) - t.utcoffset.getD 0

/-! ## Writing -/

/-- `HH:MM:SS`, with the microseconds when there are any. -/
def clockText (hour minute second microsecond : ℕ) : List Char :=
  Numeral.fixed 10 2 hour ++ ':' :: (Numeral.fixed 10 2 minute ++ ':' :: (Numeral.fixed 10 2 second ++
    if microsecond = 0 then [] else '.' :: Numeral.fixed 10 6 microsecond))

/-- `HH:MM`, with the seconds and the microseconds when there are any. -/
def offsetText (o : ℕ) : List Char :=
  let hour := o / 3600000000
  let minute := o / 60000000 % 60
  if o % 60000000 = 0 then Numeral.fixed 10 2 hour ++ ':' :: Numeral.fixed 10 2 minute
  else clockText hour minute (o / 1000000 % 60) (o % 1000000)

def DateTime.isoformat (t : DateTime) : List Char :=
  Numeral.fixed 10 4 t.year ++ '-' :: (Numeral.fixed 10 2 t.month ++ '-' :: (Numeral.fixed 10 2 t.day ++
    'T' :: (clockText t.hour t.minute t.second t.microsecond ++
      match t.utcoffset with
      | none => []
      | some o => (if o < 0 then '-' else '+') :: offsetText o.natAbs)))

/-! ## Reading -/

def expect (c : Char) : List Char → Option (List Char)
  | [] => none
  | d :: cs => if d = c then some cs else none

/-- `fff` or `ffffff` -/
def fraction? (cs : List Char) : Option ℕ :=
  if cs.length = 3 then (Numeral.read 10 3 cs).map (·.1 * 1000)
  else if cs.length = 6 then (Numeral.read 10 6 cs).map (·.1)
  else none

/-- `SS[.fff[fff]]`, to its end. -/
def second? (cs : List Char) : Option (ℕ × ℕ) := do
  let (second, cs) ← Numeral.read 10 2 cs
  match cs with
  | [] => some (second, 0)
  | '.' :: cs => (fraction? cs).map fun microsecond => (second, microsecond)
  | _ => none

/-- `MM[:SS[.fff[fff]]]`, to its end. -/
def minute? (cs : List Char) : Option (ℕ × ℕ × ℕ) := do
  let (minute, cs) ← Numeral.read 10 2 cs
  match cs with
  | [] => some (minute, 0, 0)
  | ':' :: cs => (second? cs).map fun rest => (minute, rest)
  | _ => none

/-- `HH[:MM[:SS[.fff[fff]]]]`, to its end. -/
def clock? (cs : List Char) : Option (ℕ × ℕ × ℕ × ℕ) := do
  let (hour, cs) ← Numeral.read 10 2 cs
  match cs with
  | [] => some (hour, 0, 0, 0)
  | ':' :: cs => (minute? cs).map fun rest => (hour, rest)
  | _ => none

def isSign (c : Char) : Bool := c = '+' ∨ c = '-'

/-- `±HH:MM[:SS[.ffffff]]` -/
def offset? : List Char → Option (Option ℤ)
  | [] => some none
  | sign :: cs =>
    if cs.length = 5 ∨ cs.length = 8 ∨ cs.length = 15 then
      (clock? cs).map fun (hour, minute, second, microsecond) =>
        let o : ℤ := ((hour * 3600 + minute * 60 + second) * 1000000 + microsecond : ℕ)
        some (if sign = '-' then -o else o)
    else none

/-- The constructor refuses components outside their ranges. -/
def DateTime.of? (year month day : ℕ) (clock : ℕ × ℕ × ℕ × ℕ) (utcoffset : Option ℤ) :
    Option DateTime :=
  let (hour, minute, second, microsecond) := clock
  if h : (1 ≤ year ∧ year ≤ 9999) ∧ (1 ≤ month ∧ month ≤ 12) ∧ (1 ≤ day ∧ day ≤ daysInMonth year month) ∧
      hour < 24 ∧ minute < 60 ∧ second < 60 ∧ microsecond < 1000000 ∧
      ∀ o ∈ utcoffset, o.natAbs < 86400000000 then
    some { year, month, day, hour, minute, second, microsecond, utcoffset,
           year_le := h.1, month_le := h.2.1, day_le := h.2.2.1, hour_lt := h.2.2.2.1,
           minute_lt := h.2.2.2.2.1, second_lt := h.2.2.2.2.2.1, microsecond_lt := h.2.2.2.2.2.2.1,
           offset_lt := h.2.2.2.2.2.2.2 }
  else none

/-- `datetime.fromisoformat`, in the forms that `isoformat` writes: a date, any separator, a time of
day and an offset. A date alone is midnight. -/
def fromisoformat (cs : List Char) : Option DateTime := do
  let (year, cs) ← Numeral.read 10 4 cs
  let cs ← expect '-' cs
  let (month, cs) ← Numeral.read 10 2 cs
  let cs ← expect '-' cs
  let (day, cs) ← Numeral.read 10 2 cs
  match cs with
  | [] => DateTime.of? year month day (0, 0, 0, 0) none
  | _ :: cs => do
    let clock ← clock? (cs.takeWhile fun c => !isSign c)
    let utcoffset ← offset? (cs.dropWhile fun c => !isSign c)
    DateTime.of? year month day clock utcoffset

/-! ## The round trip -/

@[simp] theorem expect_self (c : Char) (cs : List Char) : expect c (c :: cs) = some cs := if_pos rfl

theorem read_two {n : ℕ} (hn : n < 100) (rest : List Char) :
    Numeral.read 10 2 (Numeral.fixed 10 2 n ++ rest) = some (n, rest) :=
  Numeral.read_fixed (by decide) (by decide) hn rest

theorem fraction?_fixed {n : ℕ} (hn : n < 1000000) : fraction? (Numeral.fixed 10 6 n) = some n := by
  have hread := Numeral.read_fixed (b := 10) (w := 6) (by decide) (by decide) hn []
  rw [List.append_nil] at hread
  rw [fraction?, Numeral.length_fixed, if_neg (by decide), if_pos rfl, hread]
  rfl

theorem second?_text {second microsecond : ℕ} (hs : second < 60) (hu : microsecond < 1000000) :
    second? (Numeral.fixed 10 2 second ++
      if microsecond = 0 then [] else '.' :: Numeral.fixed 10 6 microsecond) =
      some (second, microsecond) := by
  rw [second?, read_two (by omega), Option.bind_eq_bind, Option.bind_some]
  by_cases hzero : microsecond = 0
  · rw [if_pos hzero, hzero]
  · simp only [if_neg hzero, fraction?_fixed hu, Option.map_some]

theorem minute?_text {minute : ℕ} {rest : ℕ × ℕ} (hm : minute < 60) {cs : List Char}
    (hcs : second? cs = some rest) :
    minute? (Numeral.fixed 10 2 minute ++ ':' :: cs) = some (minute, rest) := by
  rw [minute?, read_two (by omega), Option.bind_eq_bind, Option.bind_some]
  simp only [hcs, Option.map_some]

theorem clock?_text {hour : ℕ} {rest : ℕ × ℕ × ℕ} (hh : hour < 24) {cs : List Char}
    (hcs : minute? cs = some rest) :
    clock? (Numeral.fixed 10 2 hour ++ ':' :: cs) = some (hour, rest) := by
  rw [clock?, read_two (by omega), Option.bind_eq_bind, Option.bind_some]
  simp only [hcs, Option.map_some]

theorem clock?_clockText {hour minute second microsecond : ℕ} (hh : hour < 24) (hm : minute < 60)
    (hs : second < 60) (hu : microsecond < 1000000) :
    clock? (clockText hour minute second microsecond) = some (hour, minute, second, microsecond) :=
  clock?_text hh (minute?_text hm (second?_text hs hu))

theorem minute?_end {minute : ℕ} (hm : minute < 60) :
    minute? (Numeral.fixed 10 2 minute) = some (minute, 0, 0) := by
  have hread := read_two (show minute < 100 by omega) []
  rw [List.append_nil] at hread
  rw [minute?, hread]
  rfl

theorem clockText_length (hour minute second microsecond : ℕ) :
    (clockText hour minute second microsecond).length = 8 ∨
      (clockText hour minute second microsecond).length = 15 := by
  by_cases hzero : microsecond = 0 <;>
    simp [clockText, hzero, Numeral.length_fixed]

theorem offsetText_length (o : ℕ) :
    (offsetText o).length = 5 ∨ (offsetText o).length = 8 ∨ (offsetText o).length = 15 := by
  by_cases hminutes : o % 60000000 = 0
  · simp [offsetText, hminutes, Numeral.length_fixed]
  · simp only [offsetText, if_neg hminutes]
    exact Or.inr (clockText_length _ _ _ _)

theorem clock?_offsetText {o : ℕ} (ho : o < 86400000000) :
    clock? (offsetText o) =
      some (o / 3600000000, o / 60000000 % 60, o / 1000000 % 60, o % 1000000) := by
  by_cases hminutes : o % 60000000 = 0
  · have hsecond : o / 1000000 % 60 = 0 := by omega
    have hmicro : o % 1000000 = 0 := by omega
    simp only [offsetText, if_pos hminutes, hsecond, hmicro]
    exact clock?_text (by omega) (minute?_end (by omega))
  · simp only [offsetText, if_neg hminutes]
    exact clock?_clockText (by omega) (by omega) (by omega) (by omega)

theorem offset?_text {o : ℤ} (ho : o.natAbs < 86400000000) :
    offset? ((if o < 0 then '-' else '+') :: offsetText o.natAbs) = some (some o) := by
  have hparts : ((o.natAbs / 3600000000 * 3600 + o.natAbs / 60000000 % 60 * 60 +
      o.natAbs / 1000000 % 60) * 1000000 + o.natAbs % 1000000) = o.natAbs := by omega
  rw [offset?, if_pos (offsetText_length _), clock?_offsetText ho]
  simp only [Option.map_some, hparts]
  by_cases hneg : o < 0
  · simp only [if_pos hneg, if_true, Option.some.injEq]
    omega
  · simp only [if_neg hneg, show ¬ '+' = '-' by decide, if_false, Option.some.injEq]
    omega

/-! A time of day holds no sign, so the text splits where the offset starts. -/

theorem digit_not_sign {c : Char} (h : c.isDigit = true) : isSign c = false := by
  simp only [Char.isDigit, Bool.and_eq_true, decide_eq_true_eq] at h
  simp only [isSign, decide_eq_false_iff_not, not_or]
  exact ⟨fun hc => absurd (hc ▸ h.1) (by decide), fun hc => absurd (hc ▸ h.1) (by decide)⟩

section
variable {P : Char → Prop} (hdigit : ∀ c : Char, c.isDigit = true → P c)
include hdigit

theorem fixed_forall (w n : ℕ) : ∀ c ∈ Numeral.fixed 10 w n, P c :=
  fun c hc => hdigit c (Numeral.fixed_isDigit w n c hc)

theorem clockText_forall (hcolon : P ':') (hpoint : P '.') (hour minute second microsecond : ℕ) :
    ∀ c ∈ clockText hour minute second microsecond, P c := by
  have hmicro : ∀ c ∈ (if microsecond = 0 then [] else '.' :: Numeral.fixed 10 6 microsecond), P c := by
    split
    · simp
    · exact List.forall_mem_cons.2 ⟨hpoint, fixed_forall hdigit _ _⟩
  refine List.forall_mem_append.2 ⟨fixed_forall hdigit _ _, List.forall_mem_cons.2 ⟨hcolon, ?_⟩⟩
  refine List.forall_mem_append.2 ⟨fixed_forall hdigit _ _, List.forall_mem_cons.2 ⟨hcolon, ?_⟩⟩
  exact List.forall_mem_append.2 ⟨fixed_forall hdigit _ _, hmicro⟩

theorem offsetText_forall (hcolon : P ':') (hpoint : P '.') (o : ℕ) : ∀ c ∈ offsetText o, P c := by
  by_cases hminutes : o % 60000000 = 0
  · simp only [offsetText, if_pos hminutes]
    exact List.forall_mem_append.2 ⟨fixed_forall hdigit _ _,
      List.forall_mem_cons.2 ⟨hcolon, fixed_forall hdigit _ _⟩⟩
  · simp only [offsetText, if_neg hminutes]
    exact clockText_forall hdigit hcolon hpoint _ _ _ _

/-- What the text of a date-time is made of. -/
theorem isoformat_forall (hmarks : ∀ c ∈ ['-', 'T', ':', '.', '+'], P c) (t : DateTime) :
    ∀ c ∈ t.isoformat, P c := by
  have hcolon : P ':' := hmarks _ (by simp)
  have hpoint : P '.' := hmarks _ (by simp)
  have hdash : P '-' := hmarks _ (by simp)
  have hoffset : ∀ c ∈ (match t.utcoffset with
      | none => []
      | some o => (if o < 0 then '-' else '+') :: offsetText o.natAbs), P c := by
    cases t.utcoffset with
    | none => simp
    | some o =>
      refine List.forall_mem_cons.2 ⟨?_, offsetText_forall hdigit hcolon hpoint _⟩
      split
      · exact hdash
      · exact hmarks _ (by simp)
  refine List.forall_mem_append.2 ⟨fixed_forall hdigit _ _, List.forall_mem_cons.2 ⟨hdash, ?_⟩⟩
  refine List.forall_mem_append.2 ⟨fixed_forall hdigit _ _, List.forall_mem_cons.2 ⟨hdash, ?_⟩⟩
  refine List.forall_mem_append.2 ⟨fixed_forall hdigit _ _, List.forall_mem_cons.2 ⟨hmarks _ (by simp), ?_⟩⟩
  exact List.forall_mem_append.2 ⟨clockText_forall hdigit hcolon hpoint _ _ _ _, hoffset⟩

end

theorem clockText_no_sign (hour minute second microsecond : ℕ) :
    ∀ c ∈ clockText hour minute second microsecond, isSign c = false :=
  clockText_forall (fun _ => digit_not_sign) (by decide) (by decide) hour minute second microsecond

theorem split_at_sign {cs : List Char} (rest : List Char) (hcs : ∀ c ∈ cs, isSign c = false)
    (hrest : ∀ c ∈ rest.head?, isSign c = true) :
    (cs ++ rest).takeWhile (fun c => !isSign c) = cs ∧
      (cs ++ rest).dropWhile (fun c => !isSign c) = rest := by
  have hall : ∀ c ∈ cs, (!isSign c) = true := fun c hc => by rw [hcs c hc]; rfl
  have hstop : rest.takeWhile (fun c => !isSign c) = [] ∧ rest.dropWhile (fun c => !isSign c) = rest := by
    cases rest with
    | nil => exact ⟨rfl, rfl⟩
    | cons c rest =>
      have hc : ¬ (!isSign c) = true := by simp [hrest c rfl]
      exact ⟨List.takeWhile_cons_of_neg hc, List.dropWhile_cons_of_neg hc⟩
  refine ⟨?_, ?_⟩
  · rw [List.takeWhile_append_of_pos hall, hstop.1, List.append_nil]
  · rw [List.dropWhile_append_of_pos hall, hstop.2]

theorem of?_self (t : DateTime) :
    DateTime.of? t.year t.month t.day (t.hour, t.minute, t.second, t.microsecond) t.utcoffset = some t :=
  dif_pos ⟨t.year_le, t.month_le, t.day_le, t.hour_lt, t.minute_lt, t.second_lt, t.microsecond_lt,
    t.offset_lt⟩

theorem fromisoformat_isoformat (t : DateTime) : fromisoformat t.isoformat = some t := by
  have hmonth := t.month_le
  have hday : t.day < 100 := by
    have hle : daysInMonth t.year t.month ≤ 31 := by
      unfold daysInMonth
      split
      · split <;> omega
      all_goals omega
    have hd := t.day_le
    omega
  have hyear : t.year < 10 ^ 4 := lt_of_le_of_lt t.year_le.2 (by decide)
  rw [fromisoformat, DateTime.isoformat, Numeral.read_fixed (by decide) (by decide) hyear]
  simp only [Option.bind_eq_bind, Option.bind_some, expect_self, read_two (show t.month < 100 by omega),
    read_two hday]
  cases hoff : t.utcoffset with
  | none =>
    obtain ⟨htake, hdrop⟩ := split_at_sign []
      (clockText_no_sign t.hour t.minute t.second t.microsecond) (by simp)
    rw [htake, hdrop, clock?_clockText t.hour_lt t.minute_lt t.second_lt t.microsecond_lt, Option.bind_some,
      offset?, Option.bind_some, ← hoff]
    exact of?_self t
  | some o =>
    have ho := t.offset_lt o hoff
    obtain ⟨htake, hdrop⟩ := split_at_sign ((if o < 0 then '-' else '+') :: offsetText o.natAbs)
      (clockText_no_sign t.hour t.minute t.second t.microsecond) (by
        intro c hc
        rw [List.head?_cons, Option.mem_def, Option.some.injEq] at hc
        rw [← hc]
        split <;> decide)
    simp only [htake, hdrop, clock?_clockText t.hour_lt t.minute_lt t.second_lt t.microsecond_lt,
      Option.bind_some, offset?_text ho]
    rw [← hoff]
    exact of?_self t

theorem isoformat_injective : Function.Injective DateTime.isoformat := fun a b h => by
  have hiso := fromisoformat_isoformat a
  rw [h, fromisoformat_isoformat] at hiso
  exact (Option.some.inj hiso).symm

end Iso
