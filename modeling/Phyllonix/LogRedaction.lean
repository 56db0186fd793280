import Phyllonix.TextPatterns

/-!
# Redaction of log messages

The two substitutions that each sensitive key makes in a message, on ASCII text. A value
behind `key=` is hidden up to the first character outside `[\w\-\./]`, a value in quotes
whole.
-/

namespace Phyllonix
open TextPatterns

def SENSITIVE_PATTERNS : List (List Char) :=
  ["password".toList, "secret".toList, "token".toList, "key".toList, "authorization".toList,
    "api_key".toList, "apikey".toList, "access_token".toList, "refresh_token".toList,
    "credit_card".toList, "cvv".toList, "ssn".toList, "pwd_hash".toList]

/-- `\s` -/
def isSpace (c : Char) : Bool := c = ' ' ∨ '\t' ≤ c ∧ c ≤ '\r' ∨ '\x1c' ≤ c ∧ c ≤ '\x1f'

/-- `[=:\s]` -/
def isSeparator (c : Char) : Bool := c = '=' ∨ c = ':' ∨ isSpace c

/-- `[\w\-\./]` -/
def isValueChar (c : Char) : Bool := c.isAlphanum ∨ c ∈ ['_', '-', '.', '/']

def redacted : List Char := "[REDACTED]".toList

def isChar (d c : Char) : Bool := c = d

/-- `("{p}"\s*:\s*")[^"]+(")` -/
def quotedPattern (p : List Char) : Pattern Char where
  before := .one (isChar '"') :: (word Char.toLower p ++
    [.one (isChar '"'), .star isSpace, .one (isChar ':'), .star isSpace, .one (isChar '"')])
  hidden c := c ≠ '"'
  after := [.one (isChar '"')]

/-- `({p}\s*[=:\s]\s*)[\w\-\./]+` -/
def assignedPattern (p : List Char) : Pattern Char where
  before := word Char.toLower p ++ [.star isSpace, .one isSeparator, .star isSpace]
  hidden := isValueChar
  after := []

def redactKey (out p : List Char) : List Char :=
  (assignedPattern p).sub redacted ((quotedPattern p).sub redacted out)

def sanitizeMessageText (msg : List Char) : List Char := SENSITIVE_PATTERNS.foldl redactKey msg

/-- The message with which `SecurityFilter.filter` lets a record go on. -/
def filterMessage (ENV : String) (msg : List Char) : List Char :=
  if ENV ≠ "dev" then sanitizeMessageText msg else msg

/-- The `message` of the record that `JSONFormatter.format` writes. -/
def formatMessage (ENV : String) (msg : List Char) : List Char :=
  if ENV ≠ "dev" then sanitizeMessageText msg else msg

/-! ## Occurrences of keys -/

/-- The characters that can follow an occurrence of a key in a match. -/
def isDelimiter (c : Char) : Bool := c = '"' ∨ isSeparator c

/-- No sensitive key occurs in the text, in whatever case. -/
def KeyFree (t : List Char) : Prop := ∀ q ∈ SENSITIVE_PATTERNS, ¬ Contains Char.toLower q t

instance (t : List Char) : Decidable (KeyFree t) :=
  inferInstanceAs (Decidable (∀ q ∈ SENSITIVE_PATTERNS, ¬ Contains Char.toLower q t))

/-- Characters that no key has. -/
def marks : List Char := ['=', '"', ':', ' ', ']']

theorem forall_of_all {P : Char → Prop} [DecidablePred P] {t : List Char} (h : t.all (fun c => P c) = true) :
    ∀ c ∈ t, P c :=
  fun c hc => of_decide_eq_true (List.all_eq_true.1 h c hc)

theorem not_delimiter {p : List Char} (hp : p ∈ SENSITIVE_PATTERNS) : ∀ c ∈ p, isDelimiter c = false := by
  have hall : SENSITIVE_PATTERNS.all (fun p => p.all fun c => isDelimiter c = false) = true := by decide +kernel
  exact forall_of_all (List.all_eq_true.1 hall p hp)

theorem mark_not_in_key {q : List Char} (hq : q ∈ SENSITIVE_PATTERNS) :
    ∀ e ∈ marks, e.toLower ∉ q.map Char.toLower := by
  have hall : SENSITIVE_PATTERNS.all (fun q => marks.all fun e => e.toLower ∉ q.map Char.toLower) = true := by
    decide +kernel
  exact forall_of_all (List.all_eq_true.1 hall q hq)

theorem KeyFree.mono {t u : List Char} (ht : KeyFree t) (hu : u <:+: t) : KeyFree u :=
  fun q hq hc => ht q hq (hc.mono hu)

theorem KeyFree.append_mark {t u : List Char} {e : Char} (he : e ∈ marks) (ht : KeyFree t)
    (hu : KeyFree u) : KeyFree (t ++ e :: u) := by
  intro q hq hc
  rcases hc.split (mark_not_in_key hq e he) with hc | hc
  · exact ht q hq hc
  · exact hu q hq hc

theorem KeyFree.cons_mark {u : List Char} {e : Char} (he : e ∈ marks) (hu : KeyFree u) :
    KeyFree (e :: u) :=
  KeyFree.append_mark (t := []) he (by decide) hu

section Occurrences
variable {q m a p x w z : List Char} {d e : Char}

theorem quoted_before {y : List Char} {s : List Char × List Char} (hs : s ∈ ways (quotedPattern q).before y) :
    ∃ m w, y = '"' :: (m ++ '"' :: w) ∧ m.map Char.toLower = q.map Char.toLower := by
  obtain ⟨c, y, rfl, hc, r, hr, -⟩ := mem_ways_one hs
  obtain ⟨m, t, rfl, hm, r', hr', -⟩ := mem_ways_word hr
  obtain ⟨c', w, rfl, hc', -⟩ := mem_ways_one hr'
  rw [of_decide_eq_true hc, of_decide_eq_true hc']
  exact ⟨m, w, rfl, hm⟩

theorem assigned_before {y : List Char} {s : List Char × List Char} (hs : s ∈ ways (assignedPattern q).before y) :
    ∃ m d w, y = m ++ d :: w ∧ m.map Char.toLower = q.map Char.toLower ∧ isSeparator d = true := by
  obtain ⟨m, t, rfl, hm, r, hr, -⟩ := mem_ways_word hs
  obtain ⟨d, w, rfl, hd⟩ := mem_ways_star_one hr
  refine ⟨m, d, w, rfl, hm, ?_⟩
  rcases hd with hd | hd
  · exact decide_eq_true (.inr (.inr hd))
  · exact hd

theorem delimiter_of_separator (hd : isSeparator d = true) : isDelimiter d = true := decide_eq_true (.inr hd)

/-- A delimited key in front of `e` ends there, when none ends before. -/
theorem occurrence_end (hq : q ∈ SENSITIVE_PATTERNS) (hm : m.map Char.toLower = q.map Char.toLower)
    (he : e ∈ marks) {u : List Char} (hu : ∀ k, u ≠ x ++ m ++ d :: k) (hz : KeyFree z)
    (h : x ++ m ++ d :: w = u ++ e :: z) : x ++ m = u ∧ d = e ∧ w = z := by
  rcases occurrence_cases hm (mark_not_in_key hq e he) h with heq | ⟨k, hk⟩ | ⟨k, hk⟩
  · exact heq
  · exact absurd hk (hu k)
  · exact absurd (contains_of_eq hm hk) (hz q hq)

theorem not_before_key (hq : q ∈ SENSITIVE_PATTERNS) (hm : m.map Char.toLower = q.map Char.toLower)
    (ha : KeyFree a) (hp : p ∈ SENSITIVE_PATTERNS) (hd : isDelimiter d = true) (k : List Char) :
    a ++ p ≠ x ++ m ++ d :: k := by
  intro h
  have hdp : d ∉ p := fun hmem => by
    rw [not_delimiter hp d hmem] at hd
    cases hd
  exact ha q hq (occurrence_left hm hdp h)

theorem not_before_quoted (hq : q ∈ SENSITIVE_PATTERNS) (hm : m.map Char.toLower = q.map Char.toLower)
    (ha : KeyFree a) (hp : p ∈ SENSITIVE_PATTERNS) (hd : isDelimiter d = true) (k : List Char) :
    a ++ '"' :: p ≠ x ++ m ++ d :: k := by
  intro h
  rcases occurrence_cases hm (mark_not_in_key hq '"' (by decide)) h.symm with ⟨hxm, -⟩ | ⟨l, hl⟩ | ⟨l, hl⟩
  · exact ha q hq (contains_of_eq (x := x) (w := []) hm (by rw [List.append_nil, hxm]))
  · exact ha q hq (contains_of_eq hm hl)
  · have hdp : d ∈ p := hl ▸ List.mem_append_right _ List.mem_cons_self
    rw [not_delimiter hp d hdp] at hd
    cases hd

theorem sub_quoted_keyFree (hq : q ∈ SENSITIVE_PATTERNS) (hz : KeyFree z) :
    (quotedPattern q).sub redacted z = z := by
  refine Pattern.sub_self fun y hy _ => Pattern.find_eq_none fun s hs => ?_
  obtain ⟨m, w, rfl, hm⟩ := quoted_before hs
  exact hz.mono hy.isInfix q hq (contains_of_eq (x := ['"']) hm (by rw [List.append_assoc]; rfl))

theorem sub_assigned_keyFree (hq : q ∈ SENSITIVE_PATTERNS) (hz : KeyFree z) :
    (assignedPattern q).sub redacted z = z := by
  refine Pattern.sub_self fun y hy _ => Pattern.find_eq_none fun s hs => ?_
  obtain ⟨m, d, w, rfl, hm, -⟩ := assigned_before hs
  exact hz.mono hy.isInfix q hq (contains_of_eq (x := []) hm (by rw [List.nil_append]))

end Occurrences

/-! ## One key -/

/-- The value class takes a first character of the value. -/
def Taken (v : List Char) : Prop := v.head?.any isValueChar = true

instance (v : List Char) : Decidable (Taken v) := inferInstanceAs (Decidable (v.head?.any isValueChar = true))

/-- What the value class leaves of a value. -/
def remainder (v : List Char) : List Char := v.dropWhile isValueChar

def shown (v : List Char) : List Char := if Taken v then redacted ++ remainder v else v

/-- The value and the text behind it, before and after the substitutions. -/
structure Scanned (v b : List Char) : Prop where
  head : ∃ c ∈ v.head?, isSpace c = false
  keyFree : KeyFree (v ++ b)
  after : ∀ c ∈ b.head?, c = ' '

theorem not_taken_redacted (v : List Char) : ¬ Taken (redacted ++ v) := by
  intro h
  have hhead : isValueChar '[' = true := h
  exact absurd hhead (by decide)

theorem shown_shown (v : List Char) : shown (shown v) = shown v := by
  by_cases h : Taken v
  · rw [shown, shown, if_pos h, if_neg (not_taken_redacted _)]
  · rw [shown, shown, if_neg h, if_neg h]

theorem KeyFree.redacted_append {z : List Char} (hz : KeyFree z) : KeyFree (redacted ++ z) :=
  KeyFree.append_mark (t := "[REDACTED".toList) (e := ']') (by decide) (by decide) hz

theorem split_value (v b : List Char) : v ++ b = v.takeWhile isValueChar ++ (remainder v ++ b) := by
  rw [remainder, ← List.append_assoc, List.takeWhile_append_dropWhile]

theorem scanned_shown {v b : List Char} (h : Scanned v b) : Scanned (shown v) b := by
  by_cases htaken : Taken v
  · rw [shown, if_pos htaken]
    refine ⟨⟨'[', rfl, rfl⟩, ?_, h.after⟩
    rw [List.append_assoc]
    refine KeyFree.redacted_append (h.keyFree.mono ?_)
    rw [split_value v b]
    exact (List.suffix_append _ _).isInfix
  · rwa [shown, if_neg htaken]

section Assigned
variable {q m a p v b z : List Char}

/-- `key=` with any value behind it. -/
def assigned (a p z : List Char) : List Char := a ++ p ++ '=' :: z

theorem assigned_match (hq : q ∈ SENSITIVE_PATTERNS) (ha : KeyFree a) (hp : p ∈ SENSITIVE_PATTERNS)
    (hz : KeyFree z) {x y : List Char} (hxy : x ++ y = assigned a p z) {s : List Char × List Char}
    (hs : s ∈ ways (assignedPattern q).before y) :
    ∃ m, x ++ m = a ++ p ∧ m.map Char.toLower = q.map Char.toLower ∧ y = m ++ '=' :: z := by
  obtain ⟨m, d, w, rfl, hm, hd⟩ := assigned_before hs
  have hbefore := not_before_key (x := x) hq hm ha hp (delimiter_of_separator hd)
  obtain ⟨hxm, rfl, rfl⟩ := occurrence_end hq hm (by decide) hbefore hz ((List.append_assoc x m _).trans hxy)
  exact ⟨m, hxm, hm, rfl⟩

theorem ways_assigned (hm : m.map Char.toLower = q.map Char.toLower) (hz : ∀ c ∈ z.head?, isSpace c = false) :
    ways (assignedPattern q).before (m ++ '=' :: z) = [(m ++ ['='], z)] := by
  refine (ways_word hm _ _).trans ?_
  rw [ways_star_blocked (fun c hc => by cases hc; rfl), ways_one_cons z (by decide), ways_star_blocked hz]
  rfl

theorem sub_quoted_assigned (hq : q ∈ SENSITIVE_PATTERNS) (ha : KeyFree a) (hp : p ∈ SENSITIVE_PATTERNS)
    (hz : KeyFree z) : (quotedPattern q).sub redacted (assigned a p z) = assigned a p z := by
  refine Pattern.sub_self fun y hy _ => Pattern.find_eq_none fun s hs => ?_
  obtain ⟨m, w, rfl, hm⟩ := quoted_before hs
  obtain ⟨x, hx⟩ := hy
  have hassoc : x ++ ['"'] ++ m ++ '"' :: w = assigned a p z := by
    rw [← hx, List.append_assoc, List.append_assoc]
    rfl
  have hbefore := not_before_key (x := x ++ ['"']) hq hm ha hp (d := '"') (by decide)
  obtain ⟨-, habsurd, -⟩ := occurrence_end hq hm (by decide) hbefore hz hassoc
  exact absurd habsurd (by decide)

/-- The key `q` ends where `p` does. -/
def EndsWith (a p q : List Char) : Prop := q.map Char.toLower <:+ (a ++ p).map Char.toLower

instance (a p : List Char) : DecidablePred (EndsWith a p) := fun q =>
  inferInstanceAs (Decidable (q.map Char.toLower <:+ (a ++ p).map Char.toLower))

theorem Scanned.head_append (h : Scanned v b) : ∀ c ∈ (v ++ b).head?, isSpace c = false := by
  obtain ⟨d, hd, hspace⟩ := h.head
  cases v with
  | nil => cases hd
  | cons c v =>
    intro c' hc'
    cases hc'
    cases hd
    exact hspace

theorem takeWhile_ne_nil (h : Taken v) : v.takeWhile isValueChar ≠ [] := by
  cases v with
  | nil => cases h
  | cons c v =>
    have hvalue : isValueChar c = true := h
    rw [List.takeWhile_cons_of_pos hvalue]
    exact List.cons_ne_nil _ _

theorem head_not_taken (hne : v ≠ []) (h : ¬ Taken v) : ∀ c ∈ (v ++ b).head?, isValueChar c = false := by
  cases v with
  | nil => exact absurd rfl hne
  | cons c v =>
    intro c' hc'
    cases hc'
    exact Bool.eq_false_iff.2 h

/-- The space behind the value is outside the class. -/
theorem head_remainder (hb : ∀ c ∈ b.head?, c = ' ') : ∀ c ∈ (remainder v ++ b).head?, isValueChar c = false := by
  cases h : remainder v with
  | nil =>
    intro c hc
    rw [hb c hc]
    decide
  | cons d t =>
    intro c hc
    cases hc
    have hhead := List.head?_dropWhile_not isValueChar v
    rw [← remainder, h] at hhead
    exact hhead

theorem Scanned.ne_nil (h : Scanned v b) : v ≠ [] := by
  obtain ⟨c, hc, -⟩ := h.head
  intro hnil
  rw [hnil] at hc
  cases hc

theorem find_assigned (hm : m.map Char.toLower = q.map Char.toLower) (hv : Scanned v b) :
    (assignedPattern q).find (m ++ '=' :: (v ++ b)) =
      if Taken v then some ⟨m ++ ['='], [], remainder v ++ b⟩ else none := by
  have hways := ways_assigned hm hv.head_append
  by_cases htaken : Taken v
  · rw [if_pos htaken]
    refine Pattern.find_run (h := v.takeWhile isValueChar) (hways.trans ?_) (takeWhile_ne_nil htaken) ?_
      (head_remainder hv.after) rfl
    · rw [split_value v b]
    · exact fun c hc => List.mem_takeWhile_imp hc
  · rw [if_neg htaken]
    exact Pattern.find_blocked hways (head_not_taken hv.ne_nil htaken)

theorem sub_assigned_idle (hq : q ∈ SENSITIVE_PATTERNS) (ha : KeyFree a) (hp : p ∈ SENSITIVE_PATTERNS)
    (hv : Scanned v b) (h : EndsWith a p q → ¬ Taken v) :
    (assignedPattern q).sub redacted (assigned a p (v ++ b)) = assigned a p (v ++ b) := by
  refine Pattern.sub_self fun y hy _ => ?_
  by_cases hmatch : ∃ s, s ∈ ways (assignedPattern q).before y
  · obtain ⟨s, hs⟩ := hmatch
    obtain ⟨x, hx⟩ := hy
    obtain ⟨m, hxm, hm, rfl⟩ := assigned_match hq ha hp hv.keyFree hx hs
    have hends : EndsWith a p q := ⟨x.map Char.toLower, by rw [← hm, ← List.map_append, hxm]⟩
    rw [find_assigned hm hv, if_neg (h hends)]
  · exact Pattern.find_eq_none fun s hs => hmatch ⟨s, hs⟩

theorem sub_assigned_taken (hq : q ∈ SENSITIVE_PATTERNS) (ha : KeyFree a) (hp : p ∈ SENSITIVE_PATTERNS)
    (hv : Scanned v b) (hends : EndsWith a p q) (htaken : Taken v) :
    (assignedPattern q).sub redacted (assigned a p (v ++ b)) = assigned a p (redacted ++ remainder v ++ b) := by
  obtain ⟨l, hl⟩ := hends
  obtain ⟨x, m, hxm, -, hm⟩ := List.map_eq_append_iff.1 hl.symm
  have hskip : ∀ y, y <:+ x → y ≠ [] → (assignedPattern q).find (y ++ (m ++ '=' :: (v ++ b))) = none := by
    rintro y ⟨x', hx'⟩ hne
    refine Pattern.find_eq_none fun s hs => hne ?_
    have hxy : x' ++ (y ++ (m ++ '=' :: (v ++ b))) = assigned a p (v ++ b) := by
      rw [← List.append_assoc, hx', ← List.append_assoc, ← hxm]
      rfl
    obtain ⟨m', hxm', hm', -⟩ := assigned_match hq ha hp hv.keyFree hxy hs
    rw [hxm, ← hx', List.append_assoc] at hxm'
    have hlen := congrArg List.length (hm.trans hm'.symm)
    rw [List.append_cancel_left hxm', List.length_map, List.length_map, List.length_append] at hlen
    exact List.length_eq_zero_iff.1 (by omega)
  have hrest : KeyFree (remainder v ++ b) :=
    hv.keyFree.mono (by rw [split_value v b]; exact (List.suffix_append _ _).isInfix)
  have hfound := (find_assigned hm hv).trans (if_pos htaken)
  rw [assigned, hxm, List.append_assoc, Pattern.sub_append hskip, Pattern.sub_found hfound,
    sub_assigned_keyFree hq hrest, assigned, hxm]
  simp only [List.append_assoc, List.append_nil, List.cons_append, List.nil_append]

theorem sub_assigned (hq : q ∈ SENSITIVE_PATTERNS) (ha : KeyFree a) (hp : p ∈ SENSITIVE_PATTERNS)
    (hv : Scanned v b) :
    (assignedPattern q).sub redacted (assigned a p (v ++ b)) =
      assigned a p ((if EndsWith a p q then shown v else v) ++ b) := by
  by_cases hends : EndsWith a p q
  · rw [if_pos hends]
    by_cases htaken : Taken v
    · rw [sub_assigned_taken hq ha hp hv hends htaken, shown, if_pos htaken]
    · rw [sub_assigned_idle hq ha hp hv fun _ => htaken, shown, if_neg htaken]
  · rw [if_neg hends, sub_assigned_idle hq ha hp hv fun h => absurd h hends]

end Assigned

section Quoted
variable {q m a p v b z : List Char}

/-- `"key": "value"` -/
def quoted (a p v b : List Char) : List Char := a ++ '"' :: p ++ '"' :: ':' :: ' ' :: '"' :: (v ++ '"' :: b)

/-- The value in quotes and the text behind it. -/
structure Quotable (v b : List Char) : Prop where
  ne_nil : v ≠ []
  quoteless : '"' ∉ v
  keyFree : KeyFree v
  keyFree_after : KeyFree b

theorem quotable_redacted (h : Quotable v b) : Quotable redacted b :=
  ⟨by decide, by decide, by decide, h.keyFree_after⟩

theorem Quotable.tail (h : Quotable v b) : KeyFree (':' :: ' ' :: '"' :: (v ++ '"' :: b)) :=
  (((h.keyFree.append_mark (by decide) h.keyFree_after).cons_mark (by decide)).cons_mark (by decide)).cons_mark
    (by decide)

theorem sub_assigned_quoted (hq : q ∈ SENSITIVE_PATTERNS) (ha : KeyFree a) (hp : p ∈ SENSITIVE_PATTERNS)
    (hv : Quotable v b) : (assignedPattern q).sub redacted (quoted a p v b) = quoted a p v b := by
  refine Pattern.sub_self fun y hy _ => Pattern.find_eq_none fun s hs => ?_
  obtain ⟨m, d, w, rfl, hm, hd⟩ := assigned_before hs
  obtain ⟨x, hx⟩ := hy
  have hbefore := not_before_quoted (x := x) hq hm ha hp (delimiter_of_separator hd)
  obtain ⟨-, rfl, -⟩ := occurrence_end hq hm (by decide) hbefore hv.tail ((List.append_assoc x m _).trans hx)
  exact absurd hd (by decide)

theorem quoted_match (hq : q ∈ SENSITIVE_PATTERNS) (ha : KeyFree a) (hp : p ∈ SENSITIVE_PATTERNS)
    (hv : Quotable v b) {x y : List Char} (hxy : x ++ y = quoted a p v b) {s : List Char × List Char}
    (hs : s ∈ ways (quotedPattern q).before y) : x = a ∧ p.map Char.toLower = q.map Char.toLower := by
  obtain ⟨m, w, rfl, hm⟩ := quoted_before hs
  have hassoc : x ++ ['"'] ++ m ++ '"' :: w = quoted a p v b := by
    rw [← hxy, List.append_assoc, List.append_assoc]
    rfl
  have hbefore := not_before_quoted (x := x ++ ['"']) hq hm ha hp (d := '"') (by decide)
  obtain ⟨hxm, -, -⟩ := occurrence_end hq hm (by decide) hbefore hv.tail hassoc
  have hquote : '"' ∉ m := fun hmem => mark_not_in_key hq '"' (by decide) (hm ▸ List.mem_map_of_mem hmem)
  have hsplit : x ++ '"' :: m = a ++ '"' :: p := by rw [← hxm, List.append_assoc]; rfl
  rcases append_cons_cases hsplit with ⟨hx, -, rfl⟩ | ⟨k, -, hk⟩ | ⟨k, -, hk⟩
  · exact ⟨hx, hm⟩
  · exact absurd (hk ▸ List.mem_append_right k List.mem_cons_self) hquote
  · exact absurd (not_delimiter hp '"' (hk ▸ List.mem_append_right k List.mem_cons_self)) (by decide)

theorem find_quoted (hm : p.map Char.toLower = q.map Char.toLower) (hv : Quotable v b) :
    (quotedPattern q).find ('"' :: (p ++ '"' :: ':' :: ' ' :: '"' :: (v ++ '"' :: b))) =
      some ⟨'"' :: (p ++ ['"', ':', ' ', '"']), ['"'], b⟩ := by
  have hmarks : ways [.one (isChar '"'), .star isSpace, .one (isChar ':'), .star isSpace, .one (isChar '"')]
      ('"' :: ':' :: ' ' :: '"' :: (v ++ '"' :: b)) = [(['"', ':', ' ', '"'], v ++ '"' :: b)] := rfl
  have hways : ways (quotedPattern q).before ('"' :: (p ++ '"' :: ':' :: ' ' :: '"' :: (v ++ '"' :: b))) =
      [('"' :: (p ++ ['"', ':', ' ', '"']), v ++ '"' :: b)] := by
    rw [quotedPattern, ways_one_cons _ (by decide), ways_word hm, hmarks]
    rfl
  refine Pattern.find_run hways hv.ne_nil ?_ ?_ rfl
  · exact fun c hc => decide_eq_true fun h => hv.quoteless (h ▸ hc)
  · intro c hc
    cases hc
    rfl

theorem sub_quoted (hq : q ∈ SENSITIVE_PATTERNS) (ha : KeyFree a) (hp : p ∈ SENSITIVE_PATTERNS)
    (hv : Quotable v b) :
    (quotedPattern q).sub redacted (quoted a p v b) =
      quoted a p (if p.map Char.toLower = q.map Char.toLower then redacted else v) b := by
  by_cases hpq : p.map Char.toLower = q.map Char.toLower
  · have hskip : ∀ y, y <:+ a → y ≠ [] →
        (quotedPattern q).find (y ++ '"' :: (p ++ '"' :: ':' :: ' ' :: '"' :: (v ++ '"' :: b))) = none := by
      rintro y ⟨x, hx⟩ hne
      refine Pattern.find_eq_none fun s hs => hne ?_
      have hxy : x ++ (y ++ '"' :: (p ++ '"' :: ':' :: ' ' :: '"' :: (v ++ '"' :: b))) = quoted a p v b := by
        rw [← List.append_assoc, hx, quoted, List.append_assoc]
        rfl
      obtain ⟨rfl, -⟩ := quoted_match hq ha hp hv hxy hs
      exact List.append_right_eq_self.1 hx
    rw [if_pos hpq, quoted, List.append_assoc, List.cons_append, Pattern.sub_append hskip,
      Pattern.sub_found (find_quoted hpq hv), sub_quoted_keyFree hq hv.keyFree_after, quoted]
    simp only [List.append_assoc, List.cons_append, List.nil_append]
  · rw [if_neg hpq]
    refine Pattern.sub_self fun y hy _ => Pattern.find_eq_none fun s hs => ?_
    obtain ⟨x, hx⟩ := hy
    exact hpq (quoted_match hq ha hp hv hx hs).2

end Quoted

/-! ## All keys -/

section Messages
variable {a p v v₁ v₂ b : List Char}

theorem redactKey_assigned (ha : KeyFree a) (hp : p ∈ SENSITIVE_PATTERNS) {q : List Char}
    (hq : q ∈ SENSITIVE_PATTERNS) (hv : Scanned v b) :
    redactKey (assigned a p (v ++ b)) q = assigned a p ((if EndsWith a p q then shown v else v) ++ b) := by
  rw [redactKey, sub_quoted_assigned hq ha hp hv.keyFree, sub_assigned hq ha hp hv]

theorem redactKey_quoted (ha : KeyFree a) (hp : p ∈ SENSITIVE_PATTERNS) {q : List Char}
    (hq : q ∈ SENSITIVE_PATTERNS) (hv : Quotable v b) :
    redactKey (quoted a p v b) q = quoted a p (if p.map Char.toLower = q.map Char.toLower then redacted else v) b := by
  rw [redactKey, sub_quoted hq ha hp hv]
  split
  · exact sub_assigned_quoted hq ha hp (quotable_redacted hv)
  · exact sub_assigned_quoted hq ha hp hv

theorem sanitize_assigned (ha : KeyFree a) (hp : p ∈ SENSITIVE_PATTERNS) (hv : Scanned v b) :
    sanitizeMessageText (assigned a p (v ++ b)) = assigned a p (shown v ++ b) := by
  have hends : EndsWith a p p := by
    rw [EndsWith, List.map_append]
    exact List.suffix_append _ _
  refine (foldl_once (fun w => assigned a p (w ++ b)) (fun w => Scanned w b) (fun w hw => scanned_shown hw)
    shown_shown (fun q hq w hw => redactKey_assigned ha hp hq hw) hv).trans ?_
  rw [if_pos ⟨p, hp, hends⟩]

theorem sanitize_quoted (ha : KeyFree a) (hp : p ∈ SENSITIVE_PATTERNS) (hv : Quotable v b) :
    sanitizeMessageText (quoted a p v b) = quoted a p redacted b := by
  refine (foldl_once (fun w => quoted a p w b) (fun w => Quotable w b) (fun w hw => quotable_redacted hw)
    (fun _ => rfl) (fun q hq w hw => redactKey_quoted ha hp hq hw) hv).trans ?_
  rw [if_pos ⟨p, hp, rfl⟩]

/-- The formatter redacts what the filter has redacted, and leaves it as it is. -/
theorem logged_assigned {ENV : String} (henv : ENV ≠ "dev") (ha : KeyFree a) (hp : p ∈ SENSITIVE_PATTERNS)
    (hv : Scanned v b) :
    formatMessage ENV (filterMessage ENV (assigned a p (v ++ b))) = sanitizeMessageText (assigned a p (v ++ b)) := by
  rw [formatMessage, filterMessage, if_pos henv, if_pos henv, sanitize_assigned ha hp hv,
    sanitize_assigned ha hp (scanned_shown hv), shown_shown]

theorem logged_quoted {ENV : String} (henv : ENV ≠ "dev") (ha : KeyFree a) (hp : p ∈ SENSITIVE_PATTERNS)
    (hv : Quotable v b) :
    formatMessage ENV (filterMessage ENV (quoted a p v b)) = sanitizeMessageText (quoted a p v b) := by
  rw [formatMessage, filterMessage, if_pos henv, if_pos henv, sanitize_quoted ha hp hv,
    sanitize_quoted ha hp (quotable_redacted hv)]

/-- The text around a key and its value. -/
structure Around (a b : List Char) : Prop where
  ascii_before : ∀ c ∈ a, c.toNat < 128
  ascii_after : ∀ c ∈ b, c.toNat < 128
  keyFree_before : KeyFree a
  keyFree_after : KeyFree b
  spaced : b = [] ∨ ∃ t, b = ' ' :: t

structure Secret (v : List Char) : Prop where
  ne_nil : v ≠ []
  ascii : ∀ c ∈ v, c.toNat < 128
  spaceless : ∀ c ∈ v, isSpace c = false
  quoteless : '"' ∉ v
  keyFree : KeyFree v

theorem Secret.scanned (hv : Secret v) (h : Around a b) : Scanned v b where
  head := by
    cases v with
    | nil => exact absurd rfl hv.ne_nil
    | cons c v => exact ⟨c, rfl, hv.spaceless c List.mem_cons_self⟩
  keyFree := by
    rcases h.spaced with rfl | ⟨t, rfl⟩
    · rw [List.append_nil]
      exact hv.keyFree
    · exact hv.keyFree.append_mark (by decide) (h.keyFree_after.mono (List.suffix_cons ' ' t).isInfix)
  after := by
    rcases h.spaced with rfl | ⟨t, rfl⟩
    · exact fun c hc => by cases hc
    · exact fun c hc => by cases hc; rfl

theorem Secret.quotable (hv : Secret v) (h : Around a b) : Quotable v b :=
  ⟨hv.ne_nil, hv.quoteless, hv.keyFree, h.keyFree_after⟩

/-- Two values that leave the same text: equal ones, ones that start in the value class and go on
alike behind it, and one that starts there beside what its redaction looks like. -/
def Alike (v₁ v₂ : List Char) : Prop :=
  v₁ = v₂ ∨ (Taken v₁ ∧ Taken v₂ ∧ remainder v₁ = remainder v₂) ∨
    (Taken v₁ ∧ v₂ = redacted ++ remainder v₁) ∨ (Taken v₂ ∧ v₁ = redacted ++ remainder v₂)

theorem shown_eq_iff : shown v₁ = shown v₂ ↔ Alike v₁ v₂ := by
  constructor
  · intro h
    by_cases h₁ : Taken v₁ <;> by_cases h₂ : Taken v₂
    · rw [shown, shown, if_pos h₁, if_pos h₂] at h
      exact .inr (.inl ⟨h₁, h₂, List.append_cancel_left h⟩)
    · rw [shown, shown, if_pos h₁, if_neg h₂] at h
      exact .inr (.inr (.inl ⟨h₁, h.symm⟩))
    · rw [shown, shown, if_neg h₁, if_pos h₂] at h
      exact .inr (.inr (.inr ⟨h₂, h⟩))
    · rw [shown, shown, if_neg h₁, if_neg h₂] at h
      exact .inl h
  · rintro (rfl | ⟨h₁, h₂, hrest⟩ | ⟨h₁, rfl⟩ | ⟨h₂, rfl⟩)
    · rfl
    · rw [shown, shown, if_pos h₁, if_pos h₂, hrest]
    · rw [shown, shown, if_pos h₁, if_neg (not_taken_redacted _)]
    · rw [shown, shown, if_pos h₂, if_neg (not_taken_redacted _)]

theorem assigned_inj : assigned a p (v₁ ++ b) = assigned a p (v₂ ++ b) ↔ v₁ = v₂ := by
  rw [assigned, assigned, List.append_cancel_left_eq, List.cons.injEq, List.append_cancel_right_eq]
  exact and_iff_right rfl

end Messages

/-- A value in quotes is always hidden; one behind `=` as far as the value class reaches. -/
theorem redaction_hides_iff {a p b v₁ v₂ : List Char} (hp : p ∈ SENSITIVE_PATTERNS) (h : Around a b)
    (h₁ : Secret v₁) (h₂ : Secret v₂) :
    (sanitizeMessageText (assigned a p (v₁ ++ b)) = sanitizeMessageText (assigned a p (v₂ ++ b)) ∧
      sanitizeMessageText (quoted a p v₁ b) = sanitizeMessageText (quoted a p v₂ b)) ↔ Alike v₁ v₂ := by
  have ha := h.keyFree_before
  rw [sanitize_assigned ha hp (h₁.scanned h), sanitize_assigned ha hp (h₂.scanned h),
    sanitize_quoted ha hp (h₁.quotable h), sanitize_quoted ha hp (h₂.quotable h), assigned_inj, shown_eq_iff]
  exact and_iff_left rfl

theorem redaction_hides_iff_login :
    (sanitizeMessageText (assigned "login ".toList "password".toList ("winter@1".toList ++ " ok".toList)) =
        sanitizeMessageText (assigned "login ".toList "password".toList ("summer@1".toList ++ " ok".toList)) ∧
      sanitizeMessageText (quoted "login ".toList "password".toList "winter@1".toList " ok".toList) =
        sanitizeMessageText (quoted "login ".toList "password".toList "summer@1".toList " ok".toList)) ↔
      Alike "winter@1".toList "summer@1".toList :=
  redaction_hides_iff (by decide +kernel)
    ⟨forall_of_all (by decide), forall_of_all (by decide), by decide +kernel, by decide +kernel,
      .inr ⟨"ok".toList, by decide +kernel⟩⟩
    ⟨by decide, forall_of_all (by decide), forall_of_all (by decide), by decide, by decide +kernel⟩
    ⟨by decide, forall_of_all (by decide), forall_of_all (by decide), by decide, by decide +kernel⟩

/-- What follows the first `@` of a password is logged. -/
theorem password_logged :
    ¬ ∀ a p b v₁ v₂ : List Char, p ∈ SENSITIVE_PATTERNS → Around a b → Secret v₁ → Secret v₂ →
      sanitizeMessageText (assigned a p (v₁ ++ b)) = sanitizeMessageText (assigned a p (v₂ ++ b)) ∧
        sanitizeMessageText (quoted a p v₁ b) = sanitizeMessageText (quoted a p v₂ b) := by
  intro h
  have hsame := (h [] "password".toList [] "winter@1".toList "winter@2".toList (by decide +kernel)
    ⟨forall_of_all rfl, forall_of_all rfl, by decide +kernel, by decide +kernel, .inl rfl⟩
    ⟨by decide, forall_of_all (by decide), forall_of_all (by decide), by decide, by decide +kernel⟩
    ⟨by decide, forall_of_all (by decide), forall_of_all (by decide), by decide, by decide +kernel⟩).1
  exact absurd hsame (by decide +kernel)

end Phyllonix
