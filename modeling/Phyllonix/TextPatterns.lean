import Mathlib.Data.List.Infix
import Mathlib.Data.List.TakeWhile

/-!
# Substitution of hidden runs

Patterns of the form `(before)[hidden]+(after)`, where the two groups are sequences of
character classes, matched by backtracking with greedy repetitions. The substitution
scans a text from the left and puts a mask in place of each hidden run.
-/

namespace TextPatterns

variable {α β : Type*}

/-- One character of a class, or the class with `*` or `+`. -/
inductive Atom (α : Type*)
  | one (p : α → Bool)
  | star (p : α → Bool)
  | plus (p : α → Bool)

/-- The splits of a text behind characters of the class, the longest first. -/
def runs (p : α → Bool) : List α → List (List α × List α)
  | [] => [([], [])]
  | c :: t => if p c then (runs p t).map (fun s => (c :: s.1, s.2)) ++ [([], c :: t)] else [([], c :: t)]

def Atom.ways : Atom α → List α → List (List α × List α)
  | .one p, c :: t => if p c then [([c], t)] else []
  | .star p, t => runs p t
  | .plus p, c :: t => if p c then (runs p t).map fun s => (c :: s.1, s.2) else []
  | _, [] => []

/-- The matches of a sequence at the head of a text, in the order in which backtracking tries them. -/
def ways : List (Atom α) → List α → List (List α × List α)
  | [], t => [([], t)]
  | a :: as, t => (a.ways t).flatMap fun s => (ways as s.2).map fun r => (s.1 ++ r.1, r.2)

/-- A word, matched up to `fold`. -/
def word [DecidableEq β] (fold : α → β) (q : List α) : List (Atom α) :=
  q.map fun k => .one fun c => fold c = fold k

structure Pattern (α : Type*) where
  before : List (Atom α)
  hidden : α → Bool
  after : List (Atom α)

/-- The groups of a match and the text behind it. -/
structure Found (α : Type*) where
  before : List α
  after : List α
  rest : List α

namespace Pattern
variable (P : Pattern α)

def candidates (t : List α) : List (Found α) :=
  (ways P.before t).flatMap fun b =>
    ((Atom.plus P.hidden).ways b.2).flatMap fun h =>
      (ways P.after h.2).map fun a => ⟨b.1, a.1, a.2⟩

def find (t : List α) : Option (Found α) := (P.candidates t).head?

/-- The substitution in a text of which the last match covers `n` more characters. -/
def subFrom (mask : List α) : ℕ → List α → List α
  | _, [] => []
  | n + 1, _ :: t => subFrom mask n t
  | 0, c :: t =>
    match P.find (c :: t) with
    | some f => f.before ++ mask ++ f.after ++ subFrom mask (t.length - f.rest.length) t
    | none => c :: subFrom mask 0 t

def sub (mask t : List α) : List α := P.subFrom mask 0 t

end Pattern

/-- The word occurs in the text, up to `fold`. -/
def Contains (fold : α → β) (q t : List α) : Prop := q.map fold <:+: t.map fold

instance [DecidableEq β] (fold : α → β) (q t : List α) : Decidable (Contains fold q t) :=
  inferInstanceAs (Decidable (q.map fold <:+: t.map fold))

/-! ## Words between delimiters -/

section Delimiters
variable {fold : α → β} {q m x u w z : List α} {d e : α}

theorem contains_of_eq (hm : m.map fold = q.map fold) (hz : z = x ++ m ++ w) : Contains fold q z :=
  ⟨x.map fold, w.map fold, by rw [hz, List.map_append, List.map_append, hm]⟩

theorem Contains.mono (h : Contains fold q u) (hpart : u <:+: z) : Contains fold q z :=
  h.trans (hpart.map fold)

theorem append_cons_cases (h : x ++ d :: w = u ++ e :: z) :
    (x = u ∧ d = e ∧ w = z) ∨ (∃ k, u = x ++ d :: k ∧ w = k ++ e :: z) ∨ ∃ k, x = u ++ e :: k ∧ z = k ++ d :: w := by
  rcases List.append_eq_append_iff.1 h with ⟨k, hu, hk⟩ | ⟨k, hx, hk⟩
  · cases k with
    | nil =>
      obtain ⟨hd, hw⟩ := List.cons.inj hk
      rw [List.append_nil] at hu
      exact .inl ⟨hu.symm, hd, hw⟩
    | cons c k =>
      obtain ⟨rfl, hw⟩ := List.cons.inj hk
      exact .inr (.inl ⟨k, hu, hw⟩)
  · cases k with
    | nil =>
      obtain ⟨he, hz⟩ := List.cons.inj hk
      rw [List.append_nil] at hx
      exact .inl ⟨hx, he.symm, hz.symm⟩
    | cons c k =>
      obtain ⟨rfl, hz⟩ := List.cons.inj hk
      exact .inr (.inr ⟨k, hx, hz⟩)

/-- A delimited occurrence of a word that cannot contain `e` lies on one side of a given `e`. -/
theorem occurrence_cases (hm : m.map fold = q.map fold) (he : fold e ∉ q.map fold)
    (h : x ++ m ++ d :: w = u ++ e :: z) :
    (x ++ m = u ∧ d = e ∧ w = z) ∨ (∃ k, u = x ++ m ++ d :: k) ∨ ∃ k, z = k ++ m ++ d :: w := by
  have hem : e ∉ m := fun hmem => he (hm ▸ List.mem_map_of_mem hmem)
  rcases append_cons_cases h with heq | ⟨k, hu, -⟩ | ⟨k, hx, hz⟩
  · exact .inl heq
  · exact .inr (.inl ⟨k, hu⟩)
  · refine .inr (.inr ?_)
    rcases List.append_eq_append_iff.1 hx with ⟨l, -, hl⟩ | ⟨l, -, hl⟩
    · exact absurd (hl ▸ List.mem_append_right l List.mem_cons_self) hem
    · cases l with
      | nil =>
        rw [List.nil_append] at hl
        exact absurd (hl ▸ List.mem_cons_self) hem
      | cons c l =>
        obtain ⟨-, rfl⟩ := List.cons.inj hl
        exact ⟨l, hz⟩

theorem occurrence_left (hm : m.map fold = q.map fold) (hd : d ∉ z) (h : u ++ z = x ++ m ++ d :: w) :
    Contains fold q u := by
  rcases List.append_eq_append_iff.1 h with ⟨k, -, hk⟩ | ⟨k, hu, -⟩
  · exact absurd (hk ▸ List.mem_append_right k List.mem_cons_self) hd
  · exact contains_of_eq hm hu

theorem Contains.split (he : fold e ∉ q.map fold) (h : Contains fold q (u ++ e :: z)) :
    Contains fold q u ∨ Contains fold q z := by
  rw [Contains, List.map_append, List.map_cons] at h
  rcases List.infix_append_iff.1 h with hu | hz | ⟨l, r, hq, hl, hr⟩
  · exact .inl hu
  · rcases List.infix_cons_iff.1 hz with hhead | hz
    · rcases List.prefix_cons_iff.1 hhead with hnil | ⟨t, ht, -⟩
      · exact .inl (by rw [Contains, hnil]; exact List.nil_infix)
      · exact absurd (ht ▸ List.mem_cons_self) he
    · exact .inr hz
  · rcases List.prefix_cons_iff.1 hr with rfl | ⟨t, rfl, -⟩
    · rw [List.append_nil] at hq
      exact .inl (by rw [Contains, hq]; exact hl.isInfix)
    · exact absurd (hq ▸ List.mem_append_right l List.mem_cons_self) he

end Delimiters

/-! ## Repeated rewriting -/

/-- A fold whose steps can only put `g w` in place of `w`, and one of them does. -/
theorem foldl_once {ι τ ω : Type*} {f : τ → ι → τ} (text : ω → τ) (I : ω → Prop) {g : ω → ω} {C : ι → Prop}
    [DecidablePred C] {is : List ι} (hI : ∀ w, I w → I (g w)) (hg : ∀ w, g (g w) = g w)
    (hstep : ∀ i ∈ is, ∀ w, I w → f (text w) i = text (if C i then g w else w)) {w : ω} (hw : I w) :
    is.foldl f (text w) = text (if ∃ i ∈ is, C i then g w else w) := by
  induction is generalizing w with
  | nil => simp
  | cons i is ih =>
    have ih' := @ih fun j hj => hstep j (List.mem_cons_of_mem i hj)
    rw [List.foldl_cons, hstep i List.mem_cons_self w hw]
    by_cases hi : C i
    · rw [if_pos hi, ih' (hI w hw), hg, ite_self, if_pos ⟨i, List.mem_cons_self, hi⟩]
    · rw [if_neg hi, ih' hw]
      simp only [List.mem_cons, exists_eq_or_imp, hi, false_or]

/-! ## Matches -/

section Runs
variable {p : α → Bool}

theorem runs_split {t : List α} {s : List α × List α} (hs : s ∈ runs p t) : t = s.1 ++ s.2 := by
  induction t generalizing s with
  | nil =>
    rw [runs, List.mem_singleton] at hs
    rw [hs, List.append_nil]
  | cons c t ih =>
    rw [runs] at hs
    split at hs
    · rcases List.mem_append.1 hs with hs | hs
      · obtain ⟨r, hr, rfl⟩ := List.mem_map.1 hs
        rw [List.cons_append, ← ih hr]
      · rw [List.mem_singleton.1 hs, List.nil_append]
    · rw [List.mem_singleton.1 hs, List.nil_append]

theorem runs_blocked {t : List α} (ht : ∀ c ∈ t.head?, p c = false) : runs p t = [([], t)] := by
  cases t with
  | nil => rfl
  | cons c t => rw [runs, if_neg (by rw [ht c rfl]; decide)]

/-- The longest split takes the whole run. -/
theorem runs_head {h r : List α} (hh : ∀ c ∈ h, p c = true) (hr : ∀ c ∈ r.head?, p c = false) :
    ∃ more, runs p (h ++ r) = (h, r) :: more := by
  induction h with
  | nil => exact ⟨[], runs_blocked hr⟩
  | cons c h ih =>
    obtain ⟨more, hmore⟩ := ih fun c' hc' => hh c' (List.mem_cons_of_mem c hc')
    refine ⟨more.map (fun s => (c :: s.1, s.2)) ++ [([], c :: (h ++ r))], ?_⟩
    rw [List.cons_append, runs, if_pos (hh c List.mem_cons_self), hmore]
    rfl

end Runs

theorem Atom.ways_split {a : Atom α} {t : List α} {s : List α × List α} (hs : s ∈ a.ways t) : t = s.1 ++ s.2 := by
  cases a with
  | star p => exact runs_split (p := p) (by cases t <;> exact hs)
  | one p =>
    cases t with
    | nil => cases hs
    | cons c t =>
      rw [Atom.ways] at hs
      split at hs
      · rw [List.mem_singleton.1 hs, List.singleton_append]
      · cases hs
  | plus p =>
    cases t with
    | nil => cases hs
    | cons c t =>
      rw [Atom.ways] at hs
      split at hs
      · obtain ⟨r, hr, rfl⟩ := List.mem_map.1 hs
        rw [List.cons_append, ← runs_split hr]
      · cases hs

theorem ways_split {as : List (Atom α)} {t : List α} {s : List α × List α} (hs : s ∈ ways as t) :
    t = s.1 ++ s.2 := by
  induction as generalizing t s with
  | nil =>
    rw [ways, List.mem_singleton] at hs
    rw [hs, List.nil_append]
  | cons a as ih =>
    rw [ways] at hs
    obtain ⟨first, hfirst, hs⟩ := List.mem_flatMap.1 hs
    obtain ⟨r, hr, rfl⟩ := List.mem_map.1 hs
    rw [Atom.ways_split hfirst, ih hr, List.append_assoc]

theorem ways_cons_of_eq {a : Atom α} {as : List (Atom α)} {t m t' : List α} (h : a.ways t = [(m, t')]) :
    ways (a :: as) t = (ways as t').map fun r => (m ++ r.1, r.2) := by
  rw [ways, h, List.flatMap_singleton]

theorem ways_one_cons {p : α → Bool} {as : List (Atom α)} {c : α} (t : List α) (hc : p c = true) :
    ways (.one p :: as) (c :: t) = (ways as t).map fun r => (c :: r.1, r.2) :=
  ways_cons_of_eq (by rw [Atom.ways, if_pos hc])

theorem ways_star_blocked {p : α → Bool} {as : List (Atom α)} {t : List α} (ht : ∀ c ∈ t.head?, p c = false) :
    ways (.star p :: as) t = ways as t := by
  have hrun : (Atom.star p).ways t = [([], t)] := by
    rw [← runs_blocked ht]
    cases t <;> rfl
  rw [ways_cons_of_eq hrun]
  exact List.map_id _

theorem mem_ways_one {p : α → Bool} {as : List (Atom α)} {t : List α} {s : List α × List α}
    (hs : s ∈ ways (.one p :: as) t) :
    ∃ c t', t = c :: t' ∧ p c = true ∧ ∃ r ∈ ways as t', s = (c :: r.1, r.2) := by
  cases t with
  | nil => cases hs
  | cons c t =>
    by_cases hc : p c = true
    · rw [ways_one_cons t hc] at hs
      obtain ⟨r, hr, rfl⟩ := List.mem_map.1 hs
      exact ⟨c, t, rfl, hc, r, hr, rfl⟩
    · rw [ways, Atom.ways, if_neg hc] at hs
      cases hs

/-- Where a class may follow a repetition of another, the text goes on with one of the two. -/
theorem mem_ways_star_one {p q : α → Bool} {as : List (Atom α)} {t : List α} {s : List α × List α}
    (hs : s ∈ ways (.star p :: .one q :: as) t) : ∃ c t', t = c :: t' ∧ (p c = true ∨ q c = true) := by
  cases t with
  | nil =>
    rw [ways_star_blocked (fun c hc => by cases hc)] at hs
    cases hs
  | cons c t =>
    refine ⟨c, t, rfl, ?_⟩
    by_cases hc : p c = true
    · exact .inl hc
    · rw [ways_star_blocked (fun d hd => by cases hd; exact Bool.eq_false_iff.2 hc)] at hs
      obtain ⟨d, t', heq, hd, -⟩ := mem_ways_one hs
      cases heq
      exact .inr hd

section Word
variable [DecidableEq β] {fold : α → β}

theorem mem_ways_word {q t : List α} {as : List (Atom α)} {s : List α × List α} (hs : s ∈ ways (word fold q ++ as) t) :
    ∃ m t', t = m ++ t' ∧ m.map fold = q.map fold ∧ ∃ r ∈ ways as t', s = (m ++ r.1, r.2) := by
  induction q generalizing t s with
  | nil => exact ⟨[], t, rfl, rfl, s, hs, rfl⟩
  | cons k q ih =>
    obtain ⟨c, t, rfl, hc, r, hr, rfl⟩ := mem_ways_one hs
    obtain ⟨m, t', rfl, hm, r', hr', rfl⟩ := ih hr
    refine ⟨c :: m, t', rfl, ?_, r', hr', rfl⟩
    rw [List.map_cons, List.map_cons, hm, of_decide_eq_true hc]

theorem ways_word {q m : List α} (hm : m.map fold = q.map fold) (as : List (Atom α)) (t : List α) :
    ways (word fold q ++ as) (m ++ t) = (ways as t).map fun r => (m ++ r.1, r.2) := by
  induction q generalizing m with
  | nil =>
    rw [List.map_eq_nil_iff.1 hm]
    exact (List.map_id _).symm
  | cons k q ih =>
    cases m with
    | nil => cases hm
    | cons c m =>
      obtain ⟨hc, hm⟩ := List.cons.inj hm
      have hhead : ways (word fold (k :: q) ++ as) (c :: (m ++ t)) =
          (ways (word fold q ++ as) (m ++ t)).map fun r => (c :: r.1, r.2) :=
        ways_one_cons (m ++ t) (decide_eq_true hc)
      rw [List.cons_append, hhead, ih hm, List.map_map]
      rfl

end Word

namespace Pattern
variable {P : Pattern α} {mask : List α}

theorem find_split {t : List α} {f : Found α} (hf : P.find t = some f) :
    ∃ h, h ≠ [] ∧ t = f.before ++ h ++ f.after ++ f.rest := by
  have hmem := List.mem_of_head? hf
  obtain ⟨b, hb, hmem⟩ := List.mem_flatMap.1 hmem
  obtain ⟨h, hh, hmem⟩ := List.mem_flatMap.1 hmem
  obtain ⟨a, ha, rfl⟩ := List.mem_map.1 hmem
  refine ⟨h.1, ?_, ?_⟩
  · intro hnil
    cases hb2 : b.2 with
    | nil =>
      rw [hb2] at hh
      cases hh
    | cons c t =>
      rw [hb2, Atom.ways] at hh
      split at hh
      · obtain ⟨r, hr, rfl⟩ := List.mem_map.1 hh
        cases hnil
      · cases hh
  · dsimp only
    rw [ways_split hb, Atom.ways_split hh, ways_split ha, List.append_assoc, List.append_assoc]

theorem find_eq_none {t : List α} (h : ∀ s, s ∉ ways P.before t) : P.find t = none := by
  rw [find, candidates, List.eq_nil_iff_forall_not_mem.2 h]
  rfl

/-- A text whose first group has one match, with no hidden character behind it. -/
theorem find_blocked {t g t' : List α} (hbefore : ways P.before t = [(g, t')])
    (hhidden : ∀ c ∈ t'.head?, P.hidden c = false) : P.find t = none := by
  have hplus : (Atom.plus P.hidden).ways t' = [] := by
    cases t' with
    | nil => rfl
    | cons c t' => rw [Atom.ways, if_neg (by rw [hhidden c rfl]; decide)]
  rw [find, candidates, hbefore, List.flatMap_singleton, hplus]
  rfl

theorem find_run {t g h r a rest : List α} (hbefore : ways P.before t = [(g, h ++ r)]) (hne : h ≠ [])
    (hhidden : ∀ c ∈ h, P.hidden c = true) (hend : ∀ c ∈ r.head?, P.hidden c = false)
    (hafter : ways P.after r = [(a, rest)]) : P.find t = some ⟨g, a, rest⟩ := by
  cases h with
  | nil => exact absurd rfl hne
  | cons c h =>
    obtain ⟨more, hmore⟩ := runs_head (fun c' hc' => hhidden c' (List.mem_cons_of_mem c hc')) hend
    rw [find, candidates, hbefore, List.flatMap_singleton, List.cons_append, Atom.ways,
      if_pos (hhidden c List.mem_cons_self), hmore, List.map_cons, List.flatMap_cons, hafter]
    rfl

/-! ## Substitution -/

theorem subFrom_eq (n : ℕ) (t : List α) : P.subFrom mask n t = P.sub mask (t.drop n) := by
  induction t generalizing n with
  | nil =>
    rw [List.drop_nil]
    cases n <;> rfl
  | cons c t ih =>
    cases n with
    | zero => rfl
    | succ n => exact ih n

theorem sub_skip {c : α} {t : List α} (h : P.find (c :: t) = none) : P.sub mask (c :: t) = c :: P.sub mask t := by
  rw [sub, subFrom, h]
  rfl

/-- The text behind a match is scanned on its own. -/
theorem sub_found {t : List α} {f : Found α} (h : P.find t = some f) :
    P.sub mask t = f.before ++ mask ++ f.after ++ P.sub mask f.rest := by
  obtain ⟨hid, hne, ht⟩ := find_split h
  have hsuffix : f.rest <:+ t := ⟨_, ht.symm⟩
  have hlen : f.rest.length < t.length := by
    have hpos := List.length_pos_iff.2 hne
    rw [ht]
    simp only [List.length_append]
    omega
  cases t with
  | nil => cases hlen
  | cons c t =>
    have hrest : f.rest = t.drop (t.length - f.rest.length) := by
      rcases List.suffix_cons_iff.1 hsuffix with heq | htail
      · rw [heq] at hlen
        exact absurd hlen (Nat.lt_irrefl _)
      · exact List.suffix_iff_eq_drop.1 htail
    rw [sub, subFrom, h]
    dsimp only
    rw [subFrom_eq, ← hrest]

theorem sub_append {pre t : List α} (h : ∀ y, y <:+ pre → y ≠ [] → P.find (y ++ t) = none) :
    P.sub mask (pre ++ t) = pre ++ P.sub mask t := by
  induction pre with
  | nil => rfl
  | cons c pre ih =>
    have hskip : P.find (c :: (pre ++ t)) = none := h (c :: pre) (List.suffix_refl _) (List.cons_ne_nil c pre)
    rw [List.cons_append, sub_skip hskip, ih fun y hy => h y (hy.trans (List.suffix_cons c pre)), List.cons_append]

theorem sub_self {t : List α} (h : ∀ y, y <:+ t → y ≠ [] → P.find y = none) : P.sub mask t = t := by
  have happ : P.sub mask (t ++ []) = t ++ P.sub mask [] := sub_append fun y hy hne => by
    rw [List.append_nil, h y hy hne]
  rwa [List.append_nil, show P.sub mask [] = [] from rfl, List.append_nil] at happ

end Pattern

end TextPatterns
