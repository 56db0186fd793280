import Mathlib.Algebra.BigOperators.Fin
import Mathlib.Algebra.Order.BigOperators.Group.Finset
import Mathlib.Data.List.Basic
import Mathlib.Data.Fintype.Basic
import Phyllonix.ProcessNumbers

/-!
# Worker pools that sentinels end

Workers take items out of one queue, oldest first. An item is a task, whose jobs the worker
does one after the other, or a sentinel, which ends the worker. A task carries the number of
its acceptance. All tasks are accepted before the first of `w` sentinels.
-/

namespace Pools
variable {T F : Type} {w : ℕ}

/-- Where a worker stands. -/
inductive Pos (T F : Type) where
  | getting
  | calling (t : T) (f : F) (rest : List F)
  /-- about to report the item as done -/
  | finishing (goesOn : Bool)
  | exited

inductive Event (T F : Type) (w : ℕ) where
  | took (i : Fin w) (x : Option T)
  | called (i : Fin w) (t : T) (f : F) (ok : Bool)
  | done (i : Fin w)

/-- The queue, the workers, the sentinels that are still to be sent, and the events, the latest first. -/
structure Pool (T F : Type) (w : ℕ) where
  items : List (Option T) := []
  accepted : List (Option T) := []
  unfinished : ℕ := 0
  pos : Fin w → Pos T F := fun _ => .getting
  left : ℕ := w
  events : List (Event T F w) := []

namespace Pos

/-- The first of the remaining jobs. -/
def next (t : T) : List F → Pos T F
  | [] => .finishing true
  | f :: rest => .calling t f rest

def afterTake (jobs : T → List F) : Option T → Pos T F
  | none => .finishing false
  | some t => next t (jobs t)

def afterDone (goesOn : Bool) : Pos T F := if goesOn then .getting else .exited

/-- The worker has an item that it has not reported as done. -/
def holds : Pos T F → ℕ
  | .calling _ _ _ | .finishing _ => 1
  | _ => 0

/-- The worker has taken a sentinel. -/
def leaves : Pos T F → ℕ
  | .finishing false | .exited => 1
  | _ => 0

@[simp] theorem holds_getting : (getting : Pos T F).holds = 0 := rfl

@[simp] theorem holds_calling (t : T) (f : F) (rest : List F) : (calling t f rest).holds = 1 := rfl

@[simp] theorem holds_finishing (goesOn : Bool) : (finishing goesOn : Pos T F).holds = 1 := rfl

@[simp] theorem leaves_getting : (getting : Pos T F).leaves = 0 := rfl

@[simp] theorem leaves_calling (t : T) (f : F) (rest : List F) : (calling t f rest).leaves = 0 := rfl

theorem next_eq_calling {t t' : T} {fs : List F} {f : F} {rest : List F} (h : next t fs = .calling t' f rest) :
    t = t' ∧ fs = f :: rest := by
  cases fs with
  | nil => cases h
  | cons => cases h; exact ⟨rfl, rfl⟩

theorem holds_next (t : T) (fs : List F) : (next t fs).holds = 1 := by cases fs <;> rfl

theorem leaves_next (t : T) (fs : List F) : (next t fs).leaves = 0 := by cases fs <;> rfl

theorem holds_afterTake (jobs : T → List F) (x : Option T) : (afterTake jobs x).holds = 1 := by
  cases x with
  | none => rfl
  | some t => exact holds_next t (jobs t)

theorem holds_afterDone (goesOn : Bool) : (afterDone goesOn : Pos T F).holds = 0 := by cases goesOn <;> rfl

theorem leaves_afterDone (goesOn : Bool) :
    (afterDone goesOn : Pos T F).leaves = (finishing goesOn : Pos T F).leaves := by
  cases goesOn <;> rfl

end Pos

/-- The queue takes in one more item. -/
def Pool.accept (p : Pool T F w) (x : Option T) : Pool T F w :=
  { p with items := p.items ++ [x], accepted := p.accepted ++ [x], unfinished := p.unfinished + 1 }

/-- One step of a worker or of the caller of `stop`. -/
inductive Step (jobs : T → List F) : Pool T F w → Pool T F w → Prop
  | take {p : Pool T F w} {i : Fin w} {x : Option T} {rest : List (Option T)} :
      p.pos i = .getting → p.items = x :: rest → Step jobs p { p with
        items := rest
        pos := Function.update p.pos i (.afterTake jobs x)
        events := .took i x :: p.events }
  | call {p : Pool T F w} {i : Fin w} {t : T} {f : F} {rest : List F} (ok : Bool) :
      p.pos i = .calling t f rest → Step jobs p { p with
        pos := Function.update p.pos i (if ok then .next t rest else .finishing true)
        events := .called i t f ok :: p.events }
  | done {p : Pool T F w} {i : Fin w} {goesOn : Bool} :
      p.pos i = .finishing goesOn → Step jobs p { p with
        unfinished := p.unfinished - 1
        pos := Function.update p.pos i (.afterDone goesOn)
        events := .done i :: p.events }
  | sentinel {p : Pool T F w} {k : ℕ} : p.left = k + 1 → Step jobs p { p.accept none with left := k }

/-- A task may be published before the first sentinel, with the number of its acceptance. -/
structure Pool.Publishes (serial : T → ℕ) (p : Pool T F w) (t : T) : Prop where
  early : none ∉ p.accepted
  number : serial t = p.accepted.length

/-! ## What the events say -/

def Event.taken : Event T F w → Option (Fin w × Option T)
  | .took i x => some (i, x)
  | _ => none

/-- The items taken, each with its worker, oldest first. -/
def takes (es : List (Event T F w)) : List (Fin w × Option T) := (es.filterMap Event.taken).reverse

/-- What became of the jobs of task number `k`, oldest first. -/
def calls (serial : T → ℕ) (k : ℕ) (es : List (Event T F w)) : List (F × Bool) :=
  (es.filterMap fun
    | .called _ t f ok => if serial t = k then some (f, ok) else none
    | _ => none).reverse

def gets (i : Fin w) (es : List (Event T F w)) : ℕ := (takes es).countP fun x => x.1 = i

def sentinels (i : Fin w) (es : List (Event T F w)) : ℕ := (takes es).countP fun x => x.1 = i ∧ x.2.isNone

def dones (i : Fin w) (es : List (Event T F w)) : ℕ :=
  es.countP fun
    | .done j => j = i
    | _ => false

/-- The jobs were done in order, up to the first one that raised. -/
inductive Ran : List F → List (F × Bool) → Prop
  | nil : Ran [] []
  | raised (f : F) (rest : List F) : Ran (f :: rest) [(f, false)]
  | ok {f : F} {rest : List F} {cs : List (F × Bool)} : Ran rest cs → Ran (f :: rest) ((f, true) :: cs)

theorem Ran.append {before fs : List F} {cs : List (F × Bool)} (h : Ran fs cs) :
    Ran (before ++ fs) (before.map (·, true) ++ cs) := by
  induction before with
  | nil => exact h
  | cons f before ih => exact ih.ok

theorem Ran.all (fs : List F) : Ran fs (fs.map (·, true)) := by
  induction fs with
  | nil => exact .nil
  | cons f fs ih => exact ih.ok

theorem Ran.prefix {fs : List F} {cs : List (F × Bool)} (h : Ran fs cs) : cs.map Prod.fst <+: fs := by
  induction h with
  | nil => exact List.prefix_rfl
  | raised f rest => exact ⟨rest, rfl⟩
  | ok _ ih => exact (List.prefix_cons_inj _).2 ih

/-- All jobs are done just when none raises but the last one. -/
theorem Ran.all_iff {raises : F → Prop} {fs : List F} {cs : List (F × Bool)} (h : Ran fs cs)
    (hcs : ∀ c ∈ cs, c.2 = false ↔ raises c.1) : cs.map Prod.fst = fs ↔ ∀ f ∈ fs.dropLast, ¬raises f := by
  induction h with
  | nil => simp
  | raised f rest =>
    have hraises : raises f := (hcs (f, false) List.mem_cons_self).1 rfl
    cases rest with
    | nil => simp
    | cons g rest =>
      constructor
      · intro heq
        cases heq
      · exact fun hnone => absurd hraises (hnone f List.mem_cons_self)
  | @ok f rest cs h ih =>
    have hgood : ¬raises f := fun hraises => by cases (hcs (f, true) List.mem_cons_self).2 hraises
    rw [List.map_cons, List.cons.injEq, ih fun c hc => hcs c (List.mem_cons_of_mem _ hc)]
    cases rest with
    | nil => simp
    | cons g rest =>
      rw [List.dropLast_cons_of_ne_nil (List.cons_ne_nil g rest), List.forall_mem_cons]
      exact ⟨fun hall => ⟨hgood, hall.2⟩, fun hall => ⟨rfl, hall.2⟩⟩

section Events
variable {es : List (Event T F w)} {i j : Fin w} {x : Option T} {t : T} {f : F} {ok : Bool} {serial : T → ℕ} {k : ℕ}

@[simp] theorem takes_took : takes (.took i x :: es) = takes es ++ [(i, x)] := by
  simp [takes, Event.taken]

@[simp] theorem takes_called : takes (.called i t f ok :: es) = takes es := rfl

@[simp] theorem takes_done : takes (.done i :: es) = takes es := rfl

theorem took_mem : .took i x ∈ es ↔ (i, x) ∈ takes es := by
  rw [takes, List.mem_reverse, List.mem_filterMap]
  constructor
  · exact fun h => ⟨_, h, rfl⟩
  · rintro ⟨e, he, hx⟩
    cases e <;> cases hx
    exact he

@[simp] theorem calls_took : calls serial k (.took i x :: es) = calls serial k es := rfl

@[simp] theorem calls_done : calls serial k (.done i :: es) = calls serial k es := rfl

theorem calls_called_self : calls serial (serial t) (.called i t f ok :: es) =
      calls serial (serial t) es ++ [(f, ok)] := by
  simp [calls]

theorem calls_called_of_ne (h : serial t ≠ k) : calls serial k (.called i t f ok :: es) = calls serial k es := by
  simp [calls, h]

@[simp] theorem gets_took : gets j (.took i x :: es) = gets j es + if i = j then 1 else 0 := by
  simp [gets, List.countP_append, List.countP_cons]

@[simp] theorem gets_called : gets j (.called i t f ok :: es) = gets j es := rfl

@[simp] theorem gets_done : gets j (.done i :: es) = gets j es := rfl

@[simp] theorem sentinels_called : sentinels j (.called i t f ok :: es) = sentinels j es := rfl

@[simp] theorem sentinels_done : sentinels j (.done i :: es) = sentinels j es := rfl

@[simp] theorem sentinels_took :
    sentinels j (.took i x :: es) = sentinels j es + if i = j ∧ x.isNone then 1 else 0 := by
  simp [sentinels, List.countP_append, List.countP_cons]

@[simp] theorem dones_took : dones j (.took i x :: es) = dones j es := rfl

@[simp] theorem dones_called : dones j (.called i t f ok :: es) = dones j es := rfl

@[simp] theorem dones_done : dones j (.done i :: es) = dones j es + if i = j then 1 else 0 := by
  simp [dones, List.countP_cons]

end Events

/-! ## The queue -/

variable {serial : T → ℕ} {jobs : T → List F} {p p' : Pool T F w}

/-- Nothing is lost in the queue, which is first in first out, and a task stands at its number. -/
structure Numbered (serial : T → ℕ) (p : Pool T F w) : Prop where
  flow : (takes p.events).map Prod.snd ++ p.items = p.accepted
  serials : ∀ k t, p.accepted[k]? = some (some t) → serial t = k

theorem Numbered.start : Numbered serial ({} : Pool T F w) := ⟨rfl, fun _ _ h => by cases h⟩

theorem serials_append {l : List (Option T)} (h : ∀ k t, l[k]? = some (some t) → serial t = k) {x : Option T}
    (hx : ∀ t, x = some t → serial t = l.length) : ∀ k t, (l ++ [x])[k]? = some (some t) → serial t = k := by
  intro k t hk
  rcases Nat.lt_trichotomy k l.length with hlt | rfl | hgt
  · rw [List.getElem?_append_left hlt] at hk
    exact h k t hk
  · rw [List.getElem?_concat_length] at hk
    exact hx t (Option.some.inj hk)
  · rw [List.getElem?_eq_none (by simp; omega)] at hk
    cases hk

theorem Numbered.accept (h : Numbered serial p) {x : Option T} (hx : ∀ t, x = some t → serial t = p.accepted.length) :
    Numbered serial (p.accept x) := by
  refine ⟨?_, serials_append h.serials hx⟩
  rw [Pool.accept, ← h.flow, List.append_assoc]

theorem Numbered.step (h : Numbered serial p) (hstep : Step jobs p p') : Numbered serial p' := by
  cases hstep with
  | @take i x rest _ hitems =>
    refine ⟨?_, h.serials⟩
    rw [← h.flow, hitems]
    simp
  | call ok _ => exact ⟨h.flow, h.serials⟩
  | done _ => exact ⟨h.flow, h.serials⟩
  | sentinel _ =>
    have haccept : Numbered serial (p.accept none) := h.accept (by simp)
    exact ⟨haccept.flow, haccept.serials⟩

/-- Nothing is lost in the queue, which is first in first out, and the tasks come first. -/
structure Flow (serial : T → ℕ) (p : Pool T F w) : Prop where
  flow : (takes p.events).map Prod.snd ++ p.items = p.accepted
  serials : ∀ k t, p.accepted[k]? = some (some t) → serial t = k
  tasksFirst : ∃ tasks : List T, p.accepted = tasks.map some ++ List.replicate (w - p.left) none
  left_le : p.left ≤ w

theorem Flow.numbered (h : Flow serial p) : Numbered serial p := ⟨h.flow, h.serials⟩

theorem Flow.start : Flow serial ({} : Pool T F w) :=
  ⟨rfl, fun _ _ h => (by cases h), ⟨[], by simp⟩, le_rfl⟩

theorem Flow.step (h : Flow serial p) (hstep : Step jobs p p') : Flow serial p' := by
  obtain ⟨hflow, hserials⟩ := h.numbered.step hstep
  cases hstep with
  | take _ _ => exact ⟨hflow, hserials, h.tasksFirst, h.left_le⟩
  | call ok _ => exact ⟨hflow, hserials, h.tasksFirst, h.left_le⟩
  | done _ => exact ⟨hflow, hserials, h.tasksFirst, h.left_le⟩
  | @sentinel k hleft =>
    have hle := h.left_le
    refine ⟨hflow, hserials, ?_, by simp only; omega⟩
    obtain ⟨tasks, htasks⟩ := h.tasksFirst
    have hk : w - k = w - p.left + 1 := by omega
    refine ⟨tasks, ?_⟩
    rw [Pool.accept, htasks]
    simp only
    rw [hk, List.replicate_succ', List.append_assoc]

theorem Flow.publish (h : Flow serial p) {t : T} (ht : p.Publishes serial t) : Flow serial (p.accept (some t)) := by
  obtain ⟨hflow, hserials⟩ := h.numbered.accept (x := some t) fun t' ht' => by
    cases ht'
    exact ht.number
  refine ⟨hflow, hserials, ?_, h.left_le⟩
  obtain ⟨tasks, htasks⟩ := h.tasksFirst
  have hzero : w - p.left = 0 := by
    by_contra hne
    apply ht.early
    rw [htasks]
    exact List.mem_append_right _ (List.mem_replicate.2 ⟨hne, rfl⟩)
  refine ⟨tasks ++ [t], ?_⟩
  rw [Pool.accept, htasks]
  simp only [hzero]
  simp

/-- A taken task stands at its number. -/
theorem Numbered.takes_serial (h : Numbered serial p) {i : Fin w} {t : T} (ht : (i, some t) ∈ takes p.events) :
    (takes p.events)[serial t]? = some (i, some t) := by
  obtain ⟨k, hk⟩ := List.getElem?_of_mem ht
  have haccepted : p.accepted[k]? = some (some t) := by
    rw [← h.flow, List.getElem?_append_left, List.getElem?_map, hk]
    · rfl
    · obtain ⟨hlt, -⟩ := List.getElem?_eq_some_iff.1 hk
      simpa using hlt
  rw [h.serials k t haccepted]
  exact hk

/-- No task is taken twice. -/
theorem Numbered.took_unique (h : Numbered serial p) {i j : Fin w} {t t' : T} (ht : .took i (some t) ∈ p.events)
    (ht' : .took j (some t') ∈ p.events) (hserial : serial t = serial t') : i = j ∧ t = t' := by
  have hi := h.takes_serial (took_mem.1 ht)
  have hj := h.takes_serial (took_mem.1 ht')
  rw [hserial, hj] at hi
  cases hi
  exact ⟨rfl, rfl⟩

/-- The tasks taken, oldest first. -/
def tasksTaken (es : List (Event T F w)) : List T := (takes es).filterMap Prod.snd

theorem Flow.tasksTaken_nodup (h : Flow serial p) : (tasksTaken p.events).Nodup := by
  obtain ⟨tasks, htasks⟩ := h.tasksFirst
  have hserials : tasks.map serial = List.range tasks.length := by
    apply List.ext_getElem?
    intro k
    rw [List.getElem?_map]
    cases hk : tasks[k]? with
    | none =>
      have hle := List.getElem?_eq_none_iff.1 hk
      rw [List.getElem?_eq_none (by simpa using hle)]
      rfl
    | some t =>
      obtain ⟨hlt, -⟩ := List.getElem?_eq_some_iff.1 hk
      have haccepted : p.accepted[k]? = some (some t) := by
        rw [htasks, List.getElem?_append_left (by simpa using hlt), List.getElem?_map, hk]
        rfl
      rw [List.getElem?_range hlt, Option.map_some, h.serials k t haccepted]
  have hnodup : tasks.Nodup := by
    apply List.Nodup.of_map serial
    rw [hserials]
    exact List.nodup_range
  have hsplit : tasksTaken p.events ++ p.items.filterMap id = tasks := by
    have hflow := congrArg (List.filterMap id) (h.flow.trans htasks)
    simpa [tasksTaken, List.filterMap_append, List.filterMap_map, Function.comp_def, List.filterMap_replicate_of_none]
      using hflow
  rw [← hsplit] at hnodup
  exact hnodup.of_append_left

theorem Flow.accepted_of_taken (h : Flow serial p) {t : T} (ht : t ∈ tasksTaken p.events) : some t ∈ p.accepted := by
  obtain ⟨x, hx, htask⟩ := List.mem_filterMap.1 ht
  rw [← h.flow]
  exact List.mem_append_left _ (List.mem_map.2 ⟨x, hx, htask⟩)

theorem Numbered.serial_lt (h : Numbered serial p) {i : Fin w} {t : T} (ht : .took i (some t) ∈ p.events) :
    serial t < (takes p.events).length :=
  (List.getElem?_eq_some_iff.1 (h.takes_serial (took_mem.1 ht))).1

theorem Numbered.serial_head (h : Numbered serial p) {t : T} {rest : List (Option T)}
    (hitems : p.items = some t :: rest) :
    serial t = (takes p.events).length := by
  apply h.serials
  rw [← h.flow, hitems, List.getElem?_append_right (by simp)]
  simp

/-! ## The workers -/

/-- A worker at `q` has reported all its items but the one that it holds, and has taken no sentinel
unless it leaves. -/
structure Balanced (es : List (Event T F w)) (i : Fin w) (q : Pos T F) : Prop where
  gets : gets i es = dones i es + q.holds
  sentinels : sentinels i es = q.leaves

structure Accounts (p : Pool T F w) : Prop where
  workers : ∀ i, Balanced p.events i (p.pos i)
  unfinished : p.unfinished = p.items.length + ∑ i, (p.pos i).holds

theorem Accounts.start : Accounts ({} : Pool T F w) := ⟨fun _ => ⟨rfl, rfl⟩, by simp⟩

theorem forall_update {Q : Fin w → Pos T F → Prop} {pos : Fin w → Pos T F} {i : Fin w} {q : Pos T F} (hi : Q i q)
    (hj : ∀ j, j ≠ i → Q j (pos j)) : ∀ j, Q j (Function.update pos i q j) :=
  (Function.forall_update_iff pos Q).2 ⟨hi, hj⟩

theorem sum_update (g : Pos T F → ℕ) (i : Fin w) (pos : Fin w → Pos T F) (q : Pos T F) :
    ∑ j, g (Function.update pos i q j) + g (pos i) = ∑ j, g (pos j) + g q := by
  have hupdate : (fun j => g (Function.update pos i q j)) = Function.update (fun j => g (pos j)) i (g q) := by
    funext j
    exact Function.apply_update (fun _ => g) pos i q j
  rw [hupdate, Finset.sum_update_of_mem (Finset.mem_univ i)]
  have hsplit := Finset.sum_erase_add _ (fun j => g (pos j)) (Finset.mem_univ i)
  rw [Finset.sdiff_singleton_eq_erase]
  omega

theorem Accounts.accept (h : Accounts p) (x : Option T) : Accounts (p.accept x) := by
  have hunfinished := h.unfinished
  refine ⟨h.workers, ?_⟩
  simp only [Pool.accept, List.length_append, List.length_singleton]
  omega

theorem Accounts.step (h : Accounts p) (hstep : Step jobs p p') : Accounts p' := by
  have hunfinished := h.unfinished
  cases hstep with
  | @take i x rest hpos hitems =>
    obtain ⟨hgets, hsentinels⟩ := h.workers i
    have hsum := sum_update Pos.holds i p.pos (.afterTake jobs x)
    rw [hpos] at hgets hsentinels hsum
    rw [Pos.holds_afterTake, Pos.holds_getting] at hsum
    rw [hitems, List.length_cons] at hunfinished
    refine ⟨forall_update ⟨?_, ?_⟩ fun j hj => ⟨?_, ?_⟩, ?_⟩
    · simpa [Pos.holds_afterTake] using hgets
    · cases x with
      | none => simpa [Pos.afterTake, Pos.leaves] using hsentinels
      | some t => simpa [Pos.afterTake, Pos.leaves_next] using hsentinels
    · simpa [hj.symm] using (h.workers j).gets
    · simpa [hj.symm] using (h.workers j).sentinels
    · dsimp only
      omega
  | @call i t f rest ok hpos =>
    have hnew : (if ok then Pos.next t rest else .finishing true : Pos T F).holds = 1 ∧
        (if ok then Pos.next t rest else .finishing true : Pos T F).leaves = 0 := by
      cases ok with
      | true => exact ⟨Pos.holds_next t rest, Pos.leaves_next t rest⟩
      | false => exact ⟨rfl, rfl⟩
    obtain ⟨hgets, hsentinels⟩ := h.workers i
    have hsum := sum_update Pos.holds i p.pos (if ok then .next t rest else .finishing true)
    rw [hpos] at hgets hsentinels hsum
    rw [hnew.1, Pos.holds_calling] at hsum
    refine ⟨forall_update ⟨?_, ?_⟩ fun j _ => ⟨(h.workers j).gets, (h.workers j).sentinels⟩, ?_⟩
    · simpa [hnew.1] using hgets
    · simpa [hnew.2] using hsentinels
    · dsimp only
      omega
  | @done i goesOn hpos =>
    obtain ⟨hgets, hsentinels⟩ := h.workers i
    have hsum := sum_update Pos.holds i p.pos (.afterDone goesOn)
    rw [hpos] at hgets hsentinels hsum
    rw [Pos.holds_afterDone, Pos.holds_finishing] at hsum
    refine ⟨forall_update ⟨?_, ?_⟩ fun j hj => ⟨?_, (h.workers j).sentinels⟩, ?_⟩
    · simpa [Pos.holds_afterDone] using hgets
    · simpa [Pos.leaves_afterDone] using hsentinels
    · simpa [hj.symm] using (h.workers j).gets
    · dsimp only
      omega
  | sentinel _ => exact ⟨h.workers, (h.accept none).unfinished⟩

/-- A worker that reports an item as done has one unfinished item. -/
theorem Accounts.unfinished_pos (h : Accounts p) {i : Fin w} {goesOn : Bool} (hpos : p.pos i = .finishing goesOn) :
    0 < p.unfinished := by
  have hsum := sum_update Pos.holds i p.pos .getting
  have hold := h.unfinished
  rw [hpos, Pos.holds_finishing, Pos.holds_getting] at hsum
  omega

/-! ## The jobs -/

/-- A worker at `q` is in the middle of the jobs of one of its tasks, and done with its others. -/
structure Doing (serial : T → ℕ) (jobs : T → List F) (es : List (Event T F w)) (i : Fin w) (q : Pos T F) : Prop where
  calling : ∀ t f rest, q = .calling t f rest → .took i (some t) ∈ es ∧
    ∃ before, jobs t = before ++ f :: rest ∧ calls serial (serial t) es = before.map (·, true)
  ran : ∀ t, .took i (some t) ∈ es → Ran (jobs t) (calls serial (serial t) es) ∨ ∃ f rest, q = .calling t f rest

/-- The worker that took a task does its jobs in order, and nobody else does. -/
structure Jobs (serial : T → ℕ) (jobs : T → List F) (p : Pool T F w) : Prop where
  workers : ∀ i, Doing serial jobs p.events i (p.pos i)
  untaken : ∀ k, (takes p.events).length ≤ k → calls serial k p.events = []
  byTaker : ∀ i t f ok, .called i t f ok ∈ p.events → .took i (some t) ∈ p.events

theorem Jobs.start : Jobs serial jobs ({} : Pool T F w) :=
  ⟨fun _ => ⟨fun _ _ _ h => (by cases h), fun _ h => (by cases h)⟩, fun _ _ => rfl, fun _ _ _ _ h => (by cases h)⟩

/-- An event that concerns no task of the worker leaves it as it is. -/
theorem Doing.cons {es : List (Event T F w)} {i : Fin w} {q : Pos T F} {e : Event T F w}
    (h : Doing serial jobs es i q) (htook : ∀ t, e ≠ .took i (some t))
    (hcalls : ∀ t, .took i (some t) ∈ es → calls serial (serial t) (e :: es) = calls serial (serial t) es) :
    Doing serial jobs (e :: es) i q := by
  constructor
  · intro t f rest hq
    obtain ⟨ht, before, hjobs, hbefore⟩ := h.calling t f rest hq
    exact ⟨List.mem_cons_of_mem _ ht, before, hjobs, (hcalls t ht).trans hbefore⟩
  · intro t ht
    rcases List.mem_cons.1 ht with heq | ht
    · exact absurd heq.symm (htook t)
    · rw [hcalls t ht]
      exact h.ran t ht

/-- A worker between two items is done with all its tasks. -/
theorem Doing.idle {es : List (Event T F w)} {i : Fin w} {q q' : Pos T F} (h : Doing serial jobs es i q)
    (hq : ∀ t f rest, q ≠ .calling t f rest) (hq' : ∀ t f rest, q' ≠ .calling t f rest) :
    Doing serial jobs es i q' := by
  constructor
  · exact fun t f rest heq => absurd heq (hq' t f rest)
  · intro t ht
    rcases h.ran t ht with hran | ⟨f, rest, heq⟩
    · exact .inl hran
    · exact absurd heq (hq t f rest)

/-- The task that is taken next has had no jobs yet. -/
theorem Doing.take {es : List (Event T F w)} {i : Fin w} {t : T} (h : Doing serial jobs es i .getting)
    (hnone : calls serial (serial t) es = []) : Doing serial jobs (.took i (some t) :: es) i (.next t (jobs t)) := by
  constructor
  · intro u f rest hnext
    obtain ⟨rfl, hjobs⟩ := Pos.next_eq_calling hnext
    exact ⟨List.mem_cons_self, [], hjobs, hnone⟩
  · intro u hu
    rcases List.mem_cons.1 hu with heq | hu
    · cases heq
      cases hjobs : jobs t with
      | nil =>
        left
        rw [calls_took, hnone]
        exact .nil
      | cons f rest => exact .inr ⟨f, rest, rfl⟩
    · rcases h.ran u hu with hran | ⟨f, rest, heq⟩
      · exact .inl hran
      · cases heq

theorem Doing.call {es : List (Event T F w)} {i : Fin w} {t : T} {f : F} {rest : List F} {ok : Bool}
    (h : Doing serial jobs es i (.calling t f rest))
    (hunique : ∀ u, .took i (some u) ∈ es → serial u = serial t → u = t) :
    Doing serial jobs (.called i t f ok :: es) i (if ok then .next t rest else .finishing true) := by
  obtain ⟨ht, before, hjobs, hbefore⟩ := h.calling t f rest rfl
  have hcalls : calls serial (serial t) (.called i t f ok :: es) = before.map (·, true) ++ [(f, ok)] := by
    rw [calls_called_self, hbefore]
  constructor
  · intro u g gs hnext
    cases ok with
    | false => cases hnext
    | true =>
      obtain ⟨rfl, rfl⟩ := Pos.next_eq_calling hnext
      refine ⟨List.mem_cons_of_mem _ ht, before ++ [f], ?_, ?_⟩
      · rw [hjobs, List.append_assoc]
        rfl
      · rw [hcalls, List.map_append]
        rfl
  · intro u hu
    rcases List.mem_cons.1 hu with heq | hu
    · cases heq
    · by_cases hserial : serial u = serial t
      · obtain rfl := hunique u hu hserial
        rw [hcalls, hjobs]
        cases ok with
        | false => exact .inl (Ran.raised f rest).append
        | true =>
          cases rest with
          | nil => exact .inl (Ran.all [f]).append
          | cons g gs => exact .inr ⟨g, gs, rfl⟩
      · rw [calls_called_of_ne (Ne.symm hserial)]
        rcases h.ran u hu with hran | ⟨g, gs, heq⟩
        · exact .inl hran
        · cases heq
          exact absurd rfl hserial

theorem Jobs.step (h : Jobs serial jobs p) (hflow : Numbered serial p) (hstep : Step jobs p p') :
    Jobs serial jobs p' := by
  cases hstep with
  | @take i x rest hpos hitems =>
    have hi := h.workers i
    rw [hpos] at hi
    refine ⟨forall_update ?_ fun j hj => (h.workers j).cons ?_ fun _ _ => rfl, fun k hk => ?_, fun j t f ok hc => ?_⟩
    · cases x with
      | none =>
        apply Doing.idle (q := .getting) _ (fun _ _ _ => nofun) fun _ _ _ heq => by cases heq
        exact hi.cons (fun _ => nofun) fun _ _ => rfl
      | some t => exact hi.take (h.untaken _ (hflow.serial_head hitems).ge)
    · rintro t ⟨⟩
      exact hj rfl
    · rw [takes_took, List.length_append] at hk
      exact h.untaken k (Nat.le_of_add_right_le hk)
    · rcases List.mem_cons.1 hc with heq | hcalled
      · cases heq
      · exact List.mem_cons_of_mem _ (h.byTaker j t f ok hcalled)
  | @call i t f rest ok hpos =>
    have hi := h.workers i
    rw [hpos] at hi
    have ht := (hi.calling t f rest rfl).1
    refine ⟨forall_update ?_ fun j hj => (h.workers j).cons (fun _ => nofun) fun u hu => ?_, fun k hk => ?_,
      fun j u g b hc => ?_⟩
    · exact hi.call fun u hu hserial => (hflow.took_unique hu ht hserial).2
    · exact calls_called_of_ne fun hserial => hj (hflow.took_unique ht hu hserial).1.symm
    · have hlt := hflow.serial_lt ht
      rw [takes_called] at hk
      rw [calls_called_of_ne (by omega)]
      exact h.untaken k hk
    · rcases List.mem_cons.1 hc with heq | hcalled
      · cases heq
        exact List.mem_cons_of_mem _ ht
      · exact List.mem_cons_of_mem _ (h.byTaker j u g b hcalled)
  | @done i goesOn hpos =>
    have hi := h.workers i
    rw [hpos] at hi
    refine ⟨forall_update ?_ fun j _ => (h.workers j).cons (fun _ => nofun) fun _ _ => rfl, h.untaken,
      fun j u g b hc => ?_⟩
    · apply Doing.idle (q := .finishing goesOn) _ (fun _ _ _ => nofun)
      · intro t f rest heq
        cases goesOn <;> cases heq
      · exact hi.cons (fun _ => nofun) fun _ _ => rfl
    · rcases List.mem_cons.1 hc with heq | hcalled
      · cases heq
      · exact List.mem_cons_of_mem _ (h.byTaker j u g b hcalled)
  | sentinel _ => exact ⟨h.workers, h.untaken, h.byTaker⟩

theorem Jobs.accept (h : Jobs serial jobs p) (x : Option T) : Jobs serial jobs (p.accept x) :=
  ⟨h.workers, h.untaken, h.byTaker⟩

/-! ## Whole runs -/

structure Inv (serial : T → ℕ) (jobs : T → List F) (p : Pool T F w) : Prop where
  flow : Flow serial p
  accounts : Accounts p
  jobs : Jobs serial jobs p

theorem Inv.start : Inv serial jobs ({} : Pool T F w) := ⟨.start, .start, .start⟩

theorem Inv.step (h : Inv serial jobs p) (hstep : Step jobs p p') : Inv serial jobs p' :=
  ⟨h.flow.step hstep, h.accounts.step hstep, h.jobs.step h.flow.numbered hstep⟩

theorem Inv.publish (h : Inv serial jobs p) {t : T} (ht : p.Publishes serial t) :
    Inv serial jobs (p.accept (some t)) :=
  ⟨h.flow.publish ht, h.accounts.accept _, h.jobs.accept _⟩

/-- What holds whenever items are accepted, also after a sentinel. -/
structure Served (serial : T → ℕ) (jobs : T → List F) (p : Pool T F w) : Prop where
  numbered : Numbered serial p
  accounts : Accounts p
  jobs : Jobs serial jobs p

theorem Served.start : Served serial jobs ({} : Pool T F w) := ⟨.start, .start, .start⟩

theorem Served.step (h : Served serial jobs p) (hstep : Step jobs p p') : Served serial jobs p' :=
  ⟨h.numbered.step hstep, h.accounts.step hstep, h.jobs.step h.numbered hstep⟩

theorem Served.accept (h : Served serial jobs p) {t : T} (ht : serial t = p.accepted.length) :
    Served serial jobs (p.accept (some t)) :=
  ⟨h.numbered.accept fun _ heq => Option.some.inj heq ▸ ht, h.accounts.accept _, h.jobs.accept _⟩

/-- The jobs of an accepted task are done in order, up to some point. -/
theorem Inv.partly_ran (h : Inv serial jobs p) {t : T} (ht : some t ∈ p.accepted) :
    ∃ more, Ran (jobs t) (calls serial (serial t) p.events ++ more) := by
  obtain ⟨k, hk⟩ := List.getElem?_of_mem ht
  have hserial := h.flow.serials k t hk
  by_cases hlt : k < (takes p.events).length
  · have htaken := hk
    rw [← h.flow.flow, List.getElem?_append_left (by simpa using hlt), List.getElem?_map] at htaken
    obtain ⟨⟨i, x⟩, hx, rfl⟩ := Option.map_eq_some_iff.1 htaken
    have htook := took_mem.2 (List.mem_of_getElem? hx)
    rcases (h.jobs.workers i).ran t htook with hran | ⟨f, rest, hcalling⟩
    · exact ⟨[], by rwa [List.append_nil]⟩
    · obtain ⟨-, before, hjobs, hbefore⟩ := (h.jobs.workers i).calling t f rest hcalling
      refine ⟨(f :: rest).map (·, true), ?_⟩
      rw [hjobs, hbefore]
      exact (Ran.all (f :: rest)).append
  · refine ⟨(jobs t).map (·, true), ?_⟩
    rw [hserial, h.jobs.untaken k (Nat.le_of_not_lt hlt)]
    exact Ran.all (jobs t)

theorem sum_sentinels (es : List (Event T F w)) :
    ∑ i, sentinels i es = (takes es).countP fun x => x.2.isNone := by
  simp only [sentinels]
  induction takes es with
  | nil => simp
  | cons x l ih =>
    simp only [List.countP_cons, Finset.sum_add_distrib, ih]
    congr 1
    cases x.2 <;> simp

/-- Where no worker and no caller of `stop` can go on, the pool is over. -/
structure Over (serial : T → ℕ) (jobs : T → List F) (p : Pool T F w) : Prop where
  exited : ∀ i, p.pos i = .exited
  sentinel : ∀ i, sentinels i p.events = 1
  executed : ∀ t, some t ∈ p.accepted → Ran (jobs t) (calls serial (serial t) p.events)
  empty : p.items = []

/-- Each worker that exits takes one of the sentinels. -/
theorem Inv.exited_of_blocked (h : Inv serial jobs p)
    (hworkers : ∀ i, p.pos i = .exited ∨ (p.pos i = .getting ∧ p.items = []))
    (hstop : p.left = 0 ∨ p.items ≠ []) : ∀ i, p.pos i = .exited := by
  intro i
  rcases hworkers i with hexited | ⟨hgetting, hitems⟩
  · exact hexited
  exfalso
  have hleft : p.left = 0 := hstop.resolve_right (not_not_intro hitems)
  obtain ⟨tasks, htasks⟩ := h.flow.tasksFirst
  have hflow := h.flow.flow
  rw [hitems, List.append_nil, htasks, hleft, Nat.sub_zero] at hflow
  have htaken : (takes p.events).countP (fun x => x.2.isNone) = w := by
    have hcount := congrArg (List.countP Option.isNone) hflow
    simpa [List.countP_map, List.countP_append, List.countP_replicate, Function.comp_def] using hcount
  have hsum := sum_sentinels p.events
  have hlt : ∑ j, sentinels j p.events < ∑ _j : Fin w, 1 := by
    apply Finset.sum_lt_sum
    · intro j _
      rw [(h.accounts.workers j).sentinels]
      cases p.pos j with
      | finishing b => cases b <;> simp [Pos.leaves]
      | _ => simp [Pos.leaves]
    · refine ⟨i, Finset.mem_univ i, ?_⟩
      rw [(h.accounts.workers i).sentinels, hgetting]
      simp
  rw [hsum, htaken] at hlt
  simp at hlt

theorem Inv.over (h : Inv serial jobs p) (hw : 0 < w)
    (hworkers : ∀ i, p.pos i = .exited ∨ (p.pos i = .getting ∧ p.items = []))
    (hstop : p.left = 0 ∨ p.items ≠ []) : Over serial jobs p := by
  have hexited := h.exited_of_blocked hworkers hstop
  have hone : ∀ i, sentinels i p.events = 1 := fun i => by
    rw [(h.accounts.workers i).sentinels, hexited i]
    rfl
  have htaken : (takes p.events).countP (fun x => x.2.isNone) = w := by
    rw [← sum_sentinels, Finset.sum_congr rfl fun i _ => hone i]
    simp
  obtain ⟨tasks, htasks⟩ := h.flow.tasksFirst
  have hflow := h.flow.flow
  have hcount : (takes p.events).countP (fun x => x.2.isNone) + p.items.countP Option.isNone = w - p.left := by
    have hcount := congrArg (List.countP Option.isNone) (hflow.trans htasks)
    simpa [List.countP_map, List.countP_append, List.countP_replicate, Function.comp_def] using hcount
  have hempty : p.items = [] := by
    by_contra hne
    have hleft : w - p.left = w := by
      have hle : (takes p.events).countP (fun x => x.2.isNone) ≤ w - p.left := Nat.le_of_add_right_le hcount.le
      omega
    have hlast := congrArg List.getLast? (hflow.trans htasks)
    rw [hleft, List.getLast?_append_of_ne_nil _ hne, List.getLast?_append_of_ne_nil _ (by simp; omega),
      List.getLast?_replicate, if_neg hw.ne'] at hlast
    have hmem : none ∈ p.items := List.mem_of_getLast? hlast
    have hpos : 0 < p.items.countP Option.isNone := List.countP_pos_iff.2 ⟨none, hmem, rfl⟩
    omega
  refine ⟨hexited, hone, fun t ht => ?_, hempty⟩
  rw [← hflow, hempty, List.append_nil] at ht
  obtain ⟨⟨i, x⟩, hx, rfl⟩ := List.mem_map.1 ht
  rcases (h.jobs.workers i).ran t (took_mem.2 hx) with hran | ⟨f, rest, heq⟩
  · exact hran
  · rw [hexited i] at heq
    cases heq

/-! ## Runs come to an end -/

def Pos.work : Pos T F → ℕ
  | .calling _ _ rest => rest.length + 2
  | .finishing _ => 1
  | _ => 0

def itemWork (jobs : T → List F) : Option T → ℕ
  | none => 2
  | some t => (jobs t).length + 2

/-- A bound of the steps that are left when nothing is published any more. -/
def Pool.work (jobs : T → List F) (p : Pool T F w) : ℕ :=
  (p.items.map (itemWork jobs)).sum + ∑ i, (p.pos i).work + 3 * p.left

theorem Pos.work_next_lt (t : T) (fs : List F) : (Pos.next t fs).work < fs.length + 2 := by
  cases fs <;> simp [Pos.next, Pos.work]

theorem Pos.work_afterTake_lt (x : Option T) : (Pos.afterTake jobs x).work < itemWork jobs x := by
  cases x with
  | none => simp [Pos.afterTake, Pos.work, itemWork]
  | some t => exact Pos.work_next_lt t (jobs t)

/-- Every step does some of the work. -/
theorem Step.work_lt (h : Step jobs p p') : p'.work jobs < p.work jobs := by
  cases h with
  | @take i x rest hpos hitems =>
    have hsum := sum_update Pos.work i p.pos (.afterTake jobs x)
    have hlt : (Pos.afterTake jobs x).work < itemWork jobs x := Pos.work_afterTake_lt x
    have hzero : (Pos.getting : Pos T F).work = 0 := rfl
    rw [hpos] at hsum
    simp only [Pool.work, hitems, List.map_cons, List.sum_cons]
    omega
  | @call i t f rest ok hpos =>
    have hsum := sum_update Pos.work i p.pos (if ok then .next t rest else .finishing true)
    have hlt : (if ok then Pos.next t rest else .finishing true : Pos T F).work < rest.length + 2 := by
      cases ok with
      | true => exact Pos.work_next_lt t rest
      | false => simp [Pos.work]
    have hcalling : (Pos.calling t f rest).work = rest.length + 2 := rfl
    rw [hpos] at hsum
    simp only [Pool.work]
    omega
  | @done i goesOn hpos =>
    have hsum := sum_update Pos.work i p.pos (.afterDone goesOn)
    have hzero : (Pos.afterDone goesOn : Pos T F).work = 0 := by cases goesOn <;> rfl
    have hone : (Pos.finishing goesOn : Pos T F).work = 1 := rfl
    rw [hpos] at hsum
    simp only [Pool.work]
    omega
  | @sentinel k hleft =>
    simp only [Pool.work, Pool.accept, hleft, List.map_append, List.sum_append, List.map_singleton,
      List.sum_singleton, itemWork]
    omega

end Pools
