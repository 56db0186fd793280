import Phyllonix.WorkerPool

/-!
# Handlers of one event

The worker calls the subscribers of an event one after the other, and an exception of one of them
leaves the loop over the others.
-/

namespace Phyllonix.PubSub
open Async Pools

/-! ## Subscriptions -/

section Subscriptions
variable {F : Type} [DecidableEq F] {subscribers : String → List F} {event e : String} {fn f : F}

/-- The handlers after calls of `subscribe`, each with an event and a function. -/
def subscribeAll (subscriptions : List (String × F)) : String → List F :=
  subscriptions.foldl (fun subscribers x => subscribe subscribers x.1 x.2) fun _ => []

theorem mem_subscribe : f ∈ subscribe subscribers event fn e ↔ f ∈ subscribers e ∨ (event, fn) = (e, f) := by
  by_cases he : e = event
  · subst he
    rw [subscribe]
    split
    next hmem =>
      refine ⟨.inl, fun h => h.elim id fun heq => ?_⟩
      cases heq
      exact hmem
    next => simp [eq_comm]
  · have hsame : subscribe subscribers event fn e = subscribers e := by
      rw [subscribe]
      split
      · rfl
      · exact Function.update_of_ne he ..
    simp [hsame, Ne.symm he]

theorem nodup_subscribe (h : (subscribers e).Nodup) : (subscribe subscribers event fn e).Nodup := by
  rw [subscribe]
  split
  next => exact h
  next hnew =>
    by_cases he : e = event
    · subst he
      rw [Function.update_self]
      exact List.nodup_append.2 ⟨h, List.nodup_singleton fn, fun a ha b hb hab => hnew (by simp_all)⟩
    · rwa [Function.update_of_ne he]

theorem mem_foldl_subscribe (subscriptions : List (String × F)) :
    f ∈ subscriptions.foldl (fun subscribers x => subscribe subscribers x.1 x.2) subscribers e ↔
      f ∈ subscribers e ∨ (e, f) ∈ subscriptions := by
  induction subscriptions generalizing subscribers with
  | nil => simp
  | cons x subscriptions ih =>
    rw [List.foldl_cons, ih, mem_subscribe, List.mem_cons, or_assoc, @eq_comm _ (e, f) x]

theorem nodup_foldl_subscribe (subscriptions : List (String × F)) (h : ∀ e, (subscribers e).Nodup) :
    (subscriptions.foldl (fun subscribers x => subscribe subscribers x.1 x.2) subscribers e).Nodup := by
  induction subscriptions generalizing subscribers with
  | nil => exact h e
  | cons x subscriptions ih => exact ih fun e => nodup_subscribe (h e)

theorem mem_subscribeAll {subscriptions : List (String × F)} :
    f ∈ subscribeAll subscriptions e ↔ (e, f) ∈ subscriptions := by
  rw [subscribeAll, mem_foldl_subscribe]
  simp

theorem nodup_subscribeAll (subscriptions : List (String × F)) : (subscribeAll subscriptions e).Nodup :=
  nodup_foldl_subscribe subscriptions fun _ => List.nodup_nil

/-- Of an initial part of a list without repetitions all elements occur once only if it is the list. -/
theorem count_prefix_iff {called fns : List F} (hfns : fns.Nodup) (h : called <+: fns) :
    (∀ f ∈ fns, called.count f = 1) ↔ called = fns := by
  constructor
  · intro hall
    have hsub : fns ⊆ called := fun f hf => List.one_le_count_iff.1 (hall f hf).ge
    exact h.eq_of_length_le (hfns.subperm hsub).length_le
  · rintro rfl f hf
    exact List.count_eq_one_of_mem hfns hf

end Subscriptions

/-! ## Calls -/

section Calls
variable {F D : Type} {maxsize : ℤ} {w : ℕ}

/-- The handler that a worker calls for item number `serial`, with the item. -/
def invocation (serial : ℕ) : Coroutine w × Answer (machine F D maxsize) → Option (F × Task D)
  | (.worker _, ⟨.handler subfn task _, _⟩) => if task.serial = serial then some (subfn, task) else none
  | _ => none

/-- The calls of handlers for item number `serial`, oldest first. -/
def invoked (serial : ℕ) (log : List (Coroutine w × Answer (machine F D maxsize))) : List (F × Task D) :=
  (log.filterMap (invocation serial)).reverse

/-- Which handlers raise on which items. -/
def Follows (raises : Task D → F → Prop) (log : List (Coroutine w × Answer (machine F D maxsize))) : Prop :=
  ∀ i subfn task name r, (i, ⟨.handler subfn task name, r⟩) ∈ log → ((∃ e, r = .error e) ↔ raises task subfn)

/-- No worker is calling a handler with the item. -/
def Through (s : Pool F D maxsize w) (task : Task D) : Prop :=
  ∀ i subfn name k, s.procs (.worker i) ≠ .await (Op.handler subfn task name : Op F D) k

/-- Every handler that was subscribed to the item's event has been called once, with the item. -/
structure Isolated [DecidableEq F] (subscriptions : List (String × F)) (task : Task D)
    (log : List (Coroutine w × Answer (machine F D maxsize))) : Prop where
  once : ∀ f, (task.event, f) ∈ subscriptions → ((invoked task.serial log).map Prod.fst).count f = 1
  data : ∀ call ∈ invoked task.serial log, call.2 = task

variable {log : List (Coroutine w × Answer (machine F D maxsize))} {serial : ℕ}

theorem map_invoked : (invoked serial log).map Prod.fst = (calls Task.serial serial (events log)).map Prod.fst := by
  rw [invoked, calls, events, List.filterMap_filterMap, List.map_reverse, List.map_reverse, List.map_filterMap,
    List.map_filterMap]
  congr 2
  funext x
  obtain ⟨i, o, r⟩ := x
  cases i with
  | stop => rfl
  | worker i =>
    cases o with
    | handler subfn task name => cases r <;> by_cases h : task.serial = serial <;> simp [invocation, event, h]
    | get => cases r <;> rfl
    | put item => rfl
    | taskDone => rfl

theorem mem_invoked {f : F} {t : Task D} (h : (f, t) ∈ invoked serial log) :
    t.serial = serial ∧ ∃ i ok, .called i t f ok ∈ events log := by
  obtain ⟨⟨i, o, r⟩, hmem, hcall⟩ := List.mem_filterMap.1 (List.mem_reverse.1 h)
  cases i with
  | stop => cases hcall
  | worker i =>
    cases o with
    | handler subfn task name =>
      rw [invocation, Option.ite_none_right_eq_some] at hcall
      obtain ⟨hserial, heq⟩ := hcall
      cases heq
      refine ⟨hserial, i, ?_⟩
      cases r with
      | ok _ => exact ⟨true, List.mem_filterMap.2 ⟨_, hmem, rfl⟩⟩
      | error _ => exact ⟨false, List.mem_filterMap.2 ⟨_, hmem, rfl⟩⟩
    | get => cases hcall
    | put item => cases hcall
    | taskDone => cases hcall

theorem mem_calls {c : F × Bool} (h : c ∈ calls Task.serial serial (events log)) :
    ∃ i t, t.serial = serial ∧ .called i t c.1 c.2 ∈ events log := by
  obtain ⟨e, he, hcall⟩ := List.mem_filterMap.1 (List.mem_reverse.1 h)
  cases e with
  | called i t f ok =>
    rw [Option.ite_none_right_eq_some] at hcall
    obtain ⟨hserial, heq⟩ := hcall
    cases heq
    exact ⟨i, t, hserial, he⟩
  | took i x => cases hcall
  | done i => cases hcall

theorem Follows.called {raises : Task D → F → Prop} (h : Follows raises log) {i : Fin w} {t : Task D} {f : F}
    {ok : Bool} (hcalled : .called i t f ok ∈ events log) : ok = false ↔ raises t f := by
  obtain ⟨⟨j, o, r⟩, hmem, hevent⟩ := List.mem_filterMap.1 hcalled
  cases j with
  | stop => cases hevent
  | worker j =>
    cases o with
    | handler subfn task name =>
      have hraises := h _ _ _ _ _ hmem
      cases r with
      | ok _ =>
        cases hevent
        rw [← hraises]
        simp
      | error e =>
        cases hevent
        rw [← hraises]
        simp
    | get => cases r <;> cases hevent
    | put item => cases hevent
    | taskDone => cases hevent

end Calls

/-! ## Runs -/

section Runs
variable {F D : Type} {maxsize : ℤ} {w : ℕ} {subscribers : String → List F} {s : Pool F D maxsize w}

/-- Runs of the pool in which items are published at any time. -/
abbrev ServedReach (subscribers : String → List F) (s : Pool F D maxsize w) : Prop :=
  Loops.Reach (body subscribers) (fun _ _ => True) (startPool subscribers) s

theorem reach_served (h : ServedReach subscribers s) :
    ∃ p, Simulates subscribers s p ∧ Served Task.serial (fun task => subscribers task.event) p := by
  induction h with
  | start => exact ⟨{}, simulates_start, .start⟩
  | proc i c _ hstep ih =>
    obtain ⟨p, hsim, hserved⟩ := ih
    obtain ⟨p', hp', hsim'⟩ := simulates_step hsim hserved.accounts hstep
    exact ⟨p', hsim', hserved.step hp'⟩
  | env e _ _ ih =>
    obtain ⟨p, hsim, hserved⟩ := ih
    obtain ⟨p', rfl | ⟨t, ht, rfl⟩, hsim'⟩ := simulates_publish hsim e
    · exact ⟨p', hsim', hserved⟩
    · exact ⟨_, hsim', hserved.accept ht⟩

/-- The handlers of an item that a worker has taken and is through with have run, up to the first that raised. -/
theorem ran_of_through (h : ServedReach subscribers s) {t : Task D} {i : Fin w}
    (htook : (.worker i, ⟨.get, .ok (some t)⟩) ∈ s.log) (hthrough : Through s t) :
    Ran (subscribers t.event) (calls Task.serial t.serial (events s.log)) ∧
      ∀ j t' f ok, t'.serial = t.serial → .called j t' f ok ∈ events s.log → t' = t := by
  obtain ⟨p, hsim, hserved⟩ := reach_served h
  have hevent : .took i (some t) ∈ p.events := by
    rw [hsim.events]
    exact List.mem_filterMap.2 ⟨_, htook, rfl⟩
  rw [← hsim.events]
  constructor
  · rcases (hserved.jobs.workers i).ran t hevent with hran | ⟨f, rest, hpos⟩
    · exact hran
    · have hprog := hsim.worker i
      rw [hpos, calling_eq] at hprog
      exact absurd hprog (hthrough i f _ _)
  · intro j t' f ok hserial hcalled
    exact (hserved.numbered.took_unique (hserved.jobs.byTaker j t' f ok hcalled) hevent hserial).2

end Runs

/-- The subscribers of an item are isolated just when none of them but the last one raises. -/
theorem subscribers_isolated_iff {F D : Type} [DecidableEq F] {maxsize : ℤ} {w : ℕ}
    (subscriptions : List (String × F)) (raises : Task D → F → Prop) {s : Pool F D maxsize w}
    (hreach : ServedReach (subscribeAll subscriptions) s) (hraises : Follows raises s.log) {i : Fin w} {t : Task D}
    (htook : (.worker i, ⟨.get, .ok (some t)⟩) ∈ s.log) (hthrough : Through s t) :
    Isolated subscriptions t s.log ↔ ∀ f ∈ (subscribeAll subscriptions t.event).dropLast, ¬raises t f := by
  obtain ⟨hran, hsame⟩ := ran_of_through hreach htook hthrough
  have hflags : ∀ c ∈ calls Task.serial t.serial (events s.log), c.2 = false ↔ raises t c.1 := by
    intro c hc
    obtain ⟨j, t', hserial, hcalled⟩ := mem_calls hc
    obtain rfl := hsame j t' c.1 c.2 hserial hcalled
    exact hraises.called hcalled
  have hdata : ∀ call ∈ invoked t.serial s.log, call.2 = t := by
    intro call hcall
    obtain ⟨hserial, j, ok, hcalled⟩ := mem_invoked hcall
    exact hsame j call.2 call.1 ok hserial hcalled
  have hcount := count_prefix_iff (nodup_subscribeAll subscriptions) hran.prefix
  rw [← hran.all_iff hflags, ← hcount, ← map_invoked]
  constructor
  · exact fun h f hf => h.once f (mem_subscribeAll.1 hf)
  · exact fun h => ⟨fun f hf => h f (mem_subscribeAll.2 hf), hdata⟩


/-! ## Two subscribers of an upload -/

def imageUploaded : Task ℕ := ⟨0, "image_uploaded", 7⟩

def imageSubscriptions : List (String × String) :=
  [("image_uploaded", "thumbgen"), ("image_uploaded", "notify_admin")]

/-- The item is published, and the one worker takes its steps, which end as listed. -/
def oneImage (choices : List (Except PoolErr Unit)) : Option (Pool String ℕ 1000 1) :=
  (startPool (subscribeAll imageSubscriptions)).exec (body (subscribeAll imageSubscriptions)) (fun _ _ => True)
    (.env ("image_uploaded", 7) :: choices.map (.proc (.worker 0)))

/-- The worker waits for the next item. -/
theorem through_of_waiting {F D : Type} {maxsize : ℤ} {subscribers : String → List F} {s : Pool F D maxsize 1}
    {name : String} (h : s.procs (.worker 0) = workerLoop subscribers name) (t : Task D) : Through s t := by
  intro i subfn name k
  rw [Subsingleton.elim i 0, h, workerLoop_eq]
  intro heq
  cases heq

theorem subscribers_isolated_iff_last_raises : ∃ s : Pool String ℕ 1000 1,
    ServedReach (subscribeAll imageSubscriptions) s ∧ Follows (fun _ f => f = "notify_admin") s.log ∧
      Isolated imageSubscriptions imageUploaded s.log := by
  have hexec : (oneImage [.ok (), .ok (), .error (.handler "SMTPException"), .ok ()]).map
      (fun s => (s.log, s.procs (.worker 0))) = some
    ([(.worker 0, ⟨.taskDone, .ok ()⟩),
      (.worker 0, ⟨.handler "notify_admin" imageUploaded "Worker:1", .error (.handler "SMTPException")⟩),
      (.worker 0, ⟨.handler "thumbgen" imageUploaded "Worker:1", .ok ()⟩),
      (.worker 0, ⟨.get, .ok (some imageUploaded)⟩)], workerLoop (subscribeAll imageSubscriptions) "Worker:1") := by
    rfl
  obtain ⟨s, hs, hend⟩ := Option.map_eq_some_iff.1 hexec
  obtain ⟨hlog, hprog⟩ := Prod.mk.inj hend
  have hreach : ServedReach (subscribeAll imageSubscriptions) s := Loops.Reach.start.exec hs
  have hfollows : Follows (fun _ f => f = "notify_admin") s.log := by
    intro i subfn task name r hmem
    rw [hlog] at hmem
    simp only [List.mem_cons, List.not_mem_nil, or_false, Prod.mk.injEq, Answer.mk.injEq] at hmem
    rcases hmem with ⟨-, h, -⟩ | ⟨-, h, hr⟩ | ⟨-, h, hr⟩ | ⟨-, h, -⟩
    · cases h
    · cases h
      cases hr
      simp
    · cases h
      cases hr
      simp
    · cases h
  refine ⟨s, hreach, hfollows, (subscribers_isolated_iff imageSubscriptions _ hreach hfollows (i := 0) ?_
    (through_of_waiting hprog imageUploaded)).2 (by decide)⟩
  rw [hlog]
  simp

/-- The first handler of an item raises, and the second one is never called. -/
theorem subscribers_isolated_false : ∃ s : Pool String ℕ 1000 1,
    ServedReach (subscribeAll imageSubscriptions) s ∧ Follows (fun _ f => f = "thumbgen") s.log ∧
      (.worker 0, ⟨.get, .ok (some imageUploaded)⟩) ∈ s.log ∧ Through s imageUploaded ∧
      ("image_uploaded", "notify_admin") ∈ imageSubscriptions ∧
      invoked 0 s.log = [("thumbgen", imageUploaded)] ∧ ¬Isolated imageSubscriptions imageUploaded s.log := by
  have hexec : (oneImage [.ok (), .error (.handler "OSError"), .ok ()]).map
      (fun s => (s.log, s.procs (.worker 0))) = some
    ([(.worker 0, ⟨.taskDone, .ok ()⟩),
      (.worker 0, ⟨.handler "thumbgen" imageUploaded "Worker:1", .error (.handler "OSError")⟩),
      (.worker 0, ⟨.get, .ok (some imageUploaded)⟩)], workerLoop (subscribeAll imageSubscriptions) "Worker:1") := by
    rfl
  obtain ⟨s, hs, hend⟩ := Option.map_eq_some_iff.1 hexec
  obtain ⟨hlog, hprog⟩ := Prod.mk.inj hend
  have hinvoked : invoked 0 s.log = [("thumbgen", imageUploaded)] := by
    rw [hlog]
    rfl
  refine ⟨s, Loops.Reach.start.exec hs, ?_, by rw [hlog]; simp, through_of_waiting hprog imageUploaded, by decide,
    hinvoked, fun h => ?_⟩
  · intro i subfn task name r hmem
    rw [hlog] at hmem
    simp only [List.mem_cons, List.not_mem_nil, or_false, Prod.mk.injEq, Answer.mk.injEq] at hmem
    rcases hmem with ⟨-, h, -⟩ | ⟨-, h, hr⟩ | ⟨-, h, -⟩
    · cases h
    · cases h
      cases hr
      simp
    · cases h
  · have hone := h.once "notify_admin" (by decide)
    rw [show imageUploaded.serial = 0 from rfl, hinvoked] at hone
    cases hone

end Phyllonix.PubSub
