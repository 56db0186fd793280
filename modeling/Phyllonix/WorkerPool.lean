import Phyllonix.PubSubWorker
import Phyllonix.SentinelPools

/-!
# Delivery and shutdown of the worker pool

The pool of coroutines steps as an abstract pool whose workers stand at named places.
-/

namespace Phyllonix.PubSub
open Async Pools
variable {F D : Type} {maxsize : ℤ} {w : ℕ}

/-! ## The places of the coroutines -/

def finishItem : Co F D maxsize Unit := do
  let _ ← (wait .taskDone).attempt
  pure ()

/-- The rest of a pass. -/
def placeProg (subscribers : String → List F) (name : String) : Pos (Task D) F → Co F D maxsize Bool
  | .getting => workerLoop subscribers name
  | .calling task subfn rest => Prog.tryFinally
      (do
        let _ ← (callEach task name (subfn :: rest)).attempt
        pure true)
      finishItem
  | .finishing goesOn => Prog.tryFinally (pure goesOn) finishItem
  | .exited => pure false

def stopping (k : ℕ) : Co F D maxsize Bool := do
  stop k
  pure false

section Places
variable (subscribers : String → List F) (name : String)

theorem placeProg_next (task : Task D) (fns : List F) :
    (Prog.tryFinally (do
        let _ ← (callEach task name fns).attempt
        pure true) finishItem : Co F D maxsize Bool) = placeProg subscribers name (.next task fns) := by
  cases fns <;> rfl

/-- What comes after the item. -/
def gotItem : Except PoolErr (Item D) → Co F D maxsize Bool
  | .ok x => placeProg subscribers name (.afterTake (fun task => subscribers task.event) x)
  | .error e => .raise e

theorem workerLoop_eq : (workerLoop subscribers name : Co F D maxsize Bool) =
    .await (Op.get : Op F D) (gotItem subscribers name) := by
  refine congrArg (Prog.await (M := machine F D maxsize) Op.get) (funext fun r => ?_)
  cases r with
  | error e => rfl
  | ok x =>
    cases x with
    | none => rfl
    | some task => exact placeProg_next subscribers name task _

/-- What comes after a call of a handler. -/
def calledHandler (task : Task D) (rest : List F) : Except PoolErr Unit → Co F D maxsize Bool
  | .ok _ => placeProg subscribers name (.next task rest)
  | .error _ => placeProg subscribers name (.finishing true)

theorem calling_eq (task : Task D) (subfn : F) (rest : List F) :
    (placeProg subscribers name (.calling task subfn rest) : Co F D maxsize Bool) =
      .await (Op.handler subfn task name : Op F D) (calledHandler subscribers name task rest) := by
  refine congrArg (Prog.await (M := machine F D maxsize) (Op.handler subfn task name)) (funext fun r => ?_)
  cases r with
  | error e => rfl
  | ok _ => exact placeProg_next subscribers name task rest

theorem finishing_eq (goesOn : Bool) : (placeProg subscribers name (.finishing goesOn) : Co F D maxsize Bool) =
    .await (Op.taskDone : Op F D) fun _ => .ret goesOn := by
  refine congrArg (Prog.await (M := machine F D maxsize) Op.taskDone) (funext fun r => ?_)
  cases r <;> rfl

theorem stopping_succ (k : ℕ) : (stopping (k + 1) : Co F D maxsize Bool) =
    .await (Op.put SENTINEL : Op F D) fun
      | .ok _ => stopping k
      | .error e => .raise e := by
  refine congrArg (Prog.await (M := machine F D maxsize) (Op.put SENTINEL)) (funext fun r => ?_)
  cases r <;> rfl

/-- A worker in the middle of a pass goes on as it is; after the pass the loop begins again or is over. -/
theorem again_place {i : Fin w} (p : Pos (Task D) F) :
    (body subscribers (.worker i)).again (placeProg subscribers (workerName i) p : Co F D maxsize Bool) =
      placeProg subscribers (workerName i) p := by
  cases p with
  | getting => rw [placeProg, workerLoop_eq]; rfl
  | calling task subfn rest => rw [calling_eq]; rfl
  | finishing goesOn => rw [finishing_eq]; rfl
  | exited => rfl

theorem again_ret {i : Fin w} (goesOn : Bool) :
    (body subscribers (.worker i)).again (.ret goesOn : Co F D maxsize Bool) =
      placeProg subscribers (workerName i) (.afterDone goesOn) := by
  cases goesOn <;> rfl

end Places

/-! ## The pool of places -/

/-- What an answer means for the pool. -/
def event : Coroutine w × Answer (machine F D maxsize) → Option (Event (Task D) F w)
  | (.worker i, ⟨.get, .ok x⟩) => some (.took i x)
  | (.worker i, ⟨.handler subfn task _, .ok _⟩) => some (.called i task subfn true)
  | (.worker i, ⟨.handler subfn task _, .error _⟩) => some (.called i task subfn false)
  | (.worker i, ⟨.taskDone, _⟩) => some (.done i)
  | _ => none

def events (log : List (Coroutine w × Answer (machine F D maxsize))) : List (Event (Task D) F w) :=
  log.filterMap event

structure Simulates (subscribers : String → List F) (s : Pool F D maxsize w) (p : Pools.Pool (Task D) F w) :
    Prop where
  items : p.items = s.state.items
  accepted : p.accepted = s.state.accepted
  unfinished : p.unfinished = s.state.unfinished
  events : p.events = events s.log
  worker : ∀ i, s.procs (.worker i) = placeProg subscribers (workerName i) (p.pos i)
  stop : s.procs .stop = stopping p.left

abbrev PoolStep (subscribers : String → List F) : Pools.Pool (Task D) F w → Pools.Pool (Task D) F w → Prop :=
  Step fun task => subscribers task.event

section Simulation
variable {subscribers : String → List F} {s s' : Pool F D maxsize w} {p : Pools.Pool (Task D) F w}

theorem simulates_start : Simulates subscribers (startPool subscribers : Pool F D maxsize w) {} :=
  ⟨rfl, rfl, rfl, rfl, fun _ => rfl, rfl⟩

/-- Each step of a worker is a step of the pool of places. -/
theorem simulates_worker (h : Simulates subscribers s p) (hp : Accounts p) {i : Fin w} {c : Except PoolErr Unit}
    (hstep : s.step (body subscribers) (.proc (.worker i) c) = some s') :
    ∃ p', PoolStep subscribers p p' ∧ Simulates subscribers s' p' := by
  obtain ⟨o, k, r, q, hprog, hop, rfl⟩ := Loops.step_proc hstep
  rw [h.worker i] at hprog
  have hother : ∀ {f : Co F D maxsize Bool} {pos' : Pos (Task D) F},
      (body subscribers (.worker i)).again f = placeProg subscribers (workerName i) pos' → ∀ j,
      Function.update s.procs (.worker i) ((body subscribers (.worker i)).again f) (.worker j) =
        placeProg subscribers (workerName j) (Function.update p.pos i pos' j) := by
    intro f pos' hf j
    by_cases hj : j = i
    · subst hj
      rw [Function.update_self, Function.update_self, hf]
    · rw [Function.update_of_ne (by simpa using hj), Function.update_of_ne hj, h.worker j]
  cases hpos : p.pos i with
  | getting =>
    rw [hpos, placeProg, workerLoop_eq] at hprog
    cases hprog
    cases hitems : s.state.items with
    | nil => simp [Op.step, hitems] at hop
    | cons x rest =>
      simp only [Op.step, hitems, Option.some.injEq, Prod.mk.injEq] at hop
      obtain ⟨rfl, rfl⟩ := hop
      refine ⟨_, .take hpos (h.items.trans hitems), ⟨rfl, h.accepted, h.unfinished, ?_, ?_, ?_⟩⟩
      · rw [h.events]
        rfl
      · exact hother (again_place subscribers _)
      · exact h.stop
  | calling task subfn rest =>
    rw [hpos, calling_eq] at hprog
    cases hprog
    simp only [Op.step, Option.some.injEq, Prod.mk.injEq] at hop
    obtain ⟨rfl, rfl⟩ := hop
    cases c with
    | ok _ =>
      refine ⟨_, .call true hpos, ⟨h.items, h.accepted, h.unfinished, ?_, ?_, ?_⟩⟩
      · rw [h.events]
        rfl
      · exact hother (again_place subscribers _)
      · exact h.stop
    | error e =>
      refine ⟨_, .call false hpos, ⟨h.items, h.accepted, h.unfinished, ?_, ?_, ?_⟩⟩
      · rw [h.events]
        rfl
      · exact hother (again_place subscribers (.finishing true))
      · exact h.stop
  | finishing goesOn =>
    rw [hpos, finishing_eq] at hprog
    cases hprog
    have hne : s.state.unfinished ≠ 0 := by
      rw [← h.unfinished]
      exact (hp.unfinished_pos hpos).ne'
    simp only [Op.step, if_neg hne, Option.some.injEq, Prod.mk.injEq] at hop
    obtain ⟨rfl, rfl⟩ := hop
    refine ⟨_, .done hpos, ⟨h.items, h.accepted, congrArg (· - 1) h.unfinished, ?_, ?_, ?_⟩⟩
    · rw [h.events]
      rfl
    · exact hother (again_ret subscribers goesOn)
    · exact h.stop
  | exited =>
    rw [hpos] at hprog
    cases hprog

theorem simulates_stop (h : Simulates subscribers s p) {c : Except PoolErr Unit}
    (hstep : s.step (body subscribers) (.proc .stop c) = some s') :
    ∃ p', PoolStep subscribers p p' ∧ Simulates subscribers s' p' := by
  obtain ⟨o, k, r, q, hprog, hop, rfl⟩ := Loops.step_proc hstep
  rw [h.stop] at hprog
  cases hleft : p.left with
  | zero =>
    rw [hleft] at hprog
    cases hprog
  | succ m =>
    rw [hleft, stopping_succ] at hprog
    cases hprog
    simp only [Op.step] at hop
    split at hop
    · cases hop
    · cases hop
      refine ⟨_, .sentinel hleft, ⟨congrArg (· ++ [none]) h.items, congrArg (· ++ [none]) h.accepted,
        congrArg (· + 1) h.unfinished, h.events, h.worker, ?_⟩⟩
      cases m <;> rfl

theorem simulates_step (h : Simulates subscribers s p) (hp : Accounts p) {i : Coroutine w} {c : Except PoolErr Unit}
    (hstep : s.step (body subscribers) (.proc i c) = some s') :
    ∃ p', PoolStep subscribers p p' ∧ Simulates subscribers s' p' := by
  cases i with
  | worker i => exact simulates_worker h hp hstep
  | stop => exact simulates_stop h hstep

/-- A publication is accepted with its number, or the queue is full. -/
theorem simulates_publish (h : Simulates subscribers s p) (e : String × D) :
    ∃ p', (p' = p ∨ ∃ t : Task D, t.serial = p.accepted.length ∧ p' = p.accept (some t)) ∧
      Simulates subscribers { s with state := Queue.publish maxsize e.1 e.2 s.state } p' := by
  simp only [Queue.publish]
  split
  · exact ⟨p, .inl rfl, h⟩
  · refine ⟨_, .inr ⟨⟨s.state.accepted.length, e.1, e.2⟩, ?_, rfl⟩, ⟨congrArg (· ++ [_]) h.items,
      congrArg (· ++ [_]) h.accepted, congrArg (· + 1) h.unfinished, h.events, h.worker, h.stop⟩⟩
    rw [h.accepted]

/-- Every reachable pool stands at places that keep the invariant. -/
theorem reach_simulates (h : PoolReach subscribers s) :
    ∃ p, Simulates subscribers s p ∧ Inv Task.serial (fun task => subscribers task.event) p := by
  induction h with
  | start => exact ⟨{}, simulates_start, .start⟩
  | proc i c _ hstep ih =>
    obtain ⟨p, hsim, hinv⟩ := ih
    obtain ⟨p', hp', hsim'⟩ := simulates_step hsim hinv.accounts hstep
    exact ⟨p', hsim', hinv.step hp'⟩
  | env e _ hquiet ih =>
    obtain ⟨p, hsim, hinv⟩ := ih
    obtain ⟨p', rfl | ⟨t, ht, rfl⟩, hsim'⟩ := simulates_publish hsim e
    · exact ⟨p', hsim', hinv⟩
    · have hearly : none ∉ p.accepted := hsim.accepted ▸ hquiet
      exact ⟨_, hsim', hinv.publish ⟨hearly, ht⟩⟩

end Simulation

/-! ## Delivery and shutdown -/

/-- The coroutine has an item whose `task_done` is still to come. -/
def itemsHeld : Co F D maxsize Bool → ℕ
  | .await .get _ => 0
  | .await _ _ => 1
  | _ => 0

/-- At every moment: no task is taken twice, the subscribers of a task are called by the worker that
took it, in order, each at most once and none after one that raised; each item has its one call of
`task_done`, unless it is still held; and a worker loop that is over has taken a sentinel. -/
structure Delivery (subscribers : String → List F) (s : Pool F D maxsize w) : Prop where
  taken : (tasksTaken (events s.log)).Nodup
  accepted : ∀ t ∈ tasksTaken (events s.log), some t ∈ s.state.accepted
  executed : ∀ t, some t ∈ s.state.accepted → ∃ more,
    Ran (subscribers t.event) (calls Task.serial t.serial (events s.log) ++ more)
  byTaker : ∀ i t f ok, .called i t f ok ∈ events s.log → .took i (some t) ∈ events s.log
  taskDone : ∀ i, gets i (events s.log) = dones i (events s.log) + itemsHeld (s.procs (.worker i))
  survives : ∀ i, (∀ o k, s.procs (.worker i) ≠ .await o k) →
    s.procs (.worker i) = .ret false ∧ sentinels i (events s.log) = 1

/-- After `stop`, when no coroutine can go on: the loops have exited, each with one sentinel, all
accepted tasks have been executed and the queue is empty. -/
structure ShutDown (subscribers : String → List F) (s : Pool F D maxsize w) : Prop where
  exited : ∀ i, s.procs (.worker i) = .ret false
  sentinel : ∀ i, sentinels i (events s.log) = 1
  executed : ∀ t, some t ∈ s.state.accepted → Ran (subscribers t.event) (calls Task.serial t.serial (events s.log))
  empty : s.state.items = []

section Results
variable {subscribers : String → List F} {s : Pool F D maxsize w} {p : Pools.Pool (Task D) F w}

theorem itemsHeld_place (name : String) (q : Pos (Task D) F) :
    itemsHeld (placeProg subscribers name q : Co F D maxsize Bool) = q.holds := by
  cases q with
  | getting => rw [placeProg, workerLoop_eq]; rfl
  | calling task subfn rest => rw [calling_eq]; rfl
  | finishing goesOn => rw [finishing_eq]; rfl
  | exited => rfl

theorem Simulates.delivery (h : Simulates subscribers s p)
    (hp : Inv Task.serial (fun task => subscribers task.event) p) : Delivery subscribers s := by
  have haccepted := h.accepted
  refine ⟨?_, fun t ht => ?_, fun t ht => ?_, ?_, fun i => ?_, fun i hi => ?_⟩
  · rw [← h.events]
    exact hp.flow.tasksTaken_nodup
  · rw [← h.events] at ht
    rw [← haccepted]
    exact hp.flow.accepted_of_taken ht
  · rw [← h.events]
    rw [← haccepted] at ht
    exact hp.partly_ran ht
  · rw [← h.events]
    exact hp.jobs.byTaker
  · rw [← h.events, h.worker i, itemsHeld_place]
    exact (hp.accounts.workers i).gets
  · have hexited : p.pos i = .exited := by
      rw [h.worker i] at hi
      cases hpos : p.pos i with
      | getting =>
        rw [hpos, placeProg, workerLoop_eq] at hi
        exact absurd rfl (hi _ _)
      | calling task subfn rest =>
        rw [hpos, calling_eq] at hi
        exact absurd rfl (hi _ _)
      | finishing goesOn =>
        rw [hpos, finishing_eq] at hi
        exact absurd rfl (hi _ _)
      | exited => rfl
    refine ⟨by rw [h.worker i, hexited]; rfl, ?_⟩
    rw [← h.events, (hp.accounts.workers i).sentinels, hexited]
    rfl

theorem Simulates.shutDown (h : Simulates subscribers s p) (hw : 0 < w)
    (hp : Inv Task.serial (fun task => subscribers task.event) p) (hstill : s.Still (body subscribers)) :
    ShutDown subscribers s := by
  have hworkers : ∀ i, p.pos i = .exited ∨ (p.pos i = .getting ∧ p.items = []) := by
    intro i
    have hprog := h.worker i
    cases hpos : p.pos i with
    | getting =>
      rw [hpos, placeProg, workerLoop_eq] at hprog
      have hblocked := hstill.blocked hprog (.ok ())
      cases hitems : s.state.items with
      | nil => exact .inr ⟨rfl, h.items.trans hitems⟩
      | cons x rest => simp [Op.step, hitems] at hblocked
    | calling task subfn rest =>
      rw [hpos, calling_eq] at hprog
      cases hstill.blocked hprog (.ok ())
    | finishing goesOn =>
      rw [hpos, finishing_eq] at hprog
      have hblocked := hstill.blocked hprog (.ok ())
      simp only [Op.step] at hblocked
      split at hblocked <;> cases hblocked
    | exited => exact .inl rfl
  have hstop : p.left = 0 ∨ p.items ≠ [] := by
    cases hleft : p.left with
    | zero => exact .inl rfl
    | succ k =>
      right
      have hprog := h.stop
      rw [hleft, stopping_succ] at hprog
      have hblocked := hstill.blocked hprog (.ok ())
      simp only [Op.step] at hblocked
      split at hblocked
      next hfull =>
        rw [h.items]
        rintro hnil
        have hpos := hfull.1
        have hle := hfull.2
        rw [hnil] at hle
        simp at hle
        omega
      next => cases hblocked
  obtain ⟨hexited, hsentinel, hexecuted, hempty⟩ := hp.over hw hworkers hstop
  refine ⟨fun i => ?_, ?_, ?_, ?_⟩
  · rw [h.worker i, hexited i]
    rfl
  · rw [← h.events]
    exact hsentinel
  · rw [← h.events, ← h.accepted]
    exact hexecuted
  · rw [← h.items]
    exact hempty

end Results

/-- In every run of a pool, delivery; and once `stop` has been called, nothing is published any more
and no step is left, the shutdown. -/
theorem pool_delivers {subscribers : String → List F} (hw : 0 < w) {s : Pool F D maxsize w}
    (hreach : PoolReach subscribers s) :
    Delivery subscribers s ∧ (s.Still (body subscribers) → ShutDown subscribers s) := by
  obtain ⟨p, hsim, hinv⟩ := reach_simulates hreach
  exact ⟨hsim.delivery hinv, hsim.shutDown hw hinv⟩

/-- When nothing is published any more, the coroutines come to a point where none of them can go on. -/
theorem pool_comes_to_rest {subscribers : String → List F} {s : Pool F D maxsize w}
    (hreach : PoolReach subscribers s) :
    ∃ bound, ∀ k s', s.Runs (body subscribers) k s' → k ≤ bound := by
  obtain ⟨p, hsim, hinv⟩ := reach_simulates hreach
  have hwork : ∀ k s', s.Runs (body subscribers) k s' → ∃ p', Simulates subscribers s' p' ∧
      Inv Task.serial (fun task => subscribers task.event) p' ∧
      p'.work (fun task => subscribers task.event) + k ≤ p.work fun task => subscribers task.event := by
    intro k s' hruns
    induction hruns with
    | nil => exact ⟨p, hsim, hinv, le_rfl⟩
    | step i c _ hstep ih =>
      obtain ⟨p₁, hsim₁, hinv₁, hle⟩ := ih
      obtain ⟨p₂, hp₂, hsim₂⟩ := simulates_step hsim₁ hinv₁.accounts hstep
      have hlt := hp₂.work_lt
      exact ⟨p₂, hsim₂, hinv₁.step hp₂, by omega⟩
  refine ⟨p.work fun task => subscribers task.event, fun k s' hruns => ?_⟩
  obtain ⟨p', -, -, hle⟩ := hwork k s' hruns
  omega

instance (e : String × D) (q : Queue D) : Decidable (publishesFirst e q) :=
  decidable_of_iff (q.accepted.all Option.isSome = true) (by
    rw [publishesFirst, List.all_eq_true]
    constructor
    · exact fun h hnone => by cases h _ hnone
    · intro h x hx
      cases x with
      | none => exact absurd hx h
      | some _ => rfl)

def ended : Co F D maxsize Bool → Bool
  | .await _ _ => false
  | _ => true

theorem still_of_ended {subscribers : String → List F} {s : Pool F D maxsize w}
    (h : ∀ i, ended (s.procs i) = true) : s.Still (body subscribers) := by
  intro i c
  have hi := h i
  rw [Loops.step]
  split
  next hprog =>
    rw [hprog] at hi
    cases hi
  next => rfl

/-- Two workers; the handler of the first task raises, and `stop` waits once for room in the queue. -/
def twoTasks : List (LoopLabel (machine Handler ℕ 2) (Coroutine 2)) :=
  [.env ("order.paid", 7), .env ("order_confirm_intent.created", 8), .proc (.worker 0) (.ok ()), .proc .stop (.ok ()),
    .proc (.worker 1) (.ok ()), .proc (.worker 0) (.error (.handler "TypeError")), .proc (.worker 0) (.ok ()),
    .proc .stop (.ok ()), .proc (.worker 0) (.ok ()), .proc (.worker 0) (.ok ()), .proc (.worker 1) (.ok ()),
    .proc (.worker 1) (.ok ()), .proc (.worker 1) (.ok ()), .proc (.worker 1) (.ok ())]

theorem pool_delivers_two_tasks : ∃ s : Pool Handler ℕ 2 2,
    PoolReach (registerSubscribers fun _ => []) s ∧ s.state.accepted.length = 4 ∧
      s.Still (body (registerSubscribers fun _ => [])) ∧
      Delivery (registerSubscribers fun _ => []) s ∧ ShutDown (registerSubscribers fun _ => []) s := by
  have hexec : ((startPool (registerSubscribers fun _ => [])).exec (body (registerSubscribers fun _ => []))
      publishesFirst twoTasks).map (fun s => (s.state.accepted.length,
        ended (s.procs (.worker 0)), ended (s.procs (.worker 1)), ended (s.procs .stop))) =
          some (4, true, true, true) := by decide +kernel
  obtain ⟨s, hs, hend⟩ := Option.map_eq_some_iff.mp hexec
  simp only [Prod.mk.injEq] at hend
  obtain ⟨hlength, h0, h1, hstop⟩ := hend
  have hreach : PoolReach (registerSubscribers fun _ => []) s := Loops.Reach.start.exec hs
  have hstill : s.Still (body (registerSubscribers fun _ => [])) := by
    apply still_of_ended
    intro i
    match i with
    | .worker 0 => exact h0
    | .worker 1 => exact h1
    | .stop => exact hstop
  obtain ⟨hdelivery, hshutdown⟩ := pool_delivers (by decide) hreach
  exact ⟨s, hreach, hlength, hstill, hdelivery, hshutdown hstill⟩

end Phyllonix.PubSub
