import Phyllonix.FixedWindow

/-!
# One digest for two scripts

The digest that a process keeps belongs to the script that was loaded first. A call that is
given the digest of the other script, or one that the server has forgotten, is not answered
as `EVAL` would answer it.
-/

namespace Phyllonix.RateLimiting
open Redis
variable {P : Type} {a : Answered P}

/-- The server ran the script of the strategy, and the verdict is the one of the branch with `EVAL`. -/
structure AsEval (a : Answered P) : Prop where
  script : executed a.before.server.scripts a.call.strategy.script a.sha = some a.call.strategy.script
  verdict : a.verdict = ((a.call.rest (a.call.argv a.meets) none).at a.meets a.before).1

/-- The process had no digest or that of the own script, and the server still knows the script. -/
def OwnDigest (a : Answered P) : Prop :=
  (a.found = none ∨ a.found = some a.call.strategy.script) ∧
    a.before.server.scripts a.call.strategy.script = true

/-- The server is reachable whenever a call asks it. -/
def Reaches : Event P → Prop
  | .load _ _ e => e.loading = .up ∧ e.evaluating = .up
  | _ => True

/-- What loading a script leaves to a call. -/
structure Loaded (q : Pending P) : Prop where
  up : q.meets.evaluating = .up
  sha : q.sha = some (q.found.getD q.call.strategy.script)

structure Answers (a : Answered P) : Prop where
  loaded : Loaded a.toPending
  verdict : a.verdict = ((a.call.rest (a.call.argv a.meets) a.sha).at a.meets a.before).1

section Evaluation
variable {call : Call} {argv : List Value} {e : Meets} {s : Limiter}

theorem eval_known (script : LuaScript) (keys argv : List Value) (hup : e.evaluating = .up)
    (hk : s.server.scripts script = true) :
    (evaluate script none keys argv).at e s = (evaluate script (some script) keys argv).at e s := by
  have hsame : (fun k => decide (k = script) || s.server.scripts k) = s.server.scripts := by
    funext k
    by_cases h : k = script
    · simp [h, hk]
    · simp [h]
  have heval : (evaluate script none keys argv).at e s = (runScript script keys argv).at e
      { s with server := { s.server with scripts := fun k => k = script || s.server.scripts k } } := by
    change (eval script keys argv).at e s = _
    unfold eval
    rw [at_read, hup]
    rfl
  have hsha : (evaluate script (some script) keys argv).at e s = (runScript script keys argv).at e s := by
    change (evalsha script keys argv).at e s = _
    unfold evalsha
    rw [at_read, hup, exchange_up, at_get, if_pos hk]
  rw [heval, hsha, hsame]

theorem rest_congr {sha sha' : Option LuaScript}
    (h : (evaluate call.strategy.script sha [.text call.key] argv).at e s =
      (evaluate call.strategy.script sha' [.text call.key] argv).at e s) :
    (call.rest argv sha).at e s = (call.rest argv sha').at e s := by
  unfold Call.rest
  cases hr : (evaluate call.strategy.script sha' [.text call.key] argv).at e s with
  | mk r s' =>
    rw [hr] at h
    cases r with
    | error err => rw [at_try_error (at_bind_error h), at_try_error (at_bind_error hr)]
    | ok res =>
      cases hi : (call.interpret res).at e s' with
      | mk v s'' =>
        cases v with
        | error err =>
          rw [at_try_error ((at_bind_ok h).trans hi), at_try_error ((at_bind_ok hr).trans hi)]
        | ok v => rw [at_try_ok ((at_bind_ok h).trans hi), at_try_ok ((at_bind_ok hr).trans hi)]

end Evaluation

theorem Answers.asEval_iff (h : Answers a) : AsEval a ↔ OwnDigest a := by
  have hsha := h.loaded.sha
  constructor
  · intro hf
    have hscript := hf.script
    rw [hsha, executed] at hscript
    split at hscript
    · rename_i hk
      have hown := Option.some.inj hscript
      rw [hown] at hk
      refine ⟨?_, hk⟩
      cases hfound : a.found with
      | none => exact .inl rfl
      | some k =>
        rw [hfound] at hown
        exact .inr (congrArg some hown)
    · cases hscript
  · intro hd
    obtain ⟨hfound, hk⟩ := hd
    have hown : a.sha = some a.call.strategy.script := by
      rw [hsha]
      rcases hfound with hfound | hfound <;> rw [hfound] <;> rfl
    constructor
    · rw [hown, executed, if_pos hk]
    · rw [h.verdict, hown]
      exact congrArg Prod.fst (rest_congr (eval_known _ _ _ h.loaded.up hk)).symm

section Runs
variable [DecidableEq P] {c₀ c c' : Cluster P}

structure Loading (c : Cluster P) : Prop where
  pending : ∀ q ∈ c.pending, Loaded q
  answered : ∀ a ∈ c.answered, Answers a

theorem Loading.step (h : Loading c) {ev : Event P} (hev : Reaches ev) (hstep : c.step ev = some c') :
    Loading c' := by
  cases ev with
  | load p call e =>
    obtain ⟨sha, s, hload, -, -, -, hsha⟩ := call.load_at e (c.limiter p)
    rw [Cluster.step, hload] at hstep
    obtain rfl := Option.some.inj hstep
    refine ⟨fun q hq => ?_, h.answered⟩
    rcases List.mem_append.mp hq with hq | hq
    · exact h.pending q hq
    · obtain rfl := List.mem_singleton.mp hq
      exact ⟨hev.2, hsha hev.1⟩
  | answer j =>
    obtain ⟨q, hq, hstep⟩ := Option.map_eq_some_iff.mp hstep
    subst hstep
    refine ⟨fun q' hq' => h.pending q' (List.mem_of_mem_eraseIdx hq'), fun a ha => ?_⟩
    rcases List.mem_append.mp ha with ha | ha
    · exact h.answered a ha
    · obtain rfl := List.mem_singleton.mp ha
      exact ⟨h.pending q (List.mem_of_getElem? hq), rfl⟩
  | server s =>
    obtain rfl := Option.some.inj hstep
    exact ⟨h.pending, h.answered⟩

/-- A call is answered as `EVAL` would answer it if and only if it has the digest of its own
script and the server knows that script. -/
theorem evalsha_asEval_iff (hpending : c₀.pending = []) (hanswered : c₀.answered = [])
    {evs : List (Event P)} (hevs : ∀ ev ∈ evs, Reaches ev) (hplay : c₀.play evs = some c) :
    ∀ a ∈ c.answered, AsEval a ↔ OwnDigest a := by
  have hstart : Loading c₀ := ⟨by simp [hpending], by simp [hanswered]⟩
  have hc : Loading c := Cluster.play_keeps (fun _ _ _ h hev hs => h.step hev hs) hstart hevs hplay
  exact fun a ha => (hc.answered a ha).asEval_iff

end Runs

/-- One process uses both strategies, the fixed window first. -/
def bothStrategies : List (Event Unit) :=
  [.load () ⟨.fixedWindow, "rl:ip:10.0.0.1:/products", 5, 60⟩ (meetsAt 100), .answer 0,
    .load () ⟨.slidingWindow, "rl:ip:10.0.0.1:/orders", 5, 60⟩ (meetsAt 101), .answer 0]

theorem bothStrategies_reaches : ∀ ev ∈ bothStrategies, Reaches ev := by
  simp [bothStrategies, Reaches, meetsAt]

theorem evalsha_asEval_bothStrategies : ∃ c : Cluster Unit,
    Cluster.play { server := freshServer } bothStrategies = some c ∧
      ∀ a ∈ c.answered, AsEval a ↔ OwnDigest a := by
  have hplay : (Cluster.play { server := freshServer } bothStrategies).isSome = true := by
    decide +kernel
  obtain ⟨c, hc⟩ := Option.isSome_iff_exists.mp hplay
  exact ⟨c, hc, evalsha_asEval_iff rfl rfl bothStrategies_reaches hc⟩

/-- The sliding-window call is answered by the fixed-window script. -/
theorem sliding_runs_fixed : ¬∀ (evs : List (Event Unit)) (c : Cluster Unit), (∀ ev ∈ evs, Reaches ev) →
    Cluster.play { server := freshServer } evs = some c → ∀ a ∈ c.answered, AsEval a := by
  intro hall
  have hplay : (Cluster.play { server := freshServer } bothStrategies).map
      (fun c => c.answered.map fun a => (a.call.strategy.script,
        executed a.before.server.scripts a.call.strategy.script a.sha)) =
      some [(.fixedWindowIncrAndPexpire, some .fixedWindowIncrAndPexpire),
        (.slidingWindow, some .fixedWindowIncrAndPexpire)] := by
    decide +kernel
  obtain ⟨c, hc, hanswered⟩ := Option.map_eq_some_iff.mp hplay
  have hmem : (LuaScript.slidingWindow, some LuaScript.fixedWindowIncrAndPexpire) ∈
      c.answered.map fun a => (a.call.strategy.script,
        executed a.before.server.scripts a.call.strategy.script a.sha) := by
    rw [hanswered]
    simp
  obtain ⟨a, ha, hpair⟩ := List.mem_map.mp hmem
  obtain ⟨hown, hran⟩ := Prod.mk.inj hpair
  have hscript := (hall _ _ bothStrategies_reaches hc a ha).script
  rw [hran, hown] at hscript
  cases hscript

end Phyllonix.RateLimiting
