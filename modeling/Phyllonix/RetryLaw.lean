import Phyllonix.RetryLoops

/-!
# The law of the two retry loops

While the breaker stays closed both loops take their outcomes by the same law. One attempt
either ends the call with the outcome it was given or leaves a closed breaker and a pause,
and the loops are followed by induction on the attempts that are left.
-/

namespace Phyllonix.Circuit
open Retry
variable {T α β E : Type}

def Script.transaction (s : Script T α E) (i : ℕ) : Except E α :=
  match s.fn i with
  | .error exc => .error exc
  | .ok result =>
    match s.commit i with
    | .error exc => .error exc
    | .ok () => .ok result

namespace RetryPolicy
variable (policy : RetryPolicy E)

structure Sane : Prop where
  attempts_pos : 1 ≤ policy.attempts
  baseDelay_nonneg : 0 ≤ policy.baseDelay
  factor_nonneg : 0 ≤ policy.factor
  maxDelay_nonneg : 0 ≤ policy.maxDelay
  jitter_nonneg : 0 ≤ policy.jitter
  jitter_le_one : policy.jitter ≤ 1

/-- A recoverable exception. -/
def Retries (kind : E → Exn) : Except E α → Prop
  | .ok _ => False
  | .error exc => (kind exc).isCancelledError = false ∧ policy.retryable kind exc = true

theorem retries_default (h : policy.ifRetryable = none) {kind : E → Exn} {exc : E} :
    policy.Retries kind (.error exc : Except E α) ↔ isRecoverableException (kind exc) = true := by
  rw [Retries, retryable, h]
  refine ⟨And.right, fun hrec => ⟨?_, hrec⟩⟩
  by_contra hcancel
  rw [Bool.not_eq_false] at hcancel
  simp [isRecoverableException, hcancel] at hrec

/-- What the pause after attempt `i` may be. -/
def Pauses (i : ℕ) (q : ℚ) : Prop :=
  q ∈ Set.Icc ((1 - policy.jitter) * policy.delay i) ((1 + policy.jitter) * policy.delay i)

end RetryPolicy

/-- A wrapper ends with `outcome`. -/
def finish (outcome : Except E α) (w : World T) : EStateM.Result (Raised E) (World T) α :=
  match outcome with
  | .ok result => .ok result w
  | .error exc => .error (.own exc) w

def callLog : List ℚ → List Event
  | [] => [.called]
  | q :: qs => .called :: .slept q :: callLog qs

/-- An attempt up to its commit, where it gets that far. -/
def Script.attemptLog (s : Script T α E) (i : ℕ) : List Event :=
  match s.fn i with
  | .ok _ => [.called, .committed]
  | .error _ => [.called]

/-- Every session, from attempt `i` on. An attempt that does not return is rolled back. -/
def Script.transactionLog (s : Script T α E) (i : ℕ) : List ℚ → List Event
  | [] =>
    .opened :: s.attemptLog i ++ (match s.transaction i with | .ok _ => [] | .error _ => [.rolledBack]) ++
      [.closed]
  | q :: qs => .opened :: s.attemptLog i ++ [.rolledBack, .slept q, .closed] ++ s.transactionLog (i + 1) qs

section Pauses
variable {policy : RetryPolicy E}

theorem RetryPolicy.Sane.delay_nonneg (h : policy.Sane) (i : ℕ) : 0 ≤ policy.delay i :=
  le_min h.maxDelay_nonneg (mul_nonneg h.baseDelay_nonneg (pow_nonneg h.factor_nonneg _))

theorem pause_bounds {jitter delay u : ℚ} (hj : 0 ≤ jitter) (hj' : jitter ≤ 1) (hd : 0 ≤ delay)
    (hu : u ∈ Set.Icc (0 : ℚ) 1) :
    max 0 (delay + (-jitter * delay + (jitter * delay - -jitter * delay) * u)) ∈
      Set.Icc ((1 - jitter) * delay) ((1 + jitter) * delay) := by
  obtain ⟨hu, hu'⟩ := hu
  have hjd : 0 ≤ jitter * delay := mul_nonneg hj hd
  have hlow : 0 ≤ jitter * delay * u := mul_nonneg hjd hu
  have hhigh : jitter * delay * u ≤ jitter * delay := mul_le_of_le_one_right hjd hu'
  have hle : jitter * delay ≤ delay := mul_le_of_le_one_left hd hj'
  constructor
  · refine le_max_of_le_right ?_
    linarith
  · refine max_le ?_ ?_ <;> linarith

end Pauses

section Awaits
variable {s : Script T α E} {policy : RetryPolicy E} {c : CircuitConfig T} {w w' : World T}

theorem bind_ok {γ : Type} {x : Io T E β} {f : β → Io T E γ} {b : β} (h : x w = .ok b w') :
    (x >>= f) w = f b w' := by
  change EStateM.bind x f w = f b w'
  rw [EStateM.bind, h]

theorem bind_error {γ : Type} {x : Io T E β} {f : β → Io T E γ} {e : Raised E} (h : x w = .error e w') :
    (x >>= f) w = .error e w' := by
  change EStateM.bind x f w = .error e w'
  rw [EStateM.bind, h]

theorem note_eq {e : Event} : note (E := E) e w = .ok () { w with log := w.log ++ [e] } := rfl

theorem calls_eq : calls (E := E) w = .ok w.calls w := rfl

theorem calls_add {w w' : World T} {l : List Event} (h : w'.log = w.log ++ l) :
    w'.calls = w.calls + l.count .called := by
  rw [World.calls, h, List.count_append]
  rfl

/-- The breaker is closed and has room for `n` more failures. -/
structure World.Closed (c : CircuitConfig T) (n : ℕ) (w : World T) : Prop where
  closed : w.circuit.breaker.state = .closed
  room : w.circuit.breaker.failCount + n ≤ c.failureThreshold

theorem awaitRecordSuccess_closed (h : w.circuit.breaker.state = .closed) :
    ∃ w', awaitRecordSuccess (E := E) c w = .ok () w' ∧ w'.circuit.breaker.state = .closed ∧
      w'.log = w.log :=
  ⟨_, rfl, by simp [recordSuccess, h], rfl⟩

/-- One failure takes one of the room. -/
theorem awaitRecordFailure_closed {n : ℕ} (h : w.Closed c (n + 2)) :
    ∃ w', awaitRecordFailure c s w = .ok () w' ∧ w'.Closed c (n + 1) ∧ w'.log = w.log := by
  have hroom := h.room
  have hlt : ¬c.failureThreshold ≤ w.circuit.breaker.failCount + 1 := by omega
  refine ⟨_, rfl, ⟨?_, ?_⟩, rfl⟩
  · simp [recordFailure, h.closed, hlt]
  · simp only [recordFailure, h.closed, if_neg hlt]
    omega

theorem awaitFn_eq (htimeout : policy.perAttemptTimeout = none) :
    awaitFn s policy w = .ok (s.fn (w.calls + 1)) { w with log := w.log ++ [.called] } := by
  have hcalls : ({ w with log := w.log ++ [.called] } : World T).calls = w.calls + 1 :=
    calls_add (l := [.called]) rfl
  rw [awaitFn, bind_ok note_eq, htimeout]
  dsimp only
  rw [bind_ok calls_eq, hcalls]
  rfl

theorem sleepWithJitter_eq {delay jitter : ℚ} (hj : 0 ≤ jitter) (hj' : jitter ≤ 1) (hd : 0 ≤ delay) :
    ∃ q ∈ Set.Icc ((1 - jitter) * delay) ((1 + jitter) * delay),
      sleepWithJitter s delay jitter w =
        .ok () { w with asked := w.asked + 1, log := w.log ++ [.slept q] } :=
  ⟨_, pause_bounds hj hj' hd (s.random w.asked).2, rfl⟩

theorem awaitTxnFn_eq (htimeout : policy.perAttemptTimeout = none) :
    awaitTxnFn s policy w =
      .ok (s.transaction (w.calls + 1)) { w with log := w.log ++ s.attemptLog (w.calls + 1) } := by
  rw [awaitTxnFn, bind_ok (awaitFn_eq htimeout), Script.transaction, Script.attemptLog]
  cases s.fn (w.calls + 1) with
  | error exc => rfl
  | ok result =>
    have hcalls : ({ w with log := w.log ++ [.called, .committed] } : World T).calls = w.calls + 1 :=
      calls_add (l := [.called, .committed]) rfl
    have hcommit : awaitCommit s { w with log := w.log ++ [.called] } =
        .ok (s.commit (w.calls + 1)) { w with log := w.log ++ [.called, .committed] } := by
      rw [awaitCommit, bind_ok note_eq]
      simp only [List.append_assoc, List.cons_append, List.nil_append]
      rw [bind_ok calls_eq, hcalls]
      rfl
    dsimp only
    rw [bind_ok hcommit]
    cases s.commit (w.calls + 1) <;> rfl

theorem awaitRollback_eq (hrollback : ∀ i, s.rollback i = .ok ()) :
    awaitRollback s w = .ok () { w with log := w.log ++ [.rolledBack] } := by
  rw [awaitRollback, bind_ok note_eq, bind_ok calls_eq, hrollback]
  rfl

variable {body : Io T E β} {b : β} {e : Raised E}

theorem observe_ok (h : body w = .ok b w') : observe body w = .ok (.ok b) w' := by
  change EStateM.tryCatch (EStateM.map _ body) _ _ = _
  rw [EStateM.tryCatch, EStateM.map, h]

theorem observe_error (h : body w = .error e w') : observe body w = .ok (.error e) w' := by
  change EStateM.tryCatch (EStateM.map _ body) _ _ = _
  rw [EStateM.tryCatch, EStateM.map, h]
  rfl

theorem withSession_ok (hclose : ∀ i, s.close i = .ok ())
    (h : body { w with log := w.log ++ [.opened] } = .ok b w') :
    withSession s body w = .ok b { w' with log := w'.log ++ [.closed] } := by
  rw [withSession, bind_ok note_eq, bind_ok (observe_ok h), bind_ok note_eq, bind_ok calls_eq, hclose]
  rfl

theorem withSession_error (hclose : ∀ i, s.close i = .ok ())
    (h : body { w with log := w.log ++ [.opened] } = .error e w') :
    withSession s body w = .error e { w' with log := w'.log ++ [.closed] } := by
  rw [withSession, bind_ok note_eq, bind_ok (observe_error h), bind_ok note_eq, bind_ok calls_eq, hclose]
  rfl

/-- What both loops do before they try again. -/
theorem backsOff (hp : policy.Sane) {n : ℕ} (hw : w.Closed c (n + 2)) (attempt : ℕ) :
    ∃ w' q, policy.Pauses attempt q ∧ w'.Closed c (n + 1) ∧ w'.log = w.log ++ [.slept q] ∧
      ∀ f : Unit → Io T E β, (awaitRecordFailure c s >>= fun _ =>
        sleepWithJitter s (policy.delay attempt) policy.jitter >>= f) w = f () w' := by
  obtain ⟨w₁, hfail, hroom, hlog⟩ := awaitRecordFailure_closed (s := s) hw
  obtain ⟨q, hq, hsleep⟩ := sleepWithJitter_eq (s := s) (w := w₁) hp.jitter_nonneg hp.jitter_le_one
    (hp.delay_nonneg attempt)
  refine ⟨{ w₁ with asked := w₁.asked + 1, log := w₁.log ++ [.slept q] }, q, hq, ⟨hroom.closed, hroom.room⟩,
    ?_, fun f => (bind_ok hfail).trans (bind_ok hsleep)⟩
  rw [hlog]

theorem count_attemptLog (i : ℕ) : (s.attemptLog i).count .called = 1 := by
  rw [Script.attemptLog]
  cases s.fn i <;> rfl

/-- An attempt in its session returns, raises after a rollback, or is followed by another. -/
theorem transactionAttempt_cases (hp : policy.Sane) (htimeout : policy.perAttemptTimeout = none)
    (hrollback : ∀ i, s.rollback i = .ok ()) {left attempt : ℕ} (hw : w.Closed c (left + 1))
    (hattempt : attempt + left = policy.attempts) (hcalls : w.calls + 1 = attempt) :
    (∃ w' result, s.transaction attempt = .ok result ∧
      transactionAttempt c s policy attempt false w = .ok (.ok result) w' ∧
      w'.log = w.log ++ s.attemptLog attempt ∧ w'.circuit.breaker.state = .closed) ∨
    (∃ w' exc, s.transaction attempt = .error exc ∧
      transactionAttempt c s policy attempt false w = .error (.own exc) w' ∧
      w'.log = w.log ++ (s.attemptLog attempt ++ [.rolledBack]) ∧ w'.circuit.breaker.state = .closed ∧
      (policy.Retries s.kind (s.transaction attempt) → left = 0)) ∨
    ∃ w' q exc, policy.Retries s.kind (s.transaction attempt) ∧ policy.Pauses attempt q ∧ 0 < left ∧
      w'.Closed c left ∧ w'.log = w.log ++ (s.attemptLog attempt ++ [.rolledBack, .slept q]) ∧
      transactionAttempt c s policy attempt false w = .ok (.error exc) w' := by
  rw [transactionAttempt, bind_ok (awaitTxnFn_eq htimeout), hcalls]
  simp only [Bool.false_eq_true, ↓reduceIte]
  cases hout : s.transaction attempt with
  | ok result =>
    obtain ⟨w', hrun, hclosed, hlog⟩ := awaitRecordSuccess_closed (E := E) (c := c)
      (w := { w with log := w.log ++ s.attemptLog attempt }) hw.closed
    exact Or.inl ⟨w', result, rfl, bind_ok hrun, hlog, hclosed⟩
  | error exc =>
    obtain ⟨w₁, hw₁, hclosed, hlog⟩ : ∃ w₁ : World T,
        { w with log := w.log ++ s.attemptLog attempt ++ [.rolledBack] } = w₁ ∧ w₁.Closed c (left + 1) ∧
          w₁.log = w.log ++ (s.attemptLog attempt ++ [.rolledBack]) :=
      ⟨_, rfl, ⟨hw.closed, hw.room⟩, List.append_assoc ..⟩
    dsimp only
    rw [bind_ok (awaitRollback_eq hrollback), hw₁]
    cases hcancel : (s.kind exc).isCancelledError with
    | true =>
      rw [if_pos rfl]
      exact Or.inr (Or.inl ⟨w₁, exc, rfl, rfl, hlog, hclosed.closed, fun h => absurd h.1 (by simp [hcancel])⟩)
    | false =>
      rw [if_neg Bool.false_ne_true]
      by_cases hgives : (!policy.retryable s.kind exc || attempt == policy.attempts) = true
      · rw [if_pos hgives]
        refine Or.inr (Or.inl ⟨w₁, exc, rfl, rfl, hlog, hclosed.closed, fun h => ?_⟩)
        have hlast : attempt = policy.attempts := by simpa [h.2] using hgives
        omega
      · rw [if_neg hgives]
        simp only [Bool.or_eq_true, Bool.not_eq_true', beq_iff_eq, not_or, Bool.not_eq_false] at hgives
        obtain ⟨n, rfl⟩ : ∃ n, left = n + 1 := ⟨left - 1, by omega⟩
        obtain ⟨w₂, q, hq, hroom, hlog₂, hrun⟩ := backsOff (s := s) hp hclosed attempt
        refine Or.inr (Or.inr ⟨w₂, q, exc, ⟨hcancel, hgives.1⟩, hq, n.succ_pos, hroom, ?_, hrun _⟩)
        rw [hlog₂, hlog, List.append_assoc, List.append_assoc]
        rfl

end Awaits

section Attempts
variable [LinearOrder T] [Sub T] {c : CircuitConfig T} {s : Script T α E} {policy : RetryPolicy E}
  {w : World T}

theorem enterCircuit_closed {n : ℕ} (h : w.Closed c n) :
    enterCircuit c s w = .ok false { w with asked := w.asked + 1 } := by
  have hb : beforeCall c (s.monotonic w.asked) w.circuit.breaker = (w.circuit.breaker, .ok ()) := by
    simp [beforeCall, maybeTransition, h.closed]
  have hawait : awaitBeforeCall c s w = .ok (.ok ()) { w with asked := w.asked + 1 } := by
    change EStateM.Result.ok (beforeCall c (s.monotonic w.asked) w.circuit.breaker).2
      { w with
        circuit := { w.circuit with breaker := (beforeCall c (s.monotonic w.asked) w.circuit.breaker).1 }
        asked := w.asked + 1 } = _
    rw [hb]
  rw [enterCircuit, bind_ok hawait]
  change (if w.circuit.breaker.state = .halfOpen then _ else (pure false : Io T E Bool)) _ = _
  rw [if_neg (by simp [h.closed])]
  rfl

/-- The attempt `attempt` ends the call with its outcome, or it fails and another follows. -/
theorem retryAttempts_step (hp : policy.Sane) (htimeout : policy.perAttemptTimeout = none)
    {left attempt : ℕ} {lastExc : Option E} (hw : w.Closed c (left + 1))
    (hattempt : attempt + left = policy.attempts) (hcalls : w.calls + 1 = attempt) :
    (∃ w', retryAttempts c s policy attempt lastExc (left + 1) w = finish (s.fn attempt) w' ∧
      w'.log = w.log ++ [.called] ∧ w'.circuit.breaker.state = .closed ∧
      (policy.Retries s.kind (s.fn attempt) → left = 0)) ∨
    ∃ w' q exc, policy.Retries s.kind (s.fn attempt) ∧ policy.Pauses attempt q ∧ 0 < left ∧
      w'.Closed c left ∧ w'.log = w.log ++ [.called, .slept q] ∧
      retryAttempts c s policy attempt lastExc (left + 1) w =
        retryAttempts c s policy (attempt + 1) (some exc) left w' := by
  rw [retryAttempts, bind_ok (enterCircuit_closed hw), bind_ok (awaitFn_eq htimeout)]
  have hcalls' : ({ w with asked := w.asked + 1 } : World T).calls + 1 = attempt := hcalls
  obtain ⟨w₁, hw₁, hclosed, hlog⟩ : ∃ w₁ : World T,
      { w with asked := w.asked + 1, log := w.log ++ [.called] } = w₁ ∧ w₁.Closed c (left + 1) ∧
        w₁.log = w.log ++ [.called] := ⟨_, rfl, ⟨hw.closed, hw.room⟩, rfl⟩
  simp only [hcalls', hw₁, Bool.false_eq_true, ↓reduceIte]
  cases hout : s.fn attempt with
  | ok result =>
    obtain ⟨w', hrun, hclosed', hlog'⟩ := awaitRecordSuccess_closed (E := E) (c := c) hclosed.closed
    exact Or.inl ⟨w', bind_ok hrun, hlog'.trans hlog, hclosed', fun h => h.elim⟩
  | error exc =>
    dsimp only
    cases hcancel : (s.kind exc).isCancelledError with
    | true =>
      rw [if_pos rfl]
      exact Or.inl ⟨w₁, rfl, hlog, hclosed.closed, fun h => absurd h.1 (by simp [hcancel])⟩
    | false =>
      rw [if_neg Bool.false_ne_true]
      by_cases hgives : (!policy.retryable s.kind exc || attempt == policy.attempts) = true
      · rw [if_pos hgives]
        refine Or.inl ⟨w₁, rfl, hlog, hclosed.closed, fun h => ?_⟩
        have hlast : attempt = policy.attempts := by simpa [h.2] using hgives
        omega
      · rw [if_neg hgives]
        simp only [Bool.or_eq_true, Bool.not_eq_true', beq_iff_eq, not_or, Bool.not_eq_false] at hgives
        obtain ⟨n, rfl⟩ : ∃ n, left = n + 1 := ⟨left - 1, by omega⟩
        obtain ⟨w₂, q, hq, hroom, hlog₂, hrun⟩ := backsOff (s := s) hp hclosed attempt
        refine Or.inr ⟨w₂, q, exc, ⟨hcancel, hgives.1⟩, hq, n.succ_pos, hroom, ?_, hrun _⟩
        rw [hlog₂, hlog, List.append_assoc]
        rfl

theorem retryAttempts_law (lastExc : Option E) (hp : policy.Sane) (htimeout : policy.perAttemptTimeout = none)
    {left attempt : ℕ} (hw : w.Closed c (left + 1)) (hattempt : attempt + left = policy.attempts)
    (hcalls : w.calls + 1 = attempt) :
    ∃ w' qs, Tries (policy.Retries s.kind) s.fn policy.Pauses attempt (left + 1) qs ∧
      retryAttempts c s policy attempt lastExc (left + 1) w = finish (s.fn (attempt + qs.length)) w' ∧
      w'.log = w.log ++ callLog qs ∧ w'.circuit.breaker.state = .closed := by
  induction left generalizing attempt lastExc w with
  | zero =>
    rcases retryAttempts_step hp htimeout hw hattempt hcalls with ⟨w', hrun, hlog, hclosed, -⟩ |
      ⟨w', q, exc, -, -, hpos, -⟩
    · exact ⟨w', [], .last, hrun, hlog, hclosed⟩
    · exact absurd hpos (Nat.lt_irrefl 0)
  | succ left ih =>
    rcases retryAttempts_step hp htimeout hw hattempt hcalls with ⟨w', hrun, hlog, hclosed, hsettled⟩ |
      ⟨w₁, q, exc, hagain, hq, -, hroom, hlog, hrun⟩
    · exact ⟨w', [], .settled fun h => absurd (hsettled h) left.succ_ne_zero, hrun, hlog, hclosed⟩
    · have hcalls' : w₁.calls + 1 = attempt + 1 := by
        rw [calls_add hlog, ← hcalls]
        rfl
      obtain ⟨w', qs, htries, hrun', hlog', hclosed⟩ := ih (some exc) hroom (by omega) hcalls'
      refine ⟨w', q :: qs, .retried hagain hq htries, ?_, ?_, hclosed⟩
      · rw [hrun, hrun', List.length_cons, show attempt + (qs.length + 1) = attempt + 1 + qs.length by omega]
      · rw [hlog', hlog, List.append_assoc]
        rfl

theorem transactionAttempts_step (hp : policy.Sane) (htimeout : policy.perAttemptTimeout = none)
    (hrollback : ∀ i, s.rollback i = .ok ()) (hclose : ∀ i, s.close i = .ok ()) {left attempt : ℕ}
    {lastExc : Option E} (hw : w.Closed c (left + 1)) (hattempt : attempt + left = policy.attempts)
    (hcalls : w.calls + 1 = attempt) :
    (∃ w', transactionAttempts c s policy attempt lastExc (left + 1) w = finish (s.transaction attempt) w' ∧
      w'.log = w.log ++ s.transactionLog attempt [] ∧ w'.circuit.breaker.state = .closed ∧
      (policy.Retries s.kind (s.transaction attempt) → left = 0)) ∨
    ∃ w' q exc, policy.Retries s.kind (s.transaction attempt) ∧ policy.Pauses attempt q ∧ 0 < left ∧
      w'.Closed c left ∧
      w'.log = w.log ++ (.opened :: s.attemptLog attempt ++ [.rolledBack, .slept q, .closed]) ∧
      transactionAttempts c s policy attempt lastExc (left + 1) w =
        transactionAttempts c s policy (attempt + 1) (some exc) left w' := by
  rw [transactionAttempts, bind_ok (enterCircuit_closed hw)]
  have hcalls' : ({ w with asked := w.asked + 1, log := w.log ++ [.opened] } : World T).calls + 1 = attempt := by
    rw [calls_add (w := w) (l := [.opened]) rfl, ← hcalls]
    rfl
  rcases transactionAttempt_cases hp htimeout hrollback
      (w := { w with asked := w.asked + 1, log := w.log ++ [.opened] }) ⟨hw.closed, hw.room⟩ hattempt hcalls' with
    ⟨w₁, result, hout, hrun, hlog, hclosed⟩ | ⟨w₁, exc, hout, hrun, hlog, hclosed, hlast⟩ |
    ⟨w₁, q, exc, hagain, hq, hpos, hroom, hlog, hrun⟩
  · refine Or.inl ⟨{ w₁ with log := w₁.log ++ [.closed] }, ?_, ?_, hclosed, fun h => ?_⟩
    · rw [bind_ok (withSession_ok hclose hrun), hout]
      rfl
    · simp [hlog, Script.transactionLog, hout]
    · rw [hout] at h
      exact h.elim
  · refine Or.inl ⟨{ w₁ with log := w₁.log ++ [.closed] }, ?_, ?_, hclosed, hlast⟩
    · rw [bind_error (withSession_error hclose hrun), hout]
      rfl
    · simp [hlog, Script.transactionLog, hout]
  · refine Or.inr ⟨{ w₁ with log := w₁.log ++ [.closed] }, q, exc, hagain, hq, hpos,
      ⟨hroom.closed, hroom.room⟩, ?_, (bind_ok (withSession_ok hclose hrun)).trans rfl⟩
    simp [hlog]

theorem transactionAttempts_law (lastExc : Option E) (hp : policy.Sane)
    (htimeout : policy.perAttemptTimeout = none) (hrollback : ∀ i, s.rollback i = .ok ())
    (hclose : ∀ i, s.close i = .ok ()) {left attempt : ℕ} (hw : w.Closed c (left + 1))
    (hattempt : attempt + left = policy.attempts)
    (hcalls : w.calls + 1 = attempt) :
    ∃ w' qs, Tries (policy.Retries s.kind) s.transaction policy.Pauses attempt (left + 1) qs ∧
      transactionAttempts c s policy attempt lastExc (left + 1) w =
        finish (s.transaction (attempt + qs.length)) w' ∧
      w'.log = w.log ++ s.transactionLog attempt qs ∧ w'.circuit.breaker.state = .closed := by
  induction left generalizing attempt lastExc w with
  | zero =>
    rcases transactionAttempts_step hp htimeout hrollback hclose hw hattempt hcalls with
      ⟨w', hrun, hlog, hclosed, -⟩ | ⟨w', q, exc, -, -, hpos, -⟩
    · exact ⟨w', [], .last, hrun, hlog, hclosed⟩
    · exact absurd hpos (Nat.lt_irrefl 0)
  | succ left ih =>
    rcases transactionAttempts_step hp htimeout hrollback hclose hw hattempt hcalls with
      ⟨w', hrun, hlog, hclosed, hsettled⟩ | ⟨w₁, q, exc, hagain, hq, -, hroom, hlog, hrun⟩
    · exact ⟨w', [], .settled fun h => absurd (hsettled h) left.succ_ne_zero, hrun, hlog, hclosed⟩
    · have hcalls' : w₁.calls + 1 = attempt + 1 := by
        rw [calls_add hlog, ← hcalls]
        simp [count_attemptLog]
      obtain ⟨w', qs, htries, hrun', hlog', hclosed⟩ := ih (some exc) hroom (by omega) hcalls'
      refine ⟨w', q :: qs, .retried hagain hq htries, ?_, ?_, hclosed⟩
      · rw [hrun, hrun', List.length_cons, show attempt + (qs.length + 1) = attempt + 1 + qs.length by omega]
      · rw [hlog', hlog, List.append_assoc]
        rfl

end Attempts

theorem count_callLog (qs : List ℚ) : (callLog qs).count .called = qs.length + 1 := by
  induction qs with
  | nil => rfl
  | cons q qs ih => simp [callLog, ih]

theorem count_transactionLog (s : Script T α E) (i : ℕ) (qs : List ℚ) :
    (s.transactionLog i qs).count .called = qs.length + 1 := by
  induction qs generalizing i with
  | nil => cases hout : s.transaction i <;> simp [Script.transactionLog, hout, count_attemptLog]
  | cons q qs ih => simp [Script.transactionLog, ih, count_attemptLog, Nat.add_comm]

/-- While the breaker stays closed, both loops make as many calls as the law says and end with
the outcome of the last. Every pause is within the jitter around its delay. -/
theorem database_retry_law [LinearOrder T] [Sub T] (c : CircuitConfig T) (s : Script T α E)
    (policy : RetryPolicy E) (circuit : DbCircuit T) (hp : policy.Sane)
    (htimeout : policy.perAttemptTimeout = none) (hclosed : circuit.breaker.state = .closed)
    (hthreshold : circuit.breaker.failCount + policy.attempts ≤ c.failureThreshold) :
    (∃ w' pauses, retryWithDbCircuit c s policy { circuit } = finish (s.fn w'.calls) w' ∧
      w'.log = callLog pauses ∧ w'.circuit.breaker.state = .closed ∧
      (w'.calls : ℕ∞) = min (policy.attempts : ℕ∞) (settledAt (policy.Retries s.kind) s.fn) ∧
      ∀ (i : ℕ) (h : i < pauses.length), policy.Pauses (i + 1) pauses[i]) ∧
    ((∀ i, s.rollback i = .ok ()) → (∀ i, s.close i = .ok ()) →
      ∃ w' pauses, retryTransactionWithDbCircuit c s policy { circuit } =
          finish (s.transaction w'.calls) w' ∧
        w'.log = s.transactionLog 1 pauses ∧ w'.circuit.breaker.state = .closed ∧
        (w'.calls : ℕ∞) = min (policy.attempts : ℕ∞) (settledAt (policy.Retries s.kind) s.transaction) ∧
        ∀ (i : ℕ) (h : i < pauses.length), policy.Pauses (i + 1) pauses[i]) := by
  obtain ⟨left, hleft⟩ : ∃ left, policy.attempts = left + 1 :=
    ⟨policy.attempts - 1, by have := hp.attempts_pos; omega⟩
  rw [hleft] at hthreshold
  have hw : World.Closed c (left + 1) { circuit } := ⟨hclosed, hthreshold⟩
  have hattempt : 1 + left = policy.attempts := by omega
  have hpauses {outs : ℕ → Except E α} {qs : List ℚ}
      (h : Tries (policy.Retries s.kind) outs policy.Pauses 1 (left + 1) qs) (i : ℕ) (hi : i < qs.length) :
      policy.Pauses (i + 1) qs[i] := by
    rw [Nat.add_comm i 1]
    exact h.pause_get hi
  rw [retryWithDbCircuit, retryTransactionWithDbCircuit, hleft]
  constructor
  · obtain ⟨w', qs, htries, hrun, hlog, hclosed'⟩ :=
      retryAttempts_law (s := s) none hp htimeout hw hattempt rfl
    have hcalls : w'.calls = qs.length + 1 := by
      rw [World.calls, hlog]
      exact count_callLog qs
    refine ⟨w', qs, ?_, hlog, hclosed', ?_, hpauses htries⟩
    · rw [hrun, hcalls, Nat.add_comm 1]
    · rw [hcalls]
      exact htries.taken
  · intro hrollback hclose
    obtain ⟨w', qs, htries, hrun, hlog, hclosed'⟩ :=
      transactionAttempts_law (s := s) none hp htimeout hrollback hclose hw hattempt rfl
    have hcalls : w'.calls = qs.length + 1 := by
      rw [World.calls, hlog]
      exact count_transactionLog s 1 qs
    refine ⟨w', qs, ?_, hlog, hclosed', ?_, hpauses htries⟩
    · rw [hrun, hcalls, Nat.add_comm 1]
    · rw [hcalls]
      exact htries.taken

/-- A first call that loses its connection, and a second one that returns. -/
def reconnected : Script ℤ ℕ Unit where
  kind _ := { isTransient := true }
  fn i := if i = 1 then .error () else .ok 7
  waitFor _ _ := .error ()
  commit _ := .ok ()
  rollback _ := .ok ()
  close _ := .ok ()
  random _ := ⟨1 / 2, by norm_num⟩
  monotonic i := i
  probe _ := true

theorem database_retry_law_reconnected :
    (∃ w', retryWithDbCircuit dbCircuit reconnected {} { circuit := { permits := 1 } } = .ok 7 w' ∧
      w'.calls = 2) ∧
    ∃ w', retryTransactionWithDbCircuit dbCircuit reconnected {} { circuit := { permits := 1 } } =
      .ok 7 w' ∧ w'.calls = 2 := by
  have hsane : (({} : RetryPolicy Unit)).Sane :=
    ⟨by decide, by norm_num, by norm_num, by norm_num, by norm_num, by norm_num⟩
  have hfirst : ((2 : ℕ) : ℕ∞) = min ((3 : ℕ) : ℕ∞)
      (settledAt (({} : RetryPolicy Unit).Retries reconnected.kind) reconnected.fn) := by
    refine min_settledAt (by decide) (by decide) (fun i hpos hi => ?_) fun h => h.elim
    obtain rfl : i = 1 := by omega
    exact ⟨rfl, rfl⟩
  have hcommitted : reconnected.transaction = reconnected.fn := by
    funext i
    rw [Script.transaction]
    cases reconnected.fn i <;> rfl
  obtain ⟨⟨w, -, hrun, -, -, hcalls, -⟩, htxn⟩ := database_retry_law dbCircuit reconnected {}
    { permits := 1 } hsane rfl rfl (by decide)
  obtain ⟨w', -, hrun', -, -, hcalls', -⟩ := htxn (fun _ => rfl) fun _ => rfl
  rw [hcommitted] at hrun' hcalls'
  have htwo : w.calls = 2 := by exact_mod_cast hcalls.trans hfirst.symm
  have htwo' : w'.calls = 2 := by exact_mod_cast hcalls'.trans hfirst.symm
  exact ⟨⟨w, by rw [hrun, htwo]; rfl, htwo⟩, ⟨w', by rw [hrun', htwo']; rfl, htwo'⟩⟩

end Phyllonix.Circuit
