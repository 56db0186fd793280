import Phyllonix.AttemptAudit
import Phyllonix.WebhookRuns
import Phyllonix.RelationalTraces
import Phyllonix.RetriedOutcomes

/-!
# The retry loop around the payment provider

The calls to the provider and the pauses between them are the host actions of the loop, so
they are read off its trace. How the calls end decides what `create_payment_intent` answers.
-/

namespace Phyllonix
open Relational Retry

/-- The outcomes of the provider, counted from one. -/
def outcomeAt (outs : ℕ → HostChoice) (i : ℕ) : HostChoice := outs (i - 1)

def HostChoice.exn : HostChoice → Option (Exn AppErr)
  | .fails e => some (.app e)
  | _ => none

/-- An answer, or an exception after which there is no further call. -/
def HostChoice.refused : HostChoice → Bool
  | .fails e => !(HostChoice.fails e).retried
  | _ => false

/-- A call has ended. -/
def HostChoice.isOutcome : HostChoice → Bool
  | .response _ | .fails _ => true
  | _ => false

theorem isOutcome_of_retried {c : HostChoice} (h : c.retried = true) : c.isOutcome = true := by
  cases c with
  | fails e => rfl
  | _ => cases h

/-- The exception of the last of `calls` calls. -/
def lastExn (outs : ℕ → HostChoice) (calls : ℕ) : Option (Exn AppErr) :=
  if calls = 0 then none else (outcomeAt outs calls).exn

/-- What the loop returns after `calls` of at most `max` calls. -/
def pspResult (outs : ℕ → HostChoice) (max calls : ℕ) : PspResult :=
  match outcomeAt outs calls with
  | .response body => ⟨some body, none, none, calls⟩
  | c =>
    if c.retried then ⟨none, none, c.exn, max⟩
    else ⟨none, c.exn, lastExn outs (calls - 1), calls⟩

/-- Call `i`, and the pause after it when it is tried again. -/
def callActs (req : PspRequest) (backoffBase : Rat) (outs : ℕ → HostChoice) (i : ℕ) : List HostAct :=
  .createPspOrder req ::
    if (outcomeAt outs i).retried then [.sleep (min (backoffBase * 2 ^ (i - 1)) 8)] else []

def loopActs (req : PspRequest) (backoffBase : Rat) (outs : ℕ → HostChoice) (calls : ℕ) : List HostAct :=
  (List.range calls).flatMap fun j => callActs req backoffBase outs (j + 1)

theorem loopActs_succ (req : PspRequest) (backoffBase : Rat) (outs : ℕ → HostChoice) (j : ℕ) :
    loopActs req backoffBase outs (j + 1) =
      loopActs req backoffBase outs j ++ callActs req backoffBase outs (j + 1) := by
  simp [loopActs, List.range_succ]

section Loop
variable {n : ℕ} {i₀ : Fin n} {outs : ℕ → HostChoice} {base j : ℕ} {d V : Db} {l : Txn shop}

/-- How the loop ends: with the outcome of its last call. -/
def Returned (req : PspRequest) (backoffBase : Rat) (outs : ℕ → HostChoice) (V d : Db) (log : List (ℕ × ℕ))
    (base payId max : ℕ) (r : Except (Exn AppErr) PspResult) (acts : List HostAct) (d' : Db) (v : ℕ)
    (l : Txn shop) : Prop :=
  ∃ calls : ℕ, (calls : ℕ∞) = min (max : ℕ∞) (settledAt (fun c : HostChoice => c.retried = true) (outcomeAt outs)) ∧
    (outcomeAt outs calls).isOutcome ∧ r = .ok (pspResult outs max calls) ∧
      acts = loopActs req backoffBase outs calls ∧ d' = d ∧
    v = base + calls ∧ Noted V d payId (log ++ expectedLog outs calls) l

theorem asked_recordPaymentAttempt (payId attemptNo status : ℕ) :
    (recordPaymentAttempt payId attemptNo status).Acts fun a => a.asked = [] := by
  apply Prog.Acts.bind
  · apply Prog.Acts.bind
    · exact .call rfl
    · intro r
      cases r <;> trivial
  · exact fun _ => trivial

theorem asked_updatePaymentAttemptResp (m status : ℕ) (resp : Json) :
    (updatePaymentAttemptResp m status resp).Acts fun a => a.asked = [] :=
  Prog.Acts.bind (.call rfl) fun _ => trivial

theorem settledAt_call {max k : ℕ} (hall : ∀ i < j, (outs i).retried) (hmax : j + (k + 1) = max)
    (hfinal : (outs j).retried = false) : ((j + 1 : ℕ) : ℕ∞) =
      min (max : ℕ∞) (settledAt (fun c : HostChoice => c.retried = true) (outcomeAt outs)) := by
  refine min_settledAt (Nat.succ_pos j) (by omega) (fun i hpos hi => hall (i - 1) (by omega)) fun h => ?_
  change (outs j).retried = true at h
  rw [hfinal] at h
  cases h

/-- The first call that is not retried is the last one. -/
theorem returned_final {req : PspRequest} {backoffBase : Rat} {log : List (ℕ × ℕ)} {payId max k : ℕ} {r : PspResult}
    (h : Noted V d payId (log ++ expectedLog outs (j + 1)) l) (hall : ∀ i < j, (outs i).retried)
    (hmax : j + (k + 1) = max) (hfinal : (outs j).retried = false) (hout : (outs j).isOutcome)
    (hr : r = pspResult outs max (j + 1)) :
    Returned req backoffBase outs V d log base payId max (.ok r)
      (loopActs req backoffBase outs j ++ [.createPspOrder req]) d (base + j + 1) l := by
  refine ⟨j + 1, settledAt_call hall hmax hfinal, ?_, congrArg Except.ok hr, ?_, rfl, rfl, h⟩
  · rw [outcomeAt, Nat.add_sub_cancel]
    exact hout
  · rw [loopActs_succ, callActs, outcomeAt, Nat.add_sub_cancel, hfinal]
    rfl

theorem traces_giveUp {req : PspRequest} {backoffBase : Rat} {log : List (ℕ × ℕ)} {payId max k m : ℕ} {e : AppErr}
    {resp : Json} (h : Noting V d payId (log ++ expectedLog outs j) (j + 1) PaymentAttemptStatus.pending.value m l)
    (hall : ∀ i < j, (outs i).retried) (hmax : j + (k + 1) = max) (hout : outs j = .fails e)
    (hfinal : (outs j).retried = false) :
    Traces (o := providerCalls) (providerAnswers outs base) i₀ (Returned req backoffBase outs V d log base payId max)
      (updatePaymentAttemptResp m PaymentAttemptStatus.failed.value resp >>= fun _ =>
        pure ⟨none, some (.app e), lastExn outs j, j + 1⟩)
      (loopActs req backoffBase outs j ++ [.createPspOrder req]) d (base + j + 1) l := by
  have hstatus : (outs j).attemptStatus = .failed := by
    rw [hout] at hfinal ⊢
    exact attemptStatus_of_final hfinal
  apply Traces.bind
  apply Traces.of_plays (asked_updatePaymentAttemptResp _ _ _)
  rw [← hstatus]
  apply plays_noteOutcome h
  intro l' hnoted
  rw [List.append_assoc, ← expectedLog_succ] at hnoted
  refine Traces.pure (returned_final hnoted hall hmax hfinal ?_ ?_)
  · rw [hout]
    rfl
  · rw [pspResult, outcomeAt, Nat.add_sub_cancel, hout]
    rw [hout] at hfinal
    simp [hfinal, HostChoice.exn]

/-- When no attempt is left, all calls were retried. -/
theorem returned_exhausted {req : PspRequest} {backoffBase : Rat} {log : List (ℕ × ℕ)} {payId : ℕ}
    (h : Noted V d payId (log ++ expectedLog outs j) l) (hpos : 0 < j) (hall : ∀ i < j, (outs i).retried) :
    Returned req backoffBase outs V d log base payId j (.ok ⟨none, none, lastExn outs j, j⟩)
      (loopActs req backoffBase outs j) d (base + j) l := by
  have hretried : (outcomeAt outs j).retried = true := hall (j - 1) (by omega)
  refine ⟨j, ?_, ?_, ?_, rfl, rfl, rfl, h⟩
  · exact min_settledAt hpos le_rfl (fun i hi hlt => hall (i - 1) (by omega)) fun _ => rfl
  · exact isOutcome_of_retried hretried
  · rw [pspResult, lastExn, if_neg hpos.ne']
    cases hout : outcomeAt outs j with
    | fails e =>
      rw [hout] at hretried
      dsimp only
      rw [if_pos hretried]
    | _ =>
      rw [hout] at hretried
      cases hretried

theorem traces_retry {req : PspRequest} {backoffBase : Rat} {log : List (ℕ × ℕ)} {payId max k m : ℕ} {e : AppErr}
    (resp : Json) (h : Noting V d payId (log ++ expectedLog outs j) (j + 1) PaymentAttemptStatus.pending.value m l)
    (hout : outs j = .fails e) (hretried : (outs j).retried = true)
    (hrest : ∀ {l₂ : Txn shop}, Noted V d payId (log ++ expectedLog outs (j + 1)) l₂ →
      Traces (o := providerCalls) (providerAnswers outs base) i₀ (Returned req backoffBase outs V d log base payId max)
        (retryWrapper (createPspOrder req) payId max backoffBase (List.range' (j + 1 + 1) k) (lastExn outs (j + 1)))
        (loopActs req backoffBase outs (j + 1)) d (base + (j + 1)) l₂) :
    Traces (o := providerCalls) (providerAnswers outs base) i₀ (Returned req backoffBase outs V d log base payId max)
      (updatePaymentAttemptResp m PaymentAttemptStatus.retrying.value resp >>= fun _ =>
        sleep (min (backoffBase * 2 ^ j) 8) >>= fun _ => retryWrapper (createPspOrder req) payId max
          backoffBase (List.range' (j + 1 + 1) k) (some (.app e)))
      (loopActs req backoffBase outs j ++ [.createPspOrder req]) d (base + j + 1) l := by
  apply Traces.bind
  apply Traces.of_plays (asked_updatePaymentAttemptResp _ _ _)
  rw [← attemptStatus_of_retried hretried]
  apply plays_noteOutcome h
  intro l₂ hnoted
  rw [List.append_assoc, ← expectedLog_succ] at hnoted
  apply Traces.bind
  apply Traces.call (a := (.host (.sleep _) : ShopAction))
  apply plays_sleep
  have hnext := hrest hnoted
  rw [loopActs_succ, callActs, outcomeAt, Nat.add_sub_cancel, if_pos hretried, lastExn,
    if_neg j.succ_ne_zero, outcomeAt, Nat.add_sub_cancel, hout] at hnext
  rw [List.append_assoc]
  exact hnext

theorem retryWrapper_traces (req : PspRequest) (backoffBase : Rat) {log : List (ℕ × ℕ)} {payId max k : ℕ}
    (h : Noted V d payId (log ++ expectedLog outs j) l) (hmax : j + k = max) (hpos : 0 < max)
    (hall : ∀ i < j, (outs i).retried) :
    Traces (o := providerCalls) (providerAnswers outs base) i₀ (Returned req backoffBase outs V d log base payId max)
      (retryWrapper (createPspOrder req) payId max backoffBase (List.range' (j + 1) k) (lastExn outs j))
      (loopActs req backoffBase outs j) d (base + j) l := by
  induction k generalizing j l with
  | zero =>
    obtain rfl : j = max := hmax
    exact Traces.pure (returned_exhausted h hpos hall)
  | succ k ih =>
    rw [List.range'_succ]
    apply Traces.bind
    apply Traces.of_plays (asked_recordPaymentAttempt _ _ _)
    apply plays_noteAttempt h
    intro m l₁ hnoting
    have hall' (hretried : (outs j).retried = true) : ∀ i < j + 1, (outs i).retried = true := by
      intro i hi
      by_cases hij : i = j
      · rw [hij]
        exact hretried
      · exact hall i (by omega)
    have hretry {e : AppErr} {resp : Json} (hout : outs j = .fails e) (hretried : (outs j).retried = true) :=
      traces_retry (k := k) resp hnoting hout hretried fun hnoted => ih hnoted (by omega) (hall' hretried)
    apply Traces.bind
    apply Traces.attempt
    apply Traces.bind
    apply Traces.call (a := (.host (.createPspOrder req) : ShopAction))
    apply plays_createPspOrder
    · intro body hout
      have hstatus : PaymentAttemptStatus.success = (outs j).attemptStatus := by
        rw [hout]
        rfl
      have hfinal : (outs j).retried = false := by
        rw [hout]
        rfl
      apply Traces.bind
      apply Traces.of_plays (asked_updatePaymentAttemptResp _ _ _)
      rw [hstatus]
      apply plays_noteOutcome hnoting
      intro l₂ hnoted
      rw [List.append_assoc, ← expectedLog_succ] at hnoted
      apply Traces.pure
      refine Traces.pure (returned_final hnoted hall hmax hfinal ?_ ?_)
      · rw [hout]
        rfl
      · rw [pspResult, outcomeAt, Nat.add_sub_cancel, hout]
    · intro e hout
      cases e with
      | transient msg => exact hretry hout (by rw [hout]; rfl)
      | httpStatus code text =>
        have hretried : (outs j).retried = code.any fun c => 500 ≤ c && c < 600 := by
          rw [hout]
          rfl
        dsimp only
        split
        · rename_i hcode
          exact hretry hout (hretried.trans hcode)
        · rename_i hcode
          exact traces_giveUp hnoting hall hmax hout (hretried.trans (by simpa using hcode))
      | _ => exact traces_giveUp hnoting hall hmax hout (by rw [hout]; rfl)

end Loop

/-! ## The answer of `create_payment_intent` -/

def AnswersWith (status : ℕ) (r : Except (Exn AppErr) Json) : Prop :=
  ∃ detail, r = .error (.app (.http status detail))

/-- `psp_resp.get("id")` is `None`. -/
def HasNoId (body : PspResponse) : Prop := (body.lookup "id").getD .null = .null

/-- The answer after `calls` calls, from their outcomes. -/
structure Judged (outs : ℕ → HostChoice) (calls : ℕ) (r : Except (Exn AppErr) Json) : Prop where
  bad_request : AnswersWith 400 r ↔ ∃ i, 1 ≤ i ∧ i ≤ calls ∧ (outcomeAt outs i).refused = true
  bad_gateway : AnswersWith 502 r ↔
    (calls = DEFAULT_RETRIES ∧ ∀ i, 1 ≤ i → i ≤ calls → (outcomeAt outs i).retried = true) ∨
      ∃ i, 1 ≤ i ∧ i ≤ calls ∧ ∃ body, outcomeAt outs i = .response body ∧ HasNoId body

theorem not_refused_of_retried {c : HostChoice} (h : c.retried = true) : c.refused = false := by
  cases c with
  | fails e => rw [HostChoice.refused, h]; rfl
  | _ => rfl

/-- What the outcome of the last call alone decides. -/
theorem Judged.of_last {outs : ℕ → HostChoice} {calls : ℕ} {r : Except (Exn AppErr) Json} (hpos : 1 ≤ calls)
    (hall : ∀ i, 1 ≤ i → i < calls → (outcomeAt outs i).retried = true)
    (hlast : (outcomeAt outs calls).retried = true → calls = DEFAULT_RETRIES)
    (h400 : AnswersWith 400 r ↔ (outcomeAt outs calls).refused = true)
    (h502 : AnswersWith 502 r ↔ (outcomeAt outs calls).retried = true ∨
      ∃ body, outcomeAt outs calls = .response body ∧ HasNoId body) : Judged outs calls r := by
  refine ⟨h400.trans ⟨fun h => ⟨calls, hpos, le_rfl, h⟩, ?_⟩, h502.trans ⟨?_, ?_⟩⟩
  · rintro ⟨i, hi, hle, href⟩
    rcases Nat.lt_or_eq_of_le hle with hlt | rfl
    · rw [not_refused_of_retried (hall i hi hlt)] at href
      cases href
    · exact href
  · rintro (hretried | hbody)
    · refine .inl ⟨hlast hretried, fun i hi hle => ?_⟩
      rcases Nat.lt_or_eq_of_le hle with hlt | rfl
      · exact hall i hi hlt
      · exact hretried
    · exact .inr ⟨calls, hpos, le_rfl, hbody⟩
  · rintro (⟨-, hretried⟩ | ⟨i, hi, hle, body, hout, hid⟩)
    · exact .inl (hretried calls hpos le_rfl)
    · rcases Nat.lt_or_eq_of_le hle with hlt | rfl
      · have hretried := hall i hi hlt
        rw [hout] at hretried
        cases hretried
      · exact .inr ⟨body, hout, hid⟩

section Intent
variable {n : ℕ} {i₀ : Fin n} {outs : ℕ → HostChoice} {base calls v : ℕ} {d V : Db} {l : Txn shop}
  {answers : HostAct → ℕ → HostChoice → Prop}

theorem answersWith_http {status : ℕ} {detail : Json} {status' : ℕ} :
    AnswersWith status (.error (.app (.http status' detail))) ↔ status' = status := by
  constructor
  · rintro ⟨detail', h⟩
    cases h
    rfl
  · rintro rfl
    exact ⟨detail, rfl⟩

/-- An exception that is not an `HTTPException`. -/
def NotHttp (e : Exn AppErr) : Prop := ∀ status detail, e ≠ .app (.http status detail)

theorem notHttp_ofStore {e : Exn AppErr} (h : e.OfStore) : NotHttp e := by
  rintro status detail rfl
  exact h

theorem throws_call {a : ShopAction} (ha : a.asked = []) : (Prog.call a).Throws NotHttp :=
  .call ha fun _ => notHttp_ofStore

theorem storeOrderId_throws (m : ℕ) (providerOrderId : Json) (key : String) (body : Json) :
    (updatePaymentStatusNprovider m providerOrderId >>= fun _ => updateIdempotentResponse key 200 body >>=
      fun _ => commit >>= fun _ => (pure body : Py Json)).Throws NotHttp := by
  apply Prog.Throws.bind
  · apply Prog.Throws.bind
    · cases providerOrderId <;> first | exact trivial | exact nofun
    · exact fun _ => Prog.Throws.bind (throws_call rfl) fun _ => trivial
  · intro _
    apply Prog.Throws.bind
    · exact Prog.Throws.bind (throws_call rfl) fun _ => trivial
    · exact fun _ => Prog.Throws.bind (throws_call rfl) fun _ => trivial

theorem storeOrderId_silent (m : ℕ) (providerOrderId : Json) (key : String) (body : Json) :
    (updatePaymentStatusNprovider m providerOrderId >>= fun _ => updateIdempotentResponse key 200 body >>=
      fun _ => commit >>= fun _ => (pure body : Py Json)).Acts
        fun a => a.Keeps (.any shop) ∧ a.Mute providerCalls := by
  apply Prog.Acts.bind
  · apply Prog.Acts.bind
    · cases providerOrderId <;> trivial
    · exact fun _ => Prog.Acts.bind (.call ⟨Action.keeps_any _, trivial⟩) fun _ => trivial
  · intro _
    apply Prog.Acts.bind
    · exact Prog.Acts.bind (.call ⟨Action.keeps_any _, trivial⟩) fun _ => trivial
    · exact fun _ => Prog.Acts.bind (.call ⟨Action.keeps_any _, trivial⟩) fun _ => trivial

theorem plays_storeOrderId (m : ℕ) (providerOrderId : Json) (key : String) (body : Json) :
    Plays (o := providerCalls) answers i₀ (fun r _ v' _ => v' = v ∧ ∀ e, r = .error e → NotHttp e)
      (updatePaymentStatusNprovider m providerOrderId >>= fun _ => updateIdempotentResponse key 200 body >>=
        fun _ => commit >>= fun _ => (pure body : Py Json)) d v l := by
  apply Plays.mono (Plays.and (Plays.evolves (R := .any shop) (storeOrderId_silent m providerOrderId key body)
    fun _ _ => trivial) (Plays.throws (o := providerCalls) (storeOrderId_throws m providerOrderId key body) d v l))
  exact fun r d' v' l' h => ⟨h.1.1, h.2⟩

theorem not_answersWith {status : ℕ} {r : Except (Exn AppErr) Json} (h : ∀ e, r = .error e → NotHttp e) :
    ¬AnswersWith status r := by
  rintro ⟨detail, rfl⟩
  exact h _ rfl status detail rfl

theorem settlePspResult_judged (lib : Lib) (key : String) (orderData : OrderResponse) (pub : UUID) {payId : ℕ}
    {log : List (ℕ × ℕ)} (h : Noted V d payId log l) (hpos : 1 ≤ calls)
    (hall : ∀ i, 1 ≤ i → i < calls → (outcomeAt outs i).retried = true)
    (hlast : (outcomeAt outs calls).retried = true → calls = DEFAULT_RETRIES)
    (hout : (outcomeAt outs calls).isOutcome) :
    Plays (o := providerCalls) answers i₀ (fun r _ v' _ => v' = v ∧ Judged outs calls r)
      (settlePspResult lib key orderData pub payId (pspResult outs DEFAULT_RETRIES calls)) d v l := by
  have hjudge {r : Except (Exn AppErr) Json} := Judged.of_last (r := r) hpos hall hlast
  cases hc : outcomeAt outs calls with
  | fails e =>
    rw [pspResult, hc]
    by_cases hretried : (HostChoice.fails e).retried = true
    · dsimp only
      rw [if_pos hretried]
      refine Plays.raise ⟨rfl, hjudge ?_ ?_⟩
      · rw [answersWith_http, hc, not_refused_of_retried hretried]
        decide
      · rw [answersWith_http, hc]
        exact ⟨fun _ => .inl hretried, fun _ => rfl⟩
    · dsimp only
      rw [if_neg hretried]
      refine Plays.raise ⟨rfl, hjudge ?_ ?_⟩
      · rw [answersWith_http, hc, HostChoice.refused]
        simp [hretried]
      · rw [answersWith_http, hc]
        refine ⟨fun h => absurd h (by decide), ?_⟩
        rintro (h | ⟨body, h, -⟩)
        · exact absurd h hretried
        · cases h
  | response body =>
    rw [pspResult, hc]
    have hbody : (∃ body', HostChoice.response body = .response body' ∧ HasNoId body') ↔ HasNoId body :=
      ⟨fun ⟨_, he, hid⟩ => by cases he; exact hid, fun hid => ⟨body, rfl, hid⟩⟩
    have h400 : (outcomeAt outs calls).refused = false := by
      rw [hc]
      rfl
    have h502 : ((outcomeAt outs calls).retried = true ∨
        ∃ body', outcomeAt outs calls = .response body' ∧ HasNoId body') ↔ HasNoId body := by
      rw [hc, ← hbody]
      exact ⟨fun h => h.resolve_left Bool.false_ne_true, .inr⟩
    unfold settlePspResult
    dsimp only
    split
    · rename_i hid
      apply Plays.bind
      apply plays_noteAttempt h
      intro m l' _
      refine Plays.raise ⟨rfl, hjudge ?_ ?_⟩
      · rw [answersWith_http, h400]
        decide
      · rw [answersWith_http, h502]
        exact ⟨fun _ => hid, fun _ => rfl⟩
    · rename_i providerOrderId hnull
      apply (plays_storeOrderId payId _ key _).mono
      rintro r d' v' l' ⟨rfl, hthrows⟩
      refine ⟨rfl, hjudge ⟨fun ha => absurd ha (not_answersWith hthrows), fun hr => ?_⟩
        ⟨fun ha => absurd ha (not_answersWith hthrows), fun hr => ?_⟩⟩
      · rw [h400] at hr
        cases hr
      · exact absurd (h502.1 hr) hnull
  | _ =>
    rw [hc] at hout
    cases hout

theorem retryPayments_traces (req : PspRequest) (backoffBase : Rat) (payId : ℕ) {max : ℕ} (hpos : 0 < max)
    (hlive : l.aborted = false) :
    Traces (o := providerCalls) (providerAnswers outs base) i₀
      (Returned req backoffBase outs (l.view d) d (attemptLog (l.view d) payId) base payId max)
      (retryPayments (createPspOrder req) payId max backoffBase) [] d base l :=
  retryWrapper_traces req backoffBase ⟨hlive, (List.append_nil _).symm, rfl⟩ (Nat.zero_add max) hpos
    fun i hi => absurd hi (Nat.not_lt_zero i)

theorem createPaymentIntent_judged (lib : Lib) (key : String) (totals : FinalTotal) (orderData : OrderResponse)
    (pub : UUID) (hlive : l.aborted = false) :
    Plays (o := providerCalls) (providerAnswers outs base) i₀
      (fun r _ v' _ => ∃ calls, v' = base + calls ∧ Judged outs calls r)
      (createPaymentIntent lib key totals orderData pub) d base l := by
  have hnone {e : Exn AppErr} (he : NotHttp e) : Judged outs 0 (.error e) := by
    have hnot {status : ℕ} : ¬AnswersWith status (.error e) := not_answersWith fun e' h => by cases h; exact he
    refine ⟨⟨fun h => absurd h hnot, fun ⟨i, hi, hle, _⟩ => by omega⟩, ⟨fun h => absurd h hnot, ?_⟩⟩
    rintro (⟨h, -⟩ | ⟨i, hi, hle, -⟩)
    · cases h
    · omega
  apply Plays.bind
  apply Plays.bind
  apply Plays.read
  · intro _ _
    apply Plays.bind
    have hfound : Plays (o := providerCalls) (providerAnswers outs base) i₀
        (fun r d' v' l' => d' = d ∧ v' = base ∧ l' = l ∧ ∀ e, r = .error e → NotHttp e)
        (oneOrNone ((l.view d .payment).filter fun p : Payment => p.publicId = pub)) d base l := by
      unfold oneOrNone
      split
      · exact Plays.pure ⟨rfl, rfl, rfl, nofun⟩
      · exact Plays.pure ⟨rfl, rfl, rfl, nofun⟩
      · refine Plays.raise ⟨rfl, rfl, rfl, fun e he => ?_⟩
        cases he
        exact nofun
    apply hfound.mono
    rintro r d' v' l' ⟨rfl, rfl, rfl, hthrows⟩
    cases r with
    | error e => exact ⟨0, rfl, hnone (hthrows e rfl)⟩
    | ok row =>
      apply Plays.pure
      cases row with
      | none => exact Plays.raise ⟨0, rfl, hnone nofun⟩
      | some p =>
        apply Plays.bind
        apply (retryPayments_traces _ _ _ (by decide) hlive).plays.mono
        rintro r d'' v'' l'' ⟨acts, calls, hcalls, hout, rfl, -, rfl, rfl, hnoted⟩
        have hpos : 1 ≤ calls := one_le_of_eq_min hcalls (by decide)
        apply (settlePspResult_judged lib key orderData pub hnoted hpos (fun i hi => again_of_lt hcalls hi)
          (eq_attempts_of_again hcalls) hout).mono
        rintro r' d₃ v₃ l₃ ⟨rfl, hjudged⟩
        exact ⟨calls, rfl, hjudged⟩
  · intro ha
    rw [hlive] at ha
    cases ha

end Intent

/-- The loop calls the provider until an outcome is not to be tried again, and at most `max` times.
It records one attempt for each call, pauses after each call that is tried again, and returns the
last outcome. `create_payment_intent` answers 400 just when a call was refused, and 502 just when
all calls were to be tried again or the answer has no id. -/
theorem provider_retry_law :
    (∀ {outs : ℕ → HostChoice} {w : World shop shopHost} {max payId : ℕ} {backoffBase : Rat} {req : PspRequest}
      {s : Sys shop shopHost 1 (Except (Exn AppErr) PspResult × List HostAct)}, w.Ok → 1 ≤ max →
      Sys.Run (Guard.scripted providerCalls (providerAnswers outs w.host.pspCalls.length) 0) History.none
        (Sys.start w fun _ => (retryPayments (createPspOrder req) payId max backoffBase).traced []) () s () →
      ∀ {r : Except (Exn AppErr) PspResult} {acts : List HostAct}, s.outcome 0 = some (r, acts) →
        ∃ calls : ℕ, (calls : ℕ∞) =
            min (max : ℕ∞) (settledAt (fun c : HostChoice => c.retried = true) (outcomeAt outs)) ∧
          (outcomeAt outs calls).isOutcome ∧ r = .ok (pspResult outs max calls) ∧
          acts = loopActs req backoffBase outs calls ∧
          s.world.host.pspCalls.length = w.host.pspCalls.length + calls ∧
          attemptLog ((s.procs 0).txn.view s.world.db) payId = attemptLog w.db payId ++ expectedLog outs calls) ∧
    ∀ {outs : ℕ → HostChoice} {w : World shop shopHost} {lib : Lib} {key : String} {totals : FinalTotal}
      {orderData : OrderResponse} {pub : UUID} {s : Sys shop shopHost 1 (Except (Exn AppErr) Json)}, w.Ok →
      Sys.Run (Guard.scripted providerCalls (providerAnswers outs w.host.pspCalls.length) 0) History.none
        (Sys.start w fun _ => (createPaymentIntent lib key totals orderData pub).attempt) () s () →
      ∀ {r : Except (Exn AppErr) Json}, s.outcome 0 = some r →
        ∃ calls, s.world.host.pspCalls.length = w.host.pspCalls.length + calls ∧ Judged outs calls r := by
  constructor
  · intro outs w max payId backoffBase req s hw hmax hrun r acts hout
    have htraces : Traces (o := providerCalls) (providerAnswers outs w.host.pspCalls.length) (0 : Fin 1)
        (Returned req backoffBase outs w.db w.db (attemptLog w.db payId) w.host.pspCalls.length payId max)
        (retryPayments (createPspOrder req) payId max backoffBase) [] w.db w.host.pspCalls.length {} :=
      retryPayments_traces (d := w.db) (l := {}) req backoffBase payId hmax rfl
    obtain ⟨r', acts', heq, calls, hcalls, hended, hr, hacts, hdb, hv, hnoted⟩ :=
      Sys.Run.plays_txn hw hrun htraces hout
    cases heq
    rw [hdb]
    exact ⟨calls, hcalls, hended, hr, hacts, hv, hnoted.log⟩
  · intro outs w lib key totals orderData pub s hw hrun r hout
    have hplays : Plays (o := providerCalls) (providerAnswers outs w.host.pspCalls.length) (0 : Fin 1)
        (fun r _ v' _ => ∀ r', r = .ok r' → ∃ calls, v' = w.host.pspCalls.length + calls ∧ Judged outs calls r')
        (createPaymentIntent lib key totals orderData pub).attempt w.db w.host.pspCalls.length {} := by
      apply Plays.attempt
      apply (createPaymentIntent_judged lib key totals orderData pub rfl).mono
      rintro r _ v' _ h r' hr
      cases hr
      exact h
    exact Sys.Run.plays_txn hw hrun hplays hout r rfl

/-- The loop over a payment whose first call times out. -/
def timedOut : Sys shop shopHost 1 (Except (Exn AppErr) PspResult × List HostAct) :=
  Sys.start oneAccepted fun _ =>
    (retryPayments (createPspOrder ⟨20400, "INR", "order_1", [], "k1"⟩) 1).traced []

def timeoutThenAnswer : List (Label shopHost 1) :=
  [.proc 0 .go, .proc 0 (.host (.fails (.transient "timeout"))), .proc 0 .go, .proc 0 (.host .proceed),
    .proc 0 .go, .proc 0 (.host (.response [("id", .str "order_1")])), .proc 0 .go]

/-- A payment intent whose only call is refused. -/
def refusedIntent : Sys shop shopHost 1 (Except (Exn AppErr) Json) :=
  Sys.start oneAccepted fun _ =>
    (createPaymentIntent plainLib "k1" ⟨⟨200, 4, 0, 0, 0, 204⟩, []⟩ ⟨21, 1, 10, some 31⟩ 31).attempt

theorem provider_retry_law_timeout :
    (∃ s, Sys.Run (Guard.scripted providerCalls (providerAnswers oneTimeout 0) 0) History.none timedOut () s () ∧
      s.outcome 0 = some (.ok (pspResult oneTimeout 3 2),
        loopActs ⟨20400, "INR", "order_1", [], "k1"⟩ DEFAULT_BACKOFF_BASE oneTimeout 2)) ∧
    ∃ s r, Sys.Run (Guard.scripted providerCalls (providerAnswers refusing 0) 0) History.none refusedIntent () s () ∧
      s.outcome 0 = some r ∧ Judged refusing 1 r := by
  constructor
  · have hplay : ((timedOut.exec (Guard.tested isOneTimeout (0 : Fin 1)) timeoutThenAnswer).map fun s =>
        ((s.outcome 0).isSome, s.world.host.pspCalls.length)) = some (true, 2) := by decide +kernel
    obtain ⟨s, hs, hout⟩ := Option.map_eq_some_iff.mp hplay
    simp only [Prod.mk.injEq] at hout
    obtain ⟨⟨r, acts⟩, hr⟩ := Option.isSome_iff_exists.mp hout.1
    obtain ⟨⟨⟩, hrun⟩ := Sys.run_of_exec History.none () hs
    have hscripted : Sys.Run (Guard.scripted providerCalls (providerAnswers oneTimeout 0) 0) History.none
        timedOut () s () := hrun.relax fun _ _ _ _ _ h => h.scripted oneTimeout_of_test
    obtain ⟨calls, -, -, rfl, rfl, hcalls, -⟩ := provider_retry_law.1 oneAccepted_ok (by decide) hscripted hr
    obtain rfl : calls = 2 := by
      rw [hout.2] at hcalls
      exact (hcalls.trans (Nat.zero_add calls)).symm
    exact ⟨s, hscripted, hr⟩
  · have hplay : ((refusedIntent.exec (Guard.tested isRefusal (0 : Fin 1)) ([.proc 0 .go, .proc 0 .go,
        .proc 0 (.host (.fails (.httpStatus (some 400) "refused"))), .proc 0 .go])).map fun s =>
        ((s.outcome 0).isSome, s.world.host.pspCalls.length)) = some (true, 1) := by decide +kernel
    obtain ⟨s, hs, hout⟩ := Option.map_eq_some_iff.mp hplay
    simp only [Prod.mk.injEq] at hout
    obtain ⟨r, hr⟩ := Option.isSome_iff_exists.mp hout.1
    obtain ⟨⟨⟩, hrun⟩ := Sys.run_of_exec History.none () hs
    have hscripted : Sys.Run (Guard.scripted providerCalls (providerAnswers refusing 0) 0) History.none
        refusedIntent () s () := hrun.relax fun _ _ _ _ _ h => h.scripted refusing_of_isRefusal
    obtain ⟨calls, hcalls, hjudged⟩ := provider_retry_law.2 oneAccepted_ok hscripted hr
    obtain rfl : calls = 1 := by
      rw [hout.2] at hcalls
      exact (hcalls.trans (Nat.zero_add calls)).symm
    exact ⟨s, r, hscripted, hr, hjudged⟩

end Phyllonix
