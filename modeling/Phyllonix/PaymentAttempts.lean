import Phyllonix.RelationalScripted
import Phyllonix.ShopRules
import Phyllonix.OrderServices

/-!
# Attempts at the payment provider

Each call to the provider has a row: it is inserted before the call and receives the status of
the outcome after it. All of it happens in the open transaction of the request.
-/

namespace Phyllonix
open Relational

/-- The outcomes after which the provider is called again. -/
def HostChoice.retried : HostChoice → Bool
  | .fails (.transient _) => true
  | .fails (.httpStatus code _) => code.any fun c => 500 ≤ c && c < 600
  | _ => false

/-- The status of an attempt, from the outcome of its call. -/
def HostChoice.attemptStatus : HostChoice → PaymentAttemptStatus
  | .response _ => .success
  | c => if c.retried then .retrying else .failed

theorem attemptStatus_of_retried {c : HostChoice} (h : c.retried = true) : c.attemptStatus = .retrying := by
  cases c with
  | fails e => simp [HostChoice.attemptStatus, h]
  | _ => cases h

theorem attemptStatus_of_final {e : AppErr} (h : (HostChoice.fails e).retried = false) :
    (HostChoice.fails e).attemptStatus = .failed := by
  simp [HostChoice.attemptStatus, h]

/-- One entry for each call, numbered in their order. -/
def expectedLog (outs : ℕ → HostChoice) (calls : ℕ) : List (ℕ × ℕ) :=
  (List.range calls).map fun j => (j + 1, (outs j).attemptStatus.value)

def attemptLog (d : Db) (paymentId : ℕ) : List (ℕ × ℕ) :=
  ((d .paymentAttempt).filter fun a : PaymentAttempt => a.paymentId = paymentId).map
    fun a : PaymentAttempt => (a.attemptNo, a.status)

theorem expectedLog_succ (outs : ℕ → HostChoice) (calls : ℕ) :
    expectedLog outs (calls + 1) = expectedLog outs calls ++ [(calls + 1, (outs calls).attemptStatus.value)] := by
  simp [expectedLog, List.range_succ]

/-- A new attempt that is then given its status is the last of its payment. -/
theorem attemptLog_noted {d : Db} {a a' : PaymentAttempt} {paymentId : ℕ}
    (hfresh : ∀ b : PaymentAttempt, b ∈ d .paymentAttempt → b.id < a.id) (hid : a'.id = a.id)
    (hpay : a'.paymentId = paymentId) :
    attemptLog ((d.put .paymentAttempt a).put .paymentAttempt a') paymentId =
      attemptLog d paymentId ++ [(a'.attemptNo, a'.status)] := by
  have hne : ∀ b : PaymentAttempt, b ∈ d .paymentAttempt → b.id ≠ a.id := fun b hb => Nat.ne_of_lt (hfresh b hb)
  have hfirst : d.put .paymentAttempt a .paymentAttempt = d .paymentAttempt ++ [a] := by
    rw [Store.put_self]
    exact putRow_of_fresh hne
  have hsecond : (d.put .paymentAttempt a).put .paymentAttempt a' .paymentAttempt = d .paymentAttempt ++ [a'] := by
    have hold : (d .paymentAttempt).filter (fun b : PaymentAttempt => b.id ≠ a'.id) = d .paymentAttempt := by
      apply List.filter_eq_self.mpr
      intro b hb
      simpa [hid] using hne b hb
    rw [Store.put_self, hfirst, putRow, List.filter_append]
    change (d .paymentAttempt).filter (fun b : PaymentAttempt => b.id ≠ a'.id) ++ _ ++ _ = _
    rw [hold]
    simp [shop, rowId, hid]
  rw [attemptLog, hsecond, attemptLog]
  simp [hpay]

/-! ## The script of the provider -/

/-- How many calls the provider has received. -/
def providerCalls : Gauge shopHost where
  Val := ℕ
  read s := s.pspCalls.length
  env _ _ := rfl

/-- After the first `base` calls the provider answers as `outs` says. -/
def providerAnswers (outs : ℕ → HostChoice) (base : ℕ) : HostAct → ℕ → HostChoice → Prop
  | .createPspOrder _, calls, c => c = outs (calls - base)
  | _, _, _ => True

/-- How the calls end, after `calls` of at most `max`. -/
inductive Verdict (outs : ℕ → HostChoice) (max : ℕ) : ℕ → PspResult → Prop
  | answered {k n : ℕ} {body : PspResponse} (hk : k < max) (hall : ∀ j < k, (outs j).retried)
      (hout : outs k = .response body) : Verdict outs max (k + 1) ⟨some body, none, none, n⟩
  | refused {k n : ℕ} {e : AppErr} {ex : Exn AppErr} {exc : Option (Exn AppErr)} (hall : ∀ j < k, (outs j).retried)
      (hout : outs k = .fails e) (hfinal : (outs k).retried = false) : Verdict outs max (k + 1) ⟨none, some ex, exc, n⟩
  | exhausted {n : ℕ} {ex : Exn AppErr} (hall : ∀ j < max, (outs j).retried) :
      Verdict outs max max ⟨none, none, some ex, n⟩

section Loop
variable {n : ℕ} {i₀ : Fin n} {outs : ℕ → HostChoice} {base j : ℕ} {d V : Db} {l : Txn shop}

theorem plays_sleep {answers : HostAct → ℕ → HostChoice → Prop} {q : Rat}
    {Q : Except (Exn AppErr) Unit → Db → ℕ → Txn shop → Prop} {v : ℕ} (h : Q (.ok ()) d v l) :
    Plays (o := providerCalls) answers i₀ Q (sleep q) d v l := by
  apply Plays.host
  intro c s r s' hv _ hst
  cases c <;> simp only [HostAct.step, Option.some.injEq, Prod.mk.injEq, reduceCtorEq] at hst
  obtain ⟨rfl, rfl⟩ := hst
  rw [hv]
  exact h

theorem plays_createPspOrder (req : PspRequest) {Q : Except (Exn AppErr) PspResponse → Db → ℕ → Txn shop → Prop}
    (hok : ∀ body, outs j = .response body → Q (.ok body) d (base + j + 1) l)
    (herr : ∀ e, outs j = .fails e → Q (.error (.app e)) d (base + j + 1) l) :
    Plays (o := providerCalls) (providerAnswers outs base) i₀ Q (createPspOrder req) d (base + j) l := by
  apply Plays.host
  intro c s r s' hv hc hst
  have hout : c = outs j := by
    change c = outs (base + j - base) at hc
    rwa [Nat.add_sub_cancel_left] at hc
  have hlen : s.pspCalls.length = base + j := hv
  cases c <;> simp only [HostAct.step, Option.some.injEq, Prod.mk.injEq, reduceCtorEq] at hst
  · obtain ⟨rfl, rfl⟩ := hst
    change Q _ d (s.pspCalls ++ [req]).length l
    rw [List.length_append, hlen]
    exact hok _ hout.symm
  · obtain ⟨rfl, rfl⟩ := hst
    change Q _ d (s.pspCalls ++ [req]).length l
    rw [List.length_append, hlen]
    exact herr _ hout.symm

/-- Within the transaction over `d`, the calls so far have their attempts; other payments are as in `V`. -/
structure Tried (outs : ℕ → HostChoice) (V d : Db) (payId calls : ℕ) (l : Txn shop) : Prop where
  live : l.aborted = false
  log : attemptLog (l.view d) payId = expectedLog outs calls
  payments : l.view d .payment = V .payment

/-- An attempt has been inserted, and its call not made. -/
structure Trying (outs : ℕ → HostChoice) (V d : Db) (payId calls attemptId : ℕ) (l : Txn shop) : Prop where
  live : l.aborted = false
  view : ∃ d₁ : Db, attemptLog d₁ payId = expectedLog outs calls ∧ d₁ .payment = V .payment ∧
    (∀ b : PaymentAttempt, b ∈ d₁ .paymentAttempt → b.id < attemptId) ∧
      l.view d = d₁.put .paymentAttempt ⟨attemptId, payId, calls + 1, PaymentAttemptStatus.pending.value, none⟩

/-- Within the transaction over `d`, the attempts of the payment are these; other payments are as in `V`. -/
structure Noted (V d : Db) (payId : ℕ) (log : List (ℕ × ℕ)) (l : Txn shop) : Prop where
  live : l.aborted = false
  log : attemptLog (l.view d) payId = log
  payments : l.view d .payment = V .payment

/-- After these attempts another has been inserted. -/
structure Noting (V d : Db) (payId : ℕ) (log : List (ℕ × ℕ)) (attemptNo status attemptId : ℕ) (l : Txn shop) :
    Prop where
  live : l.aborted = false
  view : ∃ d₁ : Db, attemptLog d₁ payId = log ∧ d₁ .payment = V .payment ∧
    (∀ b : PaymentAttempt, b ∈ d₁ .paymentAttempt → b.id < attemptId) ∧
      l.view d = d₁.put .paymentAttempt ⟨attemptId, payId, attemptNo, status, none⟩

theorem Tried.noted {payId : ℕ} (h : Tried outs V d payId j l) : Noted V d payId (expectedLog outs j) l :=
  ⟨h.live, h.log, h.payments⟩

theorem plays_noteAttempt {answers : HostAct → ℕ → HostChoice → Prop} {payId v attemptNo status : ℕ}
    {log : List (ℕ × ℕ)} {Q : Except (Exn AppErr) ℕ → Db → ℕ → Txn shop → Prop} (h : Noted V d payId log l)
    (hQ : ∀ m l', Noting V d payId log attemptNo status m l' → Q (.ok m) d v l') :
    Plays (o := providerCalls) answers i₀ Q (recordPaymentAttempt payId attemptNo status) d v l := by
  apply Plays.bind
  apply Plays.bind
  apply Plays.insert
  · intro m hm _ _
    apply Plays.pure
    exact Plays.pure (hQ m _ ⟨h.live, l.view d, h.log, h.payments, hm, rfl⟩)
  · intro m hfree
    exact absurd (fun _ _ k hk => by cases hk) hfree
  · intro ha
    rw [h.live] at ha
    cases ha

theorem plays_noteOutcome {answers : HostAct → ℕ → HostChoice → Prop} {payId v attemptNo status status' m : ℕ}
    {log : List (ℕ × ℕ)} {resp : Json} {Q : Except (Exn AppErr) Unit → Db → ℕ → Txn shop → Prop}
    (h : Noting V d payId log attemptNo status m l)
    (hQ : ∀ l', Noted V d payId (log ++ [(attemptNo, status')]) l' → Q (.ok ()) d v l') :
    Plays (o := providerCalls) answers i₀ Q (updatePaymentAttemptResp m status' resp) d v l := by
  apply Plays.bind
  apply Plays.update (S := shop) (t := .paymentAttempt)
  · exact fun _ => rfl
  · intro hwf _ l' hu
    apply Plays.pure
    apply hQ
    obtain ⟨d₁, hlog, hpay, hfresh, hview⟩ := h.view
    have hrows : (l.view d .paymentAttempt).filter (fun a : PaymentAttempt => decide (a.id = m)) =
        [⟨m, payId, attemptNo, status, none⟩] := by
      have hget : (l.view d).get .paymentAttempt m = some ⟨m, payId, attemptNo, status, none⟩ := by
        rw [hview]
        exact Store.get_put_self (S := shop) d₁ .paymentAttempt _
      have hfilter := Store.filter_id (S := shop) hwf.ids .paymentAttempt m
      rw [hget] at hfilter
      exact hfilter
    have hview' : l'.view d = (l.view d).put .paymentAttempt ⟨m, payId, attemptNo, status', some resp⟩ := by
      rw [Txn.view, hu.writes, hrows]
      rfl
    refine ⟨hu.aborted.trans h.live, ?_, ?_⟩
    · rw [hview', hview, ← hlog]
      exact attemptLog_noted hfresh rfl rfl
    · rw [hview', Store.put_of_ne _ _ (by decide), hview, Store.put_of_ne _ _ (by decide), hpay]
  · intro ha
    rw [h.live] at ha
    cases ha

theorem plays_recordPaymentAttempt {answers : HostAct → ℕ → HostChoice → Prop} {payId v : ℕ}
    {Q : Except (Exn AppErr) ℕ → Db → ℕ → Txn shop → Prop} (h : Tried outs V d payId j l)
    (hQ : ∀ m l', Trying outs V d payId j m l' → Q (.ok m) d v l') :
    Plays (o := providerCalls) answers i₀ Q
      (recordPaymentAttempt payId (j + 1) PaymentAttemptStatus.pending.value) d v l := by
  apply plays_noteAttempt h.noted
  exact fun m l' hnoting => hQ m l' ⟨hnoting.live, hnoting.view⟩

theorem plays_updatePaymentAttemptResp {answers : HostAct → ℕ → HostChoice → Prop} {payId v m : ℕ}
    {resp : Json} {Q : Except (Exn AppErr) Unit → Db → ℕ → Txn shop → Prop}
    (h : Trying outs V d payId j m l) (hQ : ∀ l', Tried outs V d payId (j + 1) l' → Q (.ok ()) d v l') :
    Plays (o := providerCalls) answers i₀ Q
      (updatePaymentAttemptResp m (outs j).attemptStatus.value resp) d v l := by
  have hnoting : Noting V d payId (expectedLog outs j) (j + 1) PaymentAttemptStatus.pending.value m l :=
    ⟨h.live, h.view⟩
  apply plays_noteOutcome hnoting
  rw [← expectedLog_succ]
  exact fun l' hnoted => hQ l' ⟨hnoted.live, hnoted.log, hnoted.payments⟩

/-- The loop has ended, and every call has its attempt. -/
def Concluded (outs : ℕ → HostChoice) (V d : Db) (base payId max : ℕ) (r : Except (Exn AppErr) PspResult)
    (d' : Db) (v : ℕ) (l : Txn shop) : Prop :=
  ∃ res calls, r = .ok res ∧ d' = d ∧ v = base + calls ∧ 0 < calls ∧ Tried outs V d payId calls l ∧
    Verdict outs max calls res

theorem plays_giveUp {payId max m k : ℕ} {e : AppErr} {ex : Exn AppErr} {exc : Option (Exn AppErr)} {resp : Json}
    (h : Trying outs V d payId j m l) (hall : ∀ i < j, (outs i).retried) (hout : outs j = .fails e)
    (hfinal : (outs j).retried = false) :
    Plays (o := providerCalls) (providerAnswers outs base) i₀ (Concluded outs V d base payId max)
      (updatePaymentAttemptResp m PaymentAttemptStatus.failed.value resp >>= fun _ =>
        pure ⟨none, some ex, exc, k⟩) d (base + j + 1) l := by
  have hstatus : (outs j).attemptStatus = .failed := by
    rw [hout] at hfinal ⊢
    exact attemptStatus_of_final hfinal
  apply Plays.bind
  rw [← hstatus]
  apply plays_updatePaymentAttemptResp h
  intro l' htried
  exact Plays.pure ⟨_, j + 1, rfl, rfl, rfl, Nat.succ_pos j, htried, .refused hall hout hfinal⟩

theorem retryWrapper_plays (req : PspRequest) {payId max : ℕ} (backoffBase : Rat) {k : ℕ}
    {exc : Option (Exn AppErr)} (h : Tried outs V d payId j l) (hmax : j + k = max) (hpos : 0 < max)
    (hall : ∀ i < j, (outs i).retried) (hexc : 0 < j → exc.isSome) :
    Plays (o := providerCalls) (providerAnswers outs base) i₀ (Concluded outs V d base payId max)
      (retryWrapper (createPspOrder req) payId max backoffBase (List.range' (j + 1) k) exc) d (base + j) l := by
  induction k generalizing j exc l with
  | zero =>
    obtain rfl : j = max := hmax
    obtain ⟨ex, rfl⟩ := Option.isSome_iff_exists.mp (hexc hpos)
    exact Plays.pure ⟨_, j, rfl, rfl, rfl, hpos, h, .exhausted hall⟩
  | succ k ih =>
    rw [List.range'_succ]
    apply Plays.bind
    apply plays_recordPaymentAttempt h
    intro m l₁ htrying
    have hretry : ∀ {ex : Exn AppErr} {resp : Json}, (outs j).retried = true →
        Plays (o := providerCalls) (providerAnswers outs base) i₀ (Concluded outs V d base payId max)
          (updatePaymentAttemptResp m PaymentAttemptStatus.retrying.value resp >>= fun _ =>
            sleep (min (backoffBase * 2 ^ j) 8) >>= fun _ => retryWrapper (createPspOrder req) payId max
              backoffBase (List.range' (j + 1 + 1) k) (some ex)) d (base + j + 1) l₁ := by
      intro ex resp hretried
      apply Plays.bind
      rw [← attemptStatus_of_retried hretried]
      apply plays_updatePaymentAttemptResp htrying
      intro l₂ htried
      apply Plays.bind
      apply plays_sleep
      apply ih htried (by omega) _ fun _ => rfl
      intro i hi
      by_cases hij : i = j
      · rw [hij]
        exact hretried
      · exact hall i (by omega)
    apply Plays.bind
    apply Plays.attempt
    apply Plays.bind
    apply plays_createPspOrder
    · intro body hout
      have hstatus : PaymentAttemptStatus.success = (outs j).attemptStatus := by
        rw [hout]
        rfl
      apply Plays.bind
      rw [hstatus]
      apply plays_updatePaymentAttemptResp htrying
      intro l₂ htried
      apply Plays.pure
      exact Plays.pure ⟨_, j + 1, rfl, rfl, rfl, Nat.succ_pos j, htried, .answered (by omega) hall hout⟩
    · intro e hout
      cases e with
      | transient msg => exact hretry (by rw [hout]; rfl)
      | httpStatus code text =>
        have hretried : (outs j).retried = code.any fun c => 500 ≤ c && c < 600 := by
          rw [hout]
          rfl
        dsimp only
        split
        · rename_i hcode
          exact hretry (hretried.trans hcode)
        · rename_i hcode
          exact plays_giveUp htrying hall hout (hretried.trans (by simpa using hcode))
      | _ => exact plays_giveUp htrying hall hout (by rw [hout]; rfl)

end Loop
end Phyllonix
