import Phyllonix.RelationalAlone
import Phyllonix.WebhookRedelivery

/-!
# Failed deliveries

When the critical section raises, the rollback takes the row of the event with it, and the
error is then recorded on no row. A delivery that fails leaves the store as it found it.
-/

namespace Phyllonix
open Relational
variable {n : ℕ}

/-- Besides what was there before, there is an unprocessed event with an error. -/
structure FailureRecorded (eventId : String) (d d' : Db) : Prop where
  event : ∃ e : PaymentWebhookEvent, e ∈ d' .paymentWebhookEvent ∧ e.provider = "razorpay" ∧
    e.providerEventId = some eventId ∧ e.lastError.isSome ∧ e.processedAt = none
  events : ∀ e : PaymentWebhookEvent, e.providerEventId ≠ some eventId →
    (e ∈ d' .paymentWebhookEvent ↔ e ∈ d .paymentWebhookEvent)
  rest : ∀ t, t ≠ .paymentWebhookEvent → d' t = d t

/-- The store is `d₀` after every exception but that of a full queue. -/
def Unpublished {α : Type} {i₀ : Fin n} (d₀ : Db) : Post (alone (S := shop) (H := shopHost) i₀) α :=
  fun r sh _ _ => ∀ e, r = .error e → e ≠ .app .queueFull → sh.db = d₀

section Delivery
variable {i₀ : Fin n} {G : Guard shop shopHost n} {sh : Shared shop shopHost} {x : Unit} {l : Txn shop}
variable {d₀ : Db}

theorem unpublished_ok {α : Type} {a : α} : (Unpublished d₀ : Post (alone i₀) α) (.ok a) sh x l :=
  fun _ he => by cases he

theorem alone_quiet (i₀ : Fin n) : Quiet (alone (S := shop) (H := shopHost) i₀) where
  inv _ _ := trivial
  next _ _ _ _ := rfl
  guar _ _ _ _ _ _ := fun _ => rfl

/-- A program that stays inside its transaction publishes nothing. -/
theorem safe_inside {α : Type} {p : Py α} (hp : p.Acts InDelivery) (hdb : sh.db = d₀) :
    Safe (alone i₀) G i₀ (Pending d₀ fun _ _ => True) p sh x l := by
  have hacts : p.Acts fun a => a.Uncommitted ∧ a.Confined fun _ => True := by
    apply hp.mono
    intro a ha
    refine ⟨ha.2.uncommitted, ?_⟩
    cases a <;> simp [Action.Confined]
  apply (Safe.pending_acts hacts hdb fun _ _ => trivial).mono
  intro r sh' x' l' hr
  cases r with
  | ok a => exact ⟨hr.1, trivial⟩
  | error e => exact hr

theorem safe_settling {α : Type} {k : ℕ} {p : Py α} (hp : p.Acts (InSettling k)) (hdb : sh.db = d₀) :
    Safe (alone i₀) G i₀ (Pending d₀ fun _ _ => True) p sh x l :=
  safe_inside (hp.mono fun _ ha => ha.1) hdb

/-- Nothing is raised after the commit of the critical section. -/
theorem criticalSection_unpublished (payId : ℕ) (f : PaymentFields) (st : PayOrderStatus) (evId : ℕ)
    (hdb : sh.db = d₀) :
    Safe (alone i₀) G i₀ (fun r sh' _ _ => ∀ e, r = .error e → sh'.db = d₀)
      (criticalSection payId f st evId) sh x l := by
  apply Safe.bind_pending (safe_settling (updatePayCompletion_acts (k := evId) _ _ _) hdb)
  · intro o sh₁ x₁ l₁ hdb₁ _
    match o with
    | none => exact nofun
    | some 0 => exact nofun
    | some (o + 1) =>
      apply Safe.bind_pending (safe_settling (updateOrderStatus_acts (k := evId) _ _) hdb₁)
      · intro _ sh₂ x₂ l₂ hdb₂ _
        apply Safe.bind_pending (safe_settling (emitPaymentEvents_acts (k := evId) _ _ _) hdb₂)
        · intro out sh₃ x₃ l₃ hdb₃ _
          apply Safe.bind_pending (safe_settling (markWebhookProcessed_acts _ _) hdb₃)
          · intro _ sh₄ x₄ l₄ hdb₄ _
            apply Safe.bind
            apply Safe.commit
            · exact fun w y hs _ => ⟨trivial, fun h => absurd rfl h, nofun⟩
            · exact fun _ w y hs e l' _ _ _ => hs.db_alone.trans hdb₄
          · exact fun _ _ _ _ hdb _ _ => hdb
        · exact fun _ _ _ _ hdb _ _ => hdb
      · exact fun _ _ _ _ hdb _ _ => hdb
  · exact fun _ _ _ _ hdb _ _ => hdb

/-- After the rollback there is no row to record the error on. -/
theorem recordWebhookError_unpublished (st : PayOrderStatus) {evId : ℕ} (hdb : sh.db = d₀)
    (hfresh : ∀ r : PaymentWebhookEvent, r ∈ d₀ .paymentWebhookEvent → r.id ≠ evId) :
    Safe (alone i₀) G i₀ (fun _ sh' _ _ => sh'.db = d₀) (recordWebhookError evId st) sh x l := by
  apply Safe.bind
  apply Safe.rollback
  intro w y hs r
  have hw : w.db = d₀ := hs.db_alone.trans hdb
  cases r with
  | error e => exact hw
  | ok _ =>
    apply Safe.bind
    apply Safe.bind
    apply Safe.update
    · intro w₁ y₁ hs₁ l' hu
      have hw₁ : w₁.db = d₀ := hs₁.db_alone.trans hw
      have hnone : (w₁.db .paymentWebhookEvent).filter
          (fun e : PaymentWebhookEvent => decide (e.id = evId)) = [] := by
        apply List.filter_eq_nil_iff.mpr
        intro e he
        rw [hw₁] at he
        simpa using hfresh e he
      have hwrites : l'.writes = [] := by
        have hview : l.reset.view w₁.db = w₁.db := rfl
        rw [hu.writes, hview, hnone]
        rfl
      apply Safe.commit
      · intro w₂ y₂ hs₂ _
        refine ⟨trivial, fun h => absurd rfl h, ?_⟩
        change l'.view w₂.db = d₀
        rw [Txn.view_of_no_writes hwrites, hs₂.db_alone]
        exact hw₁
      · exact fun _ w₂ y₂ hs₂ e l' _ => hs₂.db_alone.trans hw₁
    · exact fun _ w₁ y₁ hs₁ e l' _ => hs₁.db_alone.trans hw

theorem processEvent_unpublished {pay : PayRecord} {f : PaymentFields} {st : PayOrderStatus} {evId : ℕ}
    (hdb : sh.db = d₀) (hfresh : ∀ r : PaymentWebhookEvent, r ∈ d₀ .paymentWebhookEvent → r.id ≠ evId) :
    Safe (alone i₀) G i₀ (Unpublished d₀) (processEvent pay f st evId) sh x l := by
  have hpublish : ∀ (m : Message) sh x l, Safe (alone i₀) G i₀ (Unpublished d₀) (publish m) sh x l := by
    intro m sh x l
    apply safe_hostCall (alone_quiet i₀)
    intro w y hs c r s hst _ e he hne
    cases c <;> simp only [HostAct.step, Option.some.injEq, Prod.mk.injEq, reduceCtorEq] at hst
    · obtain ⟨rfl, rfl⟩ := hst
      cases he
    · obtain ⟨rfl, rfl⟩ := hst
      cases he
      exact absurd rfl hne
  apply Safe.bind
  apply Safe.attempt
  apply (criticalSection_unpublished pay.id f st evId hdb).mono
  intro r sh₁ x₁ l₁ hr
  cases r with
  | error e =>
    have hdb₁ : sh₁.db = d₀ := hr e rfl
    apply Safe.bind
    apply Safe.attempt
    apply (recordWebhookError_unpublished st hdb₁ hfresh).mono
    exact fun _ _ _ _ hdb₂ _ _ _ => hdb₂
  | ok out =>
    cases out with
    | none => exact unpublished_ok
    | some out =>
      apply Safe.bind
      have hout : Safe (alone i₀) G i₀ (Unpublished d₀) (publishCommitted out) sh₁ x₁ l₁ := by
        rw [publishCommitted]
        split
        · apply Safe.bind
          apply (hpublish _ _ _ _).mono
          intro r sh₂ x₂ l₂ hr
          cases r with
          | error e => exact fun e' he' => hr e' (by cases he'; rfl)
          | ok _ =>
            dsimp only
            split
            · exact hpublish _ _ _ _
            · exact unpublished_ok
        · exact unpublished_ok
      apply hout.mono
      intro r sh₂ x₂ l₂ hr
      cases r with
      | error e => exact fun e' he' => hr e' (by cases he'; rfl)
      | ok _ => exact unpublished_ok

theorem receiveEvent_unpublished (eventId : String) (payload event : Json) (pay : PayRecord)
    (f : PaymentFields) (hdb : sh.db = d₀) (hl : l.writes = []) :
    Safe (alone i₀) G i₀ (Unpublished d₀) (receiveEvent eventId payload event pay f) sh x l := by
  apply Safe.bind
  apply safe_ofApp
  · intro st _
    apply Safe.bind
    apply Safe.bind
    apply Safe.insert
    · intro w y hs m hm _
      have hw : w.db = d₀ := hs.db_alone.trans hdb
      have hfresh : ∀ r : PaymentWebhookEvent, r ∈ d₀ .paymentWebhookEvent → r.id ≠ m := by
        intro r hr
        rw [Txn.view_of_no_writes hl, hw] at hm
        exact Nat.ne_of_lt (hm r hr)
      change Safe _ _ _ _ (if (!st.isValidEvent) = true then pure (okNote "ignored: no valid event")
        else processEvent pay f st m) _ _ _
      split
      · exact nofun
      · exact processEvent_unpublished hw hfresh
    · intro _ w y hs m _
      have hw : w.db = d₀ := hs.db_alone.trans hdb
      change Safe _ _ _ _ (if (!st.isValidEvent) = true then pure (okNote "ignored: no valid event")
        else raiseApp (.typeError "'NoneType' object is not subscriptable")) _ _ _
      split
      · exact nofun
      · exact fun _ _ _ => hw
    · exact fun w y hs e l' _ _ _ _ => hs.db_alone.trans hdb
  · exact fun _ _ _ _ => hdb

theorem razorpayWebhook_unpublished (lib : Lib) (req : WebhookRequest) (hdb : sh.db = d₀) :
    Safe (alone i₀) G i₀ (Unpublished d₀) (razorpayWebhook lib req) sh x {} := by
  have hmark : ∀ (ev : Option String) payload err st (reply : Reply) sh x l, sh.db = d₀ →
      Safe (alone i₀) G i₀ (Unpublished d₀) (do
        let _ ← markWebhookReceived ev "razorpay" payload none err st
        pure reply) sh x l := by
    intro ev payload err st reply sh x l hdb
    apply Safe.bind_pending (safe_inside (markWebhookReceived_acts _ _ _ _ _ _) hdb)
    · exact fun _ _ _ _ _ _ => nofun
    · exact fun _ _ _ _ hdb _ _ _ => hdb
  apply Safe.bind
  cases verifyRazorpaySignature_cases lib req with
  | inr h =>
    obtain ⟨m, hm⟩ := h
    rw [hm]
    exact fun _ _ _ => hdb
  | inl h =>
    rw [h]
    apply Safe.pure
    cases hjson : req.json with
    | none => exact fun _ _ _ => hdb
    | some payload =>
      apply Safe.bind
      apply safe_ofApp _ fun _ _ _ _ => hdb
      intro event _
      dsimp only
      split
      · exact fun _ _ _ => hdb
      · exact fun _ _ _ => hdb
      · apply Safe.bind
        apply safe_ofApp _ fun _ _ _ _ => hdb
        intro f _
        apply Safe.bind
        apply Safe.bind
        apply safe_ofApp _ fun _ _ _ _ => hdb
        intro poid _
        apply Safe.bind
        apply Safe.read
        · intro w y hs
          have hw : w.db = d₀ := hs.db_alone.trans hdb
          apply Safe.bind
          apply safe_oneOrNone
          · intro _
            apply Safe.pure
            exact hmark _ _ _ _ _ _ _ _ hw
          · intro p _
            apply Safe.pure
            dsimp only [Option.map]
            split
            · exact hmark _ _ _ _ _ _ _ _ hw
            · exact hmark _ _ _ _ _ _ _ _ hw
            · split
              · exact fun _ _ _ => hw
              · exact receiveEvent_unpublished _ _ _ _ _ hw rfl
          · exact fun _ _ _ => hw
        · exact fun _ w y hs e l' _ _ _ _ => hs.db_alone.trans hdb

end Delivery
/-- A delivery that runs alone and ends with an exception, before or in the critical section and
wherever a statement failed, leaves the store as it was: the event, when it was new, is on no row.
A recorded event does not reach the critical section, and after its commit only a full queue raises. -/
theorem failure_never_recorded (lib : Lib) {reqs : Fin n → WebhookRequest} {w : World shop shopHost}
    (hw : w.Ok) {i : Fin n} {s : Sys shop shopHost n (Except (Exn AppErr) Reply)}
    (hrun : Sys.Run (Guard.only i) History.none (deliveries lib reqs w) () s ()) {e : Exn AppErr}
    (hout : s.outcome i = some (.error e)) (hne : e ≠ .app .queueFull) :
    s.world.db = w.db ∧
      ∀ eventId, ¬EventRecorded w.db eventId → ¬FailureRecorded eventId w.db s.world.db := by
  have hsafe : Safe (alone i) (Guard.only i) i
      (fun r sh _ _ => ∀ e, r = .ok (.error e) → e ≠ .app .queueFull → sh.db = w.db)
      (razorpayWebhook lib (reqs i)).session w.toShared () {} := by
    apply Safe.session
    apply (razorpayWebhook_unpublished lib (reqs i) rfl).mono
    intro r sh x l hr w' y hs e' he' hne'
    cases he'
    exact hs.db_alone.trans (hr e' rfl hne')
  obtain ⟨host, l, hq⟩ := Sys.Run.alone hw hrun hsafe hout
  have hdb : s.world.db = w.db := hq e rfl hne
  refine ⟨hdb, fun eventId hfresh hrec => ?_⟩
  obtain ⟨ev, hev, hprov, hid, -⟩ := hrec.event
  rw [hdb] at hev
  exact hfresh ⟨ev, hev, hprov, hid⟩

/-- The first delivery of the capture, whose commit fails; the recovery goes through. -/
def failedDelivery : List (Label shopHost 2) :=
  .replicate 7 (.proc 0 .go) ++ [.proc 0 (.host .proceed), .proc 0 .go, .proc 0 .fault] ++
    .replicate 4 (.proc 0 .go)

theorem failed_capture_unrecorded : ∃ s,
    (deliveries plainLib captureTwice oneAccepted).exec (Guard.only 0) failedDelivery = some s ∧
      (s.outcome 0).map statusCode = some 500 ∧ ¬FailureRecorded "e1" oneAccepted.db s.world.db := by
  have hplay : (((deliveries plainLib captureTwice oneAccepted).exec (Guard.only 0) failedDelivery).map fun s =>
      ((s.outcome 0).map statusCode, (s.world.db .paymentWebhookEvent).length)) = some (some 500, 0) := by
    decide +kernel
  obtain ⟨s, hs, hout⟩ := Option.map_eq_some_iff.mp hplay
  obtain ⟨hcode, hlen⟩ := Prod.mk.inj hout
  refine ⟨s, hs, hcode, fun hrec => ?_⟩
  obtain ⟨ev, hev, -⟩ := hrec.event
  rw [List.eq_nil_of_length_eq_zero hlen] at hev
  cases hev

def faulted : Option (Except (Exn AppErr) Reply) → Bool
  | some (.error .fault) => true
  | _ => false

theorem failure_never_recorded_capture : ∃ s : Sys shop shopHost 2 (Except (Exn AppErr) Reply),
    s.outcome 0 = some (.error .fault) ∧ s.world.db = oneAccepted.db ∧
      ∀ eventId, ¬EventRecorded oneAccepted.db eventId → ¬FailureRecorded eventId oneAccepted.db s.world.db := by
  have hplay : ((deliveries plainLib captureTwice oneAccepted).exec (Guard.only 0) failedDelivery).map
      (fun s => faulted (s.outcome 0)) = some true := by decide +kernel
  obtain ⟨s, hs, hout⟩ := Option.map_eq_some_iff.mp hplay
  obtain ⟨⟨⟩, hrun⟩ := Sys.run_of_exec History.none () hs
  have hfault : s.outcome 0 = some (.error .fault) := by
    unfold faulted at hout
    split at hout
    · assumption
    · cases hout
  exact ⟨s, hfault, failure_never_recorded plainLib oneAccepted_ok hrun hfault fun he => by cases he⟩

end Phyllonix
