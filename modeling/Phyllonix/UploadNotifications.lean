import Phyllonix.UploadEvents

/-!
# The webhook of the image host writes to a table that is gone

The notification handler names the table that the last migration of the event tables drops, the
worker the one that it creates. So no notification is recorded, answered 200 or handed to a worker.
-/

namespace Phyllonix.Uploads
open Async

variable {n : ℕ}

/-- The table that the worker locks and marks. -/
def State.eventRows (s : State n) : List (UploadsWebhookEvent Payload) :=
  ((s.tables "uploadswebhookevent").map EventTable.rows).getD []

/-- What is expected of notifications in a run from `s₀` to `s`. -/
structure UploadLaw (roles : Fin n → Role) (s₀ s : Host n) : Prop where
  answered : ∀ i payload, roles i = .notification payload → s.outcome i = some (.ok (some 200))
  recorded : ∀ i payload, roles i = .notification payload →
    (s.state.eventRows.countP fun r => r.providerEventId = providerEventId payload) = 1
  enqueued : ∀ m ∈ s.state.published, ∀ payload, roles m.sender = .notification payload →
    ∃ r ∈ s.state.eventRows, r.providerEventId = providerEventId payload ∧ r.id = m.data.eventId
  /-- A notification whose event was processed before its first step. -/
  repeated : ∀ s₁, Sys.Reach anyStep s₀ s₁ → Sys.Reach anyStep s₁ s →
    ∀ i payload, roles i = .notification payload → (∀ x ∈ s₁.log, x.1 ≠ i) →
      (∃ r ∈ s₁.state.eventRows, r.providerEventId = providerEventId payload ∧ r.processedAt.isSome) →
      ∀ m ∈ s.state.published, m.sender ≠ i

/-! ## The dropped table -/

theorem migrated_provider : migrated Payload "providerwebhookevent" = none := rfl

theorem migrated_uploads : migrated Payload "uploadswebhookevent" = some
    ⟨["id", "provider_event_id", "provider", "payload", "received_at", "processed_at", "attempts"], []⟩ :=
  rfl

theorem onEvents_dropped {α : Type} {table : String} {s : State n} {columns : List String}
    {f : EventTable Payload → α × State n} (h : s.tables table = none) :
    s.onEvents table columns f = (.error (.db .database), s) := by
  rw [State.onEvents, State.find, h]
  rfl

/-- An insertion into a table that is not there raises, and changes nothing. -/
theorem insertEvent_step {table peid : String} {payload : Payload} {s s' : State n} {c : Choice}
    {r : Except Err (Option (ℕ × Option ℕ))} (h : s.tables table = none)
    (hstep : (Op.insertEvent table peid payload).step c s = some (r, s')) :
    (∃ e, r = .error (.db e)) ∧ s' = s := by
  have hrun : (Op.insertEvent table peid payload).run s = (.error (.db .database), s) := onEvents_dropped h
  have hanswer : ∃ e, (Op.insertEvent table peid payload).step c s = some (.error (.db e), s) := by
    cases c with
    | works => exact ⟨.database, congrArg some hrun⟩
    | fails e => exact ⟨e, rfl⟩
    | sends checksum => exact ⟨.database, congrArg some hrun⟩
  obtain ⟨e, he⟩ := hanswer
  obtain ⟨hr, hs⟩ := Prod.mk.inj (Option.some.inj (hstep.symm.trans he))
  exact ⟨⟨e, hr⟩, hs⟩

/-- A worker waits as long as nothing is published. -/
theorem getTask_waits {s : State n} (h : s.published = []) (c : Choice) : Op.getTask.step c s = none := by
  have hwaits : (Op.getTask (n := n)).Waits s := by
    change s.published.length ≤ s.taken
    rw [h]
    exact Nat.zero_le _
  rw [Op.step, if_pos hwaits]

/-! ## Runs -/

/-- Nothing has happened to the tables and the queue. -/
structure Untouched (s : State n) : Prop where
  tables : s.tables = migrated Payload
  published : s.published = []

def protocol : Protocol (machine n) n anyStep where
  inv sh := Untouched sh.state
  rely _ _ _ := True
  rely_refl _ _ := trivial
  rely_trans _ _ := trivial
  env_inv _ _ h _ := ⟨h.tables, h.published⟩
  env_rely _ _ _ _ := trivial

theorem safe_respond {i : Fin n} {payload : Payload} {sh : Shared (machine n) n} :
    Safe protocol i (fun r _ => r = .ok (some 500)) (respond i (some payload)) sh := by
  intro now _ hinv c r sh' hperforms _
  have hdropped : now.state.tables "providerwebhookevent" = none := by
    rw [hinv.tables]
    exact migrated_provider
  have hstep : (Op.insertEvent "providerwebhookevent" (providerEventId payload) payload).step c now.state =
      some (r, sh'.state) := hperforms.1
  obtain ⟨⟨e, he⟩, hstate⟩ := insertEvent_step hdropped hstep
  have hinv' : Untouched sh'.state := hstate ▸ hinv
  refine ⟨hinv', fun _ _ => trivial, ?_⟩
  subst he
  cases e <;> exact rfl

theorem safe_worker {i : Fin n} {tasks : ℕ} {sh : Shared (machine n) n} :
    Safe protocol i (fun r _ => r = .ok none) (worker i tasks) sh := by
  cases tasks with
  | zero => exact rfl
  | succ tasks =>
    intro now _ hinv c r sh' hperforms _
    cases (getTask_waits hinv.published c).symm.trans hperforms.1

/-- What the coroutine of a role ends with. -/
def Role.result : Role → Option ℕ
  | .notification _ => some 500
  | .worker _ => none

variable {roles : Fin n → Role} {clock : ℕ} {images : List ProductImage} {s : Host n}

/-- Whatever is sent in whatever order, nothing is recorded or enqueued, and every notification that
has been answered was answered 500. -/
theorem notifications_refused (h : Sys.Reach anyStep (start roles clock images) s) :
    s.state.eventRows = [] ∧ s.state.published = [] ∧
      ∀ i r, s.outcome i = some r → r = .ok (roles i).result := by
  have hsafe : ∀ i, Safe protocol i (fun r _ => r = .ok (roles i).result) ((start roles clock images).procs i)
      (start roles clock images).toShared := by
    intro i
    change Safe protocol i _ (body roles i) _
    unfold body
    cases roles i with
    | notification payload => exact safe_respond
    | worker tasks => exact safe_worker
  obtain ⟨hinv, hknown⟩ := reach_safe (P := protocol) ⟨rfl, rfl⟩ hsafe h
  refine ⟨?_, hinv.published, fun i r hr => ?_⟩
  · rw [State.eventRows, hinv.tables, migrated_uploads]
    rfl
  · obtain ⟨sh, hk⟩ := hknown i
    exact hk.outcome hr

/-- The law holds only of runs without notifications. -/
theorem upload_law_iff (h : Sys.Reach anyStep (start roles clock images) s) :
    UploadLaw roles (start roles clock images) s ↔ ∀ i payload, roles i ≠ .notification payload := by
  obtain ⟨-, -, hanswers⟩ := notifications_refused h
  constructor
  · intro hlaw i payload hrole
    have hrefused := hanswers i _ (hlaw.answered i payload hrole)
    rw [hrole] at hrefused
    cases hrefused
  · intro hnone
    exact {
      answered := fun i payload hrole => absurd hrole (hnone i payload)
      recorded := fun i payload hrole => absurd hrole (hnone i payload)
      enqueued := fun m _ payload hrole => absurd hrole (hnone m.sender payload)
      repeated := fun _ _ _ i payload hrole => absurd hrole (hnone i payload) }

/-! ## One notification and one worker -/

def lampImage : ProductImage := ⟨1, none, "0199", some "products/lamp", .pendingUploaded⟩

def lampPayload : Payload := ⟨some "a1b2", some "lamp", some 1, some "images/0199", some "https://host/lamp", none⟩

def lampRoles : Fin 2 → Role
  | 0 => .notification lampPayload
  | 1 => .worker 1

theorem upload_law_iff_lamp : ∃ s : Host 2,
    (start lampRoles 0 [lampImage]).exec anyStep [.proc 0 .works] = some s ∧
    (UploadLaw lampRoles (start lampRoles 0 [lampImage]) s ↔
      ∀ i payload, lampRoles i ≠ .notification payload) := by
  have hruns : ((start lampRoles 0 [lampImage]).exec anyStep [.proc 0 .works]).isSome := by decide +kernel
  obtain ⟨s, hs⟩ := Option.isSome_iff_exists.1 hruns
  exact ⟨s, hs, upload_law_iff (Sys.Reach.start.exec hs)⟩

/-- The notification for an image that exists ends with 500. -/
theorem lamp_refused : ∃ s : Host 2, Sys.Reach anyStep (start lampRoles 0 [lampImage]) s ∧
    s.outcome 0 = some (.ok (some 500)) ∧ ¬UploadLaw lampRoles (start lampRoles 0 [lampImage]) s := by
  have hruns : ((start lampRoles 0 [lampImage]).exec anyStep [.proc 0 .works]).map
      (fun s => (s.outcome 0).isSome) = some true := by decide +kernel
  obtain ⟨s, hs, hended⟩ := Option.map_eq_some_iff.1 hruns
  have hreach : Sys.Reach anyStep (start lampRoles 0 [lampImage]) s := Sys.Reach.start.exec hs
  obtain ⟨r, hr⟩ := Option.isSome_iff_exists.1 hended
  have hanswer : r = .ok (some 500) := (notifications_refused hreach).2.2 0 r hr
  refine ⟨s, hreach, hanswer ▸ hr, fun hlaw => ?_⟩
  have h200 := hlaw.answered 0 lampPayload rfl
  rw [hr, hanswer] at h200
  cases h200

end Phyllonix.Uploads
