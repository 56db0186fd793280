import Phyllonix.UploadNotifications

/-!
# Deliveries of upload events

The worker's handler runs on events, each run in its own session, in any interleaving. The event
tables are those of the migrations, with any rows.
-/

namespace Phyllonix.Uploads
open Async

variable {n : ℕ}

/-! ## Rows of events -/

def State.eventRow (s : State n) (id : ℕ) : Option (UploadsWebhookEvent Payload) := s.eventRows.find? (·.id = id)

def State.Processed (s : State n) (id : ℕ) : Prop := ∃ r, s.eventRow id = some r ∧ r.processedAt.isSome

def uploadsColumns : List String :=
  ["id", "provider_event_id", "provider", "payload", "received_at", "processed_at", "attempts"]

structure Migrated (s : State n) : Prop where
  provider : s.tables "providerwebhookevent" = none
  uploads : ∃ rows, s.tables "uploadswebhookevent" = some ⟨uploadsColumns, rows⟩

/-- What becomes of the row of an event: it stays, and once processed it stays so. -/
def RowKept (r r' : Option (UploadsWebhookEvent Payload)) : Prop :=
  ∀ x, r = some x → ∃ y, r' = some y ∧ (x.processedAt.isSome → y.processedAt.isSome)

/-- What all statements keep. -/
structure Keeps (s s' : State n) : Prop where
  migrated : Migrated s → Migrated s'
  rows : ∀ id, RowKept (s.eventRow id) (s'.eventRow id)

theorem RowKept.refl (r : Option (UploadsWebhookEvent Payload)) : RowKept r r := fun x hx => ⟨x, hx, id⟩

theorem RowKept.trans {r r' r'' : Option (UploadsWebhookEvent Payload)} (h : RowKept r r') (h' : RowKept r' r'') :
    RowKept r r'' := by
  intro x hx
  obtain ⟨y, hy, hxy⟩ := h x hx
  obtain ⟨z, hz, hyz⟩ := h' y hy
  exact ⟨z, hz, fun hprocessed => hyz (hxy hprocessed)⟩

namespace Keeps
variable {s s' s'' : State n}

theorem of_tables (h : s'.tables = s.tables) : Keeps s s' := by
  refine ⟨fun hs => ?_, fun id => ?_⟩
  · refine ⟨?_, ?_⟩
    · rw [h]
      exact hs.provider
    · rw [h]
      exact hs.uploads
  · rw [State.eventRow, State.eventRow, State.eventRows, State.eventRows, h]
    exact .refl _

theorem refl (s : State n) : Keeps s s := .of_tables rfl

theorem trans (h : Keeps s s') (h' : Keeps s' s'') : Keeps s s'' :=
  ⟨fun hs => h'.migrated (h.migrated hs), fun id => (h.rows id).trans (h'.rows id)⟩

theorem processed (h : Keeps s s') {id : ℕ} (hs : s.Processed id) : s'.Processed id := by
  obtain ⟨r, hr, hprocessed⟩ := hs
  obtain ⟨r', hr', hkept⟩ := h.rows id r hr
  exact ⟨r', hr', hkept hprocessed⟩

theorem isSome (h : Keeps s s') {id : ℕ} (hs : (s.eventRow id).isSome) : (s'.eventRow id).isSome := by
  obtain ⟨r, hr⟩ := Option.isSome_iff_exists.1 hs
  obtain ⟨r', hr', -⟩ := h.rows id r hr
  rw [hr']
  rfl

end Keeps

/-! ## Statements -/

section Statements
variable {s s' : State n} {table : String}

theorem eventRows_writeRows (f : List (UploadsWebhookEvent Payload) → List (UploadsWebhookEvent Payload)) :
    (s.writeRows table f).eventRows =
      if table = "uploadswebhookevent" ∧ (s.tables table).isSome then f s.eventRows else s.eventRows := by
  by_cases h : table = "uploadswebhookevent"
  · subst h
    rw [State.writeRows, State.eventRows, State.eventRows]
    dsimp only
    rw [Function.update_self]
    cases s.tables "uploadswebhookevent" <;> rfl
  · rw [if_neg fun hand => h hand.1, State.writeRows, State.eventRows, State.eventRows]
    dsimp only
    rw [Function.update_of_ne (Ne.symm h)]

theorem keeps_writeRows {f : List (UploadsWebhookEvent Payload) → List (UploadsWebhookEvent Payload)}
    (hf : ∀ rows id, RowKept (rows.find? (·.id = id)) ((f rows).find? (·.id = id))) :
    Keeps s (s.writeRows table f) := by
  refine ⟨fun hs => ⟨?_, ?_⟩, fun id => ?_⟩
  · rw [State.writeRows]
    dsimp only
    by_cases h : table = "providerwebhookevent"
    · subst h
      rw [Function.update_self, hs.provider]
      rfl
    · rw [Function.update_of_ne (Ne.symm h), hs.provider]
  · obtain ⟨rows, hrows⟩ := hs.uploads
    rw [State.writeRows]
    dsimp only
    by_cases h : table = "uploadswebhookevent"
    · subst h
      rw [Function.update_self, hrows]
      exact ⟨f rows, rfl⟩
    · rw [Function.update_of_ne (Ne.symm h)]
      exact ⟨rows, hrows⟩
  · rw [State.eventRow, State.eventRow, eventRows_writeRows]
    split
    · exact hf _ id
    · exact .refl _

theorem find_map_update (rows : List (UploadsWebhookEvent Payload)) (id key : ℕ)
    {f : UploadsWebhookEvent Payload → UploadsWebhookEvent Payload} (hf : ∀ r, (f r).id = r.id) :
    (rows.map fun r => if r.id = id then f r else r).find? (·.id = key) =
      (rows.find? (·.id = key)).map fun r => if r.id = id then f r else r := by
  rw [List.find?_map]
  congr 2
  funext r
  by_cases h : r.id = id <;> simp [h, hf]

theorem keeps_updateEvent {id : ℕ} {f : UploadsWebhookEvent Payload → UploadsWebhookEvent Payload}
    (hid : ∀ r, (f r).id = r.id) (hf : ∀ r, r.processedAt.isSome → (f r).processedAt.isSome) :
    Keeps s (s.updateEvent table id f) := by
  apply keeps_writeRows
  intro rows key x hx
  rw [find_map_update rows id key hid, hx]
  refine ⟨_, rfl, fun hprocessed => ?_⟩
  dsimp only
  split
  · exact hf x hprocessed
  · exact hprocessed

theorem keeps_mark (s : State n) (table : String) (id : ℕ) :
    Keeps s (s.updateEvent table id fun r => { r with processedAt := some s.clock }) :=
  keeps_updateEvent (fun _ => rfl) fun _ _ => rfl

theorem keeps_onEvents {α : Type} {columns : List String} {f : EventTable Payload → α × State n}
    (hf : ∀ t, Keeps s (f t).2) : Keeps s (s.onEvents table columns f).2 := by
  rw [State.onEvents]
  cases s.find table columns with
  | none => exact .refl s
  | some t => exact hf t

theorem keeps_run (o : Op n) : Keeps s (o.run s).2 := by
  cases o with
  | insertEvent table peid payload =>
    apply keeps_onEvents
    intro t
    split
    · exact .refl s
    · dsimp only
      refine keeps_writeRows fun rows id x hx => ⟨x, ?_, fun h => h⟩
      rw [List.find?_append, hx]
      rfl
  | selectEvent table peid => exact keeps_onEvents fun t => .refl s
  | lockEvent me table id => exact keeps_onEvents fun t => .of_tables rfl
  | setProcessed me table id => exact keeps_onEvents fun t => (keeps_mark s table id).trans (.of_tables rfl)
  | addAttempt me table id =>
    have hkeeps : Keeps s (s.updateEvent table id fun r => { r with attempts := some (r.attempts.getD 0 + 1) }) :=
      keeps_updateEvent (fun _ => rfl) fun _ h => h
    exact keeps_onEvents fun t => hkeeps.trans (.of_tables rfl)
  | link me table imageId contentId eventId =>
    rw [Op.run]
    split
    · exact .refl s
    · exact keeps_onEvents fun t => (keeps_mark s table eventId).trans (.of_tables rfl)
  | getTask =>
    rw [Op.run]
    split <;> exact .of_tables rfl
  | insertContent me checksum providerPublicId url =>
    rw [Op.run]
    split <;> exact .of_tables rfl
  | _ => exact .of_tables rfl

/-- A statement that is answered has run, or raised. -/
theorem step_cases {o : Op n} {c : Choice} {r : Except Err o.Res} (h : o.step c s = some (r, s')) :
    (∃ e, r = .error e) ∧ s' = s ∨ (r, s') = o.run s ∨ (∃ url, o = .download url) ∧ s' = s := by
  by_cases hwaits : o.Waits s
  · unfold Op.step at h
    rw [if_pos hwaits] at h
    cases h
  unfold Op.step at h
  rw [if_neg hwaits] at h
  cases c with
  | works => exact .inr (.inl (by cases o <;> exact (Option.some.inj h).symm))
  | sends checksum =>
    cases o with
    | download url => exact .inr (.inr ⟨⟨url, rfl⟩, (Prod.mk.inj (Option.some.inj h)).2.symm⟩)
    | _ => exact .inr (.inl (Option.some.inj h).symm)
  | fails e =>
    cases o with
    | getTask => exact .inr (.inl (Option.some.inj h).symm)
    | sleep t => exact .inr (.inl (Option.some.inj h).symm)
    | close me => exact .inr (.inl (Option.some.inj h).symm)
    | _ =>
      obtain ⟨hr, hs⟩ := Prod.mk.inj (Option.some.inj h)
      exact .inl ⟨⟨_, hr.symm⟩, hs.symm⟩

theorem keeps_step {o : Op n} {c : Choice} {r : Except Err o.Res} (h : o.step c s = some (r, s')) : Keeps s s' := by
  rcases step_cases h with ⟨-, rfl⟩ | hrun | ⟨-, rfl⟩
  · exact .refl _
  · exact (Prod.mk.inj hrun).2 ▸ keeps_run o
  · exact .refl _

theorem find_rows {columns : List String} {t : EventTable Payload} (h : s.find "uploadswebhookevent" columns = some t) :
    s.eventRows = t.rows := by
  obtain ⟨htable, -⟩ := Option.filter_eq_some_iff.1 h
  rw [State.eventRows, htable]
  rfl

theorem eventRow_id {id : ℕ} {r : UploadsWebhookEvent Payload} (h : s.eventRow id = some r) : r.id = id := by
  simpa using List.find?_some h

theorem lockEvent_run (hs : Migrated s) (me : Fin n) (id : ℕ) : (Op.lockEvent me "uploadswebhookevent" id).run s =
    (.ok ((s.eventRow id).map fun r => (r.id, r.processedAt, r.attempts)),
      { s with locks := Function.update s.locks id (some me) }) := by
  obtain ⟨rows, hrows⟩ := hs.uploads
  have hfind : s.find "uploadswebhookevent" ["id", "processed_at", "attempts"] = some ⟨uploadsColumns, rows⟩ := by
    rw [State.find, hrows]
    rfl
  rw [Op.run, State.onEvents, hfind, State.eventRow, find_rows hfind]

/-- A row that is locked is read as it is. -/
theorem lockEvent_reads {me : Fin n} {id : ℕ} {c : Choice} {row : Option (ℕ × Option ℕ × Option ℕ)}
    (h : (Op.lockEvent me "uploadswebhookevent" id).step c s = some (.ok row, s')) :
    row = (s.eventRow id).map fun r => (r.id, r.processedAt, r.attempts) := by
  rcases step_cases h with ⟨⟨e, he⟩, -⟩ | hrun | ⟨⟨url, hurl⟩, -⟩
  · cases he
  · rw [Op.run, State.onEvents] at hrun
    split at hrun
    · cases (Prod.mk.inj hrun).1
    next t ht =>
      rw [State.eventRow, find_rows ht]
      exact Except.ok.inj (Prod.mk.inj hrun).1
  · cases hurl

/-- The flush of a linked image and its processed event. -/
structure Links (imageId contentId eventId : ℕ) (s s' : State n) : Prop where
  images : s'.images = s.images.map fun i =>
    if i.id = imageId then { i with contentId := some contentId, status := .ready } else i
  contents : s'.contents = s.contents
  rows : ∀ id, s'.eventRow id =
    (s.eventRow id).map fun r => if r.id = eventId then { r with processedAt := some s.clock } else r

/-- The flush is refused when another image has the content. -/
theorem link_run (hs : Migrated s) (me : Fin n) (imageId contentId eventId : ℕ) :
    (∃ i ∈ s.images, i.id ≠ imageId ∧ i.contentId = some contentId) ∧
        (Op.link me "uploadswebhookevent" imageId contentId eventId).run s = (.error (.db .integrity), s) ∨
      (∀ i ∈ s.images, i.id ≠ imageId → i.contentId ≠ some contentId) ∧
        ∃ s', (Op.link me "uploadswebhookevent" imageId contentId eventId).run s = (.ok (), s') ∧
          Links imageId contentId eventId s s' := by
  by_cases h : s.images.any fun i => i.id ≠ imageId ∧ i.contentId = some contentId
  · left
    obtain ⟨i, hi, hother⟩ := List.any_eq_true.1 h
    refine ⟨⟨i, hi, of_decide_eq_true hother⟩, ?_⟩
    rw [Op.run, if_pos h]
  · right
    refine ⟨fun i hi hne heq => h (List.any_eq_true.2 ⟨i, hi, decide_eq_true ⟨hne, heq⟩⟩), ?_⟩
    obtain ⟨rows, hrows⟩ := hs.uploads
    have hfind : s.find "uploadswebhookevent" ["id", "processed_at"] = some ⟨uploadsColumns, rows⟩ := by
      rw [State.find, hrows]
      rfl
    have htable : (s.tables "uploadswebhookevent").isSome := by
      rw [hrows]
      rfl
    have hrun : (Op.link me "uploadswebhookevent" imageId contentId eventId).run s =
        (.ok (), State.unlock { s.updateEvent "uploadswebhookevent" eventId fun r =>
          { r with processedAt := some s.clock } with
            images := s.images.map fun i =>
              if i.id = imageId then { i with contentId := some contentId, status := .ready } else i } me) := by
      rw [Op.run, if_neg h, State.onEvents, hfind]
    refine ⟨_, hrun, rfl, rfl, fun id => ?_⟩
    change (State.eventRows (s.updateEvent "uploadswebhookevent" eventId _)).find? _ = _
    rw [State.updateEvent, eventRows_writeRows, if_pos ⟨rfl, htable⟩]
    exact find_map_update s.eventRows eventId id fun _ => rfl

theorem link_cases {me : Fin n} {imageId contentId eventId : ℕ} {c : Choice} {r : Except Err Unit} (hs : Migrated s)
    (h : (Op.link me "uploadswebhookevent" imageId contentId eventId).step c s = some (r, s')) :
    (∃ e, r = .error e) ∧ s' = s ∨ r = .ok () ∧ Links imageId contentId eventId s s' := by
  rcases step_cases h with hraised | hrun | ⟨⟨url, hurl⟩, -⟩
  · exact .inl hraised
  · rcases link_run hs me imageId contentId eventId with ⟨-, hrefused⟩ | ⟨-, s₁, hlinked, hlinks⟩
    · obtain ⟨hr, hs'⟩ := Prod.mk.inj (hrun.trans hrefused)
      exact .inl ⟨⟨_, hr⟩, hs'⟩
    · obtain ⟨hr, hs'⟩ := Prod.mk.inj (hrun.trans hlinked)
      exact .inr ⟨hr, hs' ▸ hlinks⟩
  · cases hurl

theorem Links.processed {imageId contentId id : ℕ} (h : Links imageId contentId id s s')
    (hrow : (s.eventRow id).isSome) : s'.Processed id := by
  obtain ⟨r, hr⟩ := Option.isSome_iff_exists.1 hrow
  refine ⟨{ r with processedAt := some s.clock }, ?_, rfl⟩
  rw [h.rows, hr, Option.map_some, if_pos (eventRow_id hr)]

end Statements

/-! ## Runs -/

/-- The handler runs on events, each run in its own session. -/
def deliveries (events : Fin n → EventData) (st : State n) : Sys (machine n) n Unit where
  state := st
  procs i := computeChecksumAndUpdateStatus i (events i)

/-- The row of event `id` is there. -/
def keeping (id : ℕ) : Protocol (machine n) n anyStep where
  inv sh := Migrated sh.state ∧ (sh.state.eventRow id).isSome
  rely _ sh sh' := Keeps sh.state sh'.state
  rely_refl _ _ := .refl _
  rely_trans h h' := h.trans h'
  env_inv _ _ h _ := ⟨⟨h.1.provider, h.1.uploads⟩, h.2⟩
  env_rely _ _ _ _ := .of_tables rfl

section Safety
variable {α β : Type} {id : ℕ} {i : Fin n} {sh : Shared (machine n) n}

theorem safe_wait {o : Op n} {Q : Post (machine n) n o.Res}
    (h : ∀ (now sh' : Shared (machine n) n) c r, Migrated now.state → (now.state.eventRow id).isSome →
      o.step c now.state = some (r, sh'.state) → Q r sh') : Safe (keeping id) i Q (wait o) sh := by
  refine Safe.call fun now _ hinv c r sh' hperforms _ => ?_
  have hkeeps : Keeps now.state sh'.state := keeps_step hperforms.1
  exact ⟨⟨hkeeps.migrated hinv.1, hkeeps.isSome hinv.2⟩, fun _ _ => hkeeps, h now sh' c r hinv.1 hinv.2 hperforms.1⟩

theorem safe_any (p : Co n α) : Safe (keeping id) i (fun _ _ => True) p sh := by
  induction p generalizing sh with
  | ret a => exact trivial
  | raise e => exact trivial
  | await o k ih =>
    intro now _ hinv c r sh' hperforms _
    have hkeeps : Keeps now.state sh'.state := keeps_step hperforms.1
    exact ⟨⟨hkeeps.migrated hinv.1, hkeeps.isSome hinv.2⟩, fun _ _ => hkeeps, ih r⟩

/-- Claims about a normal end do not depend on the programs before the last one. -/
theorem safe_after {p : Co n α} {f : α → Co n β} {Q : β → Shared (machine n) n → Prop}
    (h : ∀ a sh, Safe (keeping id) i (.ofOk Q) (f a) sh) : Safe (keeping id) i (.ofOk Q) (p >>= f) sh := by
  refine Safe.bind ((safe_any p).mono fun r sh _ => ?_)
  cases r with
  | ok a => exact h a sh
  | error e => exact trivial

/-- The handler's work on an event that is not processed yet. -/
def processRow (me : Fin n) (event : EventData) (evtId : ℕ) : Co n Unit := do
  isImageProcessed me event.productImage evtId
  let checksum ← downloadNChecksum me event.payload evtId
  let contentId ← imageContentInsert me event.payload checksum
  wait (.link me "uploadswebhookevent" event.productImage.id contentId evtId)

def afterLock (me : Fin n) (event : EventData) : Option (ℕ × Option ℕ × Option ℕ) → Co n Unit
  | some (evtId, none, _) => processRow me event evtId
  | _ => pure ()

theorem processEvent_eq (me : Fin n) (event : EventData) : processEvent me event =
    (wait (.lockEvent me "uploadswebhookevent" event.eventId) >>= afterLock me event) := by
  refine congrArg (wait (.lockEvent me "uploadswebhookevent" event.eventId) >>= ·) (funext fun row => ?_)
  rcases row with - | ⟨evtId, - | t, attempts⟩ <;> rfl

theorem afterLock_processed (me : Fin n) (event : EventData) {row : UploadsWebhookEvent Payload}
    (h : row.processedAt.isSome) :
    afterLock me event (some (row.id, row.processedAt, row.attempts)) = pure () := by
  obtain ⟨t, ht⟩ := Option.isSome_iff_exists.1 h
  rw [ht]
  rfl

/-- A run that ends without an exception leaves its event processed. -/
def leavesProcessed (id : ℕ) : Post (machine n) n Unit := .ofOk fun _ sh => sh.state.Processed id

theorem safe_processEvent {event : EventData} (hid : event.eventId = id) :
    Safe (keeping id) i (leavesProcessed id) (processEvent i event) sh := by
  subst hid
  rw [processEvent_eq]
  refine Safe.bind (safe_wait fun now sh' c r _ hrow hstep => ?_)
  cases r with
  | error e => exact trivial
  | ok row =>
    obtain ⟨x, hx⟩ := Option.isSome_iff_exists.1 hrow
    have hreads := lockEvent_reads hstep
    rw [hx] at hreads
    subst hreads
    obtain ⟨y, hy, hxy⟩ := (keeps_step hstep).rows event.eventId x hx
    by_cases hprocessed : x.processedAt.isSome
    · dsimp only [Option.map_some]
      rw [afterLock_processed i event hprocessed]
      exact ⟨y, hy, hxy hprocessed⟩
    · dsimp only [Option.map_some]
      rw [Option.not_isSome_iff_eq_none.1 hprocessed, eventRow_id hx]
      refine safe_after fun _ sh => safe_after fun checksum sh => safe_after fun contentId sh => ?_
      refine safe_wait fun now sh' c r hmigrated hrow hstep => ?_
      rcases link_cases hmigrated hstep with ⟨⟨e, rfl⟩, -⟩ | ⟨rfl, hlinks⟩
      · exact trivial
      · exact hlinks.processed hrow

theorem safe_compute {event : EventData} (hid : event.eventId = id) :
    Safe (keeping id) i (leavesProcessed id) (computeChecksumAndUpdateStatus i event) sh := by
  refine Safe.tryFinally ((safe_processEvent hid).mono fun r sh hr => ?_)
  cases r with
  | error e => exact (safe_any _).mono fun d sh _ => by cases d <;> exact trivial
  | ok u =>
    intro now hrely hinv c d sh' hperforms _
    have hstep : (Op.close i).step c now.state = some (d, sh'.state) := hperforms.1
    have hkeeps := keeps_step hstep
    refine ⟨⟨hkeeps.migrated hinv.1, hkeeps.isSome hinv.2⟩, fun _ _ => hkeeps, ?_⟩
    cases d with
    | error e => exact trivial
    | ok u => exact (Keeps.trans hrely hkeeps).processed hr

end Safety

/-! ## A delivery that finds its event processed -/

/-- The end of a run. -/
def closing (me : Fin n) (r : Except Err Unit) : Co n Unit := do
  wait (.close me)
  Prog.ofExcept r

def locked (me : Fin n) (event : EventData) (r : Except Err (Option (ℕ × Option ℕ × Option ℕ))) : Co n Unit :=
  Prog.tryFinally (Prog.ofExcept r >>= afterLock me event) (wait (.close me))

theorem compute_eq (me : Fin n) (event : EventData) : computeChecksumAndUpdateStatus me event =
    .await (Op.lockEvent me "uploadswebhookevent" event.eventId : Op n) (locked me event) := by
  rw [computeChecksumAndUpdateStatus, processEvent_eq]
  rfl

theorem locked_processed (me : Fin n) (event : EventData) {row : UploadsWebhookEvent Payload}
    (h : row.processedAt.isSome) :
    locked me event (.ok (some (row.id, row.processedAt, row.attempts))) = closing me (.ok ()) := by
  change Prog.tryFinally (afterLock me event _) _ = _
  rw [afterLock_processed me event h]
  rfl

/-- The statement leaves images and contents alone. -/
structure Frames (s s' : State n) : Prop where
  images : s'.images = s.images
  contents : s'.contents = s.contents

theorem lockEvent_frames {s s' : State n} {me : Fin n} {table : String} {id : ℕ} {c : Choice}
    {r : Except Err (Option (ℕ × Option ℕ × Option ℕ))} (h : (Op.lockEvent me table id).step c s = some (r, s')) :
    Frames s s' := by
  rcases step_cases h with ⟨-, rfl⟩ | hrun | ⟨-, rfl⟩
  · exact ⟨rfl, rfl⟩
  · rw [Op.run, State.onEvents] at hrun
    obtain ⟨-, rfl⟩ := Prod.mk.inj hrun
    cases s.find table ["id", "processed_at", "attempts"] <;> exact ⟨rfl, rfl⟩
  · exact ⟨rfl, rfl⟩

theorem close_frames {s s' : State n} {me : Fin n} {c : Choice} {r : Except Err Unit}
    (h : (Op.close me).step c s = some (r, s')) : Frames s s' := by
  rcases step_cases h with ⟨-, rfl⟩ | hrun | ⟨-, rfl⟩
  · exact ⟨rfl, rfl⟩
  · obtain ⟨-, rfl⟩ := Prod.mk.inj hrun
    exact ⟨rfl, rfl⟩
  · exact ⟨rfl, rfl⟩

/-- The event is processed, and the run is at its begin or its end. -/
structure Skips (event : EventData) (i : Fin n) (s : Sys (machine n) n Unit) : Prop where
  processed : s.state.Processed event.eventId
  place : s.procs i = computeChecksumAndUpdateStatus i event ∨ (∃ r, s.procs i = closing i r) ∨
    ∃ r, s.procs i = .ofExcept r

section Skipped
variable {event : EventData} {i : Fin n} {s s' : Sys (machine n) n Unit}

theorem Skips.own (h : Skips event i s) {c : Choice} (hstep : s.step (.proc i c) = some s') :
    Skips event i s' ∧ Frames s.state s'.state ∧ ∀ url, s'.log ≠ (i, .download url) :: s.log := by
  obtain ⟨o, k, r, st, hprog, hop, rfl⟩ := Sys.step_eq hstep
  have hkeeps : Keeps s.state st := keeps_step hop
  rcases h.place with hplace | ⟨r', hplace⟩ | ⟨r', hplace⟩
  · rw [hplace, compute_eq] at hprog
    cases hprog
    refine ⟨⟨hkeeps.processed h.processed, .inr (.inl ?_)⟩, lockEvent_frames hop, fun url heq => by cases heq⟩
    dsimp only
    rw [Function.update_self]
    cases r with
    | error e => exact ⟨.error e, rfl⟩
    | ok row =>
      obtain ⟨x, hx, hprocessed⟩ := h.processed
      have hreads := lockEvent_reads hop
      rw [hx, Option.map_some] at hreads
      subst hreads
      exact ⟨.ok (), locked_processed i event hprocessed⟩
  · rw [hplace] at hprog
    cases hprog
    have hclose : (Op.close i).step c s.state = some (r, st) := hop
    refine ⟨⟨hkeeps.processed h.processed, .inr (.inr ?_)⟩, close_frames hclose, fun url heq => by cases heq⟩
    dsimp only
    rw [Function.update_self]
    cases r with
    | error e => exact ⟨.error e, rfl⟩
    | ok u => exact ⟨r', rfl⟩
  · rw [hplace] at hprog
    cases r' <;> cases hprog

theorem Skips.step (h : Skips event i s) {l : Label (machine n) n} (hstep : s.step l = some s') :
    Skips event i s' := by
  by_cases hl : ∃ c, l = .proc i c
  · obtain ⟨c, rfl⟩ := hl
    exact (h.own hstep).1
  · have hsame := Sys.step_other (fun c hc => hl ⟨c, hc⟩) hstep
    refine ⟨?_, hsame ▸ h.place⟩
    cases l with
    | env d =>
      cases hstep
      exact (Keeps.of_tables rfl).processed h.processed
    | proc j c =>
      obtain ⟨o, k, r, -, hop⟩ := Sys.step_proc hstep
      exact (keeps_step hop).processed h.processed

theorem Skips.reach (h : Skips event i s) (hreach : Sys.Reach anyStep s s') : Skips event i s' := by
  induction hreach with
  | start => exact h
  | step _ hstep _ ih => exact ih.step hstep

end Skipped

/-! ## Repeated deliveries -/

def State.ReadyAndLinked (s : State n) (imageId : ℕ) : Prop :=
  ∃ i ∈ s.images, i.id = imageId ∧ i.contentId.isSome ∧ i.status = .ready

/-- From `s` on, run `i` changes no image and no content and downloads nothing, and ends with the
event processed. -/
structure Harmless (eventId : ℕ) (i : Fin n) (s : Sys (machine n) n Unit) : Prop where
  quiet : ∀ s₁ s₂ c, Sys.Reach anyStep s s₁ → s₁.step (.proc i c) = some s₂ →
    Frames s₁.state s₂.state ∧ ∀ url, s₂.log ≠ (i, .download url) :: s₁.log
  processed : ∀ s₁ r, Sys.Reach anyStep s s₁ → s₁.outcome i = some r → s₁.state.Processed eventId

/-- What is expected of run `i` at its first statement. -/
structure Idempotent (events : Fin n → EventData) (i : Fin n) (s : Sys (machine n) n Unit) : Prop where
  done : s.state.ReadyAndLinked (events i).productImage.id ∨ s.state.Processed (events i).eventId →
    Harmless (events i).eventId i s
  /-- after a run that ended without an exception -/
  repeated : ∀ j, (events j).eventId = (events i).eventId → s.outcome j = some (.ok ()) →
    Harmless (events i).eventId i s

section Deliveries
variable {events : Fin n → EventData} {st : State n} {s : Sys (machine n) n Unit} {i : Fin n}

theorem harmless_of_processed {event : EventData} (hnew : s.procs i = computeChecksumAndUpdateStatus i event)
    (h : s.state.Processed event.eventId) : Harmless event.eventId i s := by
  have hskips : Skips event i s := ⟨h, .inl hnew⟩
  constructor
  · intro s₁ s₂ c hreach hstep
    exact ((hskips.reach hreach).own hstep).2
  · exact fun s₁ r hreach _ => (hskips.reach hreach).processed

theorem reach_keeping (hst : Migrated st) {id : ℕ} (hrow : (st.eventRow id).isSome)
    (h : Sys.Reach anyStep (deliveries events st) s) :
    Migrated s.state ∧ (s.state.eventRow id).isSome ∧
      ∀ j, (events j).eventId = id → s.outcome j = some (.ok ()) → s.state.Processed id := by
  have hsafe : ∀ j, Safe (keeping id) j (fun r sh => (events j).eventId = id → leavesProcessed id r sh)
      ((deliveries events st).procs j) (deliveries events st).toShared := by
    intro j
    by_cases hj : (events j).eventId = id
    · exact (safe_compute hj).mono fun r sh hr _ => hr
    · exact (safe_any _).mono fun r sh _ heq => absurd heq hj
  obtain ⟨hinv, hknown⟩ := reach_safe (P := keeping id) ⟨hst, hrow⟩ hsafe h
  refine ⟨hinv.1, hinv.2, fun j hj hout => ?_⟩
  obtain ⟨sh, hk⟩ := hknown j
  have hkeeps : Keeps sh.state s.state := hk.rely
  exact hkeeps.processed (hk.outcome hout hj)

/-- The first statement of a run whose row nobody else has locked. -/
theorem lockEvent_free {s : State n} (hs : Migrated s) {id : ℕ} (hfree : ∀ j, j ≠ i → s.locks id ≠ some j) :
    (Op.lockEvent i "uploadswebhookevent" id).step .works s =
      some (.ok ((s.eventRow id).map fun r => (r.id, r.processedAt, r.attempts)),
        { s with locks := Function.update s.locks id (some i) }) := by
  have hgoes : ¬(Op.lockEvent i "uploadswebhookevent" id).Waits s := by
    rintro ⟨j, hj, hlock⟩
    exact hfree j hj hlock
  unfold Op.step
  rw [if_neg hgoes, ← lockEvent_run hs]

/-- With a linked image in the snapshot the run writes to the table that is gone. -/
theorem locked_linked {event : EventData} (h : event.productImage.contentId.isSome ∧ event.productImage.status = .ready)
    (evtId : ℕ) (attempts : Option ℕ) : ∃ k, locked i event (.ok (some (evtId, none, attempts))) =
        .await (Op.setProcessed i "providerwebhookevent" evtId : Op n) k ∧
      ∀ e, k (.error e) = closing i (.error e) := by
  change ∃ k, Prog.tryFinally (processRow i event evtId) (wait (.close i)) = _ ∧ _
  rw [processRow, isImageProcessed, if_pos h]
  exact ⟨_, rfl, fun e => rfl⟩

theorem locked_unlinked {event : EventData}
    (h : ¬(event.productImage.contentId.isSome ∧ event.productImage.status = .ready))
    (evtId : ℕ) (attempts : Option ℕ) : ∃ k, locked i event (.ok (some (evtId, none, attempts))) =
      .await (Op.download (pyOr event.payload.secureUrl event.payload.url) : Op n) k := by
  change ∃ k, Prog.tryFinally (processRow i event evtId) (wait (.close i)) = _
  rw [processRow, isImageProcessed, if_neg h]
  exact ⟨_, rfl⟩

theorem step_of {o : Op n} {k : Except Err o.Res → Co n Unit} {c : Choice} {r : Except Err o.Res} {st' : State n}
    (hprog : s.procs i = .await o k) (hop : o.step c s.state = some (r, st')) :
    ∃ s', s.step (.proc i c) = some s' ∧ s'.state = st' ∧ s'.procs i = k r ∧ s'.log = (i, o) :: s.log :=
  ⟨_, Sys.step_await hprog hop, rfl, Function.update_self .., rfl⟩

/-- Alone, a run whose event is not processed raises or begins to download. -/
theorem not_harmless (hs : Migrated s.state) {event : EventData} (hrow : (s.state.eventRow event.eventId).isSome)
    (hnew : s.procs i = computeChecksumAndUpdateStatus i event)
    (hfree : ∀ j, j ≠ i → s.state.locks event.eventId ≠ some j) (hnot : ¬s.state.Processed event.eventId) :
    ¬Harmless event.eventId i s := by
  intro hharmless
  obtain ⟨x, hx⟩ := Option.isSome_iff_exists.1 hrow
  have hunprocessed : x.processedAt = none :=
    Option.not_isSome_iff_eq_none.1 fun hprocessed => hnot ⟨x, hx, hprocessed⟩
  have hlock := lockEvent_free hs hfree
  rw [hx, Option.map_some, hunprocessed] at hlock
  obtain ⟨s₁, hstep₁, hstate₁, hprog₁, -⟩ := step_of (hnew.trans (compute_eq i event)) hlock
  have hreach₁ : Sys.Reach anyStep s s₁ := Sys.Reach.start.step hstep₁ trivial
  by_cases hlinked : event.productImage.contentId.isSome ∧ event.productImage.status = .ready
  · obtain ⟨k, hprog, hk⟩ := locked_linked (i := i) hlinked x.id x.attempts
    have hgone : s₁.state.tables "providerwebhookevent" = none := by
      rw [hstate₁]
      exact hs.provider
    obtain ⟨s₂, hstep₂, hstate₂, hprog₂, -⟩ := step_of (c := .works) (hprog₁.trans hprog)
      (congrArg some (onEvents_dropped hgone))
    have hreach₂ := hreach₁.step hstep₂ trivial
    obtain ⟨s₃, hstep₃, hstate₃, hprog₃, -⟩ := step_of (c := .works) (hprog₂.trans (hk (.db .database))) rfl
    have hout : s₃.outcome i = some (.error (.db .database)) := by
      rw [Sys.outcome, hprog₃]
      rfl
    have hdone := hharmless.processed s₃ _ (hreach₂.step hstep₃ trivial) hout
    rw [hstate₃, hstate₂, hstate₁] at hdone
    exact hnot hdone
  · obtain ⟨k, hprog⟩ := locked_unlinked (i := i) hlinked x.id x.attempts
    obtain ⟨s₂, hstep₂, -, -, hlog⟩ := step_of (c := .works) (hprog₁.trans hprog) rfl
    exact (hharmless.quiet s₁ s₂ _ hreach₁ hstep₂).2 _ hlog

end Deliveries

/-- A run is idempotent just when the linked image of its event comes with a processed event. -/
theorem delivery_idempotent_iff {events : Fin n → EventData} {st : State n} (hst : Migrated st)
    {s : Sys (machine n) n Unit} (hreach : Sys.Reach anyStep (deliveries events st) s) {i : Fin n}
    (hrow : (st.eventRow (events i).eventId).isSome)
    (hnew : s.procs i = computeChecksumAndUpdateStatus i (events i))
    (hfree : ∀ j, j ≠ i → s.state.locks (events i).eventId ≠ some j) :
    Idempotent events i s ↔
      (s.state.ReadyAndLinked (events i).productImage.id → s.state.Processed (events i).eventId) := by
  obtain ⟨hmigrated, hhere, hended⟩ := reach_keeping hst hrow hreach
  constructor
  · intro h hlinked
    by_contra hnot
    exact not_harmless hmigrated hhere hnew hfree hnot (h.done (.inl hlinked))
  · intro h
    refine ⟨fun hdone => harmless_of_processed hnew (hdone.elim h id), fun j hj hout => ?_⟩
    exact harmless_of_processed hnew (hended j hj hout)

/-! ## The event of a linked image -/

def linkedLamp : ProductImage := { lampImage with contentId := some 4, status := .ready }

def lampEvent (processedAt : Option ℕ) : UploadsWebhookEvent Payload :=
  ⟨1, "a1b2", some "cloudinary", lampPayload, 0, processedAt, none⟩

/-- The image is linked, and its event is there. -/
def lampTables (processedAt : Option ℕ) : State 1 where
  clock := 9
  tables := Function.update (migrated Payload) "uploadswebhookevent" (some ⟨uploadsColumns, [lampEvent processedAt]⟩)
  images := [linkedLamp]
  contents := [⟨4, "9f86", none, none⟩]

def lampDeliveries : Fin 1 → EventData := fun _ => ⟨lampPayload, 1, linkedLamp⟩

theorem migrated_lampTables (processedAt : Option ℕ) : Migrated (lampTables processedAt) :=
  ⟨rfl, _, rfl⟩

theorem delivery_idempotent_iff_lamp :
    Idempotent lampDeliveries 0 (deliveries lampDeliveries (lampTables (some 3))) :=
  (delivery_idempotent_iff (migrated_lampTables _) .start rfl rfl fun _ _ hlock => by cases hlock).2
    fun _ => ⟨_, rfl, rfl⟩

/-- The run of the unprocessed event of a linked image raises, and the event stays unprocessed. -/
theorem linked_image_raises : ∃ s, Sys.Reach anyStep (deliveries lampDeliveries (lampTables none)) s ∧
    (lampTables none).ReadyAndLinked 1 ∧ s.outcome 0 = some (.error (.db .database)) ∧
      s.state.eventRow 1 = some (lampEvent none) ∧
      ¬Idempotent lampDeliveries 0 (deliveries lampDeliveries (lampTables none)) := by
  have hexec : ((deliveries lampDeliveries (lampTables none)).exec anyStep
      [.proc 0 .works, .proc 0 .works, .proc 0 .works]).map (fun s => (s.outcome 0, s.state.eventRow 1)) =
        some (some (.error (.db .database)), some (lampEvent none)) := by rfl
  obtain ⟨s, hs, hend⟩ := Option.map_eq_some_iff.1 hexec
  obtain ⟨hout, hevent⟩ := Prod.mk.inj hend
  have hreach : Sys.Reach anyStep (deliveries lampDeliveries (lampTables none)) s := Sys.Reach.start.exec hs
  have hlinked : (lampTables none).ReadyAndLinked 1 := ⟨linkedLamp, List.mem_cons_self, rfl, rfl, rfl⟩
  refine ⟨s, hreach, hlinked, hout, hevent, fun h => ?_⟩
  obtain ⟨r, hr, hprocessed⟩ := (h.done (.inl hlinked)).processed s _ hreach hout
  have heq : lampEvent none = r := Option.some.inj (hevent.symm.trans hr)
  subst heq
  cases hprocessed

end Phyllonix.Uploads
