import Phyllonix.AsyncPrograms

/-!
# Upload notifications and their events

The tables of events as the migrations leave them, the handler of the image host's notifications,
and the worker that processes uploaded images. Statements name their table by a text; one on a
table or a column that is not there is refused. Every statement but the worker's lock is followed
by its commit, and the two are one step.
-/

namespace Phyllonix.Uploads
open Async

/-- A row of an event table. -/
structure UploadsWebhookEvent (P : Type) where
  id : ℕ
  providerEventId : String
  provider : Option String
  payload : P
  receivedAt : ℕ
  processedAt : Option ℕ
  attempts : Option ℕ

structure EventTable (P : Type) where
  columns : List String
  rows : List (UploadsWebhookEvent P) := []

abbrev Tables (P : Type) := String → Option (EventTable P)

/-! ## Migrations -/

inductive Ddl where
  | createTable (name : String) (columns : List String)
  | dropTable (name : String)
  | addColumn (name column : String)
  | dropColumn (name column : String)

section
variable {P : Type}

def Ddl.execute (t : Tables P) : Ddl → Option (Tables P)
  | .createTable name columns =>
    if (t name).isSome then none else some (Function.update t name (some ⟨columns, []⟩))
  | .dropTable name => (t name).map fun _ => Function.update t name none
  | .addColumn name column => (t name).map fun e =>
      Function.update t name (some { e with columns := e.columns ++ [column] })
  | .dropColumn name column => (t name).map fun e =>
      Function.update t name (some { e with columns := e.columns.filter (· ≠ column) })

def upgrade (t : Tables P) (ddls : List Ddl) : Option (Tables P) := ddls.foldlM Ddl.execute t

end

def upgrade_c2b7a7d37040 : List Ddl :=
  [.createTable "providerwebhookevent"
    ["id", "provider_event_id", "provider", "payload", "received_at", "processed", "processed_at"]]

def upgrade_221d286f97e1 : List Ddl := [.addColumn "providerwebhookevent" "attempts"]

def upgrade_a07e0983d85b : List Ddl := [.dropColumn "providerwebhookevent" "processed"]

def upgrade_813e9a7e41a9 : List Ddl :=
  [.createTable "uploadswebhookevent"
    ["id", "provider_event_id", "provider", "payload", "received_at", "processed_at", "attempts"],
    .dropTable "providerwebhookevent"]

/-- The upgrades that concern event tables, in the order of the revisions. -/
def upgrades : List Ddl :=
  upgrade_c2b7a7d37040 ++ upgrade_221d286f97e1 ++ upgrade_a07e0983d85b ++ upgrade_813e9a7e41a9

/-- The schema that the migrations produce. -/
def migrated (P : Type) : Tables P := (upgrade (fun _ => none) upgrades).get rfl

/-! ## The database and the queue -/

inductive ImageUploadStatus where
  | pendingUploaded | uploaded | processing | ready | failed
  deriving DecidableEq

structure ProductImage where
  id : ℕ
  contentId : Option ℕ
  publicId : String
  storageKey : Option String
  status : ImageUploadStatus

structure ImageContent where
  id : ℕ
  checksum : String
  providerPublicId : Option String
  url : Option String

/-- The fields of a notification that are read; a field may be absent. -/
structure Payload where
  assetId : Option String
  displayName : Option String
  version : Option ℤ
  folder : Option String
  secureUrl : Option String
  url : Option String

structure EventData where
  payload : Payload
  eventId : ℕ
  productImage : ProductImage

variable {n : ℕ}

/-- What `pubsub_pub` has taken in, with the request that sent it. -/
structure Published (n : ℕ) where
  sender : Fin n
  event : String
  data : EventData

structure State (n : ℕ) where
  clock : ℕ
  tables : Tables Payload
  images : List ProductImage
  contents : List ImageContent := []
  /-- which session has locked an event's row -/
  locks : ℕ → Option (Fin n) := fun _ => none
  published : List (Published n) := []
  /-- what the workers have taken out -/
  taken : ℕ := 0

/-- The exceptions of statements. -/
inductive DbErr where
  | integrity | operational | database | interface

inductive Err where
  | db (e : DbErr)
  | http (status : ℕ) (detail : String)
  | multipleResultsFound
  | typeError
  | queueFull
  | runtimeError (text : String)
  | download

inductive Op (n : ℕ) where
  /-- `INSERT ... ON CONFLICT (provider_event_id) DO NOTHING RETURNING id, processed_at` -/
  | insertEvent (table peid : String) (payload : Payload)
  /-- `SELECT id, processed_at ... WHERE provider_event_id = :peid` -/
  | selectEvent (table peid : String)
  | imageByPublicId (publicId : String)
  | imageByStorageKey (pattern : String)
  | setUploaded (imageId : ℕ)
  | pubsubPub (me : Fin n) (event : String) (data : EventData)
  | getTask
  /-- `SELECT id, processed_at, attempts ... WHERE id = :eid FOR UPDATE` -/
  | lockEvent (me : Fin n) (table : String) (id : ℕ)
  | setProcessed (me : Fin n) (table : String) (id : ℕ)
  | addAttempt (me : Fin n) (table : String) (id : ℕ)
  | download (url : Option String)
  | sleep (seconds : ℕ)
  | insertContent (me : Fin n) (checksum : String) (providerPublicId url : Option String)
  | contentByChecksum (checksum : String)
  /-- the flush of the linked image and of the processed event -/
  | link (me : Fin n) (table : String) (imageId contentId eventId : ℕ)
  | close (me : Fin n)

abbrev Op.Res : Op n → Type
  | .insertEvent _ _ _ => Option (ℕ × Option ℕ)
  | .selectEvent _ _ => Option (ℕ × Option ℕ)
  | .imageByPublicId _ => Option ProductImage
  | .imageByStorageKey _ => Option ProductImage
  | .setUploaded _ => Option ℕ
  | .getTask => Published n
  | .lockEvent _ _ _ => Option (ℕ × Option ℕ × Option ℕ)
  | .download _ => String
  | .insertContent _ _ _ _ => ℕ
  | .contentByChecksum _ => Option ℕ
  | _ => Unit

/-- What the database, the queue or the image's server does. -/
inductive Choice where
  | works
  | fails (e : DbErr)
  | sends (checksum : String)

/-- The table of a statement, if it is there with the columns. -/
def State.find (s : State n) (table : String) (columns : List String) : Option (EventTable Payload) :=
  (s.tables table).filter fun t => columns.all (· ∈ t.columns)

def State.writeRows (s : State n) (table : String)
    (f : List (UploadsWebhookEvent Payload) → List (UploadsWebhookEvent Payload)) : State n :=
  { s with
    tables := Function.update s.tables table ((s.tables table).map fun t => { t with rows := f t.rows }) }

def State.updateEvent (s : State n) (table : String) (id : ℕ)
    (f : UploadsWebhookEvent Payload → UploadsWebhookEvent Payload) : State n :=
  s.writeRows table fun rows => rows.map fun r => if r.id = id then f r else r

def State.unlock (s : State n) (me : Fin n) : State n :=
  { s with locks := fun id => if s.locks id = some me then none else s.locks id }

def freshId (ids : List ℕ) : ℕ := 1 + ids.foldl max 0

/-- `scalar_one_or_none` -/
def oneOrNone {α : Type} : List α → Except Err (Option α)
  | [] => .ok none
  | [a] => .ok (some a)
  | _ => .error .multipleResultsFound

/-- `LIKE` -/
def like : List Char → List Char → Bool
  | [], text => text.isEmpty
  | '%' :: pattern, [] => like pattern []
  | '%' :: pattern, c :: text => like pattern (c :: text) || like ('%' :: pattern) text
  | '_' :: pattern, _ :: text => like pattern text
  | '\\' :: d :: pattern, c :: text => d = c && like pattern text
  | d :: pattern, c :: text => d = c && like pattern text
  | _ :: _, [] => false
  termination_by pattern text => pattern.length + text.length

/-- A statement on an event table. -/
def State.onEvents {α : Type} (s : State n) (table : String) (columns : List String)
    (f : EventTable Payload → α × State n) : Except Err α × State n :=
  match s.find table columns with
  | none => (.error (.db .database), s)
  | some t => (.ok (f t).1, (f t).2)

def Op.run (s : State n) : (o : Op n) → Except Err o.Res × State n
  | .insertEvent table peid payload =>
    s.onEvents table ["id", "provider_event_id", "provider", "payload", "received_at", "processed_at"] fun t =>
      if t.rows.any (·.providerEventId = peid) then (none, s)
      else
        let id := freshId (t.rows.map (·.id))
        (some (id, none), s.writeRows table
          (· ++ [⟨id, peid, some "cloudinary", payload, s.clock, none, none⟩]))
  | .selectEvent table peid =>
    s.onEvents table ["id", "processed_at", "provider_event_id"] fun t =>
      ((t.rows.find? (·.providerEventId = peid)).map fun r => (r.id, r.processedAt), s)
  | .imageByPublicId publicId => (oneOrNone (s.images.filter (·.publicId = publicId)), s)
  | .imageByStorageKey pattern =>
    (oneOrNone (s.images.filter fun i => i.storageKey.any fun k => like pattern.toList k.toList), s)
  | .setUploaded imageId =>
    (.ok ((s.images.find? (·.id = imageId)).map (·.id)),
      { s with images := s.images.map fun i => if i.id = imageId then { i with status := .uploaded } else i })
  | .pubsubPub me event data => (.ok (), { s with published := s.published ++ [⟨me, event, data⟩] })
  | .getTask =>
    match s.published[s.taken]? with
    | some task => (.ok task, { s with taken := s.taken + 1 })
    | none => (.error .queueFull, s)
  | .lockEvent me table id =>
    s.onEvents table ["id", "processed_at", "attempts"] fun t =>
      ((t.rows.find? (·.id = id)).map fun r => (r.id, r.processedAt, r.attempts),
        { s with locks := Function.update s.locks id (some me) })
  | .setProcessed me table id =>
    s.onEvents table ["id", "processed_at"] fun _ =>
      ((), (s.updateEvent table id fun r => { r with processedAt := some s.clock }).unlock me)
  | .addAttempt me table id =>
    s.onEvents table ["id", "attempts"] fun _ =>
      ((), (s.updateEvent table id fun r => { r with attempts := some (r.attempts.getD 0 + 1) }).unlock me)
  | .download _ => (.error .download, s)
  | .sleep _ => (.ok (), s)
  | .insertContent me checksum providerPublicId url =>
    if s.contents.any (·.checksum = checksum) then (.error (.db .integrity), s)
    else
      let id := freshId (s.contents.map (·.id))
      (.ok id, { s.unlock me with contents := s.contents ++ [⟨id, checksum, providerPublicId, url⟩] })
  | .contentByChecksum checksum => (.ok ((s.contents.find? (·.checksum = checksum)).map (·.id)), s)
  | .link me table imageId contentId eventId =>
    if s.images.any fun i => i.id ≠ imageId ∧ i.contentId = some contentId then (.error (.db .integrity), s)
    else
      s.onEvents table ["id", "processed_at"] fun _ =>
        let s' := s.updateEvent table eventId fun r => { r with processedAt := some s.clock }
        let images := s.images.map fun i =>
          if i.id = imageId then { i with contentId := some contentId, status := .ready } else i
        ((), { s' with images }.unlock me)
  | .close me => (.ok (), s.unlock me)

/-- A worker waits for a task, and for a row that another session has locked. -/
def Op.Waits (s : State n) : Op n → Prop
  | .getTask => s.published.length ≤ s.taken
  | .lockEvent me _ id => ∃ j, j ≠ me ∧ s.locks id = some j
  | .link me _ _ _ eventId => ∃ j, j ≠ me ∧ s.locks eventId = some j
  | _ => False

instance (s : State n) (o : Op n) : Decidable (o.Waits s) := by
  unfold Op.Waits
  split <;> infer_instance

def Op.step (o : Op n) (c : Choice) (s : State n) : Option (Except Err o.Res × State n) :=
  if o.Waits s then none
  else match o, c with
    | .pubsubPub _ _ _, .fails _ => some (.error .queueFull, s)
    | .download _, .sends checksum => some (.ok checksum, s)
    | .getTask, _ => some (Op.run s .getTask)
    | .sleep t, _ => some (Op.run s (.sleep t))
    | .close me, _ => some (Op.run s (.close me))
    | _, .fails e => some (.error (.db e), s)
    | o, _ => some (o.run s)

/-- Time passes by itself. -/
@[reducible] def machine (n : ℕ) : Machine where
  State := State n
  Op := Op n
  Res := Op.Res
  Err := Err
  Choice := Choice
  step := Op.step
  Env := ℕ
  env d s := { s with clock := s.clock + d }

abbrev Co (n : ℕ) := Prog (machine n)

def wait (o : Op n) : Co n o.Res := Prog.call (M := machine n) o

/-! ## The webhook -/

def pyStr {α : Type} [ToString α] : Option α → String
  | none => "None"
  | some a => toString a

/-- `a or b` -/
def pyOr (a b : Option String) : Option String := (a.filter (· ≠ "")).or b

/-- `payload.get("asset_id") or f"{display_name}:{version}"` -/
def providerEventId (payload : Payload) : String :=
  (pyOr payload.assetId none).getD s!"{pyStr payload.displayName}:{pyStr payload.version}"

def createWebhookEvent (providerEventId : String) (payload : Payload) : Co n (Option (ℕ × Option ℕ)) := do
  let eventRow ← Prog.attempt (do
    let row ← wait (.insertEvent "providerwebhookevent" providerEventId payload)
    match row with
    | some row => pure (some row)
    | none => wait (.selectEvent "providerwebhookevent" providerEventId))
  match eventRow with
  | .ok row => pure row
  | .error (.db .integrity) => pure none
  | .error (.db .operational) => .raise (.http 500 "temporary database error")
  | .error (.db .database) => .raise (.http 500 "temporary database error")
  | .error e => .raise e

def imageByName (publicId : Option String) : Co n (Option ProductImage) :=
  match publicId with
  | none | some "" => pure none
  | some publicId => wait (.imageByStorageKey ("%/" ++ publicId))

def getImageByCloudPkey (publicId : Option String) (folder : String) : Co n (Option ProductImage) :=
  if "images/".toList.isPrefixOf folder.toList then do
    let productImage ← wait (.imageByPublicId (String.ofList (folder.toList.drop 7)))
    match productImage with
    | some image => pure (some image)
    | none => imageByName publicId
  else imageByName publicId

/-- An exception is logged, and the answer is still 200. -/
def enqueue (me : Fin n) (payload : Payload) (eventId : ℕ) (image : ProductImage) : Co n ℕ := do
  let _ ← Prog.attempt (do
    let updatedId ← wait (.setUploaded image.id)
    match updatedId with
    | none => .raise (.http 500 "Failed to update product image status")
    | some _ => wait (.pubsubPub me "product_image_uploaded" ⟨payload, eventId, image⟩))
  pure 200

/-- `none` is a body that is not JSON; the answer is a status. -/
def cloudinaryWebhook (me : Fin n) : Option Payload → Co n ℕ
  | none => .raise (.http 400 "invalid json")
  | some payload => do
    let eventRow ← createWebhookEvent (providerEventId payload) payload
    match eventRow with
    | none => .raise .typeError
    | some (_, some _) => pure 200
    | some (id, none) => do
      let productImage ← getImageByCloudPkey payload.displayName (payload.folder.getD "")
      match productImage with
      | none => pure 200
      | some image => enqueue me payload id image

def statusCode : Except Err ℕ → ℕ
  | .ok status => status
  | .error (.http status _) => status
  | .error _ => 500

def respond (me : Fin n) (body : Option Payload) : Co n (Option ℕ) := do
  let r ← (cloudinaryWebhook me body).attempt
  pure (some (statusCode r))

/-! ## The worker -/

/-- The linked image is marked in a table of another name, and the caller goes on. -/
def isImageProcessed (me : Fin n) (image : ProductImage) (evtId : ℕ) : Co n Unit :=
  if image.contentId.isSome ∧ image.status = .ready then wait (.setProcessed me "providerwebhookevent" evtId)
  else pure ()

def HTTP_RETRIES : ℕ := 2

/-- `attempts` are left, the next one is number `attempt`. -/
def downloadAttempts (payload : Payload) (attempt : ℕ) : ℕ → Co n (Option String)
  | 0 => pure none
  | attempts + 1 => do
    let r ← (wait (.download (pyOr payload.secureUrl payload.url))).attempt
    match r with
    | .ok checksum => pure (some checksum)
    | .error _ => do
      wait (.sleep (1 + attempt * 2))
      downloadAttempts payload (attempt + 1) attempts

/-- Without a checksum the caller unpacks `None`. -/
def downloadNChecksum (me : Fin n) (payload : Payload) (evtId : ℕ) : Co n String := do
  let checksum ← downloadAttempts payload 0 (HTTP_RETRIES + 1)
  match checksum with
  | some checksum => pure checksum
  | none => do
    wait (.addAttempt me "providerwebhookevent" evtId)
    .raise .typeError

def imageContentInsert (me : Fin n) (payload : Payload) (checksum : String) : Co n ℕ := do
  let inserted ← (wait (.insertContent me checksum (pyOr payload.assetId payload.displayName)
    (pyOr payload.secureUrl payload.url))).attempt
  match inserted with
  | .ok contentId => pure contentId
  | .error _ => do
    wait (.close me)
    let existing ← wait (.contentByChecksum checksum)
    match existing with
    | some contentId => pure contentId
    | none => .raise (.runtimeError "canonical imagecontent missing")

def processEvent (me : Fin n) (event : EventData) : Co n Unit := do
  let eventRow ← wait (.lockEvent me "uploadswebhookevent" event.eventId)
  match eventRow with
  | none => pure ()
  | some (_, some _, _) => pure ()
  | some (evtId, none, _) => do
    isImageProcessed me event.productImage evtId
    let checksum ← downloadNChecksum me event.payload evtId
    let contentId ← imageContentInsert me event.payload checksum
    wait (.link me "uploadswebhookevent" event.productImage.id contentId evtId)

def computeChecksumAndUpdateStatus (me : Fin n) (event : EventData) : Co n Unit :=
  (processEvent me event).tryFinally (wait (.close me))

/-- A worker of the pool, for as many tasks. -/
def worker (me : Fin n) : ℕ → Co n (Option ℕ)
  | 0 => pure none
  | tasks + 1 => do
    let task ← wait .getTask
    let _ ← (computeChecksumAndUpdateStatus me task.data).attempt
    worker me tasks

/-! ## Runs -/

/-- A notification that is correctly signed, or a worker. -/
inductive Role where
  | notification (payload : Payload)
  | worker (tasks : ℕ)

def body (roles : Fin n → Role) (i : Fin n) : Co n (Option ℕ) :=
  match roles i with
  | .notification payload => respond i (some payload)
  | .worker tasks => worker i tasks

abbrev Host (n : ℕ) := Sys (machine n) n (Option ℕ)

/-- The database as the migrations leave it, with images. -/
def start (roles : Fin n → Role) (clock : ℕ) (images : List ProductImage) : Host n where
  state := { clock, images, tables := migrated Payload }
  procs := body roles

/-- Every step of the sessions and of the clock. -/
def anyStep : Allows (machine n) n := fun _ _ => True

instance (l : Label (machine n) n) (sh : Shared (machine n) n) : Decidable (anyStep l sh) :=
  inferInstanceAs (Decidable True)

end Phyllonix.Uploads
