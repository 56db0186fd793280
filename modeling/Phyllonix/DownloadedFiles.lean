import Phyllonix.ImageDeliveries

/-!
# Files of downloads

Each try to download an image writes to a file of its own. The handler runs alone, against any
answers of the database and of the image's server.
-/

namespace Phyllonix.Uploads
open Async

/-! ## Files -/

abbrev Bytes := List UInt8

/-- The files, each with its name. -/
abbrev Disk := List (String × Bytes)

namespace Disk
variable {d : Disk} {name : String} {f : Bytes → Bytes}

def names (d : Disk) : List String := d.map Prod.fst

def read (d : Disk) (name : String) : Option Bytes := (d.find? (·.1 = name)).map Prod.snd

def write (d : Disk) (name : String) (f : Bytes → Bytes) : Disk :=
  d.map fun x => if x.1 = name then (x.1, f x.2) else x

def remove (d : Disk) (name : String) : Disk := d.filter (·.1 ≠ name)

@[simp] theorem names_write : (d.write name f).names = d.names := by
  rw [names, names, write, List.map_map]
  refine List.map_congr_left fun x _ => ?_
  rw [Function.comp_apply]
  split <;> rfl

theorem names_remove : (d.remove name).names = d.names.filter (· ≠ name) := by
  rw [names, names, remove, List.filter_map]
  rfl

theorem read_write : (d.write name f).read name = (d.read name).map f := by
  rw [read, read, write, List.find?_map]
  have hsame : ((fun x : String × Bytes => decide (x.1 = name)) ∘ fun x => if x.1 = name then (x.1, f x.2) else x) =
      fun x => decide (x.1 = name) := by
    funext x
    by_cases h : x.1 = name <;> simp [h]
  rw [hsame, Option.map_map, Option.map_map]
  cases h : d.find? (fun x => decide (x.1 = name)) with
  | none => rfl
  | some x =>
    have hname : x.1 = name := by simpa using List.find?_some h
    simp [hname]

theorem read_new {b : Bytes} (h : name ∉ d.names) : read (d ++ [(name, b)]) name = some b := by
  have hnone : d.find? (fun x => decide (x.1 = name)) = none := by
    refine List.find?_eq_none.2 fun x hx hname => h ?_
    exact List.mem_map.2 ⟨x, hx, of_decide_eq_true hname⟩
  rw [read, List.find?_append, hnone]
  simp

end Disk

/-- How `tempfile` names a new file. -/
structure Naming where
  pick : List String → String
  fresh : ∀ used, pick used ∉ used

/-! ## One download -/

inductive Ending where
  | done | readError | closeError
  deriving DecidableEq

/-- The chunks that are received, each with whether it can be written. -/
structure Body where
  opens : Bool := true
  chunks : List (Bytes × Bool)
  ending : Ending := .done

/-- What comes of a request; `raise_for_status` refuses an error status. -/
inductive Reply where
  | connectionError
  | errorStatus (status : ℕ)
  | response (body : Body)

inductive DownloadErr where
  | connection
  | httpStatus (status : ℕ)
  | openError
  | writeError
  | readError
  | closeError
  | valueError (text : String)

def receive (maxBytes : ℤ) (path : String) : List (Bytes × Bool) → ℕ → Bytes → Disk → Except DownloadErr Bytes × Disk
  | [], _, sha, d => (.ok sha, d)
  | (chunk, writes) :: rest, total, sha, d =>
    if chunk = [] then receive maxBytes path rest total sha d
    else if maxBytes < (total + chunk.length : ℕ) then
      (.error (.valueError s!"Downloaded file exceeds max_bytes ({maxBytes})"), d.remove path)
    else if writes then
      receive maxBytes path rest (total + chunk.length) (sha ++ chunk) (d.write path (· ++ chunk))
    else (.error .writeError, d)

/-- The part of the download whose exceptions are caught. -/
def receiveBody (maxBytes : ℤ) (path : String) (body : Body) (d : Disk) : Except DownloadErr Bytes × Disk :=
  if body.opens then
    let r := receive maxBytes path body.chunks 0 [] (d.write path fun _ => [])
    match r.1, body.ending with
    | .error e, _ => (.error e, r.2)
    | .ok sha, .done => (.ok sha, r.2)
    | .ok _, .readError => (.error .readError, r.2)
    | .ok _, .closeError => (.error .closeError, r.2)
  else (.error .openError, d)

section Download
variable (naming : Naming) (sha256 : Bytes → String) (maxBytes : ℤ)

/-- The path of the file and the digest. A file that is gone when it is removed again is logged. -/
def downloadToTempfileAndChecksum (reply : Reply) (d : Disk) : Except DownloadErr (String × String) × Disk :=
  let tmpPath := naming.pick d.names
  let d := d ++ [(tmpPath, [])]
  match reply with
  | .connectionError => (.error .connection, d)
  | .errorStatus status => (.error (.httpStatus status), d)
  | .response body =>
    let r := receiveBody maxBytes tmpPath body d
    match r.1 with
    | .ok sha => (.ok (tmpPath, sha256 sha), r.2)
    | .error e => (.error e, r.2.remove tmpPath)

end Download

def Body.bytes (body : Body) : Bytes := (body.chunks.map Prod.fst).flatten

/-- The file cannot be opened, becomes too long or cannot be written, or the stream breaks off. -/
def Body.Fails (maxBytes : ℤ) (body : Body) : Prop :=
  body.opens = false ∨ (∃ c ∈ body.chunks, c.1 ≠ [] ∧ c.2 = false) ∨
    (body.bytes ≠ [] ∧ maxBytes < body.bytes.length) ∨ body.ending ≠ .done

/-- The reply has an accepted status, and its body fails. -/
def Reply.FailsInBody (maxBytes : ℤ) : Reply → Prop
  | .response body => body.Fails maxBytes
  | _ => False

/-! ## What a download leaves -/

/-- All bytes have been written, and there are not too many. -/
structure Received (maxBytes : ℤ) (path : String) (chunks : List (Bytes × Bool)) (total : ℕ) (sha : Bytes) (d : Disk)
    (s : Bytes) (d' : Disk) : Prop where
  digest : s = sha ++ (chunks.map Prod.fst).flatten
  written : ∀ c ∈ chunks, c.1 ≠ [] → c.2 = true
  short : (chunks.map Prod.fst).flatten ≠ [] → (total + (chunks.map Prod.fst).flatten.length : ℕ) ≤ maxBytes
  names : d'.names = d.names
  file : d'.read path = (d.read path).map (· ++ (chunks.map Prod.fst).flatten)

section Receive
variable {maxBytes : ℤ} {path : String} {chunks : List (Bytes × Bool)} {total : ℕ} {sha : Bytes} {d : Disk}

theorem names_receive_remove : ((receive maxBytes path chunks total sha d).2.remove path).names =
    d.names.filter (· ≠ path) := by
  induction chunks generalizing total sha d with
  | nil => exact Disk.names_remove
  | cons c rest ih =>
    rw [receive]
    split
    · exact ih
    split
    · simp [Disk.names_remove]
    split
    · rw [ih, Disk.names_write]
    · exact Disk.names_remove

theorem receive_ok {s : Bytes} {d' : Disk} (h : receive maxBytes path chunks total sha d = (.ok s, d')) :
    Received maxBytes path chunks total sha d s d' := by
  induction chunks generalizing total sha d with
  | nil =>
    cases h
    exact ⟨(List.append_nil _).symm, fun _ hc => (by cases hc), fun hne => absurd rfl hne, rfl, by simp⟩
  | cons c rest ih =>
    obtain ⟨chunk, writes⟩ := c
    rw [receive] at h
    split at h
    next hempty =>
      subst hempty
      obtain ⟨hdigest, hwritten, hshort, hnames, hfile⟩ := ih h
      exact ⟨hdigest, List.forall_mem_cons.2 ⟨fun hne => absurd rfl hne, hwritten⟩, hshort, hnames, hfile⟩
    next hchunk =>
      split at h
      · cases h
      next hle =>
        split at h
        next hwrites =>
          obtain ⟨hdigest, hwritten, hshort, hnames, hfile⟩ := ih h
          refine ⟨?_, List.forall_mem_cons.2 ⟨fun _ => hwrites, hwritten⟩, fun _ => ?_, ?_, ?_⟩
          · rw [hdigest, List.append_assoc]
            rfl
          · by_cases hrest : (rest.map Prod.fst).flatten = []
            · simp only [List.map_cons, List.flatten_cons, hrest, List.append_nil]
              omega
            · have hle' := hshort hrest
              simp only [List.map_cons, List.flatten_cons, List.length_append]
              omega
          · rw [hnames, Disk.names_write]
          · rw [hfile, Disk.read_write, Option.map_map]
            congr 1
            funext old
            simp
        next => cases h

/-- A failure comes from a chunk that cannot be written or that is one too many. -/
theorem receive_error {e : DownloadErr} (h : (receive maxBytes path chunks total sha d).1 = .error e) :
    (∃ c ∈ chunks, c.1 ≠ [] ∧ c.2 = false) ∨ ((chunks.map Prod.fst).flatten ≠ [] ∧
      maxBytes < (total + (chunks.map Prod.fst).flatten.length : ℕ)) := by
  induction chunks generalizing total sha d with
  | nil => cases h
  | cons c rest ih =>
    obtain ⟨chunk, writes⟩ := c
    rw [receive] at h
    split at h
    next hempty =>
      subst hempty
      rcases ih h with ⟨c, hc, hfails⟩ | hlong
      · exact .inl ⟨c, List.mem_cons_of_mem _ hc, hfails⟩
      · exact .inr hlong
    next hchunk =>
      have hne : chunk ++ (rest.map Prod.fst).flatten ≠ [] := fun heq => hchunk (List.append_eq_nil_iff.1 heq).1
      split at h
      next hlong =>
        refine .inr ⟨hne, ?_⟩
        simp only [List.map_cons, List.flatten_cons, List.length_append]
        omega
      next =>
        split at h
        next =>
          rcases ih h with ⟨c, hc, hfails⟩ | ⟨-, hlong⟩
          · exact .inl ⟨c, List.mem_cons_of_mem _ hc, hfails⟩
          · refine .inr ⟨hne, ?_⟩
            simp only [List.map_cons, List.flatten_cons, List.length_append]
            omega
        next hfails =>
          exact .inl ⟨_, List.mem_cons_self, hchunk, by simpa using hfails⟩

end Receive

section ReceiveBody
variable {maxBytes : ℤ} {path : String} {body : Body} {d : Disk}

theorem names_receiveBody_remove : ((receiveBody maxBytes path body d).2.remove path).names =
    d.names.filter (· ≠ path) := by
  rw [receiveBody]
  split
  · dsimp only
    split
    all_goals rw [names_receive_remove, Disk.names_write]
  · exact Disk.names_remove

/-- A body that is received has not failed, and has been written. -/
theorem receiveBody_ok {s : Bytes} {d' : Disk} (h : receiveBody maxBytes path body d = (.ok s, d')) :
    ¬body.Fails maxBytes ∧ s = body.bytes ∧ (body.bytes ≠ [] → body.bytes.length ≤ maxBytes) ∧ d'.names = d.names ∧
      d'.read path = (d.read path).map fun _ => body.bytes := by
  rw [receiveBody] at h
  split at h
  next hopens =>
    dsimp only at h
    split at h
    · cases h
    next sha hr hending =>
      obtain ⟨hsha, hd⟩ := Prod.mk.inj h
      cases hsha
      have hreceived := receive_ok (Prod.ext hr hd)
      have hshort : body.bytes ≠ [] → body.bytes.length ≤ maxBytes := by
        simpa [Body.bytes] using hreceived.short
      refine ⟨?_, ?_, hshort, ?_, ?_⟩
      · rintro (hnot | ⟨c, hc, hchunk, hwrites⟩ | ⟨hne, hlong⟩ | hnot)
        · rw [hopens] at hnot
          cases hnot
        · rw [hreceived.written c hc hchunk] at hwrites
          cases hwrites
        · have hle := hshort hne
          omega
        · exact hnot hending
      · exact hreceived.digest
      · rw [hreceived.names, Disk.names_write]
      · rw [hreceived.file, Disk.read_write, Option.map_map]
        rfl
    · cases h
    · cases h
  next => cases h

theorem receiveBody_error {e : DownloadErr} (h : (receiveBody maxBytes path body d).1 = .error e) :
    body.Fails maxBytes := by
  rw [receiveBody] at h
  split at h
  next =>
    dsimp only at h
    split at h
    next e' hr =>
      rcases receive_error hr with hwrites | hlong
      · exact .inr (.inl hwrites)
      · rw [Nat.zero_add] at hlong
        exact .inr (.inr (.inl hlong))
    · cases h
    next hending => exact .inr (.inr (.inr (by rw [hending]; decide)))
    next hending => exact .inr (.inr (.inr (by rw [hending]; decide)))
  next hcloses => exact .inl (by simpa using hcloses)

end ReceiveBody

section Download
variable {naming : Naming} {sha256 : Bytes → String} {maxBytes : ℤ} {reply : Reply} {d : Disk}

theorem filter_fresh : (Disk.names (d ++ [(naming.pick d.names, [])])).filter (· ≠ naming.pick d.names) = d.names := by
  have happend : Disk.names (d ++ [(naming.pick d.names, [])]) = d.names ++ [naming.pick d.names] := by
    simp [Disk.names]
  rw [happend, List.filter_append, List.filter_eq_self.2]
  · simp
  · intro name hname
    have hne : name ≠ naming.pick d.names := fun heq => naming.fresh d.names (heq ▸ hname)
    simpa using hne

/-- A download that fails in the body leaves no file. -/
theorem download_fails (naming : Naming) (sha256 : Bytes → String) (d : Disk) (h : reply.FailsInBody maxBytes) :
    (∃ e, (downloadToTempfileAndChecksum naming sha256 maxBytes reply d).1 = .error e) ∧
      (downloadToTempfileAndChecksum naming sha256 maxBytes reply d).2.names = d.names := by
  cases reply with
  | connectionError => exact h.elim
  | errorStatus status => exact h.elim
  | response body =>
    rw [downloadToTempfileAndChecksum]
    cases hr : receiveBody maxBytes (naming.pick d.names) body (d ++ [(naming.pick d.names, [])]) with
    | mk r d' =>
      cases r with
      | ok sha => exact absurd h (receiveBody_ok hr).1
      | error e =>
        refine ⟨⟨e, rfl⟩, ?_⟩
        have hnames : ((receiveBody maxBytes (naming.pick d.names) body
            (d ++ [(naming.pick d.names, [])])).2.remove (naming.pick d.names)).names = _ := names_receiveBody_remove
        rw [hr] at hnames
        exact hnames.trans filter_fresh

/-- Any other download leaves its file. -/
theorem download_leaves (h : ¬reply.FailsInBody maxBytes) :
    (downloadToTempfileAndChecksum naming sha256 maxBytes reply d).2.names = d.names ++ [naming.pick d.names] := by
  cases reply with
  | connectionError => simp [downloadToTempfileAndChecksum, Disk.names]
  | errorStatus status => simp [downloadToTempfileAndChecksum, Disk.names]
  | response body =>
    rw [downloadToTempfileAndChecksum]
    cases hr : receiveBody maxBytes (naming.pick d.names) body (d ++ [(naming.pick d.names, [])]) with
    | mk r d' =>
      cases r with
      | ok sha =>
        refine (receiveBody_ok hr).2.2.2.1.trans ?_
        simp [Disk.names]
      | error e => exact absurd (receiveBody_error (congrArg Prod.fst hr)) h

/-- The file of a download that returns holds the bytes that were sent. -/
theorem download_returns {path digest : String} {d' : Disk}
    (h : downloadToTempfileAndChecksum naming sha256 maxBytes reply d = (.ok (path, digest), d')) :
    path = naming.pick d.names ∧ ∃ body, reply = .response body ∧ d'.read path = some body.bytes ∧
      digest = sha256 body.bytes ∧ (body.bytes ≠ [] → body.bytes.length ≤ maxBytes) := by
  cases reply with
  | connectionError => cases h
  | errorStatus status => cases h
  | response body =>
    rw [downloadToTempfileAndChecksum] at h
    cases hr : receiveBody maxBytes (naming.pick d.names) body (d ++ [(naming.pick d.names, [])]) with
    | mk r d₁ =>
      rw [hr] at h
      cases r with
      | ok sha =>
        cases h
        obtain ⟨-, hsha, hshort, -, hread⟩ := receiveBody_ok hr
        refine ⟨rfl, body, rfl, ?_, by rw [hsha], hshort⟩
        rw [hread, Disk.read_new (naming.fresh d.names)]
        rfl
      | error e => cases h

end Download

/-! ## The handler -/

/-- What a run depends on: the answers of the database, by their number, and of the image's server,
the names of new files, and the hash function. -/
structure Environment (n : ℕ) where
  answer : ℕ → (o : Op n) → Except Err o.Res
  reply : ℕ → Reply
  naming : Naming
  sha256 : Bytes → String

/-- A try to download, with the files before it. -/
structure Try where
  before : Disk
  reply : Reply

structure Trace where
  disk : Disk
  statements : ℕ := 0
  tries : List Try := []

structure ImageTransformHandler where
  maxBytes : ℤ := 50 * 1024 * 1024

section Handler
variable {n : ℕ} {α β : Type} (handler : ImageTransformHandler) (env : Environment n)

def Try.path (t : Try) : String := env.naming.pick t.before.names

def Try.outcome (t : Try) : Except DownloadErr (String × String) × Disk :=
  downloadToTempfileAndChecksum env.naming env.sha256 handler.maxBytes t.reply t.before

def Try.checksum (t : Try) : Except Err String :=
  match (t.outcome handler env).1 with
  | .ok x => .ok x.2
  | .error _ => .error .download

def Trace.next (st : Trace) : Try := ⟨st.disk, env.reply st.tries.length⟩

def Trace.afterTry (st : Trace) : Trace :=
  { st with disk := ((st.next env).outcome handler env).2, tries := st.tries ++ [st.next env] }

/-- The program alone: a download gives its digest, and the database answers. -/
def runFiles : Co n α → Trace → Except Err α × Trace
  | .ret a, st => (.ok a, st)
  | .raise e, st => (.error e, st)
  | .await (.download _) k, st => runFiles (k ((st.next env).checksum handler env)) (st.afterTry handler env)
  | .await (.sleep _) k, st => runFiles (k (.ok ())) st
  | .await o k, st => runFiles (k (env.answer st.statements o)) { st with statements := st.statements + 1 }

/-- What is expected of the files of a run. -/
structure CleansUp (st : Trace) : Prop where
  raised : ∀ t ∈ st.tries, ∀ e, (t.outcome handler env).1 = .error e → t.path env ∉ (t.outcome handler env).2.names
  returned : ∀ t ∈ st.tries, ∀ path digest, (t.outcome handler env).1 = .ok (path, digest) →
    path = t.path env ∧ ∃ body, t.reply = .response body ∧ (t.outcome handler env).2.read path = some body.bytes ∧
      body.bytes.length ≤ handler.maxBytes ∧ digest = env.sha256 body.bytes
  finished : ∀ t ∈ st.tries, t.path env ∉ st.disk.names

end Handler

section Runs
variable {n : ℕ} {α β : Type} {handler : ImageTransformHandler} {env : Environment n} {st : Trace}

theorem next_fails (h : (env.reply st.tries.length).FailsInBody handler.maxBytes) :
    (st.next env).checksum handler env = .error .download ∧ (st.afterTry handler env).disk.names = st.disk.names := by
  obtain ⟨⟨e, he⟩, hnames⟩ := download_fails env.naming env.sha256 st.disk h
  refine ⟨?_, hnames⟩
  rw [Try.checksum, Try.outcome, Trace.next, he]

theorem next_leaves (h : ¬(env.reply st.tries.length).FailsInBody handler.maxBytes) :
    (st.afterTry handler env).disk.names = st.disk.names ++ [(st.next env).path env] :=
  download_leaves h

theorem names_afterTry {name : String} (h : name ∈ st.disk.names) : name ∈ (st.afterTry handler env).disk.names := by
  by_cases hfails : (env.reply st.tries.length).FailsInBody handler.maxBytes
  · rw [(next_fails hfails).2]
    exact h
  · rw [next_leaves hfails]
    exact List.mem_append_left _ h

/-- Files that are there before a try are there after the run, and tries are not forgotten. -/
theorem runFiles_keeps (p : Co n α) {name : String} {t : Try} (hname : name ∈ st.disk.names) (ht : t ∈ st.tries) :
    name ∈ (runFiles handler env p st).2.disk.names ∧ t ∈ (runFiles handler env p st).2.tries := by
  induction p generalizing st with
  | ret a => exact ⟨hname, ht⟩
  | raise e => exact ⟨hname, ht⟩
  | await o k ih =>
    cases o with
    | download url => exact ih _ (names_afterTry hname) (List.mem_append_left _ ht)
    | sleep d => exact ih _ hname ht
    | _ => exact ih _ hname ht

/-- A file is left of a try. -/
def Trace.Leaves (env : Environment n) (st : Trace) : Prop := ∃ t ∈ st.tries, t.path env ∈ st.disk.names

theorem runFiles_leaves (p : Co n α) (h : st.Leaves env) : (runFiles handler env p st).2.Leaves env := by
  obtain ⟨t, ht, hpath⟩ := h
  obtain ⟨hpath', ht'⟩ := runFiles_keeps p hpath ht
  exact ⟨t, ht', hpath'⟩

/-- Programs that download nothing leave the files and the tries alone. -/
def NoDownload (o : Op n) : Prop := ∀ url, o ≠ .download url

theorem runFiles_quiet {p : Co n α} (h : p.Only NoDownload) :
    (runFiles handler env p st).2.disk = st.disk ∧ (runFiles handler env p st).2.tries = st.tries := by
  induction p generalizing st with
  | ret a => exact ⟨rfl, rfl⟩
  | raise e => exact ⟨rfl, rfl⟩
  | await o k ih =>
    cases o with
    | download url => exact absurd rfl (h.1 url)
    | sleep d => exact ih _ (h.2 _)
    | _ => exact ih _ (h.2 _)

structure SameFiles (st st' : Trace) : Prop where
  disk : st'.disk = st.disk
  tries : st'.tries = st.tries

theorem SameFiles.trans {st st' st'' : Trace} (h : SameFiles st st') (h' : SameFiles st' st'') : SameFiles st st'' :=
  ⟨h'.disk.trans h.disk, h'.tries.trans h.tries⟩

theorem runFiles_bind_quiet {p : Co n α} {f : α → Co n β} (hf : ∀ a, (f a).Only NoDownload) :
    SameFiles (runFiles handler env p st).2 (runFiles handler env (p >>= f) st).2 := by
  induction p generalizing st with
  | ret a => exact ⟨(runFiles_quiet (hf a)).1, (runFiles_quiet (hf a)).2⟩
  | raise e => exact ⟨rfl, rfl⟩
  | await o k ih => cases o <;> exact ih _

theorem runFiles_attempt (p : Co n α) : (runFiles handler env p.attempt st).2 = (runFiles handler env p st).2 := by
  induction p generalizing st with
  | ret a => rfl
  | raise e => rfl
  | await o k ih => cases o <;> exact ih _

theorem runFiles_tryFinally {p : Co n α} {cleanup : Co n Unit} (h : cleanup.Only NoDownload) :
    SameFiles (runFiles handler env p st).2 (runFiles handler env (p.tryFinally cleanup) st).2 := by
  rw [← runFiles_attempt p]
  exact runFiles_bind_quiet fun r => h.bind fun _ => Prog.only_ofExcept r

/-! ## The tries -/

def afterDownload (payload : Payload) (attempt attempts : ℕ) : Except Err String → Co n (Option String)
  | .ok checksum => pure (some checksum)
  | .error _ => do
    wait (.sleep (1 + attempt * 2))
    downloadAttempts payload (attempt + 1) attempts

theorem downloadAttempts_succ (payload : Payload) (attempt attempts : ℕ) :
    (downloadAttempts payload attempt (attempts + 1) : Co n (Option String)) =
      .await (Op.download (pyOr payload.secureUrl payload.url) : Op n) (afterDownload payload attempt attempts) := by
  refine congrArg (Prog.await (M := machine n) (Op.download (pyOr payload.secureUrl payload.url))) (funext fun r => ?_)
  cases r <;> rfl

/-- A try that fails is followed by the next. -/
theorem runFiles_retry {payload : Payload} {attempt attempts : ℕ} {e : Err}
    (h : (st.next env).checksum handler env = .error e) :
    runFiles handler env (downloadAttempts payload attempt (attempts + 1)) st =
      runFiles handler env (downloadAttempts payload (attempt + 1) attempts) (st.afterTry handler env) := by
  rw [downloadAttempts_succ]
  change runFiles handler env (afterDownload payload attempt attempts _) _ = _
  rw [h]
  rfl

theorem attempts_clean (payload : Payload) {attempts : ℕ} (attempt : ℕ)
    (h : ∀ j < attempts, (env.reply (st.tries.length + j)).FailsInBody handler.maxBytes) :
    (runFiles handler env (downloadAttempts payload attempt attempts) st).2.disk.names = st.disk.names ∧
      ∀ t ∈ (runFiles handler env (downloadAttempts payload attempt attempts) st).2.tries, t ∈ st.tries ∨
        t.reply.FailsInBody handler.maxBytes ∧ t.before.names = st.disk.names := by
  induction attempts generalizing attempt st with
  | zero => exact ⟨rfl, fun t ht => .inl ht⟩
  | succ attempts ih =>
    have hfirst := h 0 (Nat.succ_pos attempts)
    obtain ⟨hchecksum, hnames⟩ := next_fails hfirst
    rw [runFiles_retry hchecksum]
    have hrest : ∀ j < attempts,
        (env.reply ((st.afterTry handler env).tries.length + j)).FailsInBody handler.maxBytes := by
      intro j hj
      have hnext := h (j + 1) (Nat.succ_lt_succ hj)
      rw [Trace.afterTry, List.length_append, List.length_singleton, Nat.add_assoc, Nat.add_comm 1 j]
      exact hnext
    obtain ⟨hnames', htries⟩ := ih (attempt + 1) hrest
    refine ⟨hnames'.trans hnames, fun t ht => ?_⟩
    rcases htries t ht with hmem | ⟨hfails, hbefore⟩
    · rcases List.mem_append.1 hmem with hold | hnew
      · exact .inl hold
      · rw [List.mem_singleton.1 hnew]
        exact .inr ⟨hfirst, rfl⟩
    · exact .inr ⟨hfails, hbefore.trans hnames⟩

theorem attempts_leave {payload : Payload} {attempts : ℕ} (attempt : ℕ)
    (h : ∃ j < attempts, ¬(env.reply (st.tries.length + j)).FailsInBody handler.maxBytes) :
    (runFiles handler env (downloadAttempts payload attempt attempts) st).2.Leaves env := by
  induction attempts generalizing attempt st with
  | zero =>
    obtain ⟨j, hj, -⟩ := h
    cases hj
  | succ attempts ih =>
    by_cases hfirst : (env.reply st.tries.length).FailsInBody handler.maxBytes
    · rw [runFiles_retry (next_fails hfirst).1]
      apply ih
      obtain ⟨j, hj, hnot⟩ := h
      cases j with
      | zero => exact absurd hfirst hnot
      | succ j =>
        refine ⟨j, Nat.lt_of_succ_lt_succ hj, ?_⟩
        rw [Trace.afterTry, List.length_append, List.length_singleton, Nat.add_assoc, Nat.add_comm 1 j]
        exact hnot
    · rw [downloadAttempts_succ]
      refine runFiles_leaves (afterDownload payload attempt attempts _) ⟨st.next env, List.mem_append_right _ ?_, ?_⟩
      · exact List.mem_cons_self
      · rw [next_leaves hfirst]
        exact List.mem_append_right _ List.mem_cons_self

/-! ## Whole runs -/

abbrev ProductImage.ReadyAndLinked (image : ProductImage) : Prop := image.contentId.isSome ∧ image.status = .ready

/-- The row is there and not processed, and no statement before the download fails. -/
def Downloads (env : Environment n) (me : Fin n) (event : EventData) : Prop :=
  ∃ evtId attempts,
    env.answer 0 (.lockEvent me "uploadswebhookevent" event.eventId) = .ok (some (evtId, none, attempts)) ∧
      (event.productImage.ReadyAndLinked →
        ∃ u, env.answer 1 (.setProcessed me "providerwebhookevent" evtId) = .ok u)

variable {me : Fin n} {event : EventData}

theorem only_close (r : Except Err Unit) : (closing me r).Only NoDownload :=
  ⟨fun _ h => (by cases h), fun d => by cases d <;> cases r <;> exact trivial⟩

theorem only_wait {o : Op n} (h : NoDownload o) : (wait o).Only NoDownload := Prog.only_call h

theorem only_imageContentInsert {payload : Payload} {checksum : String} :
    (imageContentInsert me payload checksum).Only NoDownload := by
  refine ((only_wait fun _ h => by cases h).attempt).bind fun r => ?_
  cases r with
  | ok contentId => exact trivial
  | error e =>
    refine (only_wait fun _ h => by cases h).bind fun _ => (only_wait fun _ h => by cases h).bind fun existing => ?_
    cases existing <;> exact trivial

theorem runFiles_compute (handler : ImageTransformHandler) (st : Trace) :
    runFiles handler env (computeChecksumAndUpdateStatus me event) st =
      runFiles handler env
        (locked me event (env.answer st.statements (.lockEvent me "uploadswebhookevent" event.eventId)))
        { st with statements := st.statements + 1 } := by
  rw [compute_eq]
  rfl

/-- A run that does not come to the download tries nothing. -/
theorem runFiles_idle (handler : ImageTransformHandler) (st : Trace) (hst : st.statements = 0)
    (h : ¬Downloads env me event) :
    SameFiles st (runFiles handler env (computeChecksumAndUpdateStatus me event) st).2 := by
  rw [runFiles_compute, hst]
  have hclosed : ∀ (r : Except Err Unit) (k : ℕ),
      SameFiles st (runFiles handler env (closing me r) { st with statements := k }).2 := fun r k =>
    ⟨(runFiles_quiet (only_close r)).1, (runFiles_quiet (only_close r)).2⟩
  cases hans : env.answer 0 (.lockEvent me "uploadswebhookevent" event.eventId) with
  | error e => exact hclosed (.error e) 1
  | ok row =>
    rcases row with - | ⟨evtId, - | t, attempts⟩
    · exact hclosed (.ok ()) 1
    · by_cases hlinked : event.productImage.ReadyAndLinked
      · obtain ⟨k, hprog, hk⟩ := locked_linked (i := me) hlinked evtId attempts
        rw [hprog]
        change SameFiles st
          (runFiles handler env (k (env.answer 1 (.setProcessed me "providerwebhookevent" evtId))) _).2
        cases hmark : env.answer 1 (.setProcessed me "providerwebhookevent" evtId) with
        | error e =>
          rw [hk]
          exact hclosed (.error e) 2
        | ok u => exact absurd ⟨evtId, attempts, hans, fun _ => ⟨u, hmark⟩⟩ h
      · exact absurd ⟨evtId, attempts, hans, fun hyes => absurd hyes hlinked⟩ h
    · exact hclosed (.ok ()) 1

/-- What follows the check of the image. -/
def downloadAndLink (me : Fin n) (event : EventData) (evtId : ℕ) : Co n Unit := do
  let checksum ← downloadNChecksum me event.payload evtId
  let contentId ← imageContentInsert me event.payload checksum
  wait (.link me "uploadswebhookevent" event.productImage.id contentId evtId)

theorem runFiles_downloadAndLink {evtId : ℕ} :
    SameFiles (runFiles handler env (downloadAttempts event.payload 0 (HTTP_RETRIES + 1) : Co n (Option String)) st).2
      (runFiles handler env (downloadAndLink me event evtId) st).2 := by
  have hinner : SameFiles
      (runFiles handler env (downloadAttempts event.payload 0 (HTTP_RETRIES + 1) : Co n (Option String)) st).2
        (runFiles handler env (downloadNChecksum me event.payload evtId) st).2 := by
    refine runFiles_bind_quiet fun checksum => ?_
    cases checksum with
    | some checksum => exact trivial
    | none => exact (only_wait fun _ h => by cases h).bind fun _ => trivial
  refine hinner.trans (runFiles_bind_quiet fun checksum => ?_)
  exact only_imageContentInsert.bind fun contentId => only_wait fun _ h => by cases h

/-- The files of a run are those of its tries. -/
theorem runFiles_tries (handler : ImageTransformHandler) (st : Trace) (hst : st.statements = 0)
    (h : Downloads env me event) : ∃ st₁, SameFiles st st₁ ∧
    SameFiles (runFiles handler env (downloadAttempts event.payload 0 (HTTP_RETRIES + 1) : Co n (Option String)) st₁).2
      (runFiles handler env (computeChecksumAndUpdateStatus me event) st).2 := by
  obtain ⟨evtId, attempts, hans, hmark⟩ := h
  have hrow : SameFiles (runFiles handler env (processRow me event evtId) { st with statements := 1 }).2
      (runFiles handler env (computeChecksumAndUpdateStatus me event) st).2 := by
    rw [runFiles_compute, hst, hans]
    exact runFiles_tryFinally (only_wait fun _ h => by cases h)
  by_cases hlinked : event.productImage.ReadyAndLinked
  · obtain ⟨u, hu⟩ := hmark hlinked
    refine ⟨{ st with statements := 2 }, ⟨rfl, rfl⟩, ?_⟩
    have hrun : runFiles handler env (processRow me event evtId) { st with statements := 1 } =
        runFiles handler env (downloadAndLink me event evtId) { st with statements := 2 } := by
      rw [processRow, isImageProcessed, if_pos hlinked]
      change runFiles handler env (Prog.bind (.ofExcept (env.answer 1 _)) fun _ => downloadAndLink me event evtId) _ = _
      rw [hu]
      rfl
    rw [hrun] at hrow
    exact runFiles_downloadAndLink.trans hrow
  · refine ⟨{ st with statements := 1 }, ⟨rfl, rfl⟩, ?_⟩
    have hrun : processRow me event evtId = downloadAndLink me event evtId := by
      rw [processRow, isImageProcessed, if_neg hlinked]
      rfl
    rw [hrun] at hrow
    exact runFiles_downloadAndLink.trans hrow

end Runs

/-- The files of a run are cleaned up just when no download is tried or all tries fail in the body. -/
theorem cleans_up_iff {n : ℕ} (handler : ImageTransformHandler) (env : Environment n) (me : Fin n) (event : EventData)
    (disk : Disk) :
    CleansUp handler env (runFiles handler env (computeChecksumAndUpdateStatus me event) { disk := disk }).2 ↔
      (Downloads env me event → ∀ j < HTTP_RETRIES + 1, (env.reply j).FailsInBody handler.maxBytes) := by
  constructor
  · intro h hdownloads
    by_contra hnot
    push Not at hnot
    obtain ⟨st₁, hstart, hend⟩ := runFiles_tries handler { disk } rfl hdownloads
    have hlength : st₁.tries.length = 0 := by rw [hstart.tries]; rfl
    obtain ⟨t, ht, hpath⟩ : (runFiles handler env
        (downloadAttempts event.payload 0 (HTTP_RETRIES + 1) : Co n (Option String)) st₁).2.Leaves env :=
      attempts_leave 0 (by simpa [hlength] using hnot)
    rw [← hend.disk] at hpath
    rw [← hend.tries] at ht
    exact h.finished t ht hpath
  · intro h
    by_cases hdownloads : Downloads env me event
    · obtain ⟨st₁, hstart, hend⟩ := runFiles_tries handler { disk } rfl hdownloads
      have hlength : st₁.tries.length = 0 := by rw [hstart.tries]; rfl
      have hfails : ∀ j < HTTP_RETRIES + 1, (env.reply (st₁.tries.length + j)).FailsInBody handler.maxBytes := by
        simpa [hlength] using h hdownloads
      obtain ⟨hnames, htries⟩ := attempts_clean event.payload 0 hfails
      rw [← hend.disk] at hnames
      rw [← hend.tries] at htries
      have hall : ∀ t ∈ (runFiles handler env (computeChecksumAndUpdateStatus me event) { disk := disk }).2.tries,
          t.reply.FailsInBody handler.maxBytes ∧ t.before.names = st₁.disk.names := by
        intro t ht
        refine (htries t ht).resolve_left fun hold => ?_
        rw [hstart.tries] at hold
        cases hold
      refine ⟨fun t ht e _ => ?_, fun t ht path digest hok => ?_, fun t ht => ?_⟩
      · rw [Try.outcome, (download_fails _ _ _ (hall t ht).1).2]
        exact env.naming.fresh _
      · obtain ⟨⟨e, he⟩, -⟩ := download_fails env.naming env.sha256 t.before (hall t ht).1
        rw [Try.outcome, he] at hok
        cases hok
      · rw [hnames, ← (hall t ht).2]
        exact env.naming.fresh _
    · obtain ⟨-, htries⟩ := runFiles_idle handler { disk } rfl hdownloads
      constructor
      all_goals
        rw [htries]
        intro t ht
        cases ht

/-! ## A host that cannot be reached -/

/-- A name that is longer than all others. -/
def longerName : List String → String
  | [] => "x"
  | name :: rest => name ++ longerName rest

theorem longerName_pos (used : List String) : 0 < (longerName used).length := by
  induction used with
  | nil => decide
  | cons name rest ih =>
    rw [longerName, String.length_append]
    omega

theorem length_lt_longerName {used : List String} {name : String} (h : name ∈ used) :
    name.length < (longerName used).length := by
  induction used with
  | nil => cases h
  | cons first rest ih =>
    have hpos := longerName_pos rest
    rw [longerName, String.length_append]
    rcases List.mem_cons.1 h with rfl | hrest
    · omega
    · have hlt := ih hrest
      omega

/-- The event is not processed, and no request reaches the host. -/
def unreachable : Environment 1 where
  answer _ o := match o with
    | .lockEvent _ _ _ => .ok (some (1, none, none))
    | _ => .error .typeError
  reply _ := .connectionError
  naming := ⟨longerName, fun _ h => lt_irrefl _ (length_lt_longerName h)⟩
  sha256 _ := ""

/-- Every try raises, and its file is still there at the end. -/
theorem unreachable_leaves_files :
    (runFiles {} unreachable (computeChecksumAndUpdateStatus 0 ⟨lampPayload, 1, lampImage⟩)
      { disk := [] }).2.disk.names =
        ["x", "xx", "xxxx"] ∧
      ¬CleansUp {} unreachable
        (runFiles {} unreachable (computeChecksumAndUpdateStatus 0 ⟨lampPayload, 1, lampImage⟩) { disk := [] }).2 := by
  have hnames : (runFiles {} unreachable (computeChecksumAndUpdateStatus 0 ⟨lampPayload, 1, lampImage⟩)
      { disk := [] }).2.disk.names = ["x", "xx", "xxxx"] := by decide +kernel
  refine ⟨hnames, fun h => h.finished ⟨[], .connectionError⟩ (List.Mem.head _) ?_⟩
  rw [hnames]
  exact List.Mem.head _

end Phyllonix.Uploads
