import Phyllonix.UploadEvents

/-!
# Batches of image intents

An owner announces images of a product, and gets the parameters for uploading each of them. The
request is one transaction, and an exception leaves nothing of it.
-/

namespace Phyllonix.ImageIntents
open Uploads (ImageUploadStatus DbErr freshId)

/-! ## The request -/

structure InitImageItem where
  filename : String
  contentType : String
  filesize : ℤ
  sortOrder : Option ℤ

inductive Raised where
  | http (status : ℕ) (detail : String)
  | validation (detail : String)
  | typeError (text : String)
  | runtimeError (text : String)
  | multipleResultsFound
  | db (e : DbErr)

structure Product where
  id : ℕ
  publicId : String
  ownerId : Option ℕ
  deletedAt : Option ℕ
  deriving DecidableEq

/-- A row of product images. -/
structure ProductImage where
  id : ℕ
  productId : ℕ
  publicId : String
  storageKey : Option String
  storageProvider : String
  mimeType : String
  fileSize : ℤ
  status : ImageUploadStatus
  origFilename : String
  sortOrder : Option ℤ

/-- The tables as the transaction sees them, and how many statements and ids it has asked for. -/
structure Session where
  products : List Product
  images : List ProductImage
  statements : ℕ := 0
  uuids : ℕ := 0

/-- The settings, the clock, the source of ids, and the statements that the database refuses. -/
structure Environment where
  hexdigest : String → String
  cloudName : String
  apiKey : String
  apiSecret : String
  apiSignRequest : List (String × String) → String → String
  time : ℕ → ℤ
  uuid7 : ℕ → String
  refuses : ℕ → Option DbErr

abbrev Act := ExceptT Raised (StateM Session)

/-- What a part of the request gives, and the state that it leaves. -/
def Act.at {α : Type} (x : Act α) (s : Session) : Except Raised α × Session := StateT.run (ExceptT.run x) s

def execute (env : Environment) : Act Unit := do
  let s ← get
  set { s with statements := s.statements + 1 }
  match env.refuses s.statements with
  | some e => throw (.db e)
  | none => pure ()

/-- The id and the owner of a product. -/
def findProductByPid (env : Environment) (productPid : String) : Act (ℕ × Option ℕ) := do
  execute env
  let s ← get
  match s.products.filter fun p => p.publicId = productPid ∧ p.deletedAt.isNone with
  | [] => throw (.http 404 "Product not found")
  | [product] => pure (product.id, product.ownerId)
  | _ => throw .multipleResultsFound

/-! ## An image -/

def MAX_UPLOAD_BYTES : ℤ := 5 * 1024 * 1024

def ALLOWED_CONTENT_TYPES : List String := ["image/jpeg", "image/png", "image/webp", "image/jpg"]

def FOLDER_PREFIX : String := "images"

/-- `ValidationError(text)`: there is no such constructor in pydantic 2. -/
def validationError (_text : String) : Raised := .typeError "No constructor defined"

structure ImageUpload where
  contentType : String
  filesize : ℤ
  origFilename : String
  sortOrder : Option ℤ

namespace ImageUpload

def validateFile (u : ImageUpload) : Except Raised Unit :=
  if u.origFilename = "" then .error (validationError "filename is required")
  else if u.filesize ≤ 0 then .error (validationError "filesize must be positive")
  else if u.contentType ∉ ALLOWED_CONTENT_TYPES then
    .error (validationError s!"content_type {u.contentType} not allowed")
  else if MAX_UPLOAD_BYTES < u.filesize then .error (validationError s!"file too large (max {MAX_UPLOAD_BYTES})")
  else .ok ()

def init (contentType : String) (filesize : ℤ) (filename : String) (sortOrder : Option ℤ) : Act ImageUpload :=
  let u : ImageUpload := ⟨contentType, filesize, filename, sortOrder⟩
  match u.validateFile with
  | .ok _ => pure u
  | .error e => throw e

/-- The columns that an insertion can be refused for. -/
def Refused (image : ProductImage) (images : List ProductImage) : Prop :=
  image.sortOrder = none ∨ 255 < image.origFilename.length ∨ ∃ i ∈ images, i.publicId = image.publicId

instance (image : ProductImage) (images : List ProductImage) : Decidable (Refused image images) :=
  inferInstanceAs (Decidable (_ ∨ _ ∨ _))

/-- The insertion and the read that follows it. -/
def createProductImageIntent (env : Environment) (u : ImageUpload) (productId : ℕ) : Act ProductImage := do
  let s ← get
  let image : ProductImage := {
    id := freshId (s.images.map (·.id))
    productId
    publicId := env.uuid7 s.uuids
    storageKey := none
    storageProvider := "cloudinary"
    mimeType := u.contentType
    fileSize := u.filesize
    status := .pendingUploaded
    origFilename := u.origFilename
    sortOrder := u.sortOrder }
  set { s with uuids := s.uuids + 1 }
  execute env
  if Refused image s.images then throw (.db .integrity)
  else
    modify fun s => { s with images := s.images ++ [image] }
    execute env
    pure image

/-- 24 hexadecimal digits. -/
def buildUnqImgKey (env : Environment) (prodImagePublicId : String) : String :=
  String.ofList ((env.hexdigest prodImagePublicId).toList.take 24)

def withStorageKey (prodImageId : ℕ) (storageKey : String) (images : List ProductImage) : List ProductImage :=
  images.map fun i => if i.id = prodImageId then { i with storageKey := some storageKey } else i

def updateProdImageStorageKey (env : Environment) (prodImageId : ℕ) (prodImagePid uniqImgKey : String) : Act ℕ := do
  let storageKey := s!"{FOLDER_PREFIX}/{prodImagePid}_{uniqImgKey}"
  execute env
  let s ← get
  if s.images.any fun i => i.id ≠ prodImageId ∧ i.storageKey = some storageKey then throw (.db .integrity)
  else
    match s.images.find? (·.id = prodImageId) with
    | none => throw (.runtimeError "Invariant violated: ProductImage disappeared during init")
    | some image =>
      set { s with images := withStorageKey prodImageId storageKey s.images }
      pure image.id

end ImageUpload

structure UploadParams where
  provider : String
  uploadUrl : String
  apiKey : String
  timestamp : ℤ
  signature : String
  publicId : String
  folder : String
  uniqueFilename : Bool
  overwrite : Bool
  expiresIn : ℤ

def buildCloudinaryUploadParams (env : Environment) (now : ℤ)
    (prodImagePublicId unqImgKey : String) : UploadParams where
  provider := "cloudinary"
  uploadUrl := s!"https://api.cloudinary.com/v1_1/{env.cloudName}/image/upload"
  apiKey := env.apiKey
  timestamp := now
  signature := env.apiSignRequest [("public_id", s!"{prodImagePublicId}_{unqImgKey}"), ("timestamp", toString now),
    ("unique_filename", "false"), ("overwrite", "false"), ("folder", FOLDER_PREFIX)] env.apiSecret
  publicId := s!"{prodImagePublicId}_{unqImgKey}"
  folder := FOLDER_PREFIX
  uniqueFilename := false
  overwrite := false
  expiresIn := 300

/-! ## The batch -/

structure ItemOut where
  imagePublicId : String
  filename : String
  uploadParams : UploadParams

structure ErrorOut where
  filename : String
  detail : String

structure InitBatchOut where
  items : List ItemOut
  errors : List ErrorOut

def initImage (env : Environment) (productId : ℕ) (img : InitImageItem) : Act ItemOut := do
  let imgUpload ← ImageUpload.init img.contentType img.filesize img.filename img.sortOrder
  let prodImage ← imgUpload.createProductImageIntent env productId
  let uniqImgKey := ImageUpload.buildUnqImgKey env prodImage.publicId
  let _ ← ImageUpload.updateProdImageStorageKey env prodImage.id prodImage.publicId uniqImgKey
  let s ← get
  pure ⟨prodImage.publicId, img.filename,
    buildCloudinaryUploadParams env (env.time s.statements) prodImage.publicId uniqImgKey⟩

def initImages (env : Environment) (productId : ℕ) : List InitImageItem → Act InitBatchOut
  | [] => pure ⟨[], []⟩
  | img :: rest => do
    let r ← tryCatch (Sum.inl <$> initImage env productId img) fun
      | .validation detail => pure (.inr ⟨img.filename, detail⟩)
      | e => throw e
    let out ← initImages env productId rest
    match r with
    | .inl item => pure { out with items := item :: out.items }
    | .inr error => pure { out with errors := error :: out.errors }

def initImagesUploadBatch (env : Environment) (userIdentifier : Option ℕ) (productPublicId : String)
    (images : List InitImageItem) : Act InitBatchOut := do
  let product ← findProductByPid env productPublicId
  if product.2 ≠ userIdentifier then throw (.http 401 "Not authorized to update product.")
  else
    let out ← initImages env product.1 images
    -- the commit
    execute env
    pure out

/-- The images after the request; without a commit they are what they were. -/
def committed (before : List ProductImage) : Except Raised InitBatchOut × Session → List ProductImage
  | (.ok _, s) => s.images
  | (.error _, _) => before

/-! ## Parts of a request -/

section Rules
variable {α β : Type} {x : Act α} {f : α → Act β} {handle : Raised → Act α} {s s' : Session} {a : α} {e : Raised}

theorem at_bind_ok (h : x.at s = (.ok a, s')) : (x >>= f).at s = (f a).at s' := by
  simp only [Act.at, bind, ExceptT.bind, ExceptT.run, ExceptT.mk, StateT.bind, StateT.run] at h ⊢
  rw [h]
  rfl

theorem at_bind_error (h : x.at s = (.error e, s')) : (x >>= f).at s = (.error e, s') := by
  simp only [Act.at, bind, ExceptT.bind, ExceptT.run, ExceptT.mk, StateT.bind, StateT.run] at h ⊢
  rw [h]
  rfl

theorem at_try_ok (h : x.at s = (.ok a, s')) : (tryCatch x handle).at s = (.ok a, s') := by
  simp only [Act.at, tryCatch, tryCatchThe, MonadExceptOf.tryCatch, ExceptT.tryCatch,
    bind, ExceptT.run, ExceptT.mk, StateT.bind, StateT.run] at h ⊢
  rw [h]
  rfl

theorem at_try_error (h : x.at s = (.error e, s')) : (tryCatch x handle).at s = (handle e).at s' := by
  simp only [Act.at, tryCatch, tryCatchThe, MonadExceptOf.tryCatch, ExceptT.tryCatch,
    bind, ExceptT.run, ExceptT.mk, StateT.bind, StateT.run] at h ⊢
  rw [h]

theorem at_map_ok {g : α → β} (h : x.at s = (.ok a, s')) : (g <$> x).at s = (.ok (g a), s') := at_bind_ok h

theorem at_map_error {g : α → β} (h : x.at s = (.error e, s')) : (g <$> x).at s = (.error e, s') := at_bind_error h

/-- The part ends with a result, or the database refuses a statement. -/
def Gives (x : Act α) (s : Session) (Q : α → Session → Prop) : Prop :=
  (∃ e s', x.at s = (.error (.db e), s')) ∨ ∃ a s', x.at s = (.ok a, s') ∧ Q a s'

theorem Gives.bind {Q : β → Session → Prop} (h : Gives x s fun a s' => Gives (f a) s' Q) : Gives (x >>= f) s Q := by
  rcases h with ⟨e, s', hx⟩ | ⟨a, s', hx, hf⟩
  · exact .inl ⟨e, s', at_bind_error hx⟩
  · rw [Gives, at_bind_ok hx]
    exact hf

theorem Gives.mono {Q Q' : α → Session → Prop} (h : Gives x s Q) (hQ : ∀ a s', Q a s' → Q' a s') : Gives x s Q' := by
  rcases h with hdb | ⟨a, s', hx, hpost⟩
  · exact .inl hdb
  · exact .inr ⟨a, s', hx, hQ a s' hpost⟩

theorem gives_pure {Q : α → Session → Prop} (h : Q a s) : Gives (pure a : Act α) s Q := .inr ⟨a, s, rfl, h⟩

theorem gives_get {Q : Session → Session → Prop} (h : Q s s) : Gives (get : Act Session) s Q := .inr ⟨s, s, rfl, h⟩

theorem gives_set {Q : PUnit → Session → Prop} (h : Q ⟨⟩ s') : Gives (set s' : Act PUnit) s Q := .inr ⟨⟨⟩, s', rfl, h⟩

theorem gives_execute {env : Environment} {Q : Unit → Session → Prop}
    (h : Q () { s with statements := s.statements + 1 }) :
    Gives (execute env) s Q := by
  refine Gives.bind (gives_get (Gives.bind (gives_set ?_)))
  cases env.refuses s.statements with
  | none => exact gives_pure h
  | some e => exact .inl ⟨e, _, rfl⟩

end Rules

/-! ## An image that is valid -/

/-- The rule of `_validate_file`. -/
structure Valid (img : InitImageItem) : Prop where
  filename : img.filename ≠ ""
  positive : 0 < img.filesize
  contentType : img.contentType ∈ ALLOWED_CONTENT_TYPES
  short : img.filesize ≤ MAX_UPLOAD_BYTES

instance (img : InitImageItem) : Decidable (Valid img) :=
  decidable_of_iff (img.filename ≠ "" ∧ 0 < img.filesize ∧ img.contentType ∈ ALLOWED_CONTENT_TYPES ∧
    img.filesize ≤ MAX_UPLOAD_BYTES) ⟨fun h => ⟨h.1, h.2.1, h.2.2.1, h.2.2.2⟩,
      fun h => ⟨h.filename, h.positive, h.contentType, h.short⟩⟩

/-- The row for an item. -/
structure Intent (env : Environment) (productId : ℕ) (img : InitImageItem) (image : ProductImage) : Prop where
  productId : image.productId = productId
  status : image.status = .pendingUploaded
  storageKey : image.storageKey =
    some s!"{FOLDER_PREFIX}/{image.publicId}_{ImageUpload.buildUnqImgKey env image.publicId}"
  filename : image.origFilename = img.filename
  contentType : image.mimeType = img.contentType
  filesize : image.fileSize = img.filesize
  sortOrder : image.sortOrder = img.sortOrder

section Images
variable {env : Environment} {productId : ℕ} {img : InitImageItem} {s : Session}

theorem init_valid (h : Valid img) : (ImageUpload.init img.contentType img.filesize img.filename img.sortOrder).at s =
    (.ok ⟨img.contentType, img.filesize, img.filename, img.sortOrder⟩, s) := by
  have hok : ImageUpload.validateFile ⟨img.contentType, img.filesize, img.filename, img.sortOrder⟩ = .ok () := by
    rw [ImageUpload.validateFile, if_neg h.filename, if_neg (not_le.2 h.positive), if_neg (not_not_intro h.contentType),
      if_neg (not_lt.2 h.short)]
  rw [ImageUpload.init, hok]
  rfl

/-- An invalid item raises the error of the attempt to raise another one. -/
theorem init_invalid (h : ¬Valid img) : ∃ text,
    (ImageUpload.init img.contentType img.filesize img.filename img.sortOrder).at s =
      (.error (.typeError text), s) := by
  have herror : ∃ text, ImageUpload.validateFile ⟨img.contentType, img.filesize, img.filename, img.sortOrder⟩ =
      .error (.typeError text) := by
    rw [ImageUpload.validateFile]
    split
    · exact ⟨_, rfl⟩
    next hname =>
      split
      · exact ⟨_, rfl⟩
      next hpos =>
        split
        · exact ⟨_, rfl⟩
        next htype =>
          split
          · exact ⟨_, rfl⟩
          next hshort => exact absurd ⟨hname, not_le.1 hpos, not_not.1 htype, not_lt.1 hshort⟩ h
  obtain ⟨text, htext⟩ := herror
  refine ⟨text, ?_⟩
  rw [ImageUpload.init, htext]
  rfl

/-- The row as it is inserted. -/
structure Inserted (env : Environment) (productId : ℕ) (u : ImageUpload) (images : List ProductImage)
    (image : ProductImage) : Prop where
  id : image.id = freshId (images.map (·.id))
  productId : image.productId = productId
  status : image.status = .pendingUploaded
  filename : image.origFilename = u.origFilename
  contentType : image.mimeType = u.contentType
  filesize : image.fileSize = u.filesize
  sortOrder : image.sortOrder = u.sortOrder

theorem gives_create (u : ImageUpload) : Gives (u.createProductImageIntent env productId) s fun image s' =>
    Inserted env productId u s.images image ∧ s'.images = s.images ++ [image] := by
  refine Gives.bind (gives_get (Gives.bind (gives_set (Gives.bind (gives_execute ?_)))))
  split
  · exact .inl ⟨.integrity, _, rfl⟩
  · refine Gives.bind (.inr ⟨⟨⟩, _, rfl, Gives.bind (gives_execute (gives_pure ?_))⟩)
    exact ⟨⟨rfl, rfl, rfl, rfl, rfl, rfl, rfl⟩, rfl⟩

theorem le_foldl_max {ids : List ℕ} {k id : ℕ} (h : id ≤ k ∨ id ∈ ids) : id ≤ ids.foldl max k := by
  induction ids generalizing k with
  | nil => exact h.resolve_right List.not_mem_nil
  | cons first rest ih =>
    apply ih
    rcases h with hle | hmem
    · exact .inl (hle.trans (le_max_left k first))
    · rcases List.mem_cons.1 hmem with rfl | hrest
      · exact .inl (le_max_right k id)
      · exact .inr hrest

theorem freshId_not_mem (ids : List ℕ) : freshId ids ∉ ids := by
  intro hmem
  have hle : freshId ids ≤ ids.foldl max 0 := le_foldl_max (.inr hmem)
  rw [freshId] at hle
  omega

theorem withStorageKey_append {images : List ProductImage} {image : ProductImage} {key : String}
    (h : ∀ i ∈ images, i.id ≠ image.id) : ImageUpload.withStorageKey image.id key (images ++ [image]) =
      images ++ [{ image with storageKey := some key }] := by
  have hsame : ImageUpload.withStorageKey image.id key images = images :=
    (List.map_congr_left fun i hi => if_neg (h i hi)).trans (List.map_id' images)
  rw [ImageUpload.withStorageKey, List.map_append]
  refine congrArg₂ (· ++ ·) hsame ?_
  simp

/-- The new row gets its key, and the others stay. -/
theorem gives_update {images : List ProductImage} {image : ProductImage} {key : String}
    (hs : s.images = images ++ [image]) (hid : image.id = freshId (images.map (·.id))) :
    Gives (ImageUpload.updateProdImageStorageKey env image.id image.publicId key) s fun _ s' =>
      s'.images = images ++ [{ image with storageKey := some s!"{FOLDER_PREFIX}/{image.publicId}_{key}" }] := by
  refine Gives.bind (gives_execute (Gives.bind (gives_get ?_)))
  dsimp only
  split
  · exact .inl ⟨.integrity, _, rfl⟩
  · have hother : ∀ i ∈ images, i.id ≠ image.id := fun i hi heq =>
      freshId_not_mem (images.map (·.id)) (hid ▸ heq ▸ List.mem_map_of_mem hi)
    have hfind : s.images.find? (fun i => decide (i.id = image.id)) = some image := by
      rw [hs, List.find?_append, List.find?_eq_none.2 fun i hi heq => hother i hi (of_decide_eq_true heq)]
      simp
    rw [hfind]
    refine Gives.bind (gives_set (gives_pure ?_))
    dsimp only
    rw [hs, withStorageKey_append hother]

/-- The entry for the row of an item. -/
structure Announces (env : Environment) (img : InitImageItem) (image : ProductImage) (item : ItemOut) : Prop where
  imagePublicId : item.imagePublicId = image.publicId
  filename : item.filename = img.filename
  params : ∃ now, item.uploadParams = buildCloudinaryUploadParams env now image.publicId
    (ImageUpload.buildUnqImgKey env image.publicId)

theorem gives_initImage (env : Environment) (productId : ℕ) (s : Session) (h : Valid img) :
    Gives (initImage env productId img) s fun item s' =>
    ∃ image, s'.images = s.images ++ [image] ∧ Intent env productId img image ∧ Announces env img image item := by
  refine Gives.bind (.inr ⟨_, s, init_valid h, Gives.bind ((gives_create _).mono fun image s₁ hcreated => ?_)⟩)
  obtain ⟨hinserted, himages⟩ := hcreated
  refine Gives.bind ((gives_update himages hinserted.id).mono fun _ s₂ hupdated => ?_)
  refine Gives.bind (gives_get (gives_pure ⟨_, hupdated, ⟨hinserted.productId, hinserted.status, rfl,
    hinserted.filename,
    hinserted.contentType, hinserted.filesize, hinserted.sortOrder⟩, rfl, rfl, _, rfl⟩))

/-- An item with its row and its entry. -/
structure Made (env : Environment) (productId : ℕ) where
  img : InitImageItem
  image : ProductImage
  item : ItemOut
  intent : Intent env productId img image
  announces : Announces env img image item

/-- A batch of valid items gets a row and an entry for each. -/
theorem gives_initImages {images : List InitImageItem} (h : ∀ img ∈ images, Valid img) :
    Gives (initImages env productId images) s fun out s' => ∃ made : List (Made env productId),
      made.map Made.img = images ∧ out = ⟨made.map Made.item, []⟩ ∧ s'.images = s.images ++ made.map Made.image := by
  induction images generalizing s with
  | nil => exact gives_pure ⟨[], rfl, rfl, (List.append_nil _).symm⟩
  | cons img rest ih =>
    obtain ⟨himg, hrest⟩ := List.forall_mem_cons.1 h
    rw [initImages]
    rcases gives_initImage env productId s himg with
      ⟨e, s₁, hdb⟩ | ⟨item, s₁, hok, image, himages, hintent, hannounces⟩
    · exact .inl ⟨e, s₁, at_bind_error (at_try_error (at_map_error hdb))⟩
    · refine Gives.bind (.inr ⟨.inl item, s₁, at_try_ok (at_map_ok hok), Gives.bind ((ih hrest).mono ?_)⟩)
      rintro out s₂ ⟨made, rfl, rfl, hrows⟩
      refine gives_pure ⟨⟨img, image, item, hintent, hannounces⟩ :: made, rfl, rfl, ?_⟩
      rw [hrows, himages, List.append_assoc]
      rfl

/-- An invalid item ends the request. -/
theorem initImages_invalid (env : Environment) (productId : ℕ) (s : Session) {images : List InitImageItem}
    (h : ∃ img ∈ images, ¬Valid img) :
    ∃ r s', (initImages env productId images).at s = (.error r, s') ∧
      ((∃ e, r = .db e) ∨ ∃ text, r = .typeError text) := by
  induction images generalizing s with
  | nil =>
    obtain ⟨img, himg, -⟩ := h
    cases himg
  | cons img rest ih =>
    rw [initImages]
    by_cases himg : Valid img
    · have hrest : ∃ img ∈ rest, ¬Valid img := by
        obtain ⟨bad, hbad, hinvalid⟩ := h
        exact ⟨bad, (List.mem_cons.1 hbad).resolve_left fun heq => hinvalid (heq ▸ himg), hinvalid⟩
      rcases gives_initImage env productId s himg with ⟨e, s₁, hdb⟩ | ⟨item, s₁, hok, -⟩
      · exact ⟨.db e, s₁, at_bind_error (at_try_error (at_map_error hdb)), .inl ⟨e, rfl⟩⟩
      · obtain ⟨r, s₂, hraised, hr⟩ := ih s₁ hrest
        refine ⟨r, s₂, ?_, hr⟩
        rw [at_bind_ok (at_try_ok (at_map_ok hok)), at_bind_error hraised]
    · obtain ⟨text, htext⟩ := init_invalid (s := s) himg
      have hraised : (initImage env productId img).at s = (.error (.typeError text), s) := at_bind_error htext
      exact ⟨.typeError text, s, at_bind_error (at_try_error (at_map_error hraised)), .inr ⟨text, rfl⟩⟩

theorem gives_findProduct (env : Environment) {productPublicId : String} {product : Product}
    (h : (s.products.filter fun p => p.publicId = productPublicId ∧ p.deletedAt.isNone) = [product]) :
    Gives (findProductByPid env productPublicId) s fun p s' =>
      p = (product.id, product.ownerId) ∧ s'.images = s.images := by
  refine Gives.bind (gives_execute (Gives.bind (gives_get ?_)))
  dsimp only
  rw [h]
  exact gives_pure ⟨rfl, rfl⟩

end Images

/-- The valid items have a row and an entry each, and the invalid ones an error, all in the order of the input. -/
structure Partitions (env : Environment) (productId : ℕ) (images : List InitImageItem)
    (before after : List ProductImage)
    (out : InitBatchOut) (made : List (Made env productId)) : Prop where
  valid : made.map Made.img = images.filter fun img => Valid img
  items : out.items = made.map Made.item
  errors : out.errors.map ErrorOut.filename = (images.filter fun img => ¬Valid img).map InitImageItem.filename
  rows : after = before ++ made.map Made.image

/-- A batch is partitioned just when all its items are valid. -/
theorem batch_partitions_iff (env : Environment) {userIdentifier : Option ℕ} {productPublicId : String}
    (images : List InitImageItem) {s : Session} {product : Product}
    (hproduct : (s.products.filter fun p => p.publicId = productPublicId ∧ p.deletedAt.isNone) = [product])
    (howner : product.ownerId = userIdentifier)
    (hdb : ∀ e, ((initImagesUploadBatch env userIdentifier productPublicId images).at s).1 ≠ .error (.db e)) :
    (∃ out made, ((initImagesUploadBatch env userIdentifier productPublicId images).at s).1 = .ok out ∧
      Partitions env product.id images s.images
        (committed s.images ((initImagesUploadBatch env userIdentifier productPublicId images).at s)) out made) ↔
      ∀ img ∈ images, Valid img := by
  constructor
  · rintro ⟨out, made, hok, -⟩
    by_contra hnot
    push Not at hnot
    rcases gives_findProduct env hproduct with ⟨e, s₁, hfailed⟩ | ⟨p, s₁, hfound, rfl, -⟩
    · exact hdb e (congrArg Prod.fst (at_bind_error hfailed))
    · obtain ⟨r, s₂, hraised, -⟩ := initImages_invalid env product.id s₁ hnot
      rw [initImagesUploadBatch, at_bind_ok hfound, if_neg (not_not_intro howner), at_bind_error hraised] at hok
      cases hok
  · intro hvalid
    have hgives : Gives (initImagesUploadBatch env userIdentifier productPublicId images) s fun out s' =>
        ∃ made : List (Made env product.id), made.map Made.img = images ∧ out = ⟨made.map Made.item, []⟩ ∧
          s'.images = s.images ++ made.map Made.image := by
      refine Gives.bind ((gives_findProduct env hproduct).mono ?_)
      rintro p s₁ ⟨rfl, hsame⟩
      rw [if_neg (not_not_intro howner)]
      refine Gives.bind ((gives_initImages hvalid).mono ?_)
      rintro out s₂ ⟨made, himgs, hout, hrows⟩
      exact Gives.bind (gives_execute (gives_pure ⟨made, himgs, hout, hsame ▸ hrows⟩))
    rcases hgives with ⟨e, s', hfailed⟩ | ⟨out, s', hok, made, himgs, rfl, hrows⟩
    · exact absurd (congrArg Prod.fst hfailed) (hdb e)
    · refine ⟨_, made, congrArg Prod.fst hok, ?_, rfl, ?_, ?_⟩
      · rw [himgs, List.filter_eq_self.2 fun img himg => decide_eq_true (hvalid img himg)]
      · rw [List.filter_eq_nil_iff.2 fun img himg => by simpa using hvalid img himg]
        rfl
      · rw [hok]
        exact hrows

/-! ## A lamp with two images -/

def shopEnvironment : Environment where
  hexdigest _ := "9f86d081884c7d659a2feaa0c55ad015"
  cloudName := "shop"
  apiKey := "key"
  apiSecret := "secret"
  apiSignRequest _ _ := "signature"
  time k := k
  uuid7 k := toString k
  refuses _ := none

def lampSession : Session where
  products := [⟨1, "lamp", some 7, none⟩]
  images := []

def pngItem : InitImageItem := ⟨"lamp.png", "image/png", 2000, some 0⟩

def gifItem : InitImageItem := ⟨"lamp.gif", "image/gif", 2000, some 1⟩

theorem batch_partitions_iff_png : ∃ out made,
    ((initImagesUploadBatch shopEnvironment (some 7) "lamp" [pngItem]).at lampSession).1 = .ok out ∧
      Partitions shopEnvironment 1 [pngItem] [] (committed []
        ((initImagesUploadBatch shopEnvironment (some 7) "lamp" [pngItem]).at lampSession)) out made := by
  have hok : ((initImagesUploadBatch shopEnvironment (some 7) "lamp" [pngItem]).at lampSession).1.toOption.isSome := by
    decide +kernel
  have hdb : ∀ e, ((initImagesUploadBatch shopEnvironment (some 7) "lamp" [pngItem]).at lampSession).1 ≠
      .error (.db e) := by
    intro e h
    rw [h] at hok
    cases hok
  have hproduct : (lampSession.products.filter fun p => p.publicId = "lamp" ∧ p.deletedAt.isNone) =
      [⟨1, "lamp", some 7, none⟩] := by decide
  exact (batch_partitions_iff shopEnvironment [pngItem] hproduct rfl hdb).2 (by decide)

/-- One item of a type that is not allowed ends the request, and nothing is committed. -/
theorem gif_ends_batch :
    committed [] ((initImagesUploadBatch shopEnvironment (some 7) "lamp" [pngItem, gifItem]).at lampSession) = [] ∧
      ((initImagesUploadBatch shopEnvironment (some 7) "lamp" [pngItem, gifItem]).at lampSession).1 =
        .error (.typeError "No constructor defined") ∧
      ¬∃ out made, ((initImagesUploadBatch shopEnvironment (some 7) "lamp" [pngItem, gifItem]).at lampSession).1 =
        .ok out ∧ Partitions shopEnvironment 1 [pngItem, gifItem] [] (committed []
          ((initImagesUploadBatch shopEnvironment (some 7) "lamp" [pngItem, gifItem]).at lampSession)) out made := by
  have hraised : ((initImagesUploadBatch shopEnvironment (some 7) "lamp" [pngItem, gifItem]).at lampSession).1 =
      .error (.typeError "No constructor defined") := by rfl
  refine ⟨rfl, hraised, ?_⟩
  rintro ⟨out, made, hok, -⟩
  rw [hraised] at hok
  cases hok

end Phyllonix.ImageIntents
