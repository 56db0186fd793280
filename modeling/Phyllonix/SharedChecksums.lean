import Mathlib.Data.List.Nodup
import Phyllonix.ImageDeliveries

/-!
# Images with the same bytes

The contents of images are unique by their checksum, and a content belongs to at most one image.
Of the images whose bytes have one checksum, one gets the content; the runs for the others end with
the database's refusal.
-/

namespace Phyllonix.Uploads
open Async

variable {n : ℕ} {events : Fin n → EventData} {checksum : String} {before : List ProductImage}

/-! ## Runs whose downloads succeed -/

/-- All statements work, and all downloads send bytes with one checksum. -/
def sending (checksum : String) : Allows (machine n) n
  | .proc _ (.sends sent), _ => sent = checksum
  | .proc _ _, _ => False
  | .env _, _ => True

instance (l : Label (machine n) n) (sh : Shared (machine n) n) : Decidable (sending checksum l sh) :=
  match l with
  | .proc _ (.sends sent) => inferInstanceAs (Decidable (sent = checksum))
  | .proc _ .works => inferInstanceAs (Decidable False)
  | .proc _ (.fails _) => inferInstanceAs (Decidable False)
  | .env _ => inferInstanceAs (Decidable True)

theorem sending_proc {i : Fin n} {c : Choice} {sh : Shared (machine n) n} (h : sending checksum (.proc i c) sh) :
    c = .sends checksum := by
  cases c with
  | sends sent => exact congrArg Choice.sends h
  | works => exact h.elim
  | fails e => exact h.elim

theorem step_sends {o : Op n} {s s' : State n} {r : Except Err o.Res} (ho : ∀ url, o ≠ .download url)
    (h : o.step (.sends checksum) s = some (r, s')) : (r, s') = o.run s := by
  unfold Op.step at h
  split at h
  · cases h
  cases o with
  | download url => exact absurd rfl (ho url)
  | _ => exact (Option.some.inj h).symm

/-! ## Linked images -/

/-- An image with such an id and status has the content with the checksum. -/
def State.Linked (s : State n) (checksum : String) (imageId : ℕ) (p : ImageUploadStatus → Prop) : Prop :=
  ∃ content ∈ s.contents, content.checksum = checksum ∧
    ∃ m ∈ s.images, m.id = imageId ∧ m.contentId = some content.id ∧ p m.status

abbrev State.Ready (s : State n) (checksum : String) (imageId : ℕ) : Prop := s.Linked checksum imageId (· = .ready)

/-- What the database upholds, what a processed event stands for, and what became of the images. -/
structure Consistent (before : List ProductImage) (events : Fin n → EventData) (checksum : String) (s : State n) :
    Prop where
  migrated : Migrated s
  rows : ∀ i, (s.eventRow (events i).eventId).isSome
  images : ∀ i, ∃ m ∈ s.images, m.id = (events i).productImage.id
  ids : (s.images.map (·.id)).Nodup
  /-- `uq_product_image_content_id` -/
  links : ∀ a ∈ s.images, ∀ b ∈ s.images, ∀ c, a.contentId = some c → b.contentId = some c → a.id = b.id
  checksums : (s.contents.map (·.checksum)).Nodup
  processed : ∀ i, s.Processed (events i).eventId → s.Ready checksum (events i).productImage.id
  unchanged : ∀ m ∈ before, m ∈ s.images ∨ s.Ready checksum m.id

/-- What the others do to a run. -/
structure Grows (checksum : String) (s s' : State n) : Prop where
  contents : ∀ content ∈ s.contents, content ∈ s'.contents
  linked : ∀ imageId p, p .ready → s.Linked checksum imageId p → s'.Linked checksum imageId p
  keeps : Keeps s s'

theorem Grows.refl (s : State n) : Grows checksum s s := ⟨fun _ h => h, fun _ _ _ h => h, .refl s⟩

theorem Grows.trans {s s' s'' : State n} (h : Grows checksum s s') (h' : Grows checksum s' s'') :
    Grows checksum s s'' :=
  ⟨fun c hc => h'.contents c (h.contents c hc), fun m p hp hm => h'.linked m p hp (h.linked m p hp hm),
    h.keeps.trans h'.keeps⟩

/-- Each event has one image. -/
def Paired (events : Fin n → EventData) : Prop :=
  ∀ i j, (events i).eventId = (events j).eventId → (events i).productImage.id = (events j).productImage.id

/-! ## Statements -/

section Statements
variable {s s' : State n}

/-- Images, contents and events stay as they are. -/
structure Still (s s' : State n) : Prop where
  frames : Frames s s'
  tables : s'.tables = s.tables

theorem Still.eventRow (h : Still s s') (id : ℕ) : s'.eventRow id = s.eventRow id := by
  rw [State.eventRow, State.eventRow, State.eventRows, State.eventRows, h.tables]

theorem Still.linked (h : Still s s') {imageId : ℕ} {p : ImageUploadStatus → Prop} :
    s'.Linked checksum imageId p ↔ s.Linked checksum imageId p := by
  rw [State.Linked, State.Linked, h.frames.images, h.frames.contents]

theorem Still.grows (h : Still s s') : Grows checksum s s' where
  contents := by rw [h.frames.contents]; exact fun _ hc => hc
  linked _ _ _ hm := h.linked.2 hm
  keeps := .of_tables h.tables

theorem Still.consistent (h : Still s s') (hs : Consistent before events checksum s) :
    Consistent before events checksum s' where
  migrated := (Keeps.of_tables h.tables).migrated hs.migrated
  rows i := by rw [h.eventRow]; exact hs.rows i
  images i := by rw [h.frames.images]; exact hs.images i
  ids := by rw [h.frames.images]; exact hs.ids
  links := by rw [h.frames.images]; exact hs.links
  checksums := by rw [h.frames.contents]; exact hs.checksums
  processed i hi := by
    obtain ⟨r, hr, hprocessed⟩ := hi
    rw [h.eventRow] at hr
    exact h.linked.2 (hs.processed i ⟨r, hr, hprocessed⟩)
  unchanged m hm := by
    rw [h.frames.images]
    exact (hs.unchanged m hm).imp id h.linked.2

theorem still_clock (s : State n) (d : ℕ) : Still s { s with clock := s.clock + d } := ⟨⟨rfl, rfl⟩, rfl⟩

/-- A checksum is inserted once. -/
theorem insertContent_spec (hs : Consistent before events checksum s) {me : Fin n}
    {providerPublicId url : Option String} {r : Except Err ℕ} (h : (r, s') = (Op.insertContent me checksum providerPublicId url).run s) :
    Consistent before events checksum s' ∧ Grows checksum s s' ∧
      (∃ content ∈ s'.contents, content.checksum = checksum) ∧
      ∀ contentId, r = .ok contentId → ∃ content ∈ s'.contents,
        content.checksum = checksum ∧ content.id = contentId := by
  rw [Op.run] at h
  split at h
  next hany =>
    obtain ⟨rfl, rfl⟩ := Prod.mk.inj h
    obtain ⟨content, hmem, hchecksum⟩ := List.any_eq_true.1 hany
    exact ⟨hs, .refl _, ⟨content, hmem, of_decide_eq_true hchecksum⟩, fun _ hr => by cases hr⟩
  next hnone =>
    obtain ⟨rfl, rfl⟩ := Prod.mk.inj h
    have hnew : checksum ∉ s.contents.map (·.checksum) := by
      intro hmem
      obtain ⟨content, hcontent, hchecksum⟩ := List.mem_map.1 hmem
      exact hnone (List.any_eq_true.2 ⟨content, hcontent, decide_eq_true hchecksum⟩)
    have hlinked : ∀ imageId p, s.Linked checksum imageId p → State.Linked { s.unlock me with
        contents := s.contents ++ [⟨freshId (s.contents.map (·.id)), checksum, providerPublicId, url⟩] }
          checksum imageId p := by
      rintro imageId p ⟨content, hcontent, hrest⟩
      exact ⟨content, List.mem_append_left _ hcontent, hrest⟩
    refine ⟨⟨⟨hs.migrated.provider, hs.migrated.uploads⟩, hs.rows, hs.images, hs.ids, hs.links, ?_, ?_, ?_⟩,
      ⟨fun c hc => List.mem_append_left _ hc, fun m p _ => hlinked m p, .of_tables rfl⟩, ?_, ?_⟩
    · rw [List.map_append]
      refine List.nodup_append.2 ⟨hs.checksums, List.nodup_singleton _, fun a ha b hb hab => ?_⟩
      have hsame : a = checksum := hab.trans (List.mem_singleton.1 hb)
      exact hnew (hsame ▸ ha)
    · exact fun i hi => hlinked _ _ (hs.processed i hi)
    · exact fun m hm => (hs.unchanged m hm).imp id (hlinked _ _)
    · exact ⟨_, List.mem_append_right _ List.mem_cons_self, rfl⟩
    · rintro contentId hr
      exact ⟨_, List.mem_append_right _ List.mem_cons_self, rfl, Except.ok.inj hr⟩

section Linking
variable {imageId eventId : ℕ} {content : ImageContent}

theorem Links.ready (h : Links imageId content.id eventId s s') (himage : ∃ m ∈ s.images, m.id = imageId)
    (hcontent : content ∈ s.contents) (hchecksum : content.checksum = checksum) : s'.Ready checksum imageId := by
  obtain ⟨m, hm, hid⟩ := himage
  refine ⟨content, h.contents ▸ hcontent, hchecksum,
    { m with contentId := some content.id, status := .ready }, ?_, hid, rfl, rfl⟩
  rw [h.images]
  exact List.mem_map.2 ⟨m, hm, if_pos hid⟩

theorem Links.unchanged (h : Links imageId content.id eventId s s') {m : ProductImage} (hm : m ∈ s.images)
    (hid : m.id ≠ imageId) : m ∈ s'.images := by
  rw [h.images]
  exact List.mem_map.2 ⟨m, hm, if_neg hid⟩

/-- A linked image keeps its content, or is the image that is linked now, to the same content. -/
theorem Links.linked (h : Links imageId content.id eventId s s') (hchecksums : (s.contents.map (·.checksum)).Nodup)
    (hcontent : content ∈ s.contents) (hchecksum : content.checksum = checksum) (hready : s'.Ready checksum imageId)
    {k : ℕ} {p : ImageUploadStatus → Prop} (hp : p .ready) (hk : s.Linked checksum k p) : s'.Linked checksum k p := by
  obtain ⟨c, hc, hsame, m, hm, rfl, hlink, hstatus⟩ := hk
  obtain rfl : c = content := List.inj_on_of_nodup_map hchecksums hc hcontent (hsame.trans hchecksum.symm)
  by_cases hid : m.id = imageId
  · rw [hid]
    obtain ⟨c', hc', hsame', m', hm', hid', hlink', hstatus'⟩ := hready
    exact ⟨c', hc', hsame', m', hm', hid', hlink', hstatus' ▸ hp⟩
  · exact ⟨c, h.contents ▸ hc, hsame, m, h.unchanged hm hid, rfl, hlink, hstatus⟩

theorem Links.ids (h : Links imageId content.id eventId s s') :
    s'.images.map (·.id) = s.images.map (·.id) := by
  rw [h.images, List.map_map]
  refine List.map_congr_left fun m _ => ?_
  rw [Function.comp_apply]
  split <;> rfl

theorem Links.unique (h : Links imageId content.id eventId s s')
    (hlinks : ∀ a ∈ s.images, ∀ b ∈ s.images, ∀ c, a.contentId = some c → b.contentId = some c → a.id = b.id)
    (hfree : ∀ m ∈ s.images, m.id ≠ imageId → m.contentId ≠ some content.id) :
    ∀ a ∈ s'.images, ∀ b ∈ s'.images, ∀ c, a.contentId = some c → b.contentId = some c → a.id = b.id := by
  rw [h.images]
  intro a' ha' b' hb' c hac hbc
  obtain ⟨a, ha, rfl⟩ := List.mem_map.1 ha'
  obtain ⟨b, hb, rfl⟩ := List.mem_map.1 hb'
  by_cases haid : a.id = imageId <;> by_cases hbid : b.id = imageId
  · rw [if_pos haid, if_pos hbid]
    exact haid.trans hbid.symm
  · rw [if_pos haid] at hac
    rw [if_neg hbid] at hbc
    exact absurd (hbc.trans hac.symm) (hfree b hb hbid)
  · rw [if_neg haid] at hac
    rw [if_pos hbid] at hbc
    exact absurd (hac.trans hbc.symm) (hfree a ha haid)
  · rw [if_neg haid] at hac ⊢
    rw [if_neg hbid] at hbc ⊢
    exact hlinks a ha b hb c hac hbc

/-- A row that the flush leaves processed is the flushed one, or was processed before. -/
theorem Links.processed_cases (h : Links imageId content.id eventId s s') {id : ℕ} (hprocessed : s'.Processed id) :
    id = eventId ∨ s.Processed id := by
  obtain ⟨r, hr, hset⟩ := hprocessed
  rw [h.rows] at hr
  obtain ⟨x, hx, rfl⟩ := Option.map_eq_some_iff.1 hr
  by_cases hid : x.id = eventId
  · exact .inl ((eventRow_id hx).symm.trans hid)
  · rw [if_neg hid] at hset
    exact .inr ⟨x, hx, hset⟩

end Linking

theorem links_spec (hs : Consistent before events checksum s)
    (hpaired : Paired events) {i : Fin n} {content : ImageContent} (hcontent : content ∈ s.contents)
    (hchecksum : content.checksum = checksum)
    (hfree : ∀ m ∈ s.images, m.id ≠ (events i).productImage.id → m.contentId ≠ some content.id)
    (hkeeps : Keeps s s') (h : Links (events i).productImage.id content.id (events i).eventId s s') :
    Consistent before events checksum s' ∧ Grows checksum s s' ∧ s'.Ready checksum (events i).productImage.id := by
  have hready := h.ready (hs.images i) hcontent hchecksum
  have hlinked : ∀ k p, p .ready → s.Linked checksum k p → s'.Linked checksum k p := fun _ _ hp hk =>
    h.linked hs.checksums hcontent hchecksum hready hp hk
  refine ⟨⟨hkeeps.migrated hs.migrated, fun j => hkeeps.isSome (hs.rows j), fun j => ?_, h.ids ▸ hs.ids,
    h.unique hs.links hfree, h.contents ▸ hs.checksums, fun j hj => ?_, fun m hm => ?_⟩,
    ⟨fun c hc => h.contents ▸ hc, hlinked, hkeeps⟩, hready⟩
  · obtain ⟨m, hm, hid⟩ := hs.images j
    have hmem : (events j).productImage.id ∈ s'.images.map (·.id) := h.ids ▸ List.mem_map.2 ⟨m, hm, hid⟩
    exact List.mem_map.1 hmem
  · rcases h.processed_cases hj with heq | hold
    · rw [← hpaired i j heq.symm]
      exact hready
    · exact hlinked _ _ rfl (hs.processed j hold)
  · rcases hs.unchanged m hm with hsame | hlink
    · by_cases hid : m.id = (events i).productImage.id
      · exact .inr (hid ▸ hready)
      · exact .inl (h.unchanged hsame hid)
    · exact .inr (hlinked _ _ rfl hlink)

end Statements

/-! ## Runs -/

def deduplicating (before : List ProductImage) (events : Fin n → EventData) (checksum : String) :
    Protocol (machine n) n (sending checksum) where
  inv sh := Consistent before events checksum sh.state
  rely _ sh sh' := Grows checksum sh.state sh'.state
  rely_refl _ _ := .refl _
  rely_trans h h' := h.trans h'
  env_inv d sh h _ := (still_clock sh.state d).consistent h
  env_rely _ d sh _ := (still_clock sh.state d).grows

section Safety
variable {α β : Type} {i : Fin n} {sh : Shared (machine n) n}

theorem safe_statement {o : Op n} {Q : Post (machine n) n o.Res}
    (h : ∀ (now sh' : Shared (machine n) n) r, Grows checksum sh.state now.state →
      Consistent before events checksum now.state → o.step (.sends checksum) now.state = some (r, sh'.state) →
        Consistent before events checksum sh'.state ∧ Grows checksum now.state sh'.state ∧ Q r sh') :
    Safe (deduplicating before events checksum) i Q (wait o) sh := by
  refine Safe.call fun now hrely hinv c r sh' hperforms hallow => ?_
  rw [sending_proc hallow] at hperforms
  obtain ⟨hinv', hgrows, hpost⟩ := h now sh' r hrely hinv hperforms.1
  exact ⟨hinv', fun _ _ => hgrows, hpost⟩

theorem safe_still {o : Op n} {Q : Post (machine n) n o.Res} (ho : ∀ url, o ≠ .download url)
    (hstill : ∀ s : State n, Still s (o.run s).2)
    (h : ∀ (now sh' : Shared (machine n) n) r, Grows checksum sh.state now.state →
      Consistent before events checksum now.state → Still now.state sh'.state →
        o.step (.sends checksum) now.state = some (r, sh'.state) → Q r sh') :
    Safe (deduplicating before events checksum) i Q (wait o) sh := by
  refine safe_statement fun now sh' r hrely hinv hstep => ?_
  have hsame : Still now.state sh'.state := (Prod.mk.inj (step_sends ho hstep)).2 ▸ hstill now.state
  exact ⟨hsame.consistent hinv, hsame.grows, h now sh' r hrely hinv hsame hstep⟩

theorem still_close (s : State n) (me : Fin n) : Still s ((Op.close me).run s).2 := ⟨⟨rfl, rfl⟩, rfl⟩

theorem still_lockEvent (s : State n) (me : Fin n) (table : String) (id : ℕ) :
    Still s ((Op.lockEvent me table id).run s).2 := by
  rw [Op.run, State.onEvents]
  cases s.find table ["id", "processed_at", "attempts"] <;> exact ⟨⟨rfl, rfl⟩, rfl⟩

theorem safe_download {url : Option String} :
    Safe (deduplicating before events checksum) i (fun r _ => r = .ok checksum) (wait (.download url)) sh := by
  refine safe_statement fun now sh' r _ hinv hstep => ?_
  obtain ⟨hr, hs⟩ := Prod.mk.inj (Option.some.inj hstep)
  have hsame : Still now.state sh'.state := hs ▸ ⟨⟨rfl, rfl⟩, rfl⟩
  exact ⟨hsame.consistent hinv, hsame.grows, hr.symm⟩

theorem safe_downloadNChecksum {payload : Payload} {evtId : ℕ} :
    Safe (deduplicating before events checksum) i (fun r _ => r = .ok checksum)
      (downloadNChecksum i payload evtId) sh := by
  refine Safe.bind (Safe.bind (Safe.attempt (safe_download.mono fun r sh hr => ?_)))
  subst hr
  exact rfl

theorem safe_imageContentInsert {payload : Payload} :
    Safe (deduplicating before events checksum) i
      (fun r sh => ∃ content ∈ sh.state.contents, content.checksum = checksum ∧ r = .ok content.id)
      (imageContentInsert i payload checksum) sh := by
  refine Safe.bind (Safe.attempt (safe_statement fun now sh' r _ hinv hstep => ?_))
  obtain ⟨hinv', hgrows, ⟨content, hcontent, hchecksum⟩, hok⟩ :=
    insertContent_spec hinv (step_sends (fun _ h => by cases h) hstep)
  refine ⟨hinv', hgrows, ?_⟩
  cases r with
  | ok contentId =>
    obtain ⟨content', hcontent', hchecksum', rfl⟩ := hok contentId rfl
    exact ⟨content', hcontent', hchecksum', rfl⟩
  | error e =>
    refine Safe.bind (safe_still (fun _ h => by cases h) (still_close · i) fun now₁ sh₁ r₁ hrely₁ _ hsame₁ hstep₁ => ?_)
    obtain ⟨rfl, -⟩ := Prod.mk.inj (step_sends (fun _ h => by cases h) hstep₁)
    refine Safe.bind (safe_still (fun _ h => by cases h) (fun s => ⟨⟨rfl, rfl⟩, rfl⟩)
      fun now₂ sh₂ r₂ hrely₂ _ hsame₂ hstep₂ => ?_)
    obtain ⟨rfl, -⟩ := Prod.mk.inj (step_sends (fun _ h => by cases h) hstep₂)
    have hmem : content ∈ now₂.state.contents := by
      refine hrely₂.contents content ?_
      rw [hsame₁.frames.contents]
      exact hrely₁.contents content hcontent
    have hsome : (now₂.state.contents.find? (·.checksum = checksum)).isSome :=
      List.find?_isSome.2 ⟨content, hmem, decide_eq_true hchecksum⟩
    obtain ⟨found, hfound⟩ := Option.isSome_iff_exists.1 hsome
    dsimp only
    rw [hfound]
    refine ⟨found, ?_, by simpa using List.find?_some hfound, rfl⟩
    rw [hsame₂.frames.contents]
    exact List.mem_of_find?_eq_some hfound

def Outcome (events : Fin n → EventData) (checksum : String) (i : Fin n) : Post (machine n) n Unit
  | .ok (), sh => sh.state.Processed (events i).eventId
  | .error e, sh => e = .db .integrity ∧ ∃ imageId, imageId ≠ (events i).productImage.id ∧
      sh.state.Linked checksum imageId fun _ => True

theorem Outcome.mono {r : Except Err Unit} {sh sh' : Shared (machine n) n} (hgrows : Grows checksum sh.state sh'.state)
    (h : Outcome events checksum i r sh) : Outcome events checksum i r sh' := by
  cases r with
  | ok u => exact hgrows.keeps.processed h
  | error e =>
    obtain ⟨he, imageId, hne, hlinked⟩ := h
    exact ⟨he, imageId, hne, hgrows.linked imageId _ trivial hlinked⟩

theorem safe_processRow (hpaired : Paired events)
    (hsnapshot : ¬((events i).productImage.contentId.isSome ∧ (events i).productImage.status = .ready)) :
    Safe (deduplicating before events checksum) i (Outcome events checksum i)
      (processRow i (events i) (events i).eventId) sh := by
  rw [processRow, isImageProcessed, if_neg hsnapshot]
  change Safe _ _ _ (downloadNChecksum i (events i).payload (events i).eventId >>= fun checksum => _) _
  refine Safe.bind (safe_downloadNChecksum.mono fun r sh hr => ?_)
  subst hr
  refine Safe.bind (safe_imageContentInsert.mono fun r sh hr => ?_)
  obtain ⟨content, hcontent, hchecksum, rfl⟩ := hr
  refine safe_statement fun now sh' r hrely hinv hstep => ?_
  have hrun := step_sends (fun _ h => by cases h) hstep
  rcases link_run hinv.migrated i (events i).productImage.id content.id (events i).eventId with
    ⟨⟨m, hm, hne, hlink⟩, hrefused⟩ | ⟨hfree, s₁, hlinked, hlinks⟩
  · obtain ⟨rfl, hs⟩ := Prod.mk.inj (hrun.trans hrefused)
    rw [hs]
    exact ⟨hinv, .refl _, rfl, m.id, hne, content, hs ▸ hrely.contents content hcontent, hchecksum, m, hs ▸ hm, rfl,
      hlink, trivial⟩
  · obtain ⟨rfl, rfl⟩ := Prod.mk.inj (hrun.trans hlinked)
    obtain ⟨hinv', hgrows, -⟩ := links_spec hinv hpaired (hrely.contents content hcontent) hchecksum hfree
      (keeps_step hstep) hlinks
    exact ⟨hinv', hgrows, hlinks.processed (hinv.rows i)⟩

theorem safe_event (hpaired : Paired events)
    (hsnapshot : ¬((events i).productImage.contentId.isSome ∧ (events i).productImage.status = .ready)) :
    Safe (deduplicating before events checksum) i (Outcome events checksum i) (processEvent i (events i)) sh := by
  rw [processEvent_eq]
  refine Safe.bind (safe_still (fun _ h => by cases h) (still_lockEvent · i _ _) fun now sh' r _ hinv hsame hstep => ?_)
  obtain ⟨x, hx⟩ := Option.isSome_iff_exists.1 (hinv.rows i)
  have hrun := step_sends (fun _ h => by cases h) hstep
  rw [lockEvent_run hinv.migrated, hx, Option.map_some] at hrun
  obtain ⟨rfl, -⟩ := Prod.mk.inj hrun
  dsimp only
  by_cases hprocessed : x.processedAt.isSome
  · rw [afterLock_processed i _ hprocessed]
    exact ⟨x, (hsame.eventRow _).trans hx, hprocessed⟩
  · rw [Option.not_isSome_iff_eq_none.1 hprocessed, eventRow_id hx]
    exact safe_processRow hpaired hsnapshot

theorem safe_delivery (hpaired : Paired events)
    (hsnapshot : ¬((events i).productImage.contentId.isSome ∧ (events i).productImage.status = .ready)) :
    Safe (deduplicating before events checksum) i (Outcome events checksum i)
      (computeChecksumAndUpdateStatus i (events i)) sh := by
  refine Safe.tryFinally ((safe_event hpaired hsnapshot).mono fun r sh hr => ?_)
  refine safe_still (fun _ h => by cases h) (still_close · i) fun now sh' d hrely _ hsame hstep => ?_
  obtain ⟨rfl, -⟩ := Prod.mk.inj (step_sends (fun _ h => by cases h) hstep)
  exact (hr.mono hrely).mono hsame.grows

end Safety

/-! ## The winner -/

/-- Images are uploaded, whose events are not processed, and whose snapshots are not linked. -/
structure Uploaded (events : Fin n → EventData) (st : State n) : Prop where
  migrated : Migrated st
  rows : ∀ i, ∃ r, st.eventRow (events i).eventId = some r ∧ r.processedAt = none
  images : ∀ i, ∃ m ∈ st.images, m.id = (events i).productImage.id
  snapshots : ∀ i, ¬((events i).productImage.contentId.isSome ∧ (events i).productImage.status = .ready)
  paired : Paired events
  ids : (st.images.map (·.id)).Nodup
  links : ∀ a ∈ st.images, ∀ b ∈ st.images, ∀ c, a.contentId = some c → b.contentId = some c → a.id = b.id
  checksums : (st.contents.map (·.checksum)).Nodup

theorem Uploaded.consistent {st : State n} (h : Uploaded events st) : Consistent st.images events checksum st where
  migrated := h.migrated
  rows i := by
    obtain ⟨r, hr, -⟩ := h.rows i
    exact Option.isSome_of_eq_some hr
  images := h.images
  ids := h.ids
  links := h.links
  checksums := h.checksums
  processed i hi := by
    obtain ⟨r, hr, hnone⟩ := h.rows i
    obtain ⟨r', hr', hprocessed⟩ := hi
    obtain rfl : r = r' := Option.some.inj (hr.symm.trans hr')
    rw [hnone] at hprocessed
    cases hprocessed
  unchanged m hm := .inl hm

/-- One content has the checksum, and one image the content. The runs for this image end normally,
with their event processed and the image ready; the database refuses the others, whose events stay
unprocessed; and all other images are as they were. -/
structure Winner (st : State n) (events : Fin n → EventData) (checksum : String) (content : ImageContent)
    (image : ProductImage) (s : Sys (machine n) n Unit) : Prop where
  oneContent : s.state.contents.filter (·.checksum = checksum) = [content]
  oneImage : s.state.images.filter (·.contentId = some content.id) = [image]
  won : ∀ i, (events i).productImage.id = image.id →
    s.outcome i = some (.ok ()) ∧ s.state.Processed (events i).eventId ∧ image.status = .ready
  lost : ∀ i, (events i).productImage.id ≠ image.id →
    s.outcome i = some (.error (.db .integrity)) ∧ ¬s.state.Processed (events i).eventId
  others : ∀ m ∈ st.images, m.id ≠ image.id → m ∈ s.state.images

theorem filter_eq_singleton {α β : Type} {f : α → β} {l : List α} (h : (l.map f).Nodup) {a : α} (ha : a ∈ l)
    {p : α → Bool} (hp : p a) (hother : ∀ b ∈ l, p b → f b = f a) : l.filter p = [a] := by
  apply List.perm_singleton.1
  apply (List.perm_ext_iff_of_nodup ((h.of_map f).filter p) (List.nodup_singleton a)).2
  intro b
  rw [List.mem_filter, List.mem_singleton]
  constructor
  · exact fun hb => List.inj_on_of_nodup_map h hb.1 ha (hother b hb.1 hb.2)
  · rintro rfl
    exact ⟨ha, hp⟩

/-- An image that has the content with the checksum is the only one. -/
theorem Consistent.linked_unique {s : State n} (h : Consistent before events checksum s) {content : ImageContent}
    (hcontent : content ∈ s.contents) (hchecksum : content.checksum = checksum) {image : ProductImage}
    (himage : image ∈ s.images) (hlink : image.contentId = some content.id) {imageId : ℕ} {p : ImageUploadStatus → Prop}
    (hlinked : s.Linked checksum imageId p) : imageId = image.id ∧ p image.status := by
  obtain ⟨c, hc, hsame, m, hm, rfl, hmlink, hstatus⟩ := hlinked
  obtain rfl : c = content := List.inj_on_of_nodup_map h.checksums hc hcontent (hsame.trans hchecksum.symm)
  have hid := h.links m hm image himage c.id hmlink hlink
  obtain rfl : m = image := List.inj_on_of_nodup_map h.ids hm himage hid
  exact ⟨rfl, hstatus⟩

def vaseImage : ProductImage := ⟨2, none, "0200", some "products/vase", .uploaded⟩

def vasePayload : Payload := ⟨some "c3d4", some "vase", some 1, some "images/0200", some "https://host/vase", none⟩

/-- Two uploaded images with their events. -/
def twoImages : State 2 where
  clock := 9
  tables := Function.update (migrated Payload) "uploadswebhookevent" (some ⟨uploadsColumns,
    [⟨1, "a1b2", some "cloudinary", lampPayload, 0, none, none⟩,
      ⟨2, "c3d4", some "cloudinary", vasePayload, 0, none, none⟩]⟩)
  images := [lampImage, vaseImage]

def twoEvents : Fin 2 → EventData
  | 0 => ⟨lampPayload, 1, lampImage⟩
  | 1 => ⟨vasePayload, 2, vaseImage⟩

theorem uploaded_twoImages : Uploaded twoEvents twoImages where
  migrated := ⟨rfl, _, rfl⟩
  rows := Fin.forall_fin_two.2 ⟨⟨_, rfl, rfl⟩, _, rfl, rfl⟩
  images := Fin.forall_fin_two.2 ⟨⟨lampImage, by simp [twoImages], rfl⟩, vaseImage, by simp [twoImages], rfl⟩
  snapshots := Fin.forall_fin_two.2 ⟨fun h => (by cases h.1), fun h => by cases h.1⟩
  paired := Fin.forall_fin_two.2 ⟨Fin.forall_fin_two.2 ⟨fun _ => rfl, fun h => (by cases h)⟩,
    Fin.forall_fin_two.2 ⟨fun h => (by cases h), fun _ => rfl⟩⟩
  ids := by decide
  links a ha b _ c hac _ := by
    simp only [twoImages, List.mem_cons, List.not_mem_nil, or_false] at ha
    rcases ha with rfl | rfl <;> cases hac
  checksums := List.nodup_nil

def oneAfterTheOther : List (Label (machine 2) 2) :=
  List.replicate 5 (.proc 0 (.sends "9f86")) ++ List.replicate 7 (.proc 1 (.sends "9f86"))

theorem oneAfterTheOther_runs : ∃ s, Sys.Reach (sending "9f86") (deliveries twoEvents twoImages) s ∧
    s.outcome 0 = some (.ok ()) ∧ s.outcome 1 = some (.error (.db .integrity)) ∧
      (s.state.eventRow 2).map (·.processedAt) = some none ∧ s.state.images.map (·.status) = [.ready, .uploaded] := by
  have hexec : ((deliveries twoEvents twoImages).exec (sending "9f86") oneAfterTheOther).map (fun s =>
      (s.outcome 0, s.outcome 1, (s.state.eventRow 2).map (·.processedAt), s.state.images.map (·.status))) =
        some (some (.ok ()), some (.error (.db .integrity)), some none, [.ready, .uploaded]) := by rfl
  obtain ⟨s, hs, hend⟩ := Option.map_eq_some_iff.1 hexec
  simp only [Prod.mk.injEq] at hend
  exact ⟨s, Sys.Reach.start.exec hs, hend⟩

end Phyllonix.Uploads
