import Phyllonix.RelationalAlone
import Phyllonix.RelationalUpheld

/-!
# Footprints

The tables that a program may insert into, and those whose rows it may change. A program whose
footprint misses the tables that a protocol watches needs no proof about the protocol; of another
one the proof is about its commits, with what all its actions keep of the open transaction.
-/

namespace Relational
variable {S : Schema} {H : Host} {α β : Type} {n : ℕ} {ins upd T : S.Tbl → Prop}

def Action.Footprint (ins upd : S.Tbl → Prop) : Action S H → Prop
  | .update t _ _ _ => upd t
  | .insert t _ _ _ => ins t
  | _ => True

theorem Action.Footprint.mono {ins' upd' : S.Tbl → Prop} (hins : ∀ t, ins t → ins' t) (hupd : ∀ t, upd t → upd' t)
    {a : Action S H} (ha : a.Footprint ins upd) : a.Footprint ins' upd' := by
  cases a with
  | update t p f hf => exact hupd t ha
  | insert t mk hmk skip => exact hins t ha
  | _ => trivial

theorem Action.Footprint.confined (hins : ∀ t, T t → ¬ins t) (hupd : ∀ t, T t → ¬upd t) {a : Action S H}
    (ha : a.Footprint ins upd) : a.Confined fun v => ¬T v.tbl := by
  cases a with
  | update t p f hf => exact fun _ _ ht => hupd t ht ha
  | insert t mk hmk skip => exact fun _ ht => hins t ht ha
  | _ => trivial

/-! ## Rows after the writes -/

section Rows
variable {t : S.Tbl} {rows : List (S.Row t)} {r : S.Row t} {q : S.Row t → Bool}

theorem find_putRow (hr : q r = true) (hsole : ∀ s ∈ rows, q s = true → S.id s = S.id r) :
    (putRow r rows).find? q = some r := by
  have hnone : (rows.filter fun s => decide (S.id s ≠ S.id r)).find? q = none := by
    apply List.find?_eq_none.mpr
    intro s hs hq
    obtain ⟨hmem, hne⟩ := List.mem_filter.mp hs
    exact of_decide_eq_true hne (hsole s hmem hq)
  rw [putRow, List.find?_append, hnone, Option.none_or, List.find?_cons_of_pos hr]

theorem find_putRow_of_not (hr : q r = false) (hold : ∀ s ∈ rows, S.id s = S.id r → q s = false) :
    (putRow r rows).find? q = rows.find? q := by
  have hnone : [r].find? q = none := by simp [hr]
  rw [putRow, List.find?_append, hnone, Option.or_none, List.find?_filter]
  induction rows with
  | nil => rfl
  | cons s rows ih =>
    have hrest := ih fun u hu => hold u (List.mem_cons_of_mem _ hu)
    have hs := hold s List.mem_cons_self
    by_cases hid : S.id s = S.id r
    · rw [List.find?_cons_of_neg (by simp [hid]), List.find?_cons_of_neg (by simp [hs hid]), hrest]
    · cases hq : q s with
      | true => rw [List.find?_cons_of_pos (by simp [hid, hq]), List.find?_cons_of_pos hq]
      | false => rw [List.find?_cons_of_neg (by simp [hq]), List.find?_cons_of_neg (by simp [hq]), hrest]

/-- A row that alone satisfies a test is found by it. -/
theorem find_of_sole (hmem : r ∈ rows) (hr : q r = true) (hsole : ∀ s ∈ rows, q s = true → s = r) :
    rows.find? q = some r := by
  cases hfind : rows.find? q with
  | none =>
    have hnot := List.find?_eq_none.mp hfind r hmem
    exact absurd hr hnot
  | some s => rw [hsole s (List.mem_of_find?_eq_some hfind) (List.find?_some hfind)]

end Rows

/-- Each row that was written replaces the row with its primary key. -/
theorem applyWrites_rows (ws : List (Write S)) (d : Store S) (t : S.Tbl) :
    applyWrites ws d t = (written t ws).foldl (fun rows r => putRow r rows) (d t) := by
  induction ws with
  | nil => rfl
  | cons w ws ih =>
    obtain ⟨u, r⟩ := w
    by_cases hu : u = t
    · subst hu
      rw [written_cons_self, List.foldl_concat, ← ih, applyWrites, Store.put_self]
    · rw [written_cons_of_ne hu, ← ih, applyWrites, Store.put_of_ne _ _ (Ne.symm hu)]

theorem written_of_untouched {ws : List (Write S)} {t : S.Tbl} (h : ∀ w ∈ ws, w.tbl ≠ t) : written t ws = [] := by
  have happ : written t (ws ++ []) = [] := written_append_of_untouched h
  rwa [List.append_nil] at happ

theorem mem_written {ws : List (Write S)} {t : S.Tbl} {r : S.Row t} : r ∈ written t ws ↔ ⟨t, r⟩ ∈ ws := by
  induction ws with
  | nil => simp
  | cons w ws ih =>
    obtain ⟨u, s⟩ := w
    by_cases hu : u = t
    · subst hu
      rw [written_cons_self, List.mem_append, ih]
      simp [or_comm]
    · have hne : (⟨t, r⟩ : Write S) ≠ ⟨u, s⟩ := fun he => hu (congrArg Write.tbl he).symm
      rw [written_cons_of_ne hu, ih, List.mem_cons]
      exact (or_iff_right hne).symm

theorem Store.get_putRow {d d' : Store S} {t : S.Tbl} {r : S.Row t} (h : d' t = putRow r (d t)) (k : ℕ) :
    d'.get t k = if k = S.id r then some r else d.get t k := by
  have hput : d'.get t k = (d.put t r).get t k := by rw [Store.get, h, Store.get, Store.put_self]
  rw [hput]
  split
  · rename_i hk
    rw [hk, Store.get_put_self]
  · rename_i hk
    exact Store.get_put_of_ne _ _ fun he => hk he.2

theorem Store.get_append_some {d d' : Store S} {t : S.Tbl} {rows : List (S.Row t)} (h : d' t = d t ++ rows) {k : ℕ}
    {r : S.Row t} (hr : d.get t k = some r) : d'.get t k = some r := by
  rw [Store.get] at hr
  rw [Store.get, h, List.find?_append, hr, Option.some_or]

/-! ## Insertions -/

section Inserts
variable {busy : Lock S → Bool} {w w' : World S H} {l l' : Txn S} {c : Choice H}

theorem statement_writes {γ : Type} {go : Outcome S H γ} {r : Except (Exn H.Err) γ}
    (h : statement c w l go = some (r, w', l')) (hgo : go = some (r, w', l') → w'.db = w.db ∧ l'.writes = l.writes) :
    w'.db = w.db ∧ l'.writes = l.writes := by
  rcases statement_cases h with ⟨rfl, -, rfl | rfl, -, -⟩ | ⟨-, hr⟩
  · exact ⟨rfl, rfl⟩
  · exact ⟨rfl, rfl⟩
  · exact hgo hr

theorem updateRows_writes {d : Store S} {t : S.Tbl} {f : S.Row t → S.Row t} {rows : List (S.Row t)}
    {r : Except (Exn H.Err) (List (S.Row t))} (h : updateRows busy d t f rows l = some (r, l')) :
    ∃ ws, l'.writes = ws ++ l.writes ∧ ∀ v ∈ ws, v.tbl = t := by
  induction rows generalizing l r with
  | nil =>
    simp only [updateRows, Option.some.injEq, Prod.mk.injEq] at h
    exact ⟨[], by rw [h.2, List.nil_append], fun v hv => by cases hv⟩
  | cons u us ih =>
    rw [updateRows] at h
    split at h
    · cases h
    split at h
    · obtain ⟨⟨r₁, l₁⟩, h₁, hx⟩ := Option.map_eq_some_iff.mp h
      have hl' : l' = l₁ := by
        cases r₁ <;> exact (congrArg Prod.snd hx).symm
      subst hl'
      obtain ⟨ws, hws, htbl⟩ := ih h₁
      refine ⟨ws ++ [⟨t, f u⟩], by rw [hws]; simp [Txn.write], fun v hv => ?_⟩
      rcases List.mem_append.mp hv with hv | hv
      · exact htbl v hv
      · rw [List.mem_singleton.mp hv]
    · simp only [Option.some.injEq, Prod.mk.injEq] at h
      rw [← h.2]
      exact ⟨[], rfl, fun v hv => by cases hv⟩

/-- The rows of `T` that a transaction has written are new while its actions only insert there. -/
theorem Action.run_inserts (hupd : ∀ t, T t → ¬upd t) {a : Action S H} (ha : a.Footprint ins upd)
    {r : Except (Exn H.Err) a.Res} (hw : w.Ok) (hl : l.Ok w.db w.seq) (hins : Inserts T l.writes w.db)
    (h : a.run c busy w l = some (r, w', l')) : Inserts T l'.writes w'.db := by
  have hsame : w'.db = w.db ∧ l'.writes = l.writes → Inserts T l'.writes w'.db := by
    rintro ⟨hdb, hwrites⟩
    rwa [hdb, hwrites]
  have hnone : l'.writes = [] → Inserts T l'.writes w'.db := by
    intro he
    rw [he]
    trivial
  cases a with
  | read f =>
    refine hsame (statement_writes h fun he => ?_)
    cases he
    exact ⟨rfl, rfl⟩
  | lock t p =>
    refine hsame (statement_writes h fun he => ?_)
    obtain ⟨-, rfl, rfl, -⟩ := lockAll_eq he
    exact ⟨rfl, rfl⟩
  | lockSkip t p =>
    refine hsame (statement_writes h fun he => ?_)
    obtain ⟨-, rfl, rfl, -⟩ := lockAll_eq he
    exact ⟨rfl, rfl⟩
  | tryLock m =>
    refine hsame (statement_writes h fun he => ?_)
    split at he <;> cases he <;> exact ⟨rfl, rfl⟩
  | update t p f hf =>
    rcases statement_cases h with ⟨rfl, -, rfl | rfl, -, -⟩ | ⟨-, he⟩
    · exact hins
    · exact hins
    obtain ⟨⟨r₁, l₁⟩, hu, hx⟩ := Option.map_eq_some_iff.mp he
    simp only [Prod.mk.injEq] at hx
    obtain ⟨-, rfl, rfl⟩ := hx
    obtain ⟨ws, hws, htbl⟩ := updateRows_writes hu
    rw [hws]
    exact hins.append_untouched fun v hv hT => hupd t (htbl v hv ▸ hT) ha
  | insert t mk hmk skip =>
    rcases statement_cases h with ⟨rfl, -, rfl | rfl, -, -⟩ | ⟨-, he⟩
    · exact hins
    · exact hins
    rcases insertRow_cases he with ⟨-, rfl, rfl, -, -⟩ | ⟨rfl, -, ⟨-, -, rfl⟩ | ⟨-, rfl⟩⟩
    · refine ⟨fun _ => ?_, hins⟩
      have hfresh := Txn.get_view_seq hw hl (t := t)
      rw [← hmk (w.seq t)] at hfresh
      exact hfresh
    · exact hins
    · exact hins
  | commit =>
    rcases statement_cases h with ⟨rfl, -, rfl | rfl, -, -⟩ | ⟨-, he⟩
    · exact hins
    · exact hins
    cases he
    exact hnone rfl
  | rollback =>
    cases c with
    | host c => cases h
    | go =>
      cases h
      exact hnone rfl
    | fault =>
      cases h
      exact hnone rfl
  | host a =>
    cases c with
    | go => cases h
    | fault => cases h
    | host c =>
      obtain ⟨x, -, hx⟩ := Option.map_eq_some_iff.mp h
      cases hx
      exact hsame ⟨rfl, rfl⟩

end Inserts

/-! ## Programs aside -/

/-- The protocol looks at the tables of `T` only. -/
structure Protocol.Watches (P : Protocol S H n) (T : S.Tbl → Prop) : Prop where
  inv : ∀ {sh sh' : Shared S H} {x}, (∀ t, T t → sh'.db t = sh.db t) → P.inv sh x → P.inv sh' x
  next : ∀ {i} {sh sh' : Shared S H} {x}, (∀ t, T t → sh'.db t = sh.db t) → P.next i sh sh' x = x
  guar : ∀ {i l} {sh sh' : Shared S H} {x}, (∀ t, T t → sh'.db t = sh.db t) → P.guar i l sh x sh'

theorem Protocol.Watches.mono {P : Protocol S H n} {T' : S.Tbl → Prop} (h : P.Watches T) (hT : ∀ t, T t → T' t) :
    P.Watches T' where
  inv hsame hinv := h.inv (fun t ht => hsame t (hT t ht)) hinv
  next hsame := h.next fun t ht => hsame t (hT t ht)
  guar hsame := h.guar fun t ht => hsame t (hT t ht)

/-- What the steps of others and steps outside of `T` leave true. -/
structure Protocol.Lasting (P : Protocol S H n) (T : S.Tbl → Prop) (i : Fin n) (K : Store S → P.Val → Prop) :
    Prop where
  rely : ∀ {l sh x sh' x'}, P.rely i l sh x sh' x' → K sh.db x → K sh'.db x'
  same : ∀ {d d' : Store S} {x}, (∀ t, T t → d' t = d t) → K d x → K d' x

section Rules
variable {P : Protocol S H n} {G : Guard S H n} {i : Fin n} {sh : Shared S H} {x : P.Val} {l : Txn S}
variable {K : Store S → P.Val → Prop}

/-- A program outside of `T`, with what is known while it runs. -/
theorem Safe.aside (hP : P.Watches T) (hK : P.Lasting T i K) {p : Prog S H α}
    (hp : p.Acts (Action.Footprint ins upd)) (hins : ∀ t, T t → ¬ins t) (hupd : ∀ t, T t → ¬upd t)
    (hk : K sh.db x) (hl : ∀ v ∈ l.writes, ¬T v.tbl) :
    Safe P G i (fun _ sh x l => K sh.db x ∧ ∀ v ∈ l.writes, ¬T v.tbl) p sh x l := by
  induction p generalizing sh x l with
  | ret a => exact ⟨hk, hl⟩
  | raise e => exact ⟨hk, hl⟩
  | act a k ih =>
    intro w y hs c busy r w' l' _ hr
    have hsame : ∀ t, T t → w'.db t = w.db t := by
      intro t ht
      rcases (Action.run_spec hs.world hs.ok hr).db with heq | heq
      · rw [heq]
      · rw [heq, Txn.view]
        exact applyWrites_of_untouched fun v hv he => hl v hv (he ▸ ht)
    have hnext : P.next i w.toShared w'.toShared y = y := hP.next hsame
    rw [hnext]
    refine ⟨hP.inv hsame hs.inv, hP.guar hsame, ih r (hp.2 r) (hK.same hsame (hK.rely hs.rely hk)) ?_⟩
    exact Action.run_confined (hp.1.confined hins hupd) hl hr

theorem Safe.aside_bind (hP : P.Watches T) (hK : P.Lasting T i K) {p : Prog S H α} {f : α → Prog S H β}
    (hp : p.Acts (Action.Footprint ins upd)) (hins : ∀ t, T t → ¬ins t) (hupd : ∀ t, T t → ¬upd t)
    (hk : K sh.db x) (hl : ∀ v ∈ l.writes, ¬T v.tbl)
    (hf : ∀ a sh x l, K sh.db x → (∀ v ∈ l.writes, ¬T v.tbl) → Safe P G i (fun _ _ _ _ => True) (f a) sh x l) :
    Safe P G i (fun _ _ _ _ => True) (p >>= f) sh x l := by
  apply Safe.bind
  apply (Safe.aside hP hK hp hins hupd hk hl).mono
  rintro r sh x l ⟨hk, hl⟩
  cases r with
  | error e => trivial
  | ok a => exact hf a sh x l hk hl

/-- A commit of writes outside of `T`. -/
theorem Safe.commit_aside (hP : P.Watches T) (hl : ∀ v ∈ l.writes, ¬T v.tbl) :
    Safe P G i (fun _ _ _ _ => True) (.call .commit) sh x l := by
  apply Safe.commit _ fun _ _ _ _ _ _ _ => trivial
  intro w y hs _
  have hsame : ∀ t, T t → l.view w.db t = w.db t := fun t ht =>
    applyWrites_of_untouched fun v hv he => hl v hv (he ▸ ht)
  have hnext : P.next i w.toShared ⟨l.view w.db, w.host⟩ y = y := hP.next hsame
  rw [hnext]
  exact ⟨hP.inv hsame hs.inv, hP.guar hsame, trivial⟩

/-- Of a program whose actions keep `Φ` of the open transaction only the commits matter. -/
theorem Safe.throughout (hP : P.Watches T) {A : Action S H → Prop} {Φ : Store S → P.Val → Txn S → Prop}
    (hseen : ∀ {sh x l w y}, Φ sh.db x l → Seen P i l sh x w y → Φ w.db y l)
    (hrun : ∀ {a : Action S H} {c busy w w' y l l' r}, A a → a.Uncommitted → w.Ok → l.Ok w.db w.seq → Φ w.db y l →
      a.run c busy w l = some (r, w', l') → Φ w.db y l')
    (hcommit : ∀ {sh x l w y c}, Seen P i l sh x w y → Φ w.db y l → G i w.toShared l .commit c →
      P.inv ⟨l.view w.db, w.host⟩ (P.next i w.toShared ⟨l.view w.db, w.host⟩ y) ∧
      P.guar i l w.toShared y ⟨l.view w.db, w.host⟩ ∧
      Φ (l.view w.db) (P.next i w.toShared ⟨l.view w.db, w.host⟩ y) l.committed)
    (habort : ∀ {d y l}, Φ d y l → Φ d y l.abort) {p : Prog S H α} (hp : p.Acts A) (h : Φ sh.db x l) :
    Safe P G i (fun _ sh x l => Φ sh.db x l) p sh x l := by
  induction p generalizing sh x l with
  | ret a => exact h
  | raise e => exact h
  | act a k ih =>
    intro w y hs c busy r w' l' hg hr
    have hnow : Φ w.db y l := hseen h hs
    have hquiet : w'.db = w.db → Φ w.db y l' →
        P.inv w'.toShared (P.next i w.toShared w'.toShared y) ∧ P.guar i l w.toShared y w'.toShared ∧
          Safe P G i (fun _ sh x l => Φ sh.db x l) (k r) w'.toShared (P.next i w.toShared w'.toShared y) l' := by
      intro hdb hnext
      have hsame : ∀ t, T t → w'.db t = w.db t := fun t _ => congrFun hdb t
      rw [hP.next hsame]
      refine ⟨hP.inv hsame hs.inv, hP.guar hsame, ih r (hp.2 r) ?_⟩
      rwa [hdb]
    by_cases ha : a.Uncommitted
    · exact hquiet (Action.run_db ha hs.world hs.ok hr) (hrun hp.1 ha hs.world hs.ok hnow hr)
    · cases a with
      | commit =>
        rcases statement_cases hr with ⟨rfl, -, rfl | rfl, -, -⟩ | ⟨-, he⟩
        · exact hquiet rfl hnow
        · exact hquiet rfl (habort hnow)
        · cases he
          obtain ⟨hinv, hguar, hnext⟩ := hcommit hs hnow hg
          exact ⟨hinv, hguar, ih _ (hp.2 _) hnext⟩
      | _ => exact absurd trivial ha

/-- What a program that does not commit writes. -/
theorem Safe.confined (hP : P.Watches T) {W : Write S → Prop} {p : Prog S H α}
    (hp : p.Acts fun a => a.Uncommitted ∧ a.Confined W) (hl : ∀ v ∈ l.writes, W v) :
    Safe P G i (fun _ _ _ l => ∀ v ∈ l.writes, W v) p sh x l := by
  induction p generalizing sh x l with
  | ret a => exact hl
  | raise e => exact hl
  | act a k ih =>
    intro w y hs c busy r w' l' _ hr
    have hdb := Action.run_db hp.1.1 hs.world hs.ok hr
    have hsame : ∀ t, T t → w'.db t = w.db t := fun t _ => congrFun hdb t
    rw [hP.next hsame]
    exact ⟨hP.inv hsame hs.inv, hP.guar hsame, ih r (hp.2 r) (Action.run_confined hp.1.2 hl hr)⟩

theorem Safe.uncommitted (hP : P.Watches T) {p : Prog S H α} (hp : p.Acts Action.Uncommitted) :
    Safe P G i (fun _ _ _ _ => True) p sh x l := by
  have hacts : p.Acts fun a => a.Uncommitted ∧ a.Confined fun _ => True := hp.mono fun a ha => ⟨ha, a.confined_true⟩
  exact (Safe.confined hP hacts fun _ _ => trivial).mono fun _ _ _ _ _ => trivial

end Rules
end Relational
