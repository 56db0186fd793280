import Phyllonix.RelationalShielded
import Phyllonix.OrderRepository

/-!
# Rules for the statements of the shop

The rules of the statement and host helpers. They need a protocol that looks at
the store and the clock only.
-/

namespace Phyllonix
open Relational
variable {n : ℕ} {P : Protocol shop shopHost n} {G : Guard shop shopHost n} {i : Fin n}
variable {sh : Shared shop shopHost} {x : P.Val} {l : Txn shop}

theorem HostAct.step_clock {a : HostAct} {c : HostChoice} {s s' : HostState}
    {r : Except AppErr a.Res} (h : a.step c s = some (r, s')) : s'.clock = s.clock := by
  cases a <;> cases c <;> simp only [HostAct.step, Option.some.injEq, Prod.mk.injEq,
    reduceCtorEq] at h <;> obtain ⟨-, rfl⟩ := h <;> rfl

theorem hostAct_answers (a : HostAct) (s : HostState) : ∃ c, (a.step c s).isSome := by
  cases a with
  | createPspOrder req => exact ⟨.response [], rfl⟩
  | _ => exact ⟨.proceed, rfl⟩

theorem ok_of_toOption {ε α : Type} {r : Option (Except ε α)} {a : α}
    (h : r.bind Except.toOption = some a) : r = some (.ok a) := by
  obtain ⟨e, rfl, he⟩ := Option.bind_eq_some_iff.mp h
  cases e with
  | error e => cases he
  | ok b =>
    cases he
    rfl

/-- The protocol does not look at the host except for its clock. -/
structure Quiet (P : Protocol shop shopHost n) : Prop where
  inv : ∀ {sh : Shared shop shopHost} {s x}, s.clock = sh.host.clock → P.inv sh x →
    P.inv ⟨sh.db, s⟩ x
  next : ∀ i (sh : Shared shop shopHost) s x, P.next i sh ⟨sh.db, s⟩ x = x
  guar : ∀ i l (sh : Shared shop shopHost) x s, s.clock = sh.host.clock →
    P.guar i l sh x ⟨sh.db, s⟩

theorem evolution_quiet (R : RowOrder shop) (I : Db → Prop) (J : Fin n → Prop) :
    Quiet (evolution (H := shopHost) R I J) where
  inv _ h := h
  next _ _ _ _ := rfl
  guar _ _ _ _ _ _ := ⟨.refl _ _, fun _ => rfl⟩

theorem shielded_quiet (R : RowOrder shop) (I : Db → Prop) (Γ : Fin n → Db → Db → Prop) (hΓ : ∀ i d, Γ i d d) :
    Quiet (shielded (H := shopHost) R I Γ hΓ) where
  inv _ h := h
  next _ _ _ _ := rfl
  guar i _ _ _ _ _ := ⟨.refl _ _, hΓ i _⟩

theorem safe_hostCall (hP : Quiet P) {a : HostAct} {Q : Post P a.Res}
    (h : ∀ w y, Seen P i l sh x w y → ∀ c r s, a.step c w.host = some (r, s) →
      s.clock = w.host.clock → Q (r.mapError .app) ⟨w.db, s⟩ y l) :
    Safe P G i Q (hostCall a) sh x l := by
  refine Safe.host fun w y hs c r s hst => ?_
  have hc := HostAct.step_clock hst
  have hn : P.next i w.toShared ⟨w.db, s⟩ y = y := hP.next i w.toShared s y
  rw [hn]
  exact ⟨hP.inv hc hs.inv, hP.guar i l w.toShared y s hc, h w y hs c r s hst hc⟩

theorem safe_now (hP : Quiet P) {Q : Post P ℕ}
    (h : ∀ w y, Seen P i l sh x w y → Q (.ok w.host.clock) w.toShared y l) :
    Safe P G i Q now sh x l := by
  refine safe_hostCall hP fun w y hs c r s hst _ => ?_
  cases c <;> simp only [HostAct.step, Option.some.injEq, Prod.mk.injEq, reduceCtorEq] at hst
  obtain ⟨rfl, rfl⟩ := hst
  exact h w y hs

theorem safe_sleep (hP : Quiet P) {q : Rat} {Q : Post P Unit}
    (h : ∀ w y, Seen P i l sh x w y → Q (.ok ()) w.toShared y l) :
    Safe P G i Q (sleep q) sh x l := by
  refine safe_hostCall hP fun w y hs c r s hst _ => ?_
  cases c <;> simp only [HostAct.step, Option.some.injEq, Prod.mk.injEq, reduceCtorEq] at hst
  obtain ⟨rfl, rfl⟩ := hst
  exact h w y hs

theorem safe_uuid7 (hP : Quiet P) {Q : Post P UUID}
    (h : ∀ w y, Seen P i l sh x w y → ∀ u s, s.clock = w.host.clock →
      Q (.ok u) ⟨w.db, s⟩ y l) :
    Safe P G i Q uuid7 sh x l := by
  refine safe_hostCall hP fun w y hs c r s hst hc => ?_
  cases c <;> simp only [HostAct.step, Option.some.injEq, Prod.mk.injEq, reduceCtorEq] at hst
  obtain ⟨rfl, rfl⟩ := hst
  exact h w y hs _ _ hc

/-- An inserted row has an identifier above all that the transaction sees. -/
theorem safe_insert {t : Table} {mk : ℕ → t.Row} {hmk : ∀ m, rowId (mk m) = m} {Q : Post P t.Row}
    (h : ∀ w y, Seen P i l sh x w y → ∀ m, (∀ r ∈ l.view w.db t, rowId r < m) →
      (l.view w.db).Free t (rowKeys (mk m)) → Q (.ok (mk m)) w.toShared y (l.write t [] (mk m)))
    (he : OnError Q i sh x l) : Safe P G i Q (insert t mk hmk) sh x l := by
  refine Safe.bind (Safe.insert (fun w y hs m hm hf => h w y hs m hm hf) (fun hk => by cases hk) ?_)
  intro w y hs e l' hl
  exact he w y hs e l' hl

theorem safe_ofApp {α : Type} {r : Except AppErr α} {Q : Post P α}
    (hok : ∀ a, r = .ok a → Q (.ok a) sh x l) (herr : ∀ e, Q (.error (.app e)) sh x l) :
    Safe P G i Q (ofApp r) sh x l := by
  cases r with
  | ok a => exact hok a rfl
  | error e => exact herr e

theorem safe_oneOrNone {α : Type} {rows : List α} {Q : Post P (Option α)}
    (hnone : rows = [] → Q (.ok none) sh x l) (hsome : ∀ a, rows = [a] → Q (.ok (some a)) sh x l)
    (hmany : Q (.error (.app .multipleResultsFound)) sh x l) :
    Safe P G i Q (oneOrNone rows) sh x l := by
  match rows with
  | [] => exact hnone rfl
  | [a] => exact hsome a rfl
  | _ :: _ :: _ => exact hmany

theorem oneOrNone_toList {α : Type} (o : Option α) : oneOrNone o.toList = pure o := by
  cases o <;> rfl

theorem ofApp_acts {α : Type} {A : ShopAction → Prop} (r : Except AppErr α) : (ofApp r).Acts A := by
  cases r <;> trivial

theorem oneOrNone_acts {α : Type} {A : ShopAction → Prop} (rows : List α) :
    (oneOrNone rows).Acts A := by
  match rows with
  | [] => trivial
  | [_] => trivial
  | _ :: _ :: _ => trivial

section ById
variable {α : Type} {t : Table} {k : ℕ} {Q : Post P α} {f : Option t.Row → Py α}

/-- A statement that selects by primary key sees at most one row. -/
theorem safe_selectById
    (h : ∀ w y, Seen P i l sh x w y →
      Safe P G i Q (f ((l.view w.db).get t k)) w.toShared y l)
    (he : (∃ sh' g, Fails G i sh' l (.read (β := List t.Row) g)) → OnError Q i sh x l) :
    Safe P G i Q (select t (fun r => rowId r = k) >>= fun res => oneOrNone res >>= f) sh x l := by
  refine Safe.bind (Safe.read (fun w y hs => ?_) fun ⟨sh', hf⟩ w y hs e l' hl =>
    he ⟨sh', _, hf⟩ w y hs e l' hl)
  have hrows := Store.filter_id (S := shop) hs.ok.wf.ids t k
  change Safe P G i Q (oneOrNone ((l.view w.db t).filter fun r => decide (rowId r = k)) >>= f) _ _ _
  rw [hrows, oneOrNone_toList]
  exact h w y hs

theorem safe_selectOne
    (h : ∀ w y, Seen P i l sh x w y →
      Safe P G i Q (f ((l.view w.db).get t k)) w.toShared y l)
    (he : (∃ sh' a, Fails G i sh' l a) → OnError Q i sh x l) :
    Safe P G i Q (select t (fun r => rowId r = k) >>= fun res => oneOrNone res >>= f) sh x l :=
  safe_selectById h fun ⟨sh', g, hf⟩ => he ⟨sh', .read g, hf⟩

theorem safe_lockById {Q : Post P (List t.Row)}
    (h : ∀ w y, Seen P i l sh x w y → Q (.ok ((l.view w.db).get t k).toList) w.toShared y
      (l.acquire (((l.view w.db).get t k).toList.map fun r => .row t (rowId r))))
    (he : (∃ sh' a, Fails G i sh' l a) → OnError Q i sh x l) :
    Safe P G i Q (selectForUpdate t (fun r => rowId r = k)) sh x l := by
  refine Safe.lock (fun w y hs _ => ?_) fun ⟨sh', hf⟩ w y hs e l' hl => he ⟨sh', _, hf⟩ w y hs e l' hl
  have hrows := Store.filter_id (S := shop) hs.ok.wf.ids t k
  change Q (.ok ((l.view w.db t).filter fun r => decide (rowId r = k))) _ _
    (l.acquire (((l.view w.db t).filter fun r => decide (rowId r = k)).map _))
  rw [hrows]
  exact h w y hs

theorem safe_lockOne
    (h : ∀ w y, Seen P i l sh x w y → Safe P G i Q (f ((l.view w.db).get t k)) w.toShared y
      (l.acquire (((l.view w.db).get t k).toList.map fun r => .row t (rowId r))))
    (he : (∃ sh' a, Fails G i sh' l a) → OnError Q i sh x l) :
    Safe P G i Q (selectForUpdate t (fun r => rowId r = k) >>= fun res => oneOrNone res >>= f)
      sh x l := by
  refine Safe.bind (safe_lockById (fun w y hs => ?_) he)
  simp only [oneOrNone_toList]
  exact h w y hs

theorem safe_lockSkipById {p : t.Row → Bool}
    (h : ∀ w y, Seen P i l sh x w y → ∀ free : t.Row → Bool,
      let o := ((l.view w.db).get t k).filter fun r => p r && free r
      Safe P G i Q (f o) w.toShared y (l.acquire (o.toList.map fun r => .row t (rowId r))))
    (he : (∃ sh' q, Fails G i sh' l (.lockSkip t q)) → OnError Q i sh x l) :
    Safe P G i Q (selectForUpdateSkipLocked t (fun r => rowId r = k && p r) >>=
      fun res => oneOrNone res >>= f) sh x l := by
  refine Safe.bind (Safe.lockSkip (fun w y hs free => ?_) fun ⟨sh', hf⟩ w y hs e l' hl =>
    he ⟨sh', _, hf⟩ w y hs e l' hl)
  have hrows := Store.filter_id_and (S := shop) hs.ok.wf.ids t k fun r => p r && free r
  simp only [Bool.and_assoc]
  rw [hrows, oneOrNone_toList]
  exact h w y hs free

theorem safe_lockSkipOne {p : t.Row → Bool}
    (h : ∀ w y, Seen P i l sh x w y → ∀ free : t.Row → Bool,
      let o := ((l.view w.db).get t k).filter fun r => p r && free r
      Safe P G i Q (f o) w.toShared y (l.acquire (o.toList.map fun r => .row t (rowId r))))
    (he : (∃ sh' a, Fails G i sh' l a) → OnError Q i sh x l) :
    Safe P G i Q (selectForUpdateSkipLocked t (fun r => rowId r = k && p r) >>=
      fun res => oneOrNone res >>= f) sh x l :=
  safe_lockSkipById h fun ⟨sh', q, hf⟩ => he ⟨sh', .lockSkip t q, hf⟩

theorem safe_updateById {g : t.Row → t.Row} {hg : ∀ r, rowId (g r) = rowId r} {Q : Post P (List t.Row)}
    (h : ∀ w y, Seen P i l sh x w y → ∀ l', Updated g ((l.view w.db).get t k).toList l l' →
      Q (.ok (((l.view w.db).get t k).toList.map g)) w.toShared y l')
    (he : (∃ sh' p, Fails G i sh' l (.update t p g hg)) ∨ (∃ r, rowKeys (g r) ≠ rowKeys r) → OnError Q i sh x l) :
    Safe P G i Q (update t (fun r => rowId r = k) g hg) sh x l := by
  refine Safe.update (fun w y hs l' hu => ?_) fun hf => he (hf.imp (fun ⟨sh', hf⟩ => ⟨sh', _, hf⟩) id)
  have hrows := Store.filter_id (S := shop) hs.ok.wf.ids t k
  have hrows' : (l.view w.db t).filter (fun r => decide (rowId r = k)) =
    ((l.view w.db).get t k).toList := hrows
  rw [hrows'] at hu ⊢
  exact h w y hs l' hu

theorem safe_updateOne {g : t.Row → t.Row} {hg : ∀ r, rowId (g r) = rowId r} {Q : Post P (List t.Row)}
    (h : ∀ w y, Seen P i l sh x w y → ∀ l', Updated g ((l.view w.db).get t k).toList l l' →
      Q (.ok (((l.view w.db).get t k).toList.map g)) w.toShared y l')
    (he : (∃ sh' a, Fails G i sh' l a) ∨ (∃ r, rowKeys (g r) ≠ rowKeys r) → OnError Q i sh x l) :
    Safe P G i Q (update t (fun r => rowId r = k) g hg) sh x l :=
  safe_updateById h fun hf => he (hf.imp (fun ⟨sh', p, hf⟩ => ⟨sh', .update t p g hg, hf⟩) id)

theorem updated_one {g : t.Row → t.Row} {d : Db} {l' : Txn shop} {r : t.Row}
    (h : Updated g ((l.view d).get t k).toList l l') (hr : (l.view d).get t k = some r) :
    l'.writes = ⟨t, g r⟩ :: l.writes ∧ .row t k ∈ l'.locks := by
  have hid : rowId r = k := Store.id_of_get hr
  rw [hr] at h
  exact ⟨h.writes, hid ▸ h.locked r List.mem_cons_self⟩

theorem updated_none {g : t.Row → t.Row} {d : Db} {l' : Txn shop}
    (h : Updated g ((l.view d).get t k).toList l l') (hr : (l.view d).get t k = none) :
    l'.writes = l.writes := by
  rw [hr] at h
  exact h.writes

end ById
end Phyllonix
