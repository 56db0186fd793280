import Phyllonix.RelationalScripted

/-!
# What a program asks of the host

A program can be run so that it also returns the host actions it performed. It takes the same
steps, and the exceptions that can leave it are known from its statements.
-/

namespace Relational
variable {S : Schema} {H : Host} {α β : Type}

def Action.asked : Action S H → List H.Act
  | .host a => [a]
  | _ => []

namespace Prog

/-- The program `p`, with the host actions of `acts` before its own. -/
def traced : Prog S H α → List H.Act → Prog S H (Except (Exn H.Err) α × List H.Act)
  | ret a, acts => ret (.ok a, acts)
  | raise e, acts => ret (.error e, acts)
  | act a k, acts => act a fun r => (k r).traced (acts ++ a.asked)

theorem traced_bind (p : Prog S H α) (f : α → Prog S H β) (acts : List H.Act) :
    (p >>= f).traced acts = p.traced acts >>= fun x => match x with
      | (.ok a, acts') => (f a).traced acts'
      | (.error e, acts') => pure (.error e, acts') := by
  induction p generalizing acts with
  | ret a => rfl
  | raise e => rfl
  | act a k ih => exact congrArg (act a) (funext fun r => ih r (acts ++ a.asked))

theorem traced_attempt (p : Prog S H α) (acts : List H.Act) :
    p.attempt.traced acts = p.traced acts >>= fun x => pure (.ok x.1, x.2) := by
  induction p generalizing acts with
  | ret a => rfl
  | raise e => rfl
  | act a k ih => exact congrArg (act a) (funext fun r => ih r (acts ++ a.asked))

/-- Without the trace it is the program itself. -/
theorem traced_fst (p : Prog S H α) (acts : List H.Act) :
    (p.traced acts >>= fun x => pure x.1) = p.attempt := by
  induction p generalizing acts with
  | ret a => rfl
  | raise e => rfl
  | act a k ih => exact congrArg (act a) (funext fun r => ih r (acts ++ a.asked))

theorem traced_of_asks_nothing {p : Prog S H α} (h : p.Acts fun a => a.asked = []) (acts : List H.Act) :
    p.traced acts = p.attempt >>= fun r => pure (r, acts) := by
  induction p with
  | ret a => rfl
  | raise e => rfl
  | act a k ih =>
    obtain ⟨ha, hk⟩ := h
    refine congrArg (act a) (funext fun r => ?_)
    rw [ha, List.append_nil]
    exact ih r (hk r)

theorem traced_call (a : Action S H) (acts : List H.Act) :
    (call a).traced acts = (call a).attempt >>= fun r => pure (r, acts ++ a.asked) :=
  congrArg (act a) (funext fun r => by cases r <;> rfl)

end Prog

section Traces
variable {o : Gauge H} {answers : H.Act → o.Val → H.Choice → Prop} {n : ℕ} {i₀ : Fin n}
variable {d : Store S} {v : o.Val} {l : Txn S} {acts : List H.Act}

/-- As `Plays`, with the host actions performed so far. -/
def Traces (answers : H.Act → o.Val → H.Choice → Prop) (i₀ : Fin n)
    (Q : Except (Exn H.Err) α → List H.Act → Store S → o.Val → Txn S → Prop) (p : Prog S H α)
    (acts : List H.Act) (d : Store S) (v : o.Val) (l : Txn S) : Prop :=
  Plays answers i₀ (fun r d v l => ∃ r' acts', r = .ok (r', acts') ∧ Q r' acts' d v l) (p.traced acts) d v l

theorem Traces.pure {Q : Except (Exn H.Err) α → List H.Act → Store S → o.Val → Txn S → Prop} {a : α}
    (h : Q (.ok a) acts d v l) : Traces answers i₀ Q (Pure.pure a) acts d v l :=
  Plays.pure ⟨.ok a, acts, rfl, h⟩

theorem Traces.bind {Q : Except (Exn H.Err) β → List H.Act → Store S → o.Val → Txn S → Prop}
    {p : Prog S H α} {f : α → Prog S H β}
    (h : Traces answers i₀ (fun r acts d v l => match r with
      | .ok a => Traces answers i₀ Q (f a) acts d v l
      | .error e => Q (.error e) acts d v l) p acts d v l) : Traces answers i₀ Q (p >>= f) acts d v l := by
  rw [Traces, Prog.traced_bind]
  apply Plays.bind
  apply Plays.mono h
  rintro r d v l ⟨r', acts', rfl, hq⟩
  cases r' with
  | ok a => exact hq
  | error e => exact Plays.pure ⟨.error e, acts', rfl, hq⟩

theorem Traces.attempt {Q : Except (Exn H.Err) (Except (Exn H.Err) α) → List H.Act → Store S → o.Val →
    Txn S → Prop} {p : Prog S H α} (h : Traces answers i₀ (fun r => Q (.ok r)) p acts d v l) :
    Traces answers i₀ Q p.attempt acts d v l := by
  rw [Traces, Prog.traced_attempt]
  apply Plays.bind
  apply Plays.mono h
  rintro r d v l ⟨r', acts', rfl, hq⟩
  exact Plays.pure ⟨.ok r', acts', rfl, hq⟩

/-- A program that asks nothing of the host leaves the trace as it is. -/
theorem Traces.of_plays {Q : Except (Exn H.Err) α → List H.Act → Store S → o.Val → Txn S → Prop}
    {p : Prog S H α} (hp : p.Acts fun a => a.asked = [])
    (h : Plays answers i₀ (fun r => Q r acts) p d v l) : Traces answers i₀ Q p acts d v l := by
  rw [Traces, Prog.traced_of_asks_nothing hp]
  apply Plays.bind
  apply Plays.attempt
  apply Plays.mono h
  intro r d v l hq
  exact Plays.pure ⟨r, acts, rfl, hq⟩

theorem Traces.call {a : Action S H}
    {Q : Except (Exn H.Err) a.Res → List H.Act → Store S → o.Val → Txn S → Prop}
    (h : Plays answers i₀ (fun r => Q r (acts ++ a.asked)) (.call a) d v l) :
    Traces answers i₀ Q (.call a) acts d v l := by
  rw [Traces, Prog.traced_call]
  apply Plays.bind
  apply Plays.attempt
  apply Plays.mono h
  intro r d v l hq
  exact Plays.pure ⟨r, _, rfl, hq⟩

/-- What the trace shows at the end holds of the program itself. -/
theorem Safe.of_traced {P : Protocol S H n} {G : Guard S H n} {i : Fin n}
    {Q : Except (Exn H.Err) α → List H.Act → Shared S H → P.Val → Txn S → Prop} {p : Prog S H α}
    {sh : Shared S H} {x : P.Val}
    (h : Safe P G i (fun r sh x l => ∃ r' acts', r = .ok (r', acts') ∧ Q r' acts' sh x l) (p.traced acts) sh x l) :
    Safe P G i (fun r sh x l => ∃ acts', Q r acts' sh x l) p sh x l := by
  induction p generalizing acts sh x l with
  | ret a =>
    obtain ⟨r', acts', hr, hq⟩ := h
    cases hr
    exact ⟨acts, hq⟩
  | raise e =>
    obtain ⟨r', acts', hr, hq⟩ := h
    cases hr
    exact ⟨acts, hq⟩
  | act a k ih =>
    intro w y hs c busy r w' l' hg hr
    obtain ⟨hinv, hguar, hk⟩ := h w y hs c busy r w' l' hg hr
    exact ⟨hinv, hguar, ih r hk⟩

theorem Traces.plays {Q : Except (Exn H.Err) α → List H.Act → Store S → o.Val → Txn S → Prop} {p : Prog S H α}
    (h : Traces answers i₀ Q p acts d v l) :
    Plays answers i₀ (fun r d v l => ∃ acts', Q r acts' d v l) p d v l :=
  fun sh x hd hv => Safe.of_traced (Q := fun r acts' sh _ l => Q r acts' sh.db (o.read sh.host) l) (h sh x hd hv)

end Traces

/-! ## Exceptions -/

/-- An exception of the database. -/
def Exn.OfStore {E : Type} : Exn E → Prop
  | .app _ => False
  | _ => True

theorem statement_ofStore {γ : Type} {c : Choice H} {w w' : World S H} {l l' : Txn S} {go : Outcome S H γ}
    {e : Exn H.Err} (h : statement c w l go = some (.error e, w', l'))
    (hgo : go = some (.error e, w', l') → e.OfStore) : e.OfStore := by
  unfold statement at h
  split at h
  · cases h
    trivial
  · split at h
    · cases h
      trivial
    · exact hgo h
  · cases h

theorem updateRows_error {busy : Lock S → Bool} {d : Store S} {t : S.Tbl} {f : S.Row t → S.Row t}
    {rows : List (S.Row t)} {l l' : Txn S} {e : Exn H.Err}
    (h : updateRows busy d t f rows l = some (.error e, l')) : e.OfStore := by
  induction rows generalizing l with
  | nil => cases h
  | cons r rs ih =>
    rw [updateRows] at h
    split at h
    · cases h
    · split at h
      · obtain ⟨⟨r', l₁⟩, hu, hx⟩ := Option.map_eq_some_iff.1 h
        cases r' with
        | ok rs' => cases hx
        | error e' =>
          cases hx
          exact ih hu
      · cases h
        trivial

theorem Action.run_error {a : Action S H} (ha : a.asked = []) {c : Choice H} {busy : Lock S → Bool}
    {w w' : World S H} {l l' : Txn S} {e : Exn H.Err} (h : a.run c busy w l = some (.error e, w', l')) :
    e.OfStore := by
  cases a with
  | read f => exact statement_ofStore h fun hgo => by cases hgo
  | lock t p | lockSkip t p =>
    refine statement_ofStore h fun hgo => ?_
    unfold lockAll at hgo
    dsimp only at hgo
    split at hgo <;> cases hgo
  | update t p f hf =>
    refine statement_ofStore h fun hgo => ?_
    obtain ⟨⟨r, l₁⟩, hu, hx⟩ := Option.map_eq_some_iff.1 hgo
    cases hx
    exact updateRows_error hu
  | insert t mk hmk skip =>
    refine statement_ofStore h fun hgo => ?_
    rcases insertRow_cases hgo with ⟨hr, -⟩ | ⟨-, -, ⟨hr, -, -⟩ | ⟨hr, -⟩⟩ <;> cases hr
    trivial
  | tryLock m =>
    refine statement_ofStore h fun hgo => ?_
    split at hgo <;> cases hgo
  | commit => exact statement_ofStore h fun hgo => by cases hgo
  | rollback =>
    cases c with
    | go => cases h
    | fault =>
      cases h
      trivial
    | host c => cases h
  | host a => cases ha

/-- The exceptions that can leave the program, when those of the database may. -/
def Prog.Throws (B : Exn H.Err → Prop) : Prog S H α → Prop
  | .ret _ => True
  | .raise e => B e
  | .act a k => ∀ r, (∀ e, r = .error e → a.asked = [] → e.OfStore) → (k r).Throws B

namespace Prog.Throws
variable {B : Exn H.Err → Prop}

theorem pure (a : α) : (Pure.pure a : Prog S H α).Throws B := trivial

theorem bind {p : Prog S H α} {f : α → Prog S H β} (h : p.Throws B) (hf : ∀ a, (f a).Throws B) :
    (p >>= f).Throws B := by
  induction p with
  | ret a => exact hf a
  | raise e => exact h
  | act a k ih => exact fun r hr => ih r (h r hr)

theorem call {a : Action S H} (ha : a.asked = []) (hB : ∀ e, e.OfStore → B e) : (Prog.call a).Throws B := by
  intro r hr
  cases r with
  | ok a => trivial
  | error e => exact hB e (hr e rfl ha)

end Prog.Throws

theorem Plays.throws {o : Gauge H} {answers : H.Act → o.Val → H.Choice → Prop} {n : ℕ} {i₀ : Fin n}
    {B : Exn H.Err → Prop} {p : Prog S H α} (hp : p.Throws B) (d : Store S) (v : o.Val) (l : Txn S) :
    Plays answers i₀ (fun r _ _ _ => ∀ e, r = .error e → B e) p d v l := by
  induction p generalizing d v l with
  | ret a => exact Plays.pure fun e he => by cases he
  | raise e =>
    apply Plays.raise
    intro e' he
    cases he
    exact hp
  | act a k ih =>
    intro sh x hd hv w y hs c busy r w' l' hg hr
    refine ⟨trivial, fun hne => absurd rfl hne, ?_⟩
    refine ih r (hp r fun e he ha => ?_) w'.db (o.read w'.host) l' w'.toShared _ rfl rfl
    subst he
    exact Action.run_error ha hr

end Relational
