import Phyllonix.RelationalScripted

/-!
# Programs that publish messages and workers that take them

The host keeps the messages in the order in which they were published; those that nobody has
taken yet are the queue, which is bounded. A worker whose program is over takes the oldest message
of the queue and runs the program for it. What messages say of the store stays true while rows
evolve.
-/

namespace Relational
variable {S : Schema} {H : Host} {n : ℕ} {α M : Type}

/-! ## Messages about rows that evolve -/

/-- What the gauge shows is true of the store, and programs may count on the order of rows. -/
def heralding (o : Gauge H) (R : RowOrder S) (I : o.Val → Store S → Prop) : Protocol S H n where
  toHistory := History.none
  inv sh _ := I (o.read sh.host) sh.db
  rely _ _ sh _ sh' _ := Evolves R sh.db sh'.db
  guar _ _ sh _ sh' := Evolves R sh.db sh'.db
  next_same := History.none_same
  rely_refl _ _ _ _ := .refl _ _
  rely_trans h h' := h.trans h'
  guar_same _ _ _ _ := .refl _ _
  compat _ _ _ _ _ h := h
  env_inv e sh _ h := by
    dsimp only
    rwa [o.env]
  env_rely _ _ _ _ _ _ := .refl _ _

section Heralding
variable {o : Gauge H} {R : RowOrder S} {I : o.Val → Store S → Prop} {G : Guard S H n} {i : Fin n}
variable {sh : Shared S H} {x : Unit} {l : Txn S}

/-- A program that publishes nothing may commit at any time. -/
theorem Safe.of_mute (hI : ∀ {v d d'}, Evolves R d d' → I v d → I v d') {p : Prog S H α}
    (hp : p.Acts fun a => a.Keeps R ∧ a.Mute o) (hview : Evolves R sh.db (l.view sh.db)) :
    Safe (heralding o R I) G i (fun _ sh' _ l' => Evolves R sh.db sh'.db ∧ Evolves R sh'.db (l'.view sh'.db))
      p sh x l := by
  induction p generalizing sh l with
  | ret a => exact ⟨.refl _ _, hview⟩
  | raise e => exact ⟨.refl _ _, hview⟩
  | act a k ih =>
    intro w y hs c busy r w' l' _ hr
    obtain ⟨⟨hkeeps, hmute⟩, hk⟩ := hp
    obtain ⟨hdb, hview'⟩ := Action.run_evolves hkeeps hs.world hs.ok (hview.still hs.ok hs.still) hr
    have hinv : I (o.read w'.host) w'.db := by
      rw [Action.run_mute hmute hr]
      exact hI hdb hs.inv
    have hrely : Evolves R sh.db w.db := hs.rely
    refine ⟨hinv, hdb, (ih r (hk r) hview').mono fun r' sh' x' l'' h => ?_⟩
    exact ⟨(hrely.trans hdb).trans h.1, h.2⟩

/-- Inside a transaction, what it sees evolves. -/
theorem Safe.of_mute_within {p : Prog S H α} (hp : p.Acts fun a => a.Keeps R ∧ a.Within ∧ a.Mute o) :
    Safe (heralding o R I) G i (fun _ sh' _ l' => Evolves R sh.db sh'.db ∧
      Evolves R (l.view sh.db) (l'.view sh'.db)) p sh x l := by
  induction p generalizing sh l with
  | ret a => exact ⟨.refl _ _, .refl _ _⟩
  | raise e => exact ⟨.refl _ _, .refl _ _⟩
  | act a k ih =>
    intro w y hs c busy r w' l' _ hr
    obtain ⟨⟨hkeeps, hin, hmute⟩, hk⟩ := hp
    obtain ⟨hdb, hview⟩ := Action.run_within hkeeps hin hs.world hs.ok hr
    have hrely : Evolves R sh.db w.db := hs.rely
    have hinv : I (o.read w'.host) w'.db := by
      rw [Action.run_mute hmute hr, hdb]
      exact hs.inv
    have hsame : Evolves R w.db w'.db := by
      rw [hdb]
      exact .refl _ _
    refine ⟨hinv, hsame, (ih r (hk r)).mono fun r' sh' x' l'' h => ?_⟩
    rw [hdb] at h
    exact ⟨hrely.trans h.1, ((hrely.view hs.ok hs.still).trans hview).trans h.2⟩

theorem Safe.commit_heralding (hI : ∀ {v d d'}, Evolves R d d' → I v d → I v d')
    {Q : Post (heralding o R I) Unit} (hview : Evolves R sh.db (l.view sh.db))
    (h : ∀ w y, Seen (heralding o R I) i l sh x w y → Q (.ok ()) ⟨l.view w.db, w.host⟩ y l.committed)
    (he : OnError Q i sh x l) : Safe (heralding o R I) G i Q (.call .commit) sh x l := by
  refine Safe.commit (fun w y hs _ => ?_) fun _ => he
  have hown : Evolves R w.db (l.view w.db) := hview.still hs.ok hs.still
  exact ⟨hI hown hs.inv, hown, h w y hs⟩

end Heralding

/-! ## Workers -/

def Prog.running : Prog S H α → Bool
  | .act _ _ => true
  | _ => false

structure Workers (S : Schema) (H : Host) (n : ℕ) (α M : Type) where
  published : H.State → List M
  capacity : ℕ
  works : Fin n → Bool
  run : M → Prog S H α

/-- A system with the number of messages that were taken, and the last one of each worker. -/
structure Pool (S : Schema) (H : Host) (n : ℕ) (α M : Type) where
  sys : Sys S H n α
  taken : ℕ := 0
  task : Fin n → Option M := fun _ => none

inductive PoolLabel (H : Host) (n : ℕ) where
  | sys (x : Label H n)
  | take (i : Fin n)

/-- Program `i` starts anew. -/
def Sys.restart (s : Sys S H n α) (i : Fin n) (p : Prog S H α) : Sys S H n α :=
  { s with procs := Function.update s.procs i ⟨p, {}⟩ }

namespace Pool
variable (W : Workers S H n α M)

def queue (s : Pool S H n α M) : List M := (W.published s.sys.world.host).drop s.taken

/-- A message is published when the queue has room for it. -/
def step (s : Pool S H n α M) : PoolLabel H n → Option (Pool S H n α M)
  | .sys x => (s.sys.step x).bind fun sys =>
    if (queue W { s with sys }).length ≤ W.capacity then some { s with sys } else none
  | .take i =>
    if W.works i && !(s.sys.procs i).prog.running then
      match s.queue W with
      | [] => none
      | m :: _ => some ⟨s.sys.restart i (W.run m), s.taken + 1, Function.update s.task i (some m)⟩
    else none

/-- The states of the runs from `s₀` whose steps all meet the guard. -/
inductive Run (G : Guard S H n) (K : History S H n) (s₀ : Pool S H n α M) (x₀ : K.Val) :
    Pool S H n α M → K.Val → Prop
  | start : Run G K s₀ x₀ s₀ x₀
  | proc {s s' : Pool S H n α M} {x : K.Val} (i : Fin n) (c : Choice H) : Run G K s₀ x₀ s x →
      s.sys.Allows G i c → s.step W (.sys (.proc i c)) = some s' →
      Run G K s₀ x₀ s' (K.next i s.sys.world.toShared s'.sys.world.toShared x)
  | env {s s' : Pool S H n α M} {x : K.Val} (e : H.Env) : Run G K s₀ x₀ s x →
      s.step W (.sys (.env e)) = some s' → Run G K s₀ x₀ s' x
  | take {s s' : Pool S H n α M} {x : K.Val} (i : Fin n) : Run G K s₀ x₀ s x →
      s.step W (.take i) = some s' → Run G K s₀ x₀ s' x

/-- Runs the listed steps, when the guard allows them. -/
def exec (G : Guard S H n) [∀ i sh l a c, Decidable (G i sh l a c)] (s : Pool S H n α M) :
    List (PoolLabel H n) → Option (Pool S H n α M)
  | [] => some s
  | .sys (.proc i c) :: xs =>
    if s.sys.Allows G i c then (s.step W (.sys (.proc i c))).bind fun s' => s'.exec G xs else none
  | .sys (.env e) :: xs => (s.step W (.sys (.env e))).bind fun s' => s'.exec G xs
  | .take i :: xs => (s.step W (.take i)).bind fun s' => s'.exec G xs

variable {W} {G : Guard S H n} {K : History S H n} {s₀ s s' : Pool S H n α M} {x₀ x : K.Val}

theorem step_sys {y : Label H n} (h : s.step W (.sys y) = some s') :
    ∃ sys, s.sys.step y = some sys ∧ s' = { s with sys } := by
  obtain ⟨sys, hsys, hs⟩ := Option.bind_eq_some_iff.mp h
  split at hs
  · exact ⟨sys, hsys, (Option.some.inj hs).symm⟩
  · cases hs

/-- A worker takes a published message. -/
theorem step_take {i : Fin n} (h : s.step W (.take i) = some s') :
    ∃ m ∈ W.published s.sys.world.host,
      s' = ⟨s.sys.restart i (W.run m), s.taken + 1, Function.update s.task i (some m)⟩ := by
  rw [step] at h
  split at h
  · split at h
    · cases h
    · rename_i m ms hq
      have hmem : m ∈ s.queue W := by
        rw [hq]
        exact List.mem_cons_self
      exact ⟨m, List.mem_of_mem_drop hmem, (Option.some.inj h).symm⟩
  · cases h

theorem Run.exec [∀ i sh l a c, Decidable (G i sh l a c)] (h : Run W G K s₀ x₀ s x)
    {xs : List (PoolLabel H n)} (hx : s.exec W G xs = some s') : ∃ x', Run W G K s₀ x₀ s' x' := by
  induction xs generalizing s x with
  | nil =>
    cases hx
    exact ⟨x, h⟩
  | cons a xs ih =>
    cases a with
    | take i =>
      obtain ⟨s₁, hstep, hx⟩ := Option.bind_eq_some_iff.mp hx
      exact ih (.take i h hstep) hx
    | sys y =>
      cases y with
      | env e =>
        obtain ⟨s₁, hstep, hx⟩ := Option.bind_eq_some_iff.mp hx
        exact ih (.env e h hstep) hx
      | proc i c =>
        rw [Pool.exec] at hx
        split at hx
        · rename_i hG
          obtain ⟨s₁, hstep, hx⟩ := Option.bind_eq_some_iff.mp hx
          exact ih (.proc i c h hG hstep) hx
        · cases hx

end Pool

/-! ## The invariant of a pool -/

section Invariant
variable {P : Protocol S H n} {G : Guard S H n} {Q : Fin n → Post P α} {i : Fin n} {p : Prog S H α}

theorem Sys.Ok.restart {s : Sys S H n α} (h : s.Ok) : (s.restart i p).Ok := by
  have hempty : ({} : Txn S).Ok s.world.db s.world.seq := Txn.ok_of_no_writes h.world.wf rfl
  refine ⟨h.world, fun j => ?_, fun j k hjk => ?_⟩
  · by_cases hj : j = i
    · subst hj
      simpa [Sys.restart] using hempty
    · simpa [Sys.restart, hj] using h.txn j
  · intro y hy
    by_cases hj : j = i
    · subst hj
      simp [Sys.restart] at hy
    · by_cases hk : k = i
      · subst hk
        simp [Sys.restart]
      · simp only [Sys.restart, hj, hk, ne_eq, not_false_eq_true, Function.update_of_ne] at hy ⊢
        exact h.apart j k hjk y hy

theorem Sys.Inv.restart {s : Sys S H n α} {x : P.Val} (h : s.Inv P G Q x) {Q' : Post P α}
    (hsafe : Safe P G i Q' p s.world.toShared x {}) :
    (s.restart i p).Inv P G (Function.update Q i Q') x := by
  refine ⟨h.ok.restart, h.inv, fun j => ?_⟩
  by_cases hj : j = i
  · subst hj
    simp only [Sys.restart, Function.update_self]
    exact ⟨s.world.toShared, x, hsafe, .refl _ _, P.rely_refl _ _ _ _⟩
  · simp only [Sys.restart, ne_eq, hj, not_false_eq_true, Function.update_of_ne]
    exact h.safe j

/-- Each program is safe for the message that it works on, and the invariant says `good` of every
message that is taken. -/
theorem Pool.Run.inv {W : Workers S H n α M} (post : Fin n → Option M → Post P α) (good : M → Prop)
    {s₀ s : Pool S H n α M} {x₀ x : P.Val} (h : Pool.Run W G P.toHistory s₀ x₀ s x)
    (h₀ : s₀.sys.Inv P G (fun i => post i (s₀.task i)) x₀) (htask : ∀ i m, s₀.task i = some m → good m)
    (hgood : ∀ sh x, P.inv sh x → ∀ m ∈ W.published sh.host, good m)
    (hwork : ∀ i m sh x, P.inv sh x → m ∈ W.published sh.host →
      Safe P G i (post i (some m)) (W.run m) sh x {}) :
    s.sys.Inv P G (fun i => post i (s.task i)) x ∧ ∀ i m, s.task i = some m → good m := by
  induction h with
  | start => exact ⟨h₀, htask⟩
  | proc i c _ hG hstep ih =>
    obtain ⟨sys, hsys, rfl⟩ := Pool.step_sys hstep
    exact ⟨ih.1.proc hG hsys, ih.2⟩
  | env e _ hstep ih =>
    obtain ⟨sys, hsys, rfl⟩ := Pool.step_sys hstep
    exact ⟨ih.1.env hsys, ih.2⟩
  | @take s _ x i _ hstep ih =>
    obtain ⟨m, hm, rfl⟩ := Pool.step_take hstep
    have hinv := ih.1.restart (hwork i m _ x ih.1.inv hm)
    have hposts : Function.update (fun j => post j (s.task j)) i (post i (some m)) =
        fun j => post j (Function.update s.task i (some m) j) := by
      funext j
      by_cases hj : j = i
      · subst hj
        rw [Function.update_self, Function.update_self]
      · rw [Function.update_of_ne hj, Function.update_of_ne hj]
    rw [hposts] at hinv
    refine ⟨hinv, fun j m' hj => ?_⟩
    by_cases hji : j = i
    · subst hji
      cases (Function.update_self j (some m) s.task).symm.trans hj
      exact hgood _ x ih.1.inv m hm
    · exact ih.2 j m' ((Function.update_of_ne hji (some m) s.task).symm.trans hj)

end Invariant
end Relational
