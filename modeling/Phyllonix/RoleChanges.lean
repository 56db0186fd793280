import Phyllonix.StaleRoles
import Phyllonix.FallbackInsertions
import Phyllonix.RelationalAlone
import Mathlib.Data.List.Perm.Subperm

/-!
# A change of the roles of a user

The roles are removed and inserted inside one transaction. The roles that are removed
are those of the token of the acting administrator, and an insertion that is refused
takes everything back that has not been committed. What the user has in the end is the
result of insertions into a set that fall back to another set.
-/

namespace Phyllonix.Auth
open Relational

/-- The roles of a user. -/
def roleSet (d : Db) (user : ℕ) : Set ℕ :=
  {role | ∃ r ∈ d .userRole, (r : UserRole).userId = user ∧ r.roleId = role ∧ r.deleted = false}

/-- The roles with these names. -/
def namedRoles (d : Db) (names : List String) : Set ℕ :=
  {role | ∃ r ∈ d .role, (r : Role).id = role ∧ r.name ∈ names}

/-- The user has the role of this name. -/
def HasNamed (d : Db) (user : ℕ) (name : String) : Prop :=
  ∃ r ∈ d .role, (r : Role).name = name ∧ r.id ∈ roleSet d user

/-! ## Rows of roles -/

section Rows
variable {d d' : Db} {user role m : ℕ}

theorem roleSet_congr (h : d' .userRole = d .userRole) : roleSet d' user = roleSet d user := by
  rw [roleSet, roleSet, h]

theorem mem_keys_userRole {r : UserRole} :
    IndexKey.userRole user role ∈ rowKeys (t := .userRole) r ↔
      r.userId = user ∧ r.roleId = role ∧ r.deleted = false := by
  rw [rowKeys]
  cases r.deleted with
  | true => simp
  | false =>
    simp only [Bool.false_eq_true, if_false, List.mem_singleton, IndexKey.userRole.injEq, and_true]
    exact and_congr eq_comm eq_comm

/-- A role of a user may be inserted when the user does not have it. -/
theorem free_iff : d.Free .userRole (accounts.keys (t := .userRole) ⟨m, user, role, false⟩) ↔
    role ∉ roleSet d user := by
  constructor
  · rintro hfree ⟨r, hr, hrow⟩
    exact hfree r hr (.userRole user role) List.mem_cons_self (mem_keys_userRole.mpr hrow)
  · intro hnot r hr k hk hkr
    have hkey : k = .userRole user role := List.mem_singleton.mp hk
    subst hkey
    exact hnot ⟨r, hr, mem_keys_userRole.mp hkr⟩

theorem roleSet_put (hm : ∀ r ∈ d .userRole, (r : UserRole).id < m) :
    roleSet (d.put .userRole ⟨m, user, role, false⟩) user = Insert.insert role (roleSet d user) := by
  have hmem : ∀ r : UserRole, r ∈ d.put .userRole ⟨m, user, role, false⟩ .userRole ↔
      (r ∈ d .userRole ∧ r.id ≠ m) ∨ r = ⟨m, user, role, false⟩ := by
    intro r
    rw [Store.put_self]
    exact mem_putRow (S := accounts) (t := .userRole)
  ext x
  rw [Set.mem_insert_iff]
  constructor
  · rintro ⟨r, hr, hrow⟩
    rcases (hmem r).mp hr with ⟨hold, -⟩ | rfl
    · exact .inr ⟨r, hold, hrow⟩
    · exact .inl hrow.2.1.symm
  · rintro (rfl | ⟨r, hr, hrow⟩)
    · exact ⟨_, (hmem _).mpr (.inr rfl), rfl, rfl, rfl⟩
    · exact ⟨r, (hmem r).mpr (.inl ⟨hr, (hm r hr).ne⟩), hrow⟩

theorem roleSet_delete {roleIds : List ℕ} (hd : ∀ t, ((d t).map rowId).Nodup)
    (hd' : ∀ t, ((d' t).map rowId).Nodup)
    (h : Mapped (S := accounts) .userRole
      (fun r : UserRole => r.userId = user && r.roleId ∈ roleIds && !r.deleted) UserRole.delete [] d d') :
    roleSet d' user = roleSet d user \ {role | role ∈ roleIds} := by
  ext x
  constructor
  · rintro ⟨r, hr, hrow⟩
    obtain ⟨s, hs, rfl⟩ := h.of_mem hd' hr
    split at hrow
    · exact absurd hrow.2.2 (by simp [UserRole.delete])
    · rename_i hp
      refine ⟨⟨s, hs, hrow⟩, fun hx => hp ?_⟩
      obtain ⟨hu, hx', hdel⟩ := hrow
      subst hx'
      simpa [hu, hdel] using hx
  · rintro ⟨⟨r, hr, hu, hx, hdel⟩, hnot⟩
    have hmem := h.mem hd hr
    have hp : (r.userId = user && r.roleId ∈ roleIds && !r.deleted) = false := by
      subst hx
      simpa [hu, hdel] using hnot
    rw [hp] at hmem
    exact ⟨r, hmem, hu, hx, hdel⟩

theorem names_nodup (hd : d.Wf) (p : Role → Bool) : (((d .role).filter p).map Role.name).Nodup := by
  have hnd : ((d .role).filter p).Nodup := (hd.ids Table.role).of_map.filter p
  apply hnd.map_on
  intro r hr s hs hname
  exact hd.eq_of_key (t := .role) (List.mem_filter.mp hr).1 (List.mem_filter.mp hs).1
    (k := .name r.name) List.mem_cons_self (hname ▸ List.mem_cons_self)

/-- The roles of these names, in their order. -/
structure Named (d : Db) (names : List String) (rs : List Role) : Prop where
  map_name : rs.map Role.name = names
  nodup : names.Nodup
  perm : rs.Perm ((d .role).filter fun r : Role => r.name ∈ names)

/-- As many roles as names: every name names a role, and none stands twice. -/
theorem exists_named (hd : d.Wf) {names : List String}
    (hlen : ((d .role).filter fun r : Role => r.name ∈ names).length = names.length) :
    ∃ rs, Named d names rs := by
  have hnd := names_nodup hd fun r => r.name ∈ names
  have hsub : ((d .role).filter fun r : Role => r.name ∈ names).map Role.name ⊆ names := by
    intro name hname
    obtain ⟨r, hr, rfl⟩ := List.mem_map.mp hname
    exact of_decide_eq_true (List.mem_filter.mp hr).2
  have hperm := (hnd.subperm hsub).perm_of_length_le (by simp [hlen])
  have hcomp := congrFun (congrFun (List.eq_map_comp_perm Role.name) names)
    ((d .role).filter fun r : Role => r.name ∈ names)
  obtain ⟨rs, hrs, hp⟩ := (congrArg id hcomp).mpr hperm.symm
  exact ⟨rs, hrs.symm, hperm.nodup_iff.mp hnd, hp⟩

end Rows

/-! ## Statements of the handler -/

/-- What the transaction has made of the roles of the user, and of no other table. -/
structure Gives (d₀ : Db) (user : ℕ) (V : Set ℕ) (l : Txn accounts) : Prop where
  roles : roleSet (l.view d₀) user = V
  rest : ∀ t, t ≠ Table.userRole → l.view d₀ t = d₀ t

section Statements
variable {n : ℕ} {G : Guard accounts authHost n} {i : Fin n} {sh : Shared accounts authHost} {x : Unit}
variable {l : Txn accounts} {d₀ : Db} {user : ℕ} {V : Set ℕ}

theorem Gives.start (hl : l.writes = []) : Gives d₀ user (roleSet d₀ user) l := by
  have hview : l.view d₀ = d₀ := Txn.view_of_no_writes hl _
  refine ⟨?_, fun t _ => ?_⟩
  · rw [hview]
  · rw [hview]

theorem Gives.insert {m role : ℕ} (h : Gives d₀ user V l)
    (hm : ∀ r ∈ l.view d₀ .userRole, (r : UserRole).id < m) :
    Gives d₀ user (Insert.insert role V)
      (l.write (S := accounts) (t := .userRole) [] ⟨m, user, role, false⟩) := by
  refine ⟨?_, fun t ht => ?_⟩
  · exact (roleSet_put hm).trans (by rw [h.roles])
  · exact (Store.put_of_ne (l.view d₀) _ ht).trans (h.rest t ht)

theorem addUserRoles_safe {roles rs : List Role}
    (hfind : ∀ r ∈ rs, roles.find? (fun s => s.name = r.name) = some r) (hdb : sh.db = d₀)
    (h : Gives d₀ user V l) :
    Safe (alone i) G i
      (Pending d₀ fun _ l' => Gives d₀ user (insertions (roleSet d₀ user) V (rs.map Role.id)) l')
      (addUserRoles user roles (rs.map Role.name)) sh x l := by
  induction rs generalizing V sh x l with
  | nil => exact ⟨hdb, h⟩
  | cons r rs ih =>
    have hrest := fun s hs => hfind s (List.mem_cons_of_mem _ hs)
    simp only [List.map_cons]
    rw [addUserRoles, hfind r List.mem_cons_self]
    apply Safe.bind
    apply Safe.attempt
    apply Safe.insertRow_integrity
    · intro w y hs m hm hfree
      have hw : w.db = d₀ := hs.db_alone.trans hdb
      rw [hw] at hm hfree
      have hnot : r.id ∉ V := h.roles ▸ free_iff.mp hfree
      rw [insertions_free hnot]
      exact ih hrest hw (h.insert hm)
    · intro w y hs m hfree l'
      have hw : w.db = d₀ := hs.db_alone.trans hdb
      rw [hw] at hfree
      have hin : r.id ∈ V := h.roles ▸ not_not.mp fun hnot => hfree (free_iff.mpr hnot)
      rw [insertions_taken hin]
      apply Safe.bind
      apply Safe.rollback
      intro w' y' hs' c
      have hw' : w'.db = d₀ := hs'.db_alone.trans hw
      cases c with
      | error e => exact hw'
      | ok _ => exact ih hrest hw' (.start rfl)
    · intro w y hs e l' hne
      have hw : w.db = d₀ := hs.db_alone.trans hdb
      cases e with
      | integrity => exact absurd rfl hne
      | _ => exact hw

theorem deleteUserRoles_safe {roleIds : List ℕ} (hwf : d₀.Wf) (hdb : sh.db = d₀) (hl : l.writes = []) :
    Safe (alone i) G i
      (Pending d₀ fun _ l' => Gives d₀ user (roleSet d₀ user \ {role | role ∈ roleIds}) l')
      (deleteUserRoles user roleIds) sh x l := by
  apply Safe.bind_pending (Safe.pending_updateWhere hdb)
  · intro _ sh x l' hdb hm
    have hview : l.view d₀ = d₀ := Txn.view_of_no_writes hl _
    rw [hview] at hm
    exact ⟨hdb, roleSet_delete hwf.ids (applyWrites_ids_nodup hwf.ids _) hm, hm.rest⟩
  · exact fun _ _ _ _ hdb => hdb

theorem getRoleIdsByNames_safe {names : List String} (hwf : d₀.Wf) (hdb : sh.db = d₀) (hl : l.writes = []) :
    Safe (alone i) G i
      (Pending d₀ fun roles l' => l'.writes = [] ∧
        ∃ rs, Named d₀ names rs ∧ roles = (d₀ .role).filter fun r : Role => r.name ∈ names)
      (getRoleIdsByNames names) sh x l := by
  apply Safe.bind_pending (Safe.pending_select hdb)
  · rintro roles sh x l' hdb ⟨hroles, rfl⟩
    rw [Txn.view_of_no_writes hl] at hroles
    split
    · exact hdb
    · rename_i hvalid
      have hlen : roles.length = names.length := by
        by_contra hne
        simp [hne] at hvalid
      rw [hroles] at hlen
      obtain ⟨rs, hrs⟩ := exists_named hwf hlen
      exact ⟨hdb, hl, rs, hrs, hroles⟩
  · exact fun _ _ _ _ hdb => hdb

theorem Named.find {names : List String} {rs : List Role} (h : Named d₀ names rs) (hwf : d₀.Wf) {r : Role}
    (hr : r ∈ rs) :
    ((d₀ .role).filter fun r : Role => r.name ∈ names).find? (fun s => s.name = r.name) = some r := by
  have hmem := h.perm.mem_iff.mp hr
  cases hfind : ((d₀ .role).filter fun r : Role => r.name ∈ names).find? (fun s => s.name = r.name) with
  | none =>
    have hno := List.find?_eq_none.mp hfind r hmem
    simp at hno
  | some s =>
    have hname : s.name = r.name := by simpa using List.find?_some hfind
    have hs := List.mem_of_find?_eq_some hfind
    rw [hwf.eq_of_key (t := .role) (List.mem_filter.mp hs).1 (List.mem_filter.mp hmem).1
      (k := .name r.name) (hname ▸ List.mem_cons_self) List.mem_cons_self]

/-- The roles of the user before and after, and the new role version. -/
structure RolesChanged (d d' : Db) (user : ℕ) (roleIds : List ℕ) (names : List String) : Prop where
  roles : ∃ rs, Named d names rs ∧ roleSet d' user =
    insertions (roleSet d user) (roleSet d user \ {role | role ∈ roleIds}) (rs.map Role.id)
  users : ∀ u ∈ d .users, (u : Users).id = user → u.promote ∈ d' .users

theorem changeUserRoles_safe {roleIds : List ℕ} {names : List String} (hwf : d₀.Wf) (hdb : sh.db = d₀)
    (hl : l.writes = []) :
    Safe (alone i) G i (Pending d₀ fun _ l' => RolesChanged d₀ (l'.view d₀) user roleIds names)
      (changeUserRoles user roleIds names) sh x l := by
  have hpromote : ∀ {sh : Shared accounts authHost} {x : Unit} {l : Txn accounts} {rs : List Role},
      sh.db = d₀ → Named d₀ names rs →
      Gives d₀ user (insertions (roleSet d₀ user) (roleSet d₀ user \ {role | role ∈ roleIds})
        (rs.map Role.id)) l →
      Safe (alone i) G i (Pending d₀ fun _ l' => RolesChanged d₀ (l'.view d₀) user roleIds names)
        (updateRoleVersion user) sh x l := by
    intro sh x l rs hdb hrs hg
    apply Safe.bind
    apply Safe.attempt
    apply (Safe.pending_updateWhere hdb).mono
    intro r sh x l' hr
    cases r with
    | error e =>
      have hdb : sh.db = d₀ := hr
      cases e with
      | integrity =>
        apply Safe.bind
        apply Safe.rollback
        intro w y hs c
        have hw : w.db = d₀ := hs.db_alone.trans hdb
        cases c <;> exact hw
      | _ => exact hdb
    | ok rows =>
      obtain ⟨hdb, hm⟩ := hr
      have hchanged : RolesChanged d₀ (l'.view d₀) user roleIds names := by
        refine ⟨⟨rs, hrs, ?_⟩, fun u hu hid => ?_⟩
        · rw [roleSet_congr (hm.rest Table.userRole (by decide)), hg.roles]
        · have hview : u ∈ l.view d₀ .users := by
            rw [hg.rest Table.users (by decide)]
            exact hu
          have hmem := hm.mem (applyWrites_ids_nodup hwf.ids _) hview
          simpa [hid] using hmem
      rcases rows with _ | ⟨_, _ | ⟨_, _⟩⟩
      · exact ⟨hdb, hchanged⟩
      · exact ⟨hdb, hchanged⟩
      · exact hdb
  rw [changeUserRoles]
  apply Safe.bind_pending (getRoleIdsByNames_safe hwf hdb hl)
  · intro roles sh x l hdb hroles
    obtain ⟨hl, rs, hrs, rfl⟩ := hroles
    have hadd : ∀ {sh : Shared accounts authHost} {x : Unit} {l : Txn accounts}, sh.db = d₀ →
        Gives d₀ user (roleSet d₀ user \ {role | role ∈ roleIds}) l →
        Safe (alone i) G i (Pending d₀ fun _ l' => Gives d₀ user (insertions (roleSet d₀ user)
          (roleSet d₀ user \ {role | role ∈ roleIds}) (rs.map Role.id)) l')
          (addUserRoles user ((d₀ .role).filter fun r : Role => r.name ∈ names) names) sh x l := by
      intro sh x l hdb hg
      have hsafe := addUserRoles_safe (G := G) (i := i) (x := x) (fun r hr => hrs.find hwf hr) hdb hg
      rw [hrs.map_name] at hsafe
      exact hsafe
    dsimp only
    split
    · apply Safe.bind_pending (deleteUserRoles_safe hwf hdb hl)
      · intro _ sh x l hdb hg
        apply Safe.bind_pending (hadd hdb hg)
        · exact fun _ _ _ _ hdb hg => hpromote hdb hrs hg
        · exact fun _ _ _ _ hdb => hdb
      · exact fun _ _ _ _ hdb => hdb
    · rename_i hempty
      have hnil : roleIds = [] := by simpa using hempty
      have hg : Gives d₀ user (roleSet d₀ user \ {role | role ∈ roleIds}) l := by
        have hsame : roleSet d₀ user \ {role | role ∈ roleIds} = roleSet d₀ user := by simp [hnil]
        rw [hsame]
        exact .start hl
      apply Safe.bind_pending (hadd hdb hg)
      · exact fun _ _ _ _ hdb hg => hpromote hdb hrs hg
      · exact fun _ _ _ _ hdb => hdb
  · exact fun _ _ _ _ hdb => hdb

end Statements

/-! ## When the change is exact -/

section Exact
variable {d d' : Db} {user : ℕ} {roleIds : List ℕ} {names : List String} {rs : List Role}

theorem Named.namedRoles (h : Named d names rs) : namedRoles d names = {role | role ∈ rs.map Role.id} := by
  ext x
  have hmem : ∀ r, r ∈ rs ↔ r ∈ d .role ∧ r.name ∈ names := by
    intro r
    rw [h.perm.mem_iff, List.mem_filter, decide_eq_true_iff]
  rw [Set.mem_ofPred_eq, List.mem_map]
  constructor
  · rintro ⟨r, hr, hid, hname⟩
    exact ⟨r, (hmem r).mpr ⟨hr, hname⟩, hid⟩
  · rintro ⟨r, hr, hid⟩
    exact ⟨r, ((hmem r).mp hr).1, hid, ((hmem r).mp hr).2⟩

theorem Named.ids_nodup (h : Named d names rs) (hd : d.Wf) : (rs.map Role.id).Nodup := by
  rw [(h.perm.map Role.id).nodup_iff]
  exact (hd.ids Table.role).sublist (List.filter_sublist.map _)

/-- The order of the names is the order of the roles. -/
theorem Named.pairwise (h : Named d names rs) (hd : d.Wf) :
    ((rs.map Role.id).Pairwise fun a b => b ∈ roleSet d user → a ∈ roleSet d user) ↔
      names.Pairwise fun a b => HasNamed d user b → HasNamed d user a := by
  have hhas : ∀ r ∈ rs, r.id ∈ roleSet d user ↔ HasNamed d user r.name := by
    intro r hr
    have hrd := (List.mem_filter.mp (h.perm.mem_iff.mp hr)).1
    constructor
    · intro hrole
      exact ⟨r, hrd, rfl, hrole⟩
    · rintro ⟨s, hs, hname, hrole⟩
      have hsame : s = r := hd.eq_of_key (t := .role) hs hrd (k := .name r.name)
        (hname ▸ List.mem_cons_self) List.mem_cons_self
      exact hsame ▸ hrole
  rw [← h.map_name, List.pairwise_map, List.pairwise_map]
  apply List.Pairwise.iff_of_mem
  intro a b ha hb
  rw [hhas a ha, hhas b hb]

theorem RolesChanged.exact_iff (h : RolesChanged d d' user roleIds names) (hd : d.Wf) :
    roleSet d' user = namedRoles d names ↔ roleSet d user ⊆ {role | role ∈ roleIds} ∨
      (roleSet d user ⊆ namedRoles d names ∧
        names.Pairwise fun a b => HasNamed d user b → HasNamed d user a) := by
  obtain ⟨rs, hrs, hroles⟩ := h.roles
  rw [hroles, hrs.namedRoles, insertions_exact (hrs.ids_nodup hd), hrs.pairwise hd]

end Exact

/-! ## The request -/

/-- The action reads, or gives back what was never committed. -/
abbrev Reading : AuthAction → Prop := fun a => a.Uncommitted ∧ a.Confined fun _ => False

theorem reading_reads : Reads Reading :=
  ⟨fun _ => ⟨trivial, trivial⟩, fun _ _ => ⟨trivial, trivial⟩, ⟨trivial, trivial⟩, ⟨trivial, trivial⟩⟩

/-- The reply of the request, and the store at its end. -/
def Replied (d₀ : Db) (C : Db → Prop) : Except (Exn AppErr) ApiReply → Db → Prop
  | .ok (.handled (.ok _)), d => C d
  | _, d => d = d₀

section Request
variable {n : ℕ} {G : Guard accounts authHost n} {i : Fin n} {sh : Shared accounts authHost} {x : Unit}
variable {l : Txn accounts} {d₀ : Db} {lib : AdminLib} {u : Users} {userPublicId : String}

theorem reading_safe {α : Type} {p : Py α} (hp : p.Acts Reading) (hdb : sh.db = d₀) (hl : l.writes = []) :
    Safe (alone i) G i (Pending d₀ fun _ l' => l'.writes = []) p sh x l := by
  have hwrites : ∀ v ∈ l.writes, False := by
    rw [hl]
    exact nofun
  apply (Safe.pending_acts hp hdb hwrites).mono
  intro r sh x l' hr
  cases r with
  | error e => exact hr
  | ok a => exact ⟨hr.1, List.eq_nil_iff_forall_not_mem.mpr hr.2⟩

theorem useridByPublicId_safe (hwf : d₀.Wf) (hu : u ∈ d₀ .users)
    (hpid : lib.uuidOf userPublicId = some u.publicId) (hdb : sh.db = d₀) (hl : l.writes = []) :
    Safe (alone i) G i (Pending d₀ fun o l' => o = some u.id ∧ l'.writes = [])
      (useridByPublicId lib userPublicId) sh x l := by
  rw [useridByPublicId, hpid]
  apply Safe.bind_pending (Safe.pending_select hdb)
  · rintro rows sh x l' hdb ⟨hrows, rfl⟩
    rw [Txn.view_of_no_writes hl] at hrows
    have hone : (d₀ .users).filter (fun v : Users => v.publicId = u.publicId) = [u] := by
      apply hwf.filter_key (t := .users) hu (k := .publicId u.publicId)
      · exact decide_eq_true rfl
      · intro v hv
        rw [← of_decide_eq_true hv]
        exact List.mem_cons_self
    rw [hone] at hrows
    subst hrows
    exact ⟨hdb, rfl, hl⟩
  · exact fun _ _ _ _ hdb => hdb

theorem changeUserRole_safe {payload : PromoteIn} {state : RequestState} (hwf : d₀.Wf) (hu : u ∈ d₀ .users)
    (hpid : lib.uuidOf userPublicId = some u.publicId) (hdb : sh.db = d₀) (hl : l.writes = []) :
    Safe (alone i) G i (fun r sh' _ _ => match r with
        | .ok _ => RolesChanged d₀ sh'.db u.id state.userRoles payload.roleNames
        | .error _ => sh'.db = d₀)
      (changeUserRole lib userPublicId payload state) sh x l := by
  apply Safe.bind_pending (useridByPublicId_safe hwf hu hpid hdb hl)
  · rintro o sh x l hdb ⟨ho, hl⟩
    split
    · exact hdb
    · exact hdb
    · rename_i k _
      have hk : k = u.id := Option.some.inj ho
      subst hk
      have hnames : (getRolenamesByIds state.userRoles).Acts Reading := by
        apply (select_acts reading_reads (t := .role) _).bind
        intro rows
        trivial
      apply Safe.bind_pending (reading_safe hnames hdb hl)
      · intro roleNames sh x l hdb hl
        split
        · exact hdb
        apply Safe.bind_pending (changeUserRoles_safe hwf hdb hl)
        · intro version sh x l hdb hchanged
          apply Safe.bind
          apply Safe.commit
          · intro w y hs _
            have hw : w.db = d₀ := hs.db_alone.trans hdb
            refine ⟨trivial, fun hi => absurd rfl hi, ?_⟩
            rw [hw]
            exact hchanged
          · intro _ w y hs e l' _
            exact hs.db_alone.trans hdb
        · exact fun _ _ _ _ hdb => hdb
      · exact fun _ _ _ _ hdb => hdb
  · exact fun _ _ _ _ hdb => hdb

theorem requirePermissions_acts (perm : String) (roles : List ℕ) :
    (requirePermissions perm roles).Acts Reading := by
  apply Prog.Acts.bind (.call (reading_reads.read _))
  intro rows
  apply (oneOrNone_acts rows).bind
  intro o
  split <;> trivial

/-- The guard and the handler, in the session of the request. -/
theorem serve_safe {payload : PromoteIn} {state : Option RequestState} {C : Db → Prop} (hwf : d₀.Wf)
    (hu : u ∈ d₀ .users) (hpid : lib.uuidOf userPublicId = some u.publicId) (hdb : sh.db = d₀)
    (hl : l.writes = [])
    (hC : ∀ st, state = some st → ∀ d, RolesChanged d₀ d u.id st.userRoles payload.roleNames → C d) :
    Safe (alone i) G i (fun r sh' _ _ => Replied d₀ C r sh'.db)
      ((Endpoint.changeUserRole userPublicId payload).serve lib state) sh x l := by
  have hclose : ∀ {r sh x l}, Replied d₀ C r sh.db → ∀ w y, Seen (alone i) i l sh x w y →
      Safe (alone i) G i (fun r sh' _ _ => Replied d₀ C r sh'.db) (Prog.ofExcept r) w.toShared y l.reset := by
    intro r sh x l hr w y hs
    rw [safe_ofExcept]
    rw [hs.db_alone]
    exact hr
  apply Safe.bind
  apply Safe.session
  apply Safe.mono (Q := fun r sh _ _ => Replied d₀ C r sh.db) fun _ _ _ _ hr => hclose hr
  cases state with
  | none => exact hdb
  | some st =>
    apply Safe.bind_pending (reading_safe (requirePermissions_acts _ _) hdb hl)
    · intro _ sh x l hdb hl
      apply Safe.bind
      apply Safe.attempt
      apply (changeUserRole_safe hwf hu hpid hdb hl).mono
      intro r sh x l hr
      cases r with
      | error e => exact hr
      | ok message => exact hC st rfl sh.db hr
    · exact fun _ _ _ _ hdb => hdb

theorem withSession_safe {α : Type} {p : Py α} (hp : p.Acts Reading) (hdb : sh.db = d₀)
    (hl : l.writes = []) :
    Safe (alone i) G i (Pending d₀ fun _ l' => l'.writes = []) (withSession p) sh x l :=
  reading_safe (withSession_acts hp ⟨trivial, trivial⟩) hdb hl

theorem authenticate_safe {token : Option AccessToken} (hdb : sh.db = d₀) (hl : l.writes = []) :
    Safe (alone i) G i (Pending d₀ fun o l' => (∀ t, o = some t → token = some t) ∧ l'.writes = [])
      (authenticate token) sh x l := by
  cases token with
  | none => exact ⟨hdb, nofun, hl⟩
  | some t =>
    apply Safe.bind
    apply Safe.host
    intro w y hs c r s hstep
    have hw : w.db = d₀ := hs.db_alone.trans hdb
    cases c with
    | text t => cases hstep
    | proceed =>
      cases hstep
      refine ⟨trivial, fun _ => rfl, hw, ?_, hl⟩
      intro t' ht'
      split at ht'
      · exact ht'
      · cases ht'

theorem dispatch_safe {payload : PromoteIn} {token : Option AccessToken} {C : Db → Prop} (hwf : d₀.Wf)
    (hu : u ∈ d₀ .users) (hpid : lib.uuidOf userPublicId = some u.publicId) (hdb : sh.db = d₀)
    (hl : l.writes = [])
    (hC : ∀ t, token = some t → ∀ d, RolesChanged d₀ d u.id t.roles payload.roleNames → C d) :
    Safe (alone i) G i (fun r sh' _ _ => Replied d₀ C r sh'.db)
      (AdminRequest.dispatch lib ⟨.changeUserRole userPublicId payload, token⟩) sh x l := by
  have hauthorize : ∀ {sh x l} (state : Option RequestState), sh.db = d₀ → l.writes = [] →
      (∀ st, state = some st → ∀ d, RolesChanged d₀ d u.id st.userRoles payload.roleNames → C d) →
      Safe (alone i) G i (fun r sh' _ _ => Replied d₀ C r sh'.db)
        (authorizationDispatch (Endpoint.changeUserRole userPublicId payload).path state
          ((Endpoint.changeUserRole userPublicId payload).serve lib state)) sh x l := by
    intro sh x l state hdb hl hC
    unfold authorizationDispatch
    split
    · exact serve_safe hwf hu hpid hdb hl hC
    cases state with
    | none => exact hdb
    | some st =>
      have hversion : (checkUserRolesVersion st.userIdentifier st.roleVersion).Acts Reading := by
        apply (select_acts reading_reads (t := .users) _).bind
        intro rows
        trivial
      apply Safe.bind_pending (withSession_safe hversion hdb hl)
      · intro o sh x l hdb hl
        cases o with
        | none => exact hdb
        | some _ => exact serve_safe hwf hu hpid hdb hl hC
      · exact fun _ _ _ _ hdb => hdb
  rw [AdminRequest.dispatch, authenticationDispatch]
  split
  · exact hauthorize none hdb hl fun _ h => by cases h
  apply Safe.bind_pending (authenticate_safe hdb hl)
  · intro o sh x l hdb h
    obtain ⟨ho, hl⟩ := h
    cases o with
    | none => exact hdb
    | some t =>
    have hidentify : (identifyUserByPid t.sub).Acts Reading := by
      apply (select_acts reading_reads (t := .users) _).bind
      intro rows
      exact oneOrNone_acts _
    apply Safe.bind_pending (withSession_safe hidentify hdb hl)
    · intro o sh x l hdb hl
      dsimp only
      split
      · exact hdb
      · exact hdb
      · apply hauthorize _ hdb hl
        intro st hst
        cases hst
        exact hC t (ho t rfl)
    · exact fun _ _ _ _ hdb => hdb
  · exact fun _ _ _ _ hdb => hdb

end Request

/-! ## Runs -/

section Runs
variable {n : ℕ} {lib : AdminLib} {reqs : Fin n → ApiRequest} {w : World accounts authHost} {i : Fin n}
variable {s : Sys accounts authHost n (Except (Exn AppErr) ApiReply)}

theorem request_replied (hw : w.Ok)
    (h : Sys.Run (Guard.only i) History.none (apiRequests lib reqs w) () s ()) {userPublicId : String}
    {payload : PromoteIn} {token : Option AccessToken}
    (hreq : reqs i = .admin ⟨.changeUserRole userPublicId payload, token⟩) {reply}
    (hout : s.outcome i = some reply) {u : Users} (hu : u ∈ w.db .users)
    (hpid : lib.uuidOf userPublicId = some u.publicId) :
    Replied w.db (fun d => ∃ t, token = some t ∧ RolesChanged w.db d u.id t.roles payload.roleNames)
      reply s.world.db := by
  have hsafe : Safe (alone i) (Guard.only i) i
      (fun r sh _ _ => ∀ a, r = .ok a → Replied w.db
        (fun d => ∃ t, token = some t ∧ RolesChanged w.db d u.id t.roles payload.roleNames) a sh.db)
      ((reqs i).program lib) w.toShared () {} := by
    rw [hreq, ApiRequest.program]
    apply Safe.attempt
    apply (dispatch_safe (C := fun d => ∃ t, token = some t ∧
      RolesChanged w.db d u.id t.roles payload.roleNames) hw.wf hu hpid rfl rfl
      fun t ht d hd => ⟨t, ht, hd⟩).mono
    intro r sh x l hr a ha
    cases ha
    exact hr
  obtain ⟨host, l, hq⟩ := Sys.Run.alone hw h hsafe hout
  exact hq reply rfl

/-- A successful change leaves exactly the requested roles when the token covers what the user had, or when
the user is to keep every role and these are named first. Otherwise nothing changes. -/
theorem role_change_exact (hw : w.Ok)
    (h : Sys.Run (Guard.only i) History.none (apiRequests lib reqs w) () s ()) {userPublicId : String}
    {payload : PromoteIn} {token : Option AccessToken}
    (hreq : reqs i = .admin ⟨.changeUserRole userPublicId payload, token⟩) {reply}
    (hout : s.outcome i = some reply) {u : Users} (hu : u ∈ w.db .users)
    (hpid : lib.uuidOf userPublicId = some u.publicId) :
    (∀ message, reply = .ok (.handled (.ok message)) → ∃ t, token = some t ∧
      ((roleSet s.world.db u.id = namedRoles w.db payload.roleNames ∧
          ∃ v ∈ s.world.db .users, (v : Users).id = u.id ∧ v.roleVersion = u.roleVersion + 1) ↔
        roleSet w.db u.id ⊆ {role | role ∈ t.roles} ∨
          (roleSet w.db u.id ⊆ namedRoles w.db payload.roleNames ∧
            payload.roleNames.Pairwise fun a b => HasNamed w.db u.id b → HasNamed w.db u.id a))) ∧
    ((∀ message, reply ≠ .ok (.handled (.ok message))) →
      roleSet s.world.db u.id = roleSet w.db u.id ∧ s.world.db .users = w.db .users) := by
  have hr := request_replied hw h hreq hout hu hpid
  constructor
  · rintro message rfl
    obtain ⟨t, ht, hchanged⟩ := hr
    have hversion : ∃ v ∈ s.world.db .users, (v : Users).id = u.id ∧ v.roleVersion = u.roleVersion + 1 :=
      ⟨_, hchanged.users u hu rfl, rfl, rfl⟩
    rw [and_iff_left hversion]
    exact ⟨t, ht, hchanged.exact_iff hw.wf⟩
  · intro hfail
    have hsame : s.world.db = w.db := by
      rw [Replied.eq_def] at hr
      split at hr
      · exact absurd rfl (hfail _)
      · exact hr
    rw [hsame]
    exact ⟨rfl, rfl⟩

end Runs

/-! ## A role that stays -/

/-- An administrator, and a user with one role. -/
def roleWorld (role : Fin 4) : World accounts authHost where
  db
    | .users => [⟨1, 11, none, 0, none⟩, ⟨2, 22, none, 0, none⟩]
    | .role => [⟨1, "admin"⟩, ⟨2, "buyer"⟩, ⟨3, "seller"⟩]
    | .permission => [⟨1, "user:manage"⟩]
    | .rolePermission => [⟨1, 1, 1⟩]
    | .userRole => [⟨1, 1, role, false⟩, ⟨2, 2, 1, false⟩]
    | _ => []
  host := ⟨0, [adminToken 22]⟩
  seq _ := 9

theorem roleWorld_ok (role : Fin 4) : (roleWorld role).Ok := by
  refine ⟨Store.wf_of_pairwise fun t => ?_, fun t => ?_⟩ <;> cases t <;> revert role <;> decide

/-- The administrator makes the user a buyer. -/
def toBuyer : Fin 1 → ApiRequest
  | 0 => .admin ⟨.changeUserRole "11" ⟨["buyer"]⟩, some (adminToken 22)⟩

def toBuyerSteps (k : ℕ) : List (Label authHost 1) :=
  .proc 0 (.host .proceed) :: List.replicate k (.proc 0 .go)

theorem toBuyer_run (role : Fin 4) (k : ℕ) (f : Db → Bool)
    (hexec : ((apiRequests openAdminLib toBuyer (roleWorld role)).exec (Guard.only 0) (toBuyerSteps k)).map
      (fun s => (succeeded (s.outcome 0), f s.world.db)) = some (true, true)) :
    ∃ s message, Sys.Run (Guard.only 0) History.none (apiRequests openAdminLib toBuyer (roleWorld role)) () s () ∧
      s.outcome 0 = some (.ok (.handled (.ok message))) ∧ f s.world.db = true := by
  obtain ⟨s, hs, hboth⟩ := Option.map_eq_some_iff.mp hexec
  obtain ⟨hsucceeded, hf⟩ := Prod.mk.inj hboth
  obtain ⟨⟨⟩, hrun⟩ := Sys.run_of_exec History.none () hs
  obtain ⟨message, hout⟩ := succeeded_eq hsucceeded
  exact ⟨s, message, hrun, hout, hf⟩

/-- The administrator's token names the only role of the user. -/
theorem role_change_exact_admin : ∃ s message,
    Sys.Run (Guard.only 0) History.none (apiRequests openAdminLib toBuyer (roleWorld 1)) () s () ∧
      s.outcome 0 = some (.ok (.handled (.ok message))) ∧
      roleSet s.world.db 1 = namedRoles (roleWorld 1).db ["buyer"] ∧
      ∃ v ∈ s.world.db .users, (v : Users).id = 1 ∧ v.roleVersion = 1 := by
  obtain ⟨s, message, hrun, hout, -⟩ := toBuyer_run 1 13 (fun _ => true) (by decide +kernel)
  obtain ⟨hexact, -⟩ := role_change_exact (roleWorld_ok 1) hrun rfl hout (u := ⟨1, 11, none, 0, none⟩)
    List.mem_cons_self rfl
  obtain ⟨t, ht, hiff⟩ := hexact message rfl
  cases ht
  refine ⟨s, message, hrun, hout, hiff.mpr (.inl ?_)⟩
  rintro role ⟨r, hr, hu, rfl, -⟩
  rcases List.mem_cons.mp hr with rfl | hr
  · exact List.mem_cons_self
  · have hr' := List.mem_singleton.mp hr
    subst hr'
    cases hu

/-- The user was a seller, which the token does not name, and stays one. -/
theorem role_change_keeps_seller : ¬∀ s message,
    Sys.Run (Guard.only 0) History.none (apiRequests openAdminLib toBuyer (roleWorld 3)) () s () →
    s.outcome 0 = some (.ok (.handled (.ok message))) →
    roleSet s.world.db 1 = namedRoles (roleWorld 3).db ["buyer"] := by
  intro hclaim
  obtain ⟨s, message, hrun, hout, hseller⟩ := toBuyer_run 3 12
    (fun d => (d .userRole).any fun r : UserRole => r.userId = 1 && r.roleId = 3 && !r.deleted)
    (by decide +kernel)
  obtain ⟨r, hr, hrow⟩ := List.any_eq_true.mp hseller
  simp only [Bool.and_eq_true, decide_eq_true_eq, Bool.not_eq_true'] at hrow
  have hstays : 3 ∈ roleSet s.world.db 1 := ⟨r, hr, hrow.1.1, hrow.1.2, hrow.2⟩
  rw [hclaim s message hrun hout] at hstays
  obtain ⟨r, hr, hid, hname⟩ := hstays
  have hbuyer := List.mem_singleton.mp hname
  have hrows : ∀ r : Role, r ∈ (roleWorld 3).db .role → r.id = 3 → r.name ≠ "buyer" := by
    decide
  exact hrows r hr hid hbuyer

end Phyllonix.Auth
