import Phyllonix.AbstractMachines
import Phyllonix.PythonValues
import Mathlib.Data.Set.Basic

/-!
# The catalogue as an abstract machine

Products are listed under public ids, and no two have one name. A listing is published once,
with its owner and its categories, and revised by its owner. A revision replaces the fields
it names and leaves the others.
-/

namespace Phyllonix.Products
open Abstract

structure Listing where
  name : String
  description : Option String
  basePrice : ℤ
  stockQty : ℤ
  sku : Option String
  specs : Option Json
  owner : Option ℕ
  categories : Set String
  createdAt : ℕ
  updatedAt : ℕ
  deletedAt : Option ℕ

/-- The fields that a revision names. -/
structure Changes where
  name : Option String
  description : Option (Option String)
  basePrice : Option ℤ
  stockQty : Option ℤ
  sku : Option (Option String)
  specs : Option (Option Json)

def Changes.apply (ch : Changes) (t : ℕ) (e : Listing) : Listing :=
  { e with
    name := ch.name.getD e.name
    description := ch.description.getD e.description
    basePrice := ch.basePrice.getD e.basePrice
    stockQty := ch.stockQty.getD e.stockQty
    sku := ch.sku.getD e.sku
    specs := ch.specs.getD e.specs
    updatedAt := t }

abbrev Catalogue := UUID → Option Listing

def NameTaken (c : Catalogue) (name : String) : Prop := ∃ u e, c u = some e ∧ e.name = name

inductive Operation where
  | publish (u : UUID) (e : Listing)
  | revise (u : UUID) (user : ℕ) (ch : Changes) (t : ℕ)

instance : Nonempty Operation := ⟨.revise 0 0 ⟨none, none, none, none, none, none⟩ 0⟩

inductive Step : Catalogue → Operation → Catalogue → Prop
  | publish {c : Catalogue} {u : UUID} {e : Listing} (fresh : c u = none) (unused : ¬NameTaken c e.name) :
      Step c (.publish u e) (Function.update c u (some e))
  | revise {c : Catalogue} {u : UUID} {user : ℕ} {ch : Changes} {t : ℕ} {e : Listing} (listed : c u = some e)
      (owned : e.owner = some user) (kept : e.deletedAt = none)
      (unused : ∀ u' e', c u' = some e' → e'.name = (ch.apply t e).name → u' = u) :
      Step c (.revise u user ch t) (Function.update c u (some (ch.apply t e)))

def machine : Machine Catalogue Operation := ⟨Step⟩

/-! ## What a listing has become -/

/-- The listing under `u` after one more operation. -/
def after (u : UUID) : Option Listing → Operation → Option Listing
  | none, .publish u' e => if u' = u then some e else none
  | some e, .revise u' _ ch t => if u' = u then some (ch.apply t e) else some e
  | x, _ => x

theorem Step.after {c c' : Catalogue} {o : Operation} (h : Step c o c') (u : UUID) :
    c' u = Products.after u (c u) o := by
  cases h with
  | @publish u' e fresh unused =>
    by_cases hu : u = u'
    · subst hu
      rw [Function.update_self, fresh, Products.after, if_pos rfl]
    · rw [Function.update_of_ne hu]
      cases c u with
      | none => rw [Products.after, if_neg (Ne.symm hu)]
      | some e' => rfl
  | @revise u' user ch t e listed owned kept unused =>
    by_cases hu : u = u'
    · subst hu
      rw [Function.update_self, listed, Products.after, if_pos rfl]
    · rw [Function.update_of_ne hu]
      cases c u with
      | none => rfl
      | some e' => rw [Products.after, if_neg (Ne.symm hu)]

/-- The revisions of `u`, the oldest first. -/
def revisions (u : UUID) (os : List Operation) : List (Changes × ℕ) :=
  os.filterMap fun o => match o with
    | .revise u' _ ch t => if u' = u then some (ch, t) else none
    | .publish _ _ => none

/-- The last value that `f` names. -/
def latest {α : Type*} (f : Changes → Option α) (rs : List (Changes × ℕ)) : Option α :=
  rs.foldl (fun x r => (f r.1).or x) none

def revised (e : Listing) (rs : List (Changes × ℕ)) : Listing := rs.foldl (fun e r => r.1.apply r.2 e) e

theorem revised_concat (e : Listing) (rs : List (Changes × ℕ)) (r : Changes × ℕ) :
    revised e (rs ++ [r]) = r.1.apply r.2 (revised e rs) := by
  rw [revised, List.foldl_append]
  rfl

theorem latest_concat {α : Type*} (f : Changes → Option α) (rs : List (Changes × ℕ)) (r : Changes × ℕ) :
    latest f (rs ++ [r]) = (f r.1).or (latest f rs) := by
  rw [latest, List.foldl_append]
  rfl

/-- A field that no revision touches. -/
theorem revised_fixed {α : Type*} {g : Listing → α} (hg : ∀ ch t e, g (Changes.apply ch t e) = g e) (e : Listing)
    (rs : List (Changes × ℕ)) : g (revised e rs) = g e := by
  induction rs using List.reverseRecOn with
  | nil => rfl
  | append_singleton rs r ih => rw [revised_concat, hg, ih]

/-- A field that revisions may name. -/
structure Field (α : Type) where
  get : Listing → α
  named : Changes → Option α
  apply : ∀ ch t e, get (Changes.apply ch t e) = (named ch).getD (get e)

namespace Field

def name : Field String := ⟨Listing.name, Changes.name, fun _ _ _ => rfl⟩

def description : Field (Option String) := ⟨Listing.description, Changes.description, fun _ _ _ => rfl⟩

def basePrice : Field ℤ := ⟨Listing.basePrice, Changes.basePrice, fun _ _ _ => rfl⟩

def stockQty : Field ℤ := ⟨Listing.stockQty, Changes.stockQty, fun _ _ _ => rfl⟩

def sku : Field (Option String) := ⟨Listing.sku, Changes.sku, fun _ _ _ => rfl⟩

def specs : Field (Option Json) := ⟨Listing.specs, Changes.specs, fun _ _ _ => rfl⟩

end Field

/-- What no revision touches. -/
structure SameListing (e e' : Listing) : Prop where
  owner : e'.owner = e.owner
  categories : e'.categories = e.categories
  createdAt : e'.createdAt = e.createdAt
  deletedAt : e'.deletedAt = e.deletedAt

theorem revised_same (e : Listing) (rs : List (Changes × ℕ)) : SameListing e (revised e rs) where
  owner := revised_fixed (fun _ _ _ => rfl) e rs
  categories := revised_fixed (fun _ _ _ => rfl) e rs
  createdAt := revised_fixed (fun _ _ _ => rfl) e rs
  deletedAt := revised_fixed (fun _ _ _ => rfl) e rs

/-- A field has the value that was named last. -/
theorem revised_field {α : Type} (F : Field α) (e : Listing) (rs : List (Changes × ℕ)) :
    F.get (revised e rs) = (latest F.named rs).getD (F.get e) := by
  induction rs using List.reverseRecOn with
  | nil => rfl
  | append_singleton rs r ih =>
    rw [revised_concat, latest_concat, F.apply, ih]
    cases F.named r.1 <;> rfl

/-- What is named last was named. -/
theorem latest_mem {α : Type*} {f : Changes → Option α} {rs : List (Changes × ℕ)} {v : α}
    (h : latest f rs = some v) : ∃ r ∈ rs, f r.1 = some v := by
  induction rs using List.reverseRecOn with
  | nil => cases h
  | append_singleton rs r ih =>
    rw [latest_concat] at h
    cases hr : f r.1 with
    | some v' =>
      rw [hr] at h
      exact ⟨r, by simp, hr.trans h⟩
    | none =>
      rw [hr] at h
      obtain ⟨r', hmem, hr'⟩ := ih h
      exact ⟨r', List.mem_append_left _ hmem, hr'⟩

theorem revisions_concat (u : UUID) (os : List Operation) (o : Operation) :
    revisions u (os ++ [o]) = revisions u os ++ revisions u [o] := by
  rw [revisions, List.filterMap_append]
  rfl

theorem revisions_revise (u : UUID) (user : ℕ) (ch : Changes) (t : ℕ) :
    revisions u [.revise u user ch t] = [(ch, t)] := by simp [revisions]

theorem revisions_other {u u' : UUID} (h : u' ≠ u) (user : ℕ) (ch : Changes) (t : ℕ) :
    revisions u [.revise u' user ch t] = [] := by simp [revisions, h]

theorem fold_listed (u : UUID) (e : Listing) (os : List Operation) :
    os.foldl (after u) (some e) = some (revised e (revisions u os)) := by
  induction os using List.reverseRecOn with
  | nil => rfl
  | append_singleton os o ih =>
    rw [List.foldl_append, ih, revisions_concat]
    cases o with
    | publish u' e' =>
      have hnone : revisions u [.publish u' e'] = [] := rfl
      rw [hnone, List.append_nil]
      rfl
    | revise u' user ch t =>
      by_cases hu : u' = u
      · subst hu
        rw [revisions_revise, revised_concat, List.foldl_cons, List.foldl_nil, after, if_pos rfl]
      · rw [revisions_other hu, List.append_nil, List.foldl_cons, List.foldl_nil, after, if_neg hu]

theorem fold_unlisted {u : UUID} {e : Listing} {os : List Operation} (h : os.foldl (after u) none = some e) :
    ∃ front e₀ back, os = front ++ .publish u e₀ :: back ∧ e = revised e₀ (revisions u back) := by
  induction os with
  | nil => cases h
  | cons o os ih =>
    rw [List.foldl_cons] at h
    cases o with
    | publish u' e' =>
      by_cases hu : u' = u
      · subst hu
        rw [after, if_pos rfl, fold_listed] at h
        exact ⟨[], e', os, rfl, (Option.some.inj h).symm⟩
      · rw [after, if_neg hu] at h
        obtain ⟨front, e₀, back, rfl, he⟩ := ih h
        exact ⟨.publish u' e' :: front, e₀, back, rfl, he⟩
    | revise u' user ch t =>
      obtain ⟨front, e₀, back, rfl, he⟩ := ih h
      exact ⟨.revise u' user ch t :: front, e₀, back, rfl, he⟩

theorem mem_revisions {u : UUID} {os : List Operation} {ch : Changes} {t : ℕ} (h : (ch, t) ∈ revisions u os) :
    ∃ user, .revise u user ch t ∈ os := by
  obtain ⟨o, ho, hsome⟩ := List.mem_filterMap.mp h
  cases o with
  | publish u' e => cases hsome
  | revise u' user ch' t' =>
    have hif : (if u' = u then some (ch', t') else none) = some (ch, t) := hsome
    by_cases hu : u' = u
    · rw [if_pos hu] at hif
      cases hif
      exact ⟨user, hu ▸ ho⟩
    · rw [if_neg hu] at hif
      cases hif

section Runs
variable {c₀ c c' : Catalogue} {os : List Operation} {u : UUID} {e : Listing}

theorem listing_fold (h : machine.Runs c₀ os c) (u : UUID) : c u = os.foldl (after u) (c₀ u) :=
  Machine.Runs.folds (f := fun c : Catalogue => c u) h fun _ _ _ hstep => Step.after hstep u

/-- A listing that was there at the start has become what the revisions of it made of it. -/
theorem runs_listed (h : machine.Runs c₀ os c) (h₀ : c₀ u = some e) :
    c u = some (revised e (revisions u os)) := by
  rw [listing_fold h, h₀, fold_listed]

/-- A listing was there at the start, or it was published since. -/
theorem runs_origin (h : machine.Runs c₀ os c) (hu : c u = some e) :
    (∃ e₀, c₀ u = some e₀ ∧ e = revised e₀ (revisions u os)) ∨
      (c₀ u = none ∧ ∃ front e₀ back, os = front ++ .publish u e₀ :: back ∧
        e = revised e₀ (revisions u back)) := by
  cases h₀ : c₀ u with
  | some e₀ =>
    rw [runs_listed h h₀] at hu
    cases hu
    exact .inl ⟨e₀, rfl, rfl⟩
  | none =>
    rw [listing_fold h, h₀] at hu
    exact .inr ⟨rfl, fold_unlisted hu⟩

/-- Only the owner revises a listing. -/
theorem runs_owner (h : machine.Runs c₀ os c) {user : ℕ} {ch : Changes} {t : ℕ}
    (ho : .revise u user ch t ∈ os) : ∃ e, c u = some e ∧ e.owner = some user := by
  induction h with
  | start => cases ho
  | @next os a a' o hrun hstep ih =>
    have hafter := Step.after hstep u
    rcases List.mem_append.mp ho with hmem | hmem
    · obtain ⟨e, he, howner⟩ := ih hmem
      have hone : machine.Runs a [o] a' := .next .start hstep
      exact ⟨_, runs_listed hone he, (revised_same e _).owner.trans howner⟩
    · obtain rfl := List.mem_singleton.mp hmem
      cases hstep with
      | @revise _ _ _ _ e listed owned kept unused =>
        exact ⟨_, Function.update_self u _ a, owned⟩

end Runs

end Phyllonix.Products
