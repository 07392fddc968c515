/-
Who holds what.

A system hands resources out and takes them back, and several owners hold them.  `Owned`
says that nothing is lost and nothing is shared: what is out is held, once, and by one
owner.  It is kept by an owner's getting a resource that is not out, and by an owner's
giving all its resources back.
-/
import Mathlib.Logic.Function.Basic
import Mathlib.Data.List.Perm.Basic
import Mathlib.Data.List.Nodup

namespace Ownership

variable {Resource Owner : Type} {out : Resource → Prop} {held : Owner → List Resource}

/-- What is out is held by one owner, once, and nothing else is held. -/
structure Owned (out : Resource → Prop) (held : Owner → List Resource) : Prop where
  out_iff : ∀ r, out r ↔ ∃ i, r ∈ held i
  once : ∀ i, (held i).Nodup
  apart : ∀ i j r, r ∈ held i → r ∈ held j → i = j

theorem owned_nothing : Owned (fun _ : Resource => False) fun _ : Owner => [] where
  out_iff r := by simp
  once i := List.nodup_nil
  apart i j r hi := by cases hi

theorem Owned.congr {out' : Resource → Prop} {held' : Owner → List Resource}
    (h : Owned out held) (hout : ∀ r, out' r ↔ out r) (hheld : ∀ i, held' i = held i) :
    Owned out' held' := by
  obtain rfl : held' = held := funext hheld
  exact ⟨fun r => (hout r).trans (h.out_iff r), h.once, h.apart⟩

/-- If nobody holds anything, nothing is out. -/
theorem Owned.nothing (h : Owned out held) (hheld : ∀ i, held i = []) (r : Resource) : ¬ out r := by
  intro hr
  obtain ⟨i, hi⟩ := (h.out_iff r).mp hr
  rw [hheld i] at hi
  cases hi

variable [DecidableEq Owner] {r : Resource} {i : Owner} {rs : List Resource}

/-- An owner gets a resource that was not out. -/
theorem Owned.acquire (h : Owned out held) (hr : ¬ out r) (hrs : rs.Perm (r :: held i)) :
    Owned (fun r' => r' = r ∨ out r') (Function.update held i rs) := by
  have hfree : ∀ j, r ∉ held j := fun j hj => hr ((h.out_iff r).mpr ⟨j, hj⟩)
  have hmem : ∀ j r', r' ∈ Function.update held i rs j ↔ (j = i ∧ r' = r) ∨ r' ∈ held j := by
    intro j r'
    by_cases hj : j = i
    · subst hj
      rw [Function.update_self, hrs.mem_iff, List.mem_cons]
      simp
    · rw [Function.update_of_ne hj]
      simp [hj]
  refine ⟨fun r' => ?_, fun j => ?_, fun j k r' hj hk => ?_⟩
  · simp only [hmem, h.out_iff r', exists_or]
    simp
  · by_cases hj : j = i
    · subst hj
      rw [Function.update_self, hrs.nodup_iff]
      exact List.nodup_cons.mpr ⟨hfree j, h.once j⟩
    · rw [Function.update_of_ne hj]
      exact h.once j
  · rcases (hmem j r').mp hj with ⟨rfl, rfl⟩ | hold
    · rcases (hmem k r').mp hk with ⟨rfl, -⟩ | hold
      · rfl
      · exact absurd hold (hfree k)
    · rcases (hmem k r').mp hk with ⟨rfl, rfl⟩ | hold'
      · exact absurd hold (hfree j)
      · exact h.apart j k r' hold hold'

/-- An owner gives everything back. -/
theorem Owned.release (h : Owned out held) (i : Owner) :
    Owned (fun r => out r ∧ r ∉ held i) (Function.update held i []) := by
  have hmem : ∀ j r, r ∈ Function.update held i [] j ↔ j ≠ i ∧ r ∈ held j := by
    intro j r
    by_cases hj : j = i
    · subst hj
      simp
    · rw [Function.update_of_ne hj]
      simp [hj]
  refine ⟨fun r => ?_, fun j => ?_, fun j k r hj hk => ?_⟩
  · simp only [hmem, h.out_iff r]
    constructor
    · rintro ⟨⟨j, hj⟩, hi⟩
      exact ⟨j, fun hji => hi (hji ▸ hj), hj⟩
    · rintro ⟨j, hne, hj⟩
      exact ⟨⟨j, hj⟩, fun hi => hne (h.apart j i r hj hi)⟩
  · by_cases hj : j = i
    · subst hj
      rw [Function.update_self]
      exact List.nodup_nil
    · rw [Function.update_of_ne hj]
      exact h.once j
  · exact h.apart j k r ((hmem j r).mp hj).2 ((hmem k r).mp hk).2

end Ownership
