/-
What has happened in a run.

A deterministic system is given by what a step makes of a state, and a run by the list
of its labels.  `Once` says that some step of the run was of one kind, and `Since` that
some step was and that no step after it was of another kind: the past-time operators of
temporal logic.  An induction along a run reads them at the last step, which is what
`once_snoc` and `since_snoc` are for.  `Always` says that every step of the run was of one
kind, as the condition under which a run is looked at.
-/
import Mathlib.Data.List.Induction

namespace Past

variable {State Label : Type} {f : State → Label → State} {A A' B : State → Label → Prop}
  {s : State} {run : List Label} {l : Label}

/-- Some step of the run was an `A`. -/
def Once (f : State → Label → State) (A : State → Label → Prop) (s : State)
    (run : List Label) : Prop :=
  ∃ before l after, run = before ++ l :: after ∧ A (before.foldl f s) l

/-- Some step of the run was an `A`, and no step after it was a `B`. -/
def Since (f : State → Label → State) (A B : State → Label → Prop) (s : State)
    (run : List Label) : Prop :=
  ∃ before l after, run = before ++ l :: after ∧ A (before.foldl f s) l ∧
    ¬ Once f B ((before ++ [l]).foldl f s) after

/-- Every step of the run is an `A` when its turn comes. -/
def Always (f : State → Label → State) (A : State → Label → Prop) : State → List Label → Prop
  | _, [] => True
  | s, l :: run => A s l ∧ Always f A (f s l) run

instance decidableAlways [∀ s l, Decidable (A s l)] :
    (s : State) → (run : List Label) → Decidable (Always f A s run)
  | _, [] => .isTrue trivial
  | s, l :: run =>
      have := decidableAlways (f s l) run
      inferInstanceAs (Decidable (A s l ∧ Always f A (f s l) run))

theorem always_append {run' : List Label} :
    Always f A s (run ++ run') ↔ Always f A s run ∧ Always f A (run.foldl f s) run' := by
  induction run generalizing s with
  | nil => exact (and_iff_right trivial).symm
  | cons l run ih =>
      rw [List.cons_append, Always, ih, Always, and_assoc]
      rfl

/-- What holds at the start and is kept by every step holds at the end. -/
theorem Always.preserves {P : State → Prop} (hstep : ∀ s l, P s → A s l → P (f s l))
    (hs : P s) (h : Always f A s run) : P (run.foldl f s) := by
  induction run generalizing s with
  | nil => exact hs
  | cons l run ih => exact ih (hstep s l hs h.1) h.2

theorem once_nil : ¬ Once f A s [] := by
  rintro ⟨before, l, after, hsplit, -⟩
  exact List.append_ne_nil_of_right_ne_nil before (List.cons_ne_nil l after) hsplit.symm

/-- A run that ends in `l` splits before `l`, or with `l` as the last of what follows. -/
theorem split_snoc {before after : List Label} {m : Label}
    (h : run ++ [l] = before ++ m :: after) :
    (after = [] ∧ run = before ∧ l = m) ∨
      ∃ rest, after = rest ++ [l] ∧ run = before ++ m :: rest := by
  rcases List.eq_nil_or_concat after with rfl | ⟨rest, x, rfl⟩
  · have hlast := List.append_inj' h rfl
    exact Or.inl ⟨rfl, hlast.1, List.singleton_inj.mp hlast.2⟩
  · rw [List.concat_eq_append, ← List.cons_append, ← List.append_assoc] at h
    have hlast := List.append_inj' h rfl
    obtain rfl := List.singleton_inj.mp hlast.2
    exact Or.inr ⟨rest, List.concat_eq_append, hlast.1⟩

theorem once_snoc : Once f A s (run ++ [l]) ↔ Once f A s run ∨ A (run.foldl f s) l := by
  constructor
  · rintro ⟨before, m, after, hsplit, hA⟩
    rcases split_snoc hsplit with ⟨-, rfl, rfl⟩ | ⟨rest, -, hrun⟩
    · exact Or.inr hA
    · exact Or.inl ⟨before, m, rest, hrun, hA⟩
  · rintro (⟨before, m, after, rfl, hA⟩ | hA)
    · exact ⟨before, m, after ++ [l], by simp, hA⟩
    · exact ⟨run, l, [], rfl, hA⟩

theorem once_append {run' : List Label} :
    Once f A s (run ++ run') ↔ Once f A s run ∨ Once f A (run.foldl f s) run' := by
  induction run' using List.reverseRecOn with
  | nil => simp [once_nil]
  | append_singleton run' l ih =>
      rw [← List.append_assoc, once_snoc, ih, once_snoc, List.foldl_append, or_assoc]

theorem once_cons : Once f A s (l :: run) ↔ A s l ∨ Once f A (f s l) run := by
  rw [← List.singleton_append, once_append, ← List.nil_append [l], once_snoc]
  simp [once_nil]

/-- What holds at the end and not at the start has come about at some step. -/
theorem once_of_change {P : State → Prop} (hs : ¬ P s) (h : P (run.foldl f s)) :
    Once f (fun t l => ¬ P t ∧ P (f t l)) s run := by
  induction run generalizing s with
  | nil => exact absurd h hs
  | cons l run ih =>
      rw [once_cons]
      by_cases hl : P (f s l)
      · exact Or.inl ⟨hs, hl⟩
      · exact Or.inr (ih hl h)

theorem since_nil : ¬ Since f A B s [] := by
  rintro ⟨before, l, after, hsplit, hA, -⟩
  exact once_nil ⟨before, l, after, hsplit, hA⟩

/-- The last step is an `A`, or it is no `B` and there has been an `A` without a `B` since. -/
theorem since_snoc : Since f A B s (run ++ [l]) ↔
    A (run.foldl f s) l ∨ (¬ B (run.foldl f s) l ∧ Since f A B s run) := by
  have hfold (before rest : List Label) (m : Label) :
      rest.foldl f ((before ++ [m]).foldl f s) = (before ++ m :: rest).foldl f s := by
    rw [← List.foldl_append, List.append_assoc]
    rfl
  constructor
  · rintro ⟨before, m, after, hsplit, hA, hB⟩
    rcases split_snoc hsplit with ⟨-, rfl, rfl⟩ | ⟨rest, rfl, rfl⟩
    · exact Or.inl hA
    · rw [once_snoc, not_or, hfold] at hB
      exact Or.inr ⟨hB.2, before, m, rest, rfl, hA, hB.1⟩
  · rintro (hA | ⟨hlast, before, m, rest, rfl, hA, hB⟩)
    · exact ⟨run, l, [], rfl, hA, once_nil⟩
    · refine ⟨before, m, rest ++ [l], by simp, hA, ?_⟩
      rw [once_snoc, not_or, hfold]
      exact ⟨hB, hlast⟩

theorem Since.mono (h : Since f A B s run) (hA : ∀ t l, A t l → A' t l) :
    Since f A' B s run := by
  obtain ⟨before, l, after, hsplit, hl, hB⟩ := h
  exact ⟨before, l, after, hsplit, hA _ l hl, hB⟩

end Past
