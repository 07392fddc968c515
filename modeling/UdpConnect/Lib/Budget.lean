/-
Budgets: what a run can spend is what there was and what came in.

A step costs something and may bring something in.  If a balance pays for every step, up to
what the step brings in, the costs of a run are bounded by the balance at its start and by
the income on the way (`total_le`).  Without an income a system cannot go on spending: among
the first `balance s + 1` steps of any run there is one that is free (`exists_free`).
-/
import UdpConnect.Lib.Past

namespace Budget

open Past

variable {State Label : Type} {f : State → Label → State} {A : State → Label → Prop}
  {P : State → Prop} {cost income : State → Label → Nat} {balance : State → Nat} {s : State}

/-- A quantity, over all steps of a run. -/
def total (f : State → Label → State) (q : State → Label → Nat) : State → List Label → Nat
  | _, [] => 0
  | s, l :: run => q s l + total f q (f s l) run

/-- Every step of a run costs at least one, or there is one that is free. -/
theorem length_le_total (q : State → Label → Nat) (run : List Label) : ∀ s,
    Once f (fun s l => q s l = 0) s run ∨ run.length ≤ total f q s run := by
  induction run with
  | nil =>
      intro s
      exact Or.inr (Nat.le_refl 0)
  | cons l run ih =>
      intro s
      rw [once_cons, total, List.length_cons]
      by_cases hfree : q s l = 0
      · exact Or.inl (Or.inl hfree)
      · rcases ih (f s l) with honce | hle
        · exact Or.inl (Or.inr honce)
        · right
          omega

/-- Steps that are allowed keep `P`, and the balance pays for them. -/
structure Pays (f : State → Label → State) (A : State → Label → Prop) (P : State → Prop)
    (cost income : State → Label → Nat) (balance : State → Nat) : Prop where
  keeps : ∀ s l, P s → A s l → P (f s l)
  pays : ∀ s l, P s → A s l → cost s l + balance (f s l) ≤ balance s + income s l

theorem Pays.total_le (h : Pays f A P cost income balance) (run : List Label) : ∀ s, P s →
    Always f A s run →
      total f cost s run + balance (run.foldl f s) ≤ balance s + total f income s run := by
  induction run with
  | nil =>
      intro s _ _
      exact Nat.le_of_eq (Nat.zero_add _)
  | cons l run ih =>
      intro s hP hA
      have hstep := h.pays s l hP hA.1
      have hrest := ih (f s l) (h.keeps s l hP hA.1) hA.2
      rw [total, total, List.foldl_cons]
      omega

/-- **A system without an income takes a free step sooner or later.** -/
theorem Pays.exists_free (h : Pays f A P cost (fun _ _ => 0) balance) (hP : P s)
    {run : List Label} (hA : Always f A s run) (hlong : balance s < run.length) :
    Once f (fun s l => cost s l = 0) s run := by
  have hzero : ∀ (run : List Label) s, total f (fun _ _ => 0) s run = 0 := by
    intro run
    induction run with
    | nil => exact fun _ => rfl
    | cons l run ih =>
        intro s
        rw [total, ih]
  rcases length_le_total (f := f) cost run s with honce | hle
  · exact honce
  · have hspent := h.total_le run s hP hA
    rw [hzero] at hspent
    omega

end Budget
