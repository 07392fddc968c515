/-
Codes that say where they end.

A code is self-delimiting if the code of a value can be told from whatever stands behind
it.  A code closed by a symbol it does not contain is, and so is a row of such codes that is
closed by a symbol none of them begins with.  A text made of such codes is made in one way.
-/
import Mathlib.Data.List.Basic
import Mathlib.Logic.Function.Basic

namespace Codes

variable {α β Symbol : Type} {f : α → List Symbol}

/-- Where the code of a value stands, with anything behind it, it tells both. -/
def SelfDelimiting (f : α → List Symbol) : Prop :=
  ∀ a b xs ys, f a ++ xs = f b ++ ys → a = b ∧ xs = ys

theorem takeWhile_closed [DecidableEq Symbol] {e : Symbol} {code : List Symbol} (he : e ∉ code)
    (rest : List Symbol) : (code ++ e :: rest).takeWhile (· ≠ e) = code := by
  induction code with
  | nil => simp
  | cons x code ih =>
      obtain ⟨hx, hcode⟩ := not_or.mp (mt List.mem_cons.mpr he)
      rw [List.cons_append, List.takeWhile_cons, if_pos (decide_eq_true (Ne.symm hx)), ih hcode]

/-- A code closed by a symbol it does not contain. -/
theorem selfDelimiting_closed [DecidableEq Symbol] {e : Symbol} (hinjective : Function.Injective f)
    (he : ∀ a, e ∉ f a) : SelfDelimiting fun a => f a ++ [e] := by
  intro a b xs ys h
  simp only [List.append_assoc, List.singleton_append] at h
  have hcode : f a = f b := by
    rw [← takeWhile_closed (he a) xs, h, takeWhile_closed (he b) ys]
  rw [hcode] at h
  exact ⟨hinjective hcode, (List.cons.inj (List.append_cancel_left h)).2⟩

theorem SelfDelimiting.comp {h : β → α} (hf : SelfDelimiting f) (hh : Function.Injective h) :
    SelfDelimiting (f ∘ h) := by
  intro a b xs ys heq
  obtain ⟨hab, hrest⟩ := hf _ _ xs ys heq
  exact ⟨hh hab, hrest⟩

/-- As many codes as there are on the other side. -/
theorem SelfDelimiting.flatMap (hf : SelfDelimiting f) (as : List α) :
    ∀ (bs : List α) (xs ys : List Symbol), as.length = bs.length →
      as.flatMap f ++ xs = bs.flatMap f ++ ys → as = bs ∧ xs = ys := by
  induction as with
  | nil =>
      intro bs xs ys hlength h
      rw [List.length_nil] at hlength
      obtain rfl := List.length_eq_zero_iff.mp hlength.symm
      exact ⟨rfl, h⟩
  | cons a as ih =>
      intro bs xs ys hlength h
      cases bs with
      | nil => cases hlength
      | cons b bs =>
          simp only [List.flatMap_cons, List.append_assoc] at h
          obtain ⟨rfl, hrest⟩ := hf _ _ _ _ h
          obtain ⟨rfl, hend⟩ := ih bs xs ys (Nat.succ.inj hlength) hrest
          exact ⟨rfl, hend⟩

/-- Any number of codes, closed by a symbol none of them begins with. -/
theorem SelfDelimiting.list {e : Symbol} (hf : SelfDelimiting f)
    (hnonempty : ∀ a, f a ≠ []) (he : ∀ a, (f a).head? ≠ some e) :
    SelfDelimiting fun as : List α => as.flatMap f ++ [e] := by
  have hfirst : ∀ a (xs ys : List Symbol), f a ++ xs ≠ e :: ys := by
    intro a xs ys h
    cases hcode : f a with
    | nil => exact hnonempty a hcode
    | cons x code =>
        rw [hcode] at h
        refine he a ?_
        rw [hcode, List.head?_cons, (List.cons.inj h).1]
  intro as
  induction as with
  | nil =>
      intro bs xs ys h
      cases bs with
      | nil => exact ⟨rfl, (List.cons.inj h).2⟩
      | cons b bs =>
          simp only [List.flatMap_cons, List.append_assoc] at h
          exact absurd h.symm (hfirst b _ _)
  | cons a as ih =>
      intro bs xs ys h
      cases bs with
      | nil =>
          simp only [List.flatMap_cons, List.append_assoc] at h
          exact absurd h (hfirst a _ _)
      | cons b bs =>
          simp only [List.flatMap_cons, List.append_assoc] at h
          obtain ⟨rfl, hrest⟩ := hf _ _ _ _ h
          obtain ⟨rfl, hend⟩ := ih bs xs ys (by simpa only [List.append_assoc] using hrest)
          exact ⟨rfl, hend⟩

/-- A text is made of its codes in one way. -/
theorem SelfDelimiting.text (hf : SelfDelimiting f) (hnonempty : ∀ a, f a ≠ []) :
    Function.Injective fun as : List α => as.flatMap f := by
  intro as
  induction as with
  | nil =>
      intro bs h
      cases bs with
      | nil => rfl
      | cons b bs =>
          simp only [List.flatMap_nil, List.flatMap_cons] at h
          exact absurd (List.append_eq_nil_iff.mp h.symm).1 (hnonempty b)
  | cons a as ih =>
      intro bs h
      cases bs with
      | nil =>
          simp only [List.flatMap_nil, List.flatMap_cons] at h
          exact absurd (List.append_eq_nil_iff.mp h).1 (hnonempty a)
      | cons b bs =>
          simp only [List.flatMap_cons] at h
          obtain ⟨rfl, hrest⟩ := hf _ _ _ _ h
          rw [ih hrest]

end Codes
