/-
The alternating-bit protocol while nothing is lost.

A round takes one frame to the receiver and its acknowledgement back, so that nothing is in
flight between two rounds and the two ends alone are the state (`Ends`).  In a round the
sender may instead lose patience, if its timer has been running since before.

Nothing is lost or repeated if the receiver accepts the bit the sender is about to send, or
the sender is about to reset (`rounds_conserve`), whenever it loses patience.  If it does so in
the first round at most, the queue is empty after two rounds more than it is long
(`rounds_drain`).  An end that is out of step costs the message in front and no other
(`rounds_cost`).
-/
import UdpConnect.Lib.AlternatingBit

namespace AlternatingBit

/-- The two ends when nothing is in flight. -/
structure Ends (α : Type) where
  queue : List α
  mode : Kind
  expected : Option Bool

namespace Ends

variable {α : Type} (x : Ends α)

def accepts (b : Bool) : Bool := x.expected.all (· = b)

/-- What is sent next will be taken for what it is. -/
def Aligned : Prop :=
  match x.mode with
  | .reset => True
  | .bit b => x.accepts b = true

/-- One round, and what the receiver reports in it. -/
def round (impatient : Bool) : Ends α × List α :=
  match x.queue, x.mode with
  | [], _ => (x, [])
  | _ :: _, .reset =>
      ({ x with mode := .bit false, expected := x.expected.map fun _ => false }, [])
  | m :: rest, .bit b =>
      if impatient then ({ x with mode := .reset }, [])
      else (⟨rest, .bit !b, some !b⟩, if x.accepts b then [m] else [])

/-- Rounds one after the other. -/
def rounds : List Bool → Ends α → Ends α × List α
  | [], x => (x, [])
  | impatient :: run, x =>
      let y := x.round impatient
      let z := rounds run y.1
      (z.1, y.2 ++ z.2)

/-- The rounds that are left if the sender stays patient. -/
def left : Nat :=
  match x.queue, x.mode with
  | [], _ => 0
  | _ :: rest, .reset => rest.length + 2
  | _ :: rest, .bit _ => rest.length + 1

end Ends

section Rounds

open Ends

variable {α : Type} {x : Ends α} {impatient : Bool} {run : List Bool}

/-- A round reports what it drops, and leaves the ends aligned. -/
theorem round_conserve (h : x.Aligned) (impatient : Bool) :
    (x.round impatient).2 ++ (x.round impatient).1.queue = x.queue ∧
      (x.round impatient).1.Aligned := by
  obtain ⟨queue, mode, expected⟩ := x
  cases queue with
  | nil => exact ⟨rfl, h⟩
  | cons m rest =>
      cases mode with
      | reset =>
          refine ⟨rfl, ?_⟩
          cases expected <;> rfl
      | bit b =>
          cases impatient with
          | true => exact ⟨rfl, trivial⟩
          | false =>
              have haccepts : (Ends.mk (m :: rest) (.bit b) expected).accepts b = true := h
              simp only [Ends.round, haccepts, Bool.false_eq_true, if_false, if_true]
              exact ⟨rfl, by simp [Aligned, accepts]⟩

/-- **Whenever the sender loses patience, what was queued is reported or still queued, each
message once and in its order.** -/
theorem rounds_conserve (run : List Bool) : ∀ x : Ends α, x.Aligned →
    (rounds run x).2 ++ (rounds run x).1.queue = x.queue ∧ (rounds run x).1.Aligned := by
  induction run with
  | nil =>
      intro x h
      exact ⟨rfl, h⟩
  | cons impatient run ih =>
      intro x h
      obtain ⟨hround, haligned⟩ := round_conserve h impatient
      obtain ⟨hrest, haligned'⟩ := ih _ haligned
      refine ⟨?_, haligned'⟩
      rw [← hround, ← hrest, Ends.rounds, List.append_assoc]

/-- A patient round brings the end nearer. -/
theorem left_round (x : Ends α) : (x.round false).1.left ≤ x.left - 1 := by
  obtain ⟨queue, mode, expected⟩ := x
  cases queue with
  | nil => exact Nat.le_refl 0
  | cons m rest =>
      cases mode with
      | reset => exact Nat.le_refl _
      | bit b =>
          cases rest with
          | nil => exact Nat.le_refl 0
          | cons m' rest => exact Nat.le_refl _

/-- After any round there are at most two more rounds left than messages before it. -/
theorem left_round_le (x : Ends α) (impatient : Bool) :
    (x.round impatient).1.left ≤ x.queue.length + 1 := by
  obtain ⟨queue, mode, expected⟩ := x
  cases queue with
  | nil => exact Nat.zero_le _
  | cons m rest =>
      cases mode with
      | reset => exact Nat.le_succ _
      | bit b =>
          cases impatient with
          | true => exact Nat.le_refl _
          | false =>
              cases rest with
              | nil => exact Nat.zero_le _
              | cons m' rest =>
                  simp only [Ends.round, Bool.false_eq_true, if_false, left, List.length_cons]
                  omega

theorem queue_of_left (h : x.left = 0) : x.queue = [] := by
  obtain ⟨queue, mode, expected⟩ := x
  cases queue with
  | nil => rfl
  | cons m rest => cases mode <;> simp [left] at h

theorem rounds_patient (n : Nat) : ∀ x : Ends α, x.left ≤ n →
    (rounds (List.replicate n false) x).1.queue = [] := by
  induction n with
  | zero =>
      intro x h
      exact queue_of_left (Nat.le_zero.mp h)
  | succ n ih =>
      intro x h
      have hround := left_round x
      exact ih _ (by omega)

/-- **A sender that loses patience at most once is done in two rounds more than it has
messages.** -/
theorem rounds_drain (x : Ends α) (impatient : Bool) {n : Nat} (hn : x.queue.length + 1 ≤ n) :
    (rounds (impatient :: List.replicate n false) x).1.queue = [] :=
  rounds_patient n _ (Nat.le_trans (left_round_le x impatient) hn)

/-- **An end that is out of step costs at most the message in front.** -/
theorem rounds_cost (run : List Bool) : ∀ x : Ends α,
    (rounds run x).2 ++ (rounds run x).1.queue = x.queue ∨
      (rounds run x).2 ++ (rounds run x).1.queue = x.queue.tail := by
  induction run with
  | nil => exact fun x => Or.inl rfl
  | cons impatient run ih =>
      intro x
      by_cases haligned : x.Aligned
      · exact Or.inl (rounds_conserve _ x haligned).1
      · obtain ⟨queue, mode, expected⟩ := x
        cases mode with
        | reset => exact absurd trivial haligned
        | bit b =>
            have haccepts : (Ends.mk queue (.bit b) expected).accepts b = false :=
              Bool.not_eq_true _ ▸ haligned
            cases queue with
            | nil => exact ih ⟨[], .bit b, expected⟩
            | cons m rest =>
                cases impatient with
                | true => exact Or.inl (rounds_conserve run ⟨m :: rest, .reset, expected⟩ trivial).1
                | false =>
                    right
                    simp only [Ends.rounds, Ends.round, haccepts, Bool.false_eq_true, if_false,
                      List.nil_append, List.tail_cons]
                    exact (rounds_conserve run ⟨rest, .bit !b, some !b⟩
                      (by simp [Aligned, accepts])).1

end Rounds

end AlternatingBit
