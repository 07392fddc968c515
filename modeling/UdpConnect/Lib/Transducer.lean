/-
Machines that read letters and give out words.

A machine is a function from a state and a letter to a state and a word.  Nothing is said
of the system it explains: `run_append` is what puts the steps of such a system together,
each of which may read any number of letters.
-/
namespace Transducer

variable {State Letter Output : Type} {T : State → Letter → State × List Output}

/-- The letters one by one: the state at the end, and everything given out on the way. -/
def run (T : State → Letter → State × List Output) : List Letter → State → State × List Output
  | [], q => (q, [])
  | x :: xs, q =>
      let r := T q x
      let t := run T xs r.1
      (t.1, r.2 ++ t.2)

/-- From the one state to the other the machine reads one word and gives out another. -/
def Reads (T : State → Letter → State × List Output) (q : State) (xs : List Letter)
    (ys : List Output) (q' : State) : Prop :=
  run T xs q = (q', ys)

theorem run_append (xs xs' : List Letter) (q : State) :
    run T (xs ++ xs') q
      = ((run T xs' (run T xs q).1).1, (run T xs q).2 ++ (run T xs' (run T xs q).1).2) := by
  induction xs generalizing q with
  | nil => rfl
  | cons x xs ih => simp only [List.cons_append, run, ih, List.append_assoc]

section Reads

variable {q q' q'' : State} {xs xs' : List Letter} {ys ys' : List Output}

theorem Reads.refl (q : State) : Reads T q [] [] q := rfl

theorem reads_letter (T : State → Letter → State × List Output) (q : State) (x : Letter) :
    Reads T q [x] (T q x).2 (T q x).1 := by
  unfold Reads run
  simp only [run, List.append_nil]

theorem Reads.trans (h : Reads T q xs ys q') (h' : Reads T q' xs' ys' q'') :
    Reads T q (xs ++ xs') (ys ++ ys') q'' := by
  unfold Reads at h h' ⊢
  rw [run_append, h, h']

end Reads

end Transducer
