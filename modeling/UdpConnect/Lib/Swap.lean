/-
Steps that may be taken in either order.

A step makes a new state of a state and gives something out.  Two steps swap at a state
if both orders lead to the same state, as far as it is looked at, and each gives the
same first or second.  `swaps_of_part` is about steps on two parts of the state,
`Swaps.of_mirrors` about steps of a system that do what the steps of another do.
-/
namespace Swap

variable {State State' Part Out Out' A B C : Type}

/-- Both orders lead to states that look the same, and each step gives the same in both. -/
structure Swaps (look : State → Part) (f : State → State × A) (g : State → State × B)
    (s : State) : Prop where
  state : look (g (f s).1).1 = look (f (g s).1).1
  left : (f (g s).1).2 = (f s).2
  right : (g (f s).1).2 = (g s).2

section Steps

variable {look : State → Part} {f : State → State × A} {g : State → State × B} {s : State}

theorem Swaps.symm (h : Swaps look f g s) : Swaps look g f s := ⟨h.state.symm, h.right, h.left⟩

/-- A step that changes nothing, and always gives the same, swaps with every other. -/
theorem swaps_of_constant (a : A) (hf : ∀ s, f s = (s, a)) : Swaps look f g s where
  state := by rw [hf, hf]
  left := by rw [hf, hf]
  right := by rw [hf]

/--
A step on one part of the state, told by `get` and put back by `set`, swaps with a step that
neither reads nor changes that part.
-/
theorem swaps_of_part (get : State → Part) (set : Part → State → State) (φ : Part → Part × A)
    (hf : ∀ s, f s = (set (φ (get s)).1 s, (φ (get s)).2))
    (hget : ∀ s, get (g s).1 = get s)
    (hset : ∀ x s, g (set x s) = (set x (g s).1, (g s).2)) : Swaps id f g s where
  state := by rw [hf s, hset, hf (g s).1, hget]
  left := by rw [hf (g s).1, hget, hf s]
  right := by rw [hf s, hset]

end Steps

/-- On the states with the property, the first step looks like the second. -/
structure Mirrors (P : State → Prop) (look : State → State') (out : A → C)
    (F : State → State × C) (f : State' → State' × A) : Prop where
  keeps : ∀ s, P s → P (F s).1
  state : ∀ s, P s → look (F s).1 = (f (look s)).1
  out : ∀ s, P s → (F s).2 = out (f (look s)).2

/-- Steps that look like steps that swap, swap as far as one looks. -/
theorem Swaps.of_mirrors {P : State → Prop} {look : State → State'} {out : A → Out}
    {out' : B → Out'} {F : State → State × Out} {G : State → State × Out'}
    {f : State' → State' × A} {g : State' → State' × B} (hF : Mirrors P look out F f)
    (hG : Mirrors P look out' G g) {s : State} (hs : P s) (h : Swaps id f g (look s)) :
    Swaps look F G s where
  state := by
    rw [hG.state _ (hF.keeps s hs), hF.state s hs, hF.state _ (hG.keeps s hs), hG.state s hs]
    exact h.state
  left := by
    rw [hF.out _ (hG.keeps s hs), hG.state s hs, hF.out s hs]
    exact congrArg out h.left
  right := by
    rw [hG.out _ (hF.keeps s hs), hF.state s hs, hG.out s hs]
    exact congrArg out' h.right

/-! ### Steps in a row -/

section Each

variable {Label Label' : Type} {F : Label → State → State × C} {f : Label → State' → State' × A}
  {P : State → Prop} {look : State → State'} {out : A → C}

/-- A step for each label, and what each gives out. -/
def each (F : Label → State → State × C) : List Label → State → State × List C
  | [], s => (s, [])
  | l :: ls, s =>
      let r := F l s
      let t := each F ls r.1
      (t.1, r.2 :: t.2)

theorem each_map (g : Label' → Label) (ls : List Label') (s : State) :
    each F (ls.map g) s = each (fun l => F (g l)) ls s := by
  induction ls generalizing s with
  | nil => rfl
  | cons l ls ih => rw [List.map_cons, each, each, ih]

theorem each_append (ls ls' : List Label) (s : State) :
    each F (ls ++ ls') s
      = ((each F ls' (each F ls s).1).1, (each F ls s).2 ++ (each F ls' (each F ls s).1).2) := by
  induction ls generalizing s with
  | nil => rfl
  | cons l ls ih => simp only [List.cons_append, each, ih]

/-- What comes out of a row comes out of one of its steps. -/
theorem each_mem {ls : List Label} {s : State} {c : C} (h : c ∈ (each F ls s).2) :
    ∃ l ∈ ls, ∃ s', c = (F l s').2 := by
  induction ls generalizing s with
  | nil => cases h
  | cons l ls ih =>
      rcases List.mem_cons.mp h with rfl | h
      · exact ⟨l, List.mem_cons_self, s, rfl⟩
      · obtain ⟨l', hl', s', hc⟩ := ih h
        exact ⟨l', List.mem_cons_of_mem _ hl', s', hc⟩

/-- Steps that look like others do so in a row. -/
theorem Mirrors.each (ls : List Label) (h : ∀ l ∈ ls, Mirrors P look out (F l) (f l)) :
    Mirrors P look (List.map out) (Swap.each F ls) (Swap.each f ls) := by
  induction ls with
  | nil => exact ⟨fun _ hs => hs, fun _ _ => rfl, fun _ _ => rfl⟩
  | cons l ls ih =>
      have hl := h l List.mem_cons_self
      have hls := ih fun l' hl' => h l' (List.mem_cons_of_mem _ hl')
      refine ⟨fun s hs => hls.keeps _ (hl.keeps s hs), fun s hs => ?_, fun s hs => ?_⟩
      · rw [Swap.each, Swap.each, hls.state _ (hl.keeps s hs), hl.state s hs]
      · rw [Swap.each, Swap.each, List.map_cons, hls.out _ (hl.keeps s hs), hl.state s hs,
          hl.out s hs]

end Each

end Swap
