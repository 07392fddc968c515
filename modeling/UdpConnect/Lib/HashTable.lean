/-
Hash tables with a comparison of their own.

A table finds the bucket of a key by its hash, and the entry in the bucket by a comparison
that need not be equality: keys may have parts that the comparison does not look at.  All
that is asked of the two is what a `Keying` carries, that the comparison is an equivalence
and that what it identifies has one hash.  Buckets are lists, and their number and the
way from a hash to a bucket may change at any time (`rehash`).

If the comparison says when two keys stand for the same `l : L`, a table is a finite map
on `L`: `results_eq` says that no sequence of calls tells them apart.
-/
import Mathlib.Data.Finmap
import Mathlib.Data.List.FinRange

/-- A hash and a comparison that go together. -/
structure Keying (K : Type) where
  hash : K → Nat
  equals : K → K → Bool
  equivalence : Equivalence fun a b => equals a b = true
  hash_eq : ∀ a b, equals a b = true → hash a = hash b

/-! ### Buckets -/

namespace Keying

variable {K V : Type} (κ : Keying K)

/-- The value of the key in a bucket, if it has an entry there. -/
def lookup (k : K) (es : List (K × V)) : Option V :=
  (es.find? fun e => κ.equals e.1 k).map Prod.snd

/-- An entry that is there keeps its key and gets the value; otherwise one is added. -/
def put (k : K) (v : V) : List (K × V) → List (K × V)
  | [] => [(k, v)]
  | e :: es => if κ.equals e.1 k then (e.1, v) :: es else e :: put k v es

def remove (k : K) (es : List (K × V)) : List (K × V) := es.eraseP fun e => κ.equals e.1 k

/-- No two entries are for one key. -/
def Apart (es : List (K × V)) : Prop := es.Pairwise fun e e' => κ.equals e.1 e'.1 = false

section Buckets

variable {κ} {a b k k' : K} {v : V} {e : K × V} {es : List (K × V)}

theorem equals_congr (h : κ.equals a b = true) (k : K) : κ.equals a k = κ.equals b k := by
  rw [Bool.eq_iff_iff]
  constructor
  · intro hk
    exact κ.equivalence.trans (κ.equivalence.symm h) hk
  · intro hk
    exact κ.equivalence.trans h hk

theorem lookup_cons (k : K) (e : K × V) (es : List (K × V)) :
    κ.lookup k (e :: es) = if κ.equals e.1 k then some e.2 else κ.lookup k es := by
  unfold lookup
  rw [List.find?_cons]
  cases κ.equals e.1 k <;> rfl

theorem remove_cons (k : K) (e : K × V) (es : List (K × V)) :
    κ.remove k (e :: es) = if κ.equals e.1 k then es else e :: κ.remove k es := by
  unfold remove
  rw [List.eraseP_cons]
  cases κ.equals e.1 k <;> rfl

/-- Behind its own entry there is none for a key. -/
theorem lookup_eq_none (h : ∀ e ∈ es, κ.equals a e.1 = false) (hk : κ.equals a k = true) :
    κ.lookup k es = none := by
  unfold lookup
  rw [Option.map_eq_none_iff, List.find?_eq_none]
  intro e he hek
  have hae := h e he
  rw [κ.equivalence.trans hk (κ.equivalence.symm hek)] at hae
  cases hae

theorem lookup_eq_some_iff (h : κ.Apart es) :
    κ.lookup k es = some v ↔ ∃ e ∈ es, κ.equals e.1 k = true ∧ e.2 = v := by
  induction es with
  | nil => simp [lookup]
  | cons e es ih =>
      obtain ⟨hne, hes⟩ := List.pairwise_cons.mp h
      rw [lookup_cons, List.exists_mem_cons_iff, ← ih hes]
      by_cases hk : κ.equals e.1 k = true
      · rw [lookup_eq_none hne hk]
        simp [hk]
      · simp [hk]

theorem lookup_put (k k' : K) (v : V) (es : List (K × V)) :
    κ.lookup k' (κ.put k v es) = if κ.equals k k' then some v else κ.lookup k' es := by
  induction es with
  | nil => rw [put, lookup_cons]
  | cons e es ih =>
      rw [put]
      by_cases hk : κ.equals e.1 k = true
      · rw [if_pos hk, lookup_cons, lookup_cons, equals_congr hk]
        split <;> rfl
      · rw [if_neg hk, lookup_cons, lookup_cons, ih]
        by_cases hk' : κ.equals k k' = true
        · -- the entry is not for the other key either
          have hne : ¬ κ.equals e.1 k' = true := fun h =>
            hk (κ.equivalence.trans h (κ.equivalence.symm hk'))
          rw [if_pos hk', if_pos hk', if_neg hne]
        · rw [if_neg hk', if_neg hk']

theorem lookup_remove (k k' : K) (h : κ.Apart es) :
    κ.lookup k' (κ.remove k es) = if κ.equals k k' then none else κ.lookup k' es := by
  induction es with
  | nil => simp [remove, lookup]
  | cons e es ih =>
      obtain ⟨hne, hes⟩ := List.pairwise_cons.mp h
      by_cases hk : κ.equals e.1 k = true
      · rw [remove_cons, if_pos hk, lookup_cons, equals_congr hk]
        by_cases hk' : κ.equals k k' = true
        · rw [if_pos hk', lookup_eq_none hne (κ.equivalence.trans hk hk')]
        · rw [if_neg hk', if_neg hk']
      · rw [remove_cons, if_neg hk, lookup_cons, lookup_cons, ih hes]
        by_cases hk' : κ.equals k k' = true
        · have hne' : ¬ κ.equals e.1 k' = true := fun h =>
            hk (κ.equivalence.trans h (κ.equivalence.symm hk'))
          rw [if_pos hk', if_pos hk', if_neg hne']
        · rw [if_neg hk', if_neg hk']

/-- The keys of a bucket in which something has been put. -/
theorem mem_put (h : e ∈ κ.put k v es) : e.1 = k ∨ ∃ e' ∈ es, e'.1 = e.1 := by
  induction es with
  | nil =>
      rw [List.mem_singleton.mp h]
      exact Or.inl rfl
  | cons e' es ih =>
      rw [put] at h
      split at h
      · rcases List.mem_cons.mp h with rfl | h
        · exact Or.inr ⟨e', List.mem_cons_self, rfl⟩
        · exact Or.inr ⟨e, List.mem_cons_of_mem _ h, rfl⟩
      · rcases List.mem_cons.mp h with rfl | h
        · exact Or.inr ⟨e, List.mem_cons_self, rfl⟩
        · rcases ih h with hk | ⟨e'', he'', hk⟩
          · exact Or.inl hk
          · exact Or.inr ⟨e'', List.mem_cons_of_mem _ he'', hk⟩

theorem apart_put (h : κ.Apart es) : κ.Apart (κ.put k v es) := by
  induction es with
  | nil => exact List.pairwise_singleton _ _
  | cons e es ih =>
      obtain ⟨hne, hes⟩ := List.pairwise_cons.mp h
      rw [put]
      by_cases hk : κ.equals e.1 k = true
      · rw [if_pos hk]
        exact List.pairwise_cons.mpr ⟨hne, hes⟩
      · rw [if_neg hk]
        refine List.pairwise_cons.mpr ⟨?_, ih hes⟩
        intro e' he'
        rcases mem_put he' with hsame | ⟨e'', he'', hsame⟩
        · rw [hsame]
          exact Bool.eq_false_iff.mpr hk
        · rw [← hsame]
          exact hne e'' he''

theorem apart_remove (k : K) (h : κ.Apart es) : κ.Apart (κ.remove k es) :=
  List.Pairwise.sublist List.eraseP_sublist h

theorem mem_of_mem_remove (h : e ∈ κ.remove k es) : e ∈ es := List.mem_of_mem_eraseP h

end Buckets

end Keying

/-! ### Tables -/

structure HashTable {K : Type} (κ : Keying K) (V : Type) where
  size : Nat
  /-- The bucket in which keys with this hash are kept. -/
  slot : Nat → Fin size
  bucket : Fin size → List (K × V)
  home : ∀ i, ∀ e ∈ bucket i, slot (κ.hash e.1) = i
  apart : ∀ i, κ.Apart (bucket i)

namespace HashTable

variable {K V L : Type} {κ : Keying K}

def empty (size : Nat) (slot : Nat → Fin size) : HashTable κ V where
  size := size
  slot := slot
  bucket := fun _ => []
  home := fun _ _ he => absurd he List.not_mem_nil
  apart := fun _ => List.Pairwise.nil

variable (t : HashTable κ V)

def find (k : K) : Option V := κ.lookup k (t.bucket (t.slot (κ.hash k)))

/-- Exchange the bucket of a key for one that holds no other keys. -/
def setBucket (k : K) (es : List (K × V))
    (hhome : ∀ e ∈ es, e.1 = k ∨ ∃ e' ∈ t.bucket (t.slot (κ.hash k)), e'.1 = e.1)
    (hapart : κ.Apart es) : HashTable κ V where
  size := t.size
  slot := t.slot
  bucket := Function.update t.bucket (t.slot (κ.hash k)) es
  home := by
    intro i e he
    by_cases hi : i = t.slot (κ.hash k)
    · subst hi
      rw [Function.update_self] at he
      rcases hhome e he with hk | ⟨e', he', hk⟩
      · rw [hk]
      · rw [← hk]
        exact t.home _ e' he'
    · rw [Function.update_of_ne hi] at he
      exact t.home i e he
  apart := by
    intro i
    by_cases hi : i = t.slot (κ.hash k)
    · subst hi
      rw [Function.update_self]
      exact hapart
    · rw [Function.update_of_ne hi]
      exact t.apart i

/-- `m_map[k] = v`. -/
def insert (k : K) (v : V) : HashTable κ V :=
  t.setBucket k (κ.put k v (t.bucket (t.slot (κ.hash k)))) (fun _ => Keying.mem_put)
    (Keying.apart_put (t.apart _))

def erase (k : K) : HashTable κ V :=
  t.setBucket k (κ.remove k (t.bucket (t.slot (κ.hash k))))
    (fun e he => Or.inr ⟨e, Keying.mem_of_mem_remove he, rfl⟩) (Keying.apart_remove k (t.apart _))

def entries : List (K × V) := (List.finRange t.size).flatMap t.bucket

theorem mem_entries {e : K × V} : e ∈ t.entries ↔ ∃ i, e ∈ t.bucket i := by
  simp [entries]

/-- Entries of two buckets have different hashes. -/
theorem apart_entries : κ.Apart t.entries := by
  refine List.pairwise_flatMap.mpr ⟨fun i _ => t.apart i, ?_⟩
  refine List.Pairwise.imp ?_ (List.nodup_finRange t.size)
  intro i j hij e he e' he'
  rw [Bool.eq_false_iff]
  intro heq
  apply hij
  rw [← t.home i e he, ← t.home j e' he', κ.hash_eq _ _ heq]

/-- Other buckets, and another way to them. -/
def rehash (size : Nat) (slot : Nat → Fin size) : HashTable κ V where
  size := size
  slot := slot
  bucket := fun i => t.entries.filter fun e => slot (κ.hash e.1) = i
  home := fun _ _ he => of_decide_eq_true (List.mem_filter.mp he).2
  apart := fun _ => t.apart_entries.sublist List.filter_sublist

/-! ### What is found -/

section Find

variable {t} {k k' : K} {v : V}

theorem find_empty (size : Nat) (slot : Nat → Fin size) (k : K) :
    (empty size slot : HashTable κ V).find k = none := rfl

/-- Keys in another bucket are other keys. -/
theorem not_equals_of_slot (h : t.slot (κ.hash k') ≠ t.slot (κ.hash k)) :
    ¬ κ.equals k k' = true := fun heq => h (by rw [κ.hash_eq _ _ heq])

/-- A bucket that is exchanged decides about the keys that have it. -/
theorem find_setBucket {es : List (K × V)}
    (hhome : ∀ e ∈ es, e.1 = k ∨ ∃ e' ∈ t.bucket (t.slot (κ.hash k)), e'.1 = e.1)
    (hapart : κ.Apart es) (k' : K) : (t.setBucket k es hhome hapart).find k'
      = if t.slot (κ.hash k') = t.slot (κ.hash k) then κ.lookup k' es else t.find k' := by
  show κ.lookup k' (Function.update t.bucket (t.slot (κ.hash k)) es (t.slot (κ.hash k'))) = _
  by_cases hslot : t.slot (κ.hash k') = t.slot (κ.hash k)
  · rw [hslot, Function.update_self, if_pos rfl]
  · rw [Function.update_of_ne hslot, if_neg hslot]
    rfl

theorem find_insert (t : HashTable κ V) (k k' : K) (v : V) :
    (t.insert k v).find k' = if κ.equals k k' then some v else t.find k' := by
  rw [insert, find_setBucket, Keying.lookup_put]
  by_cases hslot : t.slot (κ.hash k') = t.slot (κ.hash k)
  · rw [if_pos hslot, ← hslot]
    rfl
  · rw [if_neg hslot, if_neg (not_equals_of_slot hslot)]

theorem find_erase (t : HashTable κ V) (k k' : K) :
    (t.erase k).find k' = if κ.equals k k' then none else t.find k' := by
  rw [erase, find_setBucket, Keying.lookup_remove k k' (t.apart _)]
  by_cases hslot : t.slot (κ.hash k') = t.slot (κ.hash k)
  · rw [if_pos hslot, ← hslot]
    rfl
  · rw [if_neg hslot, if_neg (not_equals_of_slot hslot)]

theorem find_eq_some_iff :
    t.find k = some v ↔ ∃ e ∈ t.entries, κ.equals e.1 k = true ∧ e.2 = v := by
  unfold find
  rw [Keying.lookup_eq_some_iff (t.apart _)]
  constructor
  · rintro ⟨e, he, hk, hv⟩
    exact ⟨e, (mem_entries t).mpr ⟨_, he⟩, hk, hv⟩
  · rintro ⟨e, he, hk, hv⟩
    obtain ⟨i, he⟩ := (mem_entries t).mp he
    refine ⟨e, ?_, hk, hv⟩
    rw [← κ.hash_eq _ _ hk, t.home i e he]
    exact he

theorem find_rehash (t : HashTable κ V) (size : Nat) (slot : Nat → Fin size) (k : K) :
    (t.rehash size slot).find k = t.find k := by
  have hentries (e : K × V) : e ∈ (t.rehash size slot).entries ↔ e ∈ t.entries := by
    rw [mem_entries (t.rehash size slot)]
    constructor
    · rintro ⟨i, he⟩
      exact (List.mem_filter.mp he).1
    · intro he
      exact ⟨slot (κ.hash e.1), List.mem_filter.mpr ⟨he, decide_eq_true rfl⟩⟩
  ext v
  rw [find_eq_some_iff, find_eq_some_iff]
  simp only [hentries]

end Find

/-! ### Sequences of calls -/

inductive Call (K V : Type) where
  | insert (k : K) (v : V)
  | erase (k : K)
  | find (k : K)
  | rehash (size : Nat) (slot : Nat → Fin size)

/-- What the calls of `find` return. -/
def results (t : HashTable κ V) : List (Call K V) → List (Option V)
  | [] => []
  | .insert k v :: calls => results (t.insert k v) calls
  | .erase k :: calls => results (t.erase k) calls
  | .find k :: calls => t.find k :: results t calls
  | .rehash size slot :: calls => results (t.rehash size slot) calls

section Logical

variable [DecidableEq L] (key : K → L)

/-- What they return of a finite map on what the keys stand for. -/
def mapResults (m : Finmap fun _ : L => V) : List (Call K V) → List (Option V)
  | [] => []
  | .insert k v :: calls => mapResults (m.insert (key k) v) calls
  | .erase k :: calls => mapResults (m.erase (key k)) calls
  | .find k :: calls => m.lookup (key k) :: mapResults m calls
  | .rehash _ _ :: calls => mapResults m calls

/-- The table has the entries of the map. -/
def Represents (t : HashTable κ V) (m : Finmap fun _ : L => V) : Prop :=
  ∀ k, t.find k = m.lookup (key k)

variable {key} {t : HashTable κ V} {m : Finmap fun _ : L => V}

theorem represents_insert (hkey : ∀ a b, κ.equals a b = true ↔ key a = key b)
    (h : Represents key t m) (k : K) (v : V) :
    Represents key (t.insert k v) (m.insert (key k) v) := by
  intro k'
  rw [find_insert]
  by_cases hk : key k = key k'
  · rw [if_pos ((hkey k k').mpr hk), hk, Finmap.lookup_insert]
  · rw [if_neg fun heq => hk ((hkey k k').mp heq), h k',
      Finmap.lookup_insert_of_ne m (Ne.symm hk)]

theorem represents_erase (hkey : ∀ a b, κ.equals a b = true ↔ key a = key b)
    (h : Represents key t m) (k : K) : Represents key (t.erase k) (m.erase (key k)) := by
  intro k'
  rw [find_erase]
  by_cases hk : key k = key k'
  · rw [if_pos ((hkey k k').mpr hk), hk, Finmap.lookup_erase]
  · rw [if_neg fun heq => hk ((hkey k k').mp heq), h k', Finmap.lookup_erase_ne (Ne.symm hk)]

/-- **A table cannot be told from the map it represents.** -/
theorem results_eq (hkey : ∀ a b, κ.equals a b = true ↔ key a = key b) (calls : List (Call K V)) :
    ∀ (t : HashTable κ V) (m : Finmap fun _ : L => V), Represents key t m →
      results t calls = mapResults key m calls := by
  induction calls with
  | nil =>
      intro t m _
      rfl
  | cons call calls ih =>
      intro t m h
      cases call with
      | insert k v => exact ih _ _ (represents_insert hkey h k v)
      | erase k => exact ih _ _ (represents_erase hkey h k)
      | find k =>
          rw [results, mapResults, h k, ih t m h]
      | rehash size slot =>
          refine ih _ _ fun k => ?_
          rw [find_rehash]
          exact h k

end Logical

end HashTable
