/-
Blocks of memory as lists.

`memcpy` copies a list of elements into a block at an offset and never changes
the size of the block: what would fall past the end is not written.  Everything
a serialiser needs afterwards is one of three readings: what is read back where
the copy went (`slice_memcpy_self`), what is read in front of it
(`take_memcpy_of_le`), and what a copy to the very front leaves (`memcpy_zero`).

The second half is the little-endian layout of a 32-bit word.
-/
import Mathlib.Data.List.TakeDrop
import Mathlib.Tactic.Linarith

namespace Memory

variable {α : Type}

/-- Copy `data` into `block` at `offset`, within the block. -/
def memcpy (block : List α) (offset : Nat) (data : List α) : List α :=
  block.take offset ++ (data.take (block.length - offset) ++ block.drop (offset + data.length))

/-- The `size` elements of `block` that start at `offset`. -/
def slice (block : List α) (offset size : Nat) : List α := (block.drop offset).take size

@[simp] theorem length_memcpy (block : List α) (offset : Nat) (data : List α) :
    (memcpy block offset data).length = block.length := by
  simp only [memcpy, List.length_append, List.length_take, List.length_drop]
  omega

@[simp] theorem length_slice (block : List α) (offset size : Nat) :
    (slice block offset size).length = min size (block.length - offset) := by
  simp [slice]

/-- A copy leaves what stands in front of it. -/
theorem take_memcpy_of_le (block : List α) {offset n : Nat} (data : List α) (h : n ≤ offset) :
    (memcpy block offset data).take n = block.take n := by
  rw [memcpy, List.take_append, List.take_take, Nat.min_eq_left h]
  rcases Nat.le_total n block.length with hn | hn
  · rw [List.length_take, Nat.sub_eq_zero_of_le (Nat.le_min.mpr ⟨h, hn⟩)]
    simp
  · have hoff : block.length ≤ offset := Nat.le_trans hn h
    have hroom : block.length - offset = 0 := Nat.sub_eq_zero_of_le hoff
    have hrest : block.drop (offset + data.length) = [] :=
      List.drop_eq_nil_of_le (Nat.le_trans hoff (Nat.le_add_right _ _))
    simp [hroom, hrest]

/-- A copy to the front of a block, when it fits. -/
theorem memcpy_zero {block data : List α} (h : data.length ≤ block.length) :
    memcpy block 0 data = data ++ block.drop data.length := by
  simp [memcpy, List.take_of_length_le h]

/-- What was copied is read back. -/
theorem slice_memcpy_self {block data : List α} {offset : Nat}
    (h : offset + data.length ≤ block.length) :
    slice (memcpy block offset data) offset data.length = data := by
  have hlen : (block.take offset).length = offset := by
    rw [List.length_take]; omega
  have hdata : data.take (block.length - offset) = data :=
    List.take_of_length_le (by omega)
  rw [slice, memcpy, hdata, List.drop_append, hlen, Nat.sub_self, List.drop_zero,
    List.drop_eq_nil_of_le (Nat.le_of_eq hlen), List.nil_append, List.take_left']
  rfl

/-- The leading elements of a block right after a copy: what was there, then the copy. -/
theorem take_memcpy_self {block data : List α} {offset : Nat}
    (h : offset + data.length ≤ block.length) :
    (memcpy block offset data).take (offset + data.length) = block.take offset ++ data := by
  rw [List.take_add, take_memcpy_of_le block data (Nat.le_refl offset)]
  congr 1
  exact slice_memcpy_self h

/-- A slice behind everything a copy wrote is what it was. -/
theorem slice_memcpy_of_le (block : List α) {offset start size : Nat} (data : List α)
    (h : offset + data.length ≤ start) (hin : offset + data.length ≤ block.length) :
    slice (memcpy block offset data) start size = slice block start size := by
  have hlen : (block.take offset ++ data).length = offset + data.length := by
    rw [List.length_append, List.length_take]; omega
  have hdata : data.take (block.length - offset) = data := List.take_of_length_le (by omega)
  rw [slice, slice, memcpy, hdata, ← List.append_assoc, List.drop_append, hlen,
    List.drop_eq_nil_of_le (by omega), List.nil_append, List.drop_drop]
  congr 2
  omega

/-! ### Words in little-endian layout -/

/-- The four bytes of a 32-bit word, least significant first. -/
def le32 (n : Nat) : List UInt8 :=
  [UInt8.ofNat n, UInt8.ofNat (n / 256), UInt8.ofNat (n / 65536), UInt8.ofNat (n / 16777216)]

/-- The word whose bytes stand at the front of `bytes`. -/
def ofLe32 : List UInt8 → Nat
  | b₀ :: b₁ :: b₂ :: b₃ :: _ =>
      b₀.toNat + 256 * b₁.toNat + 65536 * b₂.toNat + 16777216 * b₃.toNat
  | _ => 0

@[simp] theorem length_le32 (n : Nat) : (le32 n).length = 4 := rfl

/-- Reading a written word gives it back, modulo `2 ^ 32`. -/
theorem ofLe32_le32 (n : Nat) : ofLe32 (le32 n) = n % 2 ^ 32 := by
  simp only [le32, ofLe32, UInt8.toNat_ofNat']
  omega

theorem ofLe32_lt (bytes : List UInt8) : ofLe32 bytes < 2 ^ 32 := by
  match bytes with
  | b₀ :: b₁ :: b₂ :: b₃ :: _ =>
      have h₀ := b₀.toNat_lt
      have h₁ := b₁.toNat_lt
      have h₂ := b₂.toNat_lt
      have h₃ := b₃.toNat_lt
      simp only [ofLe32]
      omega
  | [] | [_] | [_, _] | [_, _, _] => simp [ofLe32]

/-- Writing a word that was read gives its four bytes back. -/
theorem le32_ofLe32 {bytes : List UInt8} (h : bytes.length = 4) : le32 (ofLe32 bytes) = bytes := by
  match bytes, h with
  | [b₀, b₁, b₂, b₃], _ =>
      have h₀ := b₀.toNat_lt
      have h₁ := b₁.toNat_lt
      have h₂ := b₂.toNat_lt
      have h₃ := b₃.toNat_lt
      have e₀ : (ofLe32 [b₀, b₁, b₂, b₃]) % 256 = b₀.toNat := by simp only [ofLe32]; omega
      have e₁ : (ofLe32 [b₀, b₁, b₂, b₃]) / 256 % 256 = b₁.toNat := by simp only [ofLe32]; omega
      have e₂ : (ofLe32 [b₀, b₁, b₂, b₃]) / 65536 % 256 = b₂.toNat := by
        simp only [ofLe32]; omega
      have e₃ : (ofLe32 [b₀, b₁, b₂, b₃]) / 16777216 % 256 = b₃.toNat := by
        simp only [ofLe32]; omega
      have byte : ∀ {n : Nat} {b : UInt8}, n % 256 = b.toNat → UInt8.ofNat n = b := by
        intro n b hn
        apply UInt8.toNat_inj.mp
        rw [UInt8.toNat_ofNat', ← hn]
      simp only [le32]
      rw [byte e₀, byte e₁, byte e₂, byte e₃]

end Memory
