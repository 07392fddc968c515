/-
`UdcAddressMap` is a map on addresses.

The hash reads four bytes of the union through its IPv4 member for both families, and the
comparison looks only at the member that the tag names.  What is compared always includes
what is hashed, so that the two make up a `Keying`, and the table of
`Lib/HashTable.lean` with them is the finite map which the server's model has in its place.
-/
import UdpConnect.AddressHash

namespace UdpConnect

open Memory UdcAddressMux HashTable

namespace UdcAddressMap

section Keys

variable {a b : Layout}

/-- **Two addresses are equal if family, port and the bytes of that family are.** -/
theorem compareEquals_iff : compareEquals a b = true ↔
    a.family = b.family ∧ a.active = b.active ∧ a.port = b.port := by
  unfold compareEquals Layout.active
  by_cases hfamily : a.family = b.family
  · rw [if_neg (not_not.mpr hfamily), ← hfamily]
    by_cases hport : a.port = b.port
    · rw [if_neg (not_not.mpr hport)]
      cases a.family <;> simp [hport]
    · simp [hport]
  · simp [hfamily]

theorem mux_eq_iff : a.mux = b.mux ↔
    a.family = b.family ∧ a.active = b.active ∧ a.port = b.port := by
  obtain ⟨family, address, port⟩ := a
  obtain ⟨family', address', port'⟩ := b
  cases family <;> cases family' <;>
    simp [Layout.mux, Layout.active, UdcAddressUnion.ipv4, UdcAddressUnion.ipv6]

theorem compareEquals_iff_mux : compareEquals a b = true ↔ a.mux = b.mux := by
  rw [compareEquals_iff, mux_eq_iff]

theorem compareEquals_equivalence : Equivalence fun a b => compareEquals a b = true where
  refl _ := compareEquals_iff_mux.mpr rfl
  symm h := compareEquals_iff_mux.mpr (compareEquals_iff_mux.mp h).symm
  trans h h' := compareEquals_iff_mux.mpr
    ((compareEquals_iff_mux.mp h).trans (compareEquals_iff_mux.mp h'))

/-- The bytes that are hashed are the first of those that are compared. -/
theorem hasher_eq_active (x : Layout) : hasher x = ofLe32 (x.active.take 4) := by
  obtain ⟨family, address, port⟩ := x
  cases family with
  | ipv4 =>
      have htake : address.ipv4.octets.take 4 = address.ipv4.octets :=
        List.take_of_length_le (Nat.le_of_eq address.ipv4.size)
      exact congrArg ofLe32 htake.symm
  | ipv6 => rfl

theorem hasher_eq (a b : Layout) (h : compareEquals a b = true) : hasher a = hasher b := by
  rw [hasher_eq_active, hasher_eq_active, (compareEquals_iff.mp h).2.1]

/-- What a reception leaves in the variable stands for the source, whatever was there before. -/
theorem mux_receive (x : Layout) (ip : UdcAddressIPv4) (ip' : UdcAddressIPv6) (port : UInt16) :
    (x.receiveIPv4 ip port).mux = ⟨.ipv4 ip, port⟩ ∧
      (Layout.receiveIPv6 ip' port).mux = ⟨.ipv6 ip', port⟩ := by
  have hip : (x.address.setIPv4 ip).ipv4 = ip := by
    obtain ⟨octets, hsize⟩ := ip
    simp [UdcAddressUnion.setIPv4, UdcAddressUnion.ipv4, List.take_left' hsize]
  refine ⟨?_, rfl⟩
  show (⟨.ipv4 (x.address.setIPv4 ip).ipv4, port⟩ : UdcAddressMux) = _
  rw [hip]

end Keys

def keying : Keying Layout := ⟨hasher, compareEquals, compareEquals_equivalence, hasher_eq⟩

/-- What `UdcAddressMap<T>` is behind its `m_map`: an `std::unordered_map`. -/
abbrev Table (T : Type) := HashTable keying T

/-- What makes the table a map on addresses. -/
structure IsMap (T : Type) : Prop where
  equivalence : Equivalence fun a b => compareEquals a b = true
  identifies : ∀ a b, compareEquals a b = true ↔
    a.family = b.family ∧ a.active = b.active ∧ a.port = b.port
  hash : ∀ a b, compareEquals a b = true → hasher a = hasher b
  results : ∀ (size : Nat) (slot : Nat → Fin size) (calls : List (Call Layout T)),
    results (empty size slot : Table T) calls = mapResults Layout.mux (∅ : UdcAddressMap T) calls

/--
**`UdcAddressMap` is a map on addresses**, whatever the bytes hold that no family's tag names,
however many buckets there are and whenever that changes.
-/
theorem addressMap_isMap (T : Type) : IsMap T := by
  refine ⟨compareEquals_equivalence, fun _ _ => compareEquals_iff, hasher_eq, ?_⟩
  intro size slot calls
  apply results_eq (fun _ _ => compareEquals_iff_mux)
  intro k
  rw [find_empty, Finmap.lookup_empty]

end UdcAddressMap

end UdpConnect
