import AddressPlan.Proofs.Catalog.Scope

/-!
Which prefixes are children of a prefix. Networks that share an address are nested, so the test whether a longer prefix lies
inside a prefix finds every one that shares an address with it.
-/

namespace AddressPlan

open Net

namespace Catalog

variable {c : Catalog} {p q : PrefixRecord}

theorem contains_iff_shared (h : p.network.length < q.network.length) :
    p.block.contains q.block = true ↔ ∃ a, p.network.Covers a ∧ q.network.Covers a := by
  simp only [Block.contains_iff, PrefixRecord.block, Block.mem_ofNetwork, Network.covers_iff_mem]
  exact Network.subset_iff_meets (Nat.le_of_lt h)

theorem mem_childPrefixes_iff_shared : q ∈ c.childPrefixes p ↔ q ∈ c.prefixes ∧ q.id ≠ p.id ∧ p.Sees q.vrf ∧
    p.network.length < q.network.length ∧ ∃ a, p.network.Covers a ∧ q.network.Covers a := by
  simp only [mem_childPrefixes, Network.covers_iff_mem]
  constructor
  · rintro ⟨hmem, hid, hlength, hin, hsees⟩
    exact ⟨hmem, hid, hsees, hlength, (Network.subset_iff_meets (Nat.le_of_lt hlength)).mp hin⟩
  · rintro ⟨hmem, hid, hsees, hlength, hshared⟩
    exact ⟨hmem, hid, hlength, (Network.subset_iff_meets (Nat.le_of_lt hlength)).mpr hshared, hsees⟩

/-- What is asked of blocks by their bounds holds of their addresses, whatever their shape, and never across families.
Networks share an address exactly if one of them holds the other. So the children of a prefix are all longer prefixes that
count for it and share an address with it. -/
theorem predicates_exact :
    (∀ (b : Block) (a : Address), b.containsAddress a = true ↔ b.Covers a) ∧
    (∀ b c : Block, b.contains c = true ↔ ∀ a, c.Covers a → b.Covers a) ∧
    (∀ b c : Block, b.meets c = true ↔ ∃ a, b.Covers a ∧ c.Covers a) ∧
    (∀ b c : Block, b.meets c = c.meets b) ∧
    (∀ (b : Block) (a : Address), b.containsAddress a = true → a.family = b.family) ∧
    (∀ b c : Block, b.contains c = true ∨ b.meets c = true → b.family = c.family) ∧
    (∀ m n : Network, (Block.network m).meets (.network n) = true ↔
      (Block.network m).contains (.network n) = true ∨ (Block.network n).contains (.network m) = true) ∧
    (∀ p q : PrefixRecord, p.network.length < q.network.length →
      (p.block.contains q.block = true ↔ ∃ a, p.network.Covers a ∧ q.network.Covers a)) ∧
    ∀ (c : Catalog) (p q : PrefixRecord), q ∈ c.childPrefixes p ↔ q ∈ c.prefixes ∧ q.id ≠ p.id ∧ p.Sees q.vrf ∧
      p.network.length < q.network.length ∧ ∃ a, p.network.Covers a ∧ q.network.Covers a := by
  refine ⟨fun _ _ => Block.containsAddress_iff_covers, fun _ _ => Block.contains_iff_covers, fun _ _ => Block.meets_iff_covers,
    Block.meets_comm, fun b a ha => (Block.containsAddress_iff.mp ha).1, fun b c h => ?_, fun _ _ => Block.meets_network_iff,
    fun _ _ => contains_iff_shared, fun _ _ _ => mem_childPrefixes_iff_shared⟩
  rcases h with h | h
  · exact Block.family_of_meets (Block.meets_of_contains h)
  · exact Block.family_of_meets h

/-- The half of a prefix shares its lowest address with it, so it lies inside it and is a child of it. -/
theorem predicates_exact_nested :
    let p : PrefixRecord := ⟨1, tenNet 24, none, .active, .blank, epoch⟩
    let q : PrefixRecord := ⟨2, tenNet 25, none, .active, .blank, epoch⟩
    p.network.length < q.network.length ∧ (∃ a, p.network.Covers a ∧ q.network.Covers a) ∧
    p.block.contains q.block = true ∧ p.block.family = q.block.family ∧ q ∈ nested.childPrefixes p ∧
    p.block.containsAddress (tenNet 25).lowest = true ∧ (tenNet 25).lowest.family = p.block.family := by
  intro p q
  obtain ⟨-, -, -, -, haddress, hfamily, -, hshared, hchildren⟩ := predicates_exact
  have hlength : p.network.length < q.network.length := by decide
  have hsub : ∀ a ∈ q.network, a ∈ p.network := Network.subset_iff.mpr ⟨rfl, by decide +kernel, by decide +kernel⟩
  have hlowest := hsub _ q.network.lowest_mem
  have hboth : ∃ a, p.network.Covers a ∧ q.network.Covers a :=
    ⟨_, Network.covers_iff_mem.mpr hlowest, Network.covers_iff_mem.mpr q.network.lowest_mem⟩
  have hin := (hshared p q hlength).mpr hboth
  have hchild := (hchildren nested p q).mpr
    ⟨List.mem_cons_of_mem _ List.mem_cons_self, by decide, Or.inr rfl, hlength, hboth⟩
  have hinside := Block.containsAddress_iff.mpr (Block.mem_ofNetwork.mpr hlowest)
  exact ⟨hlength, hboth, hin, hfamily _ _ (Or.inl hin), hchild, hinside, haddress _ _ hinside⟩

end Catalog

end AddressPlan
