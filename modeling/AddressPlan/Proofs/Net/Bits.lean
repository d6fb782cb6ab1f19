import AddressPlan.Proofs.Net.Span

/-!
The addresses of a block, told without its bounds: a network has those that agree with it in their leading bits. What is asked
of the bounds of blocks is asked of these addresses.
-/

namespace AddressPlan.Net

/-- Numbers that are equal in their highest bits are equal once the others are dropped. -/
theorem highest_bits_iff {width length u v : Nat} (hl : length ≤ width) (hu : u < 2 ^ width) (hv : v < 2 ^ width) :
    (∀ i < length, u.testBit (width - 1 - i) = v.testBit (width - 1 - i)) ↔
      u / 2 ^ (width - length) = v / 2 ^ (width - length) := by
  constructor
  · intro h
    refine Nat.eq_of_testBit_eq fun j => ?_
    rw [Nat.testBit_div_two_pow, Nat.testBit_div_two_pow]
    rcases Nat.lt_or_ge (j + (width - length)) width with hj | hj
    · have hplace : width - 1 - (width - 1 - (j + (width - length))) = j + (width - length) := by omega
      rw [← hplace]
      exact h _ (by omega)
    · have hpow : 2 ^ width ≤ 2 ^ (j + (width - length)) := Nat.pow_le_pow_right (by omega) hj
      rw [Nat.testBit_lt_two_pow (Nat.lt_of_lt_of_le hu hpow), Nat.testBit_lt_two_pow (Nat.lt_of_lt_of_le hv hpow)]
  · intro h i hi
    have hplace : width - 1 - i = length - 1 - i + (width - length) := by omega
    rw [hplace, ← Nat.testBit_div_two_pow, ← Nat.testBit_div_two_pow, h]

/-- The bit of an address at a place, counted from the highest one. -/
def Address.bit (a : Address) (i : Nat) : Bool :=
  a.value.testBit (a.family.width - 1 - i)

namespace Network

variable {m n : Network} {a : Address}

/-- An address of a network has its family, and its bits as far as the length says. -/
def Covers (n : Network) (a : Address) : Prop :=
  a.family = n.family ∧ ∀ i < n.length, a.bit i = n.address.bit i

theorem mem_iff_div : a ∈ n ↔ a.family = n.family ∧ a.value / n.size = n.address.value / n.size := by
  rw [mem_iff, Nat.div_eq_iff n.size_pos]
  refine and_congr_right fun _ => and_congr_right fun _ => ?_
  have := n.size_pos
  unfold last first
  omega

theorem covers_iff_mem : n.Covers a ↔ a ∈ n := by
  rw [mem_iff_div]
  refine and_congr_right fun hf => ?_
  have hfamily : a.family = n.address.family := hf
  unfold Address.bit
  rw [hfamily]
  exact highest_bits_iff n.length_le (hfamily ▸ a.value_lt) n.address.value_lt

/-- A network that is no shorter than another lies inside it exactly if they share an address. -/
theorem subset_iff_meets (hl : m.length ≤ n.length) : (∀ a ∈ n, a ∈ m) ↔ ∃ a, a ∈ m ∧ a ∈ n := by
  constructor
  · intro h
    exact ⟨n.lowest, h _ n.lowest_mem, n.lowest_mem⟩
  · rintro ⟨a, hm, hn⟩
    exact subset_of_meets hl hm hn

/-- Networks share an address exactly if they are nested. -/
theorem meets_iff_nested : (∃ a, a ∈ m ∧ a ∈ n) ↔ (∀ a ∈ n, a ∈ m) ∨ ∀ a ∈ m, a ∈ n := by
  constructor
  · rintro ⟨a, hm, hn⟩
    rcases Nat.le_total m.length n.length with hl | hl
    · exact Or.inl (subset_of_meets hl hm hn)
    · exact Or.inr (subset_of_meets hl hn hm)
  · rintro (h | h)
    · exact ⟨n.lowest, h _ n.lowest_mem, n.lowest_mem⟩
    · exact ⟨m.lowest, m.lowest_mem, h _ m.lowest_mem⟩

end Network

namespace Block

variable {b c : Block} {a : Address}

/-- An address of a block: one of its network, or any from the first to the last of its span. -/
def Covers : Block → Address → Prop
  | network n, a => n.Covers a
  | range s, a => a.family = s.family ∧ s.first ≤ a.value ∧ a.value ≤ s.last

theorem covers_iff_mem : b.Covers a ↔ a ∈ b := by
  cases b with
  | network n => exact Network.covers_iff_mem
  | range s => exact Iff.rfl

theorem containsAddress_iff_covers : b.containsAddress a = true ↔ b.Covers a :=
  containsAddress_iff.trans covers_iff_mem.symm

theorem contains_iff_covers : b.contains c = true ↔ ∀ a, c.Covers a → b.Covers a := by
  simp only [contains_iff, covers_iff_mem]

theorem meets_iff_covers : b.meets c = true ↔ ∃ a, b.Covers a ∧ c.Covers a := by
  simp only [meets_iff, covers_iff_mem]

theorem meets_comm (b c : Block) : b.meets c = c.meets b := by
  rw [Bool.eq_iff_iff, meets_iff, meets_iff]
  simp only [and_comm]

/-- A block that holds another one shares all of its addresses with it. -/
theorem meets_of_contains (h : b.contains c = true) : b.meets c = true :=
  meets_iff.mpr ⟨c.span.start, contains_iff.mp h _ c.span.start_mem, c.span.start_mem⟩

theorem family_of_meets (h : b.meets c = true) : b.family = c.family := by
  obtain ⟨a, hb, hc⟩ := meets_iff.mp h
  exact hb.1.symm.trans hc.1

/-- Networks meet exactly if one of them holds the other. -/
theorem meets_network_iff {m n : Network} : (network m).meets (network n) = true ↔
    (network m).contains (network n) = true ∨ (network n).contains (network m) = true := by
  rw [meets_iff, contains_iff, contains_iff]
  exact Network.meets_iff_nested

end Block

end AddressPlan.Net
