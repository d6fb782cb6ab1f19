import AddressPlan.Net.Span

/-!
Networks as aligned blocks. The addresses of a network are a multiple of its size and what follows up to the
next one, so two networks of one family are nested or share nothing.
-/

namespace AddressPlan.Net

theorem Address.ext_value {a b : Address} (hf : a.family = b.family) (hv : a.value = b.value) : a = b := by
  cases a
  cases b
  cases hf
  cases hv
  rfl

namespace Network

variable {m n : Network}

/-! ### Bounds -/

theorem last_add_one (n : Network) : n.last + 1 = n.first + n.size := by
  have := n.size_pos
  unfold last
  omega

theorem first_eq (n : Network) : n.first = n.size * (n.address.value / n.size) :=
  Nat.mul_comm _ _

/-- A longer network of the same family has a size that divides the one of the shorter. -/
theorem size_dvd (hf : n.family = m.family) (hl : n.length ≤ m.length) : m.size ∣ n.size := by
  unfold size
  rw [hf]
  exact Nat.pow_dvd_pow 2 (by omega)

theorem size_le_iff (hf : n.family = m.family) : m.size ≤ n.size ↔ n.length ≤ m.length := by
  have hm := m.length_le
  have hn := n.length_le
  unfold size
  rw [Nat.pow_le_pow_iff_right (by omega : 1 < 2), hf]
  change n.length ≤ n.family.width at hn
  change m.length ≤ m.family.width at hm
  rw [hf] at hn
  omega

theorem length_eq_of_size (hf : n.family = m.family) (h : n.size = m.size) : n.length = m.length :=
  Nat.le_antisymm ((size_le_iff hf).mp (Nat.le_of_eq h.symm)) ((size_le_iff hf.symm).mp (Nat.le_of_eq h))

/-! ### Aligned networks -/

/-- The network is written with its lowest address. -/
def Aligned (n : Network) : Prop :=
  n.address.value = n.first

theorem Aligned.mod_eq_zero (h : n.Aligned) : n.address.value % n.size = 0 := by
  have hd := Nat.div_add_mod n.address.value n.size
  have : n.address.value = n.size * (n.address.value / n.size) := h.trans n.first_eq
  omega

theorem aligned_of_mod (h : n.address.value % n.size = 0) : n.Aligned := by
  have hd := Nat.div_add_mod n.address.value n.size
  rw [Aligned, first_eq]
  omega

@[simp] theorem truncate_family (n : Network) : n.truncate.family = n.family := rfl

@[simp] theorem truncate_length (n : Network) : n.truncate.length = n.length := rfl

@[simp] theorem truncate_size (n : Network) : n.truncate.size = n.size := rfl

@[simp] theorem truncate_first (n : Network) : n.truncate.first = n.first := by
  show n.first / n.size * n.size = n.first
  rw [first, Nat.mul_div_cancel _ n.size_pos]

@[simp] theorem truncate_last (n : Network) : n.truncate.last = n.last := by
  rw [last, truncate_first, truncate_size, last]

theorem aligned_truncate (n : Network) : n.truncate.Aligned :=
  n.truncate_first.symm

theorem Aligned.truncate_eq (h : n.Aligned) : n.truncate = n := by
  obtain ⟨⟨f, v, hv⟩, l, hl⟩ := n
  have hv' : first ⟨⟨f, v, hv⟩, l, hl⟩ = v := Eq.symm h
  simp only [truncate, hv', family]

theorem Aligned.ext (hn : n.Aligned) (hm : m.Aligned) (hf : n.family = m.family) (hfirst : n.first = m.first)
    (hl : n.length = m.length) : n = m := by
  obtain ⟨a, l, hl'⟩ := n
  obtain ⟨b, k, hk⟩ := m
  obtain rfl : a = b := Address.ext_value hf (hn.trans (hfirst.trans hm.symm))
  cases hl
  rfl

theorem aligned_host (a : Address) : (host a).Aligned :=
  aligned_of_mod (by simp [host, size, family, Nat.mod_one])

@[simp] theorem host_first (a : Address) : (host a).first = a.value := by
  simp [host, first, size, family]

@[simp] theorem host_last (a : Address) : (host a).last = a.value := by
  simp [last, host, first, size, family]

theorem of?_eq_some {a : Address} {l : Nat} (h : of? a l = some n) : n.address = a ∧ n.length = l := by
  unfold of? at h
  split at h
  · cases h
    exact ⟨rfl, rfl⟩
  · cases h

/-! ### Addresses of a network -/

instance : Membership Address Network :=
  ⟨fun n a => a ∈ Span.ofNetwork n⟩

theorem mem_iff {a : Address} : a ∈ n ↔ a.family = n.family ∧ n.first ≤ a.value ∧ a.value ≤ n.last :=
  Iff.rfl

theorem address_mem (n : Network) : n.address ∈ n :=
  ⟨rfl, n.first_le, n.le_last⟩

@[simp] theorem mem_truncate {a : Address} : a ∈ n.truncate ↔ a ∈ n := by
  simp only [mem_iff, truncate_family, truncate_first, truncate_last]

@[simp] theorem mem_host {a b : Address} : a ∈ host b ↔ a = b := by
  rw [mem_iff, host_first, host_last]
  constructor
  · rintro ⟨hf, h1, h2⟩
    exact Address.ext_value hf (Nat.le_antisymm h2 h1)
  · rintro rfl
    exact ⟨rfl, Nat.le_refl _, Nat.le_refl _⟩

def lowest (n : Network) : Address :=
  ⟨n.family, n.first, n.first_lt⟩

def highest (n : Network) : Address :=
  ⟨n.family, n.last, n.last_lt⟩

theorem lowest_mem (n : Network) : n.lowest ∈ n :=
  ⟨rfl, Nat.le_refl _, n.first_le_last⟩

theorem highest_mem (n : Network) : n.highest ∈ n :=
  ⟨rfl, n.first_le_last, Nat.le_refl _⟩

/-- One network lies inside another exactly when its bounds do. -/
theorem subset_iff : (∀ a ∈ n, a ∈ m) ↔ n.family = m.family ∧ m.first ≤ n.first ∧ n.last ≤ m.last := by
  constructor
  · intro h
    have hlow := mem_iff.mp (h _ n.lowest_mem)
    have hhigh := mem_iff.mp (h _ n.highest_mem)
    exact ⟨hlow.1, hlow.2.1, hhigh.2.2⟩
  · rintro ⟨hf, h1, h2⟩ a ⟨haf, ha1, ha2⟩
    exact ⟨haf.trans hf, Nat.le_trans h1 ha1, Nat.le_trans ha2 h2⟩

theorem Aligned.ext_mem (hn : n.Aligned) (hm : m.Aligned) (h : ∀ a, a ∈ n ↔ a ∈ m) : n = m := by
  obtain ⟨hf, h1, h2⟩ := subset_iff.mp fun a ha => (h a).mp ha
  obtain ⟨-, h3, h4⟩ := subset_iff.mp fun a ha => (h a).mpr ha
  have hfirst : n.first = m.first := Nat.le_antisymm h3 h1
  have hlast : n.last = m.last := Nat.le_antisymm h2 h4
  have hn1 := n.last_add_one
  have hm1 := m.last_add_one
  have hsize : n.size = m.size := by omega
  exact hn.ext hm hf hfirst (length_eq_of_size hf hsize)

theorem subset_of_meets (hl : n.length ≤ m.length) {a : Address} (hn : a ∈ n) (hm : a ∈ m) : ∀ b ∈ m, b ∈ n := by
  have hf : n.family = m.family := (mem_iff.mp hn).1.symm.trans (mem_iff.mp hm).1
  obtain ⟨k, hk⟩ := size_dvd hf hl
  obtain ⟨-, hn1, hn2⟩ := mem_iff.mp hn
  obtain ⟨-, hm1, hm2⟩ := mem_iff.mp hm
  have hn3 := n.last_add_one
  have hm3 := m.last_add_one
  have hpos := m.size_pos
  -- Both lower bounds are multiples of the smaller size.
  obtain ⟨i, hi⟩ : ∃ i, n.first = m.size * (k * i) :=
    ⟨_, by rw [← Nat.mul_assoc, ← hk]; exact n.first_eq⟩
  obtain ⟨j, hj⟩ : ∃ j, m.first = m.size * j := ⟨_, m.first_eq⟩
  have hlow : k * i < j + 1 := by
    apply Nat.lt_of_mul_lt_mul_left (a := m.size)
    rw [← hi, Nat.mul_add, ← hj]
    omega
  have hhigh : j < k * i + k := by
    apply Nat.lt_of_mul_lt_mul_left (a := m.size)
    rw [← hj, Nat.mul_add, ← hi, ← hk]
    omega
  have h1 : m.size * (k * i) ≤ m.size * j := Nat.mul_le_mul_left _ (Nat.lt_succ_iff.mp hlow)
  have h2 : m.size * (j + 1) ≤ m.size * (k * i + k) := Nat.mul_le_mul_left _ hhigh
  rw [Nat.mul_add, Nat.mul_add, ← hk, ← hi, ← hj] at h2
  rw [← hi, ← hj] at h1
  exact subset_iff.mpr ⟨hf.symm, h1, by omega⟩

/-- Two networks are nested, or they share no address. -/
theorem nested_or_disjoint (n m : Network) :
    (∀ a ∈ m, a ∈ n) ∨ (∀ a ∈ n, a ∈ m) ∨ ∀ a ∈ n, a ∉ m := by
  by_cases h : ∃ a, a ∈ n ∧ a ∈ m
  · obtain ⟨a, hn, hm⟩ := h
    rcases Nat.le_total n.length m.length with hl | hl
    · exact Or.inl (subset_of_meets hl hn hm)
    · exact Or.inr (Or.inl (subset_of_meets hl hm hn))
  · exact Or.inr (Or.inr fun a hn hm => h ⟨a, hn, hm⟩)

end Network

end AddressPlan.Net
