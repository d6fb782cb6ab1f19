import AddressPlan.Proofs.Net.Split

/-!
How many networks a span is cut into. From a place with enough alignment on, each piece is smaller than the one before, so
there are no more of them than the size has bits. Before that the alignment grows with each piece. Both together bound the
pieces of any span by twice the width of its family, less two.
-/

namespace AddressPlan.Net.Span

variable {s t : Span} {k : Nat}

/-- The low bits in which the addresses of the first piece differ. -/
def reach (s : Span) : Nat :=
  growth s.first s.last 0 s.family.width

theorem head_last_add_one (s : Span) : s.head.last + 1 = s.first + 2 ^ s.reach := by
  rw [s.head.last_add_one, head_first, head_size]
  rfl

theorem reach_dvd (s : Span) : 2 ^ s.reach ∣ s.first :=
  Nat.dvd_of_mod_eq_zero s.head_fits.1

theorem reach_le_size (s : Span) : 2 ^ s.reach ≤ s.size := by
  have := s.head_fits.2
  have := s.first_le_last
  show 2 ^ growth s.first s.last 0 s.family.width ≤ s.last - s.first + 1
  omega

theorem size_le (s : Span) : s.size ≤ 2 ^ s.family.width := by
  have := s.last_lt
  unfold size
  omega

theorem lt_width_of_le {n : Nat} (h : 2 ^ k ≤ n) (hn : n < 2 ^ s.family.width) : k < s.family.width :=
  (Nat.pow_lt_pow_iff_right (by decide)).mp (Nat.lt_of_le_of_lt h hn)

/-- The first piece is the largest one there is room for: with more alignment, twice as much would not fit. -/
theorem size_lt_of_dvd (h : 2 ^ (s.reach + 1) ∣ s.first) : s.size < 2 ^ (s.reach + 1) := by
  apply Nat.lt_of_not_le
  intro hle
  have hfits : Fits s.first s.last (s.reach + 1) := by
    refine ⟨Nat.mod_eq_zero_of_dvd h, ?_⟩
    have := s.first_le_last
    unfold size at hle
    omega
  have hwidth : s.reach + 1 ≤ s.family.width :=
    (Nat.pow_le_pow_iff_right (by decide)).mp (Nat.le_trans hle s.size_le)
  exact Nat.not_succ_le_self s.reach (le_growth 0 s.family.width (by rwa [Nat.zero_add]) hfits)

theorem dvd_above (h : s.aboveValue? s.head.last = some t) : 2 ^ s.reach ∣ t.first ∧ t.size + 2 ^ s.reach = s.size := by
  obtain ⟨-, hfirst, hlast⟩ := above_head h
  rw [head_last_add_one] at hfirst
  refine ⟨hfirst ▸ Nat.dvd_add s.reach_dvd (Nat.dvd_refl _), ?_⟩
  have := s.reach_le_size
  have := t.first_le_last
  have := s.first_le_last
  unfold size at *
  omega

/-- A span that starts with more alignment than its size needs has a piece for each bit of its size that is set. -/
theorem length_split_of_dvd (s : Span) : ∀ k, 2 ^ k ∣ s.first → s.size < 2 ^ k → s.split.length ≤ k := by
  have hreach : ∀ {u : Span} {k}, u.size < 2 ^ k → u.reach < k := fun {u k} hu =>
    (Nat.pow_lt_pow_iff_right (by decide)).mp (Nat.lt_of_le_of_lt u.reach_le_size hu)
  induction s using split_induction with
  | last s h =>
    intro k _ hsize
    rw [split_of_none h]
    exact Nat.succ_le_of_lt (Nat.zero_lt_of_lt (hreach hsize))
  | next s t h ih =>
    intro k hdvd hsize
    have hlt := hreach hsize
    have hsmall := size_lt_of_dvd (Nat.dvd_trans (Nat.pow_dvd_pow 2 hlt) hdvd)
    obtain ⟨htdvd, htsize⟩ := dvd_above h
    have htail := ih s.reach htdvd (by rw [Nat.pow_succ] at hsmall; omega)
    rw [split_of_some h, List.length_cons]
    omega

/-- Where the size stops the first piece, what follows has one piece for each smaller size at most. -/
theorem length_split_above (h : s.aboveValue? s.head.last = some t) (hd : 2 ^ (s.reach + 1) ∣ s.first) :
    t.split.length ≤ s.reach := by
  have hsmall := size_lt_of_dvd hd
  obtain ⟨htdvd, htsize⟩ := dvd_above h
  exact t.length_split_of_dvd s.reach htdvd (by rw [Nat.pow_succ] at hsmall; omega)

/-- Where the alignment stops the first piece, what follows starts with more of it. -/
theorem dvd_above_of_not_dvd (h : s.aboveValue? s.head.last = some t) (hd : ¬ 2 ^ (s.reach + 1) ∣ s.first) :
    2 ^ (s.reach + 1) ∣ t.first := by
  obtain ⟨-, hfirst, -⟩ := above_head h
  rw [head_last_add_one] at hfirst
  obtain ⟨m, hm⟩ := s.reach_dvd
  have hodd : m % 2 = 1 := by
    rcases Nat.mod_two_eq_zero_or_one m with heven | hodd
    · refine absurd ?_ hd
      rw [hm, Nat.pow_succ]
      exact Nat.mul_dvd_mul_left _ (Nat.dvd_of_mod_eq_zero heven)
    · exact hodd
  rw [hfirst, hm, Nat.pow_succ, show 2 ^ s.reach * m + 2 ^ s.reach = 2 ^ s.reach * (m + 1) from rfl]
  exact Nat.mul_dvd_mul_left _ (Nat.dvd_of_mod_eq_zero (by omega))

/-- Above the lowest address, alignment grows up to half the space, and then pieces become smaller. -/
theorem length_split_of_pos (s : Span) : 0 < s.first → ∀ k, k < s.family.width → 2 ^ k ∣ s.first →
    s.split.length ≤ (s.family.width - 1 - k) + (s.family.width - 1) := by
  have hwidth : ∀ f : Family, 2 ≤ f.width := by
    intro f
    cases f <;> decide
  induction s using split_induction with
  | last s h =>
    intro _ k _ _
    have := hwidth s.family
    rw [split_of_none h, List.length_singleton]
    omega
  | next s t h ih =>
    intro hpos k hk hdvd
    obtain ⟨hfamily, hfirst, -⟩ := above_head h
    rw [split_of_some h, List.length_cons]
    by_cases hd : 2 ^ (s.reach + 1) ∣ s.first
    · have htail := length_split_above h hd
      have hlt := lt_width_of_le (Nat.le_of_dvd hpos hd) (Nat.lt_of_le_of_lt s.first_le_last s.last_lt)
      omega
    · have htdvd := dvd_above_of_not_dvd h hd
      have htpos : 0 < t.first := hfirst ▸ Nat.succ_pos _
      have hlt := lt_width_of_le (Nat.le_of_dvd htpos htdvd) (Nat.lt_of_le_of_lt t.first_le_last t.last_lt)
      have hle : k ≤ s.reach := Nat.le_of_not_lt fun hlt => hd (Nat.dvd_trans (Nat.pow_dvd_pow 2 hlt) hdvd)
      have htail := ih htpos _ hlt htdvd
      rw [hfamily] at htail hlt
      omega

/-- A span is cut into one network at least, and into no more than twice the width less two. -/
theorem length_split_bounds (s : Span) : 1 ≤ s.split.length ∧ s.split.length ≤ 2 * s.family.width - 2 := by
  have hwidth : 2 ≤ s.family.width := by
    cases s.family <;> decide
  obtain ⟨n, hn, -⟩ := s.mem_split _ s.start_mem
  refine ⟨List.length_pos_of_mem hn, ?_⟩
  rcases Nat.eq_zero_or_pos s.first with hzero | hpos
  · cases h : s.aboveValue? s.head.last with
    | none =>
      rw [split_of_none h, List.length_singleton]
      omega
    | some t =>
      have htail := length_split_above h (hzero ▸ Nat.dvd_zero _)
      obtain ⟨hfamily, hfirst, -⟩ := above_head h
      rw [head_last_add_one, hzero, Nat.zero_add] at hfirst
      have hlt := lt_width_of_le (Nat.le_of_eq hfirst.symm) (Nat.lt_of_le_of_lt t.first_le_last t.last_lt)
      rw [hfamily] at hlt
      rw [split_of_some h, List.length_cons]
      omega
  · have := s.length_split_of_pos hpos 0 (by omega) (Nat.one_dvd _)
    omega

end AddressPlan.Net.Span
