import AddressPlan.Net.Block
import AddressPlan.Proofs.Net.Network

/-!
Spans and blocks as sets of addresses. What a span keeps below and above another one, and what it keeps when the
other is taken out, is told by membership; so is when one block holds or meets another.
-/

namespace AddressPlan.Net

namespace Span

variable {s t u : Span} {a : Address} {n : Nat}

@[simp] theorem mem_ofNetwork {n : Network} : a ∈ ofNetwork n ↔ a ∈ n := Iff.rfl

theorem start_mem (s : Span) : s.start ∈ s :=
  ⟨rfl, Nat.le_refl _, s.first_le_last⟩

theorem stop_mem (s : Span) : s.stop ∈ s :=
  ⟨rfl, s.first_le_last, Nat.le_refl _⟩

theorem subset_iff : (∀ a ∈ t, a ∈ s) ↔ t.family = s.family ∧ s.first ≤ t.first ∧ t.last ≤ s.last := by
  constructor
  · intro h
    have hstart := mem_iff.mp (h _ t.start_mem)
    have hstop := mem_iff.mp (h _ t.stop_mem)
    exact ⟨hstart.1, hstart.2.1, hstop.2.2⟩
  · rintro ⟨hf, h1, h2⟩ a ⟨haf, ha1, ha2⟩
    exact ⟨haf.trans hf, Nat.le_trans h1 ha1, Nat.le_trans ha2 h2⟩

theorem contains_iff : s.contains t = true ↔ ∀ a ∈ t, a ∈ s := by
  rw [subset_iff]
  simp only [contains, Bool.and_eq_true, beq_iff_eq, decide_eq_true_eq, and_assoc, eq_comm (a := s.family)]

theorem meets_iff : s.meets t = true ↔ ∃ a, a ∈ s ∧ a ∈ t := by
  simp only [meets, Bool.and_eq_true, beq_iff_eq, decide_eq_true_eq, and_assoc]
  constructor
  · rintro ⟨hf, h1, h2⟩
    rcases Nat.le_total s.first t.first with h | h
    · exact ⟨t.start, ⟨hf.symm, h, h2⟩, t.start_mem⟩
    · exact ⟨s.start, s.start_mem, ⟨hf, h, h1⟩⟩
  · rintro ⟨a, hs, ht⟩
    exact ⟨hs.1.symm.trans ht.1, Nat.le_trans hs.2.1 ht.2.2, Nat.le_trans ht.2.1 hs.2.2⟩

/-! ### What lies below and above -/

theorem belowValue?_eq_some (h : s.belowValue? n = some u) :
    u.family = s.family ∧ u.first = s.first ∧ u.last = min (n - 1) s.last ∧ s.first < n := by
  unfold belowValue? at h
  split at h
  · cases h
    exact ⟨rfl, rfl, rfl, by assumption⟩
  · cases h

theorem belowValue?_eq_none : s.belowValue? n = none ↔ n ≤ s.first := by
  unfold belowValue?
  split <;> simp <;> omega

theorem aboveValue?_eq_some (h : s.aboveValue? n = some u) :
    u.family = s.family ∧ u.first = max (n + 1) s.first ∧ u.last = s.last ∧ n < s.last := by
  unfold aboveValue? at h
  split at h
  · cases h
    exact ⟨rfl, rfl, rfl, by assumption⟩
  · cases h

theorem aboveValue?_eq_none : s.aboveValue? n = none ↔ s.last ≤ n := by
  unfold aboveValue?
  split <;> simp <;> omega

theorem mem_belowValue? : (∃ u, s.belowValue? n = some u ∧ a ∈ u) ↔ a ∈ s ∧ a.value < n := by
  constructor
  · rintro ⟨u, hu, hf, h1, h2⟩
    obtain ⟨huf, hu1, hu2, hlt⟩ := belowValue?_eq_some hu
    exact ⟨⟨hf.trans huf, by omega, by omega⟩, by omega⟩
  · rintro ⟨⟨hf, h1, h2⟩, hlt⟩
    cases hu : s.belowValue? n with
    | none =>
      have := belowValue?_eq_none.mp hu
      omega
    | some u =>
      obtain ⟨huf, hu1, hu2, -⟩ := belowValue?_eq_some hu
      exact ⟨u, rfl, hf.trans huf.symm, by omega, by omega⟩

theorem mem_aboveValue? : (∃ u, s.aboveValue? n = some u ∧ a ∈ u) ↔ a ∈ s ∧ n < a.value := by
  constructor
  · rintro ⟨u, hu, hf, h1, h2⟩
    obtain ⟨huf, hu1, hu2, hlt⟩ := aboveValue?_eq_some hu
    exact ⟨⟨hf.trans huf, by omega, by omega⟩, by omega⟩
  · rintro ⟨⟨hf, h1, h2⟩, hlt⟩
    cases hu : s.aboveValue? n with
    | none =>
      have := aboveValue?_eq_none.mp hu
      omega
    | some u =>
      obtain ⟨huf, hu1, hu2, -⟩ := aboveValue?_eq_some hu
      exact ⟨u, rfl, hf.trans huf.symm, by omega, by omega⟩

/-- What a span keeps when another is taken out are the addresses that the other does not have. -/
theorem mem_minus : (∃ u ∈ s.minus t, a ∈ u) ↔ a ∈ s ∧ a ∉ t := by
  unfold minus
  split
  · rename_i hm
    have hfam : s.family = t.family := by
      obtain ⟨b, hs, ht⟩ := meets_iff.mp hm
      exact hs.1.symm.trans ht.1
    have hout : a ∈ s → (a ∉ t ↔ a.value < t.first ∨ t.last < a.value) := fun hs => by
      rw [mem_iff, hs.1.trans hfam]
      simp only [true_and]
      omega
    have hsplit : (∃ u ∈ (s.below? t).toList ++ (s.above? t).toList, a ∈ u) ↔
        (∃ u, s.belowValue? t.first = some u ∧ a ∈ u) ∨ ∃ u, s.aboveValue? t.last = some u ∧ a ∈ u := by
      simp only [List.mem_append, Option.mem_toList, or_and_right, exists_or, below?, above?]
    rw [hsplit, mem_belowValue?, mem_aboveValue?]
    constructor
    · rintro (⟨hs, h⟩ | ⟨hs, h⟩)
      · exact ⟨hs, (hout hs).mpr (Or.inl h)⟩
      · exact ⟨hs, (hout hs).mpr (Or.inr h)⟩
    · rintro ⟨hs, ht⟩
      exact ((hout hs).mp ht).imp (⟨hs, ·⟩) (⟨hs, ·⟩)
  · rename_i hm
    simp only [List.mem_singleton, exists_eq_left]
    exact ⟨fun hs => ⟨hs, fun ht => hm (meets_iff.mpr ⟨a, hs, ht⟩)⟩, And.left⟩

theorem between_eq_ok {start stop : Address} (h : between start stop = .ok s) :
    start.family = stop.family ∧ s.family = start.family ∧ s.first = start.value ∧ s.last = stop.value := by
  unfold between at h
  split at h
  · rename_i hf
    split at h
    · cases h
      exact ⟨hf, hf.symm, rfl, rfl⟩
    · cases h
  · cases h

/-- A span lies between two addresses exactly if they are its ends. -/
theorem between_eq_ok_iff {x y : Address} : between x y = .ok s ↔ s.start = x ∧ s.stop = y := by
  constructor
  · intro h
    obtain ⟨hf, hs, hfirst, hlast⟩ := between_eq_ok h
    exact ⟨Address.ext_value hs hfirst, Address.ext_value (hs.trans hf) hlast⟩
  · rintro ⟨rfl, rfl⟩
    have hle : s.start.value ≤ s.stop.value := s.first_le_last
    exact (if_pos rfl).trans (dif_pos hle)

end Span

namespace Block

variable {b c : Block} {a : Address} {n : Network}

@[simp] theorem mem_network : a ∈ network n ↔ a ∈ n := Iff.rfl

@[simp] theorem mem_range {s : Span} : a ∈ range s ↔ a ∈ s := Iff.rfl

@[simp] theorem mem_ofNetwork : a ∈ ofNetwork n ↔ a ∈ n :=
  Network.mem_truncate

@[simp] theorem mem_host {x : Address} : a ∈ host x ↔ a = x :=
  Network.mem_host

theorem contains_iff : b.contains c = true ↔ ∀ a ∈ c, a ∈ b :=
  Span.contains_iff

theorem meets_iff : b.meets c = true ↔ ∃ a, a ∈ b ∧ a ∈ c :=
  Span.meets_iff

@[simp] theorem containsAddress_iff : b.containsAddress a = true ↔ a ∈ b :=
  decide_eq_true_iff

/-- A network is written with its lowest address. A range has only one form. -/
def Canonical : Block → Prop
  | network n => n.Aligned
  | range _ => True

theorem canonical_ofNetwork (n : Network) : (ofNetwork n).Canonical :=
  n.aligned_truncate

end Block

end AddressPlan.Net
