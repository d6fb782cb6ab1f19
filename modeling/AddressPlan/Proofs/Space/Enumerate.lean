import AddressPlan.Proofs.Space.Compute

/-!
Enumerating free addresses. The lowest ones are taken span by span, so they ascend, and what is left out lies
above all of them.
-/

namespace AddressPlan

open Net

/-- The `k` lowest addresses that are free, or all of them if there are fewer, in ascending order. -/
structure LowestFree (free : Address → Prop) (k : Nat) (as : List Address) : Prop where
  ascending : as.Pairwise fun a b => a.value < b.value
  free_of_mem : ∀ a ∈ as, free a
  length_le : as.length ≤ k
  /-- A free address that is left out lies above the others, and there was no room for it. -/
  above : ∀ b, free b → b ∉ as → as.length = k ∧ ∀ a ∈ as, a.value < b.value

theorem LowestFree.congr {p q : Address → Prop} (h : ∀ a, p a ↔ q a) {k : Nat} {as : List Address}
    (ha : LowestFree p k as) : LowestFree q k as where
  ascending := ha.ascending
  free_of_mem a hm := (h a).mp (ha.free_of_mem a hm)
  length_le := ha.length_le
  above b hb := ha.above b ((h b).mpr hb)

theorem LowestFree.eq_nil_iff {free : Address → Prop} {k : Nat} {as : List Address} (h : LowestFree free k as) (hk : 0 < k) :
    as = [] ↔ ∀ a, ¬ free a := by
  constructor
  · rintro rfl a ha
    exact Nat.ne_of_lt hk (h.above a ha List.not_mem_nil).1
  · intro hnone
    exact List.eq_nil_iff_forall_not_mem.mpr fun a ha => hnone a (h.free_of_mem a ha)

namespace Net.Span

variable {s : Span} {a : Address} {i k : Nat}

theorem nth?_eq_some : s.nth? i = some a ↔ a.family = s.family ∧ a.value = s.first + i ∧ s.first + i ≤ s.last := by
  unfold nth?
  split
  · rename_i h
    constructor
    · intro ha
      cases ha
      exact ⟨rfl, rfl, h⟩
    · rintro ⟨hf, hv, -⟩
      exact congrArg some (Address.ext_value hf.symm hv.symm)
  · rename_i h
    refine iff_of_false ?_ fun ha => h ha.2.2
    intro ha
    cases ha

theorem mem_lowest : a ∈ s.lowest k ↔ a ∈ s ∧ a.value < s.first + k := by
  have hle := s.first_le_last
  simp only [lowest, List.mem_filterMap, List.mem_range, nth?_eq_some, size]
  constructor
  · rintro ⟨i, hi, hf, hv, hl⟩
    exact ⟨⟨hf, by omega, by omega⟩, by omega⟩
  · rintro ⟨⟨hf, h1, h2⟩, hk⟩
    exact ⟨a.value - s.first, by omega, hf, by omega, by omega⟩

theorem length_lowest (s : Span) (k : Nat) : (s.lowest k).length = min k s.size := by
  have hall : ∀ i ∈ List.range (min k s.size), (s.nth? i).isSome = true := by
    intro i hi
    rw [List.mem_range, size] at hi
    have hle := s.first_le_last
    rw [nth?, dif_pos (by omega)]
    rfl
  rw [lowest, List.length_filterMap_eq_countP, List.countP_eq_length.mpr hall, List.length_range]

theorem lowest_pairwise (s : Span) (k : Nat) : (s.lowest k).Pairwise fun a b => a.value < b.value := by
  refine List.pairwise_filterMap.mpr (List.pairwise_lt_range.imp fun {i j} hij a ha b hb => ?_)
  rw [(nth?_eq_some.mp ha).2.1, (nth?_eq_some.mp hb).2.1]
  exact Nat.add_lt_add_left hij _

end Net.Span

namespace Space

variable {f : Family} {sp : Space}

theorem lowestOf_zero : ∀ ss : List Span, lowestOf 0 ss = []
  | [] => rfl
  | s :: ss => by
    have : s.lowest 0 = [] := List.eq_nil_of_length_eq_zero (by rw [Span.length_lowest, Nat.zero_min])
    rw [lowestOf, this, Nat.zero_sub, lowestOf_zero ss, List.append_nil]

theorem lowestFree_lowestOf : ∀ {ss : List Span} (k : Nat), Ascending f ss →
    LowestFree (fun a => ∃ s ∈ ss, a ∈ s) k (lowestOf k ss)
  | [], k, _ =>
    ⟨.nil, fun _ ha => absurd ha List.not_mem_nil, Nat.zero_le _, fun _ hb => by obtain ⟨s, hs, -⟩ := hb; cases hs⟩
  | s :: ss, k, h => by
    obtain ⟨-, hgap, hss⟩ := Ascending.cons_iff.mp h
    have ih := lowestFree_lowestOf (k - s.size) hss
    have hlen := s.length_lowest k
    -- Whatever lies in a later span lies above this one.
    have hup : ∀ {a b : Address}, a ∈ s → (∃ t ∈ ss, b ∈ t) → a.value < b.value := by
      rintro a b ha ⟨t, ht, hb⟩
      have := hgap t ht
      have := ha.2.2
      have := hb.2.1
      omega
    refine ⟨?_, ?_, ?_, ?_⟩
    · refine List.pairwise_append.mpr ⟨s.lowest_pairwise k, ih.ascending, fun a ha b hb => ?_⟩
      exact hup (Span.mem_lowest.mp ha).1 (ih.free_of_mem b hb)
    · intro a ha
      rcases List.mem_append.mp ha with ha | ha
      · exact ⟨s, List.mem_cons_self, (Span.mem_lowest.mp ha).1⟩
      · obtain ⟨t, ht, hat⟩ := ih.free_of_mem a ha
        exact ⟨t, List.mem_cons_of_mem _ ht, hat⟩
    · have := ih.length_le
      rw [lowestOf, List.length_append, hlen]
      omega
    · rintro b ⟨t, ht, hbt⟩ hb
      obtain ⟨hb1, hb2⟩ := not_or.mp (mt List.mem_append.mpr hb)
      rw [lowestOf, List.length_append, hlen]
      rcases List.mem_cons.mp ht with rfl | ht
      · -- The span itself was cut short, so nothing was taken from later ones.
        have hout : t.first + k ≤ b.value := Nat.le_of_not_lt fun hlt => hb1 (Span.mem_lowest.mpr ⟨hbt, hlt⟩)
        have hk : k - t.size = 0 := by
          have := hbt.2.2
          simp only [Span.size]
          omega
        rw [hk, lowestOf_zero]
        refine ⟨by simp; omega, fun a ha => ?_⟩
        rw [List.append_nil] at ha
        exact Nat.lt_of_lt_of_le (Span.mem_lowest.mp ha).2 hout
      · obtain ⟨hfull, habove⟩ := ih.above b ⟨t, ht, hbt⟩ hb2
        refine ⟨by omega, fun a ha => ?_⟩
        rcases List.mem_append.mp ha with ha | ha
        · exact hup (Span.mem_lowest.mp ha).1 ⟨t, ht, hbt⟩
        · exact habove a ha

theorem lowestFree_lowest (h : Ascending f sp.free) (k : Nat) : LowestFree (· ∈ sp) k (sp.lowest k) :=
  lowestFree_lowestOf k h

end Space

end AddressPlan
