import AddressPlan.Proofs.Net.Order
import AddressPlan.Proofs.Net.Split
import AddressPlan.Space.Basic

/-!
What the sweep over the children leaves: spans in ascending order with a gap between any two, whose addresses
are those of the parent that no child has.
-/

namespace AddressPlan

open Net

namespace Space

variable {sp : Space} {parent : Block} {children : List Block} {a : Address}

theorem mem_iff : a ∈ sp ↔ ∃ s ∈ sp.free, a ∈ s := Iff.rfl

/-- Spans of one family in ascending order, with at least one address between any two. -/
structure Ascending (f : Family) (ss : List Span) : Prop where
  family : ∀ s ∈ ss, s.family = f
  gaps : ss.Pairwise fun s t => s.last + 1 < t.first

namespace Ascending
variable {f : Family} {s t : Span} {ss : List Span}

theorem nil : Ascending f [] :=
  ⟨fun _ hs => absurd hs List.not_mem_nil, .nil⟩

theorem cons_iff : Ascending f (s :: ss) ↔ s.family = f ∧ (∀ t ∈ ss, s.last + 1 < t.first) ∧ Ascending f ss := by
  constructor
  · rintro ⟨hf, hp⟩
    obtain ⟨hs, hss⟩ := List.forall_mem_cons.mp hf
    exact ⟨hs, (List.pairwise_cons.mp hp).1, hss, (List.pairwise_cons.mp hp).2⟩
  · rintro ⟨hs, hgap, hss, hp⟩
    exact ⟨List.forall_mem_cons.mpr ⟨hs, hss⟩, List.pairwise_cons.mpr ⟨hgap, hp⟩⟩

theorem apart (h : Ascending f ss) (hs : s ∈ ss) (ht : t ∈ ss) :
    s = t ∨ s.last + 1 < t.first ∨ t.last + 1 < s.first := by
  induction ss with
  | nil => cases hs
  | cons u ss ih =>
    obtain ⟨-, hgap, hss⟩ := cons_iff.mp h
    rcases List.mem_cons.mp hs with rfl | hs' <;> rcases List.mem_cons.mp ht with rfl | ht'
    · exact Or.inl rfl
    · exact Or.inr (Or.inl (hgap t ht'))
    · exact Or.inr (Or.inr (hgap s hs'))
    · exact ih hss hs' ht'

/-- A span whose addresses all lie in the spans lies in one of them: it cannot reach over a gap. -/
theorem subset_one (h : Ascending f ss) {t : Span} (ht : ∀ a ∈ t, ∃ s ∈ ss, a ∈ s) : ∃ s ∈ ss, ∀ a ∈ t, a ∈ s := by
  obtain ⟨s, hs, hlow⟩ := ht _ t.start_mem
  refine ⟨s, hs, ?_⟩
  by_cases hlast : t.last ≤ s.last
  · exact fun a ha => ⟨ha.1.trans hlow.1, Nat.le_trans hlow.2.1 ha.2.1, Nat.le_trans ha.2.2 hlast⟩
  · exfalso
    -- The address right above `s` would have to lie in another span.
    have hfirst : t.first ≤ s.last := hlow.2.2
    have hnext : s.last + 1 < 2 ^ t.family.width := Nat.lt_of_le_of_lt (Nat.lt_of_not_le hlast) t.last_lt
    obtain ⟨u, hu, huf, hu1, hu2⟩ := ht ⟨t.family, s.last + 1, hnext⟩ ⟨rfl, Nat.le_succ_of_le hfirst, Nat.lt_of_not_le hlast⟩
    simp only at hu1 hu2
    rcases h.apart hs hu with rfl | hgap | hgap
    · omega
    · omega
    · have := s.first_le_last
      omega

end Ascending

/-! ### The sweep -/

section Sweep
variable {rest : Span} {cuts : List Span}

theorem sweep_none (cuts : List Span) : sweep none cuts = [] := by
  cases cuts <;> rfl

theorem sweep_subset : ∀ {cuts : List Span} {rest : Span}, ∀ s ∈ sweep (some rest) cuts, ∀ a ∈ s, a ∈ rest
  | [], rest, s, hs, a, ha => by
    obtain rfl := List.mem_singleton.mp hs
    exact ha
  | cut :: cuts, rest, s, hs, a, ha => by
    rcases List.mem_append.mp hs with hs | hs
    · exact (Span.mem_belowValue?.mp ⟨s, Option.mem_toList.mp hs, ha⟩).1
    · cases habove : rest.above? cut with
      | none =>
        rw [habove, sweep_none] at hs
        cases hs
      | some above =>
        rw [habove] at hs
        exact (Span.mem_aboveValue?.mp ⟨above, habove, sweep_subset s hs a ha⟩).1

/-- Cuts in order of their first addresses leave what none of them has. -/
theorem mem_sweep : ∀ {cuts : List Span} {rest : Span}, (∀ c ∈ cuts, c.family = rest.family) →
    (cuts.Pairwise fun s t => s.first ≤ t.first) →
      ((∃ s ∈ sweep (some rest) cuts, a ∈ s) ↔ a ∈ rest ∧ ∀ c ∈ cuts, a ∉ c)
  | [], rest, _, _ => by simp [sweep]
  | cut :: cuts, rest, hf, hsort => by
    obtain ⟨hcut, hf⟩ := List.forall_mem_cons.mp hf
    obtain ⟨hle, hsort⟩ := List.pairwise_cons.mp hsort
    have habove : (∃ s ∈ sweep (rest.above? cut) cuts, a ∈ s) ↔ (a ∈ rest ∧ cut.last < a.value) ∧ ∀ c ∈ cuts, a ∉ c := by
      rw [← Span.mem_aboveValue?]
      cases hu : rest.aboveValue? cut.last with
      | none => simp [Span.above?, hu, sweep_none]
      | some u =>
        have hfu : u.family = rest.family := (Span.aboveValue?_eq_some hu).1
        have ih := mem_sweep (fun c hc => (hf c hc).trans hfu.symm) hsort
        simpa [Span.above?, hu] using ih
    have hsplit : (∃ s ∈ sweep (some rest) (cut :: cuts), a ∈ s) ↔
        (∃ s, rest.belowValue? cut.first = some s ∧ a ∈ s) ∨ ∃ s ∈ sweep (rest.above? cut) cuts, a ∈ s := by
      simp only [sweep, List.mem_append, Option.mem_toList, or_and_right, exists_or, Span.below?]
    rw [hsplit, Span.mem_belowValue?, habove, List.forall_mem_cons]
    constructor
    · rintro (⟨hr, hlt⟩ | ⟨⟨hr, hlt⟩, hno⟩)
      · refine ⟨hr, fun hc => Nat.not_le_of_lt hlt hc.2.1, fun c hc hac => ?_⟩
        exact Nat.not_le_of_lt hlt (Nat.le_trans (hle c hc) hac.2.1)
      · exact ⟨hr, fun hc => Nat.not_le_of_lt hlt hc.2.2, hno⟩
    · rintro ⟨hr, hout, hno⟩
      by_cases hlt : a.value < cut.first
      · exact Or.inl ⟨hr, hlt⟩
      · refine Or.inr ⟨⟨hr, Nat.lt_of_not_le fun hle => hout ?_⟩, hno⟩
        exact ⟨hr.1.trans hcut.symm, Nat.le_of_not_lt hlt, hle⟩

theorem sweep_ascending : ∀ {cuts : List Span} {rest : Span}, Ascending rest.family (sweep (some rest) cuts)
  | [], rest => Ascending.cons_iff.mpr ⟨rfl, fun _ ht => absurd ht List.not_mem_nil, .nil⟩
  | cut :: cuts, rest => by
    have habove : Ascending rest.family (sweep (rest.above? cut) cuts) ∧
        ∀ t ∈ sweep (rest.above? cut) cuts, cut.last + 1 ≤ t.first := by
      cases hu : rest.above? cut with
      | none =>
        rw [sweep_none]
        exact ⟨.nil, fun _ ht => absurd ht List.not_mem_nil⟩
      | some u =>
        obtain ⟨hf, h1, -, -⟩ := Span.aboveValue?_eq_some hu
        refine ⟨hf ▸ sweep_ascending, fun t ht => ?_⟩
        have := (Span.subset_iff.mp (sweep_subset t ht)).2.1
        omega
    show Ascending rest.family ((rest.below? cut).toList ++ sweep (rest.above? cut) cuts)
    cases hb : rest.below? cut with
    | none => exact habove.1
    | some u =>
      obtain ⟨hf, -, h2, h3⟩ := Span.belowValue?_eq_some hb
      refine Ascending.cons_iff.mpr ⟨hf, fun t ht => ?_, habove.1⟩
      have := habove.2 t ht
      have := cut.first_le_last
      omega

end Sweep

/-! ### Computed spaces -/

theorem meets_family {b c : Block} (h : b.meets c = true) : b.family = c.family := by
  obtain ⟨a, hb, hc⟩ := Block.meets_iff.mp h
  exact hb.1.symm.trans hc.1

theorem mem_compute : a ∈ compute parent children ↔ a ∈ parent ∧ ∀ c ∈ children, a ∉ c := by
  let cuts := children.filter fun c => c.meets parent
  have hfam : ∀ c ∈ cuts, c.family = parent.family := fun c hc => meets_family (List.mem_filter.mp hc).2
  have hfirst : ((Block.sort cuts).map Block.span).Pairwise fun s t => s.first ≤ t.first :=
    List.pairwise_map.mpr (Block.sort_first_pairwise hfam)
  have hspan : ∀ s ∈ (Block.sort cuts).map Block.span, s.family = parent.span.family := by
    intro s hs
    obtain ⟨c, hc, rfl⟩ := List.mem_map.mp hs
    exact hfam c (Block.mem_sort.mp hc)
  refine (mem_sweep hspan hfirst).trans (and_congr_right fun hp => ?_)
  constructor
  · intro h c hc ha
    have hmeets : c.meets parent = true := Block.meets_iff.mpr ⟨a, ha, hp⟩
    exact h c.span (List.mem_map_of_mem (Block.mem_sort.mpr (List.mem_filter.mpr ⟨hc, hmeets⟩))) ha
  · intro h s hs
    obtain ⟨c, hc, rfl⟩ := List.mem_map.mp hs
    exact h c (List.mem_filter.mp (Block.mem_sort.mp hc)).1

theorem compute_ascending (parent : Block) (children : List Block) :
    Ascending parent.family (compute parent children).free :=
  sweep_ascending

/-! ### The free networks -/

/-- The networks of a space are the maximal ones among its addresses. -/
theorem mem_networks_iff {f : Family} (h : Ascending f sp.free) {n : Network} : n ∈ sp.networks ↔ n.Maximal (· ∈ sp) := by
  have hsub : ∀ s ∈ sp.free, ∀ a ∈ s, a ∈ sp := fun s hs a ha => ⟨s, hs, ha⟩
  simp only [networks, List.mem_flatMap, Span.mem_split_iff]
  constructor
  · rintro ⟨s, hs, hn⟩
    refine ⟨hn.aligned, fun a ha => hsub s hs a (hn.free_of_mem a ha), fun m hm hfree hnm => ?_⟩
    obtain ⟨t, ht, hmt⟩ := h.subset_one (t := .ofNetwork m) hfree
    have hlow := hn.free_of_mem _ n.lowest_mem
    have hlow' := hmt _ (hnm _ n.lowest_mem)
    rcases h.apart hs ht with rfl | hgap | hgap
    · exact hn.eq_of_subset m hm hmt hnm
    · exact absurd (Nat.le_trans hlow'.2.1 hlow.2.2) (by omega)
    · exact absurd (Nat.le_trans hlow.2.1 hlow'.2.2) (by omega)
  · intro hn
    obtain ⟨s, hs, hns⟩ := h.subset_one (t := .ofNetwork n) hn.free_of_mem
    exact ⟨s, hs, hn.aligned, hns, fun m hm hms => hn.eq_of_subset m hm fun a ha => hsub s hs a (hms a ha)⟩

theorem networks_pairwise {f : Family} (h : Ascending f sp.free) : sp.networks.Pairwise fun m n => m.last < n.first := by
  refine List.pairwise_flatMap.mpr ⟨fun s _ => s.split_pairwise, h.gaps.imp fun {s t} hgap m hm n hn => ?_⟩
  have hm' := (s.split_subset m hm _ m.highest_mem).2.2
  have hn' := (t.split_subset n hn _ n.lowest_mem).2.1
  simp only [Network.highest, Network.lowest] at hm' hn'
  omega

end Space

end AddressPlan
