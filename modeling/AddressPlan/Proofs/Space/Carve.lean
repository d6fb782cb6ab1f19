import AddressPlan.Proofs.Space.Compute
import AddressPlan.Space.Carve

/-!
Carving takes what it returns out of the space and nothing else. So the networks of a batch are free and share no
address, and so are its addresses.
-/

namespace AddressPlan.Space

open Net

variable {sp left : Space} {a b : Address} {n : Network}

theorem mem_remove {c : Block} : a ∈ sp.remove c ↔ a ∈ sp ∧ a ∉ c := by
  have : a ∈ sp.remove c ↔ ∃ s ∈ sp.free, ∃ u ∈ s.minus c.span, a ∈ u := by
    simp only [mem_iff, remove, List.mem_flatMap]
    constructor
    · rintro ⟨u, ⟨s, hs, hu⟩, ha⟩
      exact ⟨s, hs, u, hu, ha⟩
    · rintro ⟨s, hs, u, hu, ha⟩
      exact ⟨u, ⟨s, hs, hu⟩, ha⟩
  rw [this]
  constructor
  · rintro ⟨s, hs, hu⟩
    obtain ⟨has, hc⟩ := Span.mem_minus.mp hu
    exact ⟨⟨s, hs, has⟩, hc⟩
  · rintro ⟨⟨s, hs, has⟩, hc⟩
    exact ⟨s, hs, Span.mem_minus.mpr ⟨has, hc⟩⟩

/-! ### Networks -/

/-- The network that fits is aligned, has the length asked for, and is free. -/
theorem fit?_eq_some {length : Nat} (h : sp.fit? length = some n) :
    n.Aligned ∧ n.length = length ∧ ∀ a ∈ n, a ∈ sp := by
  simp only [fit?, Option.bind_eq_bind, Option.bind_eq_some_iff, Option.some.injEq] at h
  obtain ⟨home, hhome, carved, hcarved, rfl⟩ := h
  obtain ⟨s, hs, hfind⟩ := List.exists_of_findSome?_eq_some hhome
  have hle : home.length ≤ length := by simpa using List.find?_some hfind
  have hfree : ∀ a ∈ home, a ∈ sp := fun a ha =>
    ⟨s, hs, (Span.mem_split_iff.mp (List.mem_of_find?_eq_some hfind)).free_of_mem a ha⟩
  obtain ⟨haddr, hlen⟩ := Network.of?_eq_some hcarved
  refine ⟨carved.aligned_truncate, hlen, fun a ha => hfree a ?_⟩
  -- The carved network is no shorter than its home and shares its first address.
  have hstart : home.truncate.address ∈ carved := haddr ▸ carved.address_mem
  exact Network.subset_of_meets (hlen ▸ hle) home.lowest_mem hstart a (Network.mem_truncate.mp ha)

theorem takeNetwork?_eq_some {length : Nat} (h : sp.takeNetwork? length = some (n, left)) :
    n.Aligned ∧ n.length = length ∧ (∀ a ∈ n, a ∈ sp) ∧ ∀ a, a ∈ left ↔ a ∈ sp ∧ a ∉ n := by
  obtain ⟨m, hm, heq⟩ := Option.map_eq_some_iff.mp h
  cases heq
  obtain ⟨hal, hlen, hfree⟩ := fit?_eq_some hm
  exact ⟨hal, hlen, hfree, fun a => mem_remove⟩

/-- The networks of a batch have the lengths asked for, in order, are free, and share no address. -/
theorem takeNetworks_eq_ok : ∀ {lengths : List Nat} {sp : Space} {ns : List Network}, sp.takeNetworks lengths = .ok ns →
    ns.map (·.length) = lengths ∧ (∀ n ∈ ns, n.Aligned ∧ ∀ a ∈ n, a ∈ sp) ∧ ns.Pairwise fun m n => ∀ a ∈ m, a ∉ n
  | [], sp, ns, h => by
    cases h
    exact ⟨rfl, fun _ hn => absurd hn List.not_mem_nil, .nil⟩
  | length :: lengths, sp, ns, h => by
    unfold takeNetworks at h
    split at h
    · cases h
    · rename_i n left ht
      obtain ⟨hal, hlen, hfree, hleft⟩ := takeNetwork?_eq_some ht
      cases hr : left.takeNetworks lengths with
      | error e => rw [hr] at h; cases h
      | ok rest =>
        rw [hr] at h
        cases h
        obtain ⟨hlens, hrest, hpair⟩ := takeNetworks_eq_ok hr
        refine ⟨by rw [List.map_cons, hlen, hlens], List.forall_mem_cons.mpr ⟨⟨hal, hfree⟩, fun m hm => ?_⟩,
          List.pairwise_cons.mpr ⟨fun m hm a ha hm' => ?_, hpair⟩⟩
        · exact ⟨(hrest m hm).1, fun a ha => ((hleft a).mp ((hrest m hm).2 a ha)).1⟩
        · exact ((hleft a).mp ((hrest m hm).2 a hm')).2 ha

/-! ### Addresses -/

/-- The address that is claimed is the only one that is gone, and no free address lies below it. -/
theorem takeAddress?_eq_some {f : Family} (hsp : Ascending f sp.free) (h : sp.takeAddress? = some (a, left)) :
    a ∈ sp ∧ (∀ b, b ∈ left ↔ b ∈ sp ∧ b ≠ a) ∧ (∀ b ∈ sp, a.value ≤ b.value) ∧ Ascending f left.free := by
  unfold takeAddress? at h
  split at h
  · cases h
  · rename_i s ss hss
    cases h
    rw [hss] at hsp
    obtain ⟨hf, hgap, hrest⟩ := Ascending.cons_iff.mp hsp
    have hmem : ∀ b, b ∈ sp ↔ b ∈ s ∨ ∃ t ∈ ss, b ∈ t := fun b => by
      rw [mem_iff, hss]
      simp only [List.mem_cons, exists_eq_or_imp]
    have hup : ∀ b, (∃ t ∈ ss, b ∈ t) → s.first < b.value := by
      rintro b ⟨t, ht, hb⟩
      have := hgap t ht
      have := hb.2.1
      have := s.first_le_last
      omega
    refine ⟨(hmem _).mpr (Or.inl s.start_mem), fun b => ?_, fun b hb => ?_, ?_⟩
    · have hleft : (∃ t ∈ (s.aboveValue? s.first).toList ++ ss, b ∈ t) ↔ (b ∈ s ∧ s.first < b.value) ∨ ∃ t ∈ ss, b ∈ t := by
        rw [← Span.mem_aboveValue?]
        simp only [List.mem_append, Option.mem_toList, or_and_right, exists_or]
      rw [hmem]
      refine hleft.trans ⟨?_, ?_⟩
      · rintro (⟨hb, hlt⟩ | hb)
        · exact ⟨Or.inl hb, fun heq => Nat.ne_of_gt hlt (congrArg Address.value heq)⟩
        · exact ⟨Or.inr hb, fun heq => Nat.ne_of_gt (hup b hb) (congrArg Address.value heq)⟩
      · rintro ⟨hb | hb, hne⟩
        · refine Or.inl ⟨hb, Nat.lt_of_le_of_ne hb.2.1 fun heq => hne ?_⟩
          exact Address.ext_value hb.1 heq.symm
        · exact Or.inr hb
    · rcases (hmem b).mp hb with hb | hb
      · exact hb.2.1
      · exact Nat.le_of_lt (hup b hb)
    · show Ascending f ((s.aboveValue? s.first).toList ++ ss)
      cases hu : s.aboveValue? s.first with
      | none => exact hrest
      | some u =>
        obtain ⟨huf, -, hul, -⟩ := Span.aboveValue?_eq_some hu
        exact Ascending.cons_iff.mpr ⟨huf.trans hf, fun t ht => hul ▸ hgap t ht, hrest⟩

/-- The addresses of a batch are as many as asked for, free, and all different. -/
theorem takeAddresses?_eq_some {f : Family} : ∀ {k : Nat} {sp : Space} {as : List Address}, Ascending f sp.free →
    sp.takeAddresses? k = some as → as.length = k ∧ (∀ a ∈ as, a ∈ sp) ∧ as.Pairwise (· ≠ ·)
  | 0, sp, as, _, h => by
    cases h
    exact ⟨rfl, fun _ ha => absurd ha List.not_mem_nil, .nil⟩
  | k + 1, sp, as, hsp, h => by
    simp only [takeAddresses?, Option.bind_eq_bind, Option.bind_eq_some_iff, Option.some.injEq] at h
    obtain ⟨⟨a, left⟩, ht, rest, hr, rfl⟩ := h
    obtain ⟨hfree, hleft, -, hasc⟩ := takeAddress?_eq_some hsp ht
    obtain ⟨hlen, hrest, hpair⟩ := takeAddresses?_eq_some hasc hr
    refine ⟨by rw [List.length_cons, hlen], List.forall_mem_cons.mpr ⟨hfree, fun b hb => ?_⟩,
      List.pairwise_cons.mpr ⟨fun b hb => ?_, hpair⟩⟩
    · exact ((hleft b).mp (hrest b hb)).1
    · exact ((hleft b).mp (hrest b hb)).2.symm

end AddressPlan.Space
