import AddressPlan.Proofs.Except
import AddressPlan.Proofs.Space.Recompute

/-!
First fit. What is carved for a length is the lowest aligned network of that length that is free, wherever one is free at
all. So a batch gets for each length the lowest fit among what the ones before it have left, and it fails exactly at the
first length for which nothing is left that fits.
-/

namespace AddressPlan

open Net

/-- An aligned network of the given length, all of whose addresses are free. -/
structure Fit (free : Address → Prop) (length : Nat) (n : Network) : Prop where
  aligned : n.Aligned
  length_eq : n.length = length
  free_of_mem : ∀ a ∈ n, free a

/-- The fit with the lowest addresses. -/
structure LowestFit (free : Address → Prop) (length : Nat) (n : Network) : Prop extends Fit free length n where
  lowest : ∀ m, Fit free length m → n.first ≤ m.first

/-- Networks of the given lengths, each the lowest fit among what is free without those before it. -/
inductive FirstFit : (Address → Prop) → List Nat → List Network → Prop where
  | nil {free : Address → Prop} : FirstFit free [] []
  | cons {free : Address → Prop} {length : Nat} {lengths : List Nat} {n : Network} {ns : List Network}
      (fit : LowestFit free length n) (rest : FirstFit (fun a => free a ∧ a ∉ n) lengths ns) :
      FirstFit free (length :: lengths) (n :: ns)

/-- The last length is the first of the given ones for which nothing fits, once the lowest fits for those before it are gone. -/
inductive RunsOut : (Address → Prop) → List Nat → Nat → Prop where
  | here {free : Address → Prop} {length : Nat} {lengths : List Nat} (none : ∀ m, ¬ Fit free length m) :
      RunsOut free (length :: lengths) length
  | later {free : Address → Prop} {length last : Nat} {lengths : List Nat} {n : Network}
      (fit : LowestFit free length n) (rest : RunsOut (fun a => free a ∧ a ∉ n) lengths last) :
      RunsOut free (length :: lengths) last

section Free
variable {p q : Address → Prop} {length : Nat} {lengths : List Nat} {n : Network} {ns : List Network}

theorem Fit.congr (h : ∀ a, p a ↔ q a) (hn : Fit p length n) : Fit q length n where
  aligned := hn.aligned
  length_eq := hn.length_eq
  free_of_mem a ha := (h a).mp (hn.free_of_mem a ha)

theorem LowestFit.congr (h : ∀ a, p a ↔ q a) (hn : LowestFit p length n) : LowestFit q length n where
  toFit := hn.toFit.congr h
  lowest m hm := hn.lowest m (hm.congr fun a => (h a).symm)

theorem FirstFit.congr (hns : FirstFit p lengths ns) : ∀ {q : Address → Prop}, (∀ a, p a ↔ q a) → FirstFit q lengths ns := by
  induction hns with
  | nil => exact fun _ => .nil
  | cons fit _ ih => exact fun h => .cons (fit.congr h) (ih fun a => and_congr_left' (h a))

theorem FirstFit.congr_iff (h : ∀ a, p a ↔ q a) : FirstFit p lengths ns ↔ FirstFit q lengths ns :=
  ⟨fun hns => hns.congr h, fun hns => hns.congr fun a => (h a).symm⟩

theorem RunsOut.congr {l : Nat} (hl : RunsOut p lengths l) : ∀ {q : Address → Prop}, (∀ a, p a ↔ q a) → RunsOut q lengths l := by
  induction hl with
  | here none => exact fun h => .here fun m hm => none m (hm.congr fun a => (h a).symm)
  | later fit _ ih => exact fun h => .later (fit.congr h) (ih fun a => and_congr_left' (h a))

theorem RunsOut.congr_iff {l : Nat} (h : ∀ a, p a ↔ q a) : RunsOut p lengths l ↔ RunsOut q lengths l :=
  ⟨fun hl => hl.congr h, fun hl => hl.congr fun a => (h a).symm⟩

end Free

theorem Net.Network.length_le_of_subset {m n : Network} (h : ∀ a ∈ m, a ∈ n) : n.length ≤ m.length := by
  obtain ⟨hf, h1, h2⟩ := Network.subset_iff.mp h
  have hm := m.last_add_one
  have hn := n.last_add_one
  exact (Network.size_le_iff hf.symm).mp (by omega)

namespace Space

variable {f : Family} {sp left : Space} {n m : Network} {length : Nat} {lengths : List Nat} {ns : List Network}

/-! ### One network -/

/-- Networks are tried one after the other, across all spans. -/
theorem fit?_eq (sp : Space) (length : Nat) : sp.fit? length = (do
    let home ← sp.networks.find? fun n => n.length ≤ length
    let carved ← Network.of? home.truncate.address length
    some carved.truncate) := by
  rw [fit?, networks, List.find?_flatMap]

theorem family_of_free (h : Ascending f sp.free) (hn : ∀ a ∈ n, a ∈ sp) : n.family = f := by
  obtain ⟨s, hs, hfamily, -⟩ := hn _ n.lowest_mem
  exact hfamily.trans (h.family s hs)

/-- An aligned free network lies in one of the networks that free space consists of. -/
theorem exists_networks_of_fit (h : Ascending f sp.free) (hm : Fit (· ∈ sp) length m) :
    ∃ n ∈ sp.networks, n.length ≤ length ∧ n.first ≤ m.first := by
  obtain ⟨s, hs, hlow⟩ := hm.free_of_mem _ m.lowest_mem
  obtain ⟨n, hn, hlown⟩ := s.mem_split _ hlow
  have hmem : n ∈ sp.networks := List.mem_flatMap.mpr ⟨s, hs, hn⟩
  have hmax := (mem_networks_iff h).mp hmem
  have hsub : ∀ a ∈ m, a ∈ n := by
    rcases Network.nested_or_disjoint n m with hsub | hsub | hdisjoint
    · exact hsub
    · rw [hmax.eq_of_subset m hm.aligned hm.free_of_mem hsub]
      exact fun _ ha => ha
    · exact absurd m.lowest_mem (hdisjoint _ hlown)
  exact ⟨n, hmem, hm.length_eq ▸ Network.length_le_of_subset hsub, (Network.subset_iff.mp hsub).2.1⟩

theorem lowestFit_of_fit? (h : Ascending f sp.free) (hn : sp.fit? length = some n) : LowestFit (· ∈ sp) length n := by
  obtain ⟨hal, hlen, hfree⟩ := fit?_eq_some hn
  refine ⟨⟨hal, hlen, hfree⟩, fun m hm => ?_⟩
  rw [fit?_eq] at hn
  simp only [Option.bind_eq_bind, Option.bind_eq_some_iff, Option.some.injEq] at hn
  obtain ⟨home, hhome, carved, hcarved, rfl⟩ := hn
  obtain ⟨-, before, after, hnetworks, hbefore⟩ := List.find?_eq_some_iff_append.mp hhome
  obtain ⟨u, hu, hlength, hfirst⟩ := exists_networks_of_fit h hm
  -- The networks before the one that is chosen are too long, and those after it lie above it.
  have hle : home.first ≤ u.first := by
    rw [hnetworks, List.mem_append, List.mem_cons] at hu
    rcases hu with hu | rfl | hu
    · exact absurd hlength (by simpa using hbefore u hu)
    · exact Nat.le_refl _
    · have hpairwise := networks_pairwise h
      rw [hnetworks] at hpairwise
      have hlt := (List.pairwise_cons.mp (List.pairwise_append.mp hpairwise).2.1).1 u hu
      exact Nat.le_of_lt (Nat.lt_of_le_of_lt home.first_le_last hlt)
  calc carved.truncate.first = carved.first := carved.truncate_first
    _ ≤ carved.address.value := carved.first_le
    _ = home.first := by rw [(Network.of?_eq_some hcarved).1]; rfl
    _ ≤ u.first := hle
    _ ≤ m.first := hfirst

theorem exists_fit?_of_fit (h : Ascending f sp.free) (hm : Fit (· ∈ sp) length m) : ∃ n, sp.fit? length = some n := by
  obtain ⟨u, hu, hlength, -⟩ := exists_networks_of_fit h hm
  have hfound : (sp.networks.find? fun n => n.length ≤ length).isSome :=
    List.find?_isSome.mpr ⟨u, hu, decide_eq_true hlength⟩
  obtain ⟨home, hhome⟩ := Option.isSome_iff_exists.mp hfound
  -- The family has networks of this length, since it has `m`.
  have hwidth : length ≤ home.truncate.address.family.width := by
    have hhomefree := ((mem_networks_iff h).mp (List.mem_of_find?_eq_some hhome)).free_of_mem
    have hhf : home.family = f := family_of_free h hhomefree
    have hmf : m.family = f := family_of_free h hm.free_of_mem
    show length ≤ home.family.width
    rw [hhf, ← hmf, ← hm.length_eq]
    exact m.length_le
  rw [fit?_eq, hhome]
  simp only [Option.bind_eq_bind, Option.bind_some, Network.of?, dif_pos hwidth]
  exact ⟨_, rfl⟩

theorem lowestFit_unique (h : Ascending f sp.free) (hn : LowestFit (· ∈ sp) length n) (hm : LowestFit (· ∈ sp) length m) :
    n = m := by
  have hfamily : n.family = m.family := (family_of_free h hn.free_of_mem).trans (family_of_free h hm.free_of_mem).symm
  have hfirst : n.first = m.first := Nat.le_antisymm (hn.lowest m hm.toFit) (hm.lowest n hn.toFit)
  exact hn.aligned.ext hm.aligned hfamily hfirst (hn.length_eq.trans hm.length_eq.symm)

theorem fit?_of_lowestFit (h : Ascending f sp.free) (hn : LowestFit (· ∈ sp) length n) : sp.fit? length = some n := by
  obtain ⟨m, hm⟩ := exists_fit?_of_fit h hn.toFit
  obtain rfl := lowestFit_unique h hn (lowestFit_of_fit? h hm)
  exact hm

theorem fit?_of_none (hnone : ∀ m, ¬ Fit (· ∈ sp) length m) : sp.fit? length = none :=
  Option.eq_none_iff_forall_ne_some.mpr fun n hn => by
    obtain ⟨hal, hlen, hfree⟩ := fit?_eq_some hn
    exact hnone n ⟨hal, hlen, hfree⟩

/-! ### A batch of networks -/

/-- Either there is a lowest fit, or there is none at all. -/
theorem lowestFit_or_none (h : Ascending f sp.free) (length : Nat) :
    (∃ n, LowestFit (· ∈ sp) length n) ∨ ∀ m, ¬ Fit (· ∈ sp) length m := by
  cases hfit : sp.fit? length with
  | some n => exact Or.inl ⟨n, lowestFit_of_fit? h hfit⟩
  | none =>
    refine Or.inr fun m hm => ?_
    obtain ⟨n, hn⟩ := exists_fit?_of_fit h hm
    exact nomatch hfit.symm.trans hn

theorem takeNetworks_of_lowestFit (h : Ascending f sp.free) (hn : LowestFit (· ∈ sp) length n) :
    sp.takeNetworks (length :: lengths) = ((sp.remove (.network n)).takeNetworks lengths).map (n :: ·) := by
  rw [takeNetworks, takeNetwork?, fit?_of_lowestFit h hn]
  rfl

theorem takeNetworks_of_none (hnone : ∀ m, ¬ Fit (· ∈ sp) length m) :
    sp.takeNetworks (length :: lengths) = .error length := by
  rw [takeNetworks, takeNetwork?, fit?_of_none hnone]
  rfl

theorem mem_remove_network {a : Address} : a ∈ sp.remove (.network n) ↔ a ∈ sp ∧ a ∉ n :=
  mem_remove

theorem takeNetworks_eq_ok_iff : ∀ {lengths : List Nat} {sp : Space} {ns : List Network}, Ascending f sp.free →
    (sp.takeNetworks lengths = .ok ns ↔ FirstFit (· ∈ sp) lengths ns)
  | [], sp, ns, _ => ⟨fun h => by cases h; exact .nil, fun h => by cases h; rfl⟩
  | length :: lengths, sp, ns, hsp => by
    rcases lowestFit_or_none hsp length with ⟨n, hn⟩ | hnone
    · have hrest : ∀ rest, (sp.remove (.network n)).takeNetworks lengths = .ok rest ↔
          FirstFit (fun a => a ∈ sp ∧ a ∉ n) lengths rest := fun rest =>
        (takeNetworks_eq_ok_iff (remove_ascending hsp _)).trans (FirstFit.congr_iff fun _ => mem_remove_network)
      rw [takeNetworks_of_lowestFit hsp hn, map_eq_ok]
      constructor
      · rintro ⟨rest, htake, rfl⟩
        exact .cons hn ((hrest rest).mp htake)
      · intro h
        cases h with
        | cons fit rest =>
          obtain rfl := lowestFit_unique hsp hn fit
          exact ⟨_, (hrest _).mpr rest, rfl⟩
    · rw [takeNetworks_of_none hnone]
      refine iff_of_false nofun fun h => ?_
      cases h with
      | cons fit => exact hnone _ fit.toFit

/-- The length that is reported is the first one without a fit. -/
theorem takeNetworks_eq_error_iff : ∀ {lengths : List Nat} {sp : Space} {l : Nat}, Ascending f sp.free →
    (sp.takeNetworks lengths = .error l ↔ RunsOut (· ∈ sp) lengths l)
  | [], _, _, _ => iff_of_false nofun nofun
  | length :: lengths, sp, l, hsp => by
    rcases lowestFit_or_none hsp length with ⟨n, hn⟩ | hnone
    · have hrest : (sp.remove (.network n)).takeNetworks lengths = .error l ↔
          RunsOut (fun a => a ∈ sp ∧ a ∉ n) lengths l :=
        (takeNetworks_eq_error_iff (remove_ascending hsp _)).trans (RunsOut.congr_iff fun _ => mem_remove_network)
      rw [takeNetworks_of_lowestFit hsp hn, map_eq_error, hrest]
      refine ⟨.later hn, fun h => ?_⟩
      cases h with
      | here none => exact absurd hn.toFit (none n)
      | later fit rest =>
        obtain rfl := lowestFit_unique hsp hn fit
        exact rest
    · rw [takeNetworks_of_none hnone]
      constructor
      · intro h
        cases h
        exact .here hnone
      · intro h
        cases h with
        | here => rfl
        | later fit => exact absurd fit.toFit (hnone _)

/-! ### Carving one network -/

/-- No network is longer than the family allows, so nothing fits a length beyond that. -/
theorem not_fit_of_width_lt (h : Ascending f sp.free) (hlength : f.width < length) : ∀ n, ¬ Fit (· ∈ sp) length n := by
  intro n hn
  have hle := n.length_le
  rw [show n.address.family = f from family_of_free h hn.free_of_mem, hn.length_eq] at hle
  exact Nat.not_le_of_lt hlength hle

theorem carve_network_of_lowestFit (h : Ascending f sp.free) (hn : LowestFit (· ∈ sp) length n) :
    sp.carve (.network length) = (sp.remove (.network n), some (.network n)) := by
  rw [carve, takeNetwork?, fit?_of_lowestFit h hn]
  rfl

theorem carve_network_of_none (hnone : ∀ m, ¬ Fit (· ∈ sp) length m) : sp.carve (.network length) = (sp, none) := by
  rw [carve, takeNetwork?, fit?_of_none hnone]
  rfl

/-- After any carvings of a computed space, a network can be carved for a length exactly if the family has networks of
that length and one of them is free. It is then the lowest one, and only its addresses are gone. -/
theorem carve_network (parent : Block) (children : List Block) (ks : List Carving) (length : Nat) :
    let sp := ((compute parent children).carveAll ks).1
    (sp.carve (.network length) = (sp, none) ↔ parent.family.width < length ∨ ∀ n, ¬ Fit (· ∈ sp) length n) ∧
      (sp.carve (.network length) = (sp, none) ∨
        ∃ n left, sp.carve (.network length) = (left, some (.network n)) ∧ LowestFit (· ∈ sp) length n ∧
          left.parent = parent ∧ ∀ a, a ∈ left ↔ a ∈ sp ∧ a ∉ n) := by
  intro sp
  have hsp := carveAll_without ks (compute_ascending parent children)
  rcases lowestFit_or_none hsp.ascending length with ⟨n, hn⟩ | hnone
  · have htaken := carve_network_of_lowestFit hsp.ascending hn
    refine ⟨iff_of_false ?_ ?_, Or.inr ⟨n, _, htaken, hn, hsp.parent, fun _ => mem_remove_network⟩⟩
    · rw [htaken]
      exact fun h => nomatch congrArg Prod.snd h
    · rintro (hlength | hnone)
      · exact not_fit_of_width_lt hsp.ascending hlength n hn.toFit
      · exact hnone n hn.toFit
  · have hkept := carve_network_of_none hnone
    exact ⟨iff_of_true hkept (Or.inr hnone), Or.inl hkept⟩

end Space

end AddressPlan
