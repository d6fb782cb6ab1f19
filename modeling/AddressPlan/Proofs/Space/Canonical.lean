import AddressPlan.Proofs.Net.Walk
import AddressPlan.Proofs.Space.Recompute

/-!
The networks of free space are its canonical decomposition: the maximal aligned networks among the free addresses, in
ascending order. There is only one such list for each set of addresses, so it tells nothing about how the space has come
about, and the walks over the spans yield it piece by piece.
-/

namespace AddressPlan

open Net

/-- The addresses of one family that are free, as the maximal aligned networks among them in ascending order. -/
structure Canonical (f : Family) (free : Address → Prop) (ns : List Network) : Prop where
  family : ∀ n ∈ ns, n.family = f
  aligned : ∀ n ∈ ns, n.Aligned
  ascending : ns.Pairwise fun m n => m.last < n.first
  disjoint : ns.Pairwise fun m n => ∀ a ∈ m, a ∉ n
  cover : ∀ a, (∃ n ∈ ns, a ∈ n) ↔ free a
  maximal : ∀ n, n ∈ ns ↔ n.Maximal free

namespace Canonical

variable {f : Family} {free : Address → Prop} {ms ns : List Network}

/-- Networks in ascending order share no address. -/
theorem disjoint_of_ascending (h : ns.Pairwise fun m n => m.last < n.first) : ns.Pairwise fun m n => ∀ a ∈ m, a ∉ n :=
  h.imp fun hlt _ hm hn => Nat.not_le_of_lt hlt (Nat.le_trans hn.2.1 hm.2.2)

theorem unique (hm : Canonical f free ms) (hn : Canonical f free ns) : ms = ns := by
  have : Std.Irrefl fun m n : Network => m.last < n.first :=
    ⟨fun n hlt => Nat.not_le_of_lt hlt n.first_le_last⟩
  have : Std.Antisymm fun m n : Network => m.last < n.first :=
    ⟨fun m n h1 h2 => by have := m.first_le_last; have := n.first_le_last; omega⟩
  exact hm.ascending.eq_of_mem_iff hn.ascending fun n => (hm.maximal n).trans (hn.maximal n).symm

end Canonical

namespace Space

variable {f : Family} {sp : Space}

theorem canonical_networks (h : Ascending f sp.free) : Canonical f (· ∈ sp) sp.networks where
  family n hn := by
    obtain ⟨s, hs, hns⟩ := List.mem_flatMap.mp hn
    exact ((s.split_subset n hns _ n.lowest_mem).1).trans (h.family s hs)
  aligned n hn := ((mem_networks_iff h).mp hn).aligned
  ascending := networks_pairwise h
  disjoint := Canonical.disjoint_of_ascending (networks_pairwise h)
  cover a := by
    constructor
    · rintro ⟨n, hn, ha⟩
      exact ((mem_networks_iff h).mp hn).free_of_mem a ha
    · rintro ⟨s, hs, ha⟩
      obtain ⟨n, hn, han⟩ := s.mem_split a ha
      exact ⟨n, List.mem_flatMap.mpr ⟨s, hs, hn⟩, han⟩
  maximal _ := mem_networks_iff h

/-- After any carvings of a computed space, its networks are the one canonical decomposition of what is free. Each span
yields at least one of them and at most twice the width less two, and a walk over the span ends with just these. -/
theorem networks_canonical (parent : Block) (children : List Block) (ks : List Carving) :
    let sp := ((compute parent children).carveAll ks).1
    (∀ ns, Canonical parent.family (· ∈ sp) ns ↔ ns = sp.networks) ∧
      ∀ s ∈ sp.free, (∀ ns, Yields (some ∘ Walk.next?) (Walk.ofSpan parent.family s) ns ↔ ns = s.split) ∧
        1 ≤ s.split.length ∧ s.split.length ≤ 2 * parent.family.width - 2 := by
  intro sp
  have hasc : Ascending parent.family sp.free := (carveAll_without ks (compute_ascending parent children)).ascending
  have hnetworks := canonical_networks hasc
  refine ⟨fun ns => ⟨fun hns => hns.unique hnetworks, fun hns => hns ▸ hnetworks⟩, fun s hs => ?_⟩
  have hfamily := hasc.family s hs
  exact ⟨fun ns => (Walk.yields_split s _ hfamily).iff_eq, hfamily ▸ s.length_split_bounds⟩

end Space

end AddressPlan
