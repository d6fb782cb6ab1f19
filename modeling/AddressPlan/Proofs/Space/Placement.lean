import AddressPlan.Proofs.Space.Fit

/-!
Placements: disjoint free networks of given lengths, wherever they lie. When no length is smaller than one before it, carving
one network after the other succeeds exactly if there is a placement at all. Networks of the later lengths lie inside a network
that is carved or apart from it, so those inside can change places with the network that a placement has for the same length.
-/

namespace AddressPlan

open Net

namespace Net.Network

variable {home target k m n : Network}

/-! ### Changing places -/

theorem eq_or_disjoint (hm : m.Aligned) (hn : n.Aligned) (hl : m.length = n.length) : m = n ∨ ∀ a ∈ m, a ∉ n := by
  by_cases h : ∃ a, a ∈ m ∧ a ∈ n
  · obtain ⟨a, ham, han⟩ := h
    have hsub := subset_of_meets (Nat.le_of_eq hl.symm) han ham
    have hsup := subset_of_meets (Nat.le_of_eq hl) ham han
    exact Or.inl (hm.ext_mem hn fun b => ⟨hsub b, hsup b⟩)
  · exact Or.inr fun a ham han => h ⟨a, ham, han⟩

/-- A network that is no larger lies inside another one or apart from it. -/
theorem inside_or_apart (hl : n.length ≤ m.length) : (∀ a ∈ m, a ∈ n) ∨ ∀ a ∈ m, a ∉ n := by
  by_cases h : ∃ a, a ∈ m ∧ a ∈ n
  · obtain ⟨a, ham, han⟩ := h
    exact Or.inl (subset_of_meets hl han ham)
  · exact Or.inr fun a ham han => h ⟨a, ham, han⟩

/-- The network that lies in `target` where `m` lies in `home`. -/
def moved (home target m : Network) : Network :=
  ⟨.ofLowBits m.family (m.first - home.first + target.first), m.length, m.length_le⟩

/-- Two places of one size, and a network inside the first one. -/
structure Moves (home target m : Network) : Prop where
  family : home.family = target.family
  length : home.length = target.length
  inside : ∀ a ∈ m, a ∈ home

namespace Moves

theorem size (h : Moves home target m) : home.size = target.size := by
  rw [Network.size, Network.size, h.family, h.length]

/-- Offsets inside the places fit, and the size of the network divides the bounds of both. -/
theorem bounds (h : Moves home target m) : home.first ≤ m.first ∧ m.first - home.first + target.first + m.size ≤ target.last + 1 := by
  obtain ⟨-, hfirst, hlast⟩ := subset_iff.mp h.inside
  have := h.size
  have := m.last_add_one
  have := home.last_add_one
  have := target.last_add_one
  omega

theorem dvd (h : Moves home target m) : m.size ∣ m.first - home.first + target.first := by
  have hfamily := (subset_iff.mp h.inside).1
  have hsize : m.size ∣ home.size := size_dvd hfamily.symm (length_le_of_subset h.inside)
  have hhome : m.size ∣ home.first := Nat.dvd_trans hsize ⟨_, home.first_eq⟩
  have htarget : m.size ∣ target.first := Nat.dvd_trans (h.size ▸ hsize) ⟨_, target.first_eq⟩
  exact Nat.dvd_add (Nat.dvd_sub ⟨_, m.first_eq⟩ hhome) htarget

theorem value_eq (h : Moves home target m) : (moved home target m).address.value = m.first - home.first + target.first := by
  have hfamily : m.family = target.family := (subset_iff.mp h.inside).1.trans h.family
  have hbound := h.bounds.2
  have hpos := m.size_pos
  have htop := target.last_lt
  refine Nat.mod_eq_of_lt ?_
  rw [hfamily]
  omega

theorem aligned (h : Moves home target m) : (moved home target m).Aligned := by
  refine aligned_of_mod ?_
  rw [h.value_eq]
  exact Nat.mod_eq_zero_of_dvd h.dvd

theorem first_eq (h : Moves home target m) : (moved home target m).first = m.first - home.first + target.first :=
  h.aligned.symm.trans h.value_eq

theorem subset_target (h : Moves home target m) : ∀ a ∈ moved home target m, a ∈ target := by
  have hlast := (moved home target m).last_add_one
  have hsize : (moved home target m).size = m.size := rfl
  have hbound := h.bounds.2
  have hfirst := h.first_eq
  refine subset_iff.mpr ⟨(subset_iff.mp h.inside).1.trans h.family, ?_, ?_⟩
  · omega
  · omega

/-- What has been moved can be moved back, address by address. -/
theorem exists_mem (h : Moves home target m) {a : Address} (ha : a ∈ moved home target m) :
    ∃ b ∈ m, b.family = a.family ∧ b.value + target.first = a.value + home.first := by
  obtain ⟨hfamily, hlow, hhigh⟩ := mem_iff.mp ha
  have hlast := (moved home target m).last_add_one
  have hsize : (moved home target m).size = m.size := rfl
  have hfirst := h.first_eq
  have hbound := h.bounds.1
  have hmlast := m.last_add_one
  have hvalue : a.value + home.first - target.first ≤ m.last := by omega
  refine ⟨⟨m.family, a.value + home.first - target.first, Nat.lt_of_le_of_lt hvalue m.last_lt⟩, ⟨rfl, ?_, hvalue⟩,
    hfamily.symm, ?_⟩
  · show m.first ≤ a.value + home.first - target.first
    omega
  · show a.value + home.first - target.first + target.first = _
    omega

/-- Networks that share no address share none after they have been moved. -/
theorem disjoint (hm : Moves home target m) (hn : Moves home target n) (h : ∀ a ∈ m, a ∉ n) :
    ∀ a ∈ moved home target m, a ∉ moved home target n := by
  intro a ham han
  obtain ⟨b, hb, hbf, hbv⟩ := hm.exists_mem ham
  obtain ⟨c, hc, hcf, hcv⟩ := hn.exists_mem han
  have heq : b = c := Address.ext_value (hbf.trans hcf.symm) (by omega)
  exact h b hb (heq ▸ hc)

end Moves

/-- Moves a network out of `home` into `target`; any other stays where it is. -/
def cleared (home target m : Network) : Network :=
  if (Span.ofNetwork home).contains (.ofNetwork m) then moved home target m else m

/-- How a network that is no larger than the place to be cleared comes out. -/
theorem cleared_cases (hf : home.family = target.family) (hl : home.length = target.length) (hm : home.length ≤ m.length) :
    (Moves home target m ∧ cleared home target m = moved home target m) ∨
      ((∀ a ∈ m, a ∉ home) ∧ cleared home target m = m) := by
  rcases inside_or_apart hm with hin | hout
  · exact Or.inl ⟨⟨hf, hl, hin⟩, if_pos (Span.contains_iff.mpr hin)⟩
  · refine Or.inr ⟨hout, if_neg fun hcontains => ?_⟩
    exact hout _ m.lowest_mem (Span.contains_iff.mp hcontains _ m.lowest_mem)

end Net.Network

/-! ### Placements -/

/-- Free networks of the given lengths that share no address. -/
structure Placement (free : Address → Prop) (lengths : List Nat) (ns : List Network) : Prop where
  fits : List.Forall₂ (Fit free) lengths ns
  disjoint : ns.Pairwise fun m n => ∀ a ∈ m, a ∉ n

section Free
variable {p q : Address → Prop} {length : Nat} {lengths : List Nat} {k n : Network} {ns : List Network}

theorem Placement.congr (h : ∀ a, p a ↔ q a) (hns : Placement p lengths ns) : Placement q lengths ns where
  fits := hns.fits.imp fun _ _ hn => hn.congr h
  disjoint := hns.disjoint

theorem Placement.congr_iff (h : ∀ a, p a ↔ q a) : Placement p lengths ns ↔ Placement q lengths ns :=
  ⟨fun hns => hns.congr h, fun hns => hns.congr fun a => (h a).symm⟩

theorem Placement.cons_iff : Placement p (length :: lengths) (n :: ns) ↔
    Fit p length n ∧ (∀ m ∈ ns, ∀ a ∈ n, a ∉ m) ∧ Placement p lengths ns := by
  constructor
  · rintro ⟨hfits, hdisjoint⟩
    cases hfits with
    | cons hn hfits => exact ⟨hn, (List.pairwise_cons.mp hdisjoint).1, hfits, (List.pairwise_cons.mp hdisjoint).2⟩
  · rintro ⟨hn, hapart, hfits, hdisjoint⟩
    exact ⟨.cons hn hfits, List.pairwise_cons.mpr ⟨hapart, hdisjoint⟩⟩

theorem Placement.lengths_eq (h : Placement p lengths ns) : ns.map (·.length) = lengths := by
  obtain ⟨hfits, -⟩ := h
  induction hfits with
  | nil => rfl
  | cons hn _ ih => rw [List.map_cons, hn.length_eq, ih]

theorem Placement.length_le (h : Placement p lengths ns) (hle : ∀ l ∈ lengths, length ≤ l) : ∀ m ∈ ns, length ≤ m.length :=
  fun _ hm => hle _ (h.lengths_eq ▸ List.mem_map_of_mem hm)

end Free

/-! ### The exchange -/

section Exchange
variable {free : Address → Prop} {length l : Nat} {lengths : List Nat} {k m m' n : Network} {ns : List Network}

/-- What is cleared out of `k` into `n` is free once `k` is taken. -/
theorem Fit.cleared (hk : Fit free length k) (hn : Fit free length n) (hf : k.family = n.family) (hkn : ∀ a ∈ k, a ∉ n)
    (hl : length ≤ l) (hm : Fit free l m) : Fit (fun a => free a ∧ a ∉ k) l (k.cleared n m) := by
  have hsame : k.length = n.length := hk.length_eq.trans hn.length_eq.symm
  have hle : k.length ≤ m.length := by rw [hk.length_eq, hm.length_eq]; exact hl
  rcases Network.cleared_cases hf hsame hle with ⟨hmoves, heq⟩ | ⟨hout, heq⟩
  · rw [heq]
    refine ⟨hmoves.aligned, hm.length_eq, fun a ha => ?_⟩
    have han := hmoves.subset_target a ha
    exact ⟨hn.free_of_mem a han, fun hak => hkn a hak han⟩
  · rw [heq]
    exact ⟨hm.aligned, hm.length_eq, fun a ha => ⟨hm.free_of_mem a ha, hout a ha⟩⟩

/-- Networks apart from the target and from each other stay apart. -/
theorem Net.Network.cleared_disjoint (hf : k.family = n.family) (hl : k.length = n.length) (hm : k.length ≤ m.length)
    (hm' : k.length ≤ m'.length) (hnm : ∀ a ∈ n, a ∉ m) (hnm' : ∀ a ∈ n, a ∉ m') (h : ∀ a ∈ m, a ∉ m') :
    ∀ a ∈ k.cleared n m, a ∉ k.cleared n m' := by
  rcases cleared_cases hf hl hm with ⟨hmoves, heq⟩ | ⟨-, heq⟩ <;>
    rcases cleared_cases hf hl hm' with ⟨hmoves', heq'⟩ | ⟨-, heq'⟩ <;> rw [heq, heq']
  · exact hmoves.disjoint hmoves' h
  · exact fun a ha => hnm' a (hmoves.subset_target a ha)
  · exact fun a ha ha' => hnm a (hmoves'.subset_target a ha') ha
  · exact h

/-- Whichever network is taken for the first length, the later ones can still be placed if there was a placement with
another one. -/
theorem Placement.exchange (hk : Fit free length k) (hle : ∀ l ∈ lengths, length ≤ l) (hf : k.family = n.family)
    (h : Placement free (length :: lengths) (n :: ns)) : ∃ ms, Placement (fun a => free a ∧ a ∉ k) lengths ms := by
  obtain ⟨hn, hapart, hrest⟩ := cons_iff.mp h
  have hsame : k.length = n.length := hk.length_eq.trans hn.length_eq.symm
  have hlength : ∀ m ∈ ns, k.length ≤ m.length := fun m hm => hk.length_eq ▸ hrest.length_le hle m hm
  rcases Network.eq_or_disjoint hk.aligned hn.aligned hsame with rfl | hkn
  · refine ⟨ns, ?_, hrest.disjoint⟩
    have hfits := List.Forall₂.flip ((List.forall₂_and_left _ _).mpr ⟨hapart, List.Forall₂.flip hrest.fits⟩)
    exact hfits.imp fun l m ⟨hout, hm⟩ => ⟨hm.aligned, hm.length_eq, fun a ha => ⟨hm.free_of_mem a ha, fun hak => hout a hak ha⟩⟩
  · refine ⟨ns.map (k.cleared n), List.forall₂_map_right_iff.mpr ?_, List.pairwise_map.mpr ?_⟩
    · have hfits := (List.forall₂_and_left _ _).mpr ⟨hle, hrest.fits⟩
      exact hfits.imp fun l m ⟨hl, hm⟩ => hk.cleared hn hf hkn hl hm
    · refine hrest.disjoint.imp_of_mem fun {m m'} hm hm' hmm' => ?_
      exact Network.cleared_disjoint hf hsame (hlength m hm) (hlength m' hm') (hapart m hm) (hapart m' hm') hmm'

end Exchange

/-! ### Carving in order of length -/

namespace Space

variable {f : Family}

theorem placement_of_takeNetworks {sp : Space} {lengths : List Nat} {ns : List Network} (h : sp.takeNetworks lengths = .ok ns) :
    Placement (· ∈ sp) lengths ns := by
  obtain ⟨rfl, hns, hpair⟩ := takeNetworks_eq_ok h
  refine ⟨List.forall₂_map_left_iff.mpr (List.forall₂_same.mpr fun n hn => ?_), hpair⟩
  exact ⟨(hns n hn).1, rfl, (hns n hn).2⟩

/-- First fit finds a network for every length if a placement exists, as long as no length is smaller than one before it. -/
theorem takeNetworks_of_placement : ∀ {lengths : List Nat} {sp : Space} {ns : List Network}, Ascending f sp.free →
    lengths.Pairwise (· ≤ ·) → Placement (· ∈ sp) lengths ns → ∃ ms, sp.takeNetworks lengths = .ok ms
  | [], _, _, _, _, _ => ⟨[], rfl⟩
  | _ :: _, _, [], _, _, h => nomatch h.fits
  | length :: lengths, sp, n :: ns, hsp, hsorted, h => by
    obtain ⟨hle, hsorted⟩ := List.pairwise_cons.mp hsorted
    have hn := (Placement.cons_iff.mp h).1
    rcases lowestFit_or_none hsp length with ⟨k, hk⟩ | hnone
    · have hfamily : k.family = n.family := (family_of_free hsp hk.free_of_mem).trans (family_of_free hsp hn.free_of_mem).symm
      obtain ⟨ms, hms⟩ := h.exchange hk.toFit hle hfamily
      have hleft : Placement (· ∈ sp.remove (.network k)) lengths ms := hms.congr fun _ => mem_remove_network.symm
      obtain ⟨rest, hrest⟩ := takeNetworks_of_placement (remove_ascending hsp _) hsorted hleft
      exact ⟨k :: rest, by rw [takeNetworks_of_lowestFit hsp hk, hrest]; rfl⟩
    · exact absurd hn (hnone n)

theorem takeNetworks_complete {sp : Space} {lengths : List Nat} (hsp : Ascending f sp.free)
    (hsorted : lengths.Pairwise (· ≤ ·)) :
    (∃ ns, sp.takeNetworks lengths = .ok ns) ↔ ∃ ns, Placement (· ∈ sp) lengths ns :=
  ⟨fun ⟨ns, h⟩ => ⟨ns, placement_of_takeNetworks h⟩, fun ⟨_, h⟩ => takeNetworks_of_placement hsp hsorted h⟩

/-- In the other order, the smaller network breaks up the half that the larger one needs, and the quarter is left. -/
example :
    let whole : Network := ⟨⟨.v4, 0, by decide⟩, 24, by decide⟩
    let quarter : Network := ⟨⟨.v4, 128, by decide⟩, 26, by decide⟩
    let sp := compute (.network whole) [.network quarter]
    (sp.takeNetworks [25, 26]).map (·.map (·.first)) = .ok [0, 192] ∧ sp.takeNetworks [26, 25] = .error 25 := by
  decide +kernel

end Space

end AddressPlan
