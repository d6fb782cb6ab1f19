import AddressPlan.Proofs.Net.Span

/-!
Cutting a span into networks. The pieces are exactly the maximal aligned networks inside the span: `head` is
the largest network at the start, so no larger one reaches over the place where two pieces meet.
-/

namespace AddressPlan.Net

namespace Network

/-- A largest aligned network among those whose addresses all satisfy `free`. -/
structure Maximal (free : Address → Prop) (n : Network) : Prop where
  aligned : n.Aligned
  free_of_mem : ∀ a ∈ n, free a
  eq_of_subset : ∀ m : Network, m.Aligned → (∀ a ∈ m, free a) → (∀ a ∈ n, a ∈ m) → m = n

theorem Maximal.congr {p q : Address → Prop} (h : ∀ a, p a ↔ q a) {n : Network} (hn : n.Maximal p) :
    n.Maximal q where
  aligned := hn.aligned
  free_of_mem a ha := (h a).mp (hn.free_of_mem a ha)
  eq_of_subset m hm hq := hn.eq_of_subset m hm fun a ha => (h a).mpr (hq a ha)

end Network

namespace Span

variable {s t : Span} {a : Address} {n : Network}

/-! ### The first network -/

/-- The `2 ^ k` addresses from `first` on are aligned and reach no further than `last`. -/
def Fits (first last k : Nat) : Prop :=
  first % 2 ^ k = 0 ∧ first + 2 ^ k ≤ last + 1

theorem Fits.mono {first last j k : Nat} (h : Fits first last k) (hjk : j ≤ k) : Fits first last j := by
  have hd : 2 ^ j ∣ 2 ^ k := Nat.pow_dvd_pow 2 hjk
  have hle : 2 ^ j ≤ 2 ^ k := Nat.pow_le_pow_right (by omega) hjk
  exact ⟨Nat.mod_eq_zero_of_dvd (Nat.dvd_trans hd (Nat.dvd_of_mod_eq_zero h.1)), by have := h.2; omega⟩

theorem growth_fits {first last : Nat} : ∀ {k : Nat} (bound : Nat), Fits first last k →
    Fits first last (growth first last k bound)
  | _, 0, h => h
  | k, bound + 1, h => by
    unfold growth
    split
    · exact growth_fits bound (by assumption)
    · exact h

theorem growth_le (first last : Nat) : ∀ k bound : Nat, growth first last k bound ≤ k + bound
  | _, 0 => Nat.le_refl _
  | k, bound + 1 => by
    unfold growth
    split
    · have := growth_le first last (k + 1) bound
      omega
    · omega

/-- No larger power of two would have fitted. -/
theorem le_growth {first last j : Nat} : ∀ (k bound : Nat), j ≤ k + bound → Fits first last j →
    j ≤ growth first last k bound
  | _, 0, hj, _ => hj
  | k, bound + 1, hj, h => by
    unfold growth
    split
    · exact le_growth (k + 1) bound (by omega) h
    · rename_i hstop
      apply Nat.le_of_not_lt
      intro hlt
      exact hstop (h.mono hlt)

theorem head_size (s : Span) : s.head.size = 2 ^ growth s.first s.last 0 s.family.width := by
  have := growth_le s.first s.last 0 s.family.width
  show 2 ^ (s.family.width - (s.family.width - _)) = _
  congr 1
  omega

theorem head_fits (s : Span) : Fits s.first s.last (growth s.first s.last 0 s.family.width) :=
  growth_fits _ ⟨by simp [Nat.mod_one], by have := s.first_le_last; simp; omega⟩

@[simp] theorem head_family (s : Span) : s.head.family = s.family := rfl

theorem head_aligned (s : Span) : s.head.Aligned :=
  Network.aligned_of_mod (by rw [head_size]; exact s.head_fits.1)

@[simp] theorem head_first (s : Span) : s.head.first = s.first :=
  s.head_aligned.symm

theorem head_last_le (s : Span) : s.head.last ≤ s.last := by
  have h1 := s.head.last_add_one
  have h2 := s.head_fits.2
  rw [head_first, head_size] at h1
  omega

theorem mem_head : a ∈ s.head ↔ a ∈ s ∧ a.value ≤ s.head.last := by
  have hl := s.head_last_le
  rw [Network.mem_iff, mem_iff, head_family, head_first]
  constructor
  · rintro ⟨hf, h1, h2⟩
    exact ⟨⟨hf, h1, Nat.le_trans h2 hl⟩, h2⟩
  · rintro ⟨⟨hf, h1, -⟩, h2⟩
    exact ⟨hf, h1, h2⟩

theorem start_mem_head (s : Span) : s.start ∈ s.head :=
  mem_head.mpr ⟨s.start_mem, by have := s.head.first_le_last; rwa [head_first] at this⟩

theorem head_subset (s : Span) : ∀ a ∈ s.head, a ∈ s := fun _ ha =>
  (mem_head.mp ha).1

/-- An aligned network that starts with the span and stays inside it is no larger than the first piece. -/
theorem subset_head (hn : n.Aligned) (hf : n.family = s.family) (hfirst : n.first = s.first) (hlast : n.last ≤ s.last) :
    ∀ a ∈ n, a ∈ s.head := by
  have hsize := n.last_add_one
  have hfit : Fits s.first s.last (n.family.width - n.length) := by
    refine ⟨?_, ?_⟩
    · have := hn.mod_eq_zero
      rwa [hn, hfirst] at this
    · rw [← hfirst]
      show n.first + n.size ≤ _
      omega
  have hle : n.size ≤ s.head.size := by
    rw [head_size]
    exact Nat.pow_le_pow_right (by omega) (le_growth 0 _ (by rw [hf]; omega) hfit)
  have hhead := s.head.last_add_one
  rw [head_first] at hhead
  exact Network.subset_iff.mpr ⟨hf, by rw [head_first]; omega, by omega⟩

/-! ### The pieces -/

theorem split_of_none (h : s.aboveValue? s.head.last = none) : s.split = [s.head] := by
  rw [split]
  split
  · rfl
  · rename_i hr
    rw [h] at hr
    cases hr

theorem split_of_some (h : s.aboveValue? s.head.last = some t) : s.split = s.head :: t.split := by
  rw [split]
  split
  · rename_i hr
    rw [h] at hr
    cases hr
  · rename_i hr
    rw [h] at hr
    cases hr
    rfl

theorem above_head (h : s.aboveValue? s.head.last = some t) :
    t.family = s.family ∧ t.first = s.head.last + 1 ∧ t.last = s.last := by
  obtain ⟨hf, h1, h2, -⟩ := aboveValue?_eq_some h
  have := s.head.first_le_last
  rw [head_first] at this
  exact ⟨hf, by omega, h2⟩

/-- Splitting goes on until nothing is left above a piece. -/
theorem split_induction {motive : Span → Prop} (last : ∀ s, s.aboveValue? s.head.last = none → motive s)
    (next : ∀ s t, s.aboveValue? s.head.last = some t → motive t → motive s) : ∀ s, motive s := by
  intro s
  induction hn : s.size using Nat.strongRecOn generalizing s with
  | ind k ih =>
    cases ht : s.aboveValue? s.head.last with
    | none => exact last s ht
    | some t =>
      obtain ⟨-, h1, h2⟩ := above_head ht
      have h3 := s.head.first_le_last
      have h4 := t.first_le_last
      rw [head_first] at h3
      exact next s t ht (ih t.size (by simp only [size] at *; omega) t rfl)

theorem split_subset (s : Span) : ∀ n ∈ s.split, ∀ a ∈ n, a ∈ s := by
  induction s using split_induction with
  | last s h =>
    rw [split_of_none h]
    intro n hn
    obtain rfl := List.mem_singleton.mp hn
    exact s.head_subset
  | next s t h ih =>
    rw [split_of_some h]
    intro n hn a ha
    rcases List.mem_cons.mp hn with rfl | hn
    · exact s.head_subset a ha
    · exact (mem_aboveValue?.mp ⟨t, h, ih n hn a ha⟩).1

theorem split_pairwise (s : Span) : s.split.Pairwise fun m n => m.last < n.first := by
  induction s using split_induction with
  | last s h =>
    rw [split_of_none h]
    exact List.pairwise_singleton _ _
  | next s t h ih =>
    rw [split_of_some h]
    refine List.Pairwise.cons (fun n hn => ?_) ih
    have hin := split_subset t n hn _ n.lowest_mem
    obtain ⟨-, h1, -⟩ := above_head h
    have := hin.2.1
    rw [h1] at this
    exact this

theorem mem_split (s : Span) : ∀ a ∈ s, ∃ n ∈ s.split, a ∈ n := by
  induction s using split_induction with
  | last s h =>
    intro a ha
    rw [split_of_none h]
    have := aboveValue?_eq_none.mp h
    exact ⟨s.head, List.mem_singleton_self _, mem_head.mpr ⟨ha, Nat.le_trans ha.2.2 this⟩⟩
  | next s t h ih =>
    intro a ha
    rw [split_of_some h]
    by_cases hle : a.value ≤ s.head.last
    · exact ⟨s.head, List.mem_cons_self, mem_head.mpr ⟨ha, hle⟩⟩
    · obtain ⟨u, hu, hau⟩ := mem_aboveValue?.mpr ⟨ha, Nat.lt_of_not_le hle⟩
      rw [h] at hu
      cases hu
      obtain ⟨n, hn, han⟩ := ih a hau
      exact ⟨n, List.mem_cons_of_mem _ hn, han⟩

/-- A network inside the span that holds its first address holds no more than the first piece. -/
theorem subset_head_of_mem (hn : n.Aligned) (hs : ∀ a ∈ n, a ∈ s) (hstart : s.start ∈ n) : ∀ a ∈ n, a ∈ s.head := by
  have hlow := (hs _ n.lowest_mem).2.1
  have hhigh := (hs _ n.highest_mem).2.2
  have hfirst : n.first = s.first := Nat.le_antisymm hstart.2.1 hlow
  exact subset_head hn hstart.1.symm hfirst hhigh

theorem head_maximal (s : Span) : s.head.Maximal (· ∈ s) where
  aligned := s.head_aligned
  free_of_mem := s.head_subset
  eq_of_subset m hm hs hsub := by
    have hin := subset_head_of_mem hm hs (hsub _ s.start_mem_head)
    exact hm.ext_mem s.head_aligned fun a => ⟨hin a, hsub a⟩

/-- A maximal network of the span is the first piece or one of what is left above it. -/
theorem maximal_iff_above (h : s.aboveValue? s.head.last = some t) :
    n.Maximal (· ∈ s) ↔ n = s.head ∨ n.Maximal (· ∈ t) := by
  have hmem : ∀ a, a ∈ t ↔ a ∈ s ∧ s.head.last < a.value := fun a => by
    rw [← mem_aboveValue?, h]
    simp
  have apart : ∀ {m : Network}, (∀ a ∈ m, a ∈ s) → (∀ a ∈ m, a ∉ s.head) → ∀ a ∈ m, a ∈ t := fun hs hd a ha =>
    (hmem a).mpr ⟨hs a ha, Nat.lt_of_not_le fun hle => hd a ha (mem_head.mpr ⟨hs a ha, hle⟩)⟩
  have notHead : ∀ a ∈ t, a ∉ s.head := fun a ha hh =>
    Nat.not_lt_of_le hh.2.2 ((hmem a).mp ha).2
  constructor
  · intro hn
    rcases Network.nested_or_disjoint n s.head with hsub | hsub | hd
    · exact Or.inl (s.head_maximal.eq_of_subset n hn.aligned hn.free_of_mem hsub)
    · exact Or.inl (hn.eq_of_subset _ s.head_aligned s.head_subset hsub).symm
    · refine Or.inr ⟨hn.aligned, apart hn.free_of_mem hd, fun m hm ht hsub => ?_⟩
      exact hn.eq_of_subset m hm (fun a ha => ((hmem a).mp (ht a ha)).1) hsub
  · rintro (rfl | hn)
    · exact s.head_maximal
    · refine ⟨hn.aligned, fun a ha => ((hmem a).mp (hn.free_of_mem a ha)).1, fun m hm hs hsub => ?_⟩
      rcases Network.nested_or_disjoint m s.head with hin | hin | hd
      · -- The larger network would be the first piece, where `n` has no address.
        obtain rfl := s.head_maximal.eq_of_subset m hm hs hin
        exact absurd (hsub _ n.lowest_mem) (notHead _ (hn.free_of_mem _ n.lowest_mem))
      · exact absurd (hin _ (hsub _ n.lowest_mem)) (notHead _ (hn.free_of_mem _ n.lowest_mem))
      · exact hn.eq_of_subset m hm (apart hs hd) hsub

/-- The pieces of a span are its maximal networks. -/
theorem mem_split_iff : n ∈ s.split ↔ n.Maximal (· ∈ s) := by
  induction s using split_induction with
  | last s h =>
    rw [split_of_none h, List.mem_singleton]
    constructor
    · rintro rfl
      exact s.head_maximal
    · intro hn
      refine (hn.eq_of_subset _ s.head_aligned s.head_subset fun a ha => ?_).symm
      have has := hn.free_of_mem a ha
      exact mem_head.mpr ⟨has, Nat.le_trans has.2.2 (aboveValue?_eq_none.mp h)⟩
  | next s t h ih => rw [split_of_some h, List.mem_cons, maximal_iff_above h, ih]

end Span

end AddressPlan.Net
