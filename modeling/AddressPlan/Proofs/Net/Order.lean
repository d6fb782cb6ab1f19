import AddressPlan.Proofs.Net.Bits

/-!
The order of blocks. It compares one key after the other, so it is transitive and total, and sorting blocks of
one family puts them in the order of their first addresses. The keys tell all blocks apart, so there is only one way to
sort a list of them, and a block comes before those that lie inside it.
-/

namespace AddressPlan.Net

open Std

theorem Family.version_inj {f g : Family} (h : f.version = g.version) : f = g := by
  cases f <;> cases g <;> first | rfl | cases h

namespace Block

variable {b c : Block} {bs cs : List Block}

/-- The order compares the keys of blocks from the first to the last. -/
theorem order_eq_compareLex : order =
    compareLex (compareOn fun b : Block => b.family.version) (compareLex (compareOn fun b : Block => b.span.first)
      (compareLex (fun b c : Block => compare c.span.last b.span.last)
        (compareLex (compareOn fun b : Block => b.shape.1) (compareOn fun b : Block => b.shape.2)))) := rfl

instance : TransCmp order := by
  have : TransCmp fun b c : Block => compare c.span.last b.span.last :=
    inferInstanceAs (TransCmp fun b c => compareOn (fun d : Block => d.span.last) c b)
  rw [order_eq_compareLex]
  infer_instance

theorem first_le_of_order (h : (b.order c).isLE = true) (hf : b.family = c.family) : b.span.first ≤ c.span.first := by
  rw [order, hf, ReflOrd.compare_self] at h
  apply Nat.le_of_not_lt
  intro hlt
  rw [Nat.compare_eq_gt.mpr hlt] at h
  cases h

/-! ### Blocks with the same keys -/

/-- Blocks are level exactly if no key tells them apart. -/
theorem order_eq_eq : b.order c = .eq ↔ b.family.version = c.family.version ∧ b.span.first = c.span.first ∧
    c.span.last = b.span.last ∧ b.shape.1 = c.shape.1 ∧ b.shape.2 = c.shape.2 := by
  simp only [order, Ordering.then_eq_eq, Nat.compare_eq_eq]

/-- The bounds of a network tell its length, and its shape tells the address it is written with. -/
theorem eq_of_order (h : b.order c = .eq) : b = c := by
  obtain ⟨hversion, hfirst, hlast, hkind, hshape⟩ := order_eq_eq.mp h
  have hf := Family.version_inj hversion
  cases b with
  | network n =>
    cases c with
    | network m =>
      have hn := n.last_add_one
      have hm := m.last_add_one
      change n.first = m.first at hfirst
      change m.last = n.last at hlast
      have hlength := Network.length_eq_of_size hf (by omega)
      have haddress := Address.ext_value hf hshape
      obtain ⟨a, l, hl⟩ := n
      obtain ⟨x, k, hk⟩ := m
      cases haddress
      cases hlength
      rfl
    | range t => cases hkind
  | range s =>
    cases c with
    | network m => cases hkind
    | range t => exact congrArg range (Span.ext_bounds hf hfirst hlast.symm)

instance : LawfulEqCmp order where
  compare_self := ReflCmp.compare_self
  eq_of_compare := eq_of_order

theorem order_antisymm (h : (b.order c).isLE = true) (h' : (c.order b).isLE = true) : b = c :=
  eq_of_order (OrientedCmp.isLE_antisymm h h')

/-! ### Blocks inside others -/

/-- A block comes before one that has a part of its addresses: it starts lower, or there and ends higher. -/
theorem order_lt_of_strict (hsub : ∀ a ∈ c, a ∈ b) (hmore : ∃ a ∈ b, a ∉ c) : b.order c = .lt := by
  obtain ⟨hf, hfirst, hlast⟩ := Span.subset_iff.mp hsub
  have hfamily : b.family = c.family := hf.symm
  rw [order, hfamily, ReflOrd.compare_self]
  rcases Nat.lt_or_eq_of_le hfirst with hlt | heq
  · rw [Nat.compare_eq_lt.mpr hlt]
    rfl
  · have hlt : c.span.last < b.span.last := by
      apply Nat.lt_of_not_le
      intro hle
      obtain ⟨a, hb, hc⟩ := hmore
      exact hc (Span.subset_iff.mpr ⟨hfamily, Nat.le_of_eq heq.symm, hle⟩ a hb)
    rw [heq, ReflOrd.compare_self, Nat.compare_eq_lt.mpr hlt]
    rfl

/-! ### Sorting -/

theorem mem_sort : b ∈ sort bs ↔ b ∈ bs :=
  List.mem_mergeSort

theorem sort_perm (bs : List Block) : (sort bs).Perm bs :=
  List.mergeSort_perm _ _

theorem sort_pairwise (bs : List Block) : (sort bs).Pairwise fun b c => (b.order c).isLE = true := by
  refine List.pairwise_mergeSort (fun a b c => TransCmp.isLE_trans) (fun a b => ?_) bs
  have hswap : b.order a = (a.order b).swap := OrientedCmp.eq_swap
  rw [hswap]
  cases a.order b <;> rfl

theorem sort_first_pairwise {f : Family} (hf : ∀ b ∈ bs, b.family = f) :
    (sort bs).Pairwise fun b c => b.span.first ≤ c.span.first :=
  (sort_pairwise bs).imp_of_mem fun hb hc h =>
    first_le_of_order h ((hf _ (mem_sort.mp hb)).trans (hf _ (mem_sort.mp hc)).symm)

/-- Blocks have only one sorted arrangement. -/
theorem eq_sort (hperm : cs.Perm bs) (hsorted : cs.Pairwise fun b c => (b.order c).isLE = true) : cs = sort bs :=
  (hperm.trans (sort_perm bs).symm).eq_of_pairwise (fun _ _ _ _ => order_antisymm) hsorted (sort_pairwise bs)

theorem sort_eq_of_perm (h : bs.Perm cs) : sort bs = sort cs :=
  eq_sort ((sort_perm bs).trans h) (sort_pairwise bs)

/-- The order of blocks, of any shape and written with any of their addresses, is a total one in which only equal blocks are
level. A block comes before every block that has some of its addresses and no others. So sorting does not depend on how
the blocks are arranged, and nothing else sorts them in another way. -/
theorem order_lawful :
    (∀ b : Block, b.order b = .eq) ∧
    (∀ b c : Block, b.order c = (c.order b).swap) ∧
    (∀ b c : Block, (b.order c).isLE = true → (c.order b).isLE = true → b = c) ∧
    (∀ b c d : Block, (b.order c).isLE = true → (c.order d).isLE = true → (b.order d).isLE = true) ∧
    (∀ b c : Block, b.order c = .eq ↔ b = c) ∧
    (∀ b c : Block, (∀ a, c.Covers a → b.Covers a) → (∃ a, b.Covers a ∧ ¬ c.Covers a) → b.order c = .lt) ∧
    ∀ bs cs : List Block, bs.Perm cs →
      sort bs = sort cs ∧ (cs.Pairwise (fun b c => (b.order c).isLE = true) → cs = sort bs) := by
  refine ⟨fun _ => ReflCmp.compare_self, fun _ _ => OrientedCmp.eq_swap, fun _ _ => order_antisymm,
    fun _ _ _ => TransCmp.isLE_trans, fun _ _ => LawfulEqCmp.compare_eq_iff_eq, fun b c hsub hmore => ?_, fun bs cs hperm => ?_⟩
  · simp only [covers_iff_mem] at hsub hmore
    exact order_lt_of_strict hsub hmore
  · exact ⟨sort_eq_of_perm hperm, eq_sort hperm.symm⟩

/-- The network of the given length around an address from 10.0.0.0 on. -/
def tenNetwork (low length : Nat) : Block :=
  .network ⟨.ofLowBits .v4 (0x0a000000 + low), min length 32, Nat.min_le_right _ _⟩

/-- The addresses from 10.0.0.0 to 10.0.0.255, as a range. -/
def tenRange : Block :=
  .range (tenNetwork 0 24).span

/-- Four blocks in order. The first three have the same addresses, the last one has half of them. -/
def lookalikes : List Block :=
  [tenNetwork 0 24, tenNetwork 5 24, tenRange, tenNetwork 7 25]

theorem order_lawful_lookalikes :
    ((tenNetwork 0 24).order (tenNetwork 5 24)).isLE = true ∧ ((tenNetwork 5 24).order tenRange).isLE = true ∧
    ((tenNetwork 0 24).order tenRange).isLE = true ∧
    (∀ a, (tenNetwork 7 25).Covers a → tenRange.Covers a) ∧ (∃ a, tenRange.Covers a ∧ ¬ (tenNetwork 7 25).Covers a) ∧
    tenRange.order (tenNetwork 7 25) = .lt ∧
    lookalikes.reverse.Perm lookalikes ∧ lookalikes.Pairwise (fun b c => (b.order c).isLE = true) ∧
    sort lookalikes.reverse = lookalikes := by
  obtain ⟨-, -, -, htrans, -, hinside, hsort⟩ := order_lawful
  have hwritten : ((tenNetwork 0 24).order (tenNetwork 5 24)).isLE = true := by decide
  have hrange : ((tenNetwork 5 24).order tenRange).isLE = true := by decide
  have hsub : ∀ a, (tenNetwork 7 25).Covers a → tenRange.Covers a := by
    simp only [covers_iff_mem]
    exact Span.subset_iff.mpr ⟨rfl, by decide, by decide⟩
  have hmore : ∃ a, tenRange.Covers a ∧ ¬ (tenNetwork 7 25).Covers a := by
    simp only [covers_iff_mem]
    exact ⟨⟨.v4, 0x0a0000ff, by decide⟩, by decide, by decide⟩
  have hperm : lookalikes.reverse.Perm lookalikes := List.reverse_perm _
  have hsorted : lookalikes.Pairwise (fun b c => (b.order c).isLE = true) := by decide
  exact ⟨hwritten, hrange, htrans _ _ _ hwritten hrange, hsub, hmore, hinside _ _ hsub hmore, hperm, hsorted,
    ((hsort _ _ hperm).2 hsorted).symm⟩

end Block

end AddressPlan.Net
