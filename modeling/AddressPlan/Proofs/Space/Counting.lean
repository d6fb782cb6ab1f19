import AddressPlan.Proofs.Space.Enumerate
import AddressPlan.Proofs.Space.Recompute
import Mathlib.Data.Set.Card

/-!
Counting, indexing, listing and claiming free addresses are walks of their own over the spans. All of them agree with one
list, which holds every free address once and in ascending order.
-/

namespace AddressPlan

open Net

namespace Net.Span

variable {s t : Span} {a : Address} {i k : Nat}

/-- All addresses of a span in ascending order. -/
def addresses (s : Span) : List Address :=
  s.lowest s.size

theorem nth?_eq_none : s.nth? i = none ↔ s.size ≤ i := by
  have := s.first_le_last
  unfold nth? size
  split
  · exact iff_of_false (Option.some_ne_none _) (by omega)
  · exact iff_of_true rfl (by omega)

theorem getElem?_lowest : (s.lowest k)[i]? = if i < k then s.nth? i else none := by
  -- Below the size every index has an address, so none is left out.
  have hmap : s.lowest k = (List.range (min k s.size)).map fun j => (s.nth? j).getD s.start := by
    rw [lowest, ← List.filterMap_eq_map]
    refine List.filterMap_congr fun j hj => ?_
    have hlt : j < s.size := Nat.lt_of_lt_of_le (List.mem_range.mp hj) (Nat.min_le_right _ _)
    cases hn : s.nth? j with
    | none => exact absurd (nth?_eq_none.mp hn) (Nat.not_le_of_lt hlt)
    | some a => rw [Function.comp_apply, hn, Option.getD_some]
  rw [hmap, List.getElem?_map]
  by_cases hi : i < min k s.size
  · rw [List.getElem?_range hi, if_pos (Nat.lt_of_lt_of_le hi (Nat.min_le_left _ _))]
    cases hn : s.nth? i with
    | none => exact absurd (nth?_eq_none.mp hn) (by omega)
    | some a => simp [hn]
  · rw [List.getElem?_eq_none (by rw [List.length_range]; omega)]
    split
    · exact (nth?_eq_none.mpr (by omega)).symm
    · rfl

theorem getElem?_addresses (s : Span) (i : Nat) : s.addresses[i]? = s.nth? i := by
  rw [addresses, getElem?_lowest]
  split
  · rfl
  · exact (nth?_eq_none.mpr (by omega)).symm

@[simp] theorem length_addresses (s : Span) : s.addresses.length = s.size := by
  rw [addresses, length_lowest, Nat.min_self]

@[simp] theorem mem_addresses : a ∈ s.addresses ↔ a ∈ s := by
  rw [addresses, mem_lowest]
  refine and_iff_left_of_imp fun ha => ?_
  have := ha.2.2
  unfold size
  omega

theorem lowest_eq_take (s : Span) (k : Nat) : s.lowest k = s.addresses.take k := by
  refine List.ext_getElem? fun i => ?_
  rw [getElem?_lowest, List.getElem?_take, getElem?_addresses]

/-- After the first address come those above it. -/
theorem addresses_eq_cons (s : Span) : s.addresses = s.start :: (s.aboveValue? s.first).toList.flatMap addresses := by
  refine List.ext_getElem? fun i => ?_
  rw [getElem?_addresses]
  cases i with
  | zero => exact nth?_eq_some.mpr ⟨rfl, rfl, s.first_le_last⟩
  | succ i =>
    rw [List.getElem?_cons_succ]
    cases ht : s.aboveValue? s.first with
    | none =>
      have := aboveValue?_eq_none.mp ht
      have hsize : s.size ≤ i + 1 := by
        unfold size
        omega
      exact nth?_eq_none.mpr hsize
    | some t =>
      obtain ⟨hf, h1, h2, -⟩ := aboveValue?_eq_some ht
      rw [Option.toList_some, List.flatMap_singleton, getElem?_addresses]
      refine Option.ext fun a => ?_
      rw [nth?_eq_some, nth?_eq_some, hf, h1, h2]
      refine and_congr_right fun _ => ?_
      omega

end Net.Span

namespace Space

variable {f : Family} {sp left : Space} {ss : List Span} {a : Address} {k n : Nat}

/-- All free addresses in ascending order. -/
def addresses (sp : Space) : List Address :=
  sp.free.flatMap Span.addresses

@[simp] theorem mem_addresses : a ∈ sp.addresses ↔ a ∈ sp := by
  simp only [addresses, List.mem_flatMap, Span.mem_addresses, mem_iff]

/-! ### The walks -/

theorem lowestOf_eq_take : ∀ (k : Nat) (ss : List Span), lowestOf k ss = (ss.flatMap Span.addresses).take k
  | k, [] => by rw [lowestOf, List.flatMap_nil, List.take_nil]
  | k, s :: ss => by
    rw [lowestOf, lowestOf_eq_take, List.flatMap_cons, List.take_append, Span.length_addresses, Span.lowest_eq_take]

theorem lowest_eq_take (sp : Space) (k : Nat) : sp.lowest k = sp.addresses.take k :=
  lowestOf_eq_take k sp.free

theorem size_eq_length (sp : Space) : sp.size = sp.addresses.length := by
  unfold size addresses
  induction sp.free with
  | nil => rfl
  | cons s ss ih => rw [List.foldr_cons, ih, List.flatMap_cons, List.length_append, Span.length_addresses]

theorem nthOf?_eq_getElem? : ∀ (n : Nat) (ss : List Span), nthOf? n ss = (ss.flatMap Span.addresses)[n]?
  | _, [] => rfl
  | n, s :: ss => by
    rw [nthOf?, List.flatMap_cons, List.getElem?_append, Span.length_addresses, Span.getElem?_addresses,
      nthOf?_eq_getElem?]

theorem nth?_eq_getElem? (sp : Space) (n : Nat) : sp.nth? n = sp.addresses[n]? :=
  nthOf?_eq_getElem? n sp.free

theorem addresses_pairwise (h : Ascending f sp.free) : sp.addresses.Pairwise fun a b => a.value < b.value := by
  have hall : sp.lowest sp.size = sp.addresses := by
    rw [lowest_eq_take, size_eq_length, List.take_length]
  exact hall ▸ (lowestFree_lowest h sp.size).ascending

/-- There is only one list with the free addresses in ascending order. -/
theorem eq_addresses {as : List Address} (h : Ascending f sp.free) (has : as.Pairwise fun a b => a.value < b.value)
    (hmem : ∀ a, a ∈ as ↔ a ∈ sp) : as = sp.addresses := by
  have : Std.Irrefl fun a b : Address => a.value < b.value :=
    ⟨fun a => Nat.lt_irrefl a.value⟩
  have : Std.Antisymm fun a b : Address => a.value < b.value :=
    ⟨fun _ _ hab hba => absurd hba (Nat.lt_asymm hab)⟩
  exact has.eq_of_mem_iff (addresses_pairwise h) fun a => (hmem a).trans mem_addresses.symm

/-! ### Claiming one by one -/

theorem takeAddress?_eq_none : sp.takeAddress? = none ↔ sp.addresses = [] := by
  unfold takeAddress? addresses
  cases sp.free with
  | nil => exact iff_of_true rfl rfl
  | cons s ss =>
    rw [List.flatMap_cons, Span.addresses_eq_cons]
    exact iff_of_false nofun nofun

theorem addresses_of_takeAddress? (h : sp.takeAddress? = some (a, left)) : sp.addresses = a :: left.addresses := by
  unfold takeAddress? at h
  split at h
  · cases h
  · rename_i s ss hss
    cases h
    rw [addresses, hss, List.flatMap_cons, Span.addresses_eq_cons, List.cons_append, ← List.flatMap_append]
    rfl

/-- Claims the lowest free address, if there is one. -/
def claim (sp : Space) : Space × Option Address :=
  match sp.takeAddress? with
  | some (a, left) => (left, some a)
  | none => (sp, none)

/-- Claims one address after the other, a number of times. -/
def claims (sp : Space) : Nat → Space × List (Option Address)
  | 0 => (sp, [])
  | k + 1 =>
    let (next, claimed) := sp.claim
    let (left, rest) := next.claims k
    (left, claimed :: rest)

theorem claim_spec (sp : Space) : sp.claim.2 = sp.addresses.head? ∧ sp.claim.1.addresses = sp.addresses.tail := by
  unfold claim
  cases ht : sp.takeAddress? with
  | none =>
    rw [takeAddress?_eq_none.mp ht]
    exact ⟨rfl, rfl⟩
  | some r =>
    rw [addresses_of_takeAddress? ht]
    exact ⟨rfl, rfl⟩

theorem claim_ascending (h : Ascending f sp.free) : Ascending f sp.claim.1.free := by
  unfold claim
  cases ht : sp.takeAddress? with
  | none => exact h
  | some r => exact (takeAddress?_eq_some h ht).2.2.2

/-- Claims give the lowest addresses, and nothing once all are gone; the others stay free. -/
theorem claims_spec : ∀ (k : Nat) {sp : Space}, Ascending f sp.free →
    (sp.claims k).2 = (List.range k).map (sp.addresses[·]?) ∧ (sp.claims k).1.addresses = sp.addresses.drop k ∧
      Ascending f (sp.claims k).1.free
  | 0, _, h => ⟨rfl, rfl, h⟩
  | k + 1, sp, h => by
    obtain ⟨hhead, htail⟩ := sp.claim_spec
    obtain ⟨htaken, hleft, hasc⟩ := claims_spec k (claim_ascending h)
    refine ⟨?_, ?_, hasc⟩
    · rw [List.range_succ_eq_map, List.map_cons, List.map_map]
      show sp.claim.2 :: (sp.claim.1.claims k).2 = _
      rw [htaken, hhead, htail, List.head?_eq_getElem?]
      refine congrArg (_ :: ·) (List.map_congr_left fun i _ => ?_)
      rw [List.getElem?_tail, Function.comp_apply]
    · show (sp.claim.1.claims k).1.addresses = _
      rw [hleft, htail, List.drop_tail]

/-- A batch has the lowest addresses, or there are too few. -/
theorem takeAddresses?_eq : ∀ (k : Nat) (sp : Space),
    sp.takeAddresses? k = if k ≤ sp.size then some (sp.addresses.take k) else none
  | 0, sp => (if_pos (Nat.zero_le _)).symm
  | k + 1, sp => by
    rw [takeAddresses?, size_eq_length]
    cases ht : sp.takeAddress? with
    | none =>
      rw [takeAddress?_eq_none.mp ht]
      rfl
    | some r =>
      obtain ⟨a, left⟩ := r
      rw [addresses_of_takeAddress? ht, List.length_cons, List.take_succ_cons, ← size_eq_length]
      show (left.takeAddresses? k >>= fun rest => some (a :: rest)) = _
      rw [takeAddresses?_eq k left]
      simp only [Nat.add_le_add_iff_right]
      split <;> rfl

/-! ### Cardinality -/

theorem nodup_addresses (h : Ascending f sp.free) : sp.addresses.Nodup :=
  (addresses_pairwise h).imp fun hlt heq => Nat.ne_of_lt hlt (congrArg Address.value heq)

theorem ncard_mem (h : Ascending f sp.free) : {a | a ∈ sp}.ncard = sp.size := by
  have hset : {a | a ∈ sp} = (sp.addresses.toFinset : Set Address) := by
    ext a
    simp
  rw [hset, Set.ncard_coe_finset, List.toFinset_card_of_nodup (nodup_addresses h), size_eq_length]

theorem finite_mem (sp : Space) : {a | a ∈ sp}.Finite :=
  sp.addresses.finite_toSet.subset fun _ ha => mem_addresses.mpr ha

/-- Without children all of a block is free. -/
theorem size_compute_nil (parent : Block) : (compute parent []).size = parent.size := by
  have hfree : (compute parent []).free = [parent.span] := by
    simp [compute, Block.sort, sweep]
  rw [size, hfree]
  rfl

/-- What is free and what is covered by at least one child make up the parent, however the children overlap. -/
theorem size_compute_add (parent : Block) (children : List Block) :
    (compute parent children).size + {a | a ∈ parent ∧ ∃ c ∈ children, a ∈ c}.ncard = parent.size := by
  let covered : Set Address := {a | ∃ c ∈ children, a ∈ c}
  have hfree : {a | a ∈ compute parent children} = {a | a ∈ compute parent []} \ covered := by
    ext a
    simp [covered, mem_compute]
  have hcovered : {a | a ∈ parent ∧ ∃ c ∈ children, a ∈ c} = {a | a ∈ compute parent []} ∩ covered := by
    ext a
    simp [covered, mem_compute]
  rw [← ncard_mem (compute_ascending parent children), hfree, hcovered, Nat.add_comm,
    Set.ncard_inter_add_ncard_sdiff_eq_ncard _ _ (finite_mem _), ncard_mem (compute_ascending parent []), size_compute_nil]

end Space

end AddressPlan
