import AddressPlan.Proofs.Allocation.Hosts
import AddressPlan.Proofs.Allocation.Review
import AddressPlan.Proofs.Allocation.Siblings
import AddressPlan.Proofs.Space.Recompute

/-!
The first item of a batch and the rest of it. When the first item has been committed by itself, the scope is loaded anew,
and its space is what the batch has left after the first carving. So the rest of the batch finds what it would have found.
-/

namespace AddressPlan

open Net

variable {validators : List Validator} {now : Clock} {c : Catalog} {id : RecordId} {parent : Parent} {s s' : Scope}

/-! ### What is left of a space -/

namespace Space

variable {f : Family} {sp left : Space} {n : Network} {a : Address} {length : Nat}

theorem takeNetwork?_without (h : Ascending f sp.free) (ht : sp.takeNetwork? length = some (n, left)) :
    Without f sp [.network n] left := by
  have hcarved := carve_without h (.network length)
  simp only [carve, ht] at hcarved
  exact hcarved

theorem takeAddress?_without (h : Ascending f sp.free) (ht : sp.takeAddress? = some (a, left)) :
    Without f sp [.host a] left := by
  have hcarved := carve_without h .address
  simp only [carve, ht] at hcarved
  exact hcarved

/-- Networks for several lengths are the one for the first, and those for the others in what it leaves. -/
theorem takeNetworks_cons {lengths : List Nat} {ns : List Network} : sp.takeNetworks (length :: lengths) = .ok ns ↔
    ∃ n left rest, sp.takeNetwork? length = some (n, left) ∧ left.takeNetworks lengths = .ok rest ∧ ns = n :: rest := by
  rw [takeNetworks]
  constructor
  · intro h
    split at h
    · cases h
    rename_i n left htake
    cases hrest : left.takeNetworks lengths with
    | error e =>
      rw [hrest] at h
      cases h
    | ok rest =>
      rw [hrest] at h
      cases h
      exact ⟨n, left, rest, htake, hrest, rfl⟩
  · rintro ⟨n, left, rest, htake, hrest, rfl⟩
    rw [htake]
    dsimp only
    rw [hrest]
    rfl

/-- Several addresses are the lowest one, and the others in what it leaves. -/
theorem takeAddresses?_succ {k : Nat} {as : List Address} : sp.takeAddresses? (k + 1) = some as ↔
    ∃ a left rest, sp.takeAddress? = some (a, left) ∧ left.takeAddresses? k = some rest ∧ as = a :: rest := by
  simp only [takeAddresses?, Option.bind_eq_bind, Option.bind_eq_some_iff, Option.some.injEq, Prod.exists]
  grind

theorem size_takeAddress? (ht : sp.takeAddress? = some (a, left)) : sp.size = left.size + 1 := by
  unfold takeAddress? at ht
  split at ht
  · cases ht
  · rename_i s ss hfree
    cases ht
    have hs := s.first_le_last
    rw [size, hfree, size, List.foldr_cons, List.foldr_append]
    cases habove : s.aboveValue? s.first with
    | none =>
      have hlast := Span.aboveValue?_eq_none.mp habove
      simp only [Option.toList_none, List.foldr_nil, Span.size]
      omega
    | some u =>
      obtain ⟨-, hfirst, hlast, hlt⟩ := Span.aboveValue?_eq_some habove
      simp only [Option.toList_some, List.foldr_cons, List.foldr_nil, Span.size]
      omega

end Space

/-- What is left of the space of a scope is the space of the scope that is loaded after it, if both hold the same. -/
theorem Scope.space_of_without {left : Space} {taken : List Block} (hleft : Space.Without s.family s.space taken left)
    (hblock : s'.block = s.block) (hmem : ∀ a, a ∈ s'.space ↔ a ∈ s.space ∧ ∀ b ∈ taken, a ∉ b) : s'.space = left := by
  have hparent : left.parent = s'.block := hleft.parent.trans hblock.symm
  have hasc : Space.Ascending s'.block.family left.free := by
    rw [hblock]
    exact hleft.ascending
  refine (Space.eq_compute hparent hasc fun a => ?_).symm
  rw [hleft.mem, ← hmem]
  exact Catalog.mem_space

/-! ### Scopes after a commit -/

namespace Catalog

/-- Further prefixes change nothing about a scope but its children. -/
theorem scope_withPrefixes (h : c.scope (.prefixRecord id) .prefixes = .ok s) (ps : List PrefixRecord) :
    ∃ children, (c.withPrefixes ps).scope (.prefixRecord id) .prefixes = .ok { s with children := children } := by
  obtain ⟨p, hp, -⟩ := scope_prefix_eq_ok h
  have hp' := (grown_withPrefixes c ps).prefix? hp
  simp only [scope, hp] at h
  obtain ⟨children, -, h⟩ := bind_eq_ok.mp h
  obtain ⟨vrf, hvrf, h⟩ := bind_eq_ok.mp h
  cases h
  refine ⟨((c.withPrefixes ps).childPrefixes p).map (·.block), ?_⟩
  simp only [scope, hp']
  exact bind_eq_ok.mpr ⟨_, rfl, bind_eq_ok.mpr ⟨vrf, hvrf, rfl⟩⟩

/-- Further addresses change nothing about a scope but its children. -/
theorem scope_withAddresses (h : c.scope parent .addresses = .ok s) (as : List AddressRecord) :
    ∃ children, (c.withAddresses as).scope parent .addresses = .ok { s with children := children } := by
  cases parent with
  | prefixRecord id =>
    obtain ⟨p, hp, -⟩ := scope_prefix_eq_ok h
    have hp' : (c.withAddresses as).prefix? id = some p := hp
    simp only [scope, hp] at h
    obtain ⟨children, hocc, h⟩ := bind_eq_ok.mp h
    obtain ⟨spans, hspans, -⟩ := bind_eq_ok.mp hocc
    obtain ⟨vrf, hvrf, h⟩ := bind_eq_ok.mp h
    cases h
    simp only [scope, hp']
    exact ⟨_, bind_eq_ok.mpr ⟨_, bind_eq_ok.mpr ⟨spans, hspans, rfl⟩, bind_eq_ok.mpr ⟨vrf, hvrf, rfl⟩⟩⟩
  | rangeRecord id =>
    obtain ⟨r, -, hr, -⟩ := scope_range_eq_ok h
    have hr' : (c.withAddresses as).range? id = some r := hr
    simp only [scope, hr] at h
    obtain ⟨span, hspan, h⟩ := bind_eq_ok.mp h
    obtain ⟨vrf, hvrf, h⟩ := bind_eq_ok.mp h
    cases h
    simp only [scope, hr']
    exact ⟨_, bind_eq_ok.mpr ⟨span, hspan, bind_eq_ok.mpr ⟨vrf, hvrf, rfl⟩⟩⟩

/-- A new prefix strictly inside another, in its routing domain, takes its own addresses and nothing else. -/
theorem vacant_withPrefix {p q : PrefixRecord} {a : Address} (hp : c.prefix? id = some p) (hid : q.id ≠ p.id)
    (hlong : p.network.length < q.network.length) (hin : ∀ x ∈ q.network, x ∈ p.network) (hvrf : q.vrf = p.vrf) :
    (c.withPrefixes [q]).Vacant (.prefixRecord id) .prefixes a ↔
      c.Vacant (.prefixRecord id) .prefixes a ∧ a ∉ q.network := by
  have hp' := (grown_withPrefixes c [q]).prefix? hp
  have hchild : (c.withPrefixes [q]).InChildPrefix p a ↔ c.InChildPrefix p a ∨ a ∈ q.network := by
    simp only [InChildPrefix, withPrefixes, List.mem_append, List.mem_singleton, or_and_right, exists_or, exists_eq_left]
    exact or_congr_right ⟨fun h => h.2.2.2.2, fun h => ⟨hid, hlong, hin, Or.inr hvrf, h⟩⟩
  simp only [Vacant, hp, hp', Option.some.injEq, exists_eq_left', hchild, not_or, and_assoc]

/-- A new address in the routing domain of a parent takes itself and nothing else. -/
theorem vacant_withAddress {x : AddressRecord} {a : Address} (hvrf : c.parentVrf? parent = some x.vrf) :
    (c.withAddresses [x]).Vacant parent .addresses a ↔ c.Vacant parent .addresses a ∧ a ≠ x.host.address := by
  cases parent with
  | prefixRecord id =>
    obtain ⟨p, hp, hpvrf⟩ := Option.map_eq_some_iff.mp hvrf
    have hp' : (c.withAddresses [x]).prefix? id = some p := hp
    have hhost : (c.withAddresses [x]).InChildAddress p a ↔ c.InChildAddress p a ∨ a = x.host.address := by
      simp only [InChildAddress, withAddresses, List.mem_append, List.mem_singleton, or_and_right, exists_or, exists_eq_left]
      exact or_congr_right ⟨fun h => h.2.symm, fun h => ⟨Or.inr hpvrf.symm, h.symm⟩⟩
    have hrange : (c.withAddresses [x]).InChildRange p a ↔ c.InChildRange p a := Iff.rfl
    simp only [Vacant, hp, hp', Option.some.injEq, exists_eq_left', hhost, hrange, not_or]
    tauto
  | rangeRecord id =>
    obtain ⟨r, hr, hrvrf⟩ := Option.map_eq_some_iff.mp hvrf
    have hr' : (c.withAddresses [x]).range? id = some r := hr
    have hhost : (c.withAddresses [x]).InRangeAddress r a ↔ c.InRangeAddress r a ∨ a = x.host.address := by
      simp only [InRangeAddress, withAddresses, List.mem_append, List.mem_singleton, or_and_right, exists_or, exists_eq_left]
      exact or_congr_right ⟨fun h => h.2.symm, fun h => ⟨hrvrf.symm, h.symm⟩⟩
    simp only [Vacant, hr, hr', Option.some.injEq, exists_eq_left', hhost, not_or, and_assoc]

end Catalog

/-! ### Validators -/

/-- What the validator accepts among more records, it accepts among fewer. -/
def Validator.Hereditary (v : Validator) : Prop :=
  ∀ r c c', c.Grown c' → Accepts (v r c') → Accepts (v r c)

namespace Validator

variable {globally : Bool} {c' : Catalog}

theorem enforces_of_grown {vrf : Option RecordId} (h : c.Grown c') (he : enforces globally c vrf = true) :
    enforces globally c' vrf = true := by
  cases vrf with
  | none => exact he
  | some id =>
    obtain ⟨v, hv, hunique⟩ := (Option.any_eq_true ..).mp he
    exact (Option.any_eq_true ..).mpr ⟨v, h.vrfs.find?_eq_some hv, hunique⟩

/-- More records hold all duplicates that fewer hold, and enforce uniqueness where these do. -/
theorem hereditary_uniqueness (globally : Bool) : Hereditary (uniqueness globally) := by
  intro r c c' h hr
  cases r with
  | prefixRecord p =>
    refine accepts_uniqueness_prefix.mpr fun he => ?_
    have hnone := accepts_uniqueness_prefix.mp hr (enforces_of_grown h he)
    exact List.prefix_nil.mp (hnone ▸ h.prefixes.filter _)
  | addressRecord a =>
    refine accepts_uniqueness_address.mpr fun he => ?_
    have hnone := accepts_uniqueness_address.mp hr (enforces_of_grown h he)
    exact List.prefix_nil.mp (hnone ▸ h.addresses.filter _)

/-- A validator that looks at the record only. -/
theorem hereditary_const (v : Created → Option Rejection) : Hereditary fun r _ => v r :=
  fun _ _ _ _ hr => hr

end Validator

/-! ### The lengths of the requests -/

theorem checkLengths_cons {x : PrefixRequest} {xs : List PrefixRequest} {lengths : List Nat} :
    checkLengths s (x :: xs) = .ok lengths ↔
      ∃ l ls, checkLengths s [x] = .ok [l] ∧ checkLengths s xs = .ok ls ∧ lengths = l :: ls := by
  simp only [checkLengths_eq_ok_iff, List.forall_mem_cons, List.not_mem_nil, false_implies, implies_true, and_true]
  constructor
  · rintro ⟨⟨hx, hxs⟩, rfl⟩
    obtain ⟨l, hl, -⟩ := lengthProblem_eq_none hx
    exact ⟨l, _, ⟨hx, by rw [List.filterMap_cons_some (by rw [hl]; rfl)]; rfl⟩, ⟨hxs, rfl⟩,
      List.filterMap_cons_some (by rw [hl]; rfl)⟩
  · rintro ⟨l, ls, ⟨hx, hl⟩, ⟨hxs, rfl⟩, rfl⟩
    refine ⟨⟨hx, hxs⟩, ?_⟩
    rw [← List.singleton_append, hl, ← List.filterMap_append, List.singleton_append]

/-! ### The first record -/

section Insert
variable {α β : Type} {insert : Catalog → α → Option (β × Catalog)} {record : α → RecordId → β}
  {extend : Catalog → List β → Catalog} {idOf : β → RecordId} {a : α} {as : List α} {bs : List β} {c' : Catalog}

theorem Catalog.Inserts.insertAll_single {i : RecordId} (hins : Inserts insert record extend idOf) (hi : c.freshId? = some i) :
    insertAll insert c [a] = some ([record a i], extend c [record a i]) := by
  simp only [insertAll, hins.insert_eq, hi, Option.map_some, Option.bind_eq_bind, Option.bind_some]

/-- Creating records for several items is creating the first, and the others in the catalog with the first. -/
theorem Catalog.Inserts.insertAll_cons (hins : Inserts insert record extend idOf)
    (h : insertAll insert c (a :: as) = some (bs, c')) : ∃ i rest, c.freshId? = some i ∧
      insertAll insert (extend c [record a i]) as = some (rest, c') ∧ bs = record a i :: rest := by
  simp only [insertAll, hins.insert_eq, Option.bind_eq_bind, Option.bind_eq_some_iff, Option.map_eq_some_iff,
    Option.some.injEq] at h
  obtain ⟨_, ⟨i, hi, rfl⟩, ⟨rest, _⟩, hrest, heq⟩ := h
  cases heq
  exact ⟨i, rest, hi, hrest, rfl⟩

end Insert

/-! ### The first item and the others -/

/-- What the validators have accepted of a batch, they accept of its first record when this is the only new one. -/
theorem review_first {r : Created} {rs : List Created} {c' : Catalog} (hv : ∀ v ∈ validators, v.Hereditary)
    (hgrown : c.Grown c') (h : review validators c' (r :: rs) = .ok ()) : review validators c [r] = .ok () :=
  review_eq_ok.mpr fun r' hr' v hmem =>
    hv v hmem r' c c' hgrown (review_eq_ok.mp h r' (List.mem_of_mem_take (i := 1) hr') v hmem)

theorem review_rest {r : Created} {rs : List Created} (h : review validators c (r :: rs) = .ok ()) :
    review validators c rs = .ok () :=
  review_eq_ok.mpr fun r' hr' => review_eq_ok.mp h r' (List.mem_cons_of_mem _ hr')

/-- With another prefix of the batch to come, the first one is longer than the parent and so a child of it: the scope
that is loaded after it has the space that the carving has left. -/
theorem PrefixBatch.space_after_first {p q q' : PrefixRecord} {qs : List PrefixRecord} {requests : List PrefixRequest}
    {left : Space} {length : Nat} {children : List Block} (batch : PrefixBatch c now id requests p (q :: q' :: qs))
    (hs : c.scope (.prefixRecord id) .prefixes = .ok s)
    (hs' : (c.withPrefixes [q]).scope (.prefixRecord id) .prefixes = .ok { s with children := children })
    (htake : s.space.takeNetwork? length = some (q.network, left)) : ({ s with children := children } : Scope).space = left := by
  have hq : q ∈ q :: q' :: qs := List.mem_cons_self
  have hq' : q' ∈ q :: q' :: qs := List.mem_cons_of_mem _ List.mem_cons_self
  have hlong : p.network.length < q.network.length :=
    batch.longer_of_apart hq (fun a ha => (batch.free_of_mem hq' ha).1)
      ((List.pairwise_cons.mp batch.apart).1 q' List.mem_cons_self)
  obtain ⟨req, hreq⟩ := batch.answered hq
  refine Scope.space_of_without (Space.takeNetwork?_without (Catalog.space_ascending s) htake) rfl fun a => ?_
  rw [Catalog.mem_space_iff_vacant hs', Catalog.mem_space_iff_vacant hs, List.forall_mem_singleton, Block.mem_network,
    Catalog.vacant_withPrefix batch.found (batch.id_ne hq) hlong (fun a ha => (batch.free_of_mem hq ha).1) hreq.vrf]

/-- A batch of prefixes that succeeds also succeeds in two parts, the first of which is one prefix. -/
theorem allocatePrefixes_cons {x : PrefixRequest} {xs : List PrefixRequest} {r : Allocated PrefixRecord}
    (hv : ∀ v ∈ validators, v.Hereditary) (h : allocatePrefixes validators now c id (x :: xs) = .ok r) :
    ∃ q qs s₁ s₂, r.created = q :: qs ∧
      allocatePrefixes validators now c id [x] = .ok ⟨s₁, [q], c.withPrefixes [q]⟩ ∧
      allocatePrefixes validators now (c.withPrefixes [q]) id xs = .ok ⟨s₂, qs, r.catalog⟩ := by
  obtain ⟨p, batch, -⟩ := allocatePrefixes_eq_ok h
  obtain ⟨hs, lengths, networks, hlengths, hnetworks, hins, hreview⟩ := allocatePrefixes_eq_ok_iff.mp h
  obtain ⟨l, ls, hl, hls, rfl⟩ := checkLengths_cons.mp hlengths
  obtain ⟨n, left, ns, htake, hrest, rfl⟩ := Space.takeNetworks_cons.mp hnetworks
  rw [List.zipWith_cons_cons] at hins
  obtain ⟨i, qs, hi, hqs, hcreated⟩ := (Catalog.inserts_prefix now).insertAll_cons hins
  obtain ⟨hcatalog, -, -⟩ := (Catalog.inserts_prefix now).insertAll_eq_some hqs
  obtain ⟨children, hs'⟩ := Catalog.scope_withPrefixes hs [(newPrefix r.scope.vrfId n x).record i (now.creation i)]
  rw [hcreated] at hreview batch
  refine ⟨_, qs, r.scope, { r.scope with children := children }, hcreated, ?_, ?_⟩
  · exact allocatePrefixes_eq_ok_iff.mpr ⟨hs, [l], [n], hl, Space.takeNetworks_cons.mpr ⟨n, left, [], htake, rfl, rfl⟩,
      (Catalog.inserts_prefix now).insertAll_single hi, review_first hv (hcatalog ▸ Catalog.grown_withPrefixes _ qs) hreview⟩
  · refine allocatePrefixes_eq_ok_iff.mpr ⟨hs', ls, ns, hls, ?_, hqs, review_rest hreview⟩
    cases xs with
    | nil =>
      cases hls
      exact hrest
    | cons y ys =>
      obtain ⟨l', ls', -, -, rfl⟩ := checkLengths_cons.mp hls
      obtain ⟨n', left', ns', -, -, rfl⟩ := Space.takeNetworks_cons.mp hrest
      obtain ⟨i', qs', -, -, rfl⟩ := (Catalog.inserts_prefix now).insertAll_cons hqs
      rw [batch.space_after_first hs hs' htake]
      exact hrest

/-- A batch of addresses that succeeds also succeeds in two parts, the first of which is one address. -/
theorem allocateAddresses_cons {x : AddressRequest} {xs : List AddressRequest} {r : Allocated AddressRecord}
    (hv : ∀ v ∈ validators, v.Hereditary) (h : allocateAddresses validators now c parent (x :: xs) = .ok r) :
    ∃ a as s₁ s₂, r.created = a :: as ∧
      allocateAddresses validators now c parent [x] = .ok ⟨s₁, [a], c.withAddresses [a]⟩ ∧
      allocateAddresses validators now (c.withAddresses [a]) parent xs = .ok ⟨s₂, as, r.catalog⟩ := by
  obtain ⟨hs, hroom, addresses, hosts, haddresses, hhosts, hins, hreview⟩ := allocateAddresses_eq_ok_iff.mp h
  obtain ⟨host, left, rest, htake, hrest, rfl⟩ := Space.takeAddresses?_succ.mp haddresses
  simp only [List.mapM_cons, Option.bind_eq_bind, Option.bind_eq_some_iff, Option.pure_def, Option.some.injEq] at hhosts
  obtain ⟨n, hn, ns, hns, rfl⟩ := hhosts
  rw [List.zipWith_cons_cons] at hins
  obtain ⟨i, as, hi, has, hcreated⟩ := (Catalog.inserts_address now).insertAll_cons hins
  obtain ⟨hcatalog, -, -⟩ := (Catalog.inserts_address now).insertAll_eq_some has
  generalize ha : (newAddress r.scope.vrfId n x).record i (now.creation i) = a at *
  have hvrf : a.vrf = r.scope.vrfId := ha ▸ rfl
  have hhost : a.host.address = host := ha ▸ (Network.of?_eq_some hn).1
  obtain ⟨children, hs'⟩ := Catalog.scope_withAddresses hs [a]
  have hspace : ({ r.scope with children := children } : Scope).space = left := by
    refine Scope.space_of_without (Space.takeAddress?_without (Catalog.space_ascending _) htake) rfl fun b => ?_
    rw [Catalog.mem_space_iff_vacant hs', Catalog.mem_space_iff_vacant hs, List.forall_mem_singleton, Block.mem_host,
      Catalog.vacant_withAddress (hvrf ▸ Catalog.parentVrf?_of_scope hs), hhost]
  have hsize := Space.size_takeAddress? htake
  rw [hcreated] at hreview
  rw [List.length_cons] at hroom
  refine ⟨a, as, r.scope, { r.scope with children := children }, hcreated, ?_, ?_⟩
  · refine allocateAddresses_eq_ok_iff.mpr ⟨hs, ?_, [host], [n], Space.takeAddresses?_succ.mpr ⟨host, left, [], htake, rfl, rfl⟩,
      ?_, ?_, review_first hv (hcatalog ▸ Catalog.grown_withAddresses _ as) hreview⟩
    · exact Nat.le_trans (Nat.le_add_left _ _) hroom
    · simp only [List.mapM_cons, hn, List.mapM_nil, Option.pure_def, Option.bind_eq_bind, Option.bind_some]
    · subst ha
      exact (Catalog.inserts_address now).insertAll_single hi
  · refine allocateAddresses_eq_ok_iff.mpr ⟨hs', ?_, rest, ns, ?_, hns, has, review_rest hreview⟩
    · rw [hspace]
      omega
    · rw [hspace]
      exact hrest

end AddressPlan
