import AddressPlan.Proofs.Allocation.Hosts
import AddressPlan.Proofs.Allocation.Siblings
import Mathlib.Data.List.Pairwise

/-!
Which records a parent depends on: those of its own routing domain that lie inside it, unless it is a container that
spans all routing domains. Catalogs that agree on these give the parent the same scope. They also hold the same
duplicates of whatever a batch creates in it, since a new record has no duplicate among the other new ones.
-/

namespace AddressPlan

open Net

/-- Equal parts of two lists have equal parts. -/
theorem filter_congr_of_filter {α : Type} {P Q : α → Bool} {as bs : List α} (h : as.filter Q = bs.filter Q)
    (hPQ : ∀ a, P a = true → Q a = true) : as.filter P = bs.filter P := by
  have hpart : ∀ cs : List α, cs.filter P = (cs.filter Q).filter P := fun cs => by
    rw [List.filter_filter]
    refine List.filter_congr fun a _ => ?_
    cases hP : P a with
    | false => rfl
    | true => exact (hPQ a hP).symm
  rw [hpart, h, ← hpart]

namespace Catalog

variable {c d : Catalog} {parent : Parent} {block : Block} {vrf : Option RecordId}

/-! ### The same records inside a block -/

/-- Both catalogs hold the same records, in the same order, among those of a routing domain inside a block. -/
structure SameWithin (block : Block) (vrf : Option RecordId) (c d : Catalog) : Prop where
  prefixes : c.prefixes.filter (fun q => block.contains q.block && q.vrf == vrf) =
    d.prefixes.filter fun q => block.contains q.block && q.vrf == vrf
  ranges : c.ranges.filter (fun r => block.containsAddress r.start.address && block.containsAddress r.stop.address &&
      r.vrf == vrf) =
    d.ranges.filter fun r => block.containsAddress r.start.address && block.containsAddress r.stop.address && r.vrf == vrf
  addresses : c.addresses.filter (fun a => block.containsAddress a.host.address && a.vrf == vrf) =
    d.addresses.filter fun a => block.containsAddress a.host.address && a.vrf == vrf

/-- The parent is the same record in both catalogs and spans no routing domain but its own, and both catalogs hold the
same records of this one inside it. A range whose bounds do not fit together has no inside. -/
def SameInside (parent : Parent) (c d : Catalog) : Prop :=
  match parent with
  | .prefixRecord id => ∃ p, c.prefix? id = some p ∧ d.prefix? id = some p ∧ p.spansAllVrfs = false ∧
      SameWithin p.block p.vrf c d
  | .rangeRecord id => ∃ r, c.range? id = some r ∧ d.range? id = some r ∧
      ∀ span, spanOf r = .ok span → SameWithin (.range span) r.vrf c d

theorem SameWithin.childPrefixes_eq {p : PrefixRecord} (h : SameWithin p.block p.vrf c d) (hown : p.spansAllVrfs = false) :
    c.childPrefixes p = d.childPrefixes p := by
  refine filter_congr_of_filter h.prefixes fun q hq => ?_
  simp only [hown, Bool.false_or, Bool.and_eq_true] at hq ⊢
  exact ⟨hq.1.2, hq.2⟩

theorem SameWithin.childRanges_eq {p : PrefixRecord} (h : SameWithin p.block p.vrf c d) (hown : p.spansAllVrfs = false) :
    c.childRanges p = d.childRanges p := by
  simp only [childRanges, hown, Bool.false_or]
  exact h.ranges

theorem SameWithin.childAddresses_eq (h : SameWithin block vrf c d) :
    c.childAddresses block vrf false = d.childAddresses block vrf false := by
  simp only [childAddresses, Bool.false_or]
  exact h.addresses

/-! ### Scopes -/

theorem vrf?_congr (hvrfs : c.vrfs = d.vrfs) (id : RecordId) : c.vrf? id = d.vrf? id := by
  rw [vrf?, vrf?, hvrfs]

theorem resolveVrf_congr (hvrfs : c.vrfs = d.vrfs) (vrf : Option RecordId) : c.resolveVrf vrf = d.resolveVrf vrf := by
  cases vrf with
  | none => rfl
  | some id => rw [resolveVrf, resolveVrf, vrf?_congr hvrfs]

theorem SameWithin.occupied_eq {p : PrefixRecord} (h : SameWithin p.block p.vrf c d) (hown : p.spansAllVrfs = false)
    (mode : Mode) : c.occupied p mode = d.occupied p mode := by
  cases mode with
  | prefixes => rw [occupied, occupied, h.childPrefixes_eq hown]
  | addresses => rw [occupied, occupied, h.childRanges_eq hown, hown, h.childAddresses_eq]

/-- The scope of a parent is the same in both catalogs, or cannot be loaded from either for the same reason. -/
theorem SameInside.scope_eq (h : SameInside parent c d) (hvrfs : c.vrfs = d.vrfs) (mode : Mode) :
    c.scope parent mode = d.scope parent mode := by
  cases parent with
  | prefixRecord id =>
    obtain ⟨p, hc, hd, hown, hsame⟩ := h
    simp only [scope, hc, hd, hsame.occupied_eq hown, resolveVrf_congr hvrfs]
  | rangeRecord id =>
    obtain ⟨r, hc, hd, hsame⟩ := h
    simp only [scope, hc, hd, resolveVrf_congr hvrfs]
    cases hspan : spanOf r with
    | error e => rfl
    | ok span =>
      have hchildren := (hsame span hspan).childAddresses_eq
      simp only [bind, Except.bind, hchildren]

theorem SameInside.sameWithin {mode : Mode} {s : Scope} (h : SameInside parent c d) (hs : c.scope parent mode = .ok s) :
    SameWithin s.block s.vrfId c d := by
  cases parent with
  | prefixRecord id =>
    obtain ⟨p, hp, -, hvrf, hblock, -⟩ := scope_prefix_eq_ok hs
    obtain ⟨p', hc, -, -, hsame⟩ := h
    cases hp.symm.trans hc
    rw [hblock, hvrf]
    exact hsame
  | rangeRecord id =>
    obtain ⟨r, span, hr, hspan, hvrf, hblock, -⟩ := scope_range_eq_ok hs
    obtain ⟨r', hc, -, hsame⟩ := h
    cases hr.symm.trans hc
    rw [hblock, hvrf]
    exact hsame span hspan

end Catalog

/-! ### Duplicates of new records -/

open Catalog

variable {c d : Catalog} {now now' : Clock} {parent : Parent} {id : RecordId}

theorem Catalog.mem_ids_of_prefix {p : PrefixRecord} (h : p ∈ c.prefixes) : p.id ∈ c.ids := by
  simp only [ids, List.mem_append]
  exact Or.inl (Or.inl (Or.inr (List.mem_map_of_mem h)))

theorem Catalog.mem_ids_of_address {a : AddressRecord} (h : a ∈ c.addresses) : a.id ∈ c.ids :=
  List.mem_append_right _ (List.mem_map_of_mem h)

/-- The duplicates of a new prefix are the old prefixes with its network in its routing domain. -/
theorem PrefixBatch.duplicates_eq {requests : List PrefixRequest} {p q : PrefixRecord} {created : List PrefixRecord}
    (h : PrefixBatch c now id requests p created) (hq : q ∈ created) :
    (c.withPrefixes created).duplicatePrefixes q =
      c.prefixes.filter fun r => r.vrf == q.vrf && r.network.truncate == q.network.truncate := by
  have hold : c.prefixes.filter (fun r => r.id != q.id && r.vrf == q.vrf && r.network.truncate == q.network.truncate) =
      c.prefixes.filter fun r => r.vrf == q.vrf && r.network.truncate == q.network.truncate := by
    refine List.filter_congr fun r hr => ?_
    have hid : r.id ≠ q.id := fun heq =>
      h.fresh.not_mem (List.mem_map_of_mem hq) (heq ▸ mem_ids_of_prefix hr)
    rw [bne_iff_ne.mpr hid, Bool.true_and]
  have hnew : created.filter (fun r => r.id != q.id && r.vrf == q.vrf && r.network.truncate == q.network.truncate) = [] := by
    refine List.filter_eq_nil_iff.mpr fun r hr hdup => ?_
    simp only [Bool.and_eq_true, bne_iff_ne, beq_iff_eq] at hdup
    obtain ⟨⟨hid, -⟩, hnetwork⟩ := hdup
    have : Std.Symm fun x y : PrefixRecord => ∀ a ∈ x.network, a ∉ y.network := ⟨fun _ _ hxy a ha ha' => hxy a ha' ha⟩
    have hapart : r.Apart q := h.apart.forall hr hq fun heq => hid (congrArg PrefixRecord.id heq)
    refine hapart _ r.network.lowest_mem (Network.mem_truncate.mp ?_)
    rw [← hnetwork]
    exact Network.mem_truncate.mpr r.network.lowest_mem
  rw [duplicatePrefixes, withPrefixes, List.filter_append, hold, hnew, List.append_nil]

/-- The duplicates of a new address are the old addresses with its host in its routing domain. -/
theorem AddressBatch.duplicates_eq {requests : List AddressRequest} {s : Scope} {a : AddressRecord}
    {created : List AddressRecord} (h : AddressBatch c now parent requests s created) (ha : a ∈ created) :
    (c.withAddresses created).duplicateAddresses a =
      c.addresses.filter fun b => b.vrf == a.vrf && b.host.address == a.host.address := by
  have hold : c.addresses.filter (fun b => b.id != a.id && b.vrf == a.vrf && b.host.address == a.host.address) =
      c.addresses.filter fun b => b.vrf == a.vrf && b.host.address == a.host.address := by
    refine List.filter_congr fun b hb => ?_
    have hid : b.id ≠ a.id := fun heq => h.fresh.not_mem (List.mem_map_of_mem ha) (heq ▸ mem_ids_of_address hb)
    rw [bne_iff_ne.mpr hid, Bool.true_and]
  have hnew : created.filter (fun b => b.id != a.id && b.vrf == a.vrf && b.host.address == a.host.address) = [] := by
    refine List.filter_eq_nil_iff.mpr fun b hb hdup => ?_
    simp only [Bool.and_eq_true, bne_iff_ne, beq_iff_eq] at hdup
    obtain ⟨⟨hid, -⟩, hhost⟩ := hdup
    have : Std.Symm fun x y : AddressRecord => x.host.address ≠ y.host.address := ⟨fun _ _ => Ne.symm⟩
    exact h.apart.forall hb ha (fun heq => hid (congrArg AddressRecord.id heq)) hhost
  rw [duplicateAddresses, withAddresses, List.filter_append, hold, hnew, List.append_nil]

/-- Records with the network of a new prefix in its routing domain lie inside its parent. -/
theorem PrefixBatch.duplicates_congr {requests requests' : List PrefixRequest} {p p' q q' : PrefixRecord} {s : Scope}
    {created created' : List PrefixRecord} (h : PrefixBatch c now id requests p created)
    (h' : PrefixBatch d now' id requests' p' created') (hs : c.scope (.prefixRecord id) .prefixes = .ok s)
    (hsame : SameWithin s.block s.vrfId c d) (hq : q ∈ created) (hq' : q' ∈ created') (hnetwork : q.network = q'.network)
    (hvrf : q.vrf = q'.vrf) :
    (c.withPrefixes created).duplicatePrefixes q = (d.withPrefixes created').duplicatePrefixes q' := by
  rw [h.duplicates_eq hq, h'.duplicates_eq hq', ← hnetwork, ← hvrf]
  obtain ⟨p₀, hp₀, -, hvrfId, hblock, -⟩ := scope_prefix_eq_ok hs
  cases h.found.symm.trans hp₀
  obtain ⟨req, hreq⟩ := h.answered hq
  refine filter_congr_of_filter hsame.prefixes fun r hr => ?_
  simp only [Bool.and_eq_true, beq_iff_eq] at hr ⊢
  refine ⟨Block.contains_iff.mpr fun a ha => ?_, by rw [hr.1, hreq.vrf, hvrfId]⟩
  have haq : a ∈ q.network := Network.mem_truncate.mp (hr.2 ▸ Network.mem_truncate.mpr (Block.mem_ofNetwork.mp ha))
  rw [hblock]
  exact Block.mem_ofNetwork.mpr (h.free_of_mem hq haq).1

theorem AddressBatch.duplicates_congr {requests requests' : List AddressRequest} {s s' : Scope} {a a' : AddressRecord}
    {created created' : List AddressRecord} (h : AddressBatch c now parent requests s created)
    (h' : AddressBatch d now' parent requests' s' created') (hsame : SameWithin s.block s.vrfId c d) (ha : a ∈ created)
    (ha' : a' ∈ created') (hhost : a.host = a'.host) (hvrf : a.vrf = a'.vrf) :
    (c.withAddresses created).duplicateAddresses a = (d.withAddresses created').duplicateAddresses a' := by
  rw [h.duplicates_eq ha, h'.duplicates_eq ha', ← hhost, ← hvrf]
  obtain ⟨req, -, hreq⟩ := exists_left_of_mem h.answers ha
  refine filter_congr_of_filter hsame.addresses fun b hb => ?_
  simp only [Bool.and_eq_true, beq_iff_eq] at hb ⊢
  have hin : a.host.address ∈ s.block := (mem_space.mp ((mem_space_iff_vacant h.found).mpr (h.vacant a ha))).1
  exact ⟨Block.containsAddress_iff.mpr (hb.2 ▸ hin), by rw [hb.1, hreq.vrf]⟩

end AddressPlan
