import AddressPlan.Catalog.Scope
import AddressPlan.Proofs.Except
import AddressPlan.Proofs.Space.Compute

/-!
What is free in a scope, told by the tables of the catalog. Records occupy a prefix if they lie in its routing
domain, or anywhere if the prefix spans all of them; a scope's space is the parent without what they occupy.
-/

namespace AddressPlan

open Net

theorem exists_mem_map {α β : Type} {f : α → β} {as : List α} {P : β → Prop} :
    (∃ b ∈ as.map f, P b) ↔ ∃ a ∈ as, P (f a) := by
  constructor
  · rintro ⟨_, hb, hp⟩
    obtain ⟨a, ha, rfl⟩ := List.mem_map.mp hb
    exact ⟨a, ha, hp⟩
  · rintro ⟨a, ha, hp⟩
    exact ⟨f a, List.mem_map_of_mem ha, hp⟩

/-! ### What occupies a parent -/

/-- Records of the given routing domain count for a prefix. -/
def PrefixRecord.Sees (p : PrefixRecord) (vrf : Option RecordId) : Prop :=
  p.spansAllVrfs = true ∨ vrf = p.vrf

def RangeRecord.Holds (r : RangeRecord) (a : Address) : Prop :=
  a.family = r.start.address.family ∧ r.start.address.value ≤ a.value ∧ a.value ≤ r.stop.address.value

namespace Catalog

variable {c : Catalog} {a : Address}

/-- An address inside a prefix record that counts for `p` and lies strictly inside it. -/
def InChildPrefix (c : Catalog) (p : PrefixRecord) (a : Address) : Prop :=
  ∃ q ∈ c.prefixes, q.id ≠ p.id ∧ p.network.length < q.network.length ∧ (∀ x ∈ q.network, x ∈ p.network) ∧
    p.Sees q.vrf ∧ a ∈ q.network

/-- The address of a record that counts for `p`. -/
def InChildAddress (c : Catalog) (p : PrefixRecord) (a : Address) : Prop :=
  ∃ r ∈ c.addresses, p.Sees r.vrf ∧ r.host.address = a

/-- An address in a range that counts for `p` and has both bounds inside it. -/
def InChildRange (c : Catalog) (p : PrefixRecord) (a : Address) : Prop :=
  ∃ r ∈ c.ranges, p.Sees r.vrf ∧ r.start.address ∈ p.network ∧ r.stop.address ∈ p.network ∧ r.Holds a

/-- The address of a record in the routing domain of a range. -/
def InRangeAddress (c : Catalog) (r : RangeRecord) (a : Address) : Prop :=
  ∃ x ∈ c.addresses, x.vrf = r.vrf ∧ x.host.address = a

/-- An address of a parent that no child of the kind in the way occupies. -/
def Vacant (c : Catalog) (parent : Parent) (mode : Mode) (a : Address) : Prop :=
  match parent, mode with
  | .prefixRecord id, .prefixes => ∃ p, c.prefix? id = some p ∧ a ∈ p.network ∧ ¬ c.InChildPrefix p a
  | .prefixRecord id, .addresses =>
    ∃ p, c.prefix? id = some p ∧ a ∈ p.network ∧ ¬ c.InChildAddress p a ∧ ¬ c.InChildRange p a
  | .rangeRecord id, _ => ∃ r, c.range? id = some r ∧ r.Holds a ∧ ¬ c.InRangeAddress r a

/-! ### Loading a scope -/

theorem resolveVrf_eq_ok {v : Option RecordId} {vrf : Option Vrf} (h : c.resolveVrf v = .ok vrf) :
    vrf.map (·.id) = v := by
  unfold resolveVrf at h
  split at h
  · cases h
    rfl
  · split at h
    · rename_i found hfind
      cases h
      exact congrArg some (by simpa using List.find?_some hfind)
    · cases h

theorem spanOf_eq_ok {r : RangeRecord} {s : Span} (h : spanOf r = .ok s) :
    s.family = r.start.address.family ∧ s.first = r.start.address.value ∧ s.last = r.stop.address.value := by
  unfold spanOf RangeRecord.span at h
  split at h
  · cases hb : Span.between r.start.address r.stop.address with
    | error e => rw [hb] at h; cases h
    | ok t =>
      rw [hb] at h
      cases h
      exact (Span.between_eq_ok hb).2
  · cases h

theorem mem_spanOf {r : RangeRecord} {s : Span} (h : spanOf r = .ok s) : a ∈ s ↔ r.Holds a := by
  obtain ⟨hf, h1, h2⟩ := spanOf_eq_ok h
  rw [Span.mem_iff, hf, h1, h2]
  exact Iff.rfl

/-- A scope of a prefix is made of the prefix, what occupies it and its routing domain. -/
theorem scope_prefix_eq_ok {id : RecordId} {mode : Mode} {s : Scope} (h : c.scope (.prefixRecord id) mode = .ok s) :
    ∃ p, c.prefix? id = some p ∧ c.occupied p mode = .ok s.children ∧ s.vrfId = p.vrf ∧ s.block = p.block ∧
      s.maskLength = p.network.length := by
  simp only [scope] at h
  split at h
  · cases h
  · rename_i p hp
    obtain ⟨children, hocc, h⟩ := bind_eq_ok.mp h
    obtain ⟨vrf, hvrf, h⟩ := bind_eq_ok.mp h
    cases h
    exact ⟨p, hp, hocc, resolveVrf_eq_ok hvrf, rfl, rfl⟩

theorem scope_range_eq_ok {id : RecordId} {mode : Mode} {s : Scope} (h : c.scope (.rangeRecord id) mode = .ok s) :
    ∃ r span, c.range? id = some r ∧ spanOf r = .ok span ∧ s.vrfId = r.vrf ∧ s.block = .range span ∧
      s.maskLength = r.maskLength ∧
      s.children = (c.childAddresses (.range span) r.vrf false).map fun a => Block.host a.host.address := by
  simp only [scope] at h
  split at h
  · cases h
  · rename_i r hr
    obtain ⟨span, hspan, h⟩ := bind_eq_ok.mp h
    obtain ⟨vrf, hvrf, h⟩ := bind_eq_ok.mp h
    cases h
    exact ⟨r, span, hr, hspan, resolveVrf_eq_ok hvrf, rfl, rfl, rfl⟩

/-! ### The space of a scope -/

theorem mem_space {s : Scope} : a ∈ s.space ↔ a ∈ s.block ∧ ∀ b ∈ s.children, a ∉ b :=
  Space.mem_compute

theorem sees_iff {p : PrefixRecord} {vrf : Option RecordId} : (p.spansAllVrfs || vrf == p.vrf) = true ↔ p.Sees vrf := by
  rw [Bool.or_eq_true, beq_iff_eq, PrefixRecord.Sees]

theorem mem_childPrefixes {p q : PrefixRecord} : q ∈ c.childPrefixes p ↔
    q ∈ c.prefixes ∧ q.id ≠ p.id ∧ p.network.length < q.network.length ∧ (∀ x ∈ q.network, x ∈ p.network) ∧
      p.Sees q.vrf := by
  have hin : p.block.contains q.block = true ↔ ∀ x ∈ q.network, x ∈ p.network := by
    rw [Block.contains_iff]
    simp only [PrefixRecord.block, Block.mem_ofNetwork]
  simp only [childPrefixes, List.mem_filter, Bool.and_eq_true, bne_iff_ne, decide_eq_true_eq, hin, sees_iff, and_assoc]

theorem mem_childRanges {p : PrefixRecord} {r : RangeRecord} : r ∈ c.childRanges p ↔
    r ∈ c.ranges ∧ r.start.address ∈ p.network ∧ r.stop.address ∈ p.network ∧ p.Sees r.vrf := by
  simp only [childRanges, List.mem_filter, Bool.and_eq_true, Block.containsAddress_iff, PrefixRecord.block,
    Block.mem_ofNetwork, sees_iff, and_assoc]

theorem mem_childAddresses {b : Block} {vrf : Option RecordId} {all : Bool} {x : AddressRecord} :
    x ∈ c.childAddresses b vrf all ↔ x ∈ c.addresses ∧ x.host.address ∈ b ∧ (all = true ∨ x.vrf = vrf) := by
  simp only [childAddresses, List.mem_filter, Bool.and_eq_true, Block.containsAddress_iff, Bool.or_eq_true, beq_iff_eq]

theorem mem_occupied_prefixes {p : PrefixRecord} {children : List Block} (h : c.occupied p .prefixes = .ok children) :
    (∃ b ∈ children, a ∈ b) ↔ c.InChildPrefix p a := by
  cases h
  simp only [exists_mem_map, mem_childPrefixes, PrefixRecord.block, Block.mem_ofNetwork, InChildPrefix, and_assoc]

theorem mem_occupied_addresses {p : PrefixRecord} {children : List Block} (h : c.occupied p .addresses = .ok children)
    (ha : a ∈ p.network) : (∃ b ∈ children, a ∈ b) ↔ c.InChildAddress p a ∨ c.InChildRange p a := by
  simp only [occupied] at h
  obtain ⟨spans, hm, h⟩ := bind_eq_ok.mp h
  cases h
  obtain ⟨hgiven, hfrom⟩ := mapM_eq_ok hm
  have hhosts : (∃ b ∈ (c.childAddresses p.block p.vrf p.spansAllVrfs).map fun x => Block.host x.host.address, a ∈ b) ↔
      c.InChildAddress p a := by
    simp only [exists_mem_map, Block.mem_host, mem_childAddresses, InChildAddress]
    constructor
    · rintro ⟨x, ⟨hx, -, hsees⟩, rfl⟩
      exact ⟨x, hx, hsees, rfl⟩
    · rintro ⟨x, hx, hsees, rfl⟩
      exact ⟨x, ⟨hx, Block.mem_ofNetwork.mpr ha, hsees⟩, rfl⟩
  have hranges : (∃ b ∈ spans.map Block.range, a ∈ b) ↔ c.InChildRange p a := by
    simp only [exists_mem_map, Block.mem_range]
    constructor
    · rintro ⟨s, hs, has⟩
      obtain ⟨r, hr, hrs⟩ := hfrom s hs
      obtain ⟨hmem, hstart, hstop, hsees⟩ := mem_childRanges.mp hr
      exact ⟨r, hmem, hsees, hstart, hstop, (mem_spanOf hrs).mp has⟩
    · rintro ⟨r, hmem, hsees, hstart, hstop, hholds⟩
      obtain ⟨s, hs, hrs⟩ := hgiven r (mem_childRanges.mpr ⟨hmem, hstart, hstop, hsees⟩)
      exact ⟨s, hs, (mem_spanOf hrs).mpr hholds⟩
  simp only [List.mem_append, or_and_right, exists_or, hhosts, hranges]

theorem mem_space_iff_vacant {parent : Parent} {mode : Mode} {s : Scope} (h : c.scope parent mode = .ok s) :
    a ∈ s.space ↔ c.Vacant parent mode a := by
  rw [mem_space]
  have hnone : (∀ b ∈ s.children, a ∉ b) ↔ ¬ ∃ b ∈ s.children, a ∈ b := by
    simp only [not_exists, not_and]
  cases parent with
  | prefixRecord id =>
    obtain ⟨p, hp, hocc, -, hblock, -⟩ := scope_prefix_eq_ok h
    rw [hnone, hblock]
    have hin : a ∈ p.block ↔ a ∈ p.network := Block.mem_ofNetwork
    cases mode with
    | prefixes => simp [Vacant, hp, hin, mem_occupied_prefixes hocc]
    | addresses =>
      simp only [Vacant, hp, Option.some.injEq, exists_eq_left', hin, ← not_or]
      exact and_congr_right fun ha => not_congr (mem_occupied_addresses hocc ha)
  | rangeRecord id =>
    obtain ⟨r, span, hr, hspan, -, hblock, -, hchildren⟩ := scope_range_eq_ok h
    have hin : a ∈ Block.range span ↔ r.Holds a := Block.mem_range.trans (mem_spanOf hspan)
    rw [hnone, hblock, hchildren, hin]
    simp only [Vacant, hr, Option.some.injEq, exists_eq_left', exists_mem_map, Block.mem_host, mem_childAddresses,
      Bool.false_eq_true, false_or]
    refine and_congr_right fun ha => not_congr ⟨?_, ?_⟩
    · rintro ⟨x, ⟨hx, -, hvrf⟩, rfl⟩
      exact ⟨x, hx, hvrf, rfl⟩
    · rintro ⟨x, hx, hvrf, rfl⟩
      exact ⟨x, ⟨hx, hin.mpr ha, hvrf⟩, rfl⟩

theorem space_ascending (s : Scope) : Space.Ascending s.family s.space.free :=
  Space.compute_ascending _ _

/-! ### Small catalogs -/

/-- The first moment of 1970. -/
def epoch : Time.Timestamp :=
  ⟨⟨1970, 1, 1, by decide, by decide, by decide⟩, 0, 0, 0, 0, by decide, by decide, by decide, by decide⟩

/-- The first moment of the day after. -/
def nextDay : Time.Timestamp :=
  { epoch with date := ⟨1970, 1, 2, by decide, by decide, by decide⟩ }

/-- The network of the given length that starts at 10.0.0.0. -/
def tenNet (length : Fin 33) : Network :=
  ⟨⟨.v4, 0x0a000000, by decide⟩, length, Nat.le_of_lt_succ length.isLt⟩

/-- A catalog of nothing but active prefixes in the global table, with the given ids. -/
def ofPrefixes (prefixes : List (RecordId × Network)) : Catalog :=
  ⟨[], prefixes.map fun p => ⟨p.1, p.2, none, .active, .blank, epoch⟩, [], [], 0⟩

/-- A prefix and nothing in it. -/
def whole : Catalog :=
  ofPrefixes [(1, tenNet 24)]

/-- A prefix and one nested in it. -/
def nested : Catalog :=
  ofPrefixes [(1, tenNet 24), (2, tenNet 25)]

/-- A prefix of two addresses. -/
def pair : Catalog :=
  ofPrefixes [(1, tenNet 31)]

end Catalog

end AddressPlan
