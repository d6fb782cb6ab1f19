import AddressPlan.Allocation.Allocator
import AddressPlan.Proofs.Catalog.Scope
import AddressPlan.Proofs.Space.Enumerate
import AddressPlan.Proofs.Store.Site

/-!
Listings are the complement of the tables: all maximal free networks of a prefix, and the lowest free addresses
of a parent. A listing only reads the store.
-/

namespace AddressPlan

open Net

variable {a : Allocator} {c : Catalog} {s : Site} {id : RecordId} {parent : Parent} {mode : Mode} {scope : Scope}

theorem Store.scope_ok {st : Store} (hc : st.snapshot s = .ok c s) (h : c.scope parent mode = .ok scope) :
    st.scope parent mode s = .ok scope s := by
  rw [Store.scope, Act.bind_ok hc, h]
  rfl

namespace Allocator

theorem availablePrefixes_ok (hc : a.store.snapshot s = .ok c s) (h : c.scope (.prefixRecord id) .prefixes = .ok scope) :
    ∃ e, a.availablePrefixes id s = .ok (scope, scope.space.networks) { s with events := s.events ++ [e] } := by
  refine ⟨.loadedPrefixes scope.children.length scope.label, ?_⟩
  rw [availablePrefixes, Act.bind_ok (Act.mapError_ok (Store.scope_ok hc h)), Act.bind_ok (Act.note_apply _ _)]
  rfl

theorem availableAddresses_ok (hc : a.store.snapshot s = .ok c s) (h : c.scope parent .addresses = .ok scope) (k : Nat) :
    ∃ e, a.availableAddresses parent k s = .ok (scope, scope.space.lowest k) { s with events := s.events ++ [e] } := by
  refine ⟨.loadedBlocks scope.children.length scope.label, ?_⟩
  rw [availableAddresses, Act.bind_ok (Act.mapError_ok (Store.scope_ok hc h)), Act.bind_ok (Act.note_apply _ _)]
  rfl

/-- The free networks of a scope are the maximal ones that the tables leave vacant, in ascending order. -/
theorem networks_of_scope (h : c.scope (.prefixRecord id) .prefixes = .ok scope) :
    scope.space.networks.Pairwise (fun m n => m.last < n.first) ∧
      ∀ n, n ∈ scope.space.networks ↔ n.Maximal (c.Vacant (.prefixRecord id) .prefixes) := by
  have hasc := Catalog.space_ascending scope
  refine ⟨Space.networks_pairwise hasc, fun n => (Space.mem_networks_iff hasc).trans ⟨?_, ?_⟩⟩
  · exact Network.Maximal.congr fun _ => Catalog.mem_space_iff_vacant h
  · exact Network.Maximal.congr fun _ => (Catalog.mem_space_iff_vacant h).symm

theorem lowest_of_scope (h : c.scope parent .addresses = .ok scope) (k : Nat) :
    LowestFree (c.Vacant parent .addresses) k (scope.space.lowest k) :=
  (Space.lowestFree_lowest (Catalog.space_ascending scope) k).congr fun _ => Catalog.mem_space_iff_vacant h

/-- What an allocator lists of a parent whose scope can be loaded: for a prefix, exactly the maximal aligned networks
that no other prefix inside it occupies, in ascending order; for any parent, exactly the lowest vacant addresses. -/
theorem listings_exact (a : Allocator) (s : Site) (c : Catalog) (hc : a.store.snapshot s = .ok c s) :
    (∀ id scope, c.scope (.prefixRecord id) .prefixes = .ok scope →
      ∃ ns e, a.availablePrefixes id s = .ok (scope, ns) { s with events := s.events ++ [e] } ∧
        ns.Pairwise (fun m n => m.last < n.first) ∧
        ∀ n, n ∈ ns ↔ n.Maximal (c.Vacant (.prefixRecord id) .prefixes)) ∧
    ∀ parent k scope, c.scope parent .addresses = .ok scope →
      ∃ as e, a.availableAddresses parent k s = .ok (scope, as) { s with events := s.events ++ [e] } ∧
        LowestFree (c.Vacant parent .addresses) k as := by
  refine ⟨fun id scope h => ?_, fun parent k scope h => ?_⟩
  · obtain ⟨e, he⟩ := availablePrefixes_ok hc h
    exact ⟨_, e, he, networks_of_scope h⟩
  · obtain ⟨e, he⟩ := availableAddresses_ok hc h k
    exact ⟨_, e, he, lowest_of_scope h k⟩

/-! ### In memory -/

/-- An allocator for catalogs in memory. -/
def inMemory : Allocator :=
  .of .memory .inProcess .global true .all []

/-- The same without validators. -/
def unchecked : Allocator :=
  ⟨.memory, .inProcess, .global, []⟩

def site (c : Catalog) : Site :=
  ⟨⟨[], []⟩, c, Catalog.epoch, []⟩

theorem listings_exact_nested :
    (∃ scope ns e, inMemory.availablePrefixes 1 (site .nested) = .ok (scope, ns) { site .nested with events := [e] } ∧
      ns.Pairwise (fun m n => m.last < n.first) ∧
      ∀ n, n ∈ ns ↔ n.Maximal (Catalog.nested.Vacant (.prefixRecord 1) .prefixes)) ∧
    ∃ scope as e, inMemory.availableAddresses (.prefixRecord 1) 3 (site .nested) =
        .ok (scope, as) { site .nested with events := [e] } ∧
      LowestFree (Catalog.nested.Vacant (.prefixRecord 1) .addresses) 3 as := by
  have hall := listings_exact inMemory (site .nested) .nested rfl
  have hloads : ∀ mode, (Catalog.nested.scope (.prefixRecord 1) mode).toOption.isSome := by
    intro mode
    cases mode <;> decide +kernel
  refine ⟨?_, ?_⟩
  · cases h : Catalog.nested.scope (.prefixRecord 1) .prefixes with
    | error e => have := hloads .prefixes; rw [h] at this; cases this
    | ok scope => exact ⟨scope, hall.1 1 scope h⟩
  · cases h : Catalog.nested.scope (.prefixRecord 1) .addresses with
    | error e => have := hloads .addresses; rw [h] at this; cases this
    | ok scope => exact ⟨scope, hall.2 (.prefixRecord 1) 3 scope h⟩

/-- The networks that are listed of a prefix of the given id. -/
def listed (c : Catalog) (id : RecordId) : Option (List Network) :=
  match inMemory.availablePrefixes id (site c) with
  | .ok r _ => some r.2
  | .error _ _ => none

/-- A prefix that has the id of the one it is nested in is not in the way. -/
theorem listed_shared_id :
    listed (.ofPrefixes [(1, Catalog.tenNet 24), (1, Catalog.tenNet 26)]) 1 = some [Catalog.tenNet 24] ∧
      ∃ p ∈ (Catalog.ofPrefixes [(1, Catalog.tenNet 24), (1, Catalog.tenNet 26)]).prefixes, p.vrf = none ∧
        24 < p.network.length ∧ (∀ x ∈ p.network, x ∈ Catalog.tenNet 24) ∧ ∃ x ∈ Catalog.tenNet 24, x ∈ p.network := by
  have hsub : ∀ x ∈ Catalog.tenNet 26, x ∈ Catalog.tenNet 24 :=
    Network.subset_iff.mpr ⟨rfl, by decide +kernel, by decide +kernel⟩
  have hmem := (Catalog.tenNet 26).lowest_mem
  exact ⟨by decide +kernel, _, List.mem_cons_of_mem _ List.mem_cons_self, rfl, by decide, hsub, _, hsub _ hmem, hmem⟩

end Allocator

end AddressPlan
