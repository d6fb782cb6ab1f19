import AddressPlan.Proofs.Allocation.Hosts
import AddressPlan.Proofs.Allocation.Listing
import AddressPlan.Proofs.Allocation.Runs

/-!
Addresses created over a run, from any parents. What an earlier call has created is in the table that a later one finds,
so it is not given out a second time: neither along the steps of a catalog, nor by the calls on an allocator.
-/

namespace AddressPlan

/-- The addresses that a step has created. -/
def Step.createdAddresses (s : Step) : List AddressRecord :=
  match s.commit with
  | .addresses _ created => created
  | _ => []

/-- The new record, if it is that of an address. -/
def Created.address? : Created → Option AddressRecord
  | .addressRecord a => some a
  | .prefixRecord _ => none

theorem Step.addresses_created (s : Step) : s.commit.created.filterMap Created.address? = s.createdAddresses := by
  rw [Step.createdAddresses]
  cases s.commit with
  | prefixes id created => exact List.filterMap_eq_nil_iff.mpr (List.forall_mem_map.mpr fun _ _ => rfl)
  | seed records => rfl
  | addresses parent created =>
    rw [Commit.created, List.filterMap_map]
    exact List.filterMap_some

namespace Catalog

variable {c : Catalog} {ts : List Attempt} {s : Step}

/-- The addresses that a run has created, in the order of their creation. -/
def createdAddresses (c : Catalog) (ts : List Attempt) : List AddressRecord :=
  (c.steps ts).flatMap Step.createdAddresses

theorem exclusive_of_mem_steps (hs : s ∈ c.steps ts) {parent : Parent} {created : List AddressRecord}
    (hcommit : s.commit = .addresses parent created) : Exclusive s.before parent created s.after := by
  obtain ⟨-, ⟨now, hcommitted⟩, -⟩ := (grown_steps ts c).2 s hs
  rw [hcommit] at hcommitted
  generalize s.after = after at hcommitted
  cases hcommitted with
  | addresses batch => exact batch.exclusive

theorem exclusive_createdAddresses (hs : s ∈ c.steps ts) (hne : s.createdAddresses ≠ []) :
    ∃ parent, Exclusive s.before parent s.createdAddresses s.after := by
  cases hcommit : s.commit with
  | prefixes => simp [Step.createdAddresses, hcommit] at hne
  | seed => simp [Step.createdAddresses, hcommit] at hne
  | addresses parent created =>
    have hcreated : s.createdAddresses = created := by rw [Step.createdAddresses, hcommit]
    rw [hcreated]
    exact ⟨parent, exclusive_of_mem_steps hs hcommit⟩

/-- No two addresses created in a run are the same in the same routing domain. -/
theorem createdAddresses_pairwise (c : Catalog) (ts : List Attempt) :
    (c.createdAddresses ts).Pairwise fun a b => ¬ a.SameHost b := by
  rw [createdAddresses, List.pairwise_flatMap]
  refine ⟨fun s hs => ?_, (steps_pairwise ts c).imp_of_mem fun {s s'} hs hs' hlater a ha b hb hsame => ?_⟩
  · by_cases hne : s.createdAddresses = []
    · rw [hne]
      exact .nil
    · obtain ⟨parent, hex⟩ := exclusive_createdAddresses hs hne
      exact hex.apart
  · -- The earlier record is in the table that the later batch has found.
    obtain ⟨parent, hex⟩ := exclusive_createdAddresses hs (List.ne_nil_of_mem ha)
    obtain ⟨parent', hex'⟩ := exclusive_createdAddresses hs' (List.ne_nil_of_mem hb)
    refine hex'.apart_before b hb a (hlater.addresses.subset ?_) hsame.symm
    rw [hex.appended]
    exact List.mem_append_right _ ha

/-- Every batch of addresses is exclusive at the moment it is committed, and no two addresses created in a run are
the same in the same routing domain. So it is with each call on an allocator, and with calls made one after the other. -/
theorem createdAddresses_exclusive (c : Catalog) (ts : List Attempt) :
    (∀ s ∈ c.steps ts, ∀ parent created, s.commit = .addresses parent created →
      Exclusive s.before parent created s.after) ∧
    ((c.createdAddresses ts).Pairwise fun a b => ¬ a.SameHost b) ∧
    (∀ (a : Allocator) (s : Site) parent requests r, (a.allocateAddresses parent requests).outcome s = .ok r →
      ∃ d u, a.OpensAt s (.of .addresses parent a.lockScope) d u ∧ Exclusive d parent r.created r.catalog ∧
        ∀ now, a.store.kept now ((a.allocateAddresses parent requests).after s) = .ok r.catalog) ∧
    ∀ (a : Allocator) (s : Site), (∀ t ∈ ts, t.validators = a.validators) → a.Manages c (ts.map Attempt.timed) s →
      (∀ o ∈ a.run s (ts.map Attempt.timed), o.Sound) →
        ((a.run s (ts.map Attempt.timed)).flatMap Observation.created).filterMap Created.address? = c.createdAddresses ts ∧
        ∀ now, a.store.kept now (a.leave s (ts.map Attempt.timed)) = .ok (c.outcome ts) := by
  refine ⟨fun s hs parent created => exclusive_of_mem_steps hs, createdAddresses_pairwise c ts, fun a s parent requests r h => ?_,
    fun a s hvalidators hs hsound => ?_⟩
  · obtain ⟨d, u, hopen, hbatch⟩ := Allocator.exists_batch_of_ok h
    obtain ⟨batch, hcatalog⟩ := allocateAddresses_eq_ok hbatch
    exact ⟨d, u, hopen, hcatalog ▸ batch.exclusive, Allocator.kept_of_ok h⟩
  · obtain ⟨hcreated, hkept⟩ := Allocator.run_calls hs hvalidators hsound
    refine ⟨?_, hkept⟩
    rw [hcreated, List.filterMap_flatMap, createdAddresses]
    exact List.flatMap_congr fun s _ => s.addresses_created

/-- A batch of one address from a prefix. -/
def oneAddress (id : RecordId) : Attempt :=
  ⟨[], epoch, .addresses (.prefixRecord id) [⟨.active, "", .blank⟩]⟩

/-- A prefix and one nested in it give out the same addresses, but each of them only once. -/
theorem createdAddresses_exclusive_nested :
    let ts := [oneAddress 1, oneAddress 2]
    let observed := Allocator.unchecked.run (Allocator.site nested) (ts.map Attempt.timed)
    ((observed.flatMap Observation.created).filterMap Created.address?).map (·.host.address.value) = [0x0a000000, 0x0a000001] ∧
    (((observed.flatMap Observation.created).filterMap Created.address?).Pairwise fun a b => ¬ a.SameHost b) ∧
    ∃ r d u, (Allocator.unchecked.allocateAddresses (.prefixRecord 1) (addressesOf ["a"])).outcome (Allocator.site nested) = .ok r ∧
      Allocator.unchecked.OpensAt (Allocator.site nested) (.global .addresses) d u ∧
      Exclusive d (.prefixRecord 1) r.created r.catalog ∧ r.created.length = 1 := by
  intro ts observed
  have hone : ((Allocator.unchecked.allocateAddresses (.prefixRecord 1) (addressesOf ["a"])).outcome
      (Allocator.site nested)).toOption.map (·.created.length) = some 1 := by decide +kernel
  obtain ⟨r, hr, hlength⟩ := toOption_map_eq_some hone
  obtain ⟨-, hapart, hcalls, hrun⟩ := createdAddresses_exclusive nested [oneAddress 1, oneAddress 2]
  obtain ⟨hobserved, -⟩ := hrun Allocator.unchecked (Allocator.site nested) (by simp [oneAddress, Allocator.unchecked])
    (Allocator.manages_memory (s := Allocator.site nested) rfl rfl) (by decide +kernel)
  obtain ⟨d, u, hopen, hexclusive, -⟩ := hcalls _ _ _ _ r hr
  refine ⟨?_, hobserved ▸ hapart, r, d, u, hr, hopen, hexclusive, hlength⟩
  rw [hobserved]
  decide +kernel

end Catalog

end AddressPlan
