import AddressPlan.Proofs.Allocation.History

/-!
Addresses created from a parent. Different parents look at different children, but the records of the parent's own
routing domain are in the way of all of them: no address is given out that one of these has.
-/

namespace AddressPlan

open Net

/-- The same address in the same routing domain. -/
def AddressRecord.SameHost (a b : AddressRecord) : Prop :=
  a.vrf = b.vrf ∧ a.host.address = b.host.address

theorem AddressRecord.SameHost.symm {a b : AddressRecord} (h : a.SameHost b) : b.SameHost a :=
  ⟨h.1.symm, h.2.symm⟩

namespace Catalog

variable {c : Catalog} {parent : Parent} {a : Address}

def Within (c : Catalog) (parent : Parent) (a : Address) : Prop :=
  match parent with
  | .prefixRecord id => ∃ p, c.prefix? id = some p ∧ a ∈ p.network
  | .rangeRecord id => ∃ r, c.range? id = some r ∧ r.Holds a

/-- The routing domain of a parent, if there is such a record. -/
def parentVrf? (c : Catalog) : Parent → Option (Option RecordId)
  | .prefixRecord id => (c.prefix? id).map (·.vrf)
  | .rangeRecord id => (c.range? id).map (·.vrf)

/-- An address in a range that is in the way of addresses from the parent, which is a prefix. -/
def Ranged (c : Catalog) (parent : Parent) (a : Address) : Prop :=
  ∃ id p, parent = .prefixRecord id ∧ c.prefix? id = some p ∧ c.InChildRange p a

theorem Vacant.within (h : c.Vacant parent .addresses a) : c.Within parent a := by
  cases parent with
  | prefixRecord id =>
    obtain ⟨p, hp, hin, -⟩ := h
    exact ⟨p, hp, hin⟩
  | rangeRecord id =>
    obtain ⟨r, hr, hholds, -⟩ := h
    exact ⟨r, hr, hholds⟩

theorem Vacant.not_ranged (h : c.Vacant parent .addresses a) : ¬ c.Ranged parent a := by
  rintro ⟨id, p, rfl, hp, hrange⟩
  obtain ⟨q, hq, -, -, hfree⟩ := h
  cases hp.symm.trans hq
  exact hfree hrange

/-- A vacant address is not the one of a record in the routing domain of the parent. -/
theorem Vacant.address_ne (h : c.Vacant parent .addresses a) {x : AddressRecord} (hx : x ∈ c.addresses)
    (hvrf : c.parentVrf? parent = some x.vrf) : x.host.address ≠ a := by
  intro heq
  cases parent with
  | prefixRecord id =>
    obtain ⟨p, hp, -, hfree, -⟩ := h
    rw [parentVrf?, hp] at hvrf
    exact hfree ⟨x, hx, Or.inr (Option.some.inj hvrf).symm, heq⟩
  | rangeRecord id =>
    obtain ⟨r, hr, -, hfree⟩ := h
    rw [parentVrf?, hr] at hvrf
    exact hfree ⟨x, hx, (Option.some.inj hvrf).symm, heq⟩

theorem parentVrf?_of_scope {mode : Mode} {s : Scope} (h : c.scope parent mode = .ok s) :
    c.parentVrf? parent = some s.vrfId := by
  cases parent with
  | prefixRecord id =>
    obtain ⟨p, hp, -, hvrf, -⟩ := scope_prefix_eq_ok h
    rw [parentVrf?, hp, hvrf]
    rfl
  | rangeRecord id =>
    obtain ⟨r, -, hr, -, hvrf, -⟩ := scope_range_eq_ok h
    rw [parentVrf?, hr, hvrf]
    rfl

end Catalog

/-! ### One batch -/

/-- Addresses that a commit has created are their own: inside the parent, in its routing domain, in none of the
ranges in the way, and not the address of any other record of the same routing domain. -/
structure Exclusive (before : Catalog) (parent : Parent) (created : List AddressRecord) (after : Catalog) : Prop where
  appended : after.addresses = before.addresses ++ created
  vrf : ∀ a ∈ created, after.parentVrf? parent = some a.vrf
  within : ∀ a ∈ created, after.Within parent a.host.address
  not_ranged : ∀ a ∈ created, ¬ after.Ranged parent a.host.address
  apart_before : ∀ a ∈ created, ∀ b ∈ before.addresses, ¬ a.SameHost b
  apart : created.Pairwise fun a b => ¬ a.SameHost b

theorem AddressBatch.exclusive {c : Catalog} {now : Clock} {parent : Parent} {requests : List AddressRequest}
    {s : Scope} {created : List AddressRecord} (h : AddressBatch c now parent requests s created) :
    Exclusive c parent created (c.withAddresses created) := by
  have hvrf : ∀ a ∈ created, c.parentVrf? parent = some a.vrf := fun a ha => by
    obtain ⟨req, -, hreq⟩ := exists_left_of_mem h.answers ha
    rw [hreq.vrf]
    exact Catalog.parentVrf?_of_scope h.found
  -- Prefixes and ranges are the same before and after.
  refine ⟨rfl, hvrf, fun a ha => (h.vacant a ha).within, fun a ha => (h.vacant a ha).not_ranged, fun a ha b hb hsame => ?_,
    h.apart.imp fun hne hsame => hne hsame.2⟩
  exact (h.vacant a ha).address_ne hb (hsame.1 ▸ hvrf a ha) hsame.2.symm

end AddressPlan
