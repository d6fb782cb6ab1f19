import AddressPlan.Proofs.Catalog.Ids
import AddressPlan.Proofs.Catalog.Scope
import AddressPlan.Proofs.Space.Carve

/-!
What a batch has done when it succeeds: one record for each request, in order, drawn from addresses that the
tables left vacant and that no other record of the batch holds. Nothing else about the catalog changes.
-/

namespace AddressPlan

open Net

/-! ### Prefix lengths -/

/-- A length that has passed the check. -/
def Scope.Permits (s : Scope) (r : PrefixRequest) (length : Nat) : Prop :=
  r.length = some (length : Int) ∧ s.maskLength ≤ length

theorem lengthProblem_eq_none {s : Scope} {wanted : Option Int} (h : lengthProblem s wanted = none) :
    ∃ length : Nat, wanted = some (length : Int) ∧ s.maskLength ≤ length := by
  cases wanted with
  | none => cases h
  | some i =>
    simp only [lengthProblem] at h
    split at h
    · cases h
    · rename_i hmin
      exact ⟨i.toNat, congrArg some (by omega), by omega⟩

theorem permits_of_lengthProblem {s : Scope} : ∀ {requests : List PrefixRequest},
    (∀ r ∈ requests, lengthProblem s r.length = none) →
      List.Forall₂ s.Permits requests (requests.filterMap fun r => r.length.map Int.toNat)
  | [], _ => .nil
  | r :: rs, h => by
    obtain ⟨hr, hrs⟩ := List.forall_mem_cons.mp h
    obtain ⟨length, hlength, hmin⟩ := lengthProblem_eq_none hr
    rw [List.filterMap_cons_some (by rw [hlength]; rfl)]
    exact .cons ⟨hlength, hmin⟩ (permits_of_lengthProblem hrs)

theorem checkLengths_eq_ok_iff {s : Scope} {requests : List PrefixRequest} {lengths : List Nat} :
    checkLengths s requests = .ok lengths ↔
      (∀ r ∈ requests, lengthProblem s r.length = none) ∧ lengths = requests.filterMap fun r => r.length.map Int.toNat := by
  rw [checkLengths]
  split
  · rename_i hany
    simp only [List.any_map, List.any_eq_true, Function.comp_apply] at hany
    obtain ⟨r, hr, hproblem⟩ := hany
    refine iff_of_false nofun fun h => ?_
    rw [h.1 r hr] at hproblem
    cases hproblem
  · rename_i hany
    simp only [List.any_map, List.any_eq_true, not_exists, not_and, Function.comp_apply] at hany
    have hnone : ∀ r ∈ requests, lengthProblem s r.length = none := fun r hr => by
      have hproblem := hany r hr
      split at hproblem
      · exact absurd rfl hproblem
      · assumption
    constructor
    · intro h
      cases h
      exact ⟨hnone, rfl⟩
    · rintro ⟨-, rfl⟩
      rfl

theorem checkLengths_eq_ok {s : Scope} {requests : List PrefixRequest} {lengths : List Nat}
    (h : checkLengths s requests = .ok lengths) : List.Forall₂ s.Permits requests lengths := by
  obtain ⟨hnone, rfl⟩ := checkLengths_eq_ok_iff.mp h
  exact permits_of_lengthProblem hnone

/-! ### Records for requests -/

/-- What a request and what was carved for it make, told of each of the two alone. -/
theorem forall₂_zipWith {α β γ δ : Type} {f : α → β → γ} {R : γ → δ → Prop} : ∀ {as : List α} {bs : List β} {ds : List δ},
    as.length = bs.length → List.Forall₂ R (as.zipWith f bs) ds →
      List.Forall₂ (fun a d => ∃ b, R (f a b) d) as ds ∧ List.Forall₂ (fun b d => ∃ a, R (f a b) d) bs ds
  | [], [], _, _, h => by
    cases h
    exact ⟨.nil, .nil⟩
  | a :: as, b :: bs, _, hl, h => by
    rw [List.zipWith_cons_cons] at h
    obtain ⟨d, ds, hd, tl, rfl⟩ := List.forall₂_cons_left_iff.mp h
    obtain ⟨ha, hb⟩ := forall₂_zipWith (Nat.succ.inj hl) tl
    exact ⟨.cons ⟨b, hd⟩ ha, .cons ⟨a, hd⟩ hb⟩

theorem forall₂_map_eq {α β : Type} {f : β → α} {as : List α} {bs : List β} (h : List.Forall₂ (fun a b => f b = a) as bs) :
    bs.map f = as := by
  induction h with
  | nil => rfl
  | cons hd _ ih => rw [List.map_cons, hd, ih]

theorem exists_left_of_mem {α β : Type} {R : α → β → Prop} {as : List α} {bs : List β} (h : List.Forall₂ R as bs) {b : β}
    (hb : b ∈ bs) : ∃ a ∈ as, R a b := by
  induction h with
  | nil => exact absurd hb List.not_mem_nil
  | cons hd _ ih =>
    rcases List.mem_cons.mp hb with rfl | hb
    · exact ⟨_, List.mem_cons_self, hd⟩
    · obtain ⟨a, ha, hr⟩ := ih hb
      exact ⟨a, List.mem_cons_of_mem _ ha, hr⟩

/-- A prefix record that does what a request asks for, in a prefix. -/
structure PrefixRecord.Answers (p : PrefixRecord) (now : Clock) (r : PrefixRequest) (q : PrefixRecord) : Prop where
  length : r.length = some (q.network.length : Int)
  longer : p.network.length ≤ q.network.length
  vrf : q.vrf = p.vrf
  status : q.status = r.status
  details : q.details = r.details
  created : q.created = now.creation q.id

/-- An address record that does what a request asks for, in a scope. -/
structure AddressRecord.Answers (s : Scope) (now : Clock) (r : AddressRequest) (a : AddressRecord) : Prop where
  length : a.host.length = s.maskLength
  vrf : a.vrf = s.vrfId
  status : a.status = r.status
  dnsName : a.dnsName = r.dnsName
  details : a.details = r.details
  created : a.created = now.creation a.id

variable {validators : List Validator} {now : Clock} {c : Catalog} {id : RecordId} {parent : Parent}

/-- The records that a batch of prefixes has created in a prefix. -/
structure PrefixBatch (c : Catalog) (now : Clock) (id : RecordId) (requests : List PrefixRequest)
    (p : PrefixRecord) (created : List PrefixRecord) : Prop where
  found : c.prefix? id = some p
  fresh : Catalog.Fresh c.ids (created.map (·.id))
  answers : List.Forall₂ (p.Answers now) requests created
  vacant : ∀ q ∈ created, q.network.Aligned ∧ ∀ a ∈ q.network, c.Vacant (.prefixRecord id) .prefixes a
  apart : created.Pairwise fun q r => ∀ a ∈ q.network, a ∉ r.network

/-- The records that a batch of addresses has created in a parent. -/
structure AddressBatch (c : Catalog) (now : Clock) (parent : Parent) (requests : List AddressRequest)
    (s : Scope) (created : List AddressRecord) : Prop where
  found : c.scope parent .addresses = .ok s
  fresh : Catalog.Fresh c.ids (created.map (·.id))
  answers : List.Forall₂ (AddressRecord.Answers s now) requests created
  vacant : ∀ a ∈ created, c.Vacant parent .addresses a.host.address
  apart : created.Pairwise fun a b => a.host.address ≠ b.host.address

/-! ### Prefixes -/

/-- A batch that has passed every stage: the scope, the lengths, the carving, the insertion and the review. -/
theorem allocatePrefixes_eq_ok_iff {requests : List PrefixRequest} {r : Allocated PrefixRecord} :
    allocatePrefixes validators now c id requests = .ok r ↔ c.scope (.prefixRecord id) .prefixes = .ok r.scope ∧
      ∃ lengths networks, checkLengths r.scope requests = .ok lengths ∧
        r.scope.space.takeNetworks lengths = .ok networks ∧
        insertAll (fun c n => c.insertPrefix n now) c (networks.zipWith (newPrefix r.scope.vrfId) requests) =
          some (r.created, r.catalog) ∧
        review validators r.catalog (r.created.map .prefixRecord) = .ok () := by
  constructor
  · intro h
    obtain ⟨s, hs, h⟩ := bind_eq_ok.mp h
    obtain ⟨lengths, hlengths, h⟩ := bind_eq_ok.mp h
    obtain ⟨networks, hnetworks, h⟩ := bind_eq_ok.mp h
    split at h
    · cases h
    · rename_i created c' hins
      obtain ⟨⟨⟩, hreview, h⟩ := bind_eq_ok.mp h
      cases h
      exact ⟨mapError_eq_ok.mp hs, lengths, networks, hlengths, mapError_eq_ok.mp hnetworks, hins, hreview⟩
  · rintro ⟨hs, lengths, networks, hlengths, hnetworks, hins, hreview⟩
    refine bind_eq_ok.mpr ⟨_, mapError_eq_ok.mpr hs, bind_eq_ok.mpr ⟨_, hlengths, ?_⟩⟩
    refine bind_eq_ok.mpr ⟨_, mapError_eq_ok.mpr hnetworks, ?_⟩
    rw [hins]
    exact bind_eq_ok.mpr ⟨_, hreview, rfl⟩

theorem allocatePrefixes_eq_ok {requests : List PrefixRequest} {r : Allocated PrefixRecord}
    (h : allocatePrefixes validators now c id requests = .ok r) :
    ∃ p, PrefixBatch c now id requests p r.created ∧ r.catalog = c.withPrefixes r.created := by
  obtain ⟨hs, lengths, networks, hlengths, hnetworks, hins, -⟩ := allocatePrefixes_eq_ok_iff.mp h
  have hpermits := checkLengths_eq_ok hlengths
  obtain ⟨hlens, hfree, hapart⟩ := Space.takeNetworks_eq_ok hnetworks
  obtain ⟨hcatalog, hfresh, hrecords⟩ := (Catalog.inserts_prefix now).insertAll_eq_some hins
  obtain ⟨p, hp, -, hvrf, -, hmask⟩ := Catalog.scope_prefix_eq_ok hs
  have hcount : networks.length = requests.length := by
    rw [hpermits.length_eq, ← hlens, List.length_map]
  obtain ⟨hnets, hreqs⟩ := forall₂_zipWith hcount hrecords
  have hmap : r.created.map (·.network) = networks :=
    forall₂_map_eq (hnets.imp fun n q ⟨_, hq⟩ => by rw [hq]; rfl)
  rw [← hlens, ← hmap, List.map_map, List.forall₂_map_right_iff] at hpermits
  refine ⟨p, ⟨hp, hfresh, hpermits.mp ?_ hreqs, fun q hq => ?_, ?_⟩, hcatalog⟩
  · rintro req q ⟨hlen, hmin⟩ ⟨n, hq⟩
    exact ⟨hlen, hmask ▸ hmin, by rw [hq]; exact hvrf, by rw [hq]; rfl, by rw [hq]; rfl, by rw [hq]; rfl⟩
  · obtain ⟨hal, hin⟩ := hfree q.network (hmap ▸ List.mem_map_of_mem hq)
    exact ⟨hal, fun a ha => (Catalog.mem_space_iff_vacant hs).mp (hin a ha)⟩
  · rw [← hmap, List.pairwise_map] at hapart
    exact hapart

/-! ### Addresses -/

theorem hosts_address {length : Nat} : ∀ {as : List Address} {hosts : List Network},
    as.mapM (Network.of? · length) = some hosts → hosts.map (·.address) = as ∧ ∀ n ∈ hosts, n.length = length
  | [], _, h => by
    cases h
    exact ⟨rfl, fun _ hn => absurd hn List.not_mem_nil⟩
  | a :: as, _, h => by
    simp only [List.mapM_cons, Option.bind_eq_bind, Option.bind_eq_some_iff, Option.pure_def, Option.some.injEq] at h
    obtain ⟨n, hn, rest, hrest, rfl⟩ := h
    obtain ⟨haddr, hlen⟩ := Network.of?_eq_some hn
    obtain ⟨haddrs, hlens⟩ := hosts_address hrest
    exact ⟨by rw [List.map_cons, haddr, haddrs], List.forall_mem_cons.mpr ⟨hlen, hlens⟩⟩

theorem allocateAddresses_eq_ok_iff {requests : List AddressRequest} {r : Allocated AddressRecord} :
    allocateAddresses validators now c parent requests = .ok r ↔ c.scope parent .addresses = .ok r.scope ∧
      requests.length ≤ r.scope.space.size ∧ ∃ addresses hosts,
        r.scope.space.takeAddresses? requests.length = some addresses ∧
        addresses.mapM (Network.of? · r.scope.maskLength) = some hosts ∧
        insertAll (fun c n => c.insertAddress n now) c (hosts.zipWith (newAddress r.scope.vrfId) requests) =
          some (r.created, r.catalog) ∧
        review validators r.catalog (r.created.map .addressRecord) = .ok () := by
  constructor
  · intro h
    obtain ⟨s, hs, h⟩ := bind_eq_ok.mp h
    dsimp only at h
    split at h
    · cases h
    rename_i hroom
    split at h
    · cases h
    rename_i addresses haddresses
    split at h
    · cases h
    rename_i hosts hhosts
    split at h
    · cases h
    · rename_i created c' hins
      obtain ⟨⟨⟩, hreview, h⟩ := bind_eq_ok.mp h
      cases h
      exact ⟨mapError_eq_ok.mp hs, Nat.le_of_not_lt hroom, addresses, hosts, haddresses, hhosts, hins, hreview⟩
  · rintro ⟨hs, hroom, addresses, hosts, haddresses, hhosts, hins, hreview⟩
    refine bind_eq_ok.mpr ⟨_, mapError_eq_ok.mpr hs, ?_⟩
    dsimp only
    rw [if_neg (Nat.not_lt.mpr hroom), haddresses]
    dsimp only
    rw [hhosts]
    dsimp only
    rw [hins]
    exact bind_eq_ok.mpr ⟨_, hreview, rfl⟩

theorem allocateAddresses_eq_ok {requests : List AddressRequest} {r : Allocated AddressRecord}
    (h : allocateAddresses validators now c parent requests = .ok r) :
    AddressBatch c now parent requests r.scope r.created ∧ r.catalog = c.withAddresses r.created := by
  obtain ⟨hs, -, addresses, hosts, haddresses, hhosts, hins, -⟩ := allocateAddresses_eq_ok_iff.mp h
  obtain ⟨hcount, hfree, hapart⟩ := Space.takeAddresses?_eq_some (Catalog.space_ascending r.scope) haddresses
  obtain ⟨haddrs, hlens⟩ := hosts_address hhosts
  obtain ⟨hcatalog, hfresh, hrecords⟩ := (Catalog.inserts_address now).insertAll_eq_some hins
  have hlength : hosts.length = requests.length := by
    rw [← hcount, ← haddrs, List.length_map]
  obtain ⟨hnets, hreqs⟩ := forall₂_zipWith hlength hrecords
  have hmap : r.created.map (·.host) = hosts :=
    forall₂_map_eq (hnets.imp fun n a ⟨_, ha⟩ => by rw [ha]; rfl)
  rw [← hmap, List.map_map] at haddrs
  refine ⟨⟨hs, hfresh, ?_, fun a ha => ?_, ?_⟩, hcatalog⟩
  · have hmask : ∀ a ∈ r.created, a.host.length = r.scope.maskLength := fun a ha => hlens _ (hmap ▸ List.mem_map_of_mem ha)
    refine List.forall₂_iff_zip.mpr ⟨hreqs.length_eq, fun {req a} hmem => ?_⟩
    obtain ⟨n, ha⟩ := List.forall₂_zip hreqs hmem
    have hlen := hmask a (List.of_mem_zip hmem).2
    exact ⟨hlen, by rw [ha]; rfl, by rw [ha]; rfl, by rw [ha]; rfl, by rw [ha]; rfl, by rw [ha]; rfl⟩
  · exact (Catalog.mem_space_iff_vacant hs).mp (hfree _ (haddrs ▸ List.mem_map_of_mem ha))
  · rw [← haddrs, List.pairwise_map] at hapart
    exact hapart

/-! ### Requests without wishes -/

def prefixesOf (lengths : List Int) : List PrefixRequest :=
  lengths.map fun length => ⟨some length, .active, .blank⟩

def addressesOf (names : List String) : List AddressRequest :=
  names.map fun name => ⟨.active, name, .blank⟩

end AddressPlan
