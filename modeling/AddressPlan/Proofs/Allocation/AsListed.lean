import AddressPlan.Proofs.Allocation.Listing
import AddressPlan.Proofs.Allocation.Refusals
import AddressPlan.Proofs.Allocation.Split
import AddressPlan.Proofs.Space.Counting

/-!
A batch of addresses hands out what a listing shows: as many of the first vacant addresses as there are requests, in their
order. It is refused for want of addresses exactly if there are fewer. A listing after the batch goes on where the batch has
ended.
-/

namespace AddressPlan

open Net

variable {validators : List Validator} {now : Clock} {c : Catalog} {parent : Parent} {scope : Scope} {n : Nat}
  {requests : List AddressRequest} {created : List AddressRecord}

/-! ### The vacant addresses of a parent -/

namespace Catalog

/-- The mask length of a parent, if there is such a record. -/
def parentLength? (c : Catalog) : Parent → Option Nat
  | .prefixRecord id => (c.prefix? id).map (·.network.length)
  | .rangeRecord id => (c.range? id).map (·.maskLength)

theorem parentLength?_of_scope {mode : Mode} (h : c.scope parent mode = .ok scope) :
    c.parentLength? parent = some scope.maskLength := by
  cases parent with
  | prefixRecord id =>
    obtain ⟨p, hp, -, -, -, hmask⟩ := scope_prefix_eq_ok h
    rw [parentLength?, hp, hmask]
    rfl
  | rangeRecord id =>
    obtain ⟨r, -, hr, -, -, -, hmask, -⟩ := scope_range_eq_ok h
    rw [parentLength?, hr, hmask]
    rfl

theorem ncard_vacant (h : c.scope parent .addresses = .ok scope) :
    {x | c.Vacant parent .addresses x}.ncard = scope.space.size := by
  rw [← Space.ncard_mem (space_ascending scope)]
  exact congrArg Set.ncard (Set.ext fun _ => (mem_space_iff_vacant h).symm)

/-- New addresses in the routing domain of a parent take themselves and nothing else. -/
theorem vacant_withAddresses {a : Address} : ∀ {xs : List AddressRecord} {c : Catalog},
    (∀ x ∈ xs, c.parentVrf? parent = some x.vrf) → ((c.withAddresses xs).Vacant parent .addresses a ↔
      c.Vacant parent .addresses a ∧ ∀ x ∈ xs, a ≠ x.host.address)
  | [], c, _ => by
    rw [(inserts_address epoch).extend_nil]
    exact (and_iff_left fun _ hx => absurd hx List.not_mem_nil).symm
  | x :: xs, c, hvrf => by
    obtain ⟨hx, hxs⟩ := List.forall_mem_cons.mp hvrf
    have hparent : (c.withAddresses [x]).parentVrf? parent = c.parentVrf? parent := by
      cases parent <;> rfl
    rw [← (inserts_address epoch).extend_cons, vacant_withAddresses (hparent ▸ hxs), vacant_withAddress hx,
      List.forall_mem_cons, and_assoc]

/-- Once the first vacant addresses have been given to records in the routing domain of the parent, the others are left. -/
theorem addresses_after (h : c.scope parent .addresses = .ok scope) (hvrf : ∀ x ∈ created, x.vrf = scope.vrfId)
    (hcreated : created.map (·.host.address) = scope.space.addresses.take n) :
    ∃ scope', (c.withAddresses created).scope parent .addresses = .ok scope' ∧
      scope'.space.addresses = scope.space.addresses.drop n := by
  obtain ⟨children, hafter⟩ := scope_withAddresses h created
  refine ⟨_, hafter, (Space.eq_addresses (space_ascending _) ?_ fun a => ?_).symm⟩
  · exact (Space.addresses_pairwise (space_ascending scope)).drop
  have hparent : ∀ x ∈ created, c.parentVrf? parent = some x.vrf := fun x hx => by
    rw [hvrf x hx, parentVrf?_of_scope h]
  have htaken : (∀ x ∈ created, a ≠ x.host.address) ↔ a ∉ scope.space.addresses.take n := by
    rw [← hcreated, List.mem_map]
    simp only [not_exists, not_and, eq_comm]
  have hsplit : a ∈ scope.space.addresses ↔ a ∈ scope.space.addresses.take n ∨ a ∈ scope.space.addresses.drop n := by
    rw [← List.mem_append, List.take_append_drop]
  have hnodup := Space.nodup_addresses (space_ascending scope)
  rw [← List.take_append_drop n scope.space.addresses] at hnodup
  rw [mem_space_iff_vacant hafter, vacant_withAddresses hparent, ← mem_space_iff_vacant h, htaken, ← Space.mem_addresses, hsplit]
  constructor
  · exact fun ha => ⟨Or.inr ha, fun htake => (List.nodup_append.mp hnodup).2.2 a htake a ha rfl⟩
  · exact fun ⟨ha, hnot⟩ => ha.resolve_left hnot

end Catalog

/-! ### The batch -/

theorem allocateAddresses_of_size_lt (validators : List Validator) (now : Clock)
    (hs : c.scope parent .addresses = .ok scope) (h : scope.space.size < requests.length) :
    allocateAddresses validators now c parent requests = .error (.tooFew requests.length scope.label scope.space.size) := by
  simp only [allocateAddresses, hs, Except.mapError, Except.bind, bind, if_pos h]

/-- Where there are enough addresses, they are found one by one, and all of them make hosts. -/
theorem hosts_of_room (hs : c.scope parent .addresses = .ok scope) (h : n ≤ scope.space.size) :
    scope.space.takeAddresses? n = some (scope.space.lowest n) ∧
      ∃ hosts, (scope.space.lowest n).mapM (Network.of? · scope.maskLength) = some hosts := by
  refine ⟨by rw [Space.takeAddresses?_eq, if_pos h, Space.lowest_eq_take], Option.isSome_iff_exists.mp ?_⟩
  refine mapM_of?_isSome fun x hx => Catalog.maskLength_le_of_mem hs ?_
  exact (Space.lowestFree_lowest (Catalog.space_ascending scope) n).free_of_mem x hx

/-- What has been found is created, if there are ids for it and no validator objects. -/
theorem allocateAddresses_of_room (validators : List Validator) (now : Clock)
    (hs : c.scope parent .addresses = .ok scope) (h : requests.length ≤ scope.space.size) :
    (c.idsLeft < requests.length → allocateAddresses validators now c parent requests = .error .exhausted) ∧
    (requests.length ≤ c.idsLeft → ∃ created, created.map (·.host.address) = scope.space.lowest requests.length ∧
      List.Forall₂ (AddressRecord.Answers scope now) requests created ∧ allocateAddresses validators now c parent requests =
        (review validators (c.withAddresses created) (created.map .addressRecord)).map
          fun _ => ⟨scope, created, c.withAddresses created⟩) := by
  obtain ⟨htake, hosts, hhosts⟩ := hosts_of_room hs h
  have hlength : hosts.length = requests.length := by
    rw [← (Space.takeAddresses?_eq_some (Catalog.space_ascending scope) htake).1, ← (hosts_address hhosts).1, List.length_map]
  have houtcome : ∀ vs, allocateAddresses vs now c parent requests =
      (insertAll (fun c n => c.insertAddress n now) c (hosts.zipWith (newAddress scope.vrfId) requests)).elim (.error .exhausted)
        fun r => (review vs r.2 (r.1.map .addressRecord)).map fun _ => ⟨scope, r.1, r.2⟩ := by
    intro vs
    simp only [allocateAddresses, hs, Except.mapError, Except.bind, bind, if_neg (Nat.not_lt.mpr h), htake, hhosts]
    cases insertAll (fun c n => c.insertAddress n now) c (hosts.zipWith (newAddress scope.vrfId) requests) with
    | none => rfl
    | some r =>
      dsimp only
      cases hreview : review vs r.2 (r.1.map .addressRecord) <;> rw [Option.elim_some, hreview] <;> rfl
  have hcases := (Catalog.inserts_address now).insertAll_cases Catalog.nextId_withAddresses c
    (hosts.zipWith (newAddress scope.vrfId) requests)
  rw [List.length_zipWith, hlength, Nat.min_self] at hcases
  rcases hcases with ⟨hids, hins⟩ | ⟨hids, created, hins⟩
  · exact ⟨fun _ => by rw [houtcome, hins, Option.elim_none], fun h => absurd h (Nat.not_le.mpr hids)⟩
  · refine ⟨fun h => absurd hids (Nat.not_le.mpr h), fun _ => ⟨created, ?_, ?_⟩⟩
    · obtain ⟨-, -, hrecords⟩ := (Catalog.inserts_address now).insertAll_eq_some hins
      have hmap : created.map (·.host) = hosts := by
        refine forall₂_map_eq ((forall₂_zipWith hlength hrecords).1.imp fun n x hx => ?_)
        obtain ⟨_, hx⟩ := hx
        rw [hx]
        rfl
      rw [← (hosts_address hhosts).1, ← hmap, List.map_map]
      rfl
    · have hok : allocateAddresses [] now c parent requests = .ok ⟨scope, created, c.withAddresses created⟩ := by
        rw [houtcome, hins, Option.elim_some, review_nil]
        rfl
      exact ⟨(allocateAddresses_eq_ok hok).1.answers, allocateAddresses_reviewed hok⟩

/-- A batch lacks addresses exactly if there are fewer than requests. -/
theorem allocateAddresses_eq_tooFew_iff {m k : Nat} {label : String} (hs : c.scope parent .addresses = .ok scope) :
    allocateAddresses validators now c parent requests = .error (.tooFew m label k) ↔
      scope.space.size < requests.length ∧ m = requests.length ∧ label = scope.label ∧ k = scope.space.size := by
  by_cases h : scope.space.size < requests.length
  · rw [allocateAddresses_of_size_lt validators now hs h, and_iff_right h]
    simp only [Except.error.injEq, Refusal.tooFew.injEq]
    exact and_congr eq_comm (and_congr eq_comm eq_comm)
  · refine iff_of_false (fun heq => ?_) fun hlt => h hlt.1
    obtain ⟨hnone, hsome⟩ := allocateAddresses_of_room validators now hs (Nat.le_of_not_lt h)
    by_cases hids : c.idsLeft < requests.length
    · exact nomatch heq.symm.trans (hnone hids)
    · obtain ⟨created, -, -, hbatch⟩ := hsome (Nat.le_of_not_lt hids)
      rcases review_eq_error (map_eq_error.mp (hbatch.symm.trans heq)) with ⟨hwhy, -⟩ | ⟨_, hwhy⟩ <;> cases hwhy

/-! ### The allocator -/

namespace Allocator

variable {a : Allocator} {s u t : Site}

theorem availableAddresses_outcome (hkept : a.store.kept s.clock s = .ok c) (hs : c.scope parent .addresses = .ok scope) (k : Nat) :
    (a.availableAddresses parent k).outcome s = .ok (scope, scope.space.lowest k) := by
  have hlisted : a.availableAddresses parent k s = _ := listing_apply hkept
  rw [hs] at hlisted
  exact Act.outcome_of_ok hlisted

/-- Listings at a later site, whatever their limit, go on where the first `n` addresses that were listed end. -/
def ListsOn (a : Allocator) (parent : Parent) (n : Nat) (s t : Site) : Prop :=
  ∀ k, ∃ scope scope' listed, (a.availableAddresses parent (n + k)).outcome s = .ok (scope, listed) ∧
    (a.availableAddresses parent k).outcome t = .ok (scope', listed.drop n)

theorem listsOn_of_addresses {d : Catalog} {scope' : Scope} (hkept : a.store.kept s.clock s = .ok c)
    (hs : c.scope parent .addresses = .ok scope) (hkept' : a.store.kept t.clock t = .ok d)
    (hs' : d.scope parent .addresses = .ok scope') (h : scope'.space.addresses = scope.space.addresses.drop n) :
    a.ListsOn parent n s t := by
  intro k
  refine ⟨scope, scope', _, availableAddresses_outcome hkept hs (n + k), ?_⟩
  rw [availableAddresses_outcome hkept' hs' k, Space.lowest_eq_take, Space.lowest_eq_take, h, List.drop_take,
    Nat.add_sub_cancel_left]

/-- A batch of addresses in a parent whose scope can be loaded, from an opened transaction on. It is refused for want of
addresses exactly if fewer are vacant than there are requests, with both numbers. Otherwise taking them one by one cannot
fail and all of them make hosts. If there are ids for all records, no validator objects and the catalog can be written, the
records have just the addresses that are listed right before, one for each request, and listings go on after these. -/
theorem allocateAddresses_as_listed (a : Allocator) (s u : Site) (c : Catalog) (parent : Parent) (scope : Scope)
    (requests : List AddressRequest) (hkept : a.store.kept s.clock s = .ok c)
    (hopen : a.OpensAt s (.of .addresses parent a.lockScope) c u) (hs : c.scope parent .addresses = .ok scope) :
    let n := requests.length
    let free := {x | c.Vacant parent .addresses x}.ncard
    let outcome := (a.allocateAddresses parent requests).outcome s
    (∀ m label k, outcome = .error (.refused (.tooFew m label k)) ↔ free < n ∧ m = n ∧ label = scope.label ∧ k = free) ∧
    (∀ e, outcome ≠ .error (.refused (.block e))) ∧
    (n ≤ free → ∃ listed hosts, (a.availableAddresses parent n).outcome s = .ok (scope, listed) ∧
      scope.space.takeAddresses? n = some listed ∧ listed.mapM (Network.of? · scope.maskLength) = some hosts ∧
      (c.idsLeft < n → outcome = .error (.refused .exhausted)) ∧
      (n ≤ c.idsLeft → ∃ created, created.map (·.host.address) = listed ∧
        List.Forall₂ (AddressRecord.Answers scope u.clock) requests created ∧
        (∀ x ∈ created, c.parentVrf? parent = some x.vrf ∧ c.parentLength? parent = some x.host.length) ∧
        ((∀ x ∈ created, ∀ v ∈ a.validators, Accepts (v (.addressRecord x) (c.withAddresses created))) →
          (∀ e, (a.store.commit (c.withAddresses created)).outcome u = .error e → outcome = .error (.store e)) ∧
          ((a.store.commit (c.withAddresses created)).outcome u = .ok () →
            outcome = .ok ⟨scope, created, c.withAddresses created⟩ ∧
            a.ListsOn parent n s ((a.allocateAddresses parent requests).after s))))) := by
  intro n free outcome
  have hfree : free = scope.space.size := Catalog.ncard_vacant hs
  have hrefused : ∀ why, outcome = .error (.refused why) ↔
      AddressPlan.allocateAddresses a.validators u.clock c parent requests = .error why := fun why => transact_refused_iff hopen
  refine ⟨fun m label k => ?_, fun e he => ?_, fun hroom => ?_⟩
  · rw [hrefused, hfree]
    exact allocateAddresses_eq_tooFew_iff hs
  · exact (batched_addresses a.validators parent requests).withScope u.clock c scope _ hs ((hrefused _).mp he)
  rw [hfree] at hroom
  obtain ⟨htake, hosts, hhosts⟩ := hosts_of_room hs hroom
  obtain ⟨hnone, hsome⟩ := allocateAddresses_of_room a.validators u.clock hs hroom
  refine ⟨_, hosts, availableAddresses_outcome hkept hs n, htake, hhosts, fun hids => (hrefused _).mpr (hnone hids),
    fun hids => ?_⟩
  obtain ⟨created, hcreated, hanswers, hbatch⟩ := hsome hids
  have hanswer : ∀ x ∈ created, ∃ r, AddressRecord.Answers scope u.clock r x := fun x hx => by
    obtain ⟨r, -, hr⟩ := exists_left_of_mem hanswers hx
    exact ⟨r, hr⟩
  refine ⟨created, hcreated, hanswers, fun x hx => ?_, fun haccepts => ?_⟩
  · obtain ⟨r, hr⟩ := hanswer x hx
    rw [hr.vrf, hr.length]
    exact ⟨Catalog.parentVrf?_of_scope hs, Catalog.parentLength?_of_scope hs⟩
  have hreview : review a.validators (c.withAddresses created) (created.map .addressRecord) = .ok () :=
    review_eq_ok.mpr (List.forall_mem_map.mpr haccepts)
  rw [hreview] at hbatch
  let batch now c := AddressPlan.allocateAddresses a.validators now c parent requests
  let done (r : Allocated AddressRecord) : Event := .allocatedAddresses r.scope.label (r.created.map (·.host))
  obtain ⟨hok, herror⟩ := transact_accepted batch done hopen hbatch
  refine ⟨herror, fun hcommit => ⟨hok hcommit, ?_⟩⟩
  have hdecided := a.transact_decided s .addresses parent batch done
  rw [Act.Meets, Act.outcome_eq_ok.mp (hok hcommit)] at hdecided
  obtain ⟨-, -, -, -, hkept'⟩ := hdecided
  rw [Space.lowest_eq_take] at hcreated
  obtain ⟨scope', hs', hrest⟩ := Catalog.addresses_after hs (fun x hx => (hanswer x hx).choose_spec.vrf) hcreated
  exact listsOn_of_addresses hkept hs (hkept' _) hs' hrest

/-! ### Two addresses -/

/-- Three requests are one too many for two vacant addresses. A single one gets the lower address, and listings go on after it. -/
theorem allocateAddresses_as_listed_pair : ∃ scope, Catalog.pair.scope (.prefixRecord 1) .addresses = .ok scope ∧
    inMemory.store.kept (site .pair).clock (site .pair) = .ok .pair ∧
    inMemory.OpensAt (site .pair) (.of .addresses (.prefixRecord 1) inMemory.lockScope) .pair
      ((site .pair).note (.took (.key (.global .addresses)))) ∧
    (inMemory.allocateAddresses (.prefixRecord 1) (addressesOf ["a", "b", "c"])).outcome (site .pair) =
      .error (.refused (.tooFew 3 scope.label 2)) ∧
    ∃ created listed, listed.map (·.value) = [0x0a000000] ∧
      (inMemory.availableAddresses (.prefixRecord 1) 1).outcome (site .pair) = .ok (scope, listed) ∧
      created.map (·.host.address) = listed ∧
      (inMemory.allocateAddresses (.prefixRecord 1) (addressesOf ["a"])).outcome (site .pair) =
        .ok ⟨scope, created, Catalog.pair.withAddresses created⟩ ∧
      inMemory.ListsOn (.prefixRecord 1) 1 (site .pair)
        ((inMemory.allocateAddresses (.prefixRecord 1) (addressesOf ["a"])).after (site .pair)) := by
  obtain ⟨scope, hs⟩ : ∃ scope, Catalog.pair.scope (.prefixRecord 1) .addresses = .ok scope := ⟨_, rfl⟩
  have hopen : inMemory.OpensAt (site .pair) (.of .addresses (.prefixRecord 1) inMemory.lockScope) .pair
      ((site .pair).note (.took (.key (.global .addresses)))) := opensAt_memory rfl rfl List.not_mem_nil
  have hall := fun requests => allocateAddresses_as_listed inMemory (site .pair) _ .pair (.prefixRecord 1) scope
    requests rfl hopen hs
  have hcount : (Catalog.pair.scope (.prefixRecord 1) .addresses).toOption.map (fun s => (s.space.size, (s.space.lowest 1).map (·.value))) =
      some (2, [0x0a000000]) := by decide +kernel
  rw [hs] at hcount
  obtain ⟨hsize, hlowest⟩ := Prod.ext_iff.mp (Option.some.inj hcount)
  have hfree : {x | Catalog.pair.Vacant (.prefixRecord 1) .addresses x}.ncard = 2 := (Catalog.ncard_vacant hs).trans hsize
  obtain ⟨listed, hosts, hlisted, -, -, -, hcreates⟩ := (hall (addressesOf ["a"])).2.2 (by rw [hfree]; decide)
  obtain ⟨created, hcreated, hanswers, -, hdone⟩ := hcreates (by decide +kernel)
  obtain ⟨x, rfl⟩ : ∃ x, created = [x] := List.length_eq_one_iff.mp hanswers.length_eq.symm
  -- The only record with its address is the new one itself.
  have hnone : (Catalog.pair.withAddresses [x]).duplicateAddresses x = [] := by
    simp [Catalog.duplicateAddresses, Catalog.withAddresses, Catalog.pair, Catalog.ofPrefixes]
  have haccepts : ∀ y ∈ [x], ∀ v ∈ inMemory.validators, Accepts (v (.addressRecord y) (Catalog.pair.withAddresses [x])) := by
    intro y hy v hv
    obtain rfl := List.mem_singleton.mp hy
    rcases List.mem_cons.mp hv with rfl | hv
    · exact Validator.accepts_uniqueness_address.mpr fun _ => hnone
    · obtain rfl := List.mem_singleton.mp hv
      trivial
  obtain ⟨hok, hafter⟩ := (hdone haccepts).2 rfl
  have hlow : scope.space.lowest 1 = listed :=
    congrArg Prod.snd (Except.ok.inj ((availableAddresses_outcome rfl hs 1).symm.trans hlisted))
  exact ⟨scope, hs, rfl, hopen, ((hall (addressesOf ["a", "b", "c"])).1 _ _ _).mpr ⟨by rw [hfree]; decide, rfl, rfl, hfree.symm⟩,
    [x], listed, hlow ▸ hlowest, hlisted, hcreated, hok, hafter⟩

end Allocator

end AddressPlan
