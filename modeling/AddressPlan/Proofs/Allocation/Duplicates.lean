import AddressPlan.Proofs.Allocation.Isolation
import AddressPlan.Proofs.Allocation.Runs

/-!
When the validator for uniqueness rejects. What a batch creates is vacant, so another record can only have the network of a
new prefix if it is not a child of the parent: because it is as long as the parent, whose whole network has then been carved,
or because it has the parent's id. For addresses there is no such record. Where the validator is among those of each
allocation, the networks that a run creates in an enforced table are not found there a second time.
-/

namespace AddressPlan

open Net

variable {globally : Bool} {c c' : Catalog} {now : Clock} {id : RecordId} {requests : List PrefixRequest}
  {p q r d : PrefixRecord} {created : List PrefixRecord} {t : Attempt}

/-- The same network in the same routing domain, whatever the host bits. -/
def PrefixRecord.SameNetwork (q r : PrefixRecord) : Prop :=
  q.vrf = r.vrf ∧ q.network.truncate = r.network.truncate

theorem PrefixRecord.SameNetwork.mem_iff (h : q.SameNetwork r) {a : Address} : a ∈ q.network ↔ a ∈ r.network := by
  rw [← Network.mem_truncate, h.2, Network.mem_truncate]

theorem PrefixRecord.SameNetwork.length_eq (h : q.SameNetwork r) : q.network.length = r.network.length := by
  rw [← q.network.truncate_length, h.2, Network.truncate_length]

theorem PrefixRecord.Apart.not_sameNetwork (h : q.Apart r) : ¬ q.SameNetwork r := fun hsame =>
  h _ q.network.lowest_mem (hsame.mem_iff.mp q.network.lowest_mem)

/-! ### One batch of prefixes -/

namespace PrefixBatch

theorem duplicates_eq_nil (h : PrefixBatch c now id requests p created) (hq : q ∈ created) :
    (c.withPrefixes created).duplicatePrefixes q = [] ↔ ∀ d ∈ c.prefixes, ¬ d.SameNetwork q := by
  rw [h.duplicates_eq hq, List.filter_eq_nil_iff]
  simp only [Bool.and_eq_true, beq_iff_eq, PrefixRecord.SameNetwork]

/-- A record with the network of a new one is as long as the parent, or it is longer and has the parent's id. -/
theorem sameNetwork_old (h : PrefixBatch c now id requests p created) (hq : q ∈ created) (hd : d ∈ c.prefixes)
    (hsame : d.SameNetwork q) : q.network.length = p.network.length ∨ d.id = p.id ∧ p.network.length < d.network.length := by
  obtain ⟨req, hreq⟩ := h.answered hq
  by_cases hlong : p.network.length < d.network.length
  · by_cases hid : d.id = p.id
    · exact Or.inr ⟨hid, hlong⟩
    · have hin : ∀ a ∈ d.network, a ∈ p.network := fun a ha => (h.free_of_mem hq (hsame.mem_iff.mp ha)).1
      exact absurd hsame (h.apart_of_child hd hid hlong hin (hsame.1.trans hreq.vrf) hq).not_sameNetwork
  · have hlonger := hreq.longer
    have hlength := hsame.length_eq
    exact Or.inl (by omega)

/-- A new prefix that is as long as the parent is the only one of its batch. -/
theorem eq_singleton (h : PrefixBatch c now id requests p created) (hq : q ∈ created)
    (hlen : q.network.length = p.network.length) : created = [q] := by
  have hmeets : ∀ r ∈ created, ¬ q.Apart r := fun r hr hapart =>
    absurd (h.longer_of_apart hq (fun a ha => (h.free_of_mem hr ha).1) hapart) (by omega)
  match created, h.apart, hq, hmeets with
  | [x], _, hq, _ => rw [List.mem_singleton.mp hq]
  | x :: y :: rest, hpairwise, hq, hmeets =>
    obtain ⟨hx, -⟩ := List.pairwise_cons.mp hpairwise
    rcases List.mem_cons.mp hq with rfl | hq
    · exact absurd (hx y List.mem_cons_self) (hmeets y (List.mem_cons_of_mem _ List.mem_cons_self))
    · exact absurd (fun a ha hax => hx q hq a hax ha) (hmeets x List.mem_cons_self)

/-- A new prefix that is as long as the parent has the network of the parent. -/
theorem sameNetwork_parent (h : PrefixBatch c now id requests p created) (hq : q ∈ created)
    (hlen : q.network.length = p.network.length) : p.SameNetwork q := by
  obtain ⟨req, hreq⟩ := h.answered hq
  refine ⟨hreq.vrf.symm, p.network.aligned_truncate.ext_mem q.network.aligned_truncate fun a => ?_⟩
  rw [Network.mem_truncate, Network.mem_truncate]
  exact ⟨h.covers hq (by omega) a, fun ha => (h.free_of_mem hq ha).1⟩

/-- The validator rejects a batch exactly if it is for the whole parent, or if a longer record with the parent's id has one
of the new networks. -/
theorem rejected_iff (h : PrefixBatch c now id requests p created) (he : Validator.enforces globally c p.vrf = true) :
    (∃ q ∈ created, Validator.uniqueness globally (.prefixRecord q) (c.withPrefixes created) ≠ none) ↔
      (∃ req, requests = [req] ∧ req.length = some (p.network.length : Int)) ∨
      ∃ q ∈ created, ∃ d ∈ c.prefixes, d.id = p.id ∧ p.network.length < d.network.length ∧ d.SameNetwork q := by
  have hrejected : ∀ q ∈ created, Validator.uniqueness globally (.prefixRecord q) (c.withPrefixes created) ≠ none ↔
      ∃ d ∈ c.prefixes, d.SameNetwork q := fun q hq => by
    obtain ⟨req, hreq⟩ := h.answered hq
    have henforced : Validator.enforces globally (c.withPrefixes created) q.vrf = true := hreq.vrf ▸ he
    rw [ne_eq, ← Validator.accepts_uniqueness_iff, Validator.accepts_uniqueness_prefix, h.duplicates_eq_nil hq]
    simp [henforced]
  constructor
  · rintro ⟨q, hq, hne⟩
    obtain ⟨d, hd, hsame⟩ := (hrejected q hq).mp hne
    rcases h.sameNetwork_old hq hd hsame with hlen | ⟨hid, hlong⟩
    · obtain rfl := h.eq_singleton hq hlen
      obtain ⟨req, reqs, hreq, hrest, rfl⟩ := List.forall₂_cons_right_iff.mp h.answers
      obtain rfl := List.forall₂_nil_right_iff.mp hrest
      exact Or.inl ⟨req, rfl, hlen ▸ hreq.length⟩
    · exact Or.inr ⟨q, hq, d, hd, hid, hlong, hsame⟩
  · rintro (⟨req, rfl, hlen⟩ | ⟨q, hq, d, hd, -, -, hsame⟩)
    · obtain ⟨q, rest, hreq, -, rfl⟩ := List.forall₂_cons_left_iff.mp h.answers
      have hq : q.network.length = p.network.length := Int.ofNat_inj.mp (Option.some.inj (hreq.length.symm.trans hlen))
      refine ⟨q, List.mem_cons_self, (hrejected q List.mem_cons_self).mpr ?_⟩
      exact ⟨p, (Catalog.prefix?_eq_some h.found).1, h.sameNetwork_parent List.mem_cons_self hq⟩
    · exact ⟨q, hq, (hrejected q hq).mpr ⟨d, hd, hsame⟩⟩

end PrefixBatch

/-! ### Addresses -/

/-- No other record has the address of a new one in its routing domain, so the validator has nothing against it. -/
theorem AddressBatch.uniqueness_eq_none {parent : Parent} {requests : List AddressRequest} {s : Scope} {a : AddressRecord}
    {created : List AddressRecord} (h : AddressBatch c now parent requests s created) (ha : a ∈ created) :
    Validator.uniqueness globally (.addressRecord a) (c.withAddresses created) = none := by
  refine Validator.accepts_uniqueness_iff.mp (Validator.accepts_uniqueness_address.mpr fun _ => ?_)
  rw [h.duplicates_eq ha, List.filter_eq_nil_iff]
  intro b hb hdup
  simp only [Bool.and_eq_true, beq_iff_eq] at hdup
  exact h.exclusive.apart_before a ha b hb ⟨hdup.1.symm, hdup.2.symm⟩

theorem uniqueness_of_addresses {validators : List Validator} {parent : Parent} {requests : List AddressRequest}
    {r : Allocated AddressRecord} (h : allocateAddresses validators now c parent requests = .ok r) :
    ∀ x ∈ r.created, Validator.uniqueness globally (.addressRecord x) r.catalog = none := by
  obtain ⟨hbatch, hcatalog⟩ := allocateAddresses_eq_ok h
  rw [hcatalog]
  exact fun x hx => hbatch.uniqueness_eq_none hx

/-! ### A run -/

/-- An allocation on an allocator that has the validator. -/
structure Attempt.Checks (globally : Bool) (t : Attempt) : Prop where
  validator : Validator.uniqueness globally ∈ t.validators
  allocates : ∀ records, t.call ≠ .seed records

/-- Two records that a table which does not have duplicates can both hold. -/
def Catalog.Tolerates (globally : Bool) (c : Catalog) (q r : PrefixRecord) : Prop :=
  Validator.enforces globally c q.vrf = true → ¬ q.SameNetwork r

/-- What is added to a table of prefixes differs from all that is there, and among itself. -/
structure Catalog.Adds (globally : Bool) (c : Catalog) (created : List PrefixRecord) (c' : Catalog) : Prop where
  prefixes : c'.prefixes = c.prefixes ++ created
  vrfs : c'.vrfs = c.vrfs
  tolerated : ∀ q ∈ created, ∀ d ∈ c.prefixes, c.Tolerates globally d q
  pairwise : created.Pairwise (c.Tolerates globally)

namespace Catalog

theorem tolerates_congr (h : c'.vrfs = c.vrfs) : c'.Tolerates globally q r ↔ c.Tolerates globally q r := by
  rw [Tolerates, Tolerates, Validator.enforces_congr h]

theorem Adds.nil (c : Catalog) : c.Adds globally [] c :=
  ⟨(List.append_nil _).symm, rfl, fun _ hq => absurd hq List.not_mem_nil, .nil⟩

theorem Adds.trans {c'' : Catalog} {later : List PrefixRecord} (h : c.Adds globally created c')
    (h' : c'.Adds globally later c'') : c.Adds globally (created ++ later) c'' where
  prefixes := by rw [h'.prefixes, h.prefixes, List.append_assoc]
  vrfs := h'.vrfs.trans h.vrfs
  tolerated q hq d hd := by
    rcases List.mem_append.mp hq with hq | hq
    · exact h.tolerated q hq d hd
    · exact (tolerates_congr h.vrfs).mp (h'.tolerated q hq d (h.prefixes ▸ List.mem_append_left _ hd))
  pairwise := by
    refine List.pairwise_append.mpr ⟨h.pairwise, h'.pairwise.imp (tolerates_congr h.vrfs).mp, fun d hd q hq => ?_⟩
    exact (tolerates_congr h.vrfs).mp (h'.tolerated q hq d (h.prefixes ▸ List.mem_append_right _ hd))

/-- The networks in a table, without their host bits. -/
def networksIn (c : Catalog) (vrf : Option RecordId) : List Network :=
  (c.prefixes.filter (·.vrf = vrf)).map (·.network.truncate)

/-- In an enforced table, networks that differ still do when tolerated ones have been added. -/
theorem Adds.nodup {vrf : Option RecordId} (h : c.Adds globally created c') (he : Validator.enforces globally c vrf = true)
    (hc : (c.networksIn vrf).Nodup) : (c'.networksIn vrf).Nodup := by
  have hne : ∀ {q r : PrefixRecord}, c.Tolerates globally q r → q.vrf = vrf → r.vrf = vrf →
      q.network.truncate ≠ r.network.truncate := fun hqr hq hr heq => hqr (hq ▸ he) ⟨hq.trans hr.symm, heq⟩
  rw [networksIn, h.prefixes, List.filter_append, List.map_append]
  refine List.nodup_append.mpr ⟨hc, List.pairwise_map.mpr ?_, ?_⟩
  · refine (h.pairwise.filter _).imp_of_mem fun hq hr hqr => hne hqr ?_ ?_
    · exact of_decide_eq_true (List.mem_filter.mp hq).2
    · exact of_decide_eq_true (List.mem_filter.mp hr).2
  · intro n hn m hm
    obtain ⟨d, hd, rfl⟩ := List.mem_map.mp hn
    obtain ⟨q, hq, rfl⟩ := List.mem_map.mp hm
    obtain ⟨hd, hdvrf⟩ := List.mem_filter.mp hd
    obtain ⟨hq, hqvrf⟩ := List.mem_filter.mp hq
    exact hne (h.tolerated q hq d hd) (of_decide_eq_true hdvrf) (of_decide_eq_true hqvrf)

/-- A batch to which the validator does not object adds nothing that is there already. -/
theorem adds_of_batch (h : PrefixBatch c now id requests p created)
    (haccepts : ∀ q ∈ created, Accepts (Validator.uniqueness globally (.prefixRecord q) (c.withPrefixes created))) :
    c.Adds globally created (c.withPrefixes created) where
  prefixes := rfl
  vrfs := rfl
  tolerated q hq d hd he hsame := by
    have henforced : Validator.enforces globally (c.withPrefixes created) q.vrf = true :=
      (Validator.enforces_congr rfl _).trans (hsame.1 ▸ he)
    have hnil := Validator.accepts_uniqueness_prefix.mp (haccepts q hq) henforced
    exact (h.duplicates_eq_nil hq).mp hnil d hd hsame
  pairwise := by
    refine h.apart.imp fun hapart _ => ?_
    exact PrefixRecord.Apart.not_sameNetwork hapart

/-- An allocation that the validator has seen adds nothing that is there already. -/
theorem adds_of_attempt (ht : t.Checks globally) {m : Commit} (h : c.attempt t = some (m, c')) :
    ∃ created, c.Adds globally created c' := by
  unfold attempt at h
  split at h
  · obtain ⟨r, hr, heq⟩ := toOption_map_eq_some h
    cases heq
    obtain ⟨p, hbatch, hcatalog⟩ := allocatePrefixes_eq_ok hr
    obtain ⟨-, lengths, networks, -, -, -, hreview⟩ := allocatePrefixes_eq_ok_iff.mp hr
    rw [hcatalog] at hreview ⊢
    refine ⟨_, adds_of_batch hbatch fun q hq => ?_⟩
    exact review_eq_ok.mp hreview _ (List.mem_map_of_mem hq) _ ht.validator
  · obtain ⟨r, hr, heq⟩ := toOption_map_eq_some h
    cases heq
    rw [(allocateAddresses_eq_ok hr).2]
    exact ⟨[], (List.append_nil _).symm, rfl, fun _ hq => absurd hq List.not_mem_nil, .nil⟩
  · rename_i records hcall
    exact absurd hcall (ht.allocates records)

theorem adds_outcome : ∀ {ts : List Attempt} {c : Catalog}, (∀ t ∈ ts, t.Checks globally) →
    ∃ created, c.Adds globally created (c.outcome ts)
  | [], c, _ => ⟨[], .nil c⟩
  | t :: ts, c, hts => by
    obtain ⟨ht, hts⟩ := List.forall_mem_cons.mp hts
    cases h : c.attempt t with
    | none =>
      rw [(steps_cons_none ts h).2]
      exact adds_outcome hts
    | some r =>
      obtain ⟨m, c'⟩ := r
      rw [(steps_cons_some ts h).2]
      obtain ⟨created, hadds⟩ := adds_of_attempt ht h
      obtain ⟨later, hlater⟩ := adds_outcome hts
      exact ⟨created ++ later, hadds.trans hlater⟩

end Catalog

/-! ### Calls -/

namespace Allocator

variable {a : Allocator} {s u : Site} {draft : Allocated PrefixRecord}

/-- A call whose records the validator rejects is rejected for their fields. -/
theorem rejected_of_uniqueness (hv : Validator.uniqueness globally ∈ a.validators)
    (hopen : a.OpensAt s (.of .prefixes (.prefixRecord id) a.lockScope) c u)
    (hdraft : AddressPlan.allocatePrefixes [] u.clock c id requests = .ok draft) (hq : q ∈ draft.created)
    (h : Validator.uniqueness globally (.prefixRecord q) draft.catalog ≠ none) :
    ∃ items, (a.allocatePrefixes id requests).outcome s = .error (.refused (.rejected items)) := by
  obtain ⟨rejection, hrejection⟩ := Option.ne_none_iff_exists'.mp h
  obtain ⟨e, rfl, hne⟩ := Validator.uniqueness_eq_some hrejection
  have hbatch : AddressPlan.allocatePrefixes a.validators u.clock c id requests = _ := allocatePrefixes_reviewed hdraft
  rw [review_of_fields (List.mem_map_of_mem hq) hv hrejection hne] at hbatch
  exact ⟨_, ((allocatePrefixes_comesTo requests hopen).refused _).mpr hbatch⟩

/-- If no other validator rejects, a call is rejected for fields only where this one rejects a record. -/
theorem uniqueness_of_rejected {items : List FieldErrors} (hopen : a.OpensAt s (.of .prefixes (.prefixRecord id) a.lockScope) c u)
    (hdraft : AddressPlan.allocatePrefixes [] u.clock c id requests = .ok draft)
    (hothers : ∀ v ∈ a.validators, v = Validator.uniqueness globally ∨ ∀ q ∈ draft.created, v (.prefixRecord q) draft.catalog = none)
    (h : (a.allocatePrefixes id requests).outcome s = .error (.refused (.rejected items))) :
    ∃ q ∈ draft.created, Validator.uniqueness globally (.prefixRecord q) draft.catalog ≠ none := by
  by_contra hnone
  simp only [not_exists, not_and, not_not] at hnone
  have hreview : review a.validators draft.catalog (draft.created.map .prefixRecord) = .ok () := by
    refine review_eq_ok.mpr (List.forall_mem_map.mpr fun q hq v hv => ?_)
    rcases hothers v hv with rfl | hsilent
    · rw [hnone q hq]
      trivial
    · rw [hsilent q hq]
      trivial
  have hbatch := ((allocatePrefixes_comesTo requests hopen).refused _).mp h
  rw [allocatePrefixes_reviewed hdraft, hreview] at hbatch
  cases hbatch

end Allocator

namespace Catalog

/-- When the validator for uniqueness objects. For prefixes from a parent in an enforced table: to a batch of the one prefix
that is as long as the parent, or to one that gets the network of a longer record with the parent's id. A call is rejected for
this, whatever the other validators say. For addresses: never. So what a run of allocations creates in an enforced table is
nowhere else in it, whatever has been there before. -/
theorem uniqueness_bites (globally : Bool) (c : Catalog) :
    (∀ now id requests p r, c.prefix? id = some p → Validator.enforces globally c p.vrf = true →
      allocatePrefixes [] now c id requests = .ok r →
      let objects := ∃ q ∈ r.created, Validator.uniqueness globally (.prefixRecord q) r.catalog ≠ none
      (objects ↔ (∃ req, requests = [req] ∧ req.length = some (p.network.length : Int)) ∨
        ∃ q ∈ r.created, ∃ d ∈ c.prefixes, d.id = p.id ∧ p.network.length < d.network.length ∧ d.SameNetwork q) ∧
      ∀ (a : Allocator) (s u : Site), Validator.uniqueness globally ∈ a.validators → u.clock = now →
        a.OpensAt s (.of .prefixes (.prefixRecord id) a.lockScope) c u →
        let rejected := ∃ items, (a.allocatePrefixes id requests).outcome s = .error (.refused (.rejected items))
        (objects → rejected) ∧
        ((∀ v ∈ a.validators, v = Validator.uniqueness globally ∨ ∀ q ∈ r.created, v (.prefixRecord q) r.catalog = none) →
          rejected → objects)) ∧
    (∀ ts : List Attempt, (∀ t ∈ ts, t.Checks globally) → (∃ created, c.Adds globally created (c.outcome ts)) ∧
      (∀ vrf, Validator.enforces globally c vrf = true → (c.networksIn vrf).Nodup → ((c.outcome ts).networksIn vrf).Nodup) ∧
      ∀ (a : Allocator) (s : Site), (∀ t ∈ ts, t.validators = a.validators) → a.Manages c (ts.map Attempt.timed) s →
        (∀ o ∈ a.run s (ts.map Attempt.timed), o.Sound) →
          ∀ now, a.store.kept now (a.leave s (ts.map Attempt.timed)) = .ok (c.outcome ts)) ∧
    (∀ validators now parent requests r, allocateAddresses validators now c parent requests = .ok r →
      ∀ x ∈ r.created, Validator.uniqueness globally (.addressRecord x) r.catalog = none) ∧
    ∀ (a : Allocator) (s : Site) parent requests r, (a.allocateAddresses parent requests).outcome s = .ok r →
      ∀ x ∈ r.created, Validator.uniqueness globally (.addressRecord x) r.catalog = none := by
  refine ⟨fun now id requests p r hp he h => ⟨?_, fun a s u hv hclock hopen => ?_⟩, fun ts hts => ?_,
    fun validators now parent requests r => uniqueness_of_addresses, fun a s parent requests r h => ?_⟩
  · obtain ⟨p', hbatch, hcatalog⟩ := allocatePrefixes_eq_ok h
    obtain rfl := Option.some.inj (hbatch.found.symm.trans hp)
    rw [hcatalog]
    exact hbatch.rejected_iff he
  · subst hclock
    exact ⟨fun ⟨_, hq, hne⟩ => Allocator.rejected_of_uniqueness hv hopen h hq hne,
      fun hothers ⟨_, hrejected⟩ => Allocator.uniqueness_of_rejected hopen h hothers hrejected⟩
  · obtain ⟨created, hadds⟩ := adds_outcome hts
    refine ⟨⟨created, hadds⟩, fun vrf => hadds.nodup, fun a s hvalidators hs hsound => ?_⟩
    exact (Allocator.run_calls hs hvalidators hsound).2
  · obtain ⟨c', u, -, hbatch⟩ := Allocator.exists_batch_of_ok h
    exact uniqueness_of_addresses hbatch

/-! ### A whole prefix, and its parts -/

def uniquely (length : Nat) : Attempt :=
  ⟨[Validator.uniqueness true], epoch, .prefixes 1 [⟨some length, .active, .blank⟩]⟩

theorem checks_uniquely (length : Nat) : (uniquely length).Checks true :=
  ⟨List.mem_singleton_self _, nofun⟩

/-- An allocator in memory with no validator but this one. -/
def uniquenessOnly : Allocator :=
  ⟨.memory, .inProcess, .global, [Validator.uniqueness true]⟩

/-- All of a prefix is rejected; its halves can be had, one after the other, and an address. -/
theorem uniqueness_bites_whole :
    let a := uniquenessOnly
    let s := Allocator.site whole
    (∃ p r, whole.prefix? 1 = some p ∧ Validator.enforces true whole p.vrf = true ∧
      allocatePrefixes [] epoch whole 1 (prefixesOf [24]) = .ok r ∧
      (∃ q ∈ r.created, Validator.uniqueness true (.prefixRecord q) r.catalog ≠ none) ∧
      ∃ items, (a.allocatePrefixes 1 (prefixesOf [24])).outcome s = .error (.refused (.rejected items))) ∧
    ((∀ t ∈ [uniquely 25, uniquely 25], t.Checks true) ∧ Validator.enforces true whole none = true ∧
      (whole.networksIn none).Nodup ∧ ((whole.outcome [uniquely 25, uniquely 25]).networksIn none).Nodup ∧
      (whole.outcome [uniquely 25, uniquely 25]).prefixes.length = 3 ∧
      ∀ now, a.store.kept now (a.leave s ([uniquely 25, uniquely 25].map Attempt.timed)) =
        .ok (whole.outcome [uniquely 25, uniquely 25])) ∧
    ∃ r, (a.allocateAddresses (.prefixRecord 1) (addressesOf ["a"])).outcome s = .ok r ∧ r.created.length = 1 ∧
      ∀ x ∈ r.created, Validator.uniqueness true (.addressRecord x) r.catalog = none := by
  intro a s
  have hall : (allocatePrefixes [] epoch whole 1 (prefixesOf [24])).toOption.map (·.created.length) = some 1 := by
    decide +kernel
  have hone : ((uniquenessOnly.allocateAddresses (.prefixRecord 1) (addressesOf ["a"])).outcome (Allocator.site whole)).toOption.map
      (·.created.length) = some 1 := by decide +kernel
  obtain ⟨r, hr, -⟩ := toOption_map_eq_some hall
  obtain ⟨r', hr', hlength⟩ := toOption_map_eq_some hone
  obtain ⟨p, hp, hvrf, hlen⟩ : ∃ p, whole.prefix? 1 = some p ∧ p.vrf = none ∧ p.network.length = 24 := ⟨_, rfl, rfl, rfl⟩
  obtain ⟨hbites, hruns, -, haddresses⟩ := uniqueness_bites true whole
  have hchecks : ∀ t ∈ [uniquely 25, uniquely 25], t.Checks true := by simp [checks_uniquely]
  have hbefore : (whole.networksIn none).Nodup := by decide +kernel
  have he : Validator.enforces true whole p.vrf = true := by rw [hvrf]; rfl
  have hwhole : some (24 : Int) = some (p.network.length : Int) := by rw [hlen]; rfl
  have hopen : a.OpensAt s (.global .prefixes) whole _ := Allocator.opensAt_memory rfl rfl List.not_mem_nil
  obtain ⟨hobjects, hcall⟩ := hbites epoch 1 _ p r hp he hr
  have hrejected := hobjects.mpr (Or.inl ⟨_, rfl, hwhole⟩)
  obtain ⟨-, hnodup, hkept⟩ := hruns _ hchecks
  have hsound : ∀ o ∈ uniquenessOnly.run (Allocator.site whole) ([uniquely 25, uniquely 25].map Attempt.timed), o.Sound := by
    decide +kernel
  exact ⟨⟨p, r, hp, he, hr, hrejected, (hcall a s _ List.mem_cons_self rfl hopen).1 hrejected⟩,
    ⟨hchecks, rfl, hbefore, hnodup none rfl hbefore, by decide +kernel,
      hkept a s (by simp [uniquely, a, uniquenessOnly]) (Allocator.manages_memory (s := s) rfl rfl) hsound⟩,
    r', hr', hlength, haddresses a s _ _ r' hr'⟩

/-- A part of a prefix is rejected, since a record with the id of the prefix has its network. -/
theorem part_rejected_for_shared_id : ∃ p r, (ofPrefixes [(1, tenNet 24), (1, tenNet 26)]).prefix? 1 = some p ∧
    Validator.enforces true (ofPrefixes [(1, tenNet 24), (1, tenNet 26)]) p.vrf = true ∧
    allocatePrefixes [] epoch (ofPrefixes [(1, tenNet 24), (1, tenNet 26)]) 1 [⟨some 26, .active, .blank⟩] = .ok r ∧
    (∃ q ∈ r.created, Validator.uniqueness true (.prefixRecord q) r.catalog ≠ none) ∧
    ¬ ∃ req : PrefixRequest, [(⟨some 26, .active, .blank⟩ : PrefixRequest)] = [req] ∧
      req.length = some (p.network.length : Int) := by
  have hone : (allocatePrefixes [] epoch (ofPrefixes [(1, tenNet 24), (1, tenNet 26)]) 1
      [⟨some 26, .active, .blank⟩]).toOption.map (fun r => r.created.any fun q =>
        (Validator.uniqueness true (.prefixRecord q) r.catalog).isSome) = some true := by decide +kernel
  obtain ⟨r, hr, hany⟩ := toOption_map_eq_some hone
  obtain ⟨q, hq, hsome⟩ := List.any_eq_true.mp hany
  refine ⟨_, r, rfl, rfl, hr, ⟨q, hq, Option.isSome_iff_ne_none.mp hsome⟩, ?_⟩
  rintro ⟨req, hreq, hlength⟩
  cases hreq
  exact absurd hlength (by decide)

end Catalog

end AddressPlan
