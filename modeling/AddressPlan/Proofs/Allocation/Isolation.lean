import AddressPlan.Proofs.Allocation.Listing
import AddressPlan.Proofs.Allocation.Refusals
import AddressPlan.Proofs.Allocation.Review
import AddressPlan.Proofs.Catalog.Locality

/-!
Two catalogs that hold the same records inside a parent, in its own routing domain, cannot be told apart by what is done
with this parent: its scope, its listings and every batch are the same, but for the ids and times of new records.
Records of other routing domains and outside the parent are neither seen nor in the way.
-/

namespace AddressPlan

open Net

/-! ### Records without ids and times -/

namespace PrefixRecord

def content (p : PrefixRecord) : NewPrefix :=
  ⟨p.network, p.vrf, p.status, p.details⟩

end PrefixRecord

namespace AddressRecord

def content (a : AddressRecord) : NewAddress :=
  ⟨a.host, a.vrf, a.status, a.dnsName, a.details⟩

end AddressRecord

/-- What is to be created, as far as it does not depend on when and after which records. -/
inductive Content where
  | prefixRecord (new : NewPrefix)
  | addressRecord (new : NewAddress)
  deriving DecidableEq, Repr

def Created.content : Created → Content
  | prefixRecord p => .prefixRecord p.content
  | addressRecord a => .addressRecord a.content

variable {globally : Bool} {permissions : Validator.Permissions} {checks : List (Content → Option Rejection)}
  {validators : List Validator} {now now' : Clock} {c d : Catalog} {id : RecordId} {parent : Parent} {s : Scope}

namespace Validator

/-- The validators of an allocator whose further ones look at the content of the record only. -/
def withContentChecks (globally : Bool) (permissions : Permissions) (checks : List (Content → Option Rejection)) :
    List Validator :=
  uniqueness globally :: permission permissions :: checks.map fun check r _ => check r.content

/-! ### Verdicts -/

theorem enforces_congr (hvrfs : c.vrfs = d.vrfs) (vrf : Option RecordId) : enforces globally c vrf = enforces globally d vrf := by
  cases vrf with
  | none => rfl
  | some id => rw [enforces, enforces, Catalog.vrf?_congr hvrfs]

theorem tableName_congr (hvrfs : c.vrfs = d.vrfs) (vrf : Option RecordId) : tableName c vrf = tableName d vrf := by
  have hfind : c.vrf? = d.vrf? := funext (Catalog.vrf?_congr hvrfs)
  rw [tableName, tableName, hfind]

theorem uniqueness_prefix_congr {q q' : PrefixRecord} (hvrfs : c.vrfs = d.vrfs) (hvrf : q.vrf = q'.vrf)
    (hduplicates : c.duplicatePrefixes q = d.duplicatePrefixes q') :
    uniqueness globally (.prefixRecord q) c = uniqueness globally (.prefixRecord q') d := by
  simp only [uniqueness, Created.vrf, hvrf, enforces_congr hvrfs, tableName_congr hvrfs, hduplicates]
  rfl

theorem uniqueness_address_congr {a a' : AddressRecord} (hvrfs : c.vrfs = d.vrfs) (hvrf : a.vrf = a'.vrf)
    (hduplicates : c.duplicateAddresses a = d.duplicateAddresses a') :
    uniqueness globally (.addressRecord a) c = uniqueness globally (.addressRecord a') d := by
  simp only [uniqueness, Created.vrf, hvrf, enforces_congr hvrfs, tableName_congr hvrfs, hduplicates]
  rfl

theorem permission_congr {r r' : Created} (h : r.content = r'.content) :
    permission permissions r c = permission permissions r' d := by
  have hpermit : ∀ x : Created, permissions.permit x = match x.content with
      | .prefixRecord new => permissions.permit (.prefixRecord (new.record 0 Catalog.epoch))
      | .addressRecord new => permissions.permit (.addressRecord (new.record 0 Catalog.epoch)) := fun x => by
    cases x <;> rfl
  rw [permission, permission, hpermit, hpermit r', h]

/-- Of validators like these, only the one for uniqueness looks at the catalog. -/
theorem withContentChecks_congr {r r' : Created} (hcontent : r.content = r'.content)
    (hunique : uniqueness globally r c = uniqueness globally r' d) :
    ∀ v ∈ withContentChecks globally permissions checks, v r c = v r' d := by
  intro v hv
  rcases List.mem_cons.mp hv with rfl | hv
  · exact hunique
  rcases List.mem_cons.mp hv with rfl | hv
  · exact permission_congr hcontent
  obtain ⟨check, -, rfl⟩ := List.mem_map.mp hv
  exact congrArg check hcontent

end Validator

/-! ### Outcomes -/

/-- What is told of a batch when ids and times are left out: the scope, and what has been created. -/
def Allocated.told {β γ : Type} (content : β → γ) (r : Allocated β) : Scope × List γ :=
  (r.scope, r.created.map content)

/-- As far as is told, the outcome is the same, unless one of the two is that there are no ids left. -/
def SameOutcome {α τ : Type} (told : α → τ) (x y : Except Refusal α) : Prop :=
  x = .error .exhausted ∨ y = .error .exhausted ∨ x.map told = y.map told

namespace SameOutcome

variable {α β τ : Type} {told : β → τ}

/-- After a common step, which ends both if it fails. -/
theorem bind {x : Except Refusal α} {f g : α → Except Refusal β} (h : ∀ a, x = .ok a → SameOutcome told (f a) (g a)) :
    SameOutcome told (x >>= f) (x >>= g) := by
  cases x with
  | error e => exact Or.inr (Or.inr rfl)
  | ok a => exact h a rfl

theorem error (why : Refusal) : SameOutcome told (.error why) (.error why) :=
  Or.inr (Or.inr rfl)

end SameOutcome

section Content
variable {α β : Type} {content : β → α} {wrap : β → Created} {created created' : List β} {c' d' : Catalog}

/-- Records with the same content that pass both reviews, or fail both for the same reason. -/
theorem SameOutcome.of_review {rs rs' : List Created} (hcontent : created.map content = created'.map content)
    (hreview : review validators c' rs = review validators d' rs') :
    SameOutcome (Allocated.told content) (review validators c' rs >>= fun _ => pure ⟨s, created, c'⟩)
      (review validators d' rs' >>= fun _ => pure ⟨s, created', d'⟩) := by
  rw [hreview]
  exact .bind fun _ _ => Or.inr (Or.inr (congrArg (fun as => Except.ok (s, as)) hcontent))

theorem Catalog.Inserts.map_content {insert : Catalog → α → Option (β × Catalog)} {record : α → RecordId → β}
    {extend : Catalog → List β → Catalog} {idOf : β → RecordId} {news : List α} (hins : Inserts insert record extend idOf)
    (hcontent : ∀ a i, content (record a i) = a) (h : insertAll insert c news = some (created, c')) :
    created.map content = news :=
  forall₂_map_eq ((hins.insertAll_eq_some h).2.2.imp fun a b hb => by rw [hb, hcontent])

/-- A review of records with the same content depends on the verdicts on any two of them in the same place. -/
theorem review_map_congr (hcontent : created.map content = created'.map content)
    (h : ∀ b ∈ created, ∀ b' ∈ created', content b = content b' → ∀ v ∈ validators, v (wrap b) c = v (wrap b') d) :
    review validators c (created.map wrap) = review validators d (created'.map wrap) := by
  have hpairs : List.Forall₂ (fun b b' => content b = content b') created created' :=
    List.forall₂_map_right_iff.mp (List.forall₂_map_left_iff.mp (hcontent ▸ List.forall₂_refl _))
  refine review_congr (List.forall₂_map_left_iff.mpr (List.forall₂_map_right_iff.mpr (List.forall₂_iff_zip.mpr
    ⟨hpairs.length_eq, fun {b b'} hmem => ?_⟩)))
  obtain ⟨hb, hb'⟩ := List.of_mem_zip hmem
  exact h b hb b' hb' (List.forall₂_zip hpairs hmem)

end Content

/-! ### Batches -/

open Catalog

/-- A batch of prefixes has the same outcome in both catalogs. -/
theorem allocatePrefixes_isolated (hvrfs : c.vrfs = d.vrfs) (hinside : SameInside (.prefixRecord id) c d)
    (requests : List PrefixRequest) : SameOutcome (Allocated.told PrefixRecord.content)
      (allocatePrefixes (Validator.withContentChecks globally permissions checks) now c id requests)
      (allocatePrefixes (Validator.withContentChecks globally permissions checks) now' d id requests) := by
  have hscope := hinside.scope_eq hvrfs .prefixes
  unfold allocatePrefixes
  rw [← hscope]
  refine .bind fun s hs => .bind fun lengths hlengths => .bind fun networks hnetworks => ?_
  have hs := mapError_eq_ok.mp hs
  have hnetworks := mapError_eq_ok.mp hnetworks
  split
  · exact Or.inl rfl
  rename_i created c' hins
  split
  · exact Or.inr (Or.inl rfl)
  rename_i created' d' hins'
  have hcontent : created.map PrefixRecord.content = created'.map PrefixRecord.content :=
    ((Catalog.inserts_prefix now).map_content (fun _ _ => rfl) hins).trans
      ((Catalog.inserts_prefix now').map_content (fun _ _ => rfl) hins').symm
  -- Both are batches that no validator has looked at yet.
  have hdraft : allocatePrefixes [] now c id requests = .ok ⟨s, created, c'⟩ := allocatePrefixes_eq_ok_iff.mpr
    ⟨hs, lengths, networks, hlengths, hnetworks, hins, review_nil _ _⟩
  have hdraft' : allocatePrefixes [] now' d id requests = .ok ⟨s, created', d'⟩ := allocatePrefixes_eq_ok_iff.mpr
    ⟨hscope ▸ hs, lengths, networks, hlengths, hnetworks, hins', review_nil _ _⟩
  obtain ⟨p, batch, hc'⟩ := allocatePrefixes_eq_ok hdraft
  obtain ⟨p', batch', hd'⟩ := allocatePrefixes_eq_ok hdraft'
  obtain rfl : c' = c.withPrefixes created := hc'
  obtain rfl : d' = d.withPrefixes created' := hd'
  refine .of_review hcontent (review_map_congr hcontent fun q hq q' hq' hsame => ?_)
  have hvrf : q.vrf = q'.vrf := congrArg NewPrefix.vrf hsame
  have hnetwork : q.network = q'.network := congrArg NewPrefix.network hsame
  have hduplicates := batch.duplicates_congr batch' hs (hinside.sameWithin hs) hq hq' hnetwork hvrf
  exact Validator.withContentChecks_congr (congrArg Content.prefixRecord hsame)
    (Validator.uniqueness_prefix_congr hvrfs hvrf hduplicates)

/-- A batch of addresses has the same outcome in both catalogs. -/
theorem allocateAddresses_isolated (hvrfs : c.vrfs = d.vrfs) (hinside : SameInside parent c d)
    (requests : List AddressRequest) : SameOutcome (Allocated.told AddressRecord.content)
      (allocateAddresses (Validator.withContentChecks globally permissions checks) now c parent requests)
      (allocateAddresses (Validator.withContentChecks globally permissions checks) now' d parent requests) := by
  have hscope := hinside.scope_eq hvrfs .addresses
  unfold allocateAddresses
  rw [← hscope]
  refine .bind fun s hs => ?_
  have hs := mapError_eq_ok.mp hs
  dsimp only
  split
  · exact .error _
  rename_i hroom
  split
  · exact .error _
  rename_i addresses haddresses
  split
  · exact .error _
  rename_i hosts hhosts
  split
  · exact Or.inl rfl
  rename_i created c' hins
  split
  · exact Or.inr (Or.inl rfl)
  rename_i created' d' hins'
  have hcontent : created.map AddressRecord.content = created'.map AddressRecord.content :=
    ((Catalog.inserts_address now).map_content (fun _ _ => rfl) hins).trans
      ((Catalog.inserts_address now').map_content (fun _ _ => rfl) hins').symm
  have hdraft : allocateAddresses [] now c parent requests = .ok ⟨s, created, c'⟩ := allocateAddresses_eq_ok_iff.mpr
    ⟨hs, Nat.le_of_not_lt hroom, addresses, hosts, haddresses, hhosts, hins, review_nil _ _⟩
  have hdraft' : allocateAddresses [] now' d parent requests = .ok ⟨s, created', d'⟩ := allocateAddresses_eq_ok_iff.mpr
    ⟨hscope ▸ hs, Nat.le_of_not_lt hroom, addresses, hosts, haddresses, hhosts, hins', review_nil _ _⟩
  obtain ⟨batch, hc'⟩ := allocateAddresses_eq_ok hdraft
  obtain ⟨batch', hd'⟩ := allocateAddresses_eq_ok hdraft'
  obtain rfl : c' = c.withAddresses created := hc'
  obtain rfl : d' = d.withAddresses created' := hd'
  refine .of_review hcontent (review_map_congr hcontent fun a ha a' ha' hsame => ?_)
  have hvrf : a.vrf = a'.vrf := congrArg NewAddress.vrf hsame
  have hhost : a.host = a'.host := congrArg NewAddress.host hsame
  have hduplicates := batch.duplicates_congr batch' (hinside.sameWithin hs) ha ha' hhost hvrf
  exact Validator.withContentChecks_congr (congrArg Content.addressRecord hsame)
    (Validator.uniqueness_address_congr hvrfs hvrf hduplicates)

/-! ### Listings -/

namespace Allocator

variable {a b : Allocator} {t u : Site} {mode : Mode}

/-- A listing tells of the catalog nothing but the scope. -/
theorem listing_congr {α : Type} {event : Scope → Event} {tell : Scope → α} (hc : a.store.snapshot t = .ok c t)
    (hd : b.store.snapshot u = .ok d u) (hscope : c.scope parent mode = d.scope parent mode) :
    (a.listing parent mode event tell).outcome t = (b.listing parent mode event tell).outcome u := by
  have hkept : ∀ {st : Store} {e : Catalog} {v : Site}, st.snapshot v = .ok e v → st.kept v.clock v = .ok e := by
    intro st e v h
    rw [Store.snapshot_apply] at h
    cases hkept : st.kept v.clock v with
    | error why =>
      rw [hkept] at h
      cases h
    | ok e' =>
      rw [hkept] at h
      cases h
      rfl
  rw [Act.outcome, Act.outcome, listing_apply (hkept hc), listing_apply (hkept hd), hscope]
  cases d.scope parent mode <;> rfl

end Allocator

/-! ### Isolation -/

/-- What lies outside a parent, or in other routing domains, makes no difference to its scope, to what is listed of it,
and to what a batch from it creates or why it is refused, on whichever allocators it is requested. -/
theorem isolation (globally : Bool) (permissions : Validator.Permissions) (checks : List (Content → Option Rejection))
    (parent : Parent) (c d : Catalog) (hvrfs : c.vrfs = d.vrfs) (hinside : SameInside parent c d) :
    let validators := Validator.withContentChecks globally permissions checks
    (∀ mode, c.scope parent mode = d.scope parent mode) ∧
    (∀ (a b : Allocator) (s t : Site), a.store.snapshot s = .ok c s → b.store.snapshot t = .ok d t →
      (∀ id, parent = .prefixRecord id → (a.availablePrefixes id).outcome s = (b.availablePrefixes id).outcome t) ∧
      ∀ limit, (a.availableAddresses parent limit).outcome s = (b.availableAddresses parent limit).outcome t) ∧
    (∀ now now', (∀ id requests, parent = .prefixRecord id → SameOutcome (Allocated.told PrefixRecord.content)
        (allocatePrefixes validators now c id requests) (allocatePrefixes validators now' d id requests)) ∧
      ∀ requests, SameOutcome (Allocated.told AddressRecord.content)
        (allocateAddresses validators now c parent requests) (allocateAddresses validators now' d parent requests)) ∧
    ∀ (a b : Allocator) (s t u v : Site), a.validators = validators → b.validators = validators →
      (∀ id requests, parent = .prefixRecord id → a.OpensAt s (.of .prefixes parent a.lockScope) c u →
        b.OpensAt t (.of .prefixes parent b.lockScope) d v → ∃ x y, SameOutcome (Allocated.told PrefixRecord.content) x y ∧
          a.ComesTo s u (a.allocatePrefixes id requests) x ∧ b.ComesTo t v (b.allocatePrefixes id requests) y) ∧
      ∀ requests, a.OpensAt s (.of .addresses parent a.lockScope) c u → b.OpensAt t (.of .addresses parent b.lockScope) d v →
        ∃ x y, SameOutcome (Allocated.told AddressRecord.content) x y ∧
          a.ComesTo s u (a.allocateAddresses parent requests) x ∧ b.ComesTo t v (b.allocateAddresses parent requests) y := by
  have hscope := hinside.scope_eq hvrfs
  refine ⟨hscope, fun a b s t hc hd => ⟨fun id hparent => ?_, fun limit => ?_⟩,
    fun now now' => ⟨fun id requests hparent => ?_, ?_⟩, fun a b s t u v ha hb => ⟨fun id requests hparent hu hv => ?_,
    fun requests hu hv => ?_⟩⟩
  · rw [Allocator.availablePrefixes_eq, Allocator.availablePrefixes_eq, ← hparent]
    exact Allocator.listing_congr hc hd (hscope .prefixes)
  · exact Allocator.listing_congr hc hd (hscope .addresses)
  · subst hparent
    exact allocatePrefixes_isolated hvrfs hinside requests
  · exact allocateAddresses_isolated hvrfs hinside
  · subst hparent
    refine ⟨_, _, ?_, Allocator.allocatePrefixes_comesTo requests hu, Allocator.allocatePrefixes_comesTo requests hv⟩
    rw [ha, hb]
    exact allocatePrefixes_isolated hvrfs hinside requests
  · refine ⟨_, _, ?_, Allocator.allocateAddresses_comesTo requests hu, Allocator.allocateAddresses_comesTo requests hv⟩
    rw [ha, hb]
    exact allocateAddresses_isolated hvrfs hinside requests

/-! ### Foreign records -/

/-- The nested prefixes and a routing domain without records. -/
def Catalog.alone : Catalog :=
  { Catalog.nested with vrfs := [⟨7, "blue", none, true⟩] }

/-- The same with a prefix and an address of the routing domain inside the first prefix, and a larger prefix around it. -/
def Catalog.amongForeign : Catalog :=
  ⟨alone.vrfs, [⟨9, Catalog.tenNet ⟨25, by decide⟩, some 7, .active, .blank, Catalog.epoch⟩] ++ alone.prefixes ++
      [⟨12, Catalog.tenNet ⟨8, by decide⟩, none, .container, .blank, Catalog.epoch⟩],
    [], [⟨20, Catalog.tenNet (.last 32), some 7, .active, "", .blank, Catalog.epoch⟩], 30⟩

theorem isolation_amongForeign : SameInside (.prefixRecord 1) alone amongForeign ∧
    (∀ mode, alone.scope (.prefixRecord 1) mode = amongForeign.scope (.prefixRecord 1) mode) ∧
    SameOutcome (Allocated.told PrefixRecord.content)
      (allocatePrefixes (Validator.withContentChecks true .all []) Catalog.epoch alone 1 (prefixesOf [26]))
      (allocatePrefixes (Validator.withContentChecks true .all []) Catalog.epoch amongForeign 1 (prefixesOf [26])) ∧
    let a := Allocator.inMemory
    let opened (c : Catalog) : Site := (Allocator.site c).note (.took (.key (.global .prefixes)))
    ∃ x y, SameOutcome (Allocated.told PrefixRecord.content) x y ∧
      a.ComesTo (Allocator.site alone) (opened alone) (a.allocatePrefixes 1 (prefixesOf [26])) x ∧
      a.ComesTo (Allocator.site amongForeign) (opened amongForeign) (a.allocatePrefixes 1 (prefixesOf [26])) y := by
  have hinside : SameInside (.prefixRecord 1) alone amongForeign :=
    ⟨⟨1, Catalog.tenNet 24, none, .active, .blank, Catalog.epoch⟩, by decide +kernel, by decide +kernel, by decide +kernel,
      by decide +kernel, by decide +kernel, by decide +kernel⟩
  obtain ⟨hscope, -, hbatch, hcalls⟩ := isolation true .all [] (.prefixRecord 1) alone amongForeign rfl hinside
  have hopen : ∀ c, Allocator.inMemory.OpensAt (Allocator.site c) (.global .prefixes) c _ :=
    fun c => Allocator.opensAt_memory rfl rfl List.not_mem_nil
  exact ⟨hinside, hscope, (hbatch Catalog.epoch Catalog.epoch).1 1 _ rfl,
    (hcalls Allocator.inMemory Allocator.inMemory _ _ _ _ rfl rfl).1 1 _ rfl (hopen alone) (hopen amongForeign)⟩

end AddressPlan
