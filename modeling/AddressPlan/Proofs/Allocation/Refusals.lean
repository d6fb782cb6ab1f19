import AddressPlan.Proofs.Allocation.Atomic
import AddressPlan.Proofs.Allocation.Integrity
import AddressPlan.Proofs.Allocation.Review

/-!
Why an operation fails. A batch is refused because its scope cannot be loaded, or for what is asked of the scope; in a
sound catalog the former means that the parent is not there. An allocation that has opened its transaction fails as its
batch does, or because of files, and a listing as the loading of its scope.
-/

namespace AddressPlan

open Net

variable {ε α : Type} {a : Allocator} {s : Site} {c : Catalog} {parent : Parent} {mode : Mode}

/-! ### Batches -/

/-- A refusal for what is asked, or because nothing is left to give. -/
def Refusal.AboutBatch : Refusal → Prop
  | .catalog _ | .block _ => False
  | .badLengths .. | .noRoom .. | .tooFew .. | .exhausted | .rejected _ | .denied _ => True

/-- Batches in the scope of a parent: they are refused as the scope is, or for what is asked of it. -/
structure Batched (batch : Clock → Catalog → Except Refusal (Allocated α)) (mode : Mode) (parent : Parent) : Prop where
  withoutScope : ∀ now c e, c.scope parent mode = .error e → batch now c = .error (.catalog e)
  withScope : ∀ now c scope why, c.scope parent mode = .ok scope → batch now c = .error why → why.AboutBatch

theorem checkLengths_aboutBatch {scope : Scope} {requests : List PrefixRequest} {why : Refusal}
    (h : checkLengths scope requests = .error why) : why.AboutBatch := by
  unfold checkLengths at h
  dsimp only at h
  split at h <;> cases h
  trivial

theorem review_aboutBatch {validators : List Validator} {created : List Created} {why : Refusal}
    (h : review validators c created = .error why) : why.AboutBatch := by
  unfold review at h
  dsimp only at h
  split at h
  · cases h
    trivial
  · split at h <;> cases h
    trivial

theorem batched_prefixes (validators : List Validator) (id : RecordId) (requests : List PrefixRequest) :
    Batched (fun now c => allocatePrefixes validators now c id requests) .prefixes (.prefixRecord id) where
  withoutScope now c e h := by
    simp only [allocatePrefixes, h]
    rfl
  withScope now c scope why hs h := by
    rcases allocatePrefixes_eq_error h with ⟨e, he, -⟩ | ⟨s, -, hlengths | ⟨l, rfl⟩ | rfl | ⟨created, c', -, hreview⟩⟩
    · cases hs.symm.trans he
    · exact checkLengths_aboutBatch hlengths
    · trivial
    · trivial
    · exact review_aboutBatch hreview

/-- Addresses of a scope have room for its mask. -/
theorem Catalog.maskLength_le {scope : Scope} (h : c.scope parent mode = .ok scope) : scope.maskLength ≤ scope.family.width := by
  cases parent with
  | prefixRecord id =>
    obtain ⟨p, -, -, -, hblock, hmask⟩ := scope_prefix_eq_ok h
    rw [hmask, Scope.family, hblock]
    exact p.network.length_le
  | rangeRecord id =>
    obtain ⟨r, span, -, hspan, -, hblock, hmask, -⟩ := scope_range_eq_ok h
    rw [hmask, Scope.family, hblock]
    show r.start.length ≤ span.family.width
    rw [(spanOf_eq_ok hspan).1]
    exact r.start.length_le

theorem Catalog.maskLength_le_of_mem {scope : Scope} (h : c.scope parent mode = .ok scope) {x : Address} (hx : x ∈ scope.space) :
    scope.maskLength ≤ x.family.width := by
  have hfamily : x.family = scope.family := (Catalog.mem_space.mp hx).1.1
  rw [hfamily]
  exact maskLength_le h

theorem mapM_of?_isSome {length : Nat} : ∀ {as : List Address}, (∀ a ∈ as, length ≤ a.family.width) →
    (as.mapM (Network.of? · length)).isSome
  | [], _ => rfl
  | a :: as, h => by
    obtain ⟨ha, has⟩ := List.forall_mem_cons.mp h
    obtain ⟨ns, hns⟩ := Option.isSome_iff_exists.mp (mapM_of?_isSome has)
    have hfirst : Network.of? a length = some ⟨a, length, ha⟩ := dif_pos ha
    rw [List.mapM_cons, hfirst, hns]
    rfl

theorem batched_addresses (validators : List Validator) (parent : Parent) (requests : List AddressRequest) :
    Batched (fun now c => allocateAddresses validators now c parent requests) .addresses parent where
  withoutScope now c e h := by
    simp only [allocateAddresses, h]
    rfl
  withScope now c scope why hs h := by
    rcases allocateAddresses_eq_error h with ⟨e, he, -⟩ | ⟨s, hs', ⟨k, rfl⟩ | ⟨-, addresses, haddresses, hnone⟩ | rfl |
      ⟨created, c', -, hreview⟩⟩
    · cases hs.symm.trans he
    · trivial
    · -- All addresses are of the scope's family, which has room for the mask.
      obtain ⟨-, hfree, -⟩ := Space.takeAddresses?_eq_some (Catalog.space_ascending s) haddresses
      have hsome := mapM_of?_isSome fun x hx => Catalog.maskLength_le_of_mem hs' (hfree x hx)
      rw [hnone] at hsome
      cases hsome
    · trivial
    · exact review_aboutBatch hreview

/-! ### Listings and allocations -/

/-- The record that is not found, if this is why something fails. -/
def AllocationError.missing? : AllocationError → Option (RecordKind × RecordId)
  | .refused (.catalog (.notFound kind id)) | .store (.catalog (.notFound kind id)) => some (kind, id)
  | _ => none

/-- Why an allocation can fail that has loaded its scope: what is asked cannot be given, or files cannot be changed. -/
def AllocationError.AfterScope (st : Store) : AllocationError → Prop
  | .refused why => why.AboutBatch
  | .store (.io _ (.fault _)) => st ≠ .memory
  | .store _ | .lock _ => False

theorem AllocationError.AfterScope.missing? {st : Store} {e : AllocationError} (h : e.AfterScope st) : e.missing? = none := by
  unfold AllocationError.missing?
  split
  · exact h.elim
  · exact h.elim
  · rfl

theorem Store.commit_fails (st : Store) (c : Catalog) (s : Site) :
    ((st.commit c).mapError AllocationError.store).Fails s (AllocationError.AfterScope st) := by
  cases st with
  | memory => exact .modify
  | file path =>
    have hchange : ∀ p f t, (changeFiles p f).Fails t fun e => (AllocationError.store e).AfterScope (file path) :=
      fun p f t => .mapError fun _ _ => Store.noConfusion
    exact .mapError (.andFinally ((hchange _ _ s).bind fun _ t => (hchange _ _ t).bind fun _ _ => .note))

/-- A commit fails because of files only. -/
theorem Store.commit_error {st : Store} {e : StoreError} (h : (st.commit c).outcome s = .error e) :
    st ≠ .memory ∧ ∃ path fault, e = .io path (.fault fault) := by
  have hfails := st.commit_fails c s (.store e) (Act.error?_error (Act.mapError_error (Act.outcome_eq_error.mp h)))
  cases e with
  | io path why =>
    cases why with
    | fault fault => exact ⟨hfails, path, fault, rfl⟩
    | locked => exact hfails.elim
  | format | catalog => exact hfails.elim

theorem Store.abandon_fails {st : Store} {e : ε} {P : ε → Prop} (h : P e) : (st.abandon e : Act ε α).Fails s P :=
  .bind .modify fun _ _ => .throw h

namespace Allocator

/-- A listing: what is to be told of the scope of a parent. -/
def listing (a : Allocator) (parent : Parent) (mode : Mode) (event : Scope → Event) (tell : Scope → α) :
    Act AllocationError (Scope × α) := do
  let scope ← (a.store.scope parent mode).mapError .store
  Act.note (event scope)
  return (scope, tell scope)

theorem availablePrefixes_eq (a : Allocator) (id : RecordId) : a.availablePrefixes id =
    a.listing (.prefixRecord id) .prefixes (fun s => .loadedPrefixes s.children.length s.label) (·.space.networks) := rfl

theorem availableAddresses_eq (a : Allocator) (parent : Parent) (limit : Nat) : a.availableAddresses parent limit =
    a.listing parent .addresses (fun s => .loadedBlocks s.children.length s.label) (·.space.lowest limit) := rfl

/-- A listing fails as its scope does, and leaves the site as it is but for an event. -/
theorem listing_apply {event : Scope → Event} {tell : Scope → α} (h : a.store.kept s.clock s = .ok c) :
    a.listing parent mode event tell s =
      match c.scope parent mode with
      | .ok scope => .ok (scope, tell scope) { s with events := s.events ++ [event scope] }
      | .error e => .error (.store (.catalog e)) s := by
  have hsnapshot : a.store.snapshot s = .ok c s := by
    rw [Store.snapshot_apply, h]
    rfl
  have hscope : a.store.scope parent mode s = Act.ofExcept ((c.scope parent mode).mapError .catalog) s := by
    rw [Store.scope, Act.bind_ok hsnapshot]
  cases hc : c.scope parent mode with
  | ok scope =>
    rw [hc] at hscope
    rw [listing, Act.bind_ok (Act.mapError_ok hscope), Act.bind_ok (Act.note_apply _ _)]
    rfl
  | error e =>
    rw [hc] at hscope
    rw [listing, Act.bind_error (Act.mapError_error hscope)]

/-- An allocation gets its lock and opens its transaction on a catalog. -/
def Opens (a : Allocator) (s : Site) (key : LockKey) (c : Catalog) : Prop :=
  ∃ t u, a.lock.acquire key s = .ok () t ∧ a.store.begin t = .ok c u

section Transaction
variable {batch : Clock → Catalog → Except Refusal (Allocated α)} {done : Allocated α → Event}

theorem transact_of_refused {why : Refusal} (h : a.Opens s (.of mode parent a.lockScope) c)
    (hbatch : ∀ now, batch now c = .error why) : (a.transact mode parent batch done).error? s = some (.refused why) := by
  obtain ⟨t, u, hopen⟩ := h
  rw [Act.error?, transact_opened ⟨t, hopen⟩, hbatch]
  rfl

theorem transact_afterScope {scope : Scope} (hb : Batched batch mode parent) (h : a.Opens s (.of mode parent a.lockScope) c)
    (hs : c.scope parent mode = .ok scope) : (a.transact mode parent batch done).Fails s (AllocationError.AfterScope a.store) := by
  obtain ⟨t, u, hopen⟩ := h
  have hclose : (a.close done (batch u.clock c)).Fails u (AllocationError.AfterScope a.store) := by
    cases hbatch : batch u.clock c with
    | error why => exact .bind .note fun _ _ => Store.abandon_fails (hb.withScope _ _ _ _ hs hbatch)
    | ok r => exact (a.store.commit_fails _ _).bind fun _ _ => .bind .note fun _ _ => .pure
  intro e he
  rw [Act.error?, transact_opened ⟨t, hopen⟩] at he
  exact hclose.andFinally e he

end Transaction

end Allocator

end AddressPlan
