import AddressPlan.Proofs.Allocation.Operations
import AddressPlan.Proofs.Catalog.Reuse
import AddressPlan.Proofs.Store.Steady

/-!
What the clients of a store and its allocator do: transactions of their own, which they commit or drop, seeds, listings,
allocations and snapshots. Each of these tasks is an action at a site. It is also told by the catalog alone: by what it
answers when the catalog is kept, and by the catalog that is kept afterwards.
-/

namespace AddressPlan

/-! ### Changes in a transaction -/

/-- What a change of the tables gives to the client. -/
inductive Told where
  | prefixRecord (p : PrefixRecord)
  | addressRecord (a : AddressRecord)
  | merged (refusal : Option CatalogError)
  | removed
  deriving DecidableEq, Repr

namespace Catalog

/-- What a change gives. There is nothing if an insertion finds no id left. -/
def told? (c : Catalog) : Change → Option Told
  | .insertPrefix new now => (c.insertPrefix new now).map fun r => .prefixRecord r.1
  | .insertAddress new now => (c.insertAddress new now).map fun r => .addressRecord r.1
  | .merge seed =>
    match c.merge seed with
    | .ok _ => some (.merged none)
    | .error e => some (.merged (some e))
  | .remove _ => some .removed

/-- Changes made one after the other, unless the ids run out. -/
def changes? (c : Catalog) (xs : List Change) : Option (List Told × Catalog) :=
  insertAll (fun c x => (c.told? x).map fun told => (told, c.change x)) c xs

end Catalog

/-! ### Tasks -/

inductive Task where
  | transaction (changes : List Change) (committed : Bool)
  | seed (records : Catalog)
  | loadScope (parent : Parent) (mode : Mode)
  | operation (op : Operation)
  | snapshot

inductive Reply where
  | changed (told : List Told) (working : Catalog)
  | seeded
  | scope (s : Scope)
  | networks (s : Scope) (free : List Net.Network)
  | hosts (s : Scope) (free : List Net.Address)
  | prefixes (r : Allocated PrefixRecord)
  | addresses (r : Allocated AddressRecord)
  | catalog (c : Catalog)

/-- A transaction on a copy of the catalog, which is kept if it is committed. When the ids run out, it is dropped. -/
def Store.transaction (st : Store) (changes : List Change) (committed : Bool) : Act AllocationError Reply := do
  let c ← st.begin.mapError .store
  match c.changes? changes with
  | none => st.abandon (.refused .exhausted)
  | some (told, working) =>
    if committed then (st.commit working).mapError .store else modify st.release
    return .changed told working

namespace Task

def act (a : Allocator) : Task → Act AllocationError Reply
  | transaction changes committed => a.store.transaction changes committed
  | seed records => do
    (a.store.seed records).mapError .store
    return .seeded
  | loadScope parent mode => return .scope (← (a.store.scope parent mode).mapError .store)
  | operation (.listPrefixes id) => do
    let r ← a.availablePrefixes id
    return .networks r.1 r.2
  | operation (.listAddresses parent limit) => do
    let r ← a.availableAddresses parent limit
    return .hosts r.1 r.2
  | operation (.allocatePrefixes id requests) => return .prefixes (← a.allocatePrefixes id requests)
  | operation (.allocateAddresses parent requests) => return .addresses (← a.allocateAddresses parent requests)
  | snapshot => return .catalog (← a.store.snapshot.mapError .store)

/-- The advisory locks that a task takes. -/
def keys (a : Allocator) : Task → List LockKey
  | operation (.allocatePrefixes id _) => [.of .prefixes (.prefixRecord id) a.lockScope]
  | operation (.allocateAddresses parent _) => [.of .addresses parent a.lockScope]
  | _ => []

end Task

/-! ### The catalog alone -/

namespace Catalog

/-- What is answered about the scope of a parent. -/
def told (c : Catalog) (parent : Parent) (mode : Mode) (reply : Scope → Reply) : Except AllocationError Reply × Catalog :=
  match c.scope parent mode with
  | .ok s => (.ok (reply s), c)
  | .error e => (.error (.store (.catalog e)), c)

/-- What is answered to a batch. -/
def allocated {β : Type} (c : Catalog) (batch : Except Refusal (Allocated β)) (reply : Allocated β → Reply) :
    Except AllocationError Reply × Catalog :=
  match batch with
  | .ok r => (.ok (reply r), r.catalog)
  | .error why => (.error (.refused why), c)

/-- The answer to a task, and the catalog that is kept after it. -/
def perform (validators : List Validator) (now : Clock) (c : Catalog) : Task → Except AllocationError Reply × Catalog
  | .transaction changes committed =>
    match c.changes? changes with
    | none => (.error (.refused .exhausted), c)
    | some (told, working) => (.ok (.changed told working), if committed then working else c)
  | .seed records =>
    match c.merge records with
    | .ok c' => (.ok .seeded, c')
    | .error e => (.error (.store (.catalog e)), c)
  | .loadScope parent mode => c.told parent mode .scope
  | .operation (.listPrefixes id) => c.told (.prefixRecord id) .prefixes fun s => .networks s s.space.networks
  | .operation (.listAddresses parent limit) => c.told parent .addresses fun s => .hosts s (s.space.lowest limit)
  | .operation (.allocatePrefixes id requests) => c.allocated (allocatePrefixes validators now c id requests) .prefixes
  | .operation (.allocateAddresses parent requests) =>
    c.allocated (allocateAddresses validators now c parent requests) .addresses
  | .snapshot => (.ok (.catalog c), c)

end Catalog

/-! ### One task at a site -/

def AllocationError.isIo : AllocationError → Bool
  | .lock e => e.isIo
  | .store e => e.isIo
  | .refused _ => false

variable {a : Allocator} {st : Store} {c : Catalog} {s t : Site} {made opened : List Location} {parent : Parent} {mode : Mode}
  {validators : List Validator}

/-- An action ends as the catalog tells, unless it fails because of files: it gives the answer that is told, and the catalog
that is told with it is held. It has given back all locks that it has taken. -/
def Store.Realizes (st : Store) (act : Act AllocationError Reply) (s : Site) (made opened : List Location)
    (told : Except AllocationError Reply × Catalog) : Prop :=
  act.Meets s (fun reply t => told.1 = .ok reply ∧ st.HoldsAfter told.2 s t made opened)
    fun e t => e.isIo = true ∨ told.1 = .error e ∧ st.HoldsAfter told.2 s t made opened

namespace Store

theorem Holds.same (h : st.Holds c s made opened) : st.HoldsAfter c s s made opened :=
  ⟨h, rfl, rfl⟩

theorem transaction_realizes (h : st.Holds c s made opened) (hfree : ∀ x ∈ st.tokens s.files, x ∉ s.held)
    (hmade : st.directories s.files ⊆ made) (hopened : st.places s.files ⊆ opened) (changes : List Change) (committed : Bool) :
    st.Realizes (st.transaction changes committed) s made opened
      (c.perform validators s.clock (.transaction changes committed)) := by
  simp only [Catalog.perform]
  have hbegin := begin_meets h hfree hmade hopened
  refine .bind (.mapError (hbegin.mono_error fun _ _ he => Or.inl he.1)) fun c' t ⟨hc', ht⟩ => ?_
  subst hc'
  cases c'.changes? changes with
  | none => exact .abandon (Or.inr ⟨rfl, ht.release h hfree⟩)
  | some r =>
    obtain ⟨told, working⟩ := r
    cases committed with
    | false => exact .modify_bind (.pure ⟨rfl, ht.release h hfree⟩)
    | true =>
      refine .bind (.mapError ((commit_meets working ht hfree).mono_error fun _ _ he => Or.inl he)) fun _ u hu => ?_
      exact ⟨rfl, hu made opened⟩

theorem seed_realizes (h : st.Holds c s made opened) (hfree : ∀ x ∈ st.tokens s.files, x ∉ s.held)
    (hmade : st.directories s.files ⊆ made) (hopened : st.places s.files ⊆ opened) (records : Catalog) : st.Realizes
      (do (st.seed records).mapError .store; return .seeded) s made opened (c.perform validators s.clock (.seed records)) := by
  simp only [Catalog.perform]
  have hbegin := begin_meets h hfree hmade hopened
  have hseed : (st.seed records).Meets s
      (fun _ t => ∃ c', c.merge records = .ok c' ∧ st.HoldsAfter c' s t made opened)
      fun e t => e.isIo = true ∨ ∃ why, e = .catalog why ∧ c.merge records = .error why ∧
        st.HoldsAfter c s t made opened := by
    refine .bind (hbegin.mono_error fun _ _ he => Or.inl he.1) fun c' t ⟨hc', ht⟩ => ?_
    subst hc'
    cases hmerge : c'.merge records with
    | error why => exact .abandon (Or.inr ⟨why, rfl, rfl, ht.release h hfree⟩)
    | ok merged =>
      refine (commit_meets merged ht hfree).mono (fun _ u hu => ?_) fun _ _ he => Or.inl he
      exact ⟨merged, rfl, hu made opened⟩
  refine .bind (.mapError (hseed.mono_error fun e t he => ?_)) fun _ t ⟨c', hc', ht⟩ => ?_
  · rcases he with he | ⟨why, rfl, hwhy, ht⟩
    · exact Or.inl he
    · rw [hwhy]
      exact Or.inr ⟨rfl, ht⟩
  · rw [hc']
    exact ⟨rfl, ht⟩

theorem snapshot_realizes (h : st.Holds c s made opened) : st.Realizes (return .catalog (← st.snapshot.mapError .store)) s
    made opened (c.perform validators s.clock .snapshot) := by
  have hsnapshot : (st.snapshot.mapError AllocationError.store) s = .ok c s := Act.mapError_ok h.snapshot
  rw [Realizes, Act.Meets, Act.bind_ok hsnapshot]
  exact ⟨rfl, h.same⟩

theorem scope_realizes (h : st.Holds c s made opened) (parent : Parent) (mode : Mode) (reply : Scope → Reply) : st.Realizes
    (return reply (← (st.scope parent mode).mapError .store)) s made opened (c.told parent mode reply) := by
  have hscope : st.scope parent mode s = Act.ofExcept ((c.scope parent mode).mapError .catalog) s := by
    rw [Store.scope, Act.bind_ok h.snapshot]
  unfold Realizes Act.Meets Catalog.told
  cases hc : c.scope parent mode with
  | ok scope =>
    rw [hc] at hscope
    rw [Act.bind_ok (Act.mapError_ok hscope)]
    exact ⟨rfl, h.same⟩
  | error e =>
    rw [hc] at hscope
    rw [Act.bind_error (Act.mapError_error hscope)]
    exact Or.inr ⟨rfl, h.same⟩

end Store

/-! ### Allocations -/

namespace Lock

variable {key : LockKey}

/-- A lock that is free is taken, or its file cannot be used. -/
theorem acquire_meets (l : Lock) (key : LockKey) (s : Site) (hfree : l.token s.files key ∉ s.held)
    (hmade : l.directories s.files ⊆ made) (hopened : l.places s.files key ⊆ opened) :
    (l.acquire key).Meets s (fun _ t => s.Grows t made opened ∧ t.held = l.token s.files key :: s.held) fun e _ => e.isIo = true := by
  have hprepare := ((l.prepare_leavesLocks key).meets ((l.prepare_ends key s hmade hopened).meets)).and (l.prepare_isIo key s)
  refine .bind (hprepare.mono_error fun _ _ he => he.2) fun _ t ⟨⟨ht, hheld⟩, _⟩ => .get ?_
  have htoken := l.token_congr ht.files.working key
  refine .take (fun _ => ⟨ht.note _, ?_⟩) fun htaken => ?_
  · rw [Site.held_note_took, htoken, hheld]
  · rw [htoken, hheld] at htaken
    exact absurd htaken hfree

theorem release_held {held : List Token} (l : Lock) (h : t.held = l.token t.files key :: held) (hfree : l.token t.files key ∉ held) :
    (l.release key t).held = held := by
  rw [release, Site.held_note_gaveBack, Site.held_note]
  show (t.held.filter (· != l.token t.files key)) = held
  rw [h]
  exact Site.filter_cons_free hfree

end Lock

namespace Allocator

theorem listing_realizes {α : Type} (h : a.store.Holds c s made opened) {event : Scope → Event}
    (hevent : ∀ scope held, (event scope).heldAfter held = held) (tell : Scope → α) (reply : Scope × α → Reply) :
    a.store.Realizes (do let r ← a.listing parent mode event tell; return reply r) s made opened
      (c.told parent mode fun scope => reply (scope, tell scope)) := by
  have hlisting : a.listing parent mode event tell s = _ := listing_apply (h.kept s.clock)
  unfold Store.Realizes Act.Meets Catalog.told
  cases hc : c.scope parent mode with
  | ok scope =>
    rw [hc] at hlisting
    rw [Act.bind_ok hlisting]
    exact ⟨rfl, h.same.note (hevent scope)⟩
  | error e =>
    rw [hc] at hlisting
    rw [Act.bind_error hlisting]
    exact Or.inr ⟨rfl, h.same⟩

/-- The files and directories that tasks may add beside the catalog have room among the given places. -/
structure Room (a : Allocator) (keys : List LockKey) (fs : Files) (made opened : List Location) : Prop where
  lockDirectories : a.lock.directories fs ⊆ made
  directories : a.store.directories fs ⊆ made
  places : a.store.places fs ⊆ opened
  locks : ∀ key ∈ keys, a.lock.places fs key ⊆ opened

/-- The locks for the keys are not the one on the catalog. Otherwise an allocation would wait for itself. -/
def Apart (a : Allocator) (keys : List LockKey) (fs : Files) : Prop :=
  ∀ key ∈ keys, a.lock.token fs key ∉ a.store.tokens fs

instance (a : Allocator) (keys : List LockKey) (fs : Files) : Decidable (a.Apart keys fs) :=
  inferInstanceAs (Decidable (∀ key ∈ keys, a.lock.token fs key ∉ a.store.tokens fs))

section Transact
variable {β : Type} {batch : Clock → Catalog → Except Refusal (Allocated β)} {done : Allocated β → Event}

/-- Under the lock, a batch ends as the catalog tells, unless a file fails. -/
theorem session_meets (hdone : ∀ r held, (done r).heldAfter held = held) (h : a.store.Holds c s made opened)
    (hfree : ∀ x ∈ a.store.tokens s.files, x ∉ s.held) (hmade : a.store.directories s.files ⊆ made)
    (hopened : a.store.places s.files ⊆ opened) : (a.session batch done).Meets s
      (fun r t => batch s.clock c = .ok r ∧ a.store.HoldsAfter r.catalog s t made opened)
      fun e t => e.isIo = true ∨ ∃ why, e = .refused why ∧ batch s.clock c = .error why ∧
        a.store.HoldsAfter c s t made opened := by
  have hbegin := Store.begin_meets h hfree hmade hopened
  refine .bind (.mapError (hbegin.mono_error fun _ _ he => Or.inl he.1)) fun c' t ⟨hc', ht⟩ => .get ?_
  subst hc'
  rw [ht.grows.clock]
  cases hbatch : batch s.clock c' with
  | error why => exact .note_bind (.abandon (Or.inr ⟨why, rfl, rfl, (ht.note fun _ => rfl).release h hfree⟩))
  | ok r =>
    refine .bind (.mapError ((Store.commit_meets r.catalog ht hfree).mono_error fun _ _ he => Or.inl he))
      fun _ u hu => .note_bind (.pure ?_)
    exact ⟨rfl, (hu made opened).note (hdone r)⟩

theorem transact_meets (hdone : ∀ r held, (done r).heldAfter held = held) (h : a.store.Holds c s made opened)
    (hidle : s.held = []) (hapart : a.Apart [.of mode parent a.lockScope] s.files)
    (hroom : a.Room [.of mode parent a.lockScope] s.files made opened) : (a.transact mode parent batch done).Meets s
      (fun r t => batch s.clock c = .ok r ∧ a.store.HoldsAfter r.catalog s t made opened)
      fun e t => e.isIo = true ∨ ∃ why, e = .refused why ∧ batch s.clock c = .error why ∧
        a.store.HoldsAfter c s t made opened := by
  rw [transact_eq]
  generalize LockKey.of mode parent a.lockScope = key at *
  have hlock := a.lock.acquire_meets key s (hidle ▸ List.not_mem_nil) hroom.lockDirectories (hroom.locks _ List.mem_cons_self)
  refine .bind (.mapError (hlock.mono_error fun _ _ he => Or.inl he)) fun _ t ⟨ht, hheld⟩ => ?_
  have hworking := ht.files.working
  have hfree : ∀ x ∈ a.store.tokens t.files, x ∉ t.held := by
    intro x hx
    rw [hheld, hidle, List.mem_singleton]
    rintro rfl
    exact hapart key List.mem_cons_self (Store.tokens_congr hworking a.store ▸ hx)
  -- When the transaction has ended, only the lock for the key is left to be given back.
  have hrelease : ∀ {d u}, a.store.HoldsAfter d t u made opened → a.store.HoldsAfter d s (a.lock.release key u) made opened := by
    intro d u hu
    refine ⟨hu.holds.congr rfl rfl, hu.working.trans hworking, ?_⟩
    rw [hidle]
    refine a.lock.release_held ?_ List.not_mem_nil
    rw [hu.held, hheld, hidle, a.lock.token_congr (hu.working.trans hworking)]
  have hsession : (a.session batch done).Meets t _ _ := session_meets hdone (h.grows ht) hfree
    (Store.directories_congr hworking a.store ▸ hroom.directories) (Store.places_congr hworking a.store ▸ hroom.places)
  rw [ht.clock] at hsession
  refine .andFinally (hsession.mono (fun r u ⟨hr, hu⟩ => ⟨hr, hrelease hu⟩) fun e u he => ?_)
  rcases he with hio | ⟨why, rfl, hwhy, hu⟩
  · exact Or.inl hio
  · exact Or.inr ⟨why, rfl, hwhy, hrelease hu⟩

theorem transact_realizes (hdone : ∀ r held, (done r).heldAfter held = held) (h : a.store.Holds c s made opened)
    (hidle : s.held = []) (hapart : a.Apart [.of mode parent a.lockScope] s.files)
    (hroom : a.Room [.of mode parent a.lockScope] s.files made opened)
    (reply : Allocated β → Reply) : a.store.Realizes (return reply (← a.transact mode parent batch done)) s made opened
      (c.allocated (batch s.clock c) reply) := by
  unfold Catalog.allocated
  refine .bind ((transact_meets hdone h hidle hapart hroom).mono_error fun e t he => ?_) fun r t ⟨hr, ht⟩ => ?_
  · rcases he with he | ⟨why, rfl, hwhy, ht⟩
    · exact Or.inl he
    · rw [hwhy]
      exact Or.inr ⟨rfl, ht⟩
  · rw [hr]
    exact ⟨rfl, ht⟩

end Transact

end Allocator

/-- Every task ends as the catalog tells, unless it fails because of files. -/
theorem Task.act_realizes (h : a.store.Holds c s made opened) (hidle : s.held = []) (task : Task)
    (hapart : a.Apart (task.keys a) s.files) (hroom : a.Room (task.keys a) s.files made opened) :
    a.store.Realizes (task.act a) s made opened (c.perform a.validators s.clock task) := by
  have hfree : ∀ x ∈ a.store.tokens s.files, x ∉ s.held := fun _ _ => hidle ▸ List.not_mem_nil
  cases task with
  | transaction changes committed => exact Store.transaction_realizes h hfree hroom.directories hroom.places changes committed
  | seed records => exact Store.seed_realizes h hfree hroom.directories hroom.places records
  | loadScope parent mode => exact Store.scope_realizes h parent mode .scope
  | snapshot => exact Store.snapshot_realizes h
  | operation op =>
    cases op with
    | listPrefixes id => exact Allocator.listing_realizes h (fun _ _ => rfl) _ fun r => .networks r.1 r.2
    | listAddresses parent limit => exact Allocator.listing_realizes h (fun _ _ => rfl) _ fun r => .hosts r.1 r.2
    | allocatePrefixes id requests => exact Allocator.transact_realizes (fun _ _ => rfl) h hidle hapart hroom .prefixes
    | allocateAddresses parent requests => exact Allocator.transact_realizes (fun _ _ => rfl) h hidle hapart hroom .addresses

end AddressPlan
