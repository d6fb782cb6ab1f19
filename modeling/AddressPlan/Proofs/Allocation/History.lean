import AddressPlan.Proofs.Allocation.Batch
import AddressPlan.Proofs.Catalog.Merge

/-!
Runs of an allocator: calls made one after the other on the same catalog, each with its own settings. A call
either commits its records or is refused and leaves the catalog alone. Along a run the tables only grow at their
ends, so what a call has created is there when a later one looks.
-/

namespace AddressPlan

open Net

/-- What a caller may ask for. -/
inductive Call where
  | prefixes (id : RecordId) (requests : List PrefixRequest)
  | addresses (parent : Parent) (requests : List AddressRequest)
  | seed (records : Catalog)

/-- A call, with the validators of the allocator that it is made on and the time at which it is made. -/
structure Attempt where
  validators : List Validator
  clock : Clock
  call : Call

/-- What a call has added to the catalog. -/
inductive Commit where
  | prefixes (id : RecordId) (created : List PrefixRecord)
  | addresses (parent : Parent) (created : List AddressRecord)
  | seed (records : Catalog)

/-- A commit between the catalog it found and the one it left. -/
structure Step where
  before : Catalog
  commit : Commit
  after : Catalog

namespace Catalog

variable {c c' c'' : Catalog} {id : RecordId} {t : Attempt} {m : Commit}

/-- The outcome of a call, unless it is refused. -/
def attempt (c : Catalog) (t : Attempt) : Option (Commit × Catalog) :=
  match t.call with
  | .prefixes id requests =>
    (allocatePrefixes t.validators t.clock c id requests).toOption.map fun r => (.prefixes id r.created, r.catalog)
  | .addresses parent requests =>
    (allocateAddresses t.validators t.clock c parent requests).toOption.map fun r => (.addresses parent r.created, r.catalog)
  | .seed records => (c.merge records).toOption.map fun c' => (.seed records, c')

def steps (c : Catalog) : List Attempt → List Step
  | [] => []
  | t :: ts =>
    match c.attempt t with
    | none => c.steps ts
    | some (m, c') => ⟨c, m, c'⟩ :: c'.steps ts

def outcome (c : Catalog) : List Attempt → Catalog
  | [] => c
  | t :: ts =>
    match c.attempt t with
    | none => c.outcome ts
    | some (_, c') => c'.outcome ts

/-! ### Growth -/

/-- Records have been added at the ends of the tables; none has gone or changed. -/
structure Grown (c c' : Catalog) : Prop where
  vrfs : c.vrfs <+: c'.vrfs
  prefixes : c.prefixes <+: c'.prefixes
  ranges : c.ranges <+: c'.ranges
  addresses : c.addresses <+: c'.addresses

theorem Grown.refl (c : Catalog) : c.Grown c :=
  ⟨List.prefix_rfl, List.prefix_rfl, List.prefix_rfl, List.prefix_rfl⟩

theorem Grown.trans (h : c.Grown c') (h' : c'.Grown c'') : c.Grown c'' :=
  ⟨h.vrfs.trans h'.vrfs, h.prefixes.trans h'.prefixes, h.ranges.trans h'.ranges, h.addresses.trans h'.addresses⟩

theorem Grown.prefix? {p : PrefixRecord} (h : c.Grown c') (hp : c.prefix? id = some p) : c'.prefix? id = some p :=
  h.prefixes.find?_eq_some hp

theorem grown_withPrefixes (c : Catalog) (ps : List PrefixRecord) : c.Grown (c.withPrefixes ps) :=
  ⟨List.prefix_rfl, List.prefix_append _ _, List.prefix_rfl, List.prefix_rfl⟩

theorem grown_withAddresses (c : Catalog) (as : List AddressRecord) : c.Grown (c.withAddresses as) :=
  ⟨List.prefix_rfl, List.prefix_rfl, List.prefix_rfl, List.prefix_append _ _⟩

theorem grown_merge {records : Catalog} (h : c.merge records = .ok c') : c.Grown c' := by
  obtain ⟨-, -, -, rfl⟩ := merge_eq_ok h
  exact ⟨List.prefix_append _ _, List.prefix_append _ _, List.prefix_append _ _, List.prefix_append _ _⟩

/-! ### Calls -/

/-- What a call has done when it has committed. -/
inductive Committed (c : Catalog) (now : Clock) : Commit → Catalog → Prop where
  | prefixes {id requests p created} (batch : PrefixBatch c now id requests p created) :
    Committed c now (.prefixes id created) (c.withPrefixes created)
  | addresses {parent requests s created} (batch : AddressBatch c now parent requests s created) :
    Committed c now (.addresses parent created) (c.withAddresses created)
  | seed {records c'} (merged : c.merge records = .ok c') : Committed c now (.seed records) c'

theorem committed_of_attempt (h : c.attempt t = some (m, c')) : Committed c t.clock m c' := by
  unfold attempt at h
  split at h
  · obtain ⟨r, hr, heq⟩ := toOption_map_eq_some h
    cases heq
    obtain ⟨p, hbatch, hc⟩ := allocatePrefixes_eq_ok hr
    rw [hc]
    exact .prefixes hbatch
  · obtain ⟨r, hr, heq⟩ := toOption_map_eq_some h
    cases heq
    obtain ⟨hbatch, hc⟩ := allocateAddresses_eq_ok hr
    rw [hc]
    exact .addresses hbatch
  · obtain ⟨r, hr, heq⟩ := toOption_map_eq_some h
    cases heq
    exact .seed hr

theorem Committed.grown {now : Clock} (h : Committed c now m c') : c.Grown c' := by
  cases h with
  | prefixes batch => exact grown_withPrefixes _ _
  | addresses batch => exact grown_withAddresses _ _
  | seed merged => exact grown_merge merged

/-! ### Runs -/

theorem steps_cons_none (ts : List Attempt) (h : c.attempt t = none) :
    c.steps (t :: ts) = c.steps ts ∧ c.outcome (t :: ts) = c.outcome ts := by
  simp only [steps, outcome, h, and_self]

theorem steps_cons_some (ts : List Attempt) (h : c.attempt t = some (m, c')) :
    c.steps (t :: ts) = ⟨c, m, c'⟩ :: c'.steps ts ∧ c.outcome (t :: ts) = c'.outcome ts := by
  simp only [steps, outcome, h, and_self]

/-- A run adds records before each of its steps, in it, and after it. -/
theorem grown_steps : ∀ (ts : List Attempt) (c : Catalog), c.Grown (c.outcome ts) ∧ ∀ s ∈ c.steps ts,
    c.Grown s.before ∧ (∃ now, Committed s.before now s.commit s.after) ∧ s.after.Grown (c.outcome ts)
  | [], c => ⟨.refl c, fun _ hs => absurd hs List.not_mem_nil⟩
  | t :: ts, c => by
    cases h : c.attempt t with
    | none =>
      obtain ⟨hsteps, hout⟩ := steps_cons_none ts h
      rw [hsteps, hout]
      exact grown_steps ts c
    | some r =>
      obtain ⟨m, c'⟩ := r
      obtain ⟨hsteps, hout⟩ := steps_cons_some ts h
      have hcommitted := committed_of_attempt h
      have hgrown := hcommitted.grown
      obtain ⟨hlast, hrest⟩ := grown_steps ts c'
      rw [hsteps, hout]
      refine ⟨hgrown.trans hlast, List.forall_mem_cons.mpr ⟨⟨.refl c, ⟨_, hcommitted⟩, hlast⟩, fun s hs => ?_⟩⟩
      obtain ⟨h1, h2, h3⟩ := hrest s hs
      exact ⟨hgrown.trans h1, h2, h3⟩

/-- A later step of a run finds all that an earlier one has left. -/
theorem steps_pairwise : ∀ (ts : List Attempt) (c : Catalog),
    (c.steps ts).Pairwise fun s s' => s.after.Grown s'.before
  | [], _ => .nil
  | t :: ts, c => by
    cases h : c.attempt t with
    | none =>
      rw [(steps_cons_none ts h).1]
      exact steps_pairwise ts c
    | some r =>
      obtain ⟨m, c'⟩ := r
      rw [(steps_cons_some ts h).1]
      exact List.pairwise_cons.mpr ⟨fun s hs => ((grown_steps ts c').2 s hs).1, steps_pairwise ts c'⟩

end Catalog

end AddressPlan
