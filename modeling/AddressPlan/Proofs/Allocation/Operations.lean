import AddressPlan.Proofs.Allocation.Refusals

/-!
What an operation reports as not found. Every operation is about one parent; on a sound catalog it reports that parent if
it is not there, and nothing else. What a store keeps is sound if calls have led to it, and calls lead on from there.
-/

namespace AddressPlan

/-- What can be asked of an allocator about a parent. -/
inductive Operation where
  | listPrefixes (id : RecordId)
  | listAddresses (parent : Parent) (limit : Nat)
  | allocatePrefixes (id : RecordId) (requests : List PrefixRequest)
  | allocateAddresses (parent : Parent) (requests : List AddressRequest)

namespace Operation

def parent : Operation → Parent
  | listPrefixes id | allocatePrefixes id _ => .prefixRecord id
  | listAddresses parent _ | allocateAddresses parent _ => parent

/-- The error of an operation, if it fails. -/
def error? (a : Allocator) (s : Site) : Operation → Option AllocationError
  | listPrefixes id => (a.availablePrefixes id).error? s
  | listAddresses parent limit => (a.availableAddresses parent limit).error? s
  | allocatePrefixes id requests => (a.allocatePrefixes id requests).error? s
  | allocateAddresses parent requests => (a.allocateAddresses parent requests).error? s

/-- The catalog that an operation works on, unless a lock or a file keeps it from getting there. -/
def Finds (a : Allocator) (s : Site) (c : Catalog) : Operation → Prop
  | listPrefixes _ | listAddresses .. => a.store.kept s.clock s = .ok c
  | allocatePrefixes id _ => a.Opens s (.of .prefixes (.prefixRecord id) a.lockScope) c
  | allocateAddresses parent _ => a.Opens s (.of .addresses parent a.lockScope) c

end Operation

variable {α : Type} {a : Allocator} {s : Site} {c : Catalog} {parent : Parent} {mode : Mode}

/-- The parent is reported as not found exactly if it is not there, and nothing else is. -/
def Reports (c : Catalog) (parent : Parent) (e? : Option AllocationError) : Prop :=
  ∀ m, e?.bind AllocationError.missing? = some m ↔ ¬ c.Has parent ∧ m = (parent.kind, parent.id)

theorem reports_of_has {e? : Option AllocationError} (hp : c.Has parent) (h : ∀ e, e? = some e → e.missing? = none) :
    Reports c parent e? := by
  intro m
  refine iff_of_false (fun hm => ?_) fun hm => hm.1 hp
  obtain ⟨e, he, hmissing⟩ := Option.bind_eq_some_iff.mp hm
  rw [h e he] at hmissing
  cases hmissing

theorem reports_of_not_has {e : AllocationError} (hp : ¬ c.Has parent) (h : e.missing? = some (parent.kind, parent.id)) :
    Reports c parent (some e) := by
  intro m
  rw [Option.bind_some, h, Option.some.injEq, eq_comm]
  exact (and_iff_right hp).symm

namespace Allocator

theorem listing_reports {event : Scope → Event} {tell : Scope → α} (hc : c.Sound) (h : a.store.kept s.clock s = .ok c) :
    Reports c parent ((a.listing parent mode event tell).error? s) := by
  by_cases hp : c.Has parent
  · obtain ⟨scope, hscope⟩ := hc.scope hp mode
    refine reports_of_has hp fun e he => ?_
    rw [Act.error?, listing_apply h, hscope] at he
    cases he
  · rw [Act.error?, listing_apply h, Catalog.scope_of_not_has hp]
    exact reports_of_not_has hp rfl

theorem transact_reports {batch : Clock → Catalog → Except Refusal (Allocated α)} {done : Allocated α → Event}
    (hc : c.Sound) (hb : Batched batch mode parent) (h : a.Opens s (.of mode parent a.lockScope) c) :
    Reports c parent ((a.transact mode parent batch done).error? s) := by
  by_cases hp : c.Has parent
  · obtain ⟨scope, hscope⟩ := hc.scope hp mode
    exact reports_of_has hp fun e he => (transact_afterScope hb h hscope e he).missing?
  · rw [transact_of_refused h fun now => hb.withoutScope now c _ (Catalog.scope_of_not_has hp mode)]
    exact reports_of_not_has hp rfl

end Allocator

theorem Operation.reports {op : Operation} (hc : c.Sound) (h : op.Finds a s c) : Reports c op.parent (op.error? a s) := by
  cases op with
  | listPrefixes id =>
    rw [error?, a.availablePrefixes_eq]
    exact Allocator.listing_reports hc h
  | listAddresses parent limit =>
    rw [error?, a.availableAddresses_eq]
    exact Allocator.listing_reports hc h
  | allocatePrefixes id requests => exact Allocator.transact_reports hc (batched_prefixes _ _ _) h
  | allocateAddresses parent requests => exact Allocator.transact_reports hc (batched_addresses _ _ _) h

/-! ### Runs on a store -/

namespace Store

variable {st : Store} {ts : List Attempt}

/-- What is kept is a catalog that further calls have led to. -/
def Follows (st : Store) (ts : List Attempt) (s : Site) : Prop :=
  ∃ us, ∀ now, st.kept now s = .ok (Catalog.empty.outcome (ts ++ us))

theorem follows_of_kept (h : ∀ now, st.kept now s = .ok (Catalog.empty.outcome ts)) : st.Follows ts s :=
  ⟨[], fun now => by rw [h, List.append_nil]⟩

theorem Follows.note (h : st.Follows ts s) (e : Event) : st.Follows ts (s.note e) := by
  obtain ⟨us, hus⟩ := h
  exact ⟨us, fun now => (st.kept_note now s e).trans (hus now)⟩

theorem Atomic.follows {ε : Type} {act : Act ε α} {change : Catalog → α → Catalog → Prop} (h : st.Atomic s act change)
    (hs : ∀ now, st.kept now s = .ok (Catalog.empty.outcome ts))
    (hchange : ∀ r c', change (Catalog.empty.outcome ts) r c' → ∃ t m, (Catalog.empty.outcome ts).attempt t = some (m, c')) :
    act.Ends s (fun _ => st.Follows ts) (st.Follows ts) := by
  refine Act.Ends.mono h (fun r u ⟨c, c', hc, hcc', hu⟩ => ?_) fun u hu => follows_of_kept fun now => (hu now).trans (hs now)
  obtain rfl := Except.ok.inj (hc.symm.trans (hs s.clock))
  obtain ⟨t, m, ht⟩ := hchange r c' hcc'
  refine ⟨[t], fun now => ?_⟩
  rw [Catalog.outcome_append, (Catalog.steps_cons_some [] ht).2, Catalog.outcome]
  exact hu now

end Store

namespace Allocator

variable {ts : List Attempt}

/-- A listing notes an event at most. -/
theorem listing_follows {event : Scope → Event} {tell : Scope → α} (h : a.store.kept s.clock s = .ok c) (hs : a.store.Follows ts s) :
    (a.listing parent mode event tell).Ends s (fun _ => a.store.Follows ts) (a.store.Follows ts) := by
  rw [Act.Ends, listing_apply h]
  cases c.scope parent mode with
  | ok scope => exact hs.note _
  | error e => exact hs

/-- Whatever comes of a call, what is kept then is what calls have led to. -/
theorem calls_follow (hs : ∀ now, a.store.kept now s = .ok (Catalog.empty.outcome ts)) :
    (∀ id requests, a.Settled s (.of .prefixes (.prefixRecord id) a.lockScope) →
      (a.allocatePrefixes id requests).Ends s (fun _ => a.store.Follows ts) (a.store.Follows ts)) ∧
    (∀ parent requests, a.Settled s (.of .addresses parent a.lockScope) →
      (a.allocateAddresses parent requests).Ends s (fun _ => a.store.Follows ts) (a.store.Follows ts)) ∧
    ∀ records, a.store.Settled s (a.store.directories s.files) [] →
      (a.store.seed records).Ends s (fun _ => a.store.Follows ts) (a.store.Follows ts) := by
  refine ⟨fun id requests hsettled => ?_, fun parent requests hsettled => ?_, fun records hsettled => ?_⟩
  · refine (transact_atomic hsettled).follows hs fun r c' ⟨hr, heq⟩ => ?_
    refine ⟨⟨a.validators, s.clock, .prefixes id requests⟩, .prefixes id r.created, ?_⟩
    simp only [Catalog.attempt, hr, heq]
    rfl
  · refine (transact_atomic hsettled).follows hs fun r c' ⟨hr, heq⟩ => ?_
    refine ⟨⟨a.validators, s.clock, .addresses parent requests⟩, .addresses parent r.created, ?_⟩
    simp only [Catalog.attempt, hr, heq]
    rfl
  · refine (seed_atomic records hsettled).follows hs fun _ c' hm => ?_
    refine ⟨⟨a.validators, s.clock, .seed records⟩, .seed records, ?_⟩
    simp only [Catalog.attempt, hm]
    rfl

end Allocator

end AddressPlan
