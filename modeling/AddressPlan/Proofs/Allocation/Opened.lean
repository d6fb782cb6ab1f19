import AddressPlan.Allocation.Allocator
import AddressPlan.Proofs.Store.Transaction

/-!
An allocation from its opened transaction on: the lock is held and the catalog has been read. What is left to happen depends
on the batch alone, and on the store once the batch is to be committed.
-/

namespace AddressPlan

variable {α : Type} {a : Allocator} {s u : Site} {c : Catalog} {parent : Parent} {mode : Mode} {why : Refusal} {r : Allocated α}

namespace Lock

theorem acquire_inProcess {key : LockKey} (h : .key key ∉ s.held) :
    inProcess.acquire key s = .ok () (s.note (.took (.key key))) :=
  Act.take_free h

theorem kept_release (l : Lock) (key : LockKey) (st : Store) (now : Clock) (s : Site) :
    st.kept now (l.release key s) = st.kept now s :=
  (st.kept_note now _ _).trans (st.kept_note now s _)

end Lock

namespace Allocator

/-- An allocation gets its lock and opens its transaction on a catalog, which has taken it to another site. -/
def OpensAt (a : Allocator) (s : Site) (key : LockKey) (c : Catalog) (u : Site) : Prop :=
  ∃ t, a.lock.acquire key s = .ok () t ∧ a.store.begin t = .ok c u

/-- In the process, nothing but the lock for its key keeps a transaction from being opened. -/
theorem opensAt_memory {key : LockKey} (hstore : a.store = .memory) (hlock : a.lock = .inProcess) (hfree : .key key ∉ s.held) :
    a.OpensAt s key s.memory (s.note (.took (.key key))) := by
  refine ⟨s.note (.took (.key key)), ?_, ?_⟩
  · rw [hlock]
    exact Lock.acquire_inProcess hfree
  · rw [hstore]
    rfl

section Transaction
variable {batch : Clock → Catalog → Except Refusal (Allocated α)} {done : Allocated α → Event}

/-- What is done in an opened transaction, as the batch says. -/
def close (a : Allocator) (done : Allocated α → Event) : Except Refusal (Allocated α) → Act AllocationError (Allocated α)
  | .error why => do
    Act.note (.refused why)
    a.store.abandon (.refused why)
  | .ok r => do
    (a.store.commit r.catalog).mapError .store
    Act.note (done r)
    return r

/-- What is done under the lock. -/
def session (a : Allocator) (batch : Clock → Catalog → Except Refusal (Allocated α)) (done : Allocated α → Event) :
    Act AllocationError (Allocated α) := do
  let c ← a.store.begin.mapError .store
  a.close done (batch (← get).clock c)

theorem transact_eq (a : Allocator) (mode : Mode) (parent : Parent) (batch : Clock → Catalog → Except Refusal (Allocated α))
    (done : Allocated α → Event) :
    a.transact mode parent batch done = a.lock.hold (.of mode parent a.lockScope) (a.session batch done) := by
  refine congrArg (a.lock.hold _) (bind_congr fun c => bind_congr fun s => ?_)
  cases batch s.clock c <;> rfl

theorem transact_opened (h : a.OpensAt s (.of mode parent a.lockScope) c u) : a.transact mode parent batch done s =
    (a.close done (batch u.clock c)).andFinally AllocationError.waits (a.lock.release (.of mode parent a.lockScope)) u := by
  obtain ⟨t, hlock, hbegin⟩ := h
  rw [transact_eq, Lock.hold, Act.bind_ok (Act.mapError_ok hlock), Act.andFinally, Act.andFinally, session,
    Act.bind_ok (Act.mapError_ok hbegin), Act.get_bind]

theorem transact_of_error (batch : Clock → Catalog → Except Refusal (Allocated α)) (done : Allocated α → Event)
    (h : a.OpensAt s (.of mode parent a.lockScope) c u)
    (hbatch : batch u.clock c = .error why) :
    a.transact mode parent batch done s =
      .error (.refused why) (a.lock.release (.of mode parent a.lockScope) (a.store.release (u.note (.refused why)))) := by
  rw [transact_opened h, hbatch]
  rfl

theorem transact_of_ok (batch : Clock → Catalog → Except Refusal (Allocated α)) (done : Allocated α → Event)
    (h : a.OpensAt s (.of mode parent a.lockScope) c u)
    (hbatch : batch u.clock c = .ok r) :
    match a.store.commit r.catalog u with
    | .ok _ t => a.transact mode parent batch done s = .ok r (a.lock.release (.of mode parent a.lockScope) (t.note (done r)))
    | .error e t => a.transact mode parent batch done s =
      .error (.store e) (if e.waits then t else a.lock.release (.of mode parent a.lockScope) t) := by
  rw [transact_opened h, hbatch]
  split
  · rename_i hcommit
    have hclose : a.close done (.ok r) u = _ := Act.bind_ok (Act.mapError_ok hcommit)
    rw [Act.andFinally, hclose]
    rfl
  · rename_i hcommit
    have hclose : a.close done (.ok r) u = _ := Act.bind_error (Act.mapError_error hcommit)
    rw [Act.andFinally, hclose]
    rfl

/-- From an opened transaction on, an allocation is refused exactly as its batch is. -/
theorem transact_refused_iff (h : a.OpensAt s (.of mode parent a.lockScope) c u) :
    (a.transact mode parent batch done).outcome s = .error (.refused why) ↔ batch u.clock c = .error why := by
  cases hbatch : batch u.clock c with
  | error why' =>
    rw [Act.outcome_of_error (transact_of_error batch done h hbatch)]
    simp only [Except.error.injEq, AllocationError.refused.injEq]
  | ok r =>
    have hact := transact_of_ok batch done h hbatch
    refine iff_of_false (fun heq => ?_) nofun
    split at hact
    · exact nomatch (Act.outcome_of_ok hact).symm.trans heq
    · exact nomatch (Act.outcome_of_error hact).symm.trans heq

/-- From an opened transaction on, an allocation whose batch is accepted comes to what the commit comes to. -/
theorem transact_accepted (batch : Clock → Catalog → Except Refusal (Allocated α)) (done : Allocated α → Event)
    (h : a.OpensAt s (.of mode parent a.lockScope) c u) (hbatch : batch u.clock c = .ok r) :
    ((a.store.commit r.catalog).outcome u = .ok () → (a.transact mode parent batch done).outcome s = .ok r) ∧
      ∀ e, (a.store.commit r.catalog).outcome u = .error e → (a.transact mode parent batch done).outcome s = .error (.store e) := by
  have hact := transact_of_ok batch done h hbatch
  refine ⟨fun hcommit => ?_, fun e hcommit => ?_⟩
  · rw [Act.outcome_eq_ok.mp hcommit] at hact
    exact Act.outcome_of_ok hact
  · rw [Act.outcome_eq_error.mp hcommit] at hact
    exact Act.outcome_of_error hact

/-- A transaction that is not opened fails because of its lock or its store. -/
theorem transact_unopened (h : ∀ c u, ¬ a.OpensAt s (.of mode parent a.lockScope) c u) :
    (a.transact mode parent batch done).Meets s (fun _ _ => False) fun e _ => ∀ why, e ≠ .refused why := by
  cases hlock : a.lock.acquire (.of mode parent a.lockScope) s with
  | error e t =>
    rw [Act.Meets, transact_eq, Lock.hold, Act.bind_error (Act.mapError_error hlock)]
    exact fun _ => AllocationError.noConfusion
  | ok _ t =>
    cases hbegin : a.store.begin t with
    | ok c u => exact absurd ⟨t, hlock, hbegin⟩ (h c u)
    | error e u =>
      rw [Act.Meets, transact_eq, Lock.hold, Act.bind_ok (Act.mapError_ok hlock), Act.andFinally, session,
        Act.bind_error (Act.mapError_error hbegin)]
      exact fun _ => AllocationError.noConfusion

/-- An allocation that succeeds or is refused has opened its transaction, and its batch has decided. If it succeeds, the new
catalog is kept. -/
theorem transact_decided (a : Allocator) (s : Site) (mode : Mode) (parent : Parent)
    (batch : Clock → Catalog → Except Refusal (Allocated α)) (done : Allocated α → Event) :
    (a.transact mode parent batch done).Meets s
      (fun r t => ∃ c u, a.OpensAt s (.of mode parent a.lockScope) c u ∧ batch u.clock c = .ok r ∧
        ∀ now, a.store.kept now t = .ok r.catalog)
      fun e _ => ∀ why, e = .refused why →
        ∃ c u, a.OpensAt s (.of mode parent a.lockScope) c u ∧ batch u.clock c = .error why := by
  by_cases hopen : ∃ c u, a.OpensAt s (.of mode parent a.lockScope) c u
  · obtain ⟨c, u, h⟩ := hopen
    cases hbatch : batch u.clock c with
    | error why =>
      rw [Act.Meets, transact_of_error batch done h hbatch]
      rintro _ ⟨⟩
      exact ⟨c, u, h, hbatch⟩
    | ok r =>
      have hends := a.store.commit_ends r.catalog u
      have hact := transact_of_ok batch done h hbatch
      unfold Act.Ends at hends
      split at hact <;> rename_i hcommit <;> rw [Act.Meets, hact]
      · rw [hcommit] at hends
        refine ⟨c, u, h, hbatch, fun now => ?_⟩
        rw [Lock.kept_release, Store.kept_note]
        exact hends now
      · exact fun _ => AllocationError.noConfusion
  · refine (transact_unopened fun c u h => hopen ⟨c, u, h⟩).mono (fun _ _ => False.elim) fun e _ he why hwhy => ?_
    exact absurd hwhy (he why)

/-- The catalog with the new records is kept after an allocation that succeeds. -/
theorem kept_of_ok (h : (a.transact mode parent batch done).outcome s = .ok r) (now : Clock) :
    a.store.kept now ((a.transact mode parent batch done).after s) = .ok r.catalog := by
  have hmeets := a.transact_decided s mode parent batch done
  rw [Act.Meets, Act.outcome_eq_ok.mp h] at hmeets
  obtain ⟨-, -, -, -, hkept⟩ := hmeets
  exact hkept now

theorem exists_batch_of_ok (h : (a.transact mode parent batch done).outcome s = .ok r) :
    ∃ c u, a.OpensAt s (.of mode parent a.lockScope) c u ∧ batch u.clock c = .ok r := by
  have hmeets := a.transact_decided s mode parent batch done
  rw [Act.Meets, Act.outcome_eq_ok.mp h] at hmeets
  obtain ⟨c, u, hopen, hbatch, -⟩ := hmeets
  exact ⟨c, u, hopen, hbatch⟩

/-- What an allocation comes to that has opened its transaction, given the result of its batch: it is refused as the batch is,
and it succeeds if the new catalog can be committed, which is kept then. -/
structure ComesTo (a : Allocator) (s u : Site) (call : Act AllocationError (Allocated α)) (result : Except Refusal (Allocated α)) :
    Prop where
  refused : ∀ why, call.outcome s = .error (.refused why) ↔ result = .error why
  succeeds : ∀ r, call.outcome s = .ok r ↔ result = .ok r ∧ (a.store.commit r.catalog).outcome u = .ok ()
  kept : ∀ r, call.outcome s = .ok r → ∀ now, a.store.kept now (call.after s) = .ok r.catalog

theorem transact_comesTo (batch : Clock → Catalog → Except Refusal (Allocated α)) (done : Allocated α → Event)
    (h : a.OpensAt s (.of mode parent a.lockScope) c u) :
    a.ComesTo s u (a.transact mode parent batch done) (batch u.clock c) where
  refused _ := transact_refused_iff h
  succeeds r := by
    refine ⟨fun hr => ?_, fun ⟨hbatch, hcommit⟩ => (transact_accepted batch done h hbatch).1 hcommit⟩
    cases hbatch : batch u.clock c with
    | error why => exact nomatch hr.symm.trans ((transact_refused_iff h).mpr hbatch)
    | ok r' =>
      obtain ⟨hok, herror⟩ := transact_accepted batch done h hbatch
      cases hcommit : (a.store.commit r'.catalog).outcome u with
      | ok _ =>
        obtain rfl := Except.ok.inj (hr.symm.trans (hok hcommit))
        exact ⟨rfl, hcommit⟩
      | error e => exact nomatch hr.symm.trans (herror e hcommit)
  kept _ hr := kept_of_ok hr

end Transaction

theorem allocatePrefixes_comesTo {id : RecordId} (requests : List PrefixRequest)
    (h : a.OpensAt s (.of .prefixes (.prefixRecord id) a.lockScope) c u) :
    a.ComesTo s u (a.allocatePrefixes id requests) (AddressPlan.allocatePrefixes a.validators u.clock c id requests) :=
  transact_comesTo _ _ h

theorem allocateAddresses_comesTo (requests : List AddressRequest) (h : a.OpensAt s (.of .addresses parent a.lockScope) c u) :
    a.ComesTo s u (a.allocateAddresses parent requests) (AddressPlan.allocateAddresses a.validators u.clock c parent requests) :=
  transact_comesTo _ _ h

end Allocator

end AddressPlan
