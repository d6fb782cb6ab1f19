import AddressPlan.Proofs.Allocation.Review
import AddressPlan.Proofs.Allocation.Tasks
import AddressPlan.Proofs.Catalog.Timeless

/-!
Tasks with the times left out of account. What a task answers and what it leaves does not depend on the clock, but for
the times of creation in the records: with these erased, it is what the task does in the catalog without times.
-/

namespace AddressPlan

open Net

variable {validators : List Validator} {c : Catalog} {id : RecordId} {parent : Parent}

/-! ### Changes -/

namespace Told

def timeless : Told → Told
  | prefixRecord p => prefixRecord p.timeless
  | addressRecord a => addressRecord a.timeless
  | merged refusal => merged refusal
  | removed => removed

end Told

/-- The change as it would be if it were made at another time. -/
def Change.timeless : Change → Change
  | insertPrefix new _ => insertPrefix new Catalog.epoch
  | insertAddress new _ => insertAddress new Catalog.epoch
  | merge seed => merge seed.timeless
  | remove id => remove id

namespace Catalog

/-- A record that is inserted at another time differs in nothing but its time, and the table with it. -/
theorem Inserts.timeless {α β : Type} {insert insert' : Catalog → α → Option (β × Catalog)} {record record' : α → RecordId → β}
    {extend : Catalog → List β → Catalog} {idOf : β → RecordId} {unstamp : β → β} (hins : Inserts insert record extend idOf)
    (hins' : Inserts insert' record' extend idOf) (hrecord : ∀ a i, record' a i = unstamp (record a i))
    (hextend : ∀ c bs, (extend c bs).timeless = extend c.timeless (bs.map unstamp)) (c : Catalog) (a : α) :
    insert' c.timeless a = (insert c a).map fun r => (unstamp r.1, r.2.timeless) := by
  rw [hins.insert_eq, hins'.insert_eq, freshId?_timeless, Option.map_map]
  refine Option.map_congr fun i _ => ?_
  rw [Function.comp_apply, hextend, hrecord]
  rfl

theorem insertPrefix_timeless (c : Catalog) (new : NewPrefix) (now : Clock) :
    c.timeless.insertPrefix new epoch = (c.insertPrefix new now).map fun r => (r.1.timeless, r.2.timeless) :=
  Inserts.timeless (Catalog.inserts_prefix now) (Catalog.inserts_prefix epoch) (fun _ _ => rfl) withPrefixes_timeless c new

theorem insertAddress_timeless (c : Catalog) (new : NewAddress) (now : Clock) :
    c.timeless.insertAddress new epoch = (c.insertAddress new now).map fun r => (r.1.timeless, r.2.timeless) :=
  Inserts.timeless (Catalog.inserts_address now) (Catalog.inserts_address epoch) (fun _ _ => rfl) withAddresses_timeless c new

theorem references_timeless (c : Catalog) : c.timeless.references = c.references := by
  simp only [references, timeless, List.map_map, Function.comp_def, PrefixRecord.timeless_id, PrefixRecord.timeless_vrf,
    RangeRecord.timeless_id, RangeRecord.timeless_vrf, AddressRecord.timeless_id, AddressRecord.timeless_vrf]

theorem merge_timeless (c seed : Catalog) : c.timeless.merge seed.timeless = (c.merge seed).map timeless := by
  have hspans : seed.timeless.ranges.mapM spanOf = seed.ranges.mapM spanOf := List.mapM_map
  simp only [merge, ids_timeless, references_timeless, hspans, timeless_vrfs]
  cases clash? c.ids seed.ids with
  | some id => rfl
  | none =>
    cases seed.ranges.mapM spanOf with
    | error e => rfl
    | ok spans =>
      cases dangling? (c.vrfs ++ seed.vrfs) seed.references with
      | some r => rfl
      | none => simp [timeless, Except.map, bind, Except.bind]

theorem remove_timeless (c : Catalog) (id : RecordId) : c.timeless.remove id = (c.remove id).timeless := by
  simp only [remove, timeless, List.filter_map]
  rfl

theorem change_timeless (c : Catalog) (x : Change) : c.timeless.change x.timeless = (c.change x).timeless := by
  cases x with
  | insertPrefix new now =>
    simp only [change, Change.timeless, insertPrefix_timeless c new now]
    cases c.insertPrefix new now <;> rfl
  | insertAddress new now =>
    simp only [change, Change.timeless, insertAddress_timeless c new now]
    cases c.insertAddress new now <;> rfl
  | merge seed =>
    simp only [change, Change.timeless, merge_timeless]
    cases c.merge seed <;> rfl
  | remove id => exact remove_timeless c id

theorem told?_timeless (c : Catalog) (x : Change) : c.timeless.told? x.timeless = (c.told? x).map Told.timeless := by
  cases x with
  | insertPrefix new now =>
    simp only [told?, Change.timeless, insertPrefix_timeless c new now]
    cases c.insertPrefix new now <;> rfl
  | insertAddress new now =>
    simp only [told?, Change.timeless, insertAddress_timeless c new now]
    cases c.insertAddress new now <;> rfl
  | merge seed =>
    simp only [told?, Change.timeless, merge_timeless]
    cases c.merge seed <;> rfl
  | remove id => rfl

theorem insertAll_map {α β : Type} {insert : Catalog → α → Option (β × Catalog)} {f : α → α} : ∀ (as : List α) (c : Catalog),
    insertAll insert c (as.map f) = insertAll (fun c a => insert c (f a)) c as
  | [], _ => rfl
  | a :: as, c => by
    simp only [List.map_cons, insertAll, insertAll_map as]

/-- Insertions that do not depend on times, one after the other. -/
theorem insertAll_timeless {α β : Type} {insert insert' : Catalog → α → Option (β × Catalog)} {unstamp : β → β}
    (h : ∀ c a, insert' c.timeless a = (insert c a).map fun r => (unstamp r.1, r.2.timeless)) : ∀ (as : List α) (c : Catalog),
      insertAll insert' c.timeless as = (insertAll insert c as).map fun r => (r.1.map unstamp, r.2.timeless)
  | [], c => rfl
  | a :: as, c => by
    simp only [insertAll, h]
    cases insert c a with
    | none => rfl
    | some r =>
      simp only [Option.map_some, Option.bind_eq_bind, Option.bind_some, insertAll_timeless h as r.2]
      cases insertAll insert r.2 as <;> rfl

theorem changes?_timeless (c : Catalog) (xs : List Change) : c.timeless.changes? (xs.map Change.timeless) =
    (c.changes? xs).map fun r => (r.1.map Told.timeless, r.2.timeless) := by
  rw [changes?, insertAll_map]
  refine insertAll_timeless (fun c x => ?_) xs c
  simp only [told?_timeless, change_timeless]
  cases c.told? x <;> rfl

end Catalog

/-! ### Batches -/

/-- The verdict of the validator does not depend on times. -/
def Validator.Timeless (v : Validator) : Prop :=
  ∀ r c, v r.timeless c.timeless = v r c

/-- The validators that every allocator has do not look at times. -/
theorem Allocator.of_timeless {store : Store} {lock : Lock} {lockScope : LockScope} {globally : Bool}
    {permissions : Validator.Permissions} {further : List Validator} (h : ∀ v ∈ further, v.Timeless) :
    ∀ v ∈ (Allocator.of store lock lockScope globally permissions further).validators, v.Timeless :=
  List.forall_mem_cons.mpr ⟨Validator.uniqueness_timeless globally,
    List.forall_mem_cons.mpr ⟨fun r c => Validator.permission_timeless permissions r c c.timeless, h⟩⟩

theorem review_timeless {β : Type} {unstamp : β → β} {wrap : β → Created} (hv : ∀ v ∈ validators, v.Timeless)
    (hwrap : ∀ b, wrap (unstamp b) = (wrap b).timeless) (c : Catalog) (created : List β) :
    review validators c.timeless ((created.map unstamp).map wrap) = review validators c (created.map wrap) := by
  refine review_congr ?_
  rw [List.map_map, List.forall₂_map_left_iff, List.forall₂_map_right_iff, List.forall₂_same]
  intro b _ v hmem
  rw [Function.comp_apply, hwrap, hv v hmem]

def Allocated.timeless {β : Type} (unstamp : β → β) (r : Allocated β) : Allocated β :=
  ⟨r.scope, r.created.map unstamp, r.catalog.timeless⟩

theorem allocatePrefixes_timeless (hv : ∀ v ∈ validators, v.Timeless) (now : Clock) (requests : List PrefixRequest) :
    allocatePrefixes validators Catalog.epoch c.timeless id requests =
      (·.timeless PrefixRecord.timeless) <$> allocatePrefixes validators now c id requests := by
  unfold allocatePrefixes
  rw [Catalog.scope_timeless, map_bind]
  refine bind_congr fun s => ?_
  rw [map_bind]
  refine bind_congr fun lengths => ?_
  rw [map_bind]
  refine bind_congr fun networks => ?_
  rw [Catalog.insertAll_timeless fun c new => Catalog.insertPrefix_timeless c new now]
  cases insertAll (fun c n => c.insertPrefix n now) c (networks.zipWith (newPrefix s.vrfId) requests) with
  | none => rfl
  | some r =>
    simp only [Option.map_some, map_bind]
    rw [review_timeless hv]
    · rfl
    · exact fun _ => rfl

theorem allocateAddresses_timeless (hv : ∀ v ∈ validators, v.Timeless) (now : Clock) (requests : List AddressRequest) :
    allocateAddresses validators Catalog.epoch c.timeless parent requests =
      (·.timeless AddressRecord.timeless) <$> allocateAddresses validators now c parent requests := by
  unfold allocateAddresses
  rw [Catalog.scope_timeless, map_bind]
  refine bind_congr fun s => ?_
  dsimp only
  split
  · rfl
  cases s.space.takeAddresses? requests.length with
  | none => rfl
  | some addresses =>
    dsimp only
    cases addresses.mapM (Network.of? · s.maskLength) with
    | none => rfl
    | some hosts =>
      dsimp only
      rw [Catalog.insertAll_timeless fun c new => Catalog.insertAddress_timeless c new now]
      cases insertAll (fun c n => c.insertAddress n now) c (hosts.zipWith (newAddress s.vrfId) requests) with
      | none => rfl
      | some r =>
        simp only [Option.map_some, map_bind]
        rw [review_timeless hv]
        · rfl
        · exact fun _ => rfl

/-! ### Tasks -/

namespace Reply

/-- The reply as it would be if all its records had been created at one time. -/
def timeless : Reply → Reply
  | changed told working => changed (told.map Told.timeless) working.timeless
  | seeded => seeded
  | scope s => scope s
  | networks s free => networks s free
  | hosts s free => hosts s free
  | prefixes r => prefixes (r.timeless PrefixRecord.timeless)
  | addresses r => addresses (r.timeless AddressRecord.timeless)
  | catalog c => catalog c.timeless

end Reply

/-- The task as it would be if its changes were made at one time. -/
def Task.timeless : Task → Task
  | transaction changes committed => transaction (changes.map Change.timeless) committed
  | seed records => seed records.timeless
  | loadScope parent mode => loadScope parent mode
  | operation op => operation op
  | snapshot => snapshot

namespace Catalog

/-- An answer and a catalog without their times. -/
def erase (told : Except AllocationError Reply × Catalog) : Except AllocationError Reply × Catalog :=
  (told.1.map Reply.timeless, told.2.timeless)

theorem told_timeless (c : Catalog) (parent : Parent) (mode : Mode) {reply : Scope → Reply}
    (h : ∀ s, (reply s).timeless = reply s) : c.timeless.told parent mode reply = erase (c.told parent mode reply) := by
  rw [told, told, scope_timeless]
  cases c.scope parent mode with
  | ok s => exact congrArg (fun r => (Except.ok r, c.timeless)) (h s).symm
  | error e => rfl

theorem allocated_timeless {β : Type} {unstamp : β → β} (c : Catalog) (batch : Except Refusal (Allocated β))
    {reply : Allocated β → Reply} (h : ∀ r, reply (r.timeless unstamp) = (reply r).timeless) :
    c.timeless.allocated ((·.timeless unstamp) <$> batch) reply = erase (c.allocated batch reply) := by
  cases batch with
  | ok r => exact congrArg (fun x => (Except.ok x, r.catalog.timeless)) (h r)
  | error why => rfl

/-- What a task answers and leaves does not depend on the clock, but for the times in the records. -/
theorem perform_timeless (hv : ∀ v ∈ validators, v.Timeless) (c : Catalog) (now : Clock) (task : Task) :
    c.timeless.perform validators epoch task.timeless = erase (c.perform validators now task) := by
  cases task with
  | transaction changes committed =>
    simp only [perform, Task.timeless, changes?_timeless]
    cases c.changes? changes with
    | none => rfl
    | some r => cases committed <;> rfl
  | seed records =>
    simp only [perform, Task.timeless, merge_timeless]
    cases c.merge records <;> rfl
  | loadScope parent mode => exact told_timeless c parent mode fun _ => rfl
  | snapshot => rfl
  | operation op =>
    cases op with
    | listPrefixes id => exact told_timeless c _ _ fun _ => rfl
    | listAddresses parent limit => exact told_timeless c _ _ fun _ => rfl
    | allocatePrefixes id requests =>
      simp only [perform, Task.timeless]
      rw [allocatePrefixes_timeless hv now]
      exact allocated_timeless c _ fun _ => rfl
    | allocateAddresses parent requests =>
      simp only [perform, Task.timeless]
      rw [allocateAddresses_timeless hv now]
      exact allocated_timeless c _ fun _ => rfl

end Catalog

end AddressPlan
