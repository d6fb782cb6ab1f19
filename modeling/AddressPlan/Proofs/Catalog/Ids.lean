import AddressPlan.Allocation.Batch
import Mathlib.Data.List.Forall2

/-!
Ids and insertion. A fresh id lies above the ids of all records, so the records of a batch get ascending ids that
no record had before, and inserting them only appends to their table and moves the sequence on.
-/

namespace AddressPlan

namespace RecordId

variable {i j : RecordId}

theorem toNat_max (i j : RecordId) : (max i j).toNat = max i.toNat j.toNat := by
  show (if i ≤ j then j else i).toNat = _
  split <;> rename_i h <;> rw [UInt64.le_iff_toNat_le] at h <;> omega

theorem toNat_add_one (h : i ≠ Catalog.lastId) : (i + 1).toNat = i.toNat + 1 := by
  have hlt := i.toNat_lt
  have hne : i.toNat ≠ 2 ^ 64 - 1 := fun heq => h (UInt64.toNat_inj.mp heq)
  rw [UInt64.toNat_add, UInt64.toNat_one]
  omega

theorem le_max_left (i j : RecordId) : i ≤ max i j := by
  rw [UInt64.le_iff_toNat_le, toNat_max]
  exact Nat.le_max_left _ _

theorem le_max_right (i j : RecordId) : j ≤ max i j := by
  rw [UInt64.le_iff_toNat_le, toNat_max]
  exact Nat.le_max_right _ _

theorem lt_add_one (h : i ≠ Catalog.lastId) : i < i + 1 := by
  rw [UInt64.lt_iff_toNat_lt, toNat_add_one h]
  exact Nat.lt_succ_self _

theorem foldl_max_ge : ∀ (ids : List RecordId) (start : RecordId),
    start ≤ ids.foldl max start ∧ ∀ i ∈ ids, i ≤ ids.foldl max start
  | [], start => ⟨UInt64.le_refl _, fun _ hi => absurd hi List.not_mem_nil⟩
  | id :: ids, start => by
    obtain ⟨hstart, hids⟩ := foldl_max_ge ids (max start id)
    refine ⟨UInt64.le_trans (le_max_left _ _) hstart, List.forall_mem_cons.mpr ⟨?_, hids⟩⟩
    exact UInt64.le_trans (le_max_right _ _) hstart

end RecordId

namespace Catalog

variable {c c' : Catalog} {id : RecordId}

theorem le_maxId (hi : id ∈ c.ids) : id ≤ c.maxId :=
  (RecordId.foldl_max_ge _ _).2 id hi

/-- A fresh id lies above all ids of records, is not below the sequence, and has a number after it. -/
theorem freshId?_eq_some (h : c.freshId? = some id) :
    (∀ i ∈ c.ids, i < id) ∧ c.nextId ≤ id ∧ id ≠ lastId := by
  unfold freshId? at h
  split at h
  · cases h
  · rename_i hmax
    simp only [Option.ite_none_left_eq_some, Option.some.injEq] at h
    obtain ⟨hlast, rfl⟩ := h
    refine ⟨fun i hi => ?_, RecordId.le_max_left _ _, hlast⟩
    exact UInt64.lt_of_le_of_lt (le_maxId hi) (UInt64.lt_of_lt_of_le (RecordId.lt_add_one hmax) (RecordId.le_max_right _ _))

/-- Ids in ascending order, all of them above the old ones. -/
structure Fresh (old new : List RecordId) : Prop where
  above : ∀ i ∈ new, ∀ j ∈ old, j < i
  ascending : new.Pairwise (· < ·)

theorem Fresh.not_mem {old new : List RecordId} (h : Fresh old new) (hi : id ∈ new) : id ∉ old := fun hold =>
  UInt64.lt_irrefl _ (h.above id hi id hold)

/-- The next number of the sequence after some ids have been given out. -/
def nextAfter (start : RecordId) (ids : List RecordId) : RecordId :=
  match ids.getLast? with
  | some id => id + 1
  | none => start

@[simp] theorem nextAfter_nil (start : RecordId) : nextAfter start [] = start := rfl

@[simp] theorem nextAfter_cons (start id : RecordId) (ids : List RecordId) :
    nextAfter start (id :: ids) = nextAfter (id + 1) ids := by
  unfold nextAfter
  rw [List.getLast?_cons]
  cases ids.getLast? <;> rfl

/-- The catalog with further prefixes, the last of which was the last record to be created. -/
def withPrefixes (c : Catalog) (ps : List PrefixRecord) : Catalog :=
  { c with prefixes := c.prefixes ++ ps, nextId := nextAfter c.nextId (ps.map (·.id)) }

/-- The catalog with further addresses, the last of which was the last record to be created. -/
def withAddresses (c : Catalog) (as : List AddressRecord) : Catalog :=
  { c with addresses := c.addresses ++ as, nextId := nextAfter c.nextId (as.map (·.id)) }

theorem mem_ids_withPrefixes {ps : List PrefixRecord} {i : RecordId} :
    i ∈ (c.withPrefixes ps).ids ↔ i ∈ c.ids ∨ i ∈ ps.map (·.id) := by
  simp only [ids, withPrefixes, List.map_append, List.mem_append]
  grind

theorem mem_ids_withAddresses {as : List AddressRecord} {i : RecordId} :
    i ∈ (c.withAddresses as).ids ↔ i ∈ c.ids ∨ i ∈ as.map (·.id) := by
  simp only [ids, withAddresses, List.map_append, List.mem_append]
  grind

/-! ### Inserting a batch -/

section Insert
variable {α β : Type} {insert : Catalog → α → Option (β × Catalog)} {record : α → RecordId → β}
  {extend : Catalog → List β → Catalog} {idOf : β → RecordId}

/-- A way to insert that gives each record the fresh id and puts the record at the end of a table. -/
structure Inserts (insert : Catalog → α → Option (β × Catalog)) (record : α → RecordId → β)
    (extend : Catalog → List β → Catalog) (idOf : β → RecordId) : Prop where
  insert_eq : ∀ c a, insert c a = c.freshId?.map fun id => (record a id, extend c [record a id])
  extend_nil : ∀ c, extend c [] = c
  extend_cons : ∀ c b bs, extend (extend c [b]) bs = extend c (b :: bs)
  id_record : ∀ a id, idOf (record a id) = id
  mem_ids : ∀ {c bs i}, i ∈ (extend c bs).ids ↔ i ∈ c.ids ∨ i ∈ bs.map idOf

/-- A batch of insertions: the records get fresh ids, and the catalog is extended by them in their order. -/
theorem Inserts.insertAll_eq_some (hins : Inserts insert record extend idOf) : ∀ {as : List α} {c c' : Catalog}
    {bs : List β}, insertAll insert c as = some (bs, c') →
      c' = extend c bs ∧ Fresh c.ids (bs.map idOf) ∧ List.Forall₂ (fun a b => b = record a (idOf b)) as bs
  | [], c, c', bs, h => by
    cases h
    exact ⟨(hins.extend_nil c).symm, ⟨fun _ hi => absurd hi List.not_mem_nil, .nil⟩, .nil⟩
  | a :: as, c, c', bs, h => by
    simp only [insertAll, hins.insert_eq, Option.bind_eq_bind, Option.bind_eq_some_iff, Option.map_eq_some_iff,
      Option.some.injEq] at h
    obtain ⟨_, ⟨id, hid, rfl⟩, ⟨rest, c''⟩, hrest, heq⟩ := h
    cases heq
    obtain ⟨habove, -, -⟩ := freshId?_eq_some hid
    obtain ⟨rfl, hfresh, hrecords⟩ := hins.insertAll_eq_some hrest
    refine ⟨hins.extend_cons _ _ _, ⟨?_, ?_⟩, .cons (by rw [hins.id_record]) hrecords⟩
    · rw [List.map_cons, hins.id_record]
      refine List.forall_mem_cons.mpr ⟨habove, fun i hi j hj => ?_⟩
      exact hfresh.above i hi j (hins.mem_ids.mpr (Or.inl hj))
    · rw [List.map_cons, hins.id_record]
      refine List.pairwise_cons.mpr ⟨fun i hi => ?_, hfresh.ascending⟩
      exact hfresh.above i hi id (hins.mem_ids.mpr (Or.inr (by simp [hins.id_record])))

end Insert

theorem inserts_prefix (clock : Clock) : Inserts (fun c n => c.insertPrefix n clock) (fun n id => n.record id (clock.creation id))
    withPrefixes (·.id) where
  insert_eq _ _ := rfl
  extend_nil c := by simp [withPrefixes]
  extend_cons c p ps := by simp [withPrefixes]
  id_record _ _ := rfl
  mem_ids := mem_ids_withPrefixes

theorem inserts_address (clock : Clock) : Inserts (fun c n => c.insertAddress n clock)
    (fun n id => n.record id (clock.creation id)) withAddresses (·.id) where
  insert_eq _ _ := rfl
  extend_nil c := by simp [withAddresses]
  extend_cons c a as := by simp [withAddresses]
  id_record _ _ := rfl
  mem_ids := mem_ids_withAddresses

/-! ### The supply of ids -/

/-- How many more ids the sequence has. -/
def idsLeft (c : Catalog) : Nat :=
  lastId.toNat - max c.nextId.toNat (c.maxId.toNat + 1)

theorem maxId_le (h : ∀ i ∈ c.ids, i ≤ id) : c.maxId ≤ id := by
  have hfold : ∀ (ids : List RecordId) (start : RecordId), start ≤ id → (∀ i ∈ ids, i ≤ id) → ids.foldl max start ≤ id := by
    intro ids
    induction ids with
    | nil => exact fun _ hstart _ => hstart
    | cons i ids ih =>
      intro start hstart hids
      obtain ⟨hi, hids⟩ := List.forall_mem_cons.mp hids
      refine ih _ ?_ hids
      rw [UInt64.le_iff_toNat_le, RecordId.toNat_max] at *
      omega
  exact hfold _ _ UInt64.zero_le h

theorem idsLeft_of_freshId? (h : c.freshId? = some id) : c.idsLeft = lastId.toNat - id.toNat ∧ 0 < c.idsLeft := by
  unfold freshId? at h
  split at h
  · cases h
  · rename_i hmax
    simp only [Option.ite_none_left_eq_some, Option.some.injEq] at h
    obtain ⟨hlast, rfl⟩ := h
    have hid : (max c.nextId (c.maxId + 1)).toNat = max c.nextId.toNat (c.maxId.toNat + 1) := by
      rw [RecordId.toNat_max, RecordId.toNat_add_one hmax]
    have hne : (max c.nextId (c.maxId + 1)).toNat ≠ lastId.toNat := fun heq => hlast (UInt64.toNat_inj.mp heq)
    have hlt := (max c.nextId (c.maxId + 1)).toNat_lt
    have hlastNat : lastId.toNat = 2 ^ 64 - 1 := rfl
    unfold idsLeft
    omega

theorem idsLeft_of_freshId?_none (h : c.freshId? = none) : c.idsLeft = 0 := by
  have hnext := c.nextId.toNat_lt
  have hlastNat : lastId.toNat = 2 ^ 64 - 1 := rfl
  unfold freshId? at h
  unfold idsLeft
  split at h
  · rename_i hmax
    rw [hmax]
    omega
  · rename_i hmax
    dsimp only at h
    split at h
    · rename_i hlast
      rw [← hlast, RecordId.toNat_max, RecordId.toNat_add_one hmax]
      omega
    · cases h

section Supply
variable {α β : Type} {insert : Catalog → α → Option (β × Catalog)} {record : α → RecordId → β}
  {extend : Catalog → List β → Catalog} {idOf : β → RecordId}

/-- A record with the next id uses up one id of the sequence. -/
theorem Inserts.idsLeft_extend (hins : Inserts insert record extend idOf) (hnext : ∀ c b, (extend c [b]).nextId = idOf b + 1)
    {b : β} (h : c.freshId? = some (idOf b)) : c.idsLeft = (extend c [b]).idsLeft + 1 := by
  obtain ⟨habove, -, hlast⟩ := freshId?_eq_some h
  have hmem : ∀ i, i ∈ (extend c [b]).ids ↔ i ∈ c.ids ∨ i = idOf b := fun i => by
    rw [hins.mem_ids, List.map_singleton, List.mem_singleton]
  have hmax : (extend c [b]).maxId = idOf b := by
    refine UInt64.le_antisymm (maxId_le fun i hi => ?_) (le_maxId ((hmem _).mpr (Or.inr rfl)))
    rcases (hmem i).mp hi with hold | rfl
    · exact UInt64.le_of_lt (habove i hold)
    · exact UInt64.le_refl _
  obtain ⟨hleft, hpos⟩ := idsLeft_of_freshId? h
  rw [hleft] at hpos ⊢
  rw [idsLeft, hnext, hmax, RecordId.toNat_add_one hlast]
  omega

/-- A batch of insertions succeeds exactly if there are ids for all of its records. -/
theorem Inserts.insertAll_isSome_iff (hins : Inserts insert record extend idOf)
    (hnext : ∀ c b, (extend c [b]).nextId = idOf b + 1) : ∀ {as : List α} {c : Catalog},
      (insertAll insert c as).isSome ↔ as.length ≤ c.idsLeft
  | [], _ => iff_of_true rfl (Nat.zero_le _)
  | a :: as, c => by
    rw [List.length_cons]
    cases h : c.freshId? with
    | none =>
      have hnone : insertAll insert c (a :: as) = none := by
        simp only [insertAll, hins.insert_eq, h, Option.map_none, Option.bind_eq_bind, Option.bind_none]
      rw [hnone, idsLeft_of_freshId?_none h]
      exact iff_of_false nofun (Nat.not_succ_le_zero _)
    | some i =>
      have hcons : (insertAll insert c (a :: as)).isSome ↔ (insertAll insert (extend c [record a i]) as).isSome := by
        simp only [insertAll, hins.insert_eq, h, Option.map_some, Option.bind_eq_bind, Option.bind_some]
        cases insertAll insert (extend c [record a i]) as <;> exact Iff.rfl
      have hfresh : c.freshId? = some (idOf (record a i)) := by rw [hins.id_record, h]
      rw [hcons, hins.insertAll_isSome_iff hnext, hins.idsLeft_extend hnext hfresh]
      exact Nat.succ_le_succ_iff.symm

/-- A batch of insertions lacks ids, or extends the catalog by its records. -/
theorem Inserts.insertAll_cases (hins : Inserts insert record extend idOf)
    (hnext : ∀ c b, (extend c [b]).nextId = idOf b + 1) (c : Catalog) (as : List α) :
    (c.idsLeft < as.length ∧ insertAll insert c as = none) ∨
      (as.length ≤ c.idsLeft ∧ ∃ bs, insertAll insert c as = some (bs, extend c bs)) := by
  have hsome : (insertAll insert c as).isSome ↔ as.length ≤ c.idsLeft := hins.insertAll_isSome_iff hnext
  cases h : insertAll insert c as with
  | none =>
    refine Or.inl ⟨Nat.lt_of_not_le fun hle => ?_, rfl⟩
    exact nomatch (congrArg Option.isSome h).symm.trans (hsome.mpr hle)
  | some r =>
    obtain ⟨bs, c'⟩ := r
    obtain ⟨rfl, -⟩ := hins.insertAll_eq_some h
    exact Or.inr ⟨hsome.mp (by rw [h]; rfl), bs, rfl⟩

end Supply

theorem nextId_withPrefixes (c : Catalog) (p : PrefixRecord) : (c.withPrefixes [p]).nextId = p.id + 1 := rfl

theorem nextId_withAddresses (c : Catalog) (a : AddressRecord) : (c.withAddresses [a]).nextId = a.id + 1 := rfl

end Catalog

end AddressPlan
