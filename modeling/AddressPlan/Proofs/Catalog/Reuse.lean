import AddressPlan.Proofs.Catalog.Ids
import AddressPlan.Proofs.Catalog.Merge
import AddressPlan.Proofs.Catalog.Scope

/-!
Ids that may be given out again. The sequence of ids goes on from the next number that is stored or from the greatest
id in the tables, and removing records lowers the latter. So an id is safe from then on only if the stored number
has passed it: by an insertion, or by a merge whose seed says so. A merge does not by itself pass the ids that it brings in.
-/

namespace AddressPlan

namespace RecordId

variable {i j k : RecordId}

theorem lt_max_iff : i < max j k ↔ i < j ∨ i < k := by
  simp only [UInt64.lt_iff_toNat_lt, toNat_max]
  omega

theorem lt_add_one_iff (h : j ≠ Catalog.lastId) : i < j + 1 ↔ i ≤ j := by
  rw [UInt64.lt_iff_toNat_lt, UInt64.le_iff_toNat_le, toNat_add_one h]
  omega

theorem max_eq_right (h : i ≤ j) : max i j = j := by
  rw [UInt64.le_iff_toNat_le] at h
  rw [← UInt64.toNat_inj, toNat_max]
  omega

theorem max_eq_left (h : j ≤ i) : max i j = i := by
  rw [UInt64.le_iff_toNat_le] at h
  rw [← UInt64.toNat_inj, toNat_max]
  omega

theorem one_le_iff : 1 ≤ i ↔ i ≠ 0 := by
  rw [UInt64.le_iff_toNat_le, ne_eq, ← UInt64.toNat_inj, UInt64.toNat_one, UInt64.toNat_zero]
  omega

end RecordId

/-- A change to the tables of a catalog. -/
inductive Change where
  | insertPrefix (new : NewPrefix) (now : Time.Timestamp)
  | insertAddress (new : NewAddress) (now : Time.Timestamp)
  | merge (seed : Catalog)
  | remove (id : RecordId)

namespace Catalog

variable {c : Catalog} {x : Change} {xs ys : List Change} {id i : RecordId}

/-! ### Changes -/

/-- The catalog after a change; one that is refused leaves it as it is. -/
def change (c : Catalog) : Change → Catalog
  | .insertPrefix new now => ((c.insertPrefix new now).map (·.2)).getD c
  | .insertAddress new now => ((c.insertAddress new now).map (·.2)).getD c
  | .merge seed => (c.merge seed).toOption.getD c
  | .remove id => c.remove id

/-- The id that a change gives out. -/
def givenId? (c : Catalog) : Change → Option RecordId
  | .insertPrefix new now => (c.insertPrefix new now).map (·.1.id)
  | .insertAddress new now => (c.insertAddress new now).map (·.1.id)
  | .merge _ | .remove _ => none

/-- The number up to which a seed has used the ids, if a change merges one. -/
def mergedNext? (c : Catalog) : Change → Option RecordId
  | .merge seed => (c.merge seed).toOption.map fun _ => seed.nextId
  | _ => none

def changed (c : Catalog) (xs : List Change) : Catalog :=
  xs.foldl change c

/-- What is told of the changes of a run, each at the catalog that it finds. -/
def along {α : Type} (tell : Catalog → Change → Option α) (c : Catalog) : List Change → List α
  | [] => []
  | x :: xs => (tell c x).toList ++ along tell (c.change x) xs

/-- The ids that a run gives out. -/
def given (c : Catalog) (xs : List Change) : List RecordId :=
  c.along givenId? xs

/-- The next numbers of the seeds that a run merges. -/
def mergedNexts (c : Catalog) (xs : List Change) : List RecordId :=
  c.along mergedNext? xs

theorem mem_along_cons {α : Type} {tell : Catalog → Change → Option α} {a : α} :
    a ∈ c.along tell (x :: xs) ↔ tell c x = some a ∨ a ∈ (c.change x).along tell xs := by
  rw [along, List.mem_append, Option.mem_toList]

theorem along_append {α : Type} {tell : Catalog → Change → Option α} : ∀ (xs : List Change) {c : Catalog},
    c.along tell (xs ++ ys) = c.along tell xs ++ (c.changed xs).along tell ys
  | [], _ => rfl
  | x :: xs, c => by
    rw [List.cons_append, along, along, along_append xs, List.append_assoc]
    rfl

/-! ### The stored number -/

theorem freshId?_ne_zero (h : c.freshId? = some id) : id ≠ 0 := by
  unfold freshId? at h
  split at h
  · cases h
  · rename_i hmax
    simp only [Option.ite_none_left_eq_some, Option.some.injEq] at h
    obtain ⟨-, rfl⟩ := h
    refine RecordId.one_le_iff.mp (UInt64.le_trans ?_ (RecordId.le_max_right _ _))
    rw [UInt64.le_iff_toNat_le, RecordId.toNat_add_one hmax, UInt64.toNat_one]
    omega

/-- What a change does to the stored number. -/
theorem change_cases (c : Catalog) (x : Change) :
    (c.givenId? x = none ∧ c.mergedNext? x = none ∧ (c.change x).nextId = c.nextId) ∨
    (∃ id, c.givenId? x = some id ∧ c.mergedNext? x = none ∧ c.freshId? = some id ∧ (c.change x).nextId = id + 1) ∨
    ∃ next, c.givenId? x = none ∧ c.mergedNext? x = some next ∧ (c.change x).nextId = max c.nextId next := by
  cases x with
  | insertPrefix new now =>
    cases h : c.freshId? with
    | none => exact Or.inl (by simp [givenId?, mergedNext?, change, insertPrefix, h])
    | some id => exact Or.inr (Or.inl ⟨id, by simp [givenId?, mergedNext?, change, insertPrefix, h, NewPrefix.record]⟩)
  | insertAddress new now =>
    cases h : c.freshId? with
    | none => exact Or.inl (by simp [givenId?, mergedNext?, change, insertAddress, h])
    | some id => exact Or.inr (Or.inl ⟨id, by simp [givenId?, mergedNext?, change, insertAddress, h, NewAddress.record]⟩)
  | merge seed =>
    cases h : c.merge seed with
    | error e => exact Or.inl (by simp [givenId?, mergedNext?, change, h, Except.toOption])
    | ok c' =>
      obtain ⟨-, -, -, rfl⟩ := merge_eq_ok h
      exact Or.inr (Or.inr ⟨seed.nextId, by simp [givenId?, mergedNext?, change, h, Except.toOption]⟩)
  | remove id => exact Or.inl ⟨rfl, rfl, rfl⟩

/-- Only what is given out and what is merged moves the stored number. -/
theorem lt_nextId_change : id < (c.change x).nextId ↔
    id < c.nextId ∨ (∃ i, c.givenId? x = some i ∧ id ≤ i) ∨ ∃ n, c.mergedNext? x = some n ∧ id < n := by
  rcases c.change_cases x with ⟨hgiven, hmerged, hnext⟩ | ⟨i, hgiven, hmerged, hfresh, hnext⟩ | ⟨n, hgiven, hmerged, hnext⟩
  · simp [hgiven, hmerged, hnext]
  · obtain ⟨-, hle, hlast⟩ := freshId?_eq_some hfresh
    rw [hnext, RecordId.lt_add_one_iff hlast]
    simp only [hgiven, hmerged, Option.some.injEq, exists_eq_left', reduceCtorEq, false_and, exists_false, or_false]
    exact ⟨Or.inr, fun h => h.elim (fun hlt => UInt64.le_trans (UInt64.le_of_lt hlt) hle) (·)⟩
  · rw [hnext, RecordId.lt_max_iff]
    simp only [hgiven, hmerged, Option.some.injEq, exists_eq_left', reduceCtorEq, false_and, exists_false, false_or]

/-- Along a run, the stored number passes exactly what has been given out and what merged seeds have used. -/
theorem lt_nextId_changed : ∀ (xs : List Change) {c : Catalog}, id < (c.changed xs).nextId ↔
    id < c.nextId ∨ (∃ i ∈ c.given xs, id ≤ i) ∨ ∃ n ∈ c.mergedNexts xs, id < n
  | [], c => by simp [changed, given, mergedNexts, along]
  | x :: xs, c => by
    have hcons : c.changed (x :: xs) = (c.change x).changed xs := rfl
    rw [hcons, lt_nextId_changed xs, lt_nextId_change]
    simp only [given, mergedNexts, mem_along_cons, or_and_right, exists_or, or_assoc]
    refine or_congr_right (or_congr_right ?_)
    rw [or_left_comm]

/-- What is given out later has not been passed yet. -/
theorem of_mem_given : ∀ {ys : List Change} {c : Catalog}, id ∈ c.given ys → c.nextId ≤ id ∧ id ≠ 0 ∧ id ≠ lastId
  | [], _, h => absurd h List.not_mem_nil
  | y :: ys, c, h => by
    rcases mem_along_cons.mp h with hgiven | hlater
    · rcases c.change_cases y with ⟨hnone, -⟩ | ⟨i, hsome, -, hfresh, -⟩ | ⟨-, hnone, -⟩
      · cases hnone.symm.trans hgiven
      · cases hsome.symm.trans hgiven
        obtain ⟨-, hle, hlast⟩ := freshId?_eq_some hfresh
        exact ⟨hle, freshId?_ne_zero hfresh, hlast⟩
      · cases hnone.symm.trans hgiven
    · obtain ⟨hle, hne⟩ := of_mem_given hlater
      refine ⟨UInt64.not_lt.mp fun hlt => UInt64.not_lt.mpr hle ?_, hne⟩
      exact lt_nextId_change.mpr (Or.inl hlt)

/-! ### Giving out an id again -/

theorem mem_ids_remove : i ∈ (c.remove id).ids ↔ i ∈ c.ids ∧ i ≠ id := by
  simp only [ids, remove, List.mem_append, List.mem_map, List.mem_filter, bne_iff_ne, ne_eq]
  grind

theorem changed_remove : ∀ (is : List RecordId) {c : Catalog},
    (c.changed (is.map .remove)).nextId = c.nextId ∧ ∀ i ∈ (c.changed (is.map .remove)).ids, i ∈ c.ids ∧ i ∉ is
  | [], _ => ⟨rfl, fun _ hi => ⟨hi, List.not_mem_nil⟩⟩
  | id :: is, c => by
    obtain ⟨hnext, hids⟩ := changed_remove is (c := c.remove id)
    refine ⟨hnext, fun i hi => ?_⟩
    obtain ⟨hin, hout⟩ := hids i hi
    obtain ⟨hold, hne⟩ := mem_ids_remove.mp hin
    exact ⟨hold, List.not_mem_cons_of_ne_of_not_mem hne hout⟩

/-- Without any records, the next id is the stored number. -/
theorem freshId?_of_ids_nil (h : c.ids = []) (h0 : c.nextId ≠ 0) (hlast : c.nextId ≠ lastId) :
    c.freshId? = some c.nextId := by
  have hmax : c.maxId = 0 := by rw [maxId, h]; rfl
  have hnext : max c.nextId (0 + 1) = c.nextId := RecordId.max_eq_left (RecordId.one_le_iff.mpr h0)
  rw [freshId?, hmax, if_neg (by decide)]
  simp only [hnext, if_neg hlast]

/-- A seed without records. -/
def bareSeed (next : RecordId) : Catalog :=
  ⟨[], [], [], [], next⟩

theorem merge_bareSeed (c : Catalog) (next : RecordId) :
    c.merge (bareSeed next) = .ok { c with nextId := max c.nextId next } := by
  obtain ⟨vrfs, prefixes, ranges, addresses, nextId⟩ := c
  simp only [merge, bareSeed, List.append_nil]
  rfl

/-- An id that has not been passed is given out once the records are gone and the sequence has got there. -/
theorem exists_mem_given (new : NewPrefix) (now : Time.Timestamp) (hle : c.nextId ≤ id) (h0 : id ≠ 0) (hlast : id ≠ lastId) :
    ∃ ys, id ∈ c.given ys := by
  obtain ⟨hnext, hids⟩ := changed_remove c.ids (c := c)
  refine ⟨c.ids.map .remove ++ [.merge (bareSeed id), .insertPrefix new now], ?_⟩
  rw [given, along_append]
  refine List.mem_append_right _ ?_
  generalize c.changed (c.ids.map .remove) = bare at hnext hids
  have hbare : bare.ids = [] := List.eq_nil_iff_forall_not_mem.mpr fun i hi => (hids i hi).2 (hids i hi).1
  let next : Catalog := { bare with nextId := max bare.nextId id }
  have hchange : bare.change (.merge (bareSeed id)) = next := by
    rw [change, merge_bareSeed]
    rfl
  have hreached : next.nextId = id := RecordId.max_eq_right (hnext ▸ hle)
  have hfresh : next.freshId? = some id := by
    have := freshId?_of_ids_nil (c := next) hbare (hreached ▸ h0) (hreached ▸ hlast)
    rwa [hreached] at this
  refine mem_along_cons.mpr (Or.inr ?_)
  rw [hchange]
  refine mem_along_cons.mpr (Or.inl ?_)
  rw [givenId?, insertPrefix, hfresh]
  rfl

/-- A prefix record for an insertion. -/
def somePrefix : NewPrefix :=
  ⟨tenNet (.last 32), none, .active, .blank⟩

/-- After a run that starts without records, an id is not given out again by any changes exactly if an insertion of
the run has given out that id or a greater one, or a seed that it has merged says that ids up to there are used. Zero
and the greatest number are not given out in any case. -/
theorem never_given_iff (xs : List Change) (id : RecordId) :
    (∀ ys, id ∉ (empty.changed xs).given ys) ↔
      (∃ i ∈ empty.given xs, id ≤ i) ∨ (∃ n ∈ empty.mergedNexts xs, id < n) ∨ id = 0 ∨ id = lastId := by
  have hpassed : id < (empty.changed xs).nextId ↔ (∃ i ∈ empty.given xs, id ≤ i) ∨ ∃ n ∈ empty.mergedNexts xs, id < n := by
    rw [lt_nextId_changed]
    exact or_iff_right (UInt64.not_lt.mpr (UInt64.zero_le))
  rw [← or_assoc, ← hpassed]
  constructor
  · intro hnever
    by_contra hcond
    simp only [not_or] at hcond
    obtain ⟨ys, hys⟩ := exists_mem_given somePrefix epoch (UInt64.not_lt.mp hcond.1) hcond.2.1 hcond.2.2
    exact hnever ys hys
  · rintro hcond ys hys
    obtain ⟨hle, h0, hlast⟩ := of_mem_given hys
    rcases hcond with hlt | rfl | rfl
    · exact UInt64.not_lt.mpr hle hlt
    · exact h0 rfl
    · exact hlast rfl

/-- A record that a merge has brought in loses its id to the next one if it is removed first. -/
theorem merged_id_given_again :
    (1 ∈ (empty.changed [.merge (ofPrefixes [(1, tenNet 24)])]).ids) ∧
      (empty.changed [.merge (ofPrefixes [(1, tenNet 24)])]).given [.remove 1, .insertPrefix somePrefix epoch] = [1] := by
  decide +kernel

end Catalog

end AddressPlan
