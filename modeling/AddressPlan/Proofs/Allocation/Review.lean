import AddressPlan.Proofs.Allocation.Batch

/-!
A batch in two stages: what it would create, and what the validators say to that. The first stage is the batch that no
validator looks at. A review lets a batch pass exactly if each validator accepts each record, and the validator for
uniqueness accepts a record exactly if its table may hold duplicates or holds none of it.
-/

namespace AddressPlan

open Net

variable {validators : List Validator} {now : Clock} {c : Catalog} {id : RecordId} {parent : Parent}

/-! ### Verdicts -/

/-- A verdict that does not keep a record from being created: none at all, or one without a message. -/
def Accepts : Option Rejection → Prop
  | none => True
  | some (.fields e) => e.isEmpty = true
  | some (.permission _) => False

theorem FieldErrors.isEmpty_join {es : List FieldErrors} : (FieldErrors.join es).isEmpty = true ↔ ∀ e ∈ es, e.isEmpty = true := by
  simp only [isEmpty, join, List.isEmpty_iff, List.flatMap_eq_nil_iff]

theorem FieldErrors.messages_join (es : List FieldErrors) (field : String) :
    (FieldErrors.join es).messages field = es.flatMap (·.messages field) := by
  simp only [messages, join, List.filter_flatMap, List.map_flatMap]

theorem fieldErrors_isEmpty {r : Created} :
    (fieldErrors validators c r).isEmpty = true ↔ ∀ v ∈ validators, ∀ e, v r c = some (.fields e) → e.isEmpty = true := by
  simp only [fieldErrors, FieldErrors.isEmpty_join, List.mem_filterMap, forall_exists_index, and_imp]
  constructor
  · intro h v hv e he
    exact h e v hv (by rw [he])
  · intro h e v hv he
    split at he
    · rename_i hverdict
      cases he
      exact h v hv _ hverdict
    · cases he

theorem denials_eq_nil {r : Created} :
    denials validators c r = [] ↔ ∀ v ∈ validators, ∀ detail, v r c ≠ some (.permission detail) := by
  simp only [denials, List.filterMap_eq_nil_iff]
  refine forall₂_congr fun v _ => ?_
  split
  · rename_i detail hverdict
    exact iff_of_false nofun fun h => h detail hverdict
  · rename_i hverdict
    exact iff_of_true rfl hverdict

/-- A review passes exactly if every verdict on every record accepts it. -/
theorem review_eq_ok {created : List Created} :
    review validators c created = .ok () ↔ ∀ r ∈ created, ∀ v ∈ validators, Accepts (v r c) := by
  have hone : ∀ r, (∀ v ∈ validators, Accepts (v r c)) ↔
      (fieldErrors validators c r).isEmpty = true ∧ denials validators c r = [] := fun r => by
    rw [fieldErrors_isEmpty, denials_eq_nil, ← forall₂_and]
    refine forall₂_congr fun v _ => ?_
    cases v r c with
    | none => simp [Accepts]
    | some rejection => cases rejection <;> simp [Accepts]
  simp only [hone, forall₂_and]
  unfold review
  dsimp only
  split
  · rename_i hany
    simp only [List.any_map, List.any_eq_true, Function.comp_apply, Bool.not_eq_true', Bool.eq_false_iff] at hany
    obtain ⟨r, hr, hne⟩ := hany
    exact iff_of_false nofun fun h => hne (h.1 r hr)
  · rename_i hany
    simp only [List.any_map, List.any_eq_true, Function.comp_apply, Bool.not_eq_true', Bool.eq_false_iff, not_exists, not_and,
      Decidable.not_not] at hany
    split
    · rename_i detail hhead
      refine iff_of_false nofun fun h => ?_
      have hnil : created.flatMap (denials validators c) = [] := List.flatMap_eq_nil_iff.mpr h.2
      rw [hnil] at hhead
      cases hhead
    · rename_i hhead
      exact iff_of_true rfl ⟨hany, List.flatMap_eq_nil_iff.mp (List.head?_eq_none_iff.mp hhead)⟩

theorem review_nil (c : Catalog) (created : List Created) : review [] c created = .ok () :=
  review_eq_ok.mpr fun _ _ _ hv => absurd hv List.not_mem_nil

/-- A review fails for fields that are wrong, which it reports for all records, or for a permission that is missing. -/
theorem review_eq_error {created : List Created} {why : Refusal} (h : review validators c created = .error why) :
    (why = .rejected (created.map (fieldErrors validators c)) ∧ ∃ r ∈ created, (fieldErrors validators c r).isEmpty = false) ∨
      ∃ detail, why = .denied detail := by
  unfold review at h
  dsimp only at h
  split at h
  · rename_i hany
    cases h
    simp only [List.any_map, List.any_eq_true, Function.comp_apply, Bool.not_eq_true'] at hany
    exact Or.inl ⟨rfl, hany⟩
  · split at h <;> cases h
    exact Or.inr ⟨_, rfl⟩

/-- Fields that are wrong are reported for all records, whatever else the validators say. -/
theorem review_of_fields {created : List Created} {r : Created} {v : Validator} {e : FieldErrors} (hr : r ∈ created)
    (hv : v ∈ validators) (he : v r c = some (.fields e)) (hne : e.isEmpty = false) :
    review validators c created = .error (.rejected (created.map (fieldErrors validators c))) := by
  unfold review
  dsimp only
  rw [if_pos]
  refine List.any_eq_true.mpr ⟨_, List.mem_map_of_mem hr, ?_⟩
  rw [Bool.not_eq_true', Bool.eq_false_iff]
  exact fun hempty => absurd (fieldErrors_isEmpty.mp hempty v hv e he) (by rw [hne]; decide)

/-- A review depends on the verdicts only. -/
theorem review_congr {d : Catalog} {rs rs' : List Created}
    (h : List.Forall₂ (fun r r' => ∀ v ∈ validators, v r c = v r' d) rs rs') :
    review validators c rs = review validators d rs' := by
  have hfields : rs.map (fieldErrors validators c) = rs'.map (fieldErrors validators d) := by
    refine List.forall₂_eq_eq_eq ▸ List.forall₂_map_left_iff.mpr (List.forall₂_map_right_iff.mpr (h.imp fun r r' hr => ?_))
    exact congrArg FieldErrors.join (List.filterMap_congr fun v hv => by rw [hr v hv])
  have hdenials : rs.map (denials validators c) = rs'.map (denials validators d) := by
    refine List.forall₂_eq_eq_eq ▸ List.forall₂_map_left_iff.mpr (List.forall₂_map_right_iff.mpr (h.imp fun r r' hr => ?_))
    exact List.filterMap_congr fun v hv => by rw [hr v hv]
  rw [review, review, hfields, List.flatMap_def, List.flatMap_def, hdenials]

/-! ### The validator for uniqueness -/

namespace Validator

variable {globally : Bool}

theorem accepts_message {α : Type} {o : Option α} {field : String} {message : α → String} :
    Accepts (o.map fun a => .fields (.single field (message a))) ↔ o = none := by
  cases o <;> simp [Accepts, FieldErrors.single, FieldErrors.isEmpty]

/-- A check that reports the first duplicate, where it is made. -/
theorem accepts_first {α : Type} {enforced : Bool} {duplicates : List α} {field : String} {message : α → String} :
    Accepts (if enforced then duplicates.head?.map fun a => .fields (.single field (message a)) else none) ↔
      (enforced = true → duplicates = []) := by
  split
  · rename_i he
    exact accepts_message.trans (List.head?_eq_none_iff.trans ⟨fun h _ => h, fun h => h he⟩)
  · rename_i he
    exact iff_of_true trivial fun h => absurd h he

theorem accepts_uniqueness_prefix {p : PrefixRecord} : Accepts (uniqueness globally (.prefixRecord p) c) ↔
    (enforces globally c p.vrf = true → c.duplicatePrefixes p = []) :=
  accepts_first

theorem accepts_uniqueness_address {a : AddressRecord} : Accepts (uniqueness globally (.addressRecord a) c) ↔
    (enforces globally c a.vrf = true → c.duplicateAddresses a = []) :=
  accepts_first

/-- It never rejects without a message. -/
theorem accepts_uniqueness_iff {x : Created} : Accepts (uniqueness globally x c) ↔ uniqueness globally x c = none := by
  unfold uniqueness
  dsimp only
  split
  · cases x with
    | prefixRecord p => exact accepts_message.trans Option.map_eq_none_iff.symm
    | addressRecord a => exact accepts_message.trans Option.map_eq_none_iff.symm
  · exact iff_of_true trivial rfl

/-- What it rejects, it rejects for a field. -/
theorem uniqueness_eq_some {x : Created} {rejection : Rejection} (h : uniqueness globally x c = some rejection) :
    ∃ e, rejection = .fields e ∧ e.isEmpty = false := by
  unfold uniqueness at h
  dsimp only at h
  split at h
  · cases x <;> obtain ⟨_, -, rfl⟩ := Option.map_eq_some_iff.mp h <;> exact ⟨_, rfl, rfl⟩
  · cases h

end Validator

/-! ### Two stages -/

/-- What validators look at is what the batch without them would create. -/
theorem allocatePrefixes_reviewed {requests : List PrefixRequest} {r : Allocated PrefixRecord}
    (h : allocatePrefixes [] now c id requests = .ok r) : allocatePrefixes validators now c id requests =
      (review validators r.catalog (r.created.map .prefixRecord)).map fun _ => r := by
  obtain ⟨hs, lengths, networks, hlengths, hnetworks, hins, -⟩ := allocatePrefixes_eq_ok_iff.mp h
  simp only [allocatePrefixes, hs, Except.mapError, Except.bind, bind, hlengths, hnetworks, hins]
  cases review validators r.catalog (r.created.map .prefixRecord) <;> rfl

theorem allocateAddresses_reviewed {requests : List AddressRequest} {r : Allocated AddressRecord}
    (h : allocateAddresses [] now c parent requests = .ok r) : allocateAddresses validators now c parent requests =
      (review validators r.catalog (r.created.map .addressRecord)).map fun _ => r := by
  obtain ⟨hs, hroom, addresses, hosts, haddresses, hhosts, hins, -⟩ := allocateAddresses_eq_ok_iff.mp h
  simp only [allocateAddresses, hs, Except.mapError, Except.bind, bind, if_neg (Nat.not_lt.mpr hroom), haddresses, hhosts, hins]
  cases review validators r.catalog (r.created.map .addressRecord) <;> rfl

/-- Why a batch of prefixes is refused, stage by stage. What a review refuses is what the batch without it would create. -/
theorem allocatePrefixes_eq_error {requests : List PrefixRequest} {why : Refusal}
    (h : allocatePrefixes validators now c id requests = .error why) :
    (∃ e, c.scope (.prefixRecord id) .prefixes = .error e ∧ why = .catalog e) ∨
      ∃ s, c.scope (.prefixRecord id) .prefixes = .ok s ∧
        (checkLengths s requests = .error why ∨ (∃ l, why = .noRoom requests.length s.label l) ∨ why = .exhausted ∨
          ∃ created c', allocatePrefixes [] now c id requests = .ok ⟨s, created, c'⟩ ∧
            review validators c' (created.map .prefixRecord) = .error why) := by
  rcases bind_eq_error.mp h with h | ⟨s, hs, h⟩
  · obtain ⟨e, he, rfl⟩ := mapError_eq_error.mp h
    exact Or.inl ⟨e, he, rfl⟩
  have hs := mapError_eq_ok.mp hs
  refine Or.inr ⟨s, hs, ?_⟩
  rcases bind_eq_error.mp h with h | ⟨lengths, hlengths, h⟩
  · exact Or.inl h
  rcases bind_eq_error.mp h with h | ⟨networks, hnetworks, h⟩
  · obtain ⟨l, -, rfl⟩ := mapError_eq_error.mp h
    exact Or.inr (Or.inl ⟨l, rfl⟩)
  split at h
  · cases h
    exact Or.inr (Or.inr (Or.inl rfl))
  rename_i created c' hins
  rcases bind_eq_error.mp h with hreview | ⟨_, -, h⟩
  · exact Or.inr (Or.inr (Or.inr ⟨created, c', allocatePrefixes_eq_ok_iff.mpr
      ⟨hs, lengths, networks, hlengths, mapError_eq_ok.mp hnetworks, hins, review_nil _ _⟩, hreview⟩))
  · cases h

theorem allocateAddresses_eq_error {requests : List AddressRequest} {why : Refusal}
    (h : allocateAddresses validators now c parent requests = .error why) :
    (∃ e, c.scope parent .addresses = .error e ∧ why = .catalog e) ∨
      ∃ s, c.scope parent .addresses = .ok s ∧
        ((∃ k, why = .tooFew requests.length s.label k) ∨
          (why = .block .lengthOutOfRange ∧ ∃ addresses, s.space.takeAddresses? requests.length = some addresses ∧
            addresses.mapM (Network.of? · s.maskLength) = none) ∨ why = .exhausted ∨
          ∃ created c', allocateAddresses [] now c parent requests = .ok ⟨s, created, c'⟩ ∧
            review validators c' (created.map .addressRecord) = .error why) := by
  rcases bind_eq_error.mp h with h | ⟨s, hs, h⟩
  · obtain ⟨e, he, rfl⟩ := mapError_eq_error.mp h
    exact Or.inl ⟨e, he, rfl⟩
  have hs := mapError_eq_ok.mp hs
  refine Or.inr ⟨s, hs, ?_⟩
  dsimp only at h
  split at h
  · cases h
    exact Or.inl ⟨_, rfl⟩
  rename_i hroom
  split at h
  · cases h
    exact Or.inl ⟨_, rfl⟩
  rename_i addresses haddresses
  split at h
  · rename_i hnone
    cases h
    exact Or.inr (Or.inl ⟨rfl, addresses, haddresses, hnone⟩)
  rename_i hosts hhosts
  split at h
  · cases h
    exact Or.inr (Or.inr (Or.inl rfl))
  rename_i created c' hins
  rcases bind_eq_error.mp h with hreview | ⟨_, -, h⟩
  · exact Or.inr (Or.inr (Or.inr ⟨created, c', allocateAddresses_eq_ok_iff.mpr
      ⟨hs, Nat.le_of_not_lt hroom, addresses, hosts, haddresses, hhosts, hins, review_nil _ _⟩, hreview⟩))
  · cases h

end AddressPlan
