import AddressPlan.Proofs.Allocation.FirstFit

/-!
What is wrong with the items of a body, one entry for each: members that do not decode, lengths that are not admitted, or
fields of the created records that validators reject. Where anything is reported, some entry says something.
-/

namespace AddressPlan

variable {α : Type} {d : Decoder α} {v body : Json} {e : FieldErrors} {es : List FieldErrors}
  {validators : List Validator} {now : Clock} {c : Catalog} {id : RecordId} {parent : Parent} {why : Refusal}

/-! ### Entries -/

namespace FieldErrors

theorem insertName_ne_nil (name : String) (names : List String) : insertName name names ≠ [] := by
  unfold insertName
  split
  · exact List.cons_ne_nil _ _
  · split
    · exact List.cons_ne_nil _ _
    · split <;> exact List.cons_ne_nil _ _

theorem foldl_insertName_ne_nil : ∀ (entries : List (String × String)) {names : List String}, names ≠ [] →
    entries.foldl (fun names entry => insertName entry.1 names) names ≠ []
  | [], _, h => h
  | entry :: entries, names, _ => foldl_insertName_ne_nil entries (insertName_ne_nil entry.1 names)

/-- An entry that says something is shown with a field. -/
theorem toJson_ne (h : e.isEmpty = false) : e.toJson ≠ .object [] := by
  obtain ⟨entries⟩ := e
  cases entries with
  | nil => cases h
  | cons entry entries =>
    intro hjson
    have hfields := List.map_eq_nil_iff.mp (Json.object.inj hjson)
    exact foldl_insertName_ne_nil entries (insertName_ne_nil entry.1 []) hfields

end FieldErrors

/-! ### Decoding -/

namespace Body

/-- The items that a body has before they are decoded: those of an array, or the body itself. -/
def rawItems : Json → List Json
  | .array items => items
  | v => [v]

/-- What is wrong with an item that does not decode. -/
def fault (d : Decoder α) (v : Json) : FieldErrors :=
  match item d v with
  | .ok _ => .empty
  | .error e => e

theorem item_eq_error (h : item d v = .error e) : e.isEmpty = false := by
  unfold item at h
  split at h
  · split at h
    · cases h
    · dsimp only at h
      cases h
      split
      · rfl
      · rename_i hempty
        exact Bool.eq_false_iff.mpr hempty
  · cases h
    rfl

theorem isEmpty_fault : (fault d v).isEmpty = true ↔ ∃ a, item d v = .ok a := by
  unfold fault
  cases h : item d v with
  | ok a => exact iff_of_true rfl ⟨a, rfl⟩
  | error e => exact iff_of_false (by rw [item_eq_error h]; decide) nofun

theorem errors_map (d : Decoder α) (vs : List Json) : errors (vs.map (item d)) = vs.map (fault d) := by
  rw [errors, List.map_map]
  refine List.map_congr_left fun v _ => ?_
  rw [Function.comp_apply, fault]
  cases item d v <;> rfl

theorem forall₂_of_items : ∀ {vs : List Json}, (∀ v ∈ vs, ∃ a, item d v = .ok a) →
    List.Forall₂ (fun v a => item d v = .ok a) vs ((vs.map (item d)).filterMap Except.toOption)
  | [], _ => .nil
  | v :: vs, h => by
    obtain ⟨⟨a, ha⟩, hvs⟩ := List.forall_mem_cons.mp h
    rw [List.map_cons, List.filterMap_cons_some (by rw [ha]; rfl)]
    exact .cons ha (forall₂_of_items hvs)

theorem decode_eq_ok {b : Body α} (h : decode d body = .ok b) :
    List.Forall₂ (fun v a => item d v = .ok a) (rawItems body) b.items := by
  unfold decode at h
  split at h
  · rename_i vs
    dsimp only at h
    split at h
    · cases h
    · rename_i hnone
      cases h
      refine forall₂_of_items fun v hv => isEmpty_fault.mp ?_
      rw [errors_map, List.any_map, List.any_eq_true] at hnone
      by_contra hfault
      exact hnone ⟨v, hv, by rwa [Function.comp_apply, Bool.not_eq_true', ← Bool.not_eq_true]⟩
  · rename_i hv
    cases hitem : item d body with
    | error e =>
      rw [hitem] at h
      cases h
    | ok a =>
      rw [hitem] at h
      cases h
      rw [rawItems]
      · exact .cons hitem .nil
      · exact hv

theorem decode_eq_error (h : decode d body = .error es) : es = (rawItems body).map (fault d) ∧ ∃ e ∈ es, e.isEmpty = false := by
  unfold decode at h
  split at h
  · rename_i vs
    dsimp only at h
    split at h
    · rename_i hany
      cases h
      refine ⟨errors_map d vs, ?_⟩
      obtain ⟨e, he, hne⟩ := List.any_eq_true.mp hany
      exact ⟨e, he, by rwa [Bool.not_eq_true'] at hne⟩
    · cases h
  · rename_i hv
    cases hitem : item d body with
    | ok a =>
      rw [hitem] at h
      cases h
    | error e =>
      rw [hitem] at h
      cases h
      refine ⟨?_, e, List.mem_singleton_self e, item_eq_error hitem⟩
      rw [rawItems]
      · rw [List.map_singleton, fault, hitem]
      · exact hv

end Body

/-! ### Refusals -/

/-- The entries of a refusal that reports items one by one. -/
def Refusal.items? : Refusal → Option (List FieldErrors)
  | .badLengths _ items | .rejected items => some items
  | .catalog _ | .noRoom .. | .tooFew .. | .block _ | .exhausted | .denied _ => none

/-- What is wrong with requests for prefixes: with the lengths that are asked for, or with the records that are made. -/
inductive PrefixFaults (validators : List Validator) (now : Clock) (c : Catalog) (id : RecordId)
    (requests : List PrefixRequest) : List FieldErrors → Prop where
  | lengths {s : Scope} (found : c.scope (.prefixRecord id) .prefixes = .ok s) :
      PrefixFaults validators now c id requests (requests.map (lengthFault s))
  | records {p : PrefixRecord} {created : List PrefixRecord} (batch : PrefixBatch c now id requests p created) :
      PrefixFaults validators now c id requests
        (created.map fun q => fieldErrors validators (c.withPrefixes created) (.prefixRecord q))

/-- What is wrong with requests for addresses: it is with the records that are made. -/
inductive AddressFaults (validators : List Validator) (now : Clock) (c : Catalog) (parent : Parent)
    (requests : List AddressRequest) : List FieldErrors → Prop where
  | records {s : Scope} {created : List AddressRecord} (batch : AddressBatch c now parent requests s created) :
      AddressFaults validators now c parent requests
        (created.map fun a => fieldErrors validators (c.withAddresses created) (.addressRecord a))

theorem PrefixFaults.length_eq {requests : List PrefixRequest} {items : List FieldErrors}
    (h : PrefixFaults validators now c id requests items) : items.length = requests.length := by
  cases h with
  | lengths => exact List.length_map _
  | records batch => exact (List.length_map _).trans batch.answers.length_eq.symm

theorem AddressFaults.length_eq {requests : List AddressRequest} {items : List FieldErrors}
    (h : AddressFaults validators now c parent requests items) : items.length = requests.length := by
  cases h with
  | records batch => exact (List.length_map _).trans batch.answers.length_eq.symm

theorem checkLengths_error {s : Scope} {requests : List PrefixRequest} (h : checkLengths s requests = .error why) :
    why = .badLengths s.label (requests.map (lengthFault s)) ∧ ∃ e ∈ requests.map (lengthFault s), e.isEmpty = false := by
  rw [checkLengths_eq] at h
  split at h
  · rename_i hany
    cases h
    obtain ⟨e, he, hne⟩ := List.any_eq_true.mp hany
    exact ⟨rfl, e, he, by rwa [Bool.not_eq_true'] at hne⟩
  · cases h

/-- A batch of prefixes that reports items has found something wrong with one of them. -/
theorem allocatePrefixes_faults {requests : List PrefixRequest} {items : List FieldErrors}
    (h : allocatePrefixes validators now c id requests = .error why) (hitems : why.items? = some items) :
    PrefixFaults validators now c id requests items ∧ ∃ e ∈ items, e.isEmpty = false := by
  rcases allocatePrefixes_eq_error h with ⟨e, -, rfl⟩ | ⟨s, hs, hlengths | ⟨l, rfl⟩ | rfl | ⟨created, c', hdraft, hreview⟩⟩
  · cases hitems
  · obtain ⟨rfl, hne⟩ := checkLengths_error hlengths
    cases hitems
    exact ⟨.lengths hs, hne⟩
  · cases hitems
  · cases hitems
  rcases review_eq_error hreview with ⟨rfl, x, hx, hne⟩ | ⟨detail, rfl⟩
  · obtain ⟨p, hbatch, hc'⟩ := allocatePrefixes_eq_ok hdraft
    obtain rfl : c' = c.withPrefixes created := hc'
    cases hitems
    refine ⟨?_, _, List.mem_map_of_mem hx, hne⟩
    rw [List.map_map]
    exact .records hbatch
  · cases hitems

theorem allocateAddresses_faults {requests : List AddressRequest} {items : List FieldErrors}
    (h : allocateAddresses validators now c parent requests = .error why) (hitems : why.items? = some items) :
    AddressFaults validators now c parent requests items ∧ ∃ e ∈ items, e.isEmpty = false := by
  rcases allocateAddresses_eq_error h with ⟨e, -, rfl⟩ | ⟨s, -, ⟨k, rfl⟩ | ⟨rfl, -⟩ | rfl | ⟨created, c', hdraft, hreview⟩⟩
  · cases hitems
  · cases hitems
  · cases hitems
  · cases hitems
  rcases review_eq_error hreview with ⟨rfl, x, hx, hne⟩ | ⟨detail, rfl⟩
  · obtain ⟨hbatch, hc'⟩ := allocateAddresses_eq_ok hdraft
    obtain rfl : c' = c.withAddresses created := hc'
    cases hitems
    refine ⟨?_, _, List.mem_map_of_mem hx, hne⟩
    rw [List.map_map]
    exact .records hbatch
  · cases hitems

end AddressPlan
