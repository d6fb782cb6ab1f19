import AddressPlan.Catalog.Basic
import AddressPlan.Proofs.Except

/-!
What a merge checks, and what it makes of the two catalogs. The ids of the seed are all different and not in use, its
ranges have bounds that fit together, and its references lead to routing domains of either catalog.
-/

namespace AddressPlan.Catalog

variable {c c' seed : Catalog}

theorem clash?_of_mem {id : RecordId} {ids used : List RecordId} (h : id ∈ used) : clash? used (id :: ids) = some id :=
  if_pos (List.contains_iff_mem.mpr h)

theorem clash?_of_not_mem {id : RecordId} {ids used : List RecordId} (h : id ∉ used) :
    clash? used (id :: ids) = clash? (id :: used) ids :=
  if_neg (mt List.contains_iff_mem.mp h)

theorem clash?_eq_none : ∀ {ids used : List RecordId}, clash? used ids = none ↔ ids.Nodup ∧ ∀ i ∈ ids, i ∉ used
  | [], _ => ⟨fun _ => ⟨.nil, fun _ hi => absurd hi List.not_mem_nil⟩, fun _ => rfl⟩
  | id :: ids, used => by
    rw [List.nodup_cons, List.forall_mem_cons]
    by_cases hused : id ∈ used
    · rw [clash?_of_mem hused]
      exact ⟨nofun, fun h => absurd hused h.2.1⟩
    · rw [clash?_of_not_mem hused, clash?_eq_none]
      constructor
      · rintro ⟨hnodup, hout⟩
        exact ⟨⟨fun hmem => hout id hmem List.mem_cons_self, hnodup⟩, hused,
          fun i hi hmem => hout i hi (List.mem_cons_of_mem _ hmem)⟩
      · rintro ⟨⟨hid, hnodup⟩, -, hout⟩
        refine ⟨hnodup, fun i hi hmem => ?_⟩
        rcases List.mem_cons.mp hmem with rfl | hmem
        · exact hid hi
        · exact hout i hi hmem

/-- The id that is reported is the first one that is in use or occurs before. -/
theorem clash?_eq_some {id : RecordId} : ∀ {ids used : List RecordId}, clash? used ids = some id ↔
    ∃ before after, ids = before ++ id :: after ∧ clash? used before = none ∧ (id ∈ used ∨ id ∈ before)
  | [], _ => by
    refine iff_of_false nofun ?_
    rintro ⟨before, after, hsplit, -⟩
    exact List.append_ne_nil_of_right_ne_nil _ (List.cons_ne_nil _ _) hsplit.symm
  | first :: ids, used => by
    by_cases hused : first ∈ used
    · rw [clash?_of_mem hused, Option.some.injEq]
      constructor
      · rintro rfl
        exact ⟨[], ids, rfl, rfl, Or.inl hused⟩
      · rintro ⟨before, after, hsplit, hnone, -⟩
        cases before with
        | nil => exact (List.cons.inj hsplit).1
        | cons i before =>
          cases hsplit
          exact nomatch (clash?_of_mem hused).symm.trans hnone
    · have htaken : ∀ before : List RecordId, id ∈ first :: used ∨ id ∈ before ↔ id ∈ used ∨ id ∈ first :: before := fun _ => by
        rw [List.mem_cons, List.mem_cons, or_assoc, or_left_comm]
      rw [clash?_of_not_mem hused, clash?_eq_some]
      constructor
      · rintro ⟨before, after, rfl, hnone, hid⟩
        exact ⟨first :: before, after, rfl, (clash?_of_not_mem hused).trans hnone, (htaken before).mp hid⟩
      · rintro ⟨before, after, hsplit, hnone, hid⟩
        cases before with
        | nil =>
          cases hsplit
          exact absurd (hid.resolve_right List.not_mem_nil) hused
        | cons i before =>
          cases hsplit
          exact ⟨before, after, rfl, (clash?_of_not_mem hused).symm.trans hnone, (htaken before).mpr hid⟩

/-- A reference leads to one of the routing domains, or stands for the global table. -/
def Leads (vrfs : List Vrf) (v : Option RecordId) : Prop :=
  ∀ id, v = some id → ∃ vrf ∈ vrfs, vrf.id = id

theorem Leads.mono {vrfs vrfs' : List Vrf} {v : Option RecordId} (h : Leads vrfs v) (hsub : vrfs ⊆ vrfs') : Leads vrfs' v :=
  fun id hid => by
    obtain ⟨vrf, hvrf, heq⟩ := h id hid
    exact ⟨vrf, hsub hvrf, heq⟩

theorem dangling?_eq_none {vrfs : List Vrf} {refs : List (RecordId × Option RecordId)} :
    dangling? vrfs refs = none ↔ ∀ r ∈ refs, Leads vrfs r.2 := by
  rw [dangling?, List.findSome?_eq_none_iff]
  refine forall₂_congr fun r _ => ?_
  cases hr : r.2 with
  | none => exact ⟨fun _ _ h => (nomatch h), fun _ => rfl⟩
  | some v =>
    simp only [Leads, Option.some.injEq, forall_eq']
    split
    · rename_i hany
      exact iff_of_true rfl (by simpa using hany)
    · rename_i hany
      exact iff_of_false nofun (by simpa using hany)

/-- The reference that is reported is the first one that leads nowhere. -/
theorem dangling?_eq_some {vrfs : List Vrf} {refs : List (RecordId × Option RecordId)} {id v : RecordId} :
    dangling? vrfs refs = some (id, v) ↔ ∃ before after, refs = before ++ (id, some v) :: after ∧
      (∀ r ∈ before, Leads vrfs r.2) ∧ ∀ vrf ∈ vrfs, vrf.id ≠ v := by
  rw [dangling?, List.findSome?_eq_some_iff]
  constructor
  · rintro ⟨before, ⟨i, reference⟩, after, rfl, hr, hnone⟩
    cases reference with
    | none => cases hr
    | some vrf =>
      dsimp only at hr
      split at hr
      · cases hr
      · rename_i hany
        cases hr
        exact ⟨before, after, rfl, dangling?_eq_none.mp (List.findSome?_eq_none_iff.mpr hnone), by simpa using hany⟩
  · rintro ⟨before, after, rfl, hleads, hout⟩
    have hany : ¬ vrfs.any (·.id == v) = true := by simpa using hout
    exact ⟨before, (id, some v), after, rfl, if_neg hany, List.findSome?_eq_none_iff.mp (dangling?_eq_none.mpr hleads)⟩

theorem merge_eq_ok (h : c.merge seed = .ok c') :
    (seed.ids.Nodup ∧ ∀ i ∈ seed.ids, i ∉ c.ids) ∧ (∀ r ∈ seed.ranges, ∃ s, spanOf r = .ok s) ∧
      (∀ r ∈ seed.references, Leads (c.vrfs ++ seed.vrfs) r.2) ∧
      c' = ⟨c.vrfs ++ seed.vrfs, c.prefixes ++ seed.prefixes, c.ranges ++ seed.ranges, c.addresses ++ seed.addresses,
        max c.nextId seed.nextId⟩ := by
  unfold merge at h
  split at h
  · cases h
  · rename_i hclash
    obtain ⟨spans, hspans, h⟩ := bind_eq_ok.mp h
    split at h
    · cases h
    · rename_i hdangling
      cases h
      refine ⟨clash?_eq_none.mp hclash, fun r hr => ?_, dangling?_eq_none.mp hdangling, rfl⟩
      obtain ⟨s, -, hs⟩ := (mapM_eq_ok hspans).1 r hr
      exact ⟨s, hs⟩

end AddressPlan.Catalog
