import AddressPlan.Proofs.Allocation.Refusals
import AddressPlan.Proofs.Catalog.Reuse

/-!
Which seeds a catalog takes in. A seed is consistent with a catalog if its ids are new, its ranges fit and its references
lead to routing domains of either one, those of the seed included. Only consistent seeds are merged, and whole. Any other
seed is refused for the first thing that is wrong with it, ids before ranges and ranges before references, and it leaves
the catalog as it was.
-/

namespace AddressPlan

open Net

/-- What is wrong with the bounds of a range: masks first, then families, then the order. -/
inductive RangeRecord.Fault (r : RangeRecord) : BlockError → Prop where
  | masks (h : r.start.length ≠ r.stop.length) : r.Fault (.maskMismatch r.start r.stop)
  | families (length : r.start.length = r.stop.length) (h : r.start.address.family ≠ r.stop.address.family) :
      r.Fault (.mixedFamilies r.start.address r.stop.address)
  | order (length : r.start.length = r.stop.length) (family : r.start.address.family = r.stop.address.family)
      (h : r.stop.address.value < r.start.address.value) : r.Fault (.inverted r.start.address r.stop.address)

theorem RangeRecord.span_eq_error_iff {r : RangeRecord} {cause : BlockError} : r.span = .error cause ↔ r.Fault cause := by
  constructor
  · intro h
    unfold span at h
    split at h
    · rename_i hlength
      unfold Span.between at h
      split at h
      · rename_i hfamily
        split at h
        · cases h
        · rename_i horder
          cases h
          exact .order hlength hfamily (Nat.lt_of_not_le horder)
      · rename_i hfamily
        cases h
        exact .families hlength hfamily
    · rename_i hlength
      cases h
      exact .masks hlength
  · intro h
    cases h with
    | masks h => rw [span, if_neg h]
    | families length h => rw [span, if_pos length, Span.between, if_neg h]
    | order length family h => rw [span, if_pos length, Span.between, if_pos family, dif_neg (Nat.not_le_of_lt h)]

namespace Catalog

variable {c c' seed : Catalog} {e : CatalogError}

theorem spanOf_eq_error_iff {r : RangeRecord} : spanOf r = .error e ↔ ∃ cause, r.Fault cause ∧ .badRange r.id cause = e := by
  rw [spanOf, mapError_eq_error]
  exact exists_congr fun _ => and_congr_left' RangeRecord.span_eq_error_iff

/-- A seed that a catalog can take in. -/
structure Consistent (c seed : Catalog) : Prop where
  distinct : seed.ids.Nodup
  unused : ∀ i ∈ seed.ids, i ∉ c.ids
  ranges : ∀ r ∈ seed.ranges, r.Fits
  references : ∀ r ∈ seed.references, Leads (c.vrfs ++ seed.vrfs) r.2

/-- What is wrong with a seed: the first id that is in use or comes a second time; with ids that are all new, the first
range with bounds that do not fit together; and with ranges that all fit, the first reference to an unknown routing domain. -/
inductive Refuses (c seed : Catalog) : CatalogError → Prop where
  | id {before after : List RecordId} {id : RecordId} (split : seed.ids = before ++ id :: after)
      (distinct : before.Nodup) (unused : ∀ i ∈ before, i ∉ c.ids) (taken : id ∈ c.ids ∨ id ∈ before) :
      c.Refuses seed (.duplicateId id)
  | range {before after : List RangeRecord} {r : RangeRecord} {cause : BlockError}
      (distinct : seed.ids.Nodup) (unused : ∀ i ∈ seed.ids, i ∉ c.ids)
      (split : seed.ranges = before ++ r :: after) (fits : ∀ q ∈ before, q.Fits) (fault : r.Fault cause) :
      c.Refuses seed (.badRange r.id cause)
  | reference {before after : List (RecordId × Option RecordId)} {id vrf : RecordId}
      (distinct : seed.ids.Nodup) (unused : ∀ i ∈ seed.ids, i ∉ c.ids) (ranges : ∀ r ∈ seed.ranges, r.Fits)
      (split : seed.references = before ++ (id, some vrf) :: after) (leads : ∀ r ∈ before, Leads (c.vrfs ++ seed.vrfs) r.2)
      (unknown : ∀ v ∈ c.vrfs ++ seed.vrfs, v.id ≠ vrf) : c.Refuses seed (.unknownVrf id vrf)

/-! ### The three checks -/

theorem merge_of_clash {id : RecordId} (h : clash? c.ids seed.ids = some id) : c.merge seed = .error (.duplicateId id) := by
  rw [merge, h]

theorem merge_of_badRange (hids : clash? c.ids seed.ids = none) (h : seed.ranges.mapM spanOf = .error e) :
    c.merge seed = .error e := by
  rw [merge, hids, h]
  rfl

theorem merge_of_ranges {spans : List Span} (hids : clash? c.ids seed.ids = none) (h : seed.ranges.mapM spanOf = .ok spans) :
    c.merge seed = match dangling? (c.vrfs ++ seed.vrfs) seed.references with
      | some (id, vrf) => .error (.unknownVrf id vrf)
      | none => .ok (c.joined seed (max c.nextId seed.nextId)) := by
  rw [merge, hids, h]
  rfl

theorem Consistent.merge (h : c.Consistent seed) : c.merge seed = .ok (c.joined seed (max c.nextId seed.nextId)) := by
  obtain ⟨spans, hspans⟩ := exists_mapM_ok fun r hr => RangeRecord.fits_iff.mp (h.ranges r hr)
  rw [merge_of_ranges (clash?_eq_none.mpr ⟨h.distinct, h.unused⟩) hspans, dangling?_eq_none.mpr h.references]

theorem consistent_of_merge (h : c.merge seed = .ok c') : c.Consistent seed := by
  obtain ⟨⟨hdistinct, hunused⟩, hranges, hreferences, -⟩ := merge_eq_ok h
  exact ⟨hdistinct, hunused, fun r hr => RangeRecord.fits_iff.mpr (hranges r hr), hreferences⟩

theorem Refuses.merge (h : c.Refuses seed e) : c.merge seed = .error e := by
  cases h with
  | id split distinct unused taken =>
    exact merge_of_clash (clash?_eq_some.mpr ⟨_, _, split, clash?_eq_none.mpr ⟨distinct, unused⟩, taken⟩)
  | range distinct unused split fits fault =>
    refine merge_of_badRange (clash?_eq_none.mpr ⟨distinct, unused⟩) (mapM_eq_error.mpr ⟨_, _, _, split, ?_, ?_⟩)
    · exact fun q hq => RangeRecord.fits_iff.mp (fits q hq)
    · exact spanOf_eq_error_iff.mpr ⟨_, fault, rfl⟩
  | reference distinct unused ranges split leads unknown =>
    obtain ⟨spans, hspans⟩ := exists_mapM_ok fun r hr => RangeRecord.fits_iff.mp (ranges r hr)
    rw [merge_of_ranges (clash?_eq_none.mpr ⟨distinct, unused⟩) hspans,
      dangling?_eq_some.mpr ⟨_, _, split, leads, unknown⟩]

theorem refuses_of_merge (h : c.merge seed = .error e) : c.Refuses seed e := by
  cases hclash : clash? c.ids seed.ids with
  | some id =>
    cases (merge_of_clash hclash).symm.trans h
    obtain ⟨before, after, hsplit, hnone, htaken⟩ := clash?_eq_some.mp hclash
    obtain ⟨hdistinct, hunused⟩ := clash?_eq_none.mp hnone
    exact .id hsplit hdistinct hunused htaken
  | none =>
    obtain ⟨hdistinct, hunused⟩ := clash?_eq_none.mp hclash
    cases hspans : seed.ranges.mapM spanOf with
    | error e' =>
      cases (merge_of_badRange hclash hspans).symm.trans h
      obtain ⟨before, r, after, hsplit, hbefore, hr⟩ := mapM_eq_error.mp hspans
      obtain ⟨cause, hfault, rfl⟩ := spanOf_eq_error_iff.mp hr
      exact .range hdistinct hunused hsplit (fun q hq => RangeRecord.fits_iff.mpr (hbefore q hq)) hfault
    | ok spans =>
      have hfits : ∀ r ∈ seed.ranges, r.Fits := fun r hr => by
        obtain ⟨s, -, hs⟩ := (mapM_eq_ok hspans).1 r hr
        exact RangeRecord.fits_iff.mpr ⟨s, hs⟩
      rw [merge_of_ranges hclash hspans] at h
      split at h
      · rename_i id vrf hdangling
        cases h
        obtain ⟨before, after, hsplit, hleads, hunknown⟩ := dangling?_eq_some.mp hdangling
        exact .reference hdistinct hunused hfits hsplit hleads hunknown
      · cases h

end Catalog

/-! ### Seeds of a store -/

namespace Store

variable {st : Store} {s : Site} {c seed : Catalog}

/-- That a transaction cannot be opened is no matter of the catalog. -/
theorem begin_error_ne_catalog (st : Store) (s : Site) : st.begin.Fails s fun e => ∀ why, e ≠ .catalog why := by
  cases st with
  | memory => exact .get .pure
  | file path =>
    have hio : ∀ p cause why, StoreError.io p cause ≠ .catalog why := fun _ _ _ => StoreError.noConfusion
    have hchange : ∀ p f t, (changeFiles p f).Fails t fun e => ∀ why, e ≠ .catalog why := fun _ _ _ => .mapError fun _ _ => hio _ _
    have hprepare : (prepare path).Fails s fun e => ∀ why, e ≠ .catalog why := by
      rw [prepare]
      split
      · split
        · exact .bind (.mapError fun _ _ => hio _ _) fun _ t => hchange _ _ t
        · exact hchange _ _ s
      · exact hchange _ _ s
    refine hprepare.bind fun _ t => .get (.bind (.take fun _ => hio _ _) fun _ u => .bind .note fun _ v => .ifFails (.get (.ofExcept ?_)))
    intro e he
    unfold load at he
    split at he
    · obtain ⟨_, -, rfl⟩ := mapError_eq_error.mp he
      exact fun _ => StoreError.noConfusion
    all_goals cases he
    all_goals exact fun _ => StoreError.noConfusion

/-- Nor that one cannot be committed. -/
theorem commit_error_ne_catalog (st : Store) (m : Catalog) (s : Site) :
    (st.commit m).Meets s (fun _ _ => True) fun e _ => ∀ why, e ≠ .catalog why := by
  cases hcommit : st.commit m s with
  | ok _ t =>
    rw [Act.Meets, hcommit]
    trivial
  | error e t =>
    obtain ⟨-, _, _, rfl⟩ := commit_error (Act.outcome_of_error hcommit)
    rw [Act.Meets, hcommit]
    exact fun _ => StoreError.noConfusion

/-- A seed that is taken in is consistent with the catalog that is kept, which then goes on with it. One that is refused has
something wrong with it, and nothing has changed, as when a file fails. -/
theorem seed_decided (hkept : st.kept s.clock s = .ok c) (hs : st.Settled s (st.directories s.files) []) : (st.seed seed).Meets s
    (fun _ t => c.Consistent seed ∧ ∀ now, st.kept now t = .ok (c.joined seed (max c.nextId seed.nextId)))
    fun e t => (∀ why, e = .catalog why → c.Refuses seed why) ∧ ∀ now, st.kept now t = st.kept now s := by
  have hreason : (st.seed seed).Meets s (fun _ _ => True) fun e _ => ∀ why, e = .catalog why → c.Refuses seed why := by
    have hbegin := (begin_ends hs (List.Subset.refl _) (.refl s _ _)).meets.and (st.begin_error_ne_catalog s).meets
    refine .bind (hbegin.mono_error fun e _ he why hwhy => absurd hwhy (he.2 why)) fun c' u ⟨⟨_, hc'⟩, _⟩ => ?_
    obtain rfl := Except.ok.inj (hc'.symm.trans hkept)
    cases hmerge : c'.merge seed with
    | error e =>
      refine .abandon ?_
      rintro _ ⟨⟩
      exact Catalog.refuses_of_merge hmerge
    | ok m =>
      exact (st.commit_error_ne_catalog m u).mono_error fun e _ he why hwhy => absurd hwhy (he why)
  refine ((Allocator.seed_atomic seed hs).meets.and hreason).mono (fun _ t h => ?_) fun _ _ h => ⟨h.2, h.1⟩
  obtain ⟨⟨d, d', hd, hmerge, ht⟩, -⟩ := h
  obtain rfl := Except.ok.inj (hd.symm.trans hkept)
  obtain ⟨-, -, -, rfl⟩ := Catalog.merge_eq_ok hmerge
  exact ⟨Catalog.consistent_of_merge hmerge, ht⟩

end Store

namespace Catalog

/-! ### What a merge comes to -/

/-- A merge succeeds exactly if the seed is consistent with the catalog. Each table then goes on with the one of the seed,
and the next number is the greater of the two. Otherwise the error tells the first thing that is wrong with the seed, and
the catalog stays as it is. So it is with the catalog that a store keeps. -/
theorem merge_decided (c seed : Catalog) :
    ((∃ c', c.merge seed = .ok c') ↔ c.Consistent seed) ∧
    (∀ c', c.merge seed = .ok c' → c' = ⟨c.vrfs ++ seed.vrfs, c.prefixes ++ seed.prefixes, c.ranges ++ seed.ranges,
      c.addresses ++ seed.addresses, max c.nextId seed.nextId⟩ ∧ c.change (.merge seed) = c') ∧
    (∀ e, c.merge seed = .error e ↔ c.Refuses seed e) ∧
    (¬ c.Consistent seed → (∃ e, c.merge seed = .error e) ∧ c.change (.merge seed) = c) ∧
    ∀ (st : Store) (s : Site), st.kept s.clock s = .ok c → st.Settled s (st.directories s.files) [] → (st.seed seed).Meets s
      (fun _ t => c.Consistent seed ∧ ∀ now, st.kept now t = .ok (c.joined seed (max c.nextId seed.nextId)))
      fun e t => (∀ why, e = .catalog why → c.Refuses seed why) ∧ ∀ now, st.kept now t = st.kept now s := by
  refine ⟨⟨fun ⟨_, h⟩ => consistent_of_merge h, fun h => ⟨_, h.merge⟩⟩, fun c' h => ?_,
    fun e => ⟨refuses_of_merge, Refuses.merge⟩, fun hnot => ?_, fun st s => Store.seed_decided⟩
  · refine ⟨(merge_eq_ok h).2.2.2, ?_⟩
    rw [change, h]
    rfl
  · cases h : c.merge seed with
    | ok c' => exact absurd (consistent_of_merge h) hnot
    | error e =>
      refine ⟨⟨e, rfl⟩, ?_⟩
      rw [change, h]
      rfl

/-- A routing domain, and a prefix that refers to one. -/
def referring (vrf : RecordId) : Catalog :=
  ⟨[⟨7, "green", none, true⟩], [{ somePrefix with vrf := some vrf }.record 3 epoch], [], [], 0⟩

/-- A seed may refer to a routing domain of its own. One that refers to any other is refused, and before that one whose
prefix has an id that is in use. -/
theorem merge_decided_nested :
    (∃ c', nested.merge (referring 7) = .ok c' ∧ c'.ids = [7, 1, 2, 3] ∧ nested.change (.merge (referring 7)) = c') ∧
    nested.Consistent (referring 7) ∧ nested.Refuses (referring 9) (.unknownVrf 3 9) ∧
    (¬ nested.Consistent (referring 9) ∧ nested.change (.merge (referring 9)) = nested) ∧
    nested.Refuses whole (.duplicateId 1) ∧
    let st := (Allocator.nearby []).store
    let s := Allocator.stocked nested.text
    st.kept s.clock s = .ok nested ∧ st.Settled s (st.directories s.files) [] ∧ (st.seed (referring 9)).Meets s (fun _ _ => False)
      fun e t => (∀ why, e = .catalog why → nested.Refuses (referring 9) why) ∧ ∀ now, st.kept now t = st.kept now s := by
  obtain ⟨c', hmerge, hids⟩ : ∃ c', nested.merge (referring 7) = .ok c' ∧ c'.ids = [7, 1, 2, 3] := ⟨_, rfl, rfl⟩
  obtain ⟨hconsistent, hmerged, -, -⟩ := merge_decided nested (referring 7)
  obtain ⟨hunknown, -, hrefuses, hdropped, hstore⟩ := merge_decided nested (referring 9)
  have herror : nested.merge (referring 9) = .error (.unknownVrf 3 9) := by decide +kernel
  have hnot : ¬ nested.Consistent (referring 9) := fun h => by
    obtain ⟨c', hc'⟩ := hunknown.mpr h
    exact nomatch hc'.symm.trans herror
  have htaken : nested.merge whole = .error (.duplicateId 1) := by decide +kernel
  refine ⟨⟨c', hmerge, hids, (hmerged c' hmerge).2⟩, hconsistent.mp ⟨c', hmerge⟩, (hrefuses _).mp herror,
    ⟨hnot, (hdropped hnot).2⟩, ((merge_decided nested whole).2.2.1 _).mp htaken, ?_⟩
  intro st s
  have hkept : st.kept s.clock s = .ok nested := Allocator.kept_nearby nested _
  have hsettled : st.Settled s (st.directories s.files) [] := Allocator.settled_nearby nested _ _
  clear_value st s
  exact ⟨hkept, hsettled, (hstore st s hkept hsettled).mono (fun _ _ h => hnot h.1) fun _ _ h => h⟩

end Catalog

end AddressPlan
