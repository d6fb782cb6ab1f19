import AddressPlan.Proofs.Allocation.History

/-!
Integrity of a catalog: no two records share an id, references lead to routing domains, and the bounds of ranges fit
together. A merge and a batch add records that keep to this, so it holds along every run that starts without records;
and what it says is all that loading a scope needs besides the parent itself.
-/

namespace AddressPlan

open Net

variable {c c' d : Catalog} {parent : Parent} {mode : Mode}

/-- The bounds of a range fit together: masks of one length, and addresses of one family that are not inverted. -/
structure RangeRecord.Fits (r : RangeRecord) : Prop where
  length : r.start.length = r.stop.length
  family : r.start.address.family = r.stop.address.family
  ordered : r.start.address.value ≤ r.stop.address.value

theorem RangeRecord.fits_iff {r : RangeRecord} : r.Fits ↔ ∃ s, Catalog.spanOf r = .ok s := by
  constructor
  · rintro ⟨hlength, hfamily, hordered⟩
    rw [Catalog.spanOf, span, if_pos hlength, Span.between, if_pos hfamily, dif_pos hordered]
    exact ⟨_, rfl⟩
  · rintro ⟨s, hs⟩
    have hspan := mapError_eq_ok.mp hs
    unfold span at hspan
    split at hspan
    · rename_i hlength
      obtain ⟨hfamily, -, hfirst, hlast⟩ := Span.between_eq_ok hspan
      exact ⟨hlength, hfamily, hfirst ▸ hlast ▸ s.first_le_last⟩
    · cases hspan

namespace Catalog

structure Sound (c : Catalog) : Prop where
  ids : c.ids.Nodup
  references : ∀ r ∈ c.references, Leads c.vrfs r.2
  ranges : ∀ r ∈ c.ranges, r.Fits

theorem sound_empty : empty.Sound :=
  ⟨.nil, fun _ hr => absurd hr List.not_mem_nil, fun _ hr => absurd hr List.not_mem_nil⟩

/-! ### Further records -/

/-- A catalog with the records of another one at the ends of its tables. -/
def joined (c d : Catalog) (next : RecordId) : Catalog :=
  ⟨c.vrfs ++ d.vrfs, c.prefixes ++ d.prefixes, c.ranges ++ d.ranges, c.addresses ++ d.addresses, next⟩

theorem ids_joined (c d : Catalog) (next : RecordId) : (c.joined d next).ids.Perm (c.ids ++ d.ids) := by
  refine List.perm_iff_count.mpr fun i => ?_
  simp only [ids, joined, List.map_append, List.count_append]
  omega

theorem mem_references_joined {next : RecordId} {r : RecordId × Option RecordId} :
    r ∈ (c.joined d next).references ↔ r ∈ c.references ∨ r ∈ d.references := by
  simp only [references, joined, List.map_append, List.mem_append]
  grind

/-- Records with ids of their own, with references that lead somewhere and with ranges that fit can be added. -/
theorem Sound.joined {next : RecordId} (h : c.Sound) (hids : d.ids.Nodup ∧ ∀ i ∈ d.ids, i ∉ c.ids)
    (hreferences : ∀ r ∈ d.references, Leads (c.vrfs ++ d.vrfs) r.2) (hranges : ∀ r ∈ d.ranges, r.Fits) :
    (c.joined d next).Sound where
  ids := by
    rw [(ids_joined c d next).nodup_iff, List.nodup_append]
    refine ⟨h.ids, hids.1, fun i hold j hnew heq => hids.2 j hnew ?_⟩
    rwa [← heq]
  references r hr := by
    rcases mem_references_joined.mp hr with hold | hnew
    · exact (h.references r hold).mono (List.subset_append_left _ _)
    · exact hreferences r hnew
  ranges r hr := by
    rcases List.mem_append.mp hr with hold | hnew
    · exact h.ranges r hold
    · exact hranges r hnew

theorem Sound.merge {seed : Catalog} (h : c.Sound) (hm : c.merge seed = .ok c') : c'.Sound := by
  obtain ⟨hids, hranges, hreferences, rfl⟩ := merge_eq_ok hm
  exact h.joined hids hreferences fun r hr => RangeRecord.fits_iff.mpr (hranges r hr)

theorem Fresh.nodup {old new : List RecordId} (h : Fresh old new) : new.Nodup ∧ ∀ i ∈ new, i ∉ old :=
  ⟨h.ascending.imp UInt64.ne_of_lt, fun _ => h.not_mem⟩

theorem Sound.withPrefixes {ps : List PrefixRecord} (h : c.Sound) (hfresh : Fresh c.ids (ps.map (·.id)))
    (hvrfs : ∀ p ∈ ps, Leads c.vrfs p.vrf) : (c.withPrefixes ps).Sound := by
  have hjoined : c.withPrefixes ps = c.joined ⟨[], ps, [], [], 0⟩ (nextAfter c.nextId (ps.map (·.id))) := by
    simp only [Catalog.withPrefixes, Catalog.joined, List.append_nil]
  rw [hjoined]
  refine h.joined (by simpa [Catalog.ids] using hfresh.nodup) (fun r hr => ?_) fun _ hr => absurd hr List.not_mem_nil
  simp only [Catalog.references, List.map_nil, List.append_nil, List.mem_map] at hr
  obtain ⟨p, hp, rfl⟩ := hr
  exact (hvrfs p hp).mono (List.subset_append_left _ _)

theorem Sound.withAddresses {as : List AddressRecord} (h : c.Sound) (hfresh : Fresh c.ids (as.map (·.id)))
    (hvrfs : ∀ a ∈ as, Leads c.vrfs a.vrf) : (c.withAddresses as).Sound := by
  have hjoined : c.withAddresses as = c.joined ⟨[], [], [], as, 0⟩ (nextAfter c.nextId (as.map (·.id))) := by
    simp only [Catalog.withAddresses, Catalog.joined, List.append_nil]
  rw [hjoined]
  refine h.joined (by simpa [Catalog.ids] using hfresh.nodup) (fun r hr => ?_) fun _ hr => absurd hr List.not_mem_nil
  simp only [Catalog.references, List.map_nil, List.nil_append, List.mem_map] at hr
  obtain ⟨a, ha, rfl⟩ := hr
  exact (hvrfs a ha).mono (List.subset_append_left _ _)

/-! ### Loading scopes -/

/-- The table of its kind has a record with the id of the parent. -/
def Has (c : Catalog) : Parent → Prop
  | .prefixRecord id => ∃ p ∈ c.prefixes, p.id = id
  | .rangeRecord id => ∃ r ∈ c.ranges, r.id = id

theorem prefix?_isSome_iff {id : RecordId} : (c.prefix? id).isSome ↔ c.Has (.prefixRecord id) := by
  simp [prefix?, Has]

theorem range?_isSome_iff {id : RecordId} : (c.range? id).isSome ↔ c.Has (.rangeRecord id) := by
  simp [range?, Has]

theorem scope_of_not_has (h : ¬ c.Has parent) (mode : Mode) : c.scope parent mode = .error (.notFound parent.kind parent.id) := by
  cases parent with
  | prefixRecord id =>
    rw [← prefix?_isSome_iff, Option.not_isSome_iff_eq_none] at h
    simp only [scope, h]
    rfl
  | rangeRecord id =>
    rw [← range?_isSome_iff, Option.not_isSome_iff_eq_none] at h
    simp only [scope, h]
    rfl

theorem resolveVrf_of_leads {v : Option RecordId} (h : Leads c.vrfs v) : ∃ vrf, c.resolveVrf v = .ok vrf := by
  cases v with
  | none => exact ⟨none, rfl⟩
  | some id =>
    have hfound : (c.vrf? id).isSome := by
      simpa [vrf?] using h id rfl
    obtain ⟨vrf, hvrf⟩ := Option.isSome_iff_exists.mp hfound
    exact ⟨some vrf, by simp only [resolveVrf, hvrf]⟩

theorem Sound.prefix_leads (h : c.Sound) {p : PrefixRecord} (hp : p ∈ c.prefixes) : Leads c.vrfs p.vrf :=
  h.references (p.id, p.vrf) (List.mem_append_left _ (List.mem_append_left _ (List.mem_map_of_mem hp)))

theorem Sound.range_leads (h : c.Sound) {r : RangeRecord} (hr : r ∈ c.ranges) : Leads c.vrfs r.vrf :=
  h.references (r.id, r.vrf) (List.mem_append_left _ (List.mem_append_right _ (List.mem_map_of_mem hr)))

theorem Sound.occupied (h : c.Sound) (p : PrefixRecord) (mode : Mode) : ∃ children, c.occupied p mode = .ok children := by
  cases mode with
  | prefixes => exact ⟨_, rfl⟩
  | addresses =>
    have hfits : ∀ r ∈ c.childRanges p, ∃ s, spanOf r = .ok s := fun r hr =>
      RangeRecord.fits_iff.mp (h.ranges r (mem_childRanges.mp hr).1)
    obtain ⟨spans, hspans⟩ := exists_mapM_ok hfits
    exact ⟨_, bind_eq_ok.mpr ⟨spans, hspans, rfl⟩⟩

/-- The scope of a parent that is there can be loaded. -/
theorem Sound.scope (h : c.Sound) (hp : c.Has parent) (mode : Mode) : ∃ s, c.scope parent mode = .ok s := by
  cases parent with
  | prefixRecord id =>
    obtain ⟨p, hfind⟩ := Option.isSome_iff_exists.mp (prefix?_isSome_iff.mpr hp)
    obtain ⟨children, hchildren⟩ := h.occupied p mode
    obtain ⟨vrf, hvrf⟩ := resolveVrf_of_leads (h.prefix_leads (List.mem_of_find?_eq_some hfind))
    simp only [Catalog.scope, hfind]
    exact ⟨_, bind_eq_ok.mpr ⟨children, hchildren, bind_eq_ok.mpr ⟨vrf, hvrf, rfl⟩⟩⟩
  | rangeRecord id =>
    obtain ⟨r, hfind⟩ := Option.isSome_iff_exists.mp (range?_isSome_iff.mpr hp)
    have hmem := List.mem_of_find?_eq_some hfind
    obtain ⟨span, hspan⟩ := RangeRecord.fits_iff.mp (h.ranges r hmem)
    obtain ⟨vrf, hvrf⟩ := resolveVrf_of_leads (h.range_leads hmem)
    simp only [Catalog.scope, hfind]
    exact ⟨_, bind_eq_ok.mpr ⟨span, hspan, bind_eq_ok.mpr ⟨vrf, hvrf, rfl⟩⟩⟩

theorem Sound.scope_leads {s : Scope} (h : c.Sound) (hs : c.scope parent mode = .ok s) : Leads c.vrfs s.vrfId := by
  cases parent with
  | prefixRecord id =>
    obtain ⟨p, hfind, -, hvrf, -⟩ := scope_prefix_eq_ok hs
    rw [hvrf]
    exact h.prefix_leads (List.mem_of_find?_eq_some hfind)
  | rangeRecord id =>
    obtain ⟨r, span, hfind, -, hvrf, -⟩ := scope_range_eq_ok hs
    rw [hvrf]
    exact h.range_leads (List.mem_of_find?_eq_some hfind)

/-! ### Runs -/

theorem Committed.sound {m : Commit} {now : Clock} (h : c.Sound) (hc : Committed c now m c') : c'.Sound := by
  cases hc with
  | prefixes batch =>
    refine h.withPrefixes batch.fresh fun q hq => ?_
    obtain ⟨r, -, hanswers⟩ := exists_left_of_mem batch.answers hq
    rw [hanswers.vrf]
    exact h.prefix_leads (List.mem_of_find?_eq_some batch.found)
  | addresses batch =>
    refine h.withAddresses batch.fresh fun a ha => ?_
    obtain ⟨r, -, hanswers⟩ := exists_left_of_mem batch.answers ha
    rw [hanswers.vrf]
    exact h.scope_leads batch.found
  | seed merged => exact h.merge merged

theorem Sound.outcome : ∀ (ts : List Attempt) {c : Catalog}, c.Sound → (c.outcome ts).Sound
  | [], _, h => h
  | t :: ts, c, h => by
    cases hattempt : c.attempt t with
    | none =>
      rw [(steps_cons_none ts hattempt).2]
      exact h.outcome ts
    | some r =>
      rw [(steps_cons_some ts hattempt).2]
      exact ((committed_of_attempt hattempt).sound h).outcome ts

theorem outcome_append : ∀ (ts us : List Attempt) {c : Catalog}, c.outcome (ts ++ us) = (c.outcome ts).outcome us
  | [], _, _ => rfl
  | t :: ts, us, c => by
    rw [List.cons_append]
    cases hattempt : c.attempt t with
    | none => rw [(steps_cons_none _ hattempt).2, (steps_cons_none _ hattempt).2, outcome_append ts us]
    | some r => rw [(steps_cons_some _ hattempt).2, (steps_cons_some _ hattempt).2, outcome_append ts us]

end Catalog

end AddressPlan
