import AddressPlan.Proofs.Allocation.Listing
import AddressPlan.Proofs.Allocation.Opened
import AddressPlan.Proofs.Allocation.Review
import AddressPlan.Proofs.Space.Fit

/-!
What a batch of prefixes comes to. Lengths that the parent does not admit are reported item by item. Otherwise each request
gets the lowest block of its length that is still free in the parent, and the batch is refused for want of room exactly if
there is none for some request.
-/

namespace AddressPlan

open Net

variable {validators : List Validator} {now : Clock} {c : Catalog} {id : RecordId} {s : Scope}
  {p : PrefixRecord} {requests : List PrefixRequest} {lengths : List Nat}

/-! ### Lengths -/

/-- A length that is asked for lies between that of the prefix and that of an address. -/
def PrefixRecord.Admits (p : PrefixRecord) (r : PrefixRequest) (length : Nat) : Prop :=
  r.length = some (length : Int) ∧ p.network.length ≤ length ∧ length ≤ p.network.family.width

/-- An address of a prefix that no child has. -/
def PrefixRecord.Leaves (p : PrefixRecord) (children : List Block) (a : Address) : Prop :=
  a ∈ p.network ∧ ∀ b ∈ children, a ∉ b

/-- What is wrong with the length that a request asks for. -/
def lengthFault (s : Scope) (r : PrefixRequest) : FieldErrors :=
  match lengthProblem s r.length with
  | some m => .single "prefix_length" m
  | none => .empty

theorem lengthProblem_eq_none_iff {wanted : Option Int} : lengthProblem s wanted = none ↔
    ∃ length : Nat, wanted = some (length : Int) ∧ s.maskLength ≤ length ∧ length ≤ s.family.width := by
  cases wanted with
  | none => exact iff_of_false nofun nofun
  | some i =>
    simp only [lengthProblem, Option.some.injEq]
    split
    · refine iff_of_false (Option.some_ne_none _) ?_
      rintro ⟨length, hi, hmin, -⟩
      omega
    split
    · refine iff_of_false (Option.some_ne_none _) ?_
      rintro ⟨length, hi, -, hmax⟩
      omega
    · exact iff_of_true rfl ⟨i.toNat, by omega, by omega, by omega⟩

theorem isEmpty_lengthFault {r : PrefixRequest} : (lengthFault s r).isEmpty = true ↔ lengthProblem s r.length = none := by
  unfold lengthFault
  cases lengthProblem s r.length with
  | none => exact iff_of_true rfl rfl
  | some m => exact iff_of_false nofun nofun

theorem checkLengths_eq (s : Scope) (requests : List PrefixRequest) : checkLengths s requests =
    if (requests.map (lengthFault s)).any (!·.isEmpty) then .error (.badLengths s.label (requests.map (lengthFault s)))
    else .ok (requests.filterMap fun r => r.length.map Int.toNat) := rfl

/-- One length that is not admitted is enough to have all of them reported. -/
theorem checkLengths_eq_error {r : PrefixRequest} (hr : r ∈ requests) (h : lengthProblem s r.length ≠ none) :
    checkLengths s requests = .error (.badLengths s.label (requests.map (lengthFault s))) := by
  rw [checkLengths_eq, if_pos]
  refine List.any_eq_true.mpr ⟨lengthFault s r, List.mem_map_of_mem hr, ?_⟩
  rw [Bool.not_eq_true', Bool.eq_false_iff, ne_eq, isEmpty_lengthFault]
  exact h

theorem filterMap_lengths (h : List.Forall₂ (fun r (length : Nat) => r.length = some (length : Int)) requests lengths) :
    (requests.filterMap fun r : PrefixRequest => r.length.map Int.toNat) = lengths := by
  induction h with
  | nil => rfl
  | cons hr _ ih => rw [List.filterMap_cons_some (by rw [hr]; rfl), ih, Int.toNat_natCast]

/-! ### Stages -/

theorem allocatePrefixes_of_lengths (hs : c.scope (.prefixRecord id) .prefixes = .ok s)
    (hl : checkLengths s requests = .ok lengths) :
    allocatePrefixes validators now c id requests =
      match s.space.takeNetworks lengths with
      | .error l => .error (.noRoom requests.length s.label l)
      | .ok ns =>
        match insertAll (fun c n => c.insertPrefix n now) c (ns.zipWith (newPrefix s.vrfId) requests) with
        | none => .error .exhausted
        | some (created, c') => (review validators c' (created.map .prefixRecord)).map fun _ => ⟨s, created, c'⟩ := by
  simp only [allocatePrefixes, hs, hl, Except.mapError, Except.bind, bind]
  cases s.space.takeNetworks lengths with
  | error l => rfl
  | ok ns =>
    dsimp only
    cases insertAll (fun c n => c.insertPrefix n now) c (ns.zipWith (newPrefix s.vrfId) requests) with
    | none => rfl
    | some r =>
      dsimp only
      cases review validators r.2 (r.1.map .prefixRecord) <;> rfl

theorem allocatePrefixes_of_badLengths (hs : c.scope (.prefixRecord id) .prefixes = .ok s) {why : Refusal}
    (hl : checkLengths s requests = .error why) : allocatePrefixes validators now c id requests = .error why := by
  simp only [allocatePrefixes, hs, hl, Except.mapError, Except.bind, bind]

/-- Room is all that is missing exactly if the lengths cannot all be carved. -/
theorem allocatePrefixes_eq_noRoom_iff {n l : Nat} {label : String} (hs : c.scope (.prefixRecord id) .prefixes = .ok s)
    (hl : checkLengths s requests = .ok lengths) :
    allocatePrefixes validators now c id requests = .error (.noRoom n label l) ↔
      n = requests.length ∧ label = s.label ∧ s.space.takeNetworks lengths = .error l := by
  rw [allocatePrefixes_of_lengths hs hl]
  cases s.space.takeNetworks lengths with
  | error l' =>
    simp only [Except.error.injEq, Refusal.noRoom.injEq]
    exact and_congr eq_comm (and_congr_left' eq_comm)
  | ok ns =>
    refine iff_of_false (fun h => ?_) nofun
    dsimp only at h
    split at h
    · cases h
    · rcases review_eq_error (map_eq_error.mp h) with ⟨hwhy, -⟩ | ⟨_, hwhy⟩ <;> cases hwhy

/-! ### The parent and its free space -/

/-- What a scope is, told by the parent. -/
theorem Catalog.scope_of_prefix (hs : c.scope (.prefixRecord id) .prefixes = .ok s) :
    ∃ p, c.prefix? id = some p ∧ s.vrfId = p.vrf ∧ s.maskLength = p.network.length ∧ s.family = p.network.family ∧
      ∀ a, a ∈ s.space ↔ p.Leaves s.children a := by
  obtain ⟨p, hp, -, hvrf, hblock, hmask⟩ := scope_prefix_eq_ok hs
  refine ⟨p, hp, hvrf, hmask, ?_, fun a => ?_⟩
  · rw [Scope.family, hblock]
    rfl
  · rw [mem_space, hblock]
    exact and_congr_left' Block.mem_ofNetwork

/-- With lengths that are admitted, a batch of prefixes is carved. -/
theorem checkLengths_of_admits (hmask : s.maskLength = p.network.length) (hfamily : s.family = p.network.family)
    (h : List.Forall₂ p.Admits requests lengths) : checkLengths s requests = .ok lengths := by
  refine checkLengths_eq_ok_iff.mpr ⟨fun r hr => ?_, (filterMap_lengths (h.imp fun _ _ hlen => hlen.1)).symm⟩
  obtain ⟨length, -, hlength, hmin, hmax⟩ := exists_left_of_mem (List.Forall₂.flip h) hr
  exact lengthProblem_eq_none_iff.mpr ⟨length, hlength, hmask ▸ hmin, hfamily ▸ hmax⟩

/-- What has been carved is created, if there are ids for it and no validator objects. -/
theorem allocatePrefixes_of_networks (validators : List Validator) (now : Clock) {ns : List Network}
    (hs : c.scope (.prefixRecord id) .prefixes = .ok s)
    (hl : checkLengths s requests = .ok lengths) (hns : s.space.takeNetworks lengths = .ok ns) :
    (c.idsLeft < requests.length → allocatePrefixes validators now c id requests = .error .exhausted) ∧
    (requests.length ≤ c.idsLeft → ∃ p created, c.prefix? id = some p ∧ created.map (·.network) = ns ∧
      List.Forall₂ (p.Answers now) requests created ∧ allocatePrefixes validators now c id requests =
        (review validators (c.withPrefixes created) (created.map .prefixRecord)).map
          fun _ => ⟨s, created, c.withPrefixes created⟩) := by
  have hlength : ns.length = requests.length := by
    rw [(checkLengths_eq_ok hl).length_eq, ← (Space.takeNetworks_eq_ok hns).1, List.length_map]
  have hcases := (Catalog.inserts_prefix now).insertAll_cases Catalog.nextId_withPrefixes c
    (ns.zipWith (newPrefix s.vrfId) requests)
  rw [List.length_zipWith, hlength, Nat.min_self] at hcases
  have houtcome : ∀ vs, allocatePrefixes vs now c id requests = _ := fun vs => allocatePrefixes_of_lengths hs hl
  simp only [hns] at houtcome
  rcases hcases with ⟨hids, hins⟩ | ⟨hids, created, hins⟩
  · exact ⟨fun _ => by rw [houtcome, hins], fun h => absurd h (Nat.not_le.mpr hids)⟩
  · refine ⟨fun h => absurd hids (Nat.not_le.mpr h), fun _ => ?_⟩
    obtain ⟨-, -, hrecords⟩ := (Catalog.inserts_prefix now).insertAll_eq_some hins
    have hok : allocatePrefixes [] now c id requests = .ok ⟨s, created, c.withPrefixes created⟩ := by
      rw [houtcome, hins]
      dsimp only
      rw [review_nil]
      rfl
    obtain ⟨p, hbatch, -⟩ := allocatePrefixes_eq_ok hok
    refine ⟨p, created, hbatch.found, ?_, hbatch.answers, allocatePrefixes_reviewed hok⟩
    exact forall₂_map_eq ((forall₂_zipWith hlength hrecords).1.imp fun n q ⟨_, hq⟩ => by rw [hq]; rfl)

/-- What a batch of prefixes comes to, for a parent whose scope can be loaded: the requests whose lengths are not admitted
are blamed; or the first length for which no block is left is reported; or every request has its block, the lowest one of its
length in the parent that meets no child and none of the blocks before it. Then, if there are ids for all of them, these
blocks are the networks of the records that the batch creates, one for each request, unless a validator rejects one. Calls on
allocators with these validators come to just that. -/
theorem allocatePrefixes_firstFit (validators : List Validator) (now : Clock) (c : Catalog) (id : RecordId)
    (p : PrefixRecord) (s : Scope) (requests : List PrefixRequest) (hp : c.prefix? id = some p)
    (hs : c.scope (.prefixRecord id) .prefixes = .ok s) :
    let outcome := allocatePrefixes validators now c id requests
    ((∃ r ∈ requests, ∀ length, ¬ p.Admits r length) → ∃ items, outcome = .error (.badLengths s.label items) ∧
      List.Forall₂ (fun r e => e.isEmpty = true ↔ ∃ length, p.Admits r length) requests items) ∧
    (∀ lengths, List.Forall₂ p.Admits requests lengths →
      (∀ n label l, outcome = .error (.noRoom n label l) ↔
        n = requests.length ∧ label = s.label ∧ RunsOut (p.Leaves s.children) lengths l) ∧
      ((∀ l, ¬ RunsOut (p.Leaves s.children) lengths l) → ∃ ns, FirstFit (p.Leaves s.children) lengths ns ∧
        (c.idsLeft < requests.length → outcome = .error .exhausted) ∧
        (requests.length ≤ c.idsLeft → ∃ created, created.map (·.network) = ns ∧
          List.Forall₂ (p.Answers now) requests created ∧
          ((∀ q ∈ created, ∀ v ∈ validators, v (.prefixRecord q) (c.withPrefixes created) = none) →
            outcome = .ok ⟨s, created, c.withPrefixes created⟩)))) ∧
    ∀ (a : Allocator) (t u : Site), a.validators = validators → u.clock = now →
      a.OpensAt t (.of .prefixes (.prefixRecord id) a.lockScope) c u → a.ComesTo t u (a.allocatePrefixes id requests) outcome := by
  obtain ⟨p, hp', -, hmask, hfamily, hfree⟩ := Catalog.scope_of_prefix hs
  obtain rfl := Option.some.inj (hp'.symm.trans hp)
  intro outcome
  have hproblem : ∀ r : PrefixRequest, lengthProblem s r.length = none ↔ ∃ length, p.Admits r length := fun r => by
    rw [lengthProblem_eq_none_iff, hmask, hfamily]
    exact Iff.rfl
  have hcalls : ∀ (a : Allocator) (t u : Site), a.validators = validators → u.clock = now →
      a.OpensAt t (.of .prefixes (.prefixRecord id) a.lockScope) c u → a.ComesTo t u (a.allocatePrefixes id requests) outcome :=
    fun a t u hvalidators hclock hopen => by
      subst hvalidators hclock
      exact Allocator.allocatePrefixes_comesTo requests hopen
  refine ⟨fun ⟨r, hr, hbad⟩ => ?_, fun lengths hlengths => ?_, hcalls⟩
  · have hne : lengthProblem s r.length ≠ none := fun h => by
      obtain ⟨length, hlength⟩ := (hproblem r).mp h
      exact hbad length hlength
    refine ⟨_, allocatePrefixes_of_badLengths hs (checkLengths_eq_error hr hne), ?_⟩
    exact List.forall₂_map_right_iff.mpr (List.forall₂_same.mpr fun r _ => isEmpty_lengthFault.trans (hproblem r))
  have hl := checkLengths_of_admits hmask hfamily hlengths
  have hasc := Catalog.space_ascending s
  have hrunsOut : ∀ l, s.space.takeNetworks lengths = .error l ↔ RunsOut (p.Leaves s.children) lengths l := fun l =>
    (Space.takeNetworks_eq_error_iff hasc).trans (RunsOut.congr_iff hfree)
  refine ⟨fun n label l => ?_, fun hfits => ?_⟩
  · rw [← hrunsOut]
    exact allocatePrefixes_eq_noRoom_iff hs hl
  · cases hns : s.space.takeNetworks lengths with
    | error l => exact absurd ((hrunsOut l).mp hns) (hfits l)
    | ok ns =>
      obtain ⟨hnone, hsome⟩ := allocatePrefixes_of_networks validators now hs hl hns
      refine ⟨ns, (FirstFit.congr_iff hfree).mp ((Space.takeNetworks_eq_ok_iff hasc).mp hns), hnone, fun hids => ?_⟩
      obtain ⟨p', created, hp', hcreated, hanswers, houtcome⟩ := hsome hids
      obtain rfl : p' = p := Option.some.inj (hp'.symm.trans hp)
      refine ⟨created, hcreated, hanswers, fun haccepts => ?_⟩
      have hreview : review validators (c.withPrefixes created) (created.map .prefixRecord) = .ok () := by
        refine review_eq_ok.mpr (List.forall_mem_map.mpr fun q hq v hv => ?_)
        rw [haccepts q hq v hv]
        trivial
      show allocatePrefixes validators now c id requests = _
      rw [houtcome, hreview]
      rfl

/-! ### Half of a prefix -/

/-- Of a prefix whose lower half is taken: a length below its own is blamed, two halves are one too many, and of two smaller
blocks the second one leaves a gap above the first. -/
theorem allocatePrefixes_firstFit_nested : ∃ s p, Catalog.nested.scope (.prefixRecord 1) .prefixes = .ok s ∧
    Catalog.nested.prefix? 1 = some p ∧
    ((∃ r ∈ prefixesOf [26, 23], ∀ length, ¬ p.Admits r length) ∧
      ∃ items, allocatePrefixes [] Catalog.epoch .nested 1 (prefixesOf [26, 23]) = .error (.badLengths s.label items) ∧
        List.Forall₂ (fun r e => e.isEmpty = true ↔ ∃ length, p.Admits r length) (prefixesOf [26, 23]) items) ∧
    (List.Forall₂ p.Admits (prefixesOf [26, 25]) [26, 25] ∧ RunsOut (p.Leaves s.children) [26, 25] 25) ∧
    List.Forall₂ p.Admits (prefixesOf [27, 26]) [27, 26] ∧ (∀ l, ¬ RunsOut (p.Leaves s.children) [27, 26] l) ∧
    2 ≤ Catalog.nested.idsLeft ∧ ∃ created, created.map (·.network.address.value) = [0x0a000080, 0x0a0000c0] ∧
      FirstFit (p.Leaves s.children) [27, 26] (created.map (·.network)) ∧
      (Allocator.unchecked.allocatePrefixes 1 (prefixesOf [27, 26])).outcome (Allocator.site .nested) =
        .ok ⟨s, created, Catalog.nested.withPrefixes created⟩ := by
  obtain ⟨s, hs⟩ : ∃ s, Catalog.nested.scope (.prefixRecord 1) .prefixes = .ok s := ⟨_, rfl⟩
  obtain ⟨p, hp, hlen, hwidth⟩ : ∃ p, Catalog.nested.prefix? 1 = some p ∧ p.network.length = 24 ∧ p.network.family.width = 32 :=
    ⟨_, rfl, rfl, rfl⟩
  have hids : 2 ≤ Catalog.nested.idsLeft := by decide +kernel
  have hadmits : ∀ length : Nat, 24 ≤ length → length ≤ 32 → p.Admits ⟨some length, .active, .blank⟩ length :=
    fun length hmin hmax => ⟨rfl, hlen ▸ hmin, hwidth ▸ hmax⟩
  have hfirst := fun lengths => allocatePrefixes_firstFit [] Catalog.epoch .nested 1 p s (prefixesOf lengths) hp hs
  have hshort : ∃ r ∈ prefixesOf [26, 23], ∀ length, ¬ p.Admits r length := by
    refine ⟨⟨some 23, .active, .blank⟩, by simp [prefixesOf], fun length ⟨hlength, hmin, _⟩ => ?_⟩
    have h : (23 : Int) = length := Option.some.inj hlength
    omega
  have hhalves : List.Forall₂ p.Admits (prefixesOf [26, 25]) [26, 25] :=
    .cons (hadmits 26 (by decide) (by decide)) (.cons (hadmits 25 (by decide) (by decide)) .nil)
  have hpieces : List.Forall₂ p.Admits (prefixesOf [27, 26]) [27, 26] :=
    .cons (hadmits 27 (by decide) (by decide)) (.cons (hadmits 26 (by decide) (by decide)) .nil)
  have hfull : (allocatePrefixes [] Catalog.epoch .nested 1 (prefixesOf [26, 25])).map (fun _ => ()) =
      .error (.noRoom 2 "10.0.0.0/24" 25) := by decide +kernel
  have hvalues : ((allocatePrefixes [] Catalog.epoch .nested 1 (prefixesOf [27, 26])).map fun r =>
      r.created.map (·.network.address.value)) = .ok [0x0a000080, 0x0a0000c0] := by decide +kernel
  have hroom : ∀ l, ¬ RunsOut (p.Leaves s.children) [27, 26] l := fun l hl => by
    rw [(((hfirst [27, 26]).2.1 _ hpieces).1 _ _ _).mpr ⟨rfl, rfl, hl⟩] at hvalues
    cases hvalues
  obtain ⟨ns, hns, -, hcreated⟩ := ((hfirst [27, 26]).2.1 _ hpieces).2 hroom
  obtain ⟨created, rfl, -, hok⟩ := hcreated hids
  replace hok := hok fun _ _ _ hv => absurd hv List.not_mem_nil
  have hcall := (hfirst [27, 26]).2.2 Allocator.unchecked (Allocator.site .nested) _ rfl rfl
    (Allocator.opensAt_memory rfl rfl List.not_mem_nil)
  rw [hok] at hvalues
  exact ⟨s, p, hs, hp, ⟨hshort, (hfirst [26, 23]).1 hshort⟩,
    ⟨hhalves, ((((hfirst [26, 25]).2.1 _ hhalves).1 _ _ _).mp (map_eq_error.mp hfull)).2.2⟩,
    hpieces, hroom, hids, created, Except.ok.inj hvalues, hns, (hcall.succeeds _).mpr ⟨hok, rfl⟩⟩

end AddressPlan
