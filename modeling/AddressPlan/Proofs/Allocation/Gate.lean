import AddressPlan.Proofs.Allocation.Listing
import AddressPlan.Proofs.Allocation.Refusals
import AddressPlan.Proofs.Allocation.Review
import AddressPlan.Proofs.Store.Document

/-!
The validators as a gate: a batch that has been carved is committed exactly if none of them rejects any of its records, as
far as it is up to them. Otherwise it is refused: for the fields of all records at once, if any of them are wrong, or else for
the first permission that is missing.
-/

namespace AddressPlan

variable {α : Type} {validators : List Validator} {c : Catalog} {created : List Created} {a : Allocator} {s u : Site}
  {r : Allocated α} {parent : Parent} {mode : Mode}

/-! ### Verdicts -/

/-- A rejection that gives a reason: a message about some field, or the permission that is missing. -/
def Rejection.Tells : Rejection → Prop
  | .fields e => e.isEmpty = false
  | .permission _ => True

/-- What a verdict says about a field. -/
def messagesOn (field : String) : Option Rejection → List String
  | some (.fields e) => e.messages field
  | some (.permission _) | none => []

def deniedDetail? : Option Rejection → Option String
  | some (.permission detail) => some detail
  | some (.fields _) | none => none

/-- What the validators say to each of some records, one record after the other. -/
def verdicts (validators : List Validator) (c : Catalog) (created : List Created) : List (Option Rejection) :=
  created.flatMap fun x => validators.map fun v => v x c

theorem mem_verdicts {w : Option Rejection} : w ∈ verdicts validators c created ↔ ∃ x ∈ created, ∃ v ∈ validators, v x c = w := by
  simp only [verdicts, List.mem_flatMap, List.mem_map]

theorem accepts_iff {w : Option Rejection} : Accepts w ↔ ∀ rejection, w = some rejection → ¬ rejection.Tells := by
  cases w with
  | none => exact iff_of_true trivial nofun
  | some rejection => cases rejection <;> simp [Accepts, Rejection.Tells]

theorem review_eq_ok_iff_verdicts : review validators c created = .ok () ↔
    ∀ rejection, some rejection ∈ verdicts validators c created → ¬ rejection.Tells := by
  simp only [review_eq_ok, accepts_iff, mem_verdicts]
  exact ⟨fun h rejection ⟨x, hx, v, hv, hw⟩ => h x hx v hv rejection hw,
    fun h x hx v hv rejection hw => h rejection ⟨x, hx, v, hv, hw⟩⟩

/-! ### Fields -/

/-- The messages about a field of a record are those of the verdicts on it, in the order of the validators. -/
theorem messages_fieldErrors (validators : List Validator) (c : Catalog) (x : Created) (field : String) :
    (fieldErrors validators c x).messages field = validators.flatMap fun v => messagesOn field (v x c) := by
  rw [fieldErrors, FieldErrors.messages_join]
  induction validators with
  | nil => rfl
  | cons v vs ih =>
    rw [List.flatMap_cons, ← ih]
    rcases h : v x c with _ | e | detail
    · rw [List.filterMap_cons_none (by rw [h])]
      rfl
    · rw [List.filterMap_cons_some (by rw [h]), List.flatMap_cons]
      rfl
    · rw [List.filterMap_cons_none (by rw [h])]
      rfl

/-! ### Permissions -/

theorem flatMap_denials (validators : List Validator) (c : Catalog) (created : List Created) :
    created.flatMap (denials validators c) = (verdicts validators c created).filterMap deniedDetail? := by
  rw [verdicts, List.filterMap_flatMap]
  refine List.flatMap_congr fun x _ => ?_
  rw [denials, List.filterMap_map]
  refine List.filterMap_congr fun v _ => ?_
  rw [Function.comp_apply]
  rcases v x c with _ | _ | _ <;> rfl

/-- Without rejections of fields, the first permission that is missing decides. -/
theorem review_of_permission {detail : String} (hfields : ∀ e, some (.fields e) ∉ verdicts validators c created)
    (hd : some (.permission detail) ∈ verdicts validators c created) :
    ∃ first before after, verdicts validators c created = before ++ some (.permission first) :: after ∧
      (∀ d, some (.permission d) ∉ before) ∧ review validators c created = .error (.denied first) := by
  obtain ⟨x, hx, v, hv, hw⟩ := mem_verdicts.mp hd
  have hdenied : ∀ {w d}, deniedDetail? w = some d ↔ w = some (.permission d) := by
    rintro (_ | _ | _) d <;> simp [deniedDetail?]
  have hhead : ((created.flatMap (denials validators c)).head?).isSome := by
    rw [flatMap_denials, List.head?_filterMap, List.findSome?_isSome_iff]
    exact ⟨_, hd, rfl⟩
  obtain ⟨first, hfirst⟩ := Option.isSome_iff_exists.mp hhead
  rw [flatMap_denials, List.head?_filterMap] at hfirst
  obtain ⟨before, w, after, hlist, hwfirst, hbefore⟩ := List.findSome?_eq_some_iff.mp hfirst
  obtain rfl := hdenied.mp hwfirst
  refine ⟨first, before, after, hlist, fun d hmem => Option.some_ne_none d (hbefore _ hmem), ?_⟩
  unfold review
  dsimp only
  rw [if_neg, flatMap_denials, List.head?_filterMap, hfirst]
  simp only [List.any_map, List.any_eq_true, Function.comp_apply, Bool.not_eq_true', Bool.eq_false_iff, not_exists, not_and,
    Decidable.not_not]
  refine fun y hy => fieldErrors_isEmpty.mpr fun v hv e he => absurd (mem_verdicts.mpr ⟨y, hy, v, hv, he⟩) (hfields e)

/-! ### What becomes of a batch -/

theorem review_of_silent (h : ∀ w ∈ verdicts validators c created, w = none) : review validators c created = .ok () :=
  review_eq_ok_iff_verdicts.mpr fun _ hw => nomatch h _ hw

theorem silent_of_review (h : review validators c created = .ok ())
    (htell : ∀ rejection, some rejection ∈ verdicts validators c created → rejection.Tells) :
    ∀ w ∈ verdicts validators c created, w = none := by
  intro w hw
  cases w with
  | none => rfl
  | some rejection => exact absurd (htell rejection hw) (review_eq_ok_iff_verdicts.mp h rejection hw)

/-- Whether a batch is committed that has been carved, and why it is not: `r` is what it would create, and `u` where it is
when its transaction is opened. -/
structure Allocator.Gated (a : Allocator) (s u : Site) (r : Allocated α) (created : List Created)
    (act : Act AllocationError (Allocated α)) : Prop where
  /-- Rejections without a word do not count. -/
  succeeds_iff : act.outcome s = .ok r ↔
    (∀ rejection, some rejection ∈ verdicts a.validators r.catalog created → ¬ rejection.Tells) ∧
      (a.store.commit r.catalog).outcome u = .ok ()
  committed_iff : (∀ rejection, some rejection ∈ verdicts a.validators r.catalog created → rejection.Tells) →
    (act.outcome s = .ok r ↔
      (∀ w ∈ verdicts a.validators r.catalog created, w = none) ∧ (a.store.commit r.catalog).outcome u = .ok ())
  /-- Once nobody objects, only files are in the way. -/
  unopposed : (∀ w ∈ verdicts a.validators r.catalog created, w = none) → ∀ e, act.outcome s = .error e →
    a.store ≠ .memory ∧ ∃ path fault, e = .store (.io path (.fault fault))
  committed : ∀ r', act.outcome s = .ok r' → r' = r ∧ ∀ now, a.store.kept now (act.after s) = .ok r.catalog
  uncommitted : ∀ e, act.outcome s = .error e → ∀ now, a.store.kept now (act.after s) = a.store.kept now u
  rejected : ∀ e, some (.fields e) ∈ verdicts a.validators r.catalog created → e.isEmpty = false → ∃ items,
    act.outcome s = .error (.refused (.rejected items)) ∧ List.Forall₂ (fun x item => ∀ field,
      FieldErrors.messages item field = a.validators.flatMap fun v => messagesOn field (v x r.catalog)) created items
  denied : (∀ e, some (.fields e) ∉ verdicts a.validators r.catalog created) →
    ∀ detail, some (.permission detail) ∈ verdicts a.validators r.catalog created → ∃ first before after,
      verdicts a.validators r.catalog created = before ++ some (.permission first) :: after ∧
      (∀ d, some (.permission d) ∉ before) ∧ act.outcome s = .error (.refused (.denied first))

namespace Allocator

variable {act : Act AllocationError (Allocated α)} {t t' : Site}

theorem gated_of_refused {why : Refusal} (hact : act s = .error (.refused why) t)
    (hkept : ∀ now, a.store.kept now t = a.store.kept now u) (hreview : review a.validators r.catalog created = .error why) :
    a.Gated s u r created act := by
  have hout := Act.outcome_of_error hact
  have htold : ¬ ∀ rejection, some rejection ∈ verdicts a.validators r.catalog created → ¬ rejection.Tells := fun h =>
    nomatch hreview.symm.trans (review_eq_ok_iff_verdicts.mpr h)
  have hopposed : ¬ ∀ w ∈ verdicts a.validators r.catalog created, w = none := fun h =>
    nomatch hreview.symm.trans (review_of_silent h)
  constructor
  case succeeds_iff =>
    rw [hout]
    exact iff_of_false nofun fun h => htold h.1
  case committed_iff =>
    intro _
    rw [hout]
    exact iff_of_false nofun fun h => hopposed h.1
  case unopposed => exact fun h => absurd h hopposed
  case committed =>
    intro r' h
    rw [hout] at h
    cases h
  case uncommitted =>
    intro _ _ now
    rw [Act.after_of_error hact]
    exact hkept now
  case rejected =>
    intro e he hne
    obtain ⟨x, hx, v, hv, hw⟩ := mem_verdicts.mp he
    rw [review_of_fields hx hv hw hne] at hreview
    cases hreview
    refine ⟨_, hout, List.forall₂_map_right_iff.mpr (List.forall₂_same.mpr fun x _ field => ?_)⟩
    exact messages_fieldErrors _ _ x field
  case denied =>
    intro hfields detail hd
    obtain ⟨first, before, after, hlist, hbefore, hdenied⟩ := review_of_permission hfields hd
    rw [hdenied] at hreview
    cases hreview
    exact ⟨first, before, after, hlist, hbefore, hout⟩

theorem gated_of_committed (hact : act s = .ok r t') (hafter : ∀ now, a.store.kept now t' = a.store.kept now t)
    (hreview : review a.validators r.catalog created = .ok ()) (hcommit : a.store.commit r.catalog u = .ok () t) :
    a.Gated s u r created act := by
  have hout := Act.outcome_of_ok hact
  have huntold := review_eq_ok_iff_verdicts.mp hreview
  have hkept := a.store.commit_ends r.catalog u
  rw [Act.Ends, hcommit] at hkept
  constructor
  case succeeds_iff => exact iff_of_true hout ⟨huntold, Act.outcome_of_ok hcommit⟩
  case committed_iff => exact fun htell => iff_of_true hout ⟨silent_of_review hreview htell, Act.outcome_of_ok hcommit⟩
  case unopposed =>
    intro _ e he
    rw [hout] at he
    cases he
  case committed =>
    intro r' hr'
    rw [hout] at hr'
    cases hr'
    refine ⟨rfl, fun now => ?_⟩
    rw [Act.after_of_ok hact, hafter]
    exact hkept now
  case uncommitted =>
    intro e he
    rw [hout] at he
    cases he
  case rejected => exact fun e he hne => absurd hne (huntold _ he)
  case denied => exact fun _ _ hd => absurd trivial (huntold _ hd)

theorem gated_of_uncommitted {e : StoreError} (hact : act s = .error (.store e) t')
    (hafter : ∀ now, a.store.kept now t' = a.store.kept now t)
    (hreview : review a.validators r.catalog created = .ok ()) (hcommit : a.store.commit r.catalog u = .error e t) :
    a.Gated s u r created act := by
  have hout := Act.outcome_of_error hact
  have huntold := review_eq_ok_iff_verdicts.mp hreview
  have hkept := a.store.commit_ends r.catalog u
  rw [Act.Ends, hcommit] at hkept
  constructor
  case succeeds_iff =>
    rw [hout, Act.outcome_of_error hcommit]
    simp only [reduceCtorEq, and_false]
  case committed_iff =>
    intro _
    rw [hout, Act.outcome_of_error hcommit]
    simp only [reduceCtorEq, and_false]
  case unopposed =>
    intro _ e' he
    rw [hout] at he
    cases he
    obtain ⟨hstore, path, fault, rfl⟩ := Store.commit_error (Act.outcome_of_error hcommit)
    exact ⟨hstore, path, fault, rfl⟩
  case committed =>
    intro r' hr'
    rw [hout] at hr'
    cases hr'
  case uncommitted =>
    intro _ _ now
    rw [Act.after_of_error hact, hafter]
    exact hkept now
  case rejected => exact fun e he hne => absurd hne (huntold _ he)
  case denied => exact fun _ _ hd => absurd trivial (huntold _ hd)

/-- A carved batch is refused by the review, or committed by the store, or the store fails. -/
theorem transact_gated {record : α → Created} {done : Allocated α → Event}
    (batch : List Validator → Clock → Catalog → Except Refusal (Allocated α))
    (h : a.OpensAt s (.of mode parent a.lockScope) c u)
    (hreviewed : batch a.validators u.clock c = (review a.validators r.catalog (r.created.map record)).map fun _ => r) :
    a.Gated s u r (r.created.map record) (a.transact mode parent (batch a.validators) done) := by
  cases hreview : review a.validators r.catalog (r.created.map record) with
  | error why =>
    rw [hreview] at hreviewed
    refine gated_of_refused (transact_of_error (batch a.validators) done h hreviewed) (fun now => ?_) hreview
    rw [Lock.kept_release, Store.kept_release, Store.kept_note]
  | ok _ =>
    rw [hreview] at hreviewed
    have hact := transact_of_ok (batch a.validators) done h hreviewed
    split at hact
    · rename_i hcommit
      refine gated_of_committed hact (fun now => ?_) hreview hcommit
      rw [Lock.kept_release, Store.kept_note]
    · rename_i hcommit
      refine gated_of_uncommitted hact (fun now => ?_) hreview hcommit
      split
      · rfl
      · exact Lock.kept_release ..

end Allocator

/-- What is known of records that have been committed: no validator gave a reason against one of them, and the caller is
permitted to create each. -/
structure Allocator.Passed (a : Allocator) (c : Catalog) (created : List Created) : Prop where
  untold : ∀ rejection, some rejection ∈ verdicts a.validators c created → ¬ rejection.Tells
  permitted : ∀ permissions, Validator.permission permissions ∈ a.validators → ∀ x ∈ created, permissions.permit x = true

theorem Allocator.passed_of_review (h : review a.validators c created = .ok ()) : a.Passed c created := by
  have huntold := review_eq_ok_iff_verdicts.mp h
  refine ⟨huntold, fun permissions hmem x hx => ?_⟩
  by_contra hdenied
  exact huntold (.permission _) (mem_verdicts.mpr ⟨x, hx, _, hmem, if_neg hdenied⟩) trivial

/-- What becomes of a batch that can be carved and for which ids are left is up to the validators, as far as they tell why they
reject, and to the store once they all accept. What has been committed has passed them, and the caller is permitted to create
it. -/
theorem batches_gated (a : Allocator) (s : Site) :
    (∀ id requests c u r, a.OpensAt s (.of .prefixes (.prefixRecord id) a.lockScope) c u →
      allocatePrefixes [] u.clock c id requests = .ok r →
      a.Gated s u r (r.created.map .prefixRecord) (a.allocatePrefixes id requests)) ∧
    (∀ parent requests c u r, a.OpensAt s (.of .addresses parent a.lockScope) c u →
      allocateAddresses [] u.clock c parent requests = .ok r →
      a.Gated s u r (r.created.map .addressRecord) (a.allocateAddresses parent requests)) ∧
    (∀ id requests r, (a.allocatePrefixes id requests).outcome s = .ok r → a.Passed r.catalog (r.created.map .prefixRecord)) ∧
    ∀ parent requests r, (a.allocateAddresses parent requests).outcome s = .ok r →
      a.Passed r.catalog (r.created.map .addressRecord) := by
  refine ⟨fun id requests c u r hopen hcarved => ?_, fun parent requests c u r hopen hcarved => ?_,
    fun id requests r h => ?_, fun parent requests r h => ?_⟩
  · exact Allocator.transact_gated (fun vs now c => allocatePrefixes vs now c id requests) hopen
      (allocatePrefixes_reviewed hcarved)
  · exact Allocator.transact_gated (fun vs now c => allocateAddresses vs now c parent requests) hopen
      (allocateAddresses_reviewed hcarved)
  · obtain ⟨c, u, -, hbatch⟩ := Allocator.exists_batch_of_ok h
    obtain ⟨-, lengths, networks, -, -, -, hreview⟩ := allocatePrefixes_eq_ok_iff.mp hbatch
    exact Allocator.passed_of_review hreview
  · obtain ⟨c, u, -, hbatch⟩ := Allocator.exists_batch_of_ok h
    obtain ⟨-, -, addresses, hosts, -, -, -, hreview⟩ := allocateAddresses_eq_ok_iff.mp hbatch
    exact Allocator.passed_of_review hreview

/-! ### Validators that reject -/

namespace Validator

theorem uniqueness_tells {globally : Bool} {x : Created} {rejection : Rejection} (h : uniqueness globally x c = some rejection) :
    rejection.Tells := by
  obtain ⟨e, rfl, hne⟩ := uniqueness_eq_some h
  exact hne

theorem permission_tells {permissions : Permissions} {x : Created} {rejection : Rejection}
    (h : permission permissions x c = some rejection) : rejection.Tells := by
  unfold permission at h
  split at h <;> cases h
  trivial

/-- Rejects records of a length. -/
def noneOfLength (length : Nat) : Validator := fun x _ =>
  if x.network.length = length then some (.fields (.single "prefix" "no such length")) else none

theorem noneOfLength_tells {length : Nat} {x : Created} {rejection : Rejection}
    (h : noneOfLength length x c = some rejection) : rejection.Tells := by
  unfold noneOfLength at h
  split at h <;> cases h
  rfl

end Validator

namespace Allocator

/-- An allocator for active records that are not of length 26. -/
def strict : Allocator :=
  .of .memory .inProcess .parent true ⟨none, some ["active"], none⟩ [Validator.noneOfLength 26]

theorem strict_tells (rejection : Rejection) (h : some rejection ∈ verdicts strict.validators c created) : rejection.Tells := by
  obtain ⟨x, -, v, hv, hw⟩ := mem_verdicts.mp h
  simp only [strict, Allocator.of, List.mem_cons, List.not_mem_nil, or_false] at hv
  rcases hv with rfl | rfl | rfl
  · exact Validator.uniqueness_tells hw
  · exact Validator.permission_tells hw
  · exact Validator.noneOfLength_tells hw

end Allocator

open Allocator (strict strict_tells site)

/-- Two prefixes: one that is too large, and one that is not active. -/
def badPair : List PrefixRequest :=
  [⟨some 26, .active, .blank⟩, ⟨some 27, .reserved, .blank⟩]

/-- The site with a lock that has been taken in the process. -/
def siteUnder (key : LockKey) : Site :=
  (site .nested).note (.took (.key key))

/-- Of two prefixes the fields of one are reported, although the other one is not permitted. An active address is created. -/
theorem batches_gated_strict :
    (∃ r, strict.OpensAt (site .nested) (.of .prefixes (.prefixRecord 1) strict.lockScope) .nested
        (siteUnder ⟨.prefixes, some (.prefixRecord 1)⟩) ∧
      allocatePrefixes [] (site .nested).clock .nested 1 badPair = .ok r ∧
      (∀ rejection, some rejection ∈ verdicts strict.validators r.catalog (r.created.map .prefixRecord) → rejection.Tells) ∧
      strict.Gated (site .nested) (siteUnder ⟨.prefixes, some (.prefixRecord 1)⟩) r (r.created.map .prefixRecord)
        (strict.allocatePrefixes 1 badPair) ∧
      (strict.allocatePrefixes 1 badPair).outcome (site .nested) =
        .error (.refused (.rejected [.single "prefix" "no such length", .empty]))) ∧
    (∃ r, strict.OpensAt (site .nested) (.of .addresses (.prefixRecord 2) strict.lockScope) .nested
        (siteUnder ⟨.addresses, some (.prefixRecord 2)⟩) ∧
      allocateAddresses [] (site .nested).clock .nested (.prefixRecord 2) [⟨.active, "a", .blank⟩] = .ok r ∧
      (∀ rejection, some rejection ∈ verdicts strict.validators r.catalog (r.created.map .addressRecord) → rejection.Tells) ∧
      strict.Gated (site .nested) (siteUnder ⟨.addresses, some (.prefixRecord 2)⟩) r (r.created.map .addressRecord)
        (strict.allocateAddresses (.prefixRecord 2) [⟨.active, "a", .blank⟩])) ∧
    (∃ r, (strict.allocatePrefixes 1 [⟨some 27, .active, .blank⟩]).outcome (site .nested) = .ok r ∧
      strict.Passed r.catalog (r.created.map .prefixRecord)) ∧
    ∃ r, (strict.allocateAddresses (.prefixRecord 2) [⟨.active, "a", .blank⟩]).outcome (site .nested) = .ok r ∧
      strict.Passed r.catalog (r.created.map .addressRecord) := by
  obtain ⟨hprefixes, haddresses, hpassed, hpassed'⟩ := batches_gated strict (site .nested)
  have hopens : ∀ key, strict.OpensAt (site .nested) key .nested (siteUnder key) := fun _ =>
    Allocator.opensAt_memory rfl rfl List.not_mem_nil
  have hpair : (allocatePrefixes [] (site .nested).clock .nested 1 badPair).toOption.map (·.created.length) = some 2 := by
    decide +kernel
  have hone : (allocateAddresses [] (site .nested).clock .nested (.prefixRecord 2) [⟨.active, "a", .blank⟩]).toOption.map
      (·.created.length) = some 1 := by decide +kernel
  have hactive : ((strict.allocatePrefixes 1 [⟨some 27, .active, .blank⟩]).outcome (site .nested)).toOption.map
      (·.created.length) = some 1 := by decide +kernel
  have hactive' : ((strict.allocateAddresses (.prefixRecord 2) [⟨.active, "a", .blank⟩]).outcome (site .nested)).toOption.map
      (·.created.length) = some 1 := by decide +kernel
  have hrejected : ((strict.allocatePrefixes 1 badPair).outcome (site .nested)).map (fun _ => ()) =
      .error (.refused (.rejected [.single "prefix" "no such length", .empty])) := by decide +kernel
  obtain ⟨r, hr, -⟩ := toOption_map_eq_some hpair
  obtain ⟨r', hr', -⟩ := toOption_map_eq_some hone
  obtain ⟨q, hq, -⟩ := toOption_map_eq_some hactive
  obtain ⟨q', hq', -⟩ := toOption_map_eq_some hactive'
  exact ⟨⟨r, hopens _, hr, strict_tells, hprefixes _ _ _ _ r (hopens _) hr, map_eq_error.mp hrejected⟩,
    ⟨r', hopens _, hr', strict_tells, haddresses _ _ _ _ r' (hopens _) hr'⟩,
    ⟨q, hq, hpassed _ _ q hq⟩, q', hq', hpassed' _ _ q' hq'⟩

/-! ### A rejection without a word -/

namespace Allocator

/-- An allocator with a validator that rejects everything and does not say why. -/
def wordless : Allocator :=
  .of .memory .inProcess .global false .all [fun _ _ => some (.fields .empty)]

end Allocator

open Allocator (wordless)

def onePrefix : List PrefixRequest :=
  [⟨some 26, .active, .blank⟩]

/-- A record that is rejected without a word is committed: what counts is whether there are messages. -/
theorem wordless_committed :
    ∃ r, wordless.OpensAt (site .nested) (.of .prefixes (.prefixRecord 1) wordless.lockScope) .nested
        (siteUnder (.global .prefixes)) ∧
      allocatePrefixes [] (site .nested).clock .nested 1 onePrefix = .ok r ∧
      (∀ x ∈ r.created, ∃ v ∈ wordless.validators, v (.prefixRecord x) r.catalog = some (.fields .empty)) ∧
      r.created ≠ [] ∧ (wordless.allocatePrefixes 1 onePrefix).outcome (site .nested) = .ok r ∧
      ((wordless.allocatePrefixes 1 onePrefix).after (site .nested)).memory = r.catalog := by
  have hlength : (allocatePrefixes [] Catalog.epoch .nested 1 onePrefix).toOption.map (·.created.length) = some 1 := by
    decide +kernel
  have hreviewed : (allocatePrefixes [] Catalog.epoch .nested 1 onePrefix).toOption.map
      (fun r => review wordless.validators r.catalog (r.created.map .prefixRecord)) = some (.ok ()) := by decide +kernel
  obtain ⟨r, hr, hcount⟩ := toOption_map_eq_some hlength
  obtain ⟨_, hr', hreview⟩ := toOption_map_eq_some hreviewed
  obtain rfl := Except.ok.inj (hr.symm.trans hr')
  have hopen : wordless.OpensAt (site .nested) (.of .prefixes (.prefixRecord 1) wordless.lockScope) .nested
      (siteUnder (.global .prefixes)) := Allocator.opensAt_memory rfl rfl List.not_mem_nil
  have hbatch : allocatePrefixes wordless.validators (siteUnder (.global .prefixes)).clock .nested 1 onePrefix = .ok r := by
    rw [show (siteUnder (.global .prefixes)).clock = Catalog.epoch from rfl, allocatePrefixes_reviewed hr, hreview]
    rfl
  have hact := Allocator.transact_of_ok (fun now c => allocatePrefixes wordless.validators now c 1 onePrefix)
    (fun r => .allocatedPrefixes r.scope.label (r.created.map (·.network))) hopen hbatch
  refine ⟨r, hopen, hr, fun x _ => ⟨_, List.mem_cons_of_mem _ (List.mem_cons_of_mem _ List.mem_cons_self), rfl⟩, ?_,
    Act.outcome_of_ok hact, congrArg Site.memory (Act.after_of_ok hact)⟩
  exact List.ne_nil_of_length_pos (hcount ▸ Nat.one_pos)

/-! ### A file that is in the way -/

namespace Allocator

/-- An allocator for a catalog in a file. -/
def filed : Allocator :=
  .of (.file "ipam.json") .inProcess .global false .all []

/-- A site with a text for that catalog, where a directory has the name of the temporary file. -/
def obstructed (text : String) : Site :=
  ⟨⟨[(["ipam.json"], .text text), (["ipam.json.tmp"], .directory)], []⟩, .empty, Catalog.epoch, []⟩

/-- Its files when the transaction is open. -/
def stuckFiles (text : String) : Files :=
  ⟨(obstructed text).files.entries ++ [(["ipam.json.lock"], .text "")], []⟩

def stuck (key : LockKey) (text : String) : Site :=
  ⟨stuckFiles text, .empty, Catalog.epoch,
    [.took (.key key), .took (Store.token (stuckFiles text) "ipam.json"), .opened "ipam.json"]⟩

theorem opensAt_stuck (c : Catalog) (key : LockKey) : filed.OpensAt (obstructed c.text) key c (stuck key c.text) := by
  have hprepare : Store.prepare "ipam.json" ((obstructed c.text).note (.took (.key key))) =
      .ok () ⟨stuckFiles c.text, .empty, Catalog.epoch, [.took (.key key)]⟩ := rfl
  have htext : (stuckFiles c.text).read "ipam.json" = .ok c.text := rfl
  refine ⟨_, Lock.acquire_inProcess List.not_mem_nil, Store.begin_file hprepare ?_ (Store.load_of_text htext _)⟩
  simp [Site.held, Event.heldAfter, Store.token]

end Allocator

open Allocator (filed obstructed stuck)

/-- A batch that nobody rejects fails if its file is in the way. -/
theorem unopposed_stuck :
    ∃ r, filed.OpensAt (obstructed Catalog.nested.text) (.of .prefixes (.prefixRecord 1) filed.lockScope) .nested
        (stuck (.global .prefixes) Catalog.nested.text) ∧
      allocatePrefixes [] (obstructed Catalog.nested.text).clock .nested 1 onePrefix = .ok r ∧
      (∀ w ∈ verdicts filed.validators r.catalog (r.created.map .prefixRecord), w = none) ∧
      (filed.allocatePrefixes 1 onePrefix).outcome (obstructed Catalog.nested.text) =
        .error (.store (.io "ipam.json.tmp" (.fault .isDirectory))) := by
  have hsilent : (allocatePrefixes [] Catalog.epoch .nested 1 onePrefix).toOption.map
      (fun r => verdicts filed.validators r.catalog (r.created.map .prefixRecord)) = some [none, none] := by decide +kernel
  obtain ⟨r, hr, hverdicts⟩ := toOption_map_eq_some hsilent
  have hnone : ∀ w ∈ verdicts filed.validators r.catalog (r.created.map .prefixRecord), w = none := by
    rw [hverdicts]
    simp
  have hbatch : allocatePrefixes filed.validators Catalog.epoch .nested 1 onePrefix = .ok r := by
    rw [allocatePrefixes_reviewed hr, review_of_silent hnone]
    rfl
  have hopen := Allocator.opensAt_stuck Catalog.nested (.of .prefixes (.prefixRecord 1) filed.lockScope)
  have hcommit : ∀ c, (filed.store.commit c).outcome (stuck (.global .prefixes) Catalog.nested.text) =
      .error (.io "ipam.json.tmp" (.fault .isDirectory)) := fun _ => rfl
  have haccepted := Allocator.transact_accepted (fun now c => allocatePrefixes filed.validators now c 1 onePrefix)
    (fun r => .allocatedPrefixes r.scope.label (r.created.map (·.network))) hopen hbatch
  exact ⟨r, hopen, hr, hnone, haccepted.2 _ (hcommit _)⟩

end AddressPlan
