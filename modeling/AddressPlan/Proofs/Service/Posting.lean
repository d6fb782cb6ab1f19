import AddressPlan.Proofs.Allocation.Faults
import AddressPlan.Proofs.Allocation.Listing
import AddressPlan.Proofs.Allocation.Refusals
import AddressPlan.Service.Basic

/-!
What the service answers to a posted body. The answer has the shape of the body: to an array it is an array with one part for
each item, to anything else it is one part. The parts are the created records, or what is wrong with the items, and the
catalog changes in the former case only.
-/

namespace AddressPlan

variable {α β : Type} {a : Allocator} {s t : Site} {d : Decoder β} {body : Json} {parts : List Json}
  {items : List FieldErrors} {requests : List β}

/-! ### Shapes -/

/-- An answer in the shape of a body, made of one part for each item. -/
def Mirrors (body : Json) (parts : List Json) (answer : Json) : Prop :=
  parts.length = (Body.rawItems body).length ∧ if body.isArray then answer = .array parts else parts = [answer]

theorem Body.rawItems_of_not_array (h : body.isArray = false) : Body.rawItems body = [body] := by
  cases body <;> first | rfl | cases h

theorem Mirrors.eq_singleton {answer : Json} (h : Mirrors body parts answer) (harray : body.isArray = false) :
    parts = [answer] := by
  have hparts := h.2
  rwa [if_neg (by rw [harray]; decide)] at hparts

theorem Mirrors.mem {answer : Json} (h : Mirrors body parts answer) (harray : body.isArray = false) : answer ∈ parts := by
  rw [h.eq_singleton harray]
  exact List.mem_singleton_self answer

theorem mirrors_created (h : parts.length = (Body.rawItems body).length) :
    Mirrors body parts (Response.created body.isArray parts).body := by
  refine ⟨h, ?_⟩
  cases harray : body.isArray with
  | true => rfl
  | false =>
    rw [Body.rawItems_of_not_array harray] at h
    obtain ⟨part, rfl⟩ := List.length_eq_one_iff.mp h
    rfl

theorem mirrors_invalid (h : items.length = (Body.rawItems body).length) :
    Mirrors body (items.map FieldErrors.toJson) (Response.invalid body.isArray items).body := by
  refine ⟨(List.length_map _).trans h, ?_⟩
  cases harray : body.isArray with
  | true => rfl
  | false =>
    rw [Body.rawItems_of_not_array harray] at h
    obtain ⟨item, rfl⟩ := List.length_eq_one_iff.mp h
    rfl

/-! ### Answers -/

/-- The items of a body, decoded. -/
def Decoded (d : Decoder β) (body : Json) (requests : List β) : Prop :=
  List.Forall₂ (fun v q => Body.item d v = .ok q) (Body.rawItems body) requests

/-- What an answer to a post tells. `creates` says which parts stand for which records that have been created for the
requests, and `faults` what may be wrong with requests; both speak of the catalog on which the transaction is opened. -/
structure Posted (a : Allocator) (s t : Site) (key : LockKey) (d : Decoder β) (body : Json)
    (creates : Clock → Catalog → List β → List Json → Catalog → Prop)
    (faults : Clock → Catalog → List β → List FieldErrors → Prop) (r : Response) : Prop where
  created : r.status = 201 → ∃ c u requests parts c', a.OpensAt s key c u ∧ Decoded d body requests ∧
    creates u.clock c requests parts c' ∧ (∀ now, a.store.kept now t = .ok c') ∧ Mirrors body parts r.body
  invalid : r.status = 400 → ∃ items : List FieldErrors, Mirrors body (items.map FieldErrors.toJson) r.body ∧
    (∃ part ∈ items.map FieldErrors.toJson, part ≠ .object []) ∧
    (items = (Body.rawItems body).map (Body.fault d) ∨
      ∃ c u requests, a.OpensAt s key c u ∧ Decoded d body requests ∧ faults u.clock c requests items)
  detail : r.status ≠ 201 → r.status ≠ 400 → ∃ text, r.body = .object [("detail", .string text)]
  /-- Nothing stands in for a part that is missing. -/
  whole : body.isArray = false → r.body ≠ .null ∧ r.body ≠ .object []

namespace Service

variable {key : LockKey} {creates : Clock → Catalog → List β → List Json → Catalog → Prop}
  {faults : Clock → Catalog → List β → List FieldErrors → Prop}

/-- What is wrong with items is answered item by item. -/
theorem posted_invalid (hlength : items.length = (Body.rawItems body).length) (hne : ∃ e ∈ items, e.isEmpty = false)
    (hitems : items = (Body.rawItems body).map (Body.fault d) ∨
      ∃ c u requests, a.OpensAt s key c u ∧ Decoded d body requests ∧ faults u.clock c requests items) :
    Posted a s t key d body creates faults (.invalid body.isArray items) := by
  obtain ⟨e, he, hne⟩ := hne
  have hmirrors := mirrors_invalid hlength
  have hpart : e.toJson ∈ items.map FieldErrors.toJson := List.mem_map_of_mem he
  refine ⟨nofun, fun _ => ⟨items, hmirrors, ⟨_, hpart, FieldErrors.toJson_ne hne⟩, hitems⟩, fun _ h => absurd rfl h,
    fun harray => ?_⟩
  rw [hmirrors.eq_singleton harray, List.mem_singleton] at hpart
  rw [← hpart]
  exact ⟨nofun, FieldErrors.toJson_ne hne⟩

/-- Created records are answered in their order. -/
theorem posted_created {c c' : Catalog} {u : Site} (hopen : a.OpensAt s key c u) (hdecoded : Decoded d body requests)
    (hcreates : creates u.clock c requests parts c') (hkept : ∀ now, a.store.kept now t = .ok c')
    (hlength : parts.length = requests.length) (hshown : ∀ part ∈ parts, part ≠ .null ∧ part ≠ .object []) :
    Posted a s t key d body creates faults (.created body.isArray parts) := by
  have hmirrors := mirrors_created (hlength.trans hdecoded.length_eq.symm)
  exact ⟨fun _ => ⟨c, u, requests, parts, c', hopen, hdecoded, hcreates, hkept, hmirrors⟩, nofun, fun h => absurd rfl h,
    fun harray => hshown _ (hmirrors.mem harray)⟩

theorem posted_detail {r : Response} {text : String} (h : r.status ≠ 201) (h' : r.status ≠ 400)
    (hbody : r.body = .object [("detail", .string text)]) : Posted a s t key d body creates faults r := by
  refine ⟨fun hs => absurd hs h, fun hs => absurd hs h', fun _ _ => ⟨text, hbody⟩, fun _ => ?_⟩
  rw [hbody]
  exact ⟨nofun, nofun⟩

/-- A failure is answered with its items, or with a detail. What is kept stays the same. -/
theorem answerError_meets (isMany : Bool) (e : AllocationError) (s : Site) : (answerError isMany e).Meets s
    (fun r t => (∀ (st : Store) now, st.kept now t = st.kept now s) ∧
      ((∃ why items, e = .refused why ∧ why.items? = some items ∧ r = .invalid isMany items) ∨
        r.status ≠ 201 ∧ r.status ≠ 400 ∧ ∃ text, r.body = .object [("detail", .string text)]))
    fun _ t => t = s := by
  unfold answerError
  split
  case h_1 | h_2 | h_3 => exact .throw rfl
  case h_4 | h_5 => exact .pure ⟨fun _ _ => rfl, Or.inl ⟨_, _, rfl, rfl, rfl⟩⟩
  case h_11 => exact .note_bind (.pure ⟨fun st now => st.kept_note now s _, Or.inr ⟨nofun, nofun, _, rfl⟩⟩)
  all_goals exact .pure ⟨fun _ _ => rfl, Or.inr ⟨nofun, nofun, _, rfl⟩⟩

/-- The answer to an allocation for the items of a body. `P` is what makes sure that a failure changes nothing. -/
theorem answer_posted {P : Prop} {act : Act AllocationError (Allocated α)} {render : Allocated α → List Json}
    (hdecoded : Decoded d body requests)
    (hcreates : ∀ now c c' parts, creates now c requests parts c' →
      parts.length = requests.length ∧ ∀ part ∈ parts, part ≠ .null ∧ part ≠ .object [])
    (hfaults : ∀ now c items, faults now c requests items → items.length = requests.length)
    (hact : act.Meets s
      (fun r t => ∃ c u, a.OpensAt s key c u ∧ creates u.clock c requests (render r) r.catalog ∧
        ∀ now, a.store.kept now t = .ok r.catalog)
      fun e _ => ∀ why, e = .refused why → ∀ items, why.items? = some items →
        ∃ c u, a.OpensAt s key c u ∧ faults u.clock c requests items ∧ ∃ e ∈ items, e.isEmpty = false)
    (hunchanged : P → act.Meets s (fun _ _ => True) fun _ t => ∀ now, a.store.kept now t = a.store.kept now s) :
    (answer body.isArray act fun r => .created body.isArray (render r)).Meets s
      (fun r t => Posted a s t key d body creates faults r ∧
        (P → r.status ≠ 201 → ∀ now, a.store.kept now t = a.store.kept now s))
      fun _ t => P → ∀ now, a.store.kept now t = a.store.kept now s := by
  have hcount := hdecoded.length_eq
  have hboth := hact.and (.of_imp hunchanged)
  unfold Act.Meets at hboth
  cases h : act s with
  | ok r t =>
    rw [h] at hboth
    obtain ⟨⟨c, u, hopen, hcreated, hkept⟩, -⟩ := hboth
    obtain ⟨hlength, hshown⟩ := hcreates _ _ _ _ hcreated
    have hanswer : answer body.isArray act (fun r => .created body.isArray (render r)) s =
        .ok (.created body.isArray (render r)) t := by simp only [answer, h]
    rw [Act.Meets, hanswer]
    exact ⟨posted_created hopen hdecoded hcreated hkept hlength hshown, fun _ h => absurd rfl h⟩
  | error e t =>
    rw [h] at hboth
    obtain ⟨hwhy, hkept⟩ := hboth
    have hanswer : answer body.isArray act (fun r => .created body.isArray (render r)) s = answerError body.isArray e t := by
      simp only [answer, h]
    rw [Act.Meets, hanswer]
    refine (answerError_meets body.isArray e t).mono (fun r u hr => ⟨?_, fun hP _ now => ?_⟩) fun _ u hu => ?_
    · rcases hr.2 with ⟨why, items, rfl, hitems, rfl⟩ | ⟨hne, hne', text, htext⟩
      · obtain ⟨c, v, hopen, hfaulty, hsome⟩ := hwhy why rfl items hitems
        exact posted_invalid ((hfaults _ c items hfaulty).trans hcount.symm) hsome
          (Or.inr ⟨c, v, requests, hopen, hdecoded, hfaulty⟩)
      · exact posted_detail hne hne' htext
    · exact (hr.1 a.store now).trans (hkept hP now)
    · rw [hu]
      exact hkept

/-! ### Posts -/

/-- The parts show the prefixes that have been created for the requests, in their order. -/
def CreatesPrefixes (now : Clock) (id : RecordId) (c : Catalog) (requests : List PrefixRequest) (parts : List Json)
    (c' : Catalog) : Prop :=
  ∃ scope p created, c.scope (.prefixRecord id) .prefixes = .ok scope ∧ PrefixBatch c now id requests p created ∧
    parts = created.map (Response.prefixJson scope.vrf) ∧ c' = c.withPrefixes created

/-- The parts show the addresses that have been created for the requests, in their order. -/
def CreatesAddresses (now : Clock) (parent : Parent) (c : Catalog) (requests : List AddressRequest)
    (parts : List Json) (c' : Catalog) : Prop :=
  ∃ scope created, AddressBatch c now parent requests scope created ∧
    parts = created.map (Response.addressJson scope.vrf) ∧ c' = c.withAddresses created

/-- A post: the body is decoded, and its items are allocated. -/
def post (d : Decoder β) (body : Json) (allocate : List β → Act AllocationError (Allocated α))
    (render : Allocated α → List Json) : Act IdsExhausted Response :=
  match Body.decode d body with
  | .error items => return .invalid body.isArray items
  | .ok requests => answer body.isArray (allocate requests.items) fun r => .created body.isArray (render r)

theorem postPrefixes_eq (a : Allocator) (id : RecordId) (body : Json) : postPrefixes a id body =
    post .prefixRequest body (a.allocatePrefixes id) fun r => r.created.map (Response.prefixJson r.scope.vrf) := by
  unfold postPrefixes post
  cases Body.decode Decoder.prefixRequest body <;> rfl

theorem postAddresses_eq (a : Allocator) (parent : Parent) (body : Json) : postAddresses a parent body =
    post .addressRequest body (a.allocateAddresses parent) fun r => r.created.map (Response.addressJson r.scope.vrf) := by
  unfold postAddresses post
  cases Body.decode Decoder.addressRequest body <;> rfl

theorem post_posted {P : Prop} {allocate : List β → Act AllocationError (Allocated α)} {render : Allocated α → List Json}
    (hcreates : ∀ now c requests c' parts, creates now c requests parts c' →
      parts.length = requests.length ∧ ∀ part ∈ parts, part ≠ .null ∧ part ≠ .object [])
    (hfaults : ∀ now c requests items, faults now c requests items → items.length = requests.length)
    (hact : ∀ requests, (allocate requests).Meets s
      (fun r t => ∃ c u, a.OpensAt s key c u ∧ creates u.clock c requests (render r) r.catalog ∧
        ∀ now, a.store.kept now t = .ok r.catalog)
      fun e _ => ∀ why, e = .refused why → ∀ items, why.items? = some items →
        ∃ c u, a.OpensAt s key c u ∧ faults u.clock c requests items ∧ ∃ e ∈ items, e.isEmpty = false)
    (hunchanged : P → ∀ requests, (allocate requests).Meets s (fun _ _ => True)
      fun _ t => ∀ now, a.store.kept now t = a.store.kept now s) :
    (post d body allocate render).Meets s
      (fun r t => Posted a s t key d body creates faults r ∧
        (P → r.status ≠ 201 → ∀ now, a.store.kept now t = a.store.kept now s))
      fun _ t => P → ∀ now, a.store.kept now t = a.store.kept now s := by
  unfold post
  split
  · rename_i items hdecode
    obtain ⟨hitems, hne⟩ := Body.decode_eq_error hdecode
    exact .pure ⟨posted_invalid (by rw [hitems, List.length_map]) hne (Or.inl hitems), fun _ _ _ => rfl⟩
  · rename_i requests hdecode
    exact answer_posted (Body.decode_eq_ok hdecode) (fun now c => hcreates now c _) (fun now c => hfaults now c _)
      (hact _) fun hP => hunchanged hP _

/-- Every post is answered in the shape of its body, or by a detail, unless the ids have run out or a lock is held. An answer of 201 shows the
records that have been created for the items and are kept now, one of 400 tells what is wrong with them. For any other answer,
or none, what is kept stays the same, if it does not depend on what has to be made for an allocation: then it is also what the
transaction is opened on. -/
theorem posts_mirrored (a : Allocator) (s : Site) (body : Json) :
    (∀ id, let key := LockKey.of .prefixes (.prefixRecord id) a.lockScope
      (postPrefixes a id body).Meets s
        (fun r t => Posted a s t key .prefixRequest body (CreatesPrefixes · id) (PrefixFaults a.validators · · id) r ∧
          (a.Settled s key → r.status ≠ 201 → ∀ now, a.store.kept now t = a.store.kept now s))
        fun _ t => a.Settled s key → ∀ now, a.store.kept now t = a.store.kept now s) ∧
    (∀ parent, let key := LockKey.of .addresses parent a.lockScope
      (postAddresses a parent body).Meets s
        (fun r t => Posted a s t key .addressRequest body (CreatesAddresses · parent) (AddressFaults a.validators · · parent) r ∧
          (a.Settled s key → r.status ≠ 201 → ∀ now, a.store.kept now t = a.store.kept now s))
        fun _ t => a.Settled s key → ∀ now, a.store.kept now t = a.store.kept now s) ∧
    ∀ key c u, a.Settled s key → a.OpensAt s key c u → a.store.kept s.clock s = .ok c ∧ u.clock = s.clock := by
  refine ⟨fun id => ?_, fun parent => ?_, fun key c u hs hopen => Allocator.opensAt_kept hs hopen⟩
  · rw [postPrefixes_eq]
    refine post_posted ?_ (fun _ _ _ _ h => h.length_eq) (fun requests => ?_) fun hs _ => Allocator.transact_unchanged hs
    · rintro now c requests c' parts ⟨scope, p, created, -, hbatch, rfl, -⟩
      exact ⟨(List.length_map _).trans hbatch.answers.length_eq.symm, List.forall_mem_map.mpr fun q _ => ⟨nofun, nofun⟩⟩
    · refine (a.transact_decided s _ _ _ _).mono (fun r t ⟨c, u, hopen, hr, ht⟩ => ?_) fun e t hwhy why he items hitems => ?_
      · obtain ⟨p, hbatch, hcatalog⟩ := allocatePrefixes_eq_ok hr
        exact ⟨c, u, hopen, ⟨r.scope, p, r.created, (allocatePrefixes_eq_ok_iff.mp hr).1, hbatch, rfl, hcatalog⟩, ht⟩
      · obtain ⟨c, u, hopen, hrefused⟩ := hwhy why he
        exact ⟨c, u, hopen, allocatePrefixes_faults hrefused hitems⟩
  · rw [postAddresses_eq]
    refine post_posted ?_ (fun _ _ _ _ h => h.length_eq) (fun requests => ?_) fun hs _ => Allocator.transact_unchanged hs
    · rintro now c requests c' parts ⟨scope, created, hbatch, rfl, -⟩
      exact ⟨(List.length_map _).trans hbatch.answers.length_eq.symm, List.forall_mem_map.mpr fun q _ => ⟨nofun, nofun⟩⟩
    · refine (a.transact_decided s _ _ _ _).mono (fun r t ⟨c, u, hopen, hr, ht⟩ => ?_) fun e t hwhy why he items hitems => ?_
      · obtain ⟨hbatch, hcatalog⟩ := allocateAddresses_eq_ok hr
        exact ⟨c, u, hopen, ⟨r.scope, r.created, hbatch, rfl, hcatalog⟩, ht⟩
      · obtain ⟨c, u, hopen, hrefused⟩ := hwhy why he
        exact ⟨c, u, hopen, allocateAddresses_faults hrefused hitems⟩

/-! ### A path that appears -/

open Allocator (inMemory opensAt_memory site throughGap stocked)

def lengthItem (length : Nat) : Json :=
  .object [("prefix_length", .nat length)]

theorem exists_posted {act : Act IdsExhausted Response} {P : Response → Site → Prop} {Q : IdsExhausted → Site → Prop}
    (status : Nat) (h : act.Meets s P Q) (hstatus : (act.outcome s).toOption.map (·.status) = some status) :
    ∃ r t, act s = .ok r t ∧ r.status = status ∧ P r t := by
  obtain ⟨r, hr, hstatus⟩ := toOption_map_eq_some hstatus
  have hact := Act.outcome_eq_ok.mp hr
  rw [Act.Meets, hact] at h
  exact ⟨r, _, hact, hstatus, h⟩

/-- Two prefixes are answered by two parts, a body that is no object by what is wrong with it, and a single address by a single
part. -/
theorem posts_mirrored_nested :
    (∃ r t, postPrefixes inMemory 1 (.array [lengthItem 26, lengthItem 27]) (site .nested) = .ok r t ∧ r.status = 201 ∧
      Posted inMemory (site .nested) t (.of .prefixes (.prefixRecord 1) inMemory.lockScope) .prefixRequest
        (.array [lengthItem 26, lengthItem 27]) (CreatesPrefixes · 1) (PrefixFaults inMemory.validators · · 1) r) ∧
    (∃ r t, postPrefixes inMemory 1 .null (site .nested) = .ok r t ∧ r.status = 400 ∧
      inMemory.Settled (site .nested) (.of .prefixes (.prefixRecord 1) inMemory.lockScope) ∧
      ∀ now, inMemory.store.kept now t = inMemory.store.kept now (site .nested)) ∧
    (∃ r t, postAddresses inMemory (.prefixRecord 2) (.object []) (site .nested) = .ok r t ∧ r.status = 201 ∧
      Posted inMemory (site .nested) t (.of .addresses (.prefixRecord 2) inMemory.lockScope) .addressRequest (.object [])
        (CreatesAddresses · (.prefixRecord 2)) (AddressFaults inMemory.validators · · (.prefixRecord 2)) r) ∧
    inMemory.OpensAt (site .nested) (.global .prefixes) .nested ((site .nested).note (.took (.key (.global .prefixes)))) ∧
    inMemory.store.kept Catalog.epoch (site .nested) = .ok .nested ∧ (site .nested).clock = Catalog.epoch := by
  have hsettled : ∀ key, inMemory.Settled (site .nested) key := fun _ => trivial
  have hopens : inMemory.OpensAt (site .nested) (.global .prefixes) .nested _ := opensAt_memory rfl rfl List.not_mem_nil
  obtain ⟨hprefixes, -, hkept⟩ := posts_mirrored inMemory (site .nested) (.array [lengthItem 26, lengthItem 27])
  have hsame := hkept _ _ _ (hsettled _) hopens
  obtain ⟨r, t, hact, hstatus, hposted, -⟩ := exists_posted 201 (hprefixes 1) (by decide +kernel)
  obtain ⟨r', t', hact', hstatus', -, hunchanged⟩ :=
    exists_posted 400 ((posts_mirrored inMemory (site .nested) .null).1 1) (by decide +kernel)
  obtain ⟨q, u, hact'', hstatus'', hposted'', -⟩ := exists_posted 201
    ((posts_mirrored inMemory (site .nested) (.object [])).2.1 (.prefixRecord 2)) (by decide +kernel)
  exact ⟨⟨r, t, hact, hstatus, hposted⟩,
    ⟨r', t', hact', hstatus', hsettled _, hunchanged (hsettled _) (by rw [hstatus']; decide)⟩,
    ⟨q, u, hact'', hstatus'', hposted''⟩, hopens, hsame⟩

theorem post_of_missing {id : RecordId}
    (h : a.allocatePrefixes id [] s = .error (.refused (.catalog (.notFound .prefixRecord id))) t) :
    postPrefixes a id (.array []) s = .ok .notFound t := by
  show answer true (a.allocatePrefixes id []) _ s = _
  rw [answer, h]
  rfl

theorem kept_filled (text : String) (events : List Event) :
    throughGap.store.kept Catalog.epoch ⟨Allocator.filled text, .empty, Catalog.epoch, events⟩ =
      Store.load Catalog.epoch (Allocator.filled text) "a/../ipam.json" := rfl

/-- A post to a prefix that is not there changes what is kept, if the way to the catalog has to be made. -/
theorem missing_parent_changes_kept :
    ∃ r t, postPrefixes throughGap 3 (.array []) (stocked Catalog.nested.text) = .ok r t ∧ r.status = 404 ∧
      throughGap.store.kept Catalog.epoch (stocked Catalog.nested.text) = .ok .empty ∧
      throughGap.store.kept Catalog.epoch t = .ok .nested ∧ Catalog.empty.prefixes ≠ Catalog.nested.prefixes := by
  have hload := Allocator.load_filled Catalog.nested
  exact ⟨_, _, post_of_missing (Allocator.allocate_throughGap hload), rfl, Allocator.kept_stocked _ _,
    (kept_filled _ _).trans hload, nofun⟩

end Service

end AddressPlan
