import AddressPlan.Proofs.Allocation.Listing
import AddressPlan.Proofs.Allocation.Runs
import AddressPlan.Proofs.Allocation.Split
import AddressPlan.Proofs.Catalog.Timeless

/-!
A batch and its items one by one. Each item is a call of its own, which finds the catalog that the one before has left.
What succeeds as a batch succeeds one by one: the records and the last catalog are the same, but for the times.
-/

namespace AddressPlan

open Net

/-! ### Records at another time -/

/-- The record as it would be if it had been created with that clock. -/
def PrefixRecord.redated (k : Clock) (q : PrefixRecord) : PrefixRecord :=
  q.dated (k.creation q.id)

def AddressRecord.redated (k : Clock) (a : AddressRecord) : AddressRecord :=
  a.dated (k.creation a.id)

def Created.redated (k : Clock) : Created → Created
  | prefixRecord q => prefixRecord (q.redated k)
  | addressRecord a => addressRecord (a.redated k)

/-- The checks say the same about each record when it is created with the clock that is listed with it. -/
def SameVerdicts (checks : List (Created → Option Rejection)) (clocks : List Clock) (created : List Created) : Prop :=
  ∀ r ∈ clocks.zip created, ∀ check ∈ checks, check (r.2.redated r.1) = check r.2

/-- The validators of an allocator whose further ones look at the record only. -/
def Validator.withChecks (globally : Bool) (permissions : Permissions) (checks : List (Created → Option Rejection)) :
    List Validator :=
  uniqueness globally :: permission permissions :: checks.map fun check r _ => check r

variable {globally : Bool} {permissions : Validator.Permissions} {checks : List (Created → Option Rejection)}
  {validators : List Validator} {now k : Clock} {c d : Catalog} {id : RecordId} {parent : Parent} {s : Scope}

theorem Validator.hereditary_withChecks : ∀ v ∈ withChecks globally permissions checks, v.Hereditary := by
  intro v hv
  rcases List.mem_cons.mp hv with rfl | hv
  · exact hereditary_uniqueness globally
  rcases List.mem_cons.mp hv with rfl | hv
  · exact hereditary_const _
  obtain ⟨check, -, rfl⟩ := List.mem_map.mp hv
  exact hereditary_const check

/-- What is said of a record in a catalog is said of it at another time, in a catalog that differs in times only. -/
theorem review_redated {r : Created} (h : review (Validator.withChecks globally permissions checks) c [r] = .ok ())
    (halike : c.Alike d) (hsame : ∀ check ∈ checks, check (r.redated k) = check r) :
    review (Validator.withChecks globally permissions checks) d [r.redated k] = .ok () := by
  have htimeless : (r.redated k).timeless = r.timeless := by cases r <;> rfl
  have hverdict : ∀ v ∈ Validator.withChecks globally permissions checks, v (r.redated k) d = v r c := by
    intro v hv
    rcases List.mem_cons.mp hv with rfl | hv
    · rw [← Validator.uniqueness_timeless, htimeless, ← halike, Validator.uniqueness_timeless]
    rcases List.mem_cons.mp hv with rfl | hv
    · rw [← Validator.permission_timeless permissions (r.redated k) d d, htimeless, Validator.permission_timeless permissions r c d]
    obtain ⟨check, hcheck, rfl⟩ := List.mem_map.mp hv
    exact hsame check hcheck
  rw [review_eq_ok, List.forall_mem_singleton] at h ⊢
  exact fun v hv => hverdict v hv ▸ h v hv

/-! ### One item at another time -/

theorem allocatePrefixes_redated {x : PrefixRequest} {q : PrefixRecord} (halike : c.Alike d)
    (hsame : ∀ check ∈ checks, check (.prefixRecord (q.redated k)) = check (.prefixRecord q))
    (h : allocatePrefixes (Validator.withChecks globally permissions checks) now c id [x] = .ok ⟨s, [q], c.withPrefixes [q]⟩) :
    allocatePrefixes (Validator.withChecks globally permissions checks) k d id [x] =
      .ok ⟨s, [q.redated k], d.withPrefixes [q.redated k]⟩ := by
  obtain ⟨hs, lengths, networks, hlengths, hnetworks, hins, hreview⟩ := allocatePrefixes_eq_ok_iff.mp h
  have hreview' : review _ (d.withPrefixes [q.redated k]) [(Created.prefixRecord q).redated k] = .ok () :=
    review_redated hreview (halike.withPrefixes rfl) hsame
  obtain ⟨l, ls, -, hls, rfl⟩ := checkLengths_cons.mp hlengths
  obtain ⟨n, left, ns, -, -, rfl⟩ := Space.takeNetworks_cons.mp hnetworks
  obtain ⟨i, rest, hi, -, hq⟩ := (Catalog.inserts_prefix now).insertAll_cons hins
  dsimp only at hq
  obtain ⟨rfl, rfl⟩ := List.cons_eq_cons.mp hq
  refine allocatePrefixes_eq_ok_iff.mpr ⟨halike.scope_eq _ _ ▸ hs, _, _, hlengths, hnetworks, ?_, ?_⟩
  · rw [List.zipWith_cons_cons, List.zipWith_nil_right]
    exact (Catalog.inserts_prefix k).insertAll_single (halike.freshId?_eq ▸ hi)
  · exact hreview'

theorem allocateAddresses_redated {x : AddressRequest} {a : AddressRecord} (halike : c.Alike d)
    (hsame : ∀ check ∈ checks, check (.addressRecord (a.redated k)) = check (.addressRecord a))
    (h : allocateAddresses (Validator.withChecks globally permissions checks) now c parent [x] =
      .ok ⟨s, [a], c.withAddresses [a]⟩) :
    allocateAddresses (Validator.withChecks globally permissions checks) k d parent [x] =
      .ok ⟨s, [a.redated k], d.withAddresses [a.redated k]⟩ := by
  obtain ⟨hs, hroom, addresses, hosts, haddresses, hhosts, hins, hreview⟩ := allocateAddresses_eq_ok_iff.mp h
  have hreview' : review _ (d.withAddresses [a.redated k]) [(Created.addressRecord a).redated k] = .ok () :=
    review_redated hreview (halike.withAddresses rfl) hsame
  obtain ⟨host, left, rest, -, -, rfl⟩ := Space.takeAddresses?_succ.mp haddresses
  have hcount := (hosts_address hhosts).1
  obtain ⟨n, ns, rfl⟩ : ∃ n ns, hosts = n :: ns := by
    cases hosts with
    | nil => cases hcount
    | cons n ns => exact ⟨n, ns, rfl⟩
  obtain ⟨i, others, hi, -, ha⟩ := (Catalog.inserts_address now).insertAll_cons hins
  dsimp only at ha
  obtain ⟨rfl, rfl⟩ := List.cons_eq_cons.mp ha
  refine allocateAddresses_eq_ok_iff.mpr ⟨halike.scope_eq _ _ ▸ hs, hroom, _, _, haddresses, hhosts, ?_, ?_⟩
  · rw [List.zipWith_cons_cons, List.zipWith_nil_right]
    exact (Catalog.inserts_address k).insertAll_single (halike.freshId?_eq ▸ hi)
  · exact hreview'

/-! ### All items -/

/-- The records that are told to have been created. -/
def Observation.report (o : Observation) : Except AllocationError (List Created) :=
  o.1.map Reply.created

/-- Tasks create records, each its own, and leave a catalog: so the catalog tells, and so it is at every site where the
allocator manages the catalog, unless a lock or a file fails there. -/
structure Allocator.Creates (a : Allocator) (c : Catalog) (tasks : List TimedTask) (created : List (List Created))
    (c' : Catalog) : Prop where
  told : (c.run a.validators tasks).map Observation.report = created.map .ok
  left : c.leave a.validators tasks = c'
  observed : ∀ s, a.Manages c tasks s → (∀ o ∈ a.run s tasks, o.Sound) →
    (a.run s tasks).map Observation.report = created.map .ok ∧ ∀ now, a.store.kept now (a.leave s tasks) = .ok c'

theorem Allocator.creates_of_told {a : Allocator} {tasks : List TimedTask} {created : List (List Created)} {c' : Catalog}
    (h : (c.run a.validators tasks).map Observation.report = created.map .ok ∧ c.leave a.validators tasks = c') :
    a.Creates c tasks created c' where
  told := h.1
  left := h.2
  observed s hs hsound := by
    obtain ⟨hrun, hkept⟩ := hs.run_eq hsound
    rw [hrun, ← h.2]
    exact ⟨h.1, hkept⟩

section Divide
variable {ρ β : Type} {batch : Clock → Catalog → List ρ → Except Refusal (Allocated β)} {task : List ρ → Task}
  {wrap : β → Created} {extend : Catalog → List β → Catalog} {redated : Clock → β → β} {r : Allocated β}

/-- Batches that can be divided: into their first item and the others, and into items with clocks of their own. -/
structure Divides (validators : List Validator) (checks : List (Created → Option Rejection))
    (batch : Clock → Catalog → List ρ → Except Refusal (Allocated β)) (task : List ρ → Task) (wrap : β → Created)
    (extend : Catalog → List β → Catalog) (redated : Clock → β → β) : Prop where
  perform : ∀ {now c xs r}, batch now c xs = .ok r → ∃ reply, c.perform validators now (task xs) = (.ok reply, r.catalog) ∧
    reply.created = r.created.map wrap
  nil : ∀ {now c r}, batch now c [] = .ok r → r.created = []
  cons : ∀ {now c x xs r}, batch now c (x :: xs) = .ok r → ∃ b bs s₁ s₂, r.created = b :: bs ∧
    batch now c [x] = .ok ⟨s₁, [b], extend c [b]⟩ ∧ batch now (extend c [b]) xs = .ok ⟨s₂, bs, r.catalog⟩
  later : ∀ {now c d x b s k}, batch now c [x] = .ok ⟨s, [b], extend c [b]⟩ → c.Alike d →
    (∀ check ∈ checks, check ((wrap b).redated k) = check (wrap b)) →
      batch k d [x] = .ok ⟨s, [redated k b], extend d [redated k b]⟩
  alike : ∀ {c d b k}, c.Alike d → (extend c [b]).Alike (extend d [redated k b])
  extend_nil : ∀ c, extend c [] = c
  extend_cons : ∀ c b bs, extend (extend c [b]) bs = extend c (b :: bs)

theorem Divides.run_batch (hd : Divides validators checks batch task wrap extend redated) {requests : List ρ}
    (h : batch now c requests = .ok r) : (c.run validators [(now, task requests)]).map Observation.report =
      [r.created.map wrap].map .ok ∧ c.leave validators [(now, task requests)] = r.catalog := by
  obtain ⟨reply, hreply, hcreated⟩ := hd.perform h
  simp only [Catalog.run, Catalog.leave, List.foldl_cons, List.foldl_nil, List.map_cons, List.map_nil, hreply,
    Observation.report, Except.map, hcreated, and_self]

/-- By induction on the requests: the catalogs of the batch and of the single calls remain alike. -/
theorem Divides.run_items (hd : Divides validators checks batch task wrap extend redated) : ∀ {requests : List ρ}
    {clocks : List Clock} {c d : Catalog} {r : Allocated β}, clocks.length = requests.length → c.Alike d →
    batch now c requests = .ok r → SameVerdicts checks clocks (r.created.map wrap) →
      (d.run validators (clocks.zip (requests.map fun x => task [x]))).map Observation.report =
          ((clocks.zipWith redated r.created).map fun b => [wrap b]).map .ok ∧
        d.leave validators (clocks.zip (requests.map fun x => task [x])) = extend d (clocks.zipWith redated r.created)
  | [], clocks, c, d, r, _, _, h, _ => by
    rw [hd.nil h, List.map_nil, List.zip_nil_right, List.zipWith_nil_right, hd.extend_nil]
    exact ⟨rfl, rfl⟩
  | x :: xs, k :: ks, c, d, r, hlength, halike, h, hsame => by
    obtain ⟨b, bs, s₁, s₂, hcreated, hfirst, hrest⟩ := hd.cons h
    rw [hcreated] at hsame ⊢
    obtain ⟨hb, hbs⟩ := List.forall_mem_cons.mp hsame
    obtain ⟨reply, hreply, hone⟩ := hd.perform (hd.later hfirst halike hb)
    obtain ⟨hrun, hleave⟩ := hd.run_items (Nat.succ.inj hlength) (hd.alike (k := k) halike) hrest hbs
    rw [List.map_cons, List.zip_cons_cons, List.zipWith_cons_cons, ← hd.extend_cons, ← hleave, Catalog.run, Catalog.leave,
      List.foldl_cons, hreply]
    exact ⟨List.cons_eq_cons.mpr ⟨congrArg Except.ok hone, hrun⟩, rfl⟩

theorem zipWith_eq_right {τ : Type} {f : τ → β → β} : ∀ {ts : List τ} {bs : List β}, ts.length = bs.length →
    (∀ t ∈ ts, ∀ b ∈ bs, f t b = b) → ts.zipWith f bs = bs
  | [], [], _, _ => rfl
  | t :: ts, b :: bs, hlength, h => by
    rw [List.zipWith_cons_cons, h t List.mem_cons_self b List.mem_cons_self, zipWith_eq_right (Nat.succ.inj hlength)
      fun t ht b hb => h t (List.mem_cons_of_mem _ ht) b (List.mem_cons_of_mem _ hb)]

/-- With the clock of the batch, the single calls create the very same records. -/
theorem Divides.run_items_now (hd : Divides validators checks batch task wrap extend redated) {requests : List ρ}
    (h : batch now c requests = .ok r) (hcount : requests.length = r.created.length) (hcatalog : r.catalog = extend c r.created)
    (hnow : ∀ b ∈ r.created, redated now b = b) (hwrap : ∀ k b, wrap (redated k b) = (wrap b).redated k) :
    (c.run validators ((requests.map fun x => task [x]).map fun item => (now, item))).map Observation.report =
        (r.created.map fun b => [wrap b]).map .ok ∧
      c.leave validators ((requests.map fun x => task [x]).map fun item => (now, item)) = r.catalog := by
  let clocks := requests.map fun _ => now
  have hclocks : ∀ k ∈ clocks, k = now := fun k hk => by
    obtain ⟨_, -, rfl⟩ := List.mem_map.mp hk
    rfl
  have hzip : clocks.zip (requests.map fun x => task [x]) = (requests.map fun x => task [x]).map fun item => (now, item) := by
    rw [List.map_map, List.zip_map', Function.comp_def]
  have hrecords : clocks.zipWith redated r.created = r.created :=
    zipWith_eq_right ((List.length_map _).trans hcount) fun k hk b hb => hclocks k hk ▸ hnow b hb
  have hsame : SameVerdicts checks clocks (r.created.map wrap) := fun x hx check _ => by
    obtain ⟨hk, hcreated⟩ := List.of_mem_zip hx
    obtain ⟨b, hb, heq⟩ := List.mem_map.mp hcreated
    rw [hclocks _ hk, ← heq, ← hwrap, hnow b hb]
  have hitems := hd.run_items (List.length_map _) (.refl c) h hsame
  rwa [hzip, hrecords, ← hcatalog] at hitems

end Divide

theorem divides_prefixes : Divides (Validator.withChecks globally permissions checks) checks
    (fun now c requests => allocatePrefixes (Validator.withChecks globally permissions checks) now c id requests)
    (fun requests => .operation (.allocatePrefixes id requests)) Created.prefixRecord Catalog.withPrefixes
    PrefixRecord.redated where
  perform {_ c _ r} h := ⟨.prefixes r, congrArg (c.allocated · Reply.prefixes) h, rfl⟩
  nil h := by
    obtain ⟨p, batch, -⟩ := allocatePrefixes_eq_ok h
    exact List.forall₂_nil_left_iff.mp batch.answers
  cons h := allocatePrefixes_cons Validator.hereditary_withChecks h
  later h halike hsame := allocatePrefixes_redated halike hsame h
  alike halike := halike.withPrefixes rfl
  extend_nil := (Catalog.inserts_prefix Catalog.epoch).extend_nil
  extend_cons := (Catalog.inserts_prefix Catalog.epoch).extend_cons

theorem divides_addresses : Divides (Validator.withChecks globally permissions checks) checks
    (fun now c requests => allocateAddresses (Validator.withChecks globally permissions checks) now c parent requests)
    (fun requests => .operation (.allocateAddresses parent requests)) Created.addressRecord Catalog.withAddresses
    AddressRecord.redated where
  perform {_ c _ r} h := ⟨.addresses r, congrArg (c.allocated · Reply.addresses) h, rfl⟩
  nil h := List.forall₂_nil_left_iff.mp (allocateAddresses_eq_ok h).1.answers
  cons h := allocateAddresses_cons Validator.hereditary_withChecks h
  later h halike hsame := allocateAddresses_redated halike hsame h
  alike halike := halike.withAddresses rfl
  extend_nil := (Catalog.inserts_address Catalog.epoch).extend_nil
  extend_cons := (Catalog.inserts_address Catalog.epoch).extend_cons

/-- What succeeds as a batch succeeds one by one: each call creates the record of its item, and the last catalog is that
of the batch. With other clocks the new records differ in their times alone, if these make no difference to the checks. -/
theorem batch_eq_oneByOne (store : Store) (lock : Lock) (lockScope : LockScope) (globally : Bool)
    (permissions : Validator.Permissions) (checks : List (Created → Option Rejection)) (now : Clock) (c : Catalog) :
    let a := Allocator.of store lock lockScope globally permissions (checks.map fun check r _ => check r)
    (∀ id requests r, let call := fun requests => Task.operation (.allocatePrefixes id requests)
      (∀ s, a.Manages c [(now, call requests)] s → (a.allocatePrefixes id requests).outcome { s with clock := now } = .ok r →
        allocatePrefixes a.validators now c id requests = .ok r) ∧
      (allocatePrefixes a.validators now c id requests = .ok r →
        let items := requests.map fun x => call [x]
        r.catalog = c.withPrefixes r.created ∧
        a.Creates c [(now, call requests)] [r.created.map .prefixRecord] r.catalog ∧
        a.Creates c (items.map fun item => (now, item)) (r.created.map fun q => [.prefixRecord q]) r.catalog ∧
        ∀ clocks : List Clock, clocks.length = requests.length → SameVerdicts checks clocks (r.created.map .prefixRecord) →
          let records := clocks.zipWith PrefixRecord.redated r.created
          a.Creates c (clocks.zip items) (records.map fun q => [.prefixRecord q]) (c.withPrefixes records))) ∧
    (∀ parent requests r, let call := fun requests => Task.operation (.allocateAddresses parent requests)
      (∀ s, a.Manages c [(now, call requests)] s → (a.allocateAddresses parent requests).outcome { s with clock := now } = .ok r →
        allocateAddresses a.validators now c parent requests = .ok r) ∧
      (allocateAddresses a.validators now c parent requests = .ok r →
        let items := requests.map fun x => call [x]
        r.catalog = c.withAddresses r.created ∧
        a.Creates c [(now, call requests)] [r.created.map .addressRecord] r.catalog ∧
        a.Creates c (items.map fun item => (now, item)) (r.created.map fun h => [.addressRecord h]) r.catalog ∧
        ∀ clocks : List Clock, clocks.length = requests.length → SameVerdicts checks clocks (r.created.map .addressRecord) →
          let records := clocks.zipWith AddressRecord.redated r.created
          a.Creates c (clocks.zip items) (records.map fun h => [.addressRecord h]) (c.withAddresses records))) := by
  intro a
  refine ⟨fun id requests r => ⟨fun s hs hr => ?_, fun h => ?_⟩, fun parent requests r => ⟨fun s hs hr => ?_, fun h => ?_⟩⟩
  · exact hs.batch_of_ok rfl (fun _ _ => rfl) hr
  · obtain ⟨p, batch, hcatalog⟩ := allocatePrefixes_eq_ok h
    have hnow : ∀ q ∈ r.created, q.redated now = q := fun q hq => by
      obtain ⟨req, hreq⟩ := batch.answered hq
      rw [PrefixRecord.redated, ← hreq.created]
      rfl
    refine ⟨hcatalog, Allocator.creates_of_told (divides_prefixes.run_batch h), Allocator.creates_of_told ?_,
      fun clocks hlength hsame => Allocator.creates_of_told (divides_prefixes.run_items hlength (.refl c) h hsame)⟩
    exact divides_prefixes.run_items_now h batch.answers.length_eq hcatalog hnow fun _ _ => rfl
  · exact hs.batch_of_ok rfl (fun _ _ => rfl) hr
  · obtain ⟨batch, hcatalog⟩ := allocateAddresses_eq_ok h
    have hnow : ∀ x ∈ r.created, x.redated now = x := fun x hx => by
      obtain ⟨req, -, hreq⟩ := exists_left_of_mem batch.answers hx
      rw [AddressRecord.redated, ← hreq.created]
      rfl
    refine ⟨hcatalog, Allocator.creates_of_told (divides_addresses.run_batch h), Allocator.creates_of_told ?_,
      fun clocks hlength hsame => Allocator.creates_of_told (divides_addresses.run_items hlength (.refl c) h hsame)⟩
    exact divides_addresses.run_items_now h batch.answers.length_eq hcatalog hnow fun _ _ => rfl

/-! ### Items of a small catalog -/

/-- A check of the record alone, which leaves no network of length 24 to be created. -/
def Created.noWholePrefix (r : Created) : Option Rejection :=
  if r.network.length = 24 then some (.permission "too large") else none

def threePrefixes : List PrefixRequest :=
  prefixesOf [26, 32, 27]

def twoAddresses : List AddressRequest :=
  [⟨.active, "a", .blank⟩, ⟨.dhcp, "b", .blank⟩]

/-- An allocator in memory, with a check of its own. -/
def checkedBy (check : Created → Option Rejection) : Allocator :=
  .of .memory .inProcess .global true .all [fun r _ => check r]

def nestedPrefixes : Except Refusal (Allocated PrefixRecord) :=
  allocatePrefixes (checkedBy Created.noWholePrefix).validators Catalog.epoch Catalog.nested 1 threePrefixes

def nestedAddresses : Except Refusal (Allocated AddressRecord) :=
  allocateAddresses (checkedBy Created.noWholePrefix).validators Catalog.epoch Catalog.nested (.prefixRecord 2) twoAddresses

/-- The three prefixes and the two addresses come out the same one by one, at the same time and on different days. -/
theorem batch_eq_oneByOne_nested :
    let a := checkedBy Created.noWholePrefix
    (∃ r, nestedPrefixes = .ok r ∧ r.created.map (·.network.address.value) = [0x0a000080, 0x0a0000c0, 0x0a0000e0] ∧
      let items := threePrefixes.map fun x => Task.operation (.allocatePrefixes 1 [x])
      let days : List Clock := [Catalog.epoch, Catalog.nextDay, Catalog.epoch]
      let records := days.zipWith PrefixRecord.redated r.created
      a.Creates .nested (items.map fun item => (Catalog.epoch, item)) (r.created.map fun q => [.prefixRecord q]) r.catalog ∧
        a.Creates .nested (days.zip items) (records.map fun q => [.prefixRecord q]) (Catalog.nested.withPrefixes records)) ∧
    (∃ r, nestedAddresses = .ok r ∧ r.created.map (·.host.address.value) = [0x0a000000, 0x0a000001] ∧
      let items := twoAddresses.map fun x => Task.operation (.allocateAddresses (.prefixRecord 2) [x])
      let days : List Clock := [Catalog.nextDay, Catalog.epoch]
      let records := days.zipWith AddressRecord.redated r.created
      a.Creates .nested (items.map fun item => (Catalog.epoch, item)) (r.created.map fun h => [.addressRecord h]) r.catalog ∧
        a.Creates .nested (days.zip items) (records.map fun h => [.addressRecord h]) (Catalog.nested.withAddresses records)) := by
  have hsame : ∀ clocks created, SameVerdicts [Created.noWholePrefix] clocks created := by
    intro clocks created r _ check hcheck
    obtain rfl := List.mem_singleton.mp hcheck
    cases r.2 <;> rfl
  have hprefixes : (nestedPrefixes.toOption.map fun r => r.created.map (·.network.address.value)) =
      some [0x0a000080, 0x0a0000c0, 0x0a0000e0] := by decide +kernel
  have haddresses : (nestedAddresses.toOption.map fun r => r.created.map (·.host.address.value)) =
      some [0x0a000000, 0x0a000001] := by decide +kernel
  obtain ⟨r, hr, hnetworks⟩ := toOption_map_eq_some hprefixes
  obtain ⟨r', hr', hhosts⟩ := toOption_map_eq_some haddresses
  obtain ⟨hbatch, hbatch'⟩ :=
    batch_eq_oneByOne .memory .inProcess .global true .all [Created.noWholePrefix] Catalog.epoch Catalog.nested
  obtain ⟨-, -, hnow, hlater⟩ := (hbatch 1 threePrefixes r).2 hr
  obtain ⟨-, -, hnow', hlater'⟩ := (hbatch' (.prefixRecord 2) twoAddresses r').2 hr'
  exact ⟨⟨r, hr, hnetworks, hnow, hlater _ rfl (hsame _ _)⟩, ⟨r', hr', hhosts, hnow', hlater' _ rfl (hsame _ _)⟩⟩

/-! ### Where items are no batch -/

/-- An allocator whose path to the catalog leads through a directory that is not there. -/
def acrossGap : Allocator :=
  .of (.file "a/../ipam.json") .inProcess .global true .all []

theorem allocate_acrossGap {text : String} {r : Allocated PrefixRecord}
    (hload : Store.load Catalog.epoch (Allocator.filled text) "a/../ipam.json" = .ok c)
    (h : allocatePrefixes acrossGap.validators Catalog.epoch c 1 [] = .ok r) :
    (acrossGap.allocatePrefixes 1 []).outcome (Allocator.stocked text) = .ok r := by
  have hopen : acrossGap.OpensAt (Allocator.stocked text) (.of .prefixes (.prefixRecord 1) acrossGap.lockScope) c
      (Allocator.openedGap text) := Allocator.opensAt_acrossGap rfl rfl hload
  exact (Allocator.transact_accepted _ _ hopen h).1 rfl

/-- A request for a quarter of the prefix. -/
def quarterOfWhole : Task :=
  .operation (.allocatePrefixes 1 (prefixesOf [26]))

/-- One by one, a check that goes by the time refuses what it has let pass in the batch. And where a call makes the way to the
catalog, one without requests leaves something else than no call at all. -/
theorem batch_ne_oneByOne :
    (∃ r, ((checkedBy Created.punctual).allocatePrefixes 1 (prefixesOf [26, 26])).outcome (Allocator.site .whole) = .ok r ∧
      r.created.map (·.id) = [2, 3]) ∧
    ((checkedBy Created.punctual).run (Allocator.site .whole)
        [(Catalog.epoch, quarterOfWhole), (Catalog.nextDay, quarterOfWhole)]).map Observation.failure? =
      [none, some (.refused (.denied "too late"))] ∧
    let s := Allocator.stocked Catalog.nested.text
    ∃ r, (acrossGap.allocatePrefixes 1 []).outcome s = .ok r ∧ r.created = [] ∧
      (∀ now, acrossGap.store.kept now ((acrossGap.allocatePrefixes 1 []).after s) = .ok .nested) ∧
      ∀ now, acrossGap.store.kept now (acrossGap.leave s []) = .ok .empty := by
  have hbatch : (((checkedBy Created.punctual).allocatePrefixes 1 (prefixesOf [26, 26])).outcome
      (Allocator.site .whole)).toOption.map (fun r => r.created.map (·.id)) = some [2, 3] := by decide +kernel
  have hempty : (allocatePrefixes acrossGap.validators Catalog.epoch .nested 1 []).toOption.map
      (fun r => (r.created, r.catalog)) = some ([], .nested) := by decide +kernel
  obtain ⟨r', hr', hids⟩ := toOption_map_eq_some hbatch
  obtain ⟨r, hr, hnone⟩ := toOption_map_eq_some hempty
  obtain ⟨hcreated, hcatalog⟩ := Prod.mk.inj hnone
  refine ⟨⟨r', hr', hids⟩, by decide +kernel, ?_⟩
  intro s
  have hdone : (acrossGap.allocatePrefixes 1 []).outcome s = .ok r := allocate_acrossGap (Allocator.load_filled .nested) hr
  have hbefore : ∀ now, acrossGap.store.kept now (acrossGap.leave s []) = .ok .empty :=
    fun now => Allocator.kept_stocked now Catalog.nested.text
  clear_value s
  exact ⟨r, hdone, hcreated, fun now => hcatalog ▸ Allocator.kept_of_ok hdone now, hbefore⟩

end AddressPlan
