import AddressPlan.Proofs.Allocation.Listing
import AddressPlan.Proofs.Allocation.Operations
import AddressPlan.Service.Basic

/-!
What the service answers for a catalog in memory. Its requests go on with the run that has made the catalog, so the
catalog stays sound, and on a sound catalog no failure is the service's own unless a lock cannot be had.
-/

namespace AddressPlan

variable {α : Type} {a : Allocator} {s : Site} {c : Catalog} {parent : Parent} {mode : Mode} {ts : List Attempt}

/-- A failure that is nobody's fault outside. To wait is no failure. -/
def AllocationError.isInternal : AllocationError → Bool
  | .lock (.taken _) | .store (.io _ .locked) => false
  | .refused (.catalog (.notFound ..)) | .store (.catalog (.notFound ..)) => false
  | .refused (.badLengths ..) | .refused (.noRoom ..) | .refused (.tooFew ..) => false
  | .refused .exhausted | .refused (.rejected _) | .refused (.denied _) => false
  | _ => true

theorem AllocationError.AfterScope.not_internal {e : AllocationError} (h : e.AfterScope .memory) : e.isInternal = false := by
  cases e with
  | refused why =>
    cases why with
    | catalog e => exact h.elim
    | block e => exact h.elim
    | _ => rfl
  | store e =>
    cases e with
    | io path why =>
      cases why with
      | fault e => exact absurd rfl h
      | locked => rfl
    | _ => exact h.elim
  | lock e => exact h.elim

namespace Allocator

/-- The lock of an allocation can be had. -/
def Locks (a : Allocator) (s : Site) (mode : Mode) (parent : Parent) : Prop :=
  ∃ t, a.lock.acquire (.of mode parent a.lockScope) s = .ok () t

/-- In memory there is nothing that a lock could keep a transaction from. -/
theorem opens_of_locks (ha : a.store = .memory) (h : a.Locks s mode parent) :
    a.Opens s (.of mode parent a.lockScope) s.memory := by
  obtain ⟨t, hlock⟩ := h
  have hgrows := a.lock.acquire_ends (.of mode parent a.lockScope) s (List.Subset.refl _) (List.Subset.refl _)
  rw [Act.Ends, hlock] at hgrows
  refine ⟨t, t, hlock, ?_⟩
  rw [ha, ← hgrows.memory]
  rfl

theorem settled_memory (ha : a.store = .memory) (key : LockKey) : a.Settled s key := by
  rw [Settled, ha]
  trivial

theorem kept_memory (ha : a.store = .memory) (now : Clock) : a.store.kept now s = .ok s.memory := by
  rw [ha]
  rfl

theorem transact_fails {batch : Clock → Catalog → Except Refusal (Allocated α)} {done : Allocated α → Event}
    (ha : a.store = .memory) (hc : s.memory.Sound) (hb : Batched batch mode parent) :
    (a.transact mode parent batch done).Fails s fun e => e.isInternal = true → ¬ a.Locks s mode parent := by
  intro e he hinternal hlocks
  have hopens := opens_of_locks ha hlocks
  by_cases hp : s.memory.Has parent
  · obtain ⟨scope, hscope⟩ := hc.scope hp mode
    have hafter := transact_afterScope hb hopens hscope e he
    rw [ha] at hafter
    rw [hafter.not_internal] at hinternal
    cases hinternal
  · rw [transact_of_refused hopens fun now => hb.withoutScope now _ _ (Catalog.scope_of_not_has hp mode)] at he
    cases he
    cases hinternal

theorem listing_fails {event : Scope → Event} {tell : Scope → α} (ha : a.store = .memory) (hc : s.memory.Sound) :
    (a.listing parent mode event tell).Fails s fun e => e.isInternal = false := by
  intro e he
  rw [Act.error?, listing_apply (kept_memory ha s.clock)] at he
  by_cases hp : s.memory.Has parent
  · obtain ⟨scope, hscope⟩ := hc.scope hp mode
    rw [hscope] at he
    cases he
  · rw [Catalog.scope_of_not_has hp] at he
    cases he
    rfl

end Allocator

namespace Service

/-! ### Answers -/

theorem answerError_ends (isMany : Bool) (e : AllocationError) (s : Site) :
    (answerError isMany e).Ends s (fun r t => (r.status = 500 → e.isInternal = true) ∧ (t = s ∨ ∃ e, t = s.note e))
      fun t => t = s := by
  unfold answerError
  split
  case h_1 | h_2 | h_3 => exact .throw rfl
  case h_11 =>
    refine .note_bind (.pure ⟨fun _ => ?_, Or.inr ⟨_, rfl⟩⟩)
    unfold AllocationError.isInternal
    split <;> simp_all
  all_goals exact .pure ⟨nofun, Or.inl rfl⟩

/-- An answer has the status 500 only if the action fails on its own, and has no effect beyond that of the action. -/
theorem answer_ends {st : Store} {isMany : Bool} {act : Act AllocationError α} {respond : α → Response} {P : Prop}
    (hrespond : ∀ r, (respond r).status ≠ 500) (hends : act.Ends s (fun _ => st.Follows ts) (st.Follows ts))
    (hfails : act.Fails s fun e => e.isInternal = true → P) :
    (answer isMany act respond).Ends s (fun r t => (r.status = 500 → P) ∧ st.Follows ts t) (st.Follows ts) := by
  unfold Act.Ends at hends
  cases hact : act s with
  | ok x t =>
    have hanswer : answer isMany act respond s = .ok (respond x) t := by simp only [answer, hact]
    rw [hact] at hends
    rw [Act.Ends, hanswer]
    exact ⟨fun h => absurd h (hrespond x), hends⟩
  | error e t =>
    have hanswer : answer isMany act respond s = answerError isMany e t := by simp only [answer, hact]
    rw [hact] at hends
    rw [Act.Ends, hanswer]
    refine (answerError_ends isMany e t).mono ?_ ?_
    · rintro r u ⟨hstatus, hu⟩
      refine ⟨fun h => hfails e (Act.error?_error hact) (hstatus h), ?_⟩
      rcases hu with rfl | ⟨event, rfl⟩
      · exact hends
      · exact hends.note event
    · rintro u rfl
      exact hends

inductive Request where
  | getPrefixes (id : RecordId)
  | getAddresses (parent : Parent) (limit : Option String) (pages : Pagination)
  | postPrefixes (id : RecordId) (body : Json)
  | postAddresses (parent : Parent) (body : Json)

namespace Request

def answer (a : Allocator) : Request → Act IdsExhausted Response
  | getPrefixes id => Service.getPrefixes a id
  | getAddresses parent limit pages => Service.getAddresses a parent limit pages
  | postPrefixes id body => Service.postPrefixes a id body
  | postAddresses parent body => Service.postAddresses a parent body

/-- The lock that a request needs can be had. Listings need none. -/
def Locks (a : Allocator) (s : Site) : Request → Prop
  | getPrefixes _ | getAddresses .. => True
  | postPrefixes id _ => a.Locks s .prefixes (.prefixRecord id)
  | postAddresses parent _ => a.Locks s .addresses parent

theorem answer_follows (q : Request) (ha : a.store = .memory) (hs : s.memory = Catalog.empty.outcome ts) :
    (q.answer a).Ends s (fun r t => (r.status = 500 → ¬ q.Locks a s) ∧ a.store.Follows ts t) (a.store.Follows ts) := by
  have hsound : s.memory.Sound := by
    rw [hs]
    exact Catalog.sound_empty.outcome ts
  have hkept := a.kept_memory (s := s) ha
  have hruns : ∀ now, a.store.kept now s = .ok (Catalog.empty.outcome ts) := fun now => by
    rw [hkept, hs]
  have hfollows := Store.follows_of_kept hruns
  obtain ⟨hprefixes, haddresses, -⟩ := Allocator.calls_follow hruns
  cases q with
  | getPrefixes id =>
    refine answer_ends (fun _ => by simp [Response.listing]) (Allocator.listing_follows (hkept _) hfollows) fun e he h => ?_
    rw [Allocator.listing_fails ha hsound e he] at h
    cases h
  | getAddresses parent limit pages =>
    refine answer_ends (fun _ => by simp [Response.listing]) (Allocator.listing_follows (hkept _) hfollows) fun e he h => ?_
    rw [Allocator.listing_fails ha hsound e he] at h
    cases h
  | postPrefixes id body =>
    simp only [answer, Service.postPrefixes]
    split
    · exact .pure ⟨nofun, hfollows⟩
    · exact answer_ends (fun _ => by simp [Response.created]) (hprefixes _ _ (Allocator.settled_memory ha _))
        (Allocator.transact_fails ha hsound (batched_prefixes _ _ _))
  | postAddresses parent body =>
    simp only [answer, Service.postAddresses]
    split
    · exact .pure ⟨nofun, hfollows⟩
    · exact answer_ends (fun _ => by simp [Response.created]) (haddresses _ _ (Allocator.settled_memory ha _))
        (Allocator.transact_fails ha hsound (batched_addresses _ _ _))

end Request

/-- Whatever calls have led to a catalog, its ids are distinct, its references lead to routing domains and its ranges fit;
a scope fails to load exactly if the parent is not there, which is then what is not found; and every operation that gets
to the catalog reports its parent as not found exactly then. Where the catalog is in memory, no request is answered with
500 unless its lock cannot be had, and what is in memory after it is again what calls have led to. -/
theorem runs_keep_integrity (ts : List Attempt) :
    (Catalog.empty.outcome ts).Sound ∧
    (∀ parent mode, ((Catalog.empty.outcome ts).Has parent → ∃ scope, (Catalog.empty.outcome ts).scope parent mode = .ok scope) ∧
      (¬ (Catalog.empty.outcome ts).Has parent →
        (Catalog.empty.outcome ts).scope parent mode = .error (.notFound parent.kind parent.id))) ∧
    (∀ (a : Allocator) (s : Site) (op : Operation), op.Finds a s (Catalog.empty.outcome ts) →
      Reports (Catalog.empty.outcome ts) op.parent (op.error? a s)) ∧
    ∀ (a : Allocator) (s : Site) (q : Request), a.store = .memory → s.memory = Catalog.empty.outcome ts →
      (q.answer a).Ends s (fun r t => (r.status = 500 → ¬ q.Locks a s) ∧ a.store.Follows ts t) (a.store.Follows ts) := by
  have hsound : (Catalog.empty.outcome ts).Sound := Catalog.sound_empty.outcome ts
  refine ⟨hsound, fun parent mode => ⟨fun hp => hsound.scope hp mode, fun hp => Catalog.scope_of_not_has hp mode⟩, ?_, ?_⟩
  · exact fun a s op h => op.reports hsound h
  · exact fun a s q ha hs => q.answer_follows ha hs

/-- A run that starts with a prefix and one nested in it. -/
def seeded : List Attempt :=
  [⟨[], Catalog.epoch, .seed .nested⟩]

theorem runs_keep_integrity_seeded :
    Catalog.empty.outcome seeded = .nested ∧
    (Catalog.nested.Has (.prefixRecord 1) ∧ ∃ scope, Catalog.nested.scope (.prefixRecord 1) .prefixes = .ok scope) ∧
    (¬ Catalog.nested.Has (.rangeRecord 1) ∧ Catalog.nested.scope (.rangeRecord 1) .addresses = .error (.notFound .rangeRecord 1)) ∧
    ((Operation.allocatePrefixes 3 []).Finds Allocator.inMemory (Allocator.site .nested) .nested ∧
      Reports .nested (.prefixRecord 3) ((Operation.allocatePrefixes 3 []).error? Allocator.inMemory (Allocator.site .nested))) ∧
    Allocator.inMemory.store = .memory ∧ (Allocator.site .nested).memory = Catalog.empty.outcome seeded ∧
    ((Request.postAddresses (.prefixRecord 1) .null).answer Allocator.inMemory).Ends (Allocator.site .nested)
      (fun r t => r.status ≠ 500 ∧ Allocator.inMemory.store.Follows seeded t) (Allocator.inMemory.store.Follows seeded) := by
  have hrun : Catalog.empty.outcome seeded = .nested := by decide +kernel
  obtain ⟨-, hscope, hreports, hanswer⟩ := runs_keep_integrity seeded
  rw [hrun] at hscope hreports
  have hhas : Catalog.nested.Has (.prefixRecord 1) := ⟨_, List.mem_cons_self, rfl⟩
  have hnot : ¬ Catalog.nested.Has (.rangeRecord 1) := fun ⟨_, hr, _⟩ => List.not_mem_nil hr
  have hfinds : (Operation.allocatePrefixes 3 []).Finds Allocator.inMemory (Allocator.site .nested) .nested :=
    ⟨_, _, rfl, rfl⟩
  have hlocks : (Request.postAddresses (.prefixRecord 1) .null).Locks Allocator.inMemory (Allocator.site .nested) := ⟨_, rfl⟩
  refine ⟨hrun, ⟨hhas, (hscope _ _).1 hhas⟩, ⟨hnot, (hscope _ _).2 hnot⟩, ⟨hfinds, hreports _ _ _ hfinds⟩, rfl, hrun.symm, ?_⟩
  exact (hanswer _ _ _ rfl hrun.symm).mono (fun r t ⟨hstatus, ht⟩ => ⟨fun h => hstatus h hlocks, ht⟩) fun _ ht => ht

end Service

end AddressPlan
