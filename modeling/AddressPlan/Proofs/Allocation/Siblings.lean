import AddressPlan.Proofs.Allocation.History

/-!
Prefixes created from one parent over a run. A created prefix that is longer than the parent is a child of it, so
later batches leave it alone. One that is as long as the parent is never a child, although it takes all of the
parent, and whatever is created after it overlaps it.
-/

namespace AddressPlan

open Net

def PrefixRecord.Apart (q r : PrefixRecord) : Prop :=
  ∀ a ∈ q.network, a ∉ r.network

/-! ### One batch -/

theorem Catalog.prefix?_eq_some {c : Catalog} {id : RecordId} {p : PrefixRecord} (h : c.prefix? id = some p) :
    p ∈ c.prefixes ∧ p.id = id :=
  ⟨List.mem_of_find?_eq_some h, by simpa using List.find?_some h⟩

namespace PrefixBatch

variable {c : Catalog} {now : Clock} {id : RecordId} {requests : List PrefixRequest} {p q r : PrefixRecord}
  {created : List PrefixRecord}

theorem answered (h : PrefixBatch c now id requests p created) (hq : q ∈ created) : ∃ req, p.Answers now req q := by
  obtain ⟨req, -, hreq⟩ := exists_left_of_mem h.answers hq
  exact ⟨req, hreq⟩

/-- The addresses of a created prefix are in the parent, and in none of its children. -/
theorem free_of_mem (h : PrefixBatch c now id requests p created) (hq : q ∈ created) {a : Address} (ha : a ∈ q.network) :
    a ∈ p.network ∧ ¬ c.InChildPrefix p a := by
  obtain ⟨p', hp', hin, hfree⟩ := (h.vacant q hq).2 a ha
  cases h.found.symm.trans hp'
  exact ⟨hin, hfree⟩

/-- A prefix strictly inside the parent, in its routing domain, is left alone. -/
theorem apart_of_child (h : PrefixBatch c now id requests p created) (hq : q ∈ c.prefixes) (hid : q.id ≠ p.id)
    (hlong : p.network.length < q.network.length) (hin : ∀ a ∈ q.network, a ∈ p.network) (hvrf : q.vrf = p.vrf)
    (hr : r ∈ created) : q.Apart r := fun _ ha har =>
  (h.free_of_mem hr har).2 ⟨q, hq, hid, hlong, hin, Or.inr hvrf, ha⟩

/-- A created prefix that is as long as the parent has all of its addresses. -/
theorem covers (h : PrefixBatch c now id requests p created) (hq : q ∈ created)
    (hlen : q.network.length ≤ p.network.length) : ∀ a ∈ p.network, a ∈ q.network :=
  Network.subset_of_meets hlen q.network.lowest_mem (h.free_of_mem hq q.network.lowest_mem).1

/-- A created prefix is apart from another one inside the parent only if it is longer than the parent. -/
theorem longer_of_apart (h : PrefixBatch c now id requests p created) (hq : q ∈ created)
    (hr : ∀ a ∈ r.network, a ∈ p.network) (hapart : q.Apart r) : p.network.length < q.network.length := by
  apply Nat.lt_of_not_le
  intro hlen
  have hmem := r.network.lowest_mem
  exact hapart _ (h.covers hq hlen _ (hr _ hmem)) hmem

theorem id_ne (h : PrefixBatch c now id requests p created) (hq : q ∈ created) : q.id ≠ p.id := by
  intro heq
  refine h.fresh.not_mem (List.mem_map_of_mem hq) ?_
  rw [heq, Catalog.ids, List.append_assoc, List.append_assoc]
  exact List.mem_append_right _ (List.mem_append_left _ (List.mem_map_of_mem (Catalog.prefix?_eq_some h.found).1))

end PrefixBatch

/-! ### A run -/

/-- The prefixes that a step has created from the prefix of the given id. -/
def Step.createdFrom (id : RecordId) (s : Step) : List PrefixRecord :=
  match s.commit with
  | .prefixes parent created => if parent = id then created else []
  | _ => []

theorem Step.createdFrom_prefixes {id parent : RecordId} {before after : Catalog} {created : List PrefixRecord} :
    Step.createdFrom id ⟨before, .prefixes parent created, after⟩ = if parent = id then created else [] := rfl

namespace Catalog

variable {c : Catalog} {ts : List Attempt} {id : RecordId} {s s' : Step} {q r : PrefixRecord}

/-- The prefixes that a run has created from the prefix of the given id, in the order of their creation. -/
def createdFrom (c : Catalog) (ts : List Attempt) (id : RecordId) : List PrefixRecord :=
  (c.steps ts).flatMap (Step.createdFrom id)

/-- What a step has created from a prefix is one batch from it. -/
theorem batch_of_mem_createdFrom (hs : s ∈ c.steps ts) (hq : q ∈ s.createdFrom id) :
    ∃ now requests p, PrefixBatch s.before now id requests p (s.createdFrom id) ∧
      s.after = s.before.withPrefixes (s.createdFrom id) ∧ (c.outcome ts).prefix? id = some p := by
  obtain ⟨-, ⟨now, hcommitted⟩, hlater⟩ := (grown_steps ts c).2 s hs
  obtain ⟨before, commit, after⟩ := s
  dsimp only at hcommitted hlater
  cases hcommitted with
  | prefixes batch =>
    rename_i parent requests p created
    rw [Step.createdFrom_prefixes] at hq ⊢
    split at hq
    · rename_i hparent
      cases hparent
      rw [if_pos rfl]
      exact ⟨now, requests, p, batch, rfl, hlater.prefix? ((grown_withPrefixes before created).prefix? batch.found)⟩
    · exact absurd hq List.not_mem_nil
  | addresses => exact absurd hq List.not_mem_nil
  | seed => exact absurd hq List.not_mem_nil

/-- Of two prefixes of one batch, the first is longer than the parent. -/
theorem longer_of_same_step (hs : s ∈ c.steps ts) : (s.createdFrom id).Pairwise fun q r =>
    q.Apart r ∧ ∃ p, (c.outcome ts).prefix? id = some p ∧ p.network.length < q.network.length := by
  cases hcreated : s.createdFrom id with
  | nil => exact .nil
  | cons x xs =>
    obtain ⟨now, requests, p, batch, -, hp⟩ := batch_of_mem_createdFrom hs (hcreated ▸ List.mem_cons_self)
    rw [← hcreated]
    refine batch.apart.imp_of_mem fun {q r} hq hr hapart => ⟨hapart, p, hp, ?_⟩
    exact batch.longer_of_apart hq (fun a ha => (batch.free_of_mem hr ha).1) hapart

/-- A prefix is apart from one of a later batch exactly if it is longer than the parent. -/
theorem apart_iff_of_later_step (hs : s ∈ c.steps ts) (hs' : s' ∈ c.steps ts) (hlater : s.after.Grown s'.before)
    (hq : q ∈ s.createdFrom id) (hr : r ∈ s'.createdFrom id) :
    q.Apart r ↔ ∃ p, (c.outcome ts).prefix? id = some p ∧ p.network.length < q.network.length := by
  obtain ⟨now, requests, p, batch, hafter, hp⟩ := batch_of_mem_createdFrom hs hq
  obtain ⟨now', requests', p', batch', -, hp'⟩ := batch_of_mem_createdFrom hs' hr
  -- The parent is the same record at both steps.
  obtain rfl : p = p' := Option.some.inj (hp.symm.trans hp')
  constructor
  · intro hapart
    exact ⟨p, hp, batch.longer_of_apart hq (fun a ha => (batch'.free_of_mem hr ha).1) hapart⟩
  · rintro ⟨p', hp', hlong⟩
    obtain rfl : p = p' := Option.some.inj (hp.symm.trans hp')
    obtain ⟨req, hreq⟩ := batch.answered hq
    refine batch'.apart_of_child (hlater.prefixes.subset ?_) (batch.id_ne hq) hlong
      (fun a ha => (batch.free_of_mem hq ha).1) hreq.vrf hr
    rw [hafter]
    exact List.mem_append_right _ hq

/-- Over a whole run, a prefix is apart from one created later exactly if it is longer than the parent. -/
theorem createdFrom_pairwise : (c.createdFrom ts id).Pairwise fun q r =>
    q.Apart r ↔ ∃ p, (c.outcome ts).prefix? id = some p ∧ p.network.length < q.network.length := by
  rw [createdFrom, List.pairwise_flatMap]
  refine ⟨fun s hs => ?_, ?_⟩
  · exact (longer_of_same_step hs).imp fun ⟨hapart, hlong⟩ => iff_of_true hapart hlong
  · refine (steps_pairwise ts c).imp_of_mem fun hs hs' hlater q hq r hr => ?_
    exact apart_iff_of_later_step hs hs' hlater hq hr

/-- A relation that depends on the first of two elements only holds pairwise if all but the last have what it takes. -/
theorem pairwise_iff_dropLast {α : Type} {R : α → α → Prop} {P : α → Prop} : ∀ {as : List α},
    (as.Pairwise fun a b => R a b ↔ P a) → (as.Pairwise R ↔ ∀ a ∈ as.dropLast, P a)
  | [], _ => iff_of_true .nil fun _ ha => absurd ha List.not_mem_nil
  | [a], _ => iff_of_true (List.pairwise_singleton _ _) fun _ ha => absurd ha List.not_mem_nil
  | a :: b :: as, h => by
    obtain ⟨ha, htail⟩ := List.pairwise_cons.mp h
    have hhead : (∀ x ∈ b :: as, R a x) ↔ P a :=
      ⟨fun hall => (ha b List.mem_cons_self).mp (hall b List.mem_cons_self), fun hP x hx => (ha x hx).mpr hP⟩
    rw [List.pairwise_cons, hhead, pairwise_iff_dropLast htail,
      List.dropLast_cons_of_ne_nil (List.cons_ne_nil b as), List.forall_mem_cons]

/-- The prefixes created from one parent over a run are pairwise apart exactly if all of them, except for the last
one, are longer than the parent. -/
theorem createdFrom_apart_iff (c : Catalog) (ts : List Attempt) (id : RecordId) :
    (c.createdFrom ts id).Pairwise PrefixRecord.Apart ↔ ∀ q ∈ (c.createdFrom ts id).dropLast,
      ∃ p, (c.outcome ts).prefix? id = some p ∧ p.network.length < q.network.length :=
  pairwise_iff_dropLast createdFrom_pairwise

/-! ### A parent that is given out twice -/

/-- A batch of one prefix of the given length, out of the prefix whose id is one. -/
def onePrefix (length : Nat) : Attempt :=
  ⟨[], epoch, .prefixes 1 [⟨some length, .active, .blank⟩]⟩

/-- Two batches for a prefix as long as the parent both get the parent itself. -/
theorem createdFrom_parent_twice :
    ((ofPrefixes [(1, tenNet 24)]).createdFrom [onePrefix 24, onePrefix 24] 1).map (·.network) = [tenNet 24, tenNet 24] ∧
      ¬ ((ofPrefixes [(1, tenNet 24)]).createdFrom [onePrefix 24, onePrefix 24] 1).Pairwise PrefixRecord.Apart := by
  have hnetworks : ((ofPrefixes [(1, tenNet 24)]).createdFrom [onePrefix 24, onePrefix 24] 1).map (·.network) =
      [tenNet 24, tenNet 24] := by decide +kernel
  refine ⟨hnetworks, fun hapart => ?_⟩
  have hpair : [tenNet 24, tenNet 24].Pairwise fun m n => ∀ a ∈ m, a ∉ n := by
    rw [← hnetworks, List.pairwise_map]
    exact hapart
  have hmem := (tenNet 24).lowest_mem
  exact (List.pairwise_cons.mp hpair).1 (tenNet 24) List.mem_cons_self _ hmem hmem

end Catalog

end AddressPlan
