import AddressPlan.Proofs.Allocation.FirstFit
import AddressPlan.Proofs.Space.Placement

/-!
Batches in which no block is larger than one before it. For these, taking the lowest fit never costs a block: a batch is
refused for want of room only if its blocks cannot be placed in the parent at all.
-/

namespace AddressPlan

open Net

variable {validators : List Validator} {now : Clock} {c : Catalog} {id : RecordId} {p : PrefixRecord} {s : Scope}
  {requests : List PrefixRequest} {lengths : List Nat}

/-- A batch with the largest blocks first is refused for want of room exactly if its blocks have no placement. -/
theorem noRoom_iff_no_placement (hsorted : lengths.Pairwise (· ≤ ·)) (hp : c.prefix? id = some p)
    (hs : c.scope (.prefixRecord id) .prefixes = .ok s) (hadmits : List.Forall₂ p.Admits requests lengths) :
    (∃ n label l, allocatePrefixes validators now c id requests = .error (.noRoom n label l)) ↔
      ¬ ∃ ns, Placement (p.Leaves s.children) lengths ns := by
  obtain ⟨p, hp', -, hmask, hfamily, hfree⟩ := Catalog.scope_of_prefix hs
  obtain rfl := Option.some.inj (hp'.symm.trans hp)
  have hl := checkLengths_of_admits hmask hfamily hadmits
  have hplaced : (∃ ns, s.space.takeNetworks lengths = .ok ns) ↔ ∃ ns, Placement (p.Leaves s.children) lengths ns :=
    (Space.takeNetworks_complete (Catalog.space_ascending s) hsorted).trans
      (exists_congr fun _ => Placement.congr_iff hfree)
  rw [← hplaced]
  constructor
  · rintro ⟨n, label, l, hroom⟩ ⟨ns, hns⟩
    exact nomatch ((allocatePrefixes_eq_noRoom_iff hs hl).mp hroom).2.2.symm.trans hns
  · intro hnone
    cases htake : s.space.takeNetworks lengths with
    | error l => exact ⟨_, _, l, (allocatePrefixes_eq_noRoom_iff hs hl).mpr ⟨rfl, rfl, htake⟩⟩
    | ok ns => exact absurd ⟨ns, htake⟩ hnone

/-- After any carvings of a computed space, networks can be carved for lengths of which none is smaller than one before it
exactly if disjoint free networks of these lengths exist. So a batch of prefixes in this order is refused for want of room
exactly if its blocks have no placement among the addresses that the children leave, and so is a call. -/
theorem largestFirst_complete (lengths : List Nat) (hsorted : lengths.Pairwise (· ≤ ·)) :
    (∀ (parent : Block) (children : List Block) (ks : List Space.Carving),
      let sp := ((Space.compute parent children).carveAll ks).1
      (∃ ns, sp.takeNetworks lengths = .ok ns) ↔ ∃ ns, Placement (· ∈ sp) lengths ns) ∧
    ∀ (validators : List Validator) (now : Clock) (c : Catalog) (id : RecordId) (p : PrefixRecord) (s : Scope)
      (requests : List PrefixRequest), c.prefix? id = some p → c.scope (.prefixRecord id) .prefixes = .ok s →
      List.Forall₂ p.Admits requests lengths →
      ((∃ n label l, allocatePrefixes validators now c id requests = .error (.noRoom n label l)) ↔
        ¬ ∃ ns, Placement (p.Leaves s.children) lengths ns) ∧
      ∀ (a : Allocator) (t u : Site), a.OpensAt t (.of .prefixes (.prefixRecord id) a.lockScope) c u →
        ((∃ n label l, (a.allocatePrefixes id requests).outcome t = .error (.refused (.noRoom n label l))) ↔
          ¬ ∃ ns, Placement (p.Leaves s.children) lengths ns) := by
  constructor
  · intro parent children ks sp
    exact Space.takeNetworks_complete (Space.carveAll_without ks (Space.compute_ascending parent children)).ascending hsorted
  · intro validators now c id p s requests hp hs hadmits
    refine ⟨noRoom_iff_no_placement hsorted hp hs hadmits, fun a t u hopen => ?_⟩
    rw [← noRoom_iff_no_placement hsorted hp hs hadmits]
    exact exists_congr fun n => exists_congr fun label => exists_congr fun l =>
      (Allocator.allocatePrefixes_comesTo requests hopen).refused (.noRoom n label l)

/-- Half of a prefix is left. Two halves have no placement in it and are refused; a quarter and two eighths have one. -/
theorem largestFirst_complete_nested : ∃ s p, Catalog.nested.scope (.prefixRecord 1) .prefixes = .ok s ∧
    Catalog.nested.prefix? 1 = some p ∧
    (List.Forall₂ p.Admits (prefixesOf [25, 25]) [25, 25] ∧ [25, 25].Pairwise (· ≤ ·) ∧
      (¬ ∃ ns, Placement (p.Leaves s.children) [25, 25] ns) ∧
      ∃ n label l, (Allocator.unchecked.allocatePrefixes 1 (prefixesOf [25, 25])).outcome (Allocator.site .nested) =
        .error (.refused (.noRoom n label l))) ∧
    List.Forall₂ p.Admits (prefixesOf [26, 27, 27]) [26, 27, 27] ∧ [26, 27, 27].Pairwise (· ≤ ·) ∧
      ∃ ns, Placement (p.Leaves s.children) [26, 27, 27] ns := by
  obtain ⟨s, hs⟩ : ∃ s, Catalog.nested.scope (.prefixRecord 1) .prefixes = .ok s := ⟨_, rfl⟩
  obtain ⟨p, hp, hlen, hwidth⟩ : ∃ p, Catalog.nested.prefix? 1 = some p ∧ p.network.length = 24 ∧ p.network.family.width = 32 :=
    ⟨_, rfl, rfl, rfl⟩
  have hadmits : ∀ length : Nat, 24 ≤ length → length ≤ 32 → p.Admits ⟨some length, .active, .blank⟩ length :=
    fun length hmin hmax => ⟨rfl, hlen ▸ hmin, hwidth ▸ hmax⟩
  have hhalves : List.Forall₂ p.Admits (prefixesOf [25, 25]) [25, 25] :=
    .cons (hadmits 25 (by decide) (by decide)) (.cons (hadmits 25 (by decide) (by decide)) .nil)
  have hpieces : List.Forall₂ p.Admits (prefixesOf [26, 27, 27]) [26, 27, 27] :=
    .cons (hadmits 26 (by decide) (by decide))
      (.cons (hadmits 27 (by decide) (by decide)) (.cons (hadmits 27 (by decide) (by decide)) .nil))
  have hsame : [25, 25].Pairwise (· ≤ ·) := by decide
  have hsorted : [26, 27, 27].Pairwise (· ≤ ·) := by decide
  have hfull : (allocatePrefixes [] Catalog.epoch .nested 1 (prefixesOf [25, 25])).map (fun _ => ()) =
      .error (.noRoom 2 "10.0.0.0/24" 25) := by decide +kernel
  have hfits : (allocatePrefixes [] Catalog.epoch .nested 1 (prefixesOf [26, 27, 27])).map (fun _ => ()) = .ok () := by
    decide +kernel
  have hopen : Allocator.unchecked.OpensAt (Allocator.site .nested) (.global .prefixes) .nested _ :=
    Allocator.opensAt_memory rfl rfl List.not_mem_nil
  obtain ⟨hbatch, hcall⟩ := (largestFirst_complete [25, 25] hsame).2 [] Catalog.epoch .nested 1 p s _ hp hs hhalves
  have hnone : ¬ ∃ ns, Placement (p.Leaves s.children) [25, 25] ns := hbatch.mp ⟨_, _, _, map_eq_error.mp hfull⟩
  refine ⟨s, p, hs, hp, ⟨hhalves, hsame, hnone, (hcall _ _ _ hopen).mpr hnone⟩, hpieces, hsorted, ?_⟩
  by_contra hnone
  obtain ⟨n, label, l, hroom⟩ :=
    ((largestFirst_complete [26, 27, 27] hsorted).2 [] Catalog.epoch .nested 1 p s _ hp hs hpieces).1.mpr hnone
  rw [hroom] at hfits
  cases hfits

end AddressPlan
