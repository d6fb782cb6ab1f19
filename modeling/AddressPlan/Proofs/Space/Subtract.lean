import AddressPlan.Proofs.Space.Canonical
import AddressPlan.Proofs.Space.Word

/-!
Taking one block out of another. What a block keeps is the space that is computed with the other one as the only child: its
networks if the block is a network, its spans if it is a range. A block that the other one does not meet is kept as it is,
and that is its own decomposition.
-/

namespace AddressPlan

open Net

namespace Net

/-- An aligned network is cut into nothing but itself. -/
theorem Span.split_ofNetwork {n : Network} (hn : n.Aligned) : (Span.ofNetwork n).split = [n] := by
  let s := Span.ofNetwork n
  have hhead : n = s.head := s.head_maximal.eq_of_subset n hn (fun _ ha => ha) s.head_subset
  have hnone : s.aboveValue? s.head.last = none :=
    aboveValue?_eq_none.mpr (Nat.le_of_eq (congrArg Network.last hhead))
  rw [split_of_none hnone, ← hhead]

theorem Span.length_minus_le (s t : Span) : (s.minus t).length ≤ 2 := by
  unfold minus
  split
  · rw [List.length_append, Option.length_toList, Option.length_toList]
    split <;> split <;> decide
  · exact Nat.le_succ 1

namespace Block

variable {b c : Block}

theorem order_of_last_lt (hf : b.family = c.family) (h : b.span.last < c.span.first) : b.order c = .lt := by
  have hlt : b.span.first < c.span.first := Nat.lt_of_le_of_lt b.span.first_le_last h
  rw [order, hf, Std.ReflOrd.compare_self, Nat.compare_eq_lt.mpr hlt]
  rfl

/-- Blocks of which one ends before the other one starts are in order and share no address. -/
theorem before_of_last_lt (hf : b.family = c.family) (h : b.span.last < c.span.first) :
    b.order c = .lt ∧ ∀ a ∈ b, a ∉ c :=
  ⟨order_of_last_lt hf h, fun _ hb hc => Nat.not_lt_of_le (Nat.le_trans hc.2.1 hb.2.2) h⟩

end Block

end Net

namespace Space

variable {a b : Block} {n : Network} {s : Span}

/-! ### One child -/

/-- The spans that one child leaves are those that its span leaves of the one of the parent. -/
theorem free_compute_single (a b : Block) : (compute a [b]).free = a.span.minus b.span :=
  (compute_ascending a [b]).ext (minus_ascending a.span b.span) fun x =>
    calc x ∈ compute a [b]
      _ ↔ x ∈ a ∧ x ∉ b := by rw [mem_compute, List.forall_mem_singleton]
      _ ↔ ∃ u ∈ a.span.minus b.span, x ∈ u := Span.mem_minus.symm

theorem subtract_network (hn : n.Aligned) (b : Block) :
    (Block.network n).subtract b = (compute (.network n) [b]).networks.map .network := by
  rw [networks, free_compute_single, Block.subtract]
  split
  · rw [List.map_flatMap]
  · rename_i hmeets
    have hkept : (Block.network n).span.minus b.span = [.ofNetwork n] := if_neg hmeets
    rw [hkept, List.flatMap_singleton, Span.split_ofNetwork hn, List.map_singleton]

theorem subtract_range (s : Span) (b : Block) : (Block.range s).subtract b = (compute (.range s) [b]).free.map .range := by
  rw [free_compute_single, Block.subtract]
  split
  · rfl
  · rename_i hmeets
    have hkept : (Block.range s).span.minus b.span = [s] := if_neg hmeets
    rw [hkept, List.map_singleton]

theorem length_subtract_range (s : Span) (b : Block) : ((Block.range s).subtract b).length ≤ 2 := by
  rw [subtract_range, List.length_map, free_compute_single]
  exact Span.length_minus_le _ _

/-- Either shape of block keeps the addresses that the other block does not have. -/
theorem mem_subtract (ha : a.Canonical) {x : Address} : (∃ c ∈ a.subtract b, x ∈ c) ↔ x ∈ a ∧ x ∉ b := by
  have hfree : x ∈ compute a [b] ↔ x ∈ a ∧ x ∉ b := by rw [mem_compute, List.forall_mem_singleton]
  rw [← hfree]
  cases a with
  | network n =>
    rw [subtract_network ha, ← (canonical_networks (compute_ascending _ _)).cover]
    simp only [List.mem_map, exists_exists_and_eq_and, Block.mem_network]
  | range s =>
    rw [subtract_range, mem_iff]
    simp only [List.mem_map, exists_exists_and_eq_and, Block.mem_range]

theorem subtract_pairwise (ha : a.Canonical) : (a.subtract b).Pairwise fun c d => c.order d = .lt ∧ ∀ x ∈ c, x ∉ d := by
  have hasc := compute_ascending a [b]
  cases a with
  | network n =>
    have hnetworks := canonical_networks hasc
    rw [subtract_network ha, List.pairwise_map]
    refine hnetworks.ascending.imp_of_mem fun {m n} hm hn hlt => ?_
    exact Block.before_of_last_lt ((hnetworks.family m hm).trans (hnetworks.family n hn).symm) hlt
  | range s =>
    rw [subtract_range, List.pairwise_map]
    refine hasc.gaps.imp_of_mem fun {s t} hs ht hgap => ?_
    exact Block.before_of_last_lt ((hasc.family s hs).trans (hasc.family t ht).symm) (Nat.lt_of_succ_lt hgap)

/-! ### On words -/

/-- What is left above a cut that ends with `stop`. -/
def restWords? (top stop : Word) : Option (List (Word × Word)) :=
  if stop < top then (stop.plus? 1).map fun start => [(start, top)] else some []

/-- The spans that a block keeps when another is taken out, in words. -/
def subtractWords? (a b : Block) : Option (List (Word × Word)) :=
  let own := a.span.words
  let cut := b.span.words
  if a.meets b then do
    let below ← belowWords? own.1 cut.1
    let above ← restWords? own.2 cut.2
    some (below ++ above)
  else some [own]

theorem restWords?_eq {own cut : Span} (hcut : own.first ≤ cut.last) :
    restWords? own.words.2 cut.words.2 = some ((own.above? cut).toList.map Span.words) := by
  unfold restWords?
  cases ha : own.above? cut with
  | none =>
    have hle := Span.aboveValue?_eq_none.mp ha
    rw [if_neg (by rw [BitVec.lt_def]; simpa using hle)]
    rfl
  | some u =>
    obtain ⟨-, hfirst, hlast, hlt⟩ := Span.aboveValue?_eq_some ha
    have hnext : cut.words.2.plus? 1 = some u.words.1 := plus?_one_eq hlt (by omega)
    have hstop : own.words.2 = u.words.2 := BitVec.eq_of_toNat_eq (by rw [own.words_last, u.words_last, hlast])
    rw [if_pos (by rw [BitVec.lt_def]; simpa using hlt), hnext, hstop]
    rfl

/-- No difference and no sum leaves the range of words, since one is taken only from a bound above another. -/
theorem subtractWords?_eq (a b : Block) : subtractWords? a b = some ((compute a [b]).free.map Span.words) := by
  rw [free_compute_single, subtractWords?, Span.minus]
  change (if a.span.meets b.span then _ else _) = _
  split
  · rename_i hmeets
    obtain ⟨x, hx, hxb⟩ := Span.meets_iff.mp hmeets
    have hbelow : belowWords? a.span.words.1 b.span.words.1 = _ := belowWords?_eq (Nat.le_trans hxb.2.1 hx.2.2)
    have habove : restWords? a.span.words.2 b.span.words.2 = _ := restWords?_eq (Nat.le_trans hx.2.1 hxb.2.2)
    rw [hbelow, habove, List.map_append]
    rfl
  · rfl

/-- Taking any block out of a canonical one leaves the addresses that only the latter has, in blocks that share no address
and are in strictly ascending order. They are the networks, or for a range the spans, of the space that is computed with
the other block as the only child. On words the same spans come out, no step leaves their range, and cutting one of them
on words ends with its pieces. -/
theorem subtract_eq_computed (a b : Block) (ha : a.Canonical) :
    (∀ x, (∃ c ∈ a.subtract b, x ∈ c) ↔ x ∈ a ∧ x ∉ b) ∧
    ((a.subtract b).Pairwise fun c d => c.order d = .lt ∧ ∀ x ∈ c, x ∉ d) ∧
    (∀ n, a = .network n → a.subtract b = (compute a [b]).networks.map .network) ∧
    (∀ s, a = .range s → a.subtract b = (compute a [b]).free.map .range ∧ (a.subtract b).length ≤ 2) ∧
    (∃ ws, subtractWords? a b = some ws ∧
      ws.map (fun w => (w.1.toNat, w.2.toNat)) = (compute a [b]).free.map fun s => (s.first, s.last)) ∧
    ∀ s ∈ (compute a [b]).free, ∀ ns, Yields (some ∘ Walk.next?) (Walk.ofSpan a.family s) ns ↔ ns = s.split := by
  refine ⟨fun _ => mem_subtract ha, subtract_pairwise ha, ?_, ?_, ⟨_, subtractWords?_eq a b, ?_⟩, fun s hs ns => ?_⟩
  · rintro n rfl
    exact subtract_network ha b
  · rintro s rfl
    exact ⟨subtract_range s b, length_subtract_range s b⟩
  · simp only [List.map_map, Function.comp_def, Span.words_first, Span.words_last]
  · exact (Walk.yields_split s _ ((compute_ascending a [b]).family s hs)).iff_eq

/-- All addresses of the wider family but the highest one are networks of every length, in ascending order. -/
theorem subtract_eq_computed_top :
    let whole : Block := .ofNetwork ⟨⟨.v6, 1, by decide⟩, 0, by decide⟩
    let top : Block := .host ⟨.v6, 2 ^ 128 - 1, by decide⟩
    whole.Canonical ∧ (whole.subtract top).Pairwise (fun c d => c.order d = .lt ∧ ∀ x ∈ c, x ∉ d) ∧
      (whole.subtract top).map Block.length? = (List.range 128).map fun k => some (k + 1) := by
  intro whole top
  have hwhole : whole.Canonical := Block.canonical_ofNetwork _
  obtain ⟨-, hpairwise, hnetworks, -⟩ := subtract_eq_computed whole top hwhole
  refine ⟨hwhole, hpairwise, ?_⟩
  rw [hnetworks _ rfl]
  decide +kernel

end Space

end AddressPlan
