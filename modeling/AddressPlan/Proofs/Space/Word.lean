import AddressPlan.Proofs.Space.Compute
import Mathlib.Algebra.Group.Nat.Defs

/-!
Free space in machine words. The bounds of both families fit into words of 128 bits, but what is one below or one above
a word need not be one. Here the sweep is carried out on words and has no result if a step leaves their range. It always
has one, also where a block starts with the lowest address or ends with the highest, and that is the computed space.
-/

namespace AddressPlan

open Net

/-- What holds a bound of either family. -/
abbrev Word := BitVec 128

namespace Word

/-- The difference of two words, if it is a word. -/
def minus? (x y : Word) : Option Word :=
  if x.usubOverflow y then none else some (x - y)

/-- The sum of two words, if it is a word. -/
def plus? (x y : Word) : Option Word :=
  if x.uaddOverflow y then none else some (x + y)

theorem minus?_eq_some {x y : Word} (h : y.toNat ≤ x.toNat) : x.minus? y = some (x - y) := by
  rw [minus?, if_neg]
  simp only [BitVec.usubOverflow, decide_eq_true_eq]
  omega

theorem plus?_eq_some {x y : Word} (h : x.toNat + y.toNat < 2 ^ 128) : x.plus? y = some (x + y) := by
  rw [plus?, if_neg]
  simp only [BitVec.uaddOverflow, decide_eq_true_eq]
  omega

end Word

namespace Net

theorem Family.width_le (f : Family) : f.width ≤ 128 := by
  cases f <;> decide

namespace Span

variable {s : Span}

theorem last_lt_word (s : Span) : s.last < 2 ^ 128 :=
  Nat.lt_of_lt_of_le s.last_lt (Nat.pow_le_pow_right (by decide) s.family.width_le)

/-- The bounds of a span as words. -/
def words (s : Span) : Word × Word :=
  (.ofNat 128 s.first, .ofNat 128 s.last)

@[simp] theorem words_first (s : Span) : s.words.1.toNat = s.first :=
  Nat.mod_eq_of_lt (Nat.lt_of_le_of_lt s.first_le_last s.last_lt_word)

@[simp] theorem words_last (s : Span) : s.words.2.toNat = s.last :=
  Nat.mod_eq_of_lt s.last_lt_word

end Span

end Net

namespace Space

/-- What is unclaimed below a cut that starts at `first`. -/
def belowWords? (free first : Word) : Option (List (Word × Word)) :=
  if free < first then (first.minus? 1).map fun stop => [(free, stop)] else some []

/-- Where the unclaimed part starts after a cut that ends with `stop`, or nothing if the top has been reached. -/
def aboveWords? (free top stop : Word) : Option (Option Word) :=
  let stop := if top < stop then top else stop
  if free ≤ stop then if stop = top then some none else (stop.plus? 1).map some
  else some (some free)

/-- The sweep over cuts in order of their first words, of what is unclaimed from a word up to the top. -/
def sweepWords? (top : Word) : Option Word → List (Word × Word) → Option (List (Word × Word))
  | none, _ => some []
  | some free, [] => some [(free, top)]
  | some free, cut :: cuts => do
    let below ← belowWords? free cut.1
    let next ← aboveWords? free top cut.2
    let rest ← sweepWords? top next cuts
    some (below ++ rest)

/-- What `parent` has left without its children, in words. -/
def computeWords? (parent : Block) (children : List Block) : Option (List (Word × Word)) :=
  let cuts := Block.sort (children.filter fun c => c.meets parent)
  sweepWords? parent.span.words.2 (some parent.span.words.1) (cuts.map fun c => c.span.words)

section Sweep
variable {rest cut : Span}

theorem belowWords?_eq (hcut : cut.first ≤ rest.last) :
    belowWords? rest.words.1 cut.words.1 = some ((rest.below? cut).toList.map Span.words) := by
  unfold belowWords?
  cases hb : rest.below? cut with
  | none =>
    have hle := Span.belowValue?_eq_none.mp hb
    rw [if_neg (by rw [BitVec.lt_def]; simpa using hle)]
    rfl
  | some u =>
    obtain ⟨-, h1, h2, hlt⟩ := Span.belowValue?_eq_some hb
    have hone : (1 : Word).toNat ≤ cut.words.1.toNat := by
      rw [cut.words_first]
      exact Nat.succ_le_of_lt (Nat.zero_lt_of_lt hlt)
    rw [if_pos (by rw [BitVec.lt_def]; simpa using hlt), Word.minus?_eq_some hone]
    have hstart : rest.words.1 = u.words.1 := BitVec.eq_of_toNat_eq (by simp [h1])
    have hstop : cut.words.1 - 1 = u.words.2 := by
      refine BitVec.eq_of_toNat_eq ?_
      rw [BitVec.toNat_sub_of_le hone, cut.words_first, u.words_last, h2]
      show cut.first - 1 = _
      omega
    rw [hstart, hstop]
    rfl

/-- What follows a word below the last one of a span is a word. -/
theorem plus?_one_eq {u : Span} (hlt : cut.last < rest.last) (hfirst : u.first = cut.last + 1) :
    cut.words.2.plus? 1 = some u.words.1 := by
  have hword : cut.words.2.toNat + (1 : Word).toNat < 2 ^ 128 := by
    rw [cut.words_last]
    exact Nat.lt_of_le_of_lt (Nat.succ_le_of_lt hlt) rest.last_lt_word
  have hnext : cut.words.2 + 1 = u.words.1 := by
    refine BitVec.eq_of_toNat_eq ?_
    rw [BitVec.toNat_add_of_lt hword, cut.words_last, u.words_first, hfirst]
    rfl
  rw [Word.plus?_eq_some hword, hnext]

theorem aboveWords?_eq : aboveWords? rest.words.1 rest.words.2 cut.words.2 =
    some ((rest.above? cut).map fun u => u.words.1) := by
  unfold aboveWords?
  have hle : rest.words.1 ≤ rest.words.2 := by
    rw [BitVec.le_def, rest.words_first, rest.words_last]
    exact rest.first_le_last
  cases ha : rest.above? cut with
  | none =>
    -- The cut reaches the top, so what is claimed ends there.
    have htop : rest.last ≤ cut.last := Span.aboveValue?_eq_none.mp ha
    have hstop : (if rest.words.2 < cut.words.2 then rest.words.2 else cut.words.2) = rest.words.2 := by
      split
      · rfl
      · rename_i hlt
        rw [BitVec.lt_def, rest.words_last, cut.words_last] at hlt
        refine BitVec.eq_of_toNat_eq ?_
        rw [rest.words_last, cut.words_last]
        omega
    simp only [hstop, if_pos hle, ↓reduceIte]
    rfl
  | some u =>
    obtain ⟨-, h1, -, hlt⟩ := Span.aboveValue?_eq_some ha
    have hstop : ¬ rest.words.2 < cut.words.2 := by
      rw [BitVec.lt_def, rest.words_last, cut.words_last]
      omega
    simp only [if_neg hstop]
    split
    · rename_i hfree
      rw [BitVec.le_def, rest.words_first, cut.words_last] at hfree
      have hne : cut.words.2 ≠ rest.words.2 := by
        intro heq
        have := congrArg BitVec.toNat heq
        rw [cut.words_last, rest.words_last] at this
        omega
      have hnext : cut.words.2.plus? 1 = some u.words.1 := plus?_one_eq hlt (by omega)
      rw [if_neg hne, hnext]
      rfl
    · rename_i hfree
      rw [BitVec.le_def, rest.words_first, cut.words_last] at hfree
      have hsame : rest.words.1 = u.words.1 := by
        refine BitVec.eq_of_toNat_eq ?_
        rw [rest.words_first, u.words_first, h1]
        omega
      rw [hsame]
      rfl

theorem sweepWords?_none (top : Word) (cuts : List (Word × Word)) : sweepWords? top none cuts = some [] := by
  cases cuts <;> rfl

/-- Cuts that start no higher than the top leave the same spans in words as in numbers. -/
theorem sweepWords?_eq : ∀ {cuts : List Span} {rest : Span}, (∀ c ∈ cuts, c.first ≤ rest.last) →
    sweepWords? rest.words.2 (some rest.words.1) (cuts.map Span.words) =
      some ((sweep (some rest) cuts).map Span.words)
  | [], _, _ => rfl
  | cut :: cuts, rest, hfirst => by
    obtain ⟨hcut, hcuts⟩ := List.forall_mem_cons.mp hfirst
    have hrest : sweepWords? rest.words.2 ((rest.above? cut).map fun u => u.words.1) (cuts.map Span.words) =
        some ((sweep (rest.above? cut) cuts).map Span.words) := by
      cases ha : rest.above? cut with
      | none =>
        rw [sweep_none]
        exact sweepWords?_none _ _
      | some u =>
        obtain ⟨-, -, hlast, -⟩ := Span.aboveValue?_eq_some ha
        have htop : rest.words.2 = u.words.2 := BitVec.eq_of_toNat_eq (by rw [rest.words_last, u.words_last, hlast])
        rw [htop]
        exact sweepWords?_eq fun c hc => hlast ▸ hcuts c hc
    rw [List.map_cons, sweepWords?, belowWords?_eq hcut, aboveWords?_eq, sweep, List.map_append]
    show (sweepWords? _ _ _ >>= fun rest => some (_ ++ rest)) = _
    rw [hrest]
    rfl

end Sweep

theorem computeWords?_eq (parent : Block) (children : List Block) :
    computeWords? parent children = some ((compute parent children).free.map Span.words) := by
  have hfirst : ∀ s ∈ (Block.sort (children.filter fun c => c.meets parent)).map Block.span,
      s.first ≤ parent.span.last := by
    intro s hs
    obtain ⟨c, hc, rfl⟩ := List.mem_map.mp hs
    obtain ⟨a, hac, hap⟩ := Block.meets_iff.mp (List.mem_filter.mp (Block.mem_sort.mp hc)).2
    exact Nat.le_trans hac.2.1 hap.2.2
  have h := sweepWords?_eq hfirst
  rw [List.map_map] at h
  exact h

/-- What is computed is what the parent has and no child does, in spans of the parent's family that ascend with a
gap between any two. On words the same spans come out, and no step leaves their range. -/
theorem compute_exact (parent : Block) (children : List Block) :
    (∀ s ∈ (compute parent children).free, s.family = parent.family ∧ ∀ a ∈ s, a ∈ parent) ∧
    ((compute parent children).free.Pairwise fun s t => s.last + 1 < t.first) ∧
    (∀ a, (∃ s ∈ (compute parent children).free, a ∈ s) ↔ a ∈ parent ∧ ∀ c ∈ children, a ∉ c) ∧
    ∃ ws, computeWords? parent children = some ws ∧
      ws.map (fun w => (w.1.toNat, w.2.toNat)) = (compute parent children).free.map fun s => (s.first, s.last) := by
  have hasc := compute_ascending parent children
  refine ⟨fun s hs => ⟨hasc.family s hs, fun a ha => (mem_compute.mp ⟨s, hs, ha⟩).1⟩, hasc.gaps, fun a => mem_compute,
    _, computeWords?_eq parent children, ?_⟩
  simp only [List.map_map, Function.comp_def, Span.words_first, Span.words_last]

end Space

end AddressPlan
