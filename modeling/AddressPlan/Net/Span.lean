import AddressPlan.Net.Network

/-!
Spans: the addresses of one family from a first to a last one. The view of a span is membership
(`a ∈ s`); `below?` and `above?` are what a span keeps on either side of another, and `split` cuts a
span into the largest aligned networks it holds.
-/

namespace AddressPlan.Net

/-- All addresses of a family from `first` to `last`. -/
structure Span where
  family : Family
  first : Nat
  last : Nat
  first_le_last : first ≤ last
  last_lt : last < 2 ^ family.width
  deriving Repr

namespace Span

theorem ext_bounds {s t : Span} (hf : s.family = t.family) (h1 : s.first = t.first) (h2 : s.last = t.last) : s = t := by
  cases s
  cases t
  cases hf
  cases h1
  cases h2
  rfl

instance : DecidableEq Span := fun s t =>
  decidable_of_iff (s.family = t.family ∧ s.first = t.first ∧ s.last = t.last)
    ⟨fun ⟨hf, h1, h2⟩ => ext_bounds hf h1 h2, fun h => h ▸ ⟨rfl, rfl, rfl⟩⟩

instance : Membership Address Span :=
  ⟨fun s a => a.family = s.family ∧ s.first ≤ a.value ∧ a.value ≤ s.last⟩

instance (a : Address) (s : Span) : Decidable (a ∈ s) :=
  inferInstanceAs (Decidable (a.family = s.family ∧ s.first ≤ a.value ∧ a.value ≤ s.last))

theorem mem_iff {a : Address} {s : Span} :
    a ∈ s ↔ a.family = s.family ∧ s.first ≤ a.value ∧ a.value ≤ s.last :=
  Iff.rfl

def size (s : Span) : Nat :=
  s.last - s.first + 1

def start (s : Span) : Address :=
  ⟨s.family, s.first, Nat.lt_of_le_of_lt s.first_le_last s.last_lt⟩

def stop (s : Span) : Address :=
  ⟨s.family, s.last, s.last_lt⟩

def ofNetwork (n : Network) : Span :=
  ⟨n.family, n.first, n.last, n.first_le_last, n.last_lt⟩

/-- `t` lies inside `s`. -/
def contains (s t : Span) : Bool :=
  s.family == t.family && s.first ≤ t.first && t.last ≤ s.last

/-- `s` and `t` share an address. -/
def meets (s t : Span) : Bool :=
  s.family == t.family && s.first ≤ t.last && t.first ≤ s.last

/-- What `s` holds below the value `n`. -/
def belowValue? (s : Span) (n : Nat) : Option Span :=
  if h : s.first < n then
    some ⟨s.family, s.first, min (n - 1) s.last, by have := s.first_le_last; omega,
      Nat.lt_of_le_of_lt (Nat.min_le_right _ _) s.last_lt⟩
  else none

/-- What `s` holds above the value `n`. -/
def aboveValue? (s : Span) (n : Nat) : Option Span :=
  if h : n < s.last then
    some ⟨s.family, max (n + 1) s.first, s.last, by have := s.first_le_last; omega, s.last_lt⟩
  else none

def below? (s t : Span) : Option Span :=
  s.belowValue? t.first

def above? (s t : Span) : Option Span :=
  s.aboveValue? t.last

/-- What `s` keeps when `t` is taken out, lowest first. -/
def minus (s t : Span) : List Span :=
  if s.meets t then (s.below? t).toList ++ (s.above? t).toList else [s]

/-! ### Addresses in order -/

/-- The address `i` places after the first one, if it is still inside. -/
def nth? (s : Span) (i : Nat) : Option Address :=
  if h : s.first + i ≤ s.last then some ⟨s.family, s.first + i, Nat.lt_of_le_of_lt h s.last_lt⟩ else none

/-- The lowest `k` addresses, or all of them. -/
def lowest (s : Span) (k : Nat) : List Address :=
  (List.range (min k s.size)).filterMap s.nth?

/-! ### Cutting into networks -/

/-- The largest `k ≤ bound` for which the `2 ^ k` addresses from `first` on are aligned and reach no further
than `last`, where each step tries twice the block of the step before. -/
def growth (first last : Nat) : (k bound : Nat) → Nat
  | k, 0 => k
  | k, bound + 1 =>
    if first % 2 ^ (k + 1) = 0 ∧ first + 2 ^ (k + 1) ≤ last + 1 then growth first last (k + 1) bound else k

/-- The largest aligned network that starts where the span starts and lies inside it. -/
def head (s : Span) : Network :=
  ⟨s.start, s.family.width - growth s.first s.last 0 s.family.width, Nat.sub_le _ _⟩

/-- The span in networks, lowest first: each is the largest one that fits at its place. -/
def split (s : Span) : List Network :=
  s.head :: match _h : s.aboveValue? s.head.last with
    | none => []
    | some rest => rest.split
termination_by s.size
decreasing_by
  have hl : s.first ≤ s.head.last := s.head.le_last
  unfold aboveValue? at _h
  split at _h
  · injection _h with _h
    subst _h
    simp only [size]
    omega
  · contradiction

/-! ### Text -/

def chars (s : Span) : List Char :=
  s.start.chars ++ '-' :: s.stop.chars

def text (s : Span) : String :=
  .ofList s.chars

end Span

end AddressPlan.Net
