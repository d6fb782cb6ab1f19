import AddressPlan.Proofs.Iteration
import AddressPlan.Proofs.Net.Pieces

/-!
Cutting a span on machine words. The walk holds what is still to be cut as two words of the family's width. It takes the
largest network that the zeros at the end of the first word and the number of addresses left have room for, and goes on
above it. Sums stop at the greatest word and differences at zero, so at the top of the space the walk has to be told to
end. It yields the pieces of the span, whatever its bounds are.
-/

namespace AddressPlan.Net

/-- What a walk has still to cut: the addresses from one word up to another. -/
structure Walk (f : Family) where
  start : BitVec f.width
  stop : BitVec f.width

namespace Walk

variable {f : Family} {w : Nat}

/-- The sum of two words, or the greatest word. -/
def plus (x y : BitVec w) : BitVec w :=
  if x.uaddOverflow y then .allOnes w else x + y

/-- The difference of two words, or zero. -/
def minus (x y : BitVec w) : BitVec w :=
  if x.usubOverflow y then 0 else x - y

/-- How many low bits the network at the start may leave open. Of the whole space, the number of addresses is no word. -/
def room (k : Walk f) : Nat :=
  let others := minus k.stop k.start
  if others = .allOnes f.width then f.width
  else min (f.width - (plus others 1).clz.toNat - 1) k.start.ctz.toNat

/-- The network at the start. -/
def head (k : Walk f) : Network :=
  ⟨⟨f, k.start.toNat, k.start.isLt⟩, f.width - k.room, Nat.sub_le _ _⟩

/-- Cuts off the network at the start. A walk whose start would not move on, or whose last address is cut off alone, stops
at zero instead. -/
def next? (k : Walk f) : Option (Network × Walk f) :=
  if k.stop < k.start then none
  else
    let top := BitVec.ofNat f.width k.head.last
    let start := plus top 1
    if k.start = k.stop ∨ start = top then some (k.head, ⟨start, 0⟩) else some (k.head, ⟨start, k.stop⟩)

/-! ### Words -/

section Words
variable {x y : BitVec w} {j : Nat}

theorem toNat_minus (h : y ≤ x) : (minus x y).toNat = x.toNat - y.toNat := by
  rw [minus, if_neg, BitVec.toNat_sub_of_le h]
  simp only [BitVec.usubOverflow, decide_eq_true_eq]
  exact Nat.not_lt.mpr h

theorem plus_of_lt (h : x.toNat + y.toNat < 2 ^ w) : (plus x y).toNat = x.toNat + y.toNat := by
  rw [plus, if_neg, BitVec.toNat_add_of_lt h]
  simp only [BitVec.uaddOverflow, decide_eq_true_eq]
  omega

/-- The zeros at the end tell which powers of two divide a word. -/
theorem dvd_iff_le_ctz (hj : j ≤ w) : 2 ^ j ∣ x.toNat ↔ j ≤ x.ctz.toNat := by
  have hbits : 2 ^ j ∣ x.toNat ↔ ∀ i < j, x.getLsbD i = false := by
    rw [Nat.dvd_iff_mod_eq_zero]
    constructor
    · intro h i hi
      have hbit : (x.toNat % 2 ^ j).testBit i = x.toNat.testBit i := by
        rw [Nat.testBit_mod_two_pow, decide_eq_true hi, Bool.true_and]
      rw [BitVec.getLsbD, ← hbit, h, Nat.zero_testBit]
    · intro h
      refine Nat.eq_of_testBit_eq fun i => ?_
      rw [Nat.testBit_mod_two_pow, Nat.zero_testBit]
      by_cases hi : i < j
      · rw [← BitVec.getLsbD, h i hi, Bool.and_false]
      · rw [decide_eq_false hi, Bool.false_and]
  rw [hbits]
  constructor
  · intro h
    apply Nat.le_of_not_lt
    intro hlt
    by_cases hx : x = 0#w
    · have hctz : ¬ x.ctz < (w : BitVec w) := fun hlt => BitVec.ctz_lt_iff_ne_zero.mp hlt hx
      have hwidth : ((w : BitVec w)).toNat = w := Nat.mod_eq_of_lt Nat.lt_two_pow_self
      rw [BitVec.lt_def, hwidth] at hctz
      omega
    · exact absurd (h _ hlt) (by rw [BitVec.getLsbD_true_ctz_of_ne_zero hx]; decide)
  · exact fun h i hi => BitVec.getLsbD_false_of_lt_ctz (Nat.lt_of_lt_of_le hi h)

/-- The zeros at the front tell how large a word is. -/
theorem two_pow_le_iff (hw : 0 < w) (hx : x ≠ 0#w) : 2 ^ j ≤ x.toNat ↔ j ≤ w - x.clz.toNat - 1 := by
  constructor
  · intro h
    have hlt : j < w - x.clz.toNat :=
      (Nat.pow_lt_pow_iff_right (by decide)).mp (Nat.lt_of_le_of_lt h BitVec.toNat_lt_two_pow_sub_clz)
    exact Nat.le_sub_one_of_lt hlt
  · intro h
    refine Nat.le_trans (Nat.pow_le_pow_right (by decide) h) ?_
    rw [Nat.sub_right_comm]
    exact BitVec.two_pow_sub_clz_le_toNat_of_ne_zero hw hx

end Words

/-! ### One step -/

theorem width_pos (f : Family) : 0 < f.width := by
  cases f <;> decide

theorem toNat_one (f : Family) : (1 : BitVec f.width).toNat = 1 := by
  cases f <;> rfl

/-- One more than a word is the next word, unless there is none. -/
theorem plus_one_cases (x : BitVec f.width) :
    (plus x 1 = x ∧ x.toNat + 1 = 2 ^ f.width) ∨ (plus x 1).toNat = x.toNat + 1 := by
  have hone := toNat_one f
  by_cases hx : x.toNat + 1 < 2 ^ f.width
  · refine Or.inr ?_
    rw [plus_of_lt (hone.symm ▸ hx), hone]
  · have hmax : x.toNat + 1 = 2 ^ f.width := by
      have := x.isLt
      omega
    refine Or.inl ⟨?_, hmax⟩
    rw [plus, if_pos]
    · refine BitVec.eq_of_toNat_eq ?_
      rw [BitVec.toNat_allOnes]
      omega
    · simp only [BitVec.uaddOverflow, decide_eq_true_eq]
      omega

theorem room_le (k : Walk f) : k.room ≤ f.width := by
  simp only [room]
  split
  · exact Nat.le_refl _
  · omega

/-- There is room for a network exactly if it is aligned and does not reach over the last address. -/
theorem fits_iff_le_room {k : Walk f} (hle : k.start ≤ k.stop) {j : Nat} :
    Span.Fits k.start.toNat k.stop.toNat j ↔ j ≤ k.room := by
  have hothers := toNat_minus hle
  have hstart := k.start.isLt
  have hstop := k.stop.isLt
  rw [BitVec.le_def] at hle
  simp only [Span.Fits, room]
  rw [← Nat.dvd_iff_mod_eq_zero]
  split
  · rename_i hall
    -- Nothing but the whole space has so many addresses.
    rw [hall, BitVec.toNat_allOnes] at hothers
    have hzero : k.start.toNat = 0 := by omega
    have htop : k.stop.toNat + 1 = 2 ^ f.width := by omega
    rw [hzero, htop, Nat.zero_add, Nat.pow_le_pow_iff_right (by decide)]
    exact and_iff_right (Nat.dvd_zero _)
  · rename_i hall
    have hone := toNat_one f
    have hsmall : (minus k.stop k.start).toNat + 1 < 2 ^ f.width := by
      have hne : (minus k.stop k.start).toNat ≠ 2 ^ f.width - 1 := fun heq =>
        hall (BitVec.eq_of_toNat_eq (heq.trans BitVec.toNat_allOnes.symm))
      have := (minus k.stop k.start).isLt
      omega
    have hcount : (plus (minus k.stop k.start) 1).toNat = k.stop.toNat - k.start.toNat + 1 := by
      rw [plus_of_lt (hone.symm ▸ hsmall), hone, hothers]
    have hne : plus (minus k.stop k.start) 1 ≠ 0#f.width := fun hzero => by
      rw [hzero, BitVec.toNat_zero] at hcount
      omega
    have hsize : k.start.toNat + 2 ^ j ≤ k.stop.toNat + 1 ↔ j ≤ f.width - (plus (minus k.stop k.start) 1).clz.toNat - 1 := by
      rw [← two_pow_le_iff (width_pos f) hne, hcount]
      omega
    rw [hsize, Nat.le_min, and_comm]
    exact and_congr_right fun hj => dvd_iff_le_ctz (by omega)

/-- What is still to be cut of a span, in a family. -/
def ofSpan (f : Family) (s : Span) : Walk f :=
  ⟨.ofNat f.width s.first, .ofNat f.width s.last⟩

section Step
variable {s t : Span}

theorem ofSpan_start (hf : s.family = f) : (ofSpan f s).start.toNat = s.first :=
  Nat.mod_eq_of_lt (hf ▸ Nat.lt_of_le_of_lt s.first_le_last s.last_lt)

theorem ofSpan_stop (hf : s.family = f) : (ofSpan f s).stop.toNat = s.last :=
  Nat.mod_eq_of_lt (hf ▸ s.last_lt)

theorem ofSpan_le (hf : s.family = f) : (ofSpan f s).start ≤ (ofSpan f s).stop := by
  rw [BitVec.le_def, ofSpan_start hf, ofSpan_stop hf]
  exact s.first_le_last

theorem room_ofSpan (hf : s.family = f) : (ofSpan f s).room = s.reach := by
  have hfits : ∀ {j}, Span.Fits s.first s.last j ↔ j ≤ (ofSpan f s).room := fun {j} => by
    rw [← fits_iff_le_room (ofSpan_le hf), ofSpan_start hf, ofSpan_stop hf]
  have hwidth : (ofSpan f s).room ≤ 0 + s.family.width := by
    rw [Nat.zero_add, hf]
    exact room_le _
  exact Nat.le_antisymm (Span.le_growth 0 _ hwidth (hfits.mpr (Nat.le_refl _))) (hfits.mp s.head_fits)

/-- The walk starts with the first piece of its span. -/
theorem head_ofSpan (hf : s.family = f) : (ofSpan f s).head = s.head := by
  have hstart := ofSpan_start hf
  have hroom := room_ofSpan hf
  subst hf
  have haddress : (⟨s.family, (ofSpan s.family s).start.toNat, (ofSpan s.family s).start.isLt⟩ : Address) = s.start :=
    Address.ext_value rfl hstart
  unfold head Span.head
  simp only [haddress, hroom]
  rfl

/-- The last address of the first piece is a word of the family. -/
theorem toNat_top (hf : s.family = f) : (BitVec.ofNat f.width s.head.last).toNat = s.head.last :=
  Nat.mod_eq_of_lt (hf ▸ Nat.lt_of_le_of_lt s.head_last_le s.last_lt)

theorem next?_of_lt {k : Walk f} (h : k.stop < k.start) : k.next? = none :=
  if_pos h

theorem next?_ofSpan (hf : s.family = f) : (ofSpan f s).next? =
    let top := BitVec.ofNat f.width s.head.last
    let start := plus top 1
    if (ofSpan f s).start = (ofSpan f s).stop ∨ start = top then some (s.head, ⟨start, 0⟩)
    else some (s.head, ⟨start, (ofSpan f s).stop⟩) := by
  have hle := ofSpan_le hf
  rw [BitVec.le_def] at hle
  rw [next?, if_neg (fun hlt => Nat.not_lt.mpr hle (BitVec.lt_def.mp hlt)), head_ofSpan hf]

/-- Where nothing lies above the first piece, the walk ends after it. -/
theorem next?_of_none (hf : s.family = f) (h : s.aboveValue? s.head.last = none) :
    ∃ k : Walk f, (ofSpan f s).next? = some (s.head, k) ∧ k.next? = none := by
  have hlast : s.head.last = s.last := Nat.le_antisymm s.head_last_le (Span.aboveValue?_eq_none.mp h)
  have htop : BitVec.ofNat f.width s.head.last = (ofSpan f s).stop := by
    rw [hlast]
    rfl
  have hcases := plus_one_cases (ofSpan f s).stop
  rw [next?_ofSpan hf]
  simp only [htop]
  split
  · refine ⟨_, rfl, next?_of_lt (BitVec.lt_def.mpr ?_)⟩
    have := Nat.one_lt_two_pow (Nat.ne_of_gt (width_pos f))
    show 0 % 2 ^ f.width < (plus (ofSpan f s).stop 1).toNat
    rw [Nat.zero_mod]
    rcases hcases with ⟨heq, hmax⟩ | hnext
    · rw [heq]
      omega
    · omega
  · rename_i hmore
    refine ⟨_, rfl, next?_of_lt (BitVec.lt_def.mpr ?_)⟩
    show (ofSpan f s).stop.toNat < (plus (ofSpan f s).stop 1).toNat
    rcases hcases with ⟨heq, -⟩ | hnext
    · exact absurd (Or.inr heq) hmore
    · omega

/-- Otherwise it goes on with what lies above. -/
theorem next?_of_some (hf : s.family = f) (h : s.aboveValue? s.head.last = some t) :
    (ofSpan f s).next? = some (s.head, ofSpan f t) := by
  obtain ⟨hft, hfirst, hlast⟩ := Span.above_head h
  have htf : t.family = f := hft.trans hf
  have hbelow : s.first ≤ s.head.last := by
    have := s.head.first_le_last
    rwa [Span.head_first] at this
  have habove := t.first_le_last
  have htop := toNat_top hf
  have hstart : plus (BitVec.ofNat f.width s.head.last) 1 = (ofSpan f t).start := by
    refine BitVec.eq_of_toNat_eq ?_
    rcases plus_one_cases (BitVec.ofNat f.width s.head.last) with ⟨-, hmax⟩ | hnext
    · have := t.last_lt
      rw [htf] at this
      omega
    · rw [hnext, htop, ofSpan_start htf, hfirst]
  rw [next?_ofSpan hf]
  simp only [hstart]
  rw [if_neg]
  · unfold ofSpan
    rw [hlast]
  · rintro (heq | heq) <;> replace heq := congrArg BitVec.toNat heq
    · rw [ofSpan_start hf, ofSpan_stop hf] at heq
      omega
    · rw [ofSpan_start htf, htop] at heq
      omega

end Step

/-- The walk over a span yields its pieces. -/
theorem yields_split (s : Span) : ∀ f, s.family = f → Yields (some ∘ next?) (ofSpan f s) s.split := by
  induction s using Span.split_induction with
  | last s h =>
    intro f hf
    obtain ⟨k, hnext, hend⟩ := next?_of_none hf h
    rw [Span.split_of_none h]
    exact .next (congrArg some hnext) (.done (congrArg some hend))
  | next s t h ih =>
    intro f hf
    rw [Span.split_of_some h]
    exact .next (congrArg some (next?_of_some hf h)) (ih f ((Span.above_head h).1.trans hf))

end Walk

end AddressPlan.Net
