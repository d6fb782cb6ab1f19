import AddressPlan.Proofs.Iteration
import AddressPlan.Proofs.Space.Counting
import AddressPlan.Proofs.Space.Word

/-!
The walks over free space on machine words: the count, the address with a given index, the claim of the lowest address,
and a cursor that keeps the index of a span and an offset in it. Each sum and each difference is checked. None of them
fails in a space that is computed and carved, not even where one span holds every address, and the walks find what is
found in numbers.
-/

namespace AddressPlan

open Net

namespace Word

variable {x y : Word} {n : Nat}

theorem exists_plus? (h : x.toNat + y.toNat = n) (hn : n < 2 ^ 128) : ∃ z, x.plus? y = some z ∧ z.toNat = n := by
  rw [← h] at hn
  exact ⟨x + y, plus?_eq_some hn, (BitVec.toNat_add_of_lt hn).trans h⟩

theorem exists_minus? (h : x.toNat = y.toNat + n) : ∃ z, x.minus? y = some z ∧ z.toNat = n := by
  have hle : y.toNat ≤ x.toNat := h ▸ Nat.le_add_right _ _
  refine ⟨x - y, minus?_eq_some hle, ?_⟩
  rw [BitVec.toNat_sub_of_le hle, h, Nat.add_sub_cancel_left]

end Word

namespace Space

/-- The number of addresses in spans. The number that a span holds need not be a word, one less always is. -/
def sizeWords? : List (Word × Word) → Option Nat
  | [] => some 0
  | w :: ws => do
    let others ← w.2.minus? w.1
    let rest ← sizeWords? ws
    some (others.toNat + 1 + rest)

/-- The address with the given index in spans of a family. Only a span that is skipped is counted. -/
def nthWords? (f : Family) : Word → List (Word × Word) → Option (Option Address)
  | _, [] => some none
  | n, w :: ws => do
    let others ← w.2.minus? w.1
    if n ≤ others then (w.1.plus? n).map fun x => some (.ofLowBits f x.toNat)
    else nthWords? f (← n.minus? (← others.plus? 1)) ws

/-- Claims the lowest address. A span of one address goes, any other one starts later. -/
def claimWords? (f : Family) : List (Word × Word) → Option (Option (Address × List (Word × Word)))
  | [] => some none
  | w :: ws =>
    let a : Address := .ofLowBits f w.1.toNat
    if w.1 = w.2 then some (some (a, ws)) else (w.1.plus? 1).map fun next => some (a, (next, w.2) :: ws)

/-- A place in a list of spans: the index of a span, and how far above its first address. -/
structure Cursor where
  index : Nat
  offset : Word

namespace Cursor

def start : Cursor :=
  ⟨0, 0⟩

/-- The address at a cursor, and the next place. -/
def next? (f : Family) (ws : List (Word × Word)) (k : Cursor) : Option (Option (Address × Cursor)) :=
  match ws[k.index]? with
  | none => some none
  | some w => do
    let x ← w.1.plus? k.offset
    let next ← if x = w.2 then some ⟨k.index + 1, 0⟩ else (k.offset.plus? 1).map fun offset => ⟨k.index, offset⟩
    some (some (.ofLowBits f x.toNat, next))

end Cursor

variable {f : Family} {s t : Span} {ss rest : List Span} {sp left : Space} {a : Address}

/-! ### Counting and indexing -/

theorem others_eq (s : Span) : ∃ others, s.words.2.minus? s.words.1 = some others ∧ others.toNat = s.last - s.first := by
  refine Word.exists_minus? ?_
  rw [s.words_first, s.words_last, Nat.add_sub_cancel' s.first_le_last]

theorem sizeWords?_eq (sp : Space) : sizeWords? (sp.free.map Span.words) = some sp.size := by
  unfold size
  induction sp.free with
  | nil => rfl
  | cons s ss ih =>
    obtain ⟨others, hothers, hcount⟩ := others_eq s
    rw [List.map_cons, sizeWords?, hothers, ih, List.foldr_cons, Span.size, ← hcount]
    rfl

theorem ofLowBits_eq {n : Nat} (hf : a.family = f) (hn : n = a.value) : Address.ofLowBits f n = a := by
  subst hf hn
  exact Address.ext_value rfl (Nat.mod_eq_of_lt a.value_lt)

theorem addressWords?_eq {n : Word} (hf : s.family = f) (hn : n.toNat < s.size) :
    (s.words.1.plus? n).map (fun x => some (.ofLowBits f x.toNat)) = some (s.nth? n.toNat) := by
  cases ha : s.nth? n.toNat with
  | none => exact absurd (Span.nth?_eq_none.mp ha) (Nat.not_le_of_lt hn)
  | some a =>
    obtain ⟨haf, hav, hle⟩ := Span.nth?_eq_some.mp ha
    obtain ⟨x, hx, hvalue⟩ := Word.exists_plus? (y := n) (congrArg (· + n.toNat) s.words_first)
      (Nat.lt_of_le_of_lt hle s.last_lt_word)
    rw [hx, Option.map_some, ofLowBits_eq (haf.trans hf) (hvalue.trans hav.symm)]

/-- With an index beyond it, a span is not the whole space, so its size is a word. -/
theorem exists_skip {others n : Word} (hcount : others.toNat = s.last - s.first) (hn : s.size ≤ n.toNat) :
    ∃ skipped left, others.plus? 1 = some skipped ∧ n.minus? skipped = some left ∧ left.toNat = n.toNat - s.size := by
  have hsize : others.toNat + (1 : Word).toNat = s.size := by
    rw [hcount]
    rfl
  obtain ⟨skipped, hskipped, hvalue⟩ := Word.exists_plus? hsize (Nat.lt_of_le_of_lt hn n.isLt)
  obtain ⟨left, hleft, hrest⟩ := Word.exists_minus? (x := n) (y := skipped) (n := n.toNat - s.size) (by omega)
  exact ⟨skipped, left, hskipped, hleft, hrest⟩

theorem nthWords?_eq : ∀ {ss : List Span} (n : Word), (∀ s ∈ ss, s.family = f) →
    nthWords? f n (ss.map Span.words) = some (nthOf? n.toNat ss)
  | [], _, _ => rfl
  | s :: ss, n, hf => by
    obtain ⟨hs, hss⟩ := List.forall_mem_cons.mp hf
    obtain ⟨others, hothers, hcount⟩ := others_eq s
    have hin : n ≤ others ↔ n.toNat < s.size := by
      rw [BitVec.le_def, hcount, Span.size, Nat.lt_succ_iff]
    rw [List.map_cons, nthWords?, hothers, nthOf?, Option.bind_eq_bind, Option.bind_some]
    by_cases hlt : n.toNat < s.size
    · rw [if_pos (hin.mpr hlt), if_pos hlt]
      exact addressWords?_eq hs hlt
    · obtain ⟨skipped, left, hskipped, hleft, hrest⟩ := exists_skip hcount (Nat.le_of_not_lt hlt)
      rw [if_neg (mt hin.mp hlt), if_neg hlt, hskipped, Option.bind_some, hleft, Option.bind_some, nthWords?_eq _ hss, hrest]

/-! ### Claiming and listing -/

/-- An iterator that goes along with claims of the lowest address yields all addresses. -/
theorem yields_addresses {σ : Type} {step : σ → Option (Option (Address × σ))} {R : σ → Space → Prop}
    (hdone : ∀ k sp, R k sp → sp.takeAddress? = none → step k = some none)
    (hnext : ∀ k sp a left, R k sp → sp.takeAddress? = some (a, left) → ∃ k', step k = some (some (a, k')) ∧ R k' left) :
    ∀ {as : List Address} {k : σ} {sp : Space}, R k sp → sp.addresses = as → Yields step k as
  | [], _, _, hk, has => .done (hdone _ _ hk (takeAddress?_eq_none.mpr has))
  | a :: as, _, sp, hk, has => by
    cases ht : sp.takeAddress? with
    | none => exact nomatch has.symm.trans (takeAddress?_eq_none.mp ht)
    | some r =>
      obtain ⟨b, left⟩ := r
      obtain ⟨k', hstep, hk'⟩ := hnext _ _ _ _ hk ht
      obtain ⟨rfl, hrest⟩ := List.cons.inj (has.symm.trans (addresses_of_takeAddress? ht))
      exact .next hstep (yields_addresses hdone hnext hk' hrest.symm)

theorem takeAddress?_cons (h : sp.takeAddress? = some (a, left)) :
    ∃ s rest, sp.free = s :: rest ∧ a = s.start ∧ left.free = (s.aboveValue? s.first).toList ++ rest := by
  unfold takeAddress? at h
  split at h
  · cases h
  · rename_i s rest hfree
    cases h
    exact ⟨s, rest, hfree, rfl, rfl⟩

theorem free_of_takeAddress?_none (h : sp.takeAddress? = none) : sp.free = [] := by
  unfold takeAddress? at h
  split at h
  · assumption
  · cases h

/-- A span has nothing above its first address, or it goes on right after it. -/
theorem above_first_cases (s : Span) :
    (s.aboveValue? s.first = none ∧ s.first = s.last) ∨
      ∃ t, s.aboveValue? s.first = some t ∧ s.first < s.last ∧ t.family = s.family ∧ t.first = s.first + 1 ∧ t.last = s.last := by
  cases ht : s.aboveValue? s.first with
  | none => exact Or.inl ⟨rfl, Nat.le_antisymm s.first_le_last (Span.aboveValue?_eq_none.mp ht)⟩
  | some t =>
    obtain ⟨hf, h1, h2, hlt⟩ := Span.aboveValue?_eq_some ht
    exact Or.inr ⟨t, rfl, hlt, hf, by omega, h2⟩

theorem yields_claimWords? (h : Ascending f sp.free) :
    Yields (claimWords? f) (sp.free.map Span.words) sp.addresses := by
  refine yields_addresses (R := fun ws sp => Ascending f sp.free ∧ ws = sp.free.map Span.words) ?_ ?_ ⟨h, rfl⟩ rfl
  · rintro _ sp ⟨-, rfl⟩ hnone
    rw [free_of_takeAddress?_none hnone]
    rfl
  · rintro _ sp a left ⟨hasc, rfl⟩ hsome
    refine ⟨left.free.map Span.words, ?_, (takeAddress?_eq_some hasc hsome).2.2.2, rfl⟩
    obtain ⟨s, rest, hfree, rfl, hleft⟩ := takeAddress?_cons hsome
    rw [hfree] at hasc
    have hstart : Address.ofLowBits f s.words.1.toNat = s.start :=
      ofLowBits_eq (hasc.family s List.mem_cons_self) s.words_first
    rw [hfree, hleft, List.map_cons, claimWords?, hstart]
    rcases above_first_cases s with ⟨habove, heq⟩ | ⟨t, habove, hlt, -, hfirst, hlast⟩
    · rw [if_pos (BitVec.eq_of_toNat_eq (by rw [s.words_first, s.words_last, heq])), habove]
      rfl
    · have hne : s.words.1 ≠ s.words.2 := fun heq => by
        have := congrArg BitVec.toNat heq
        rw [s.words_first, s.words_last] at this
        omega
      obtain ⟨next, hnext, hvalue⟩ := Word.exists_plus? (y := 1) (congrArg (· + 1) s.words_first)
        (Nat.lt_of_le_of_lt (Nat.succ_le_of_lt hlt) s.last_lt_word)
      have hbounds : (next, s.words.2) = t.words := by
        refine Prod.ext (BitVec.eq_of_toNat_eq ?_) (BitVec.eq_of_toNat_eq ?_)
        · rw [hvalue, t.words_first, hfirst]
        · rw [s.words_last, t.words_last, hlast]
      rw [if_neg hne, hnext, habove, Option.map_some, hbounds]
      rfl

/-- What a cursor has still to list: the rest of the span it is in, and the spans after it. -/
inductive Ahead (ss : List Span) : Cursor → List Span → Prop where
  | inside {k : Cursor} {s t : Span} {rest : List Span} (drop : ss.drop k.index = s :: rest) (family : t.family = s.family)
      (first : t.first = s.first + k.offset.toNat) (last : t.last = s.last) : Ahead ss k (t :: rest)
  | behind {k : Cursor} (drop : ss.drop k.index = []) : Ahead ss k []

theorem Ahead.of_drop {i : Nat} (h : ss.drop i = rest) : Ahead ss ⟨i, 0⟩ rest := by
  cases rest with
  | nil => exact .behind h
  | cons s rest => exact .inside h rfl rfl rfl

theorem getElem?_words {i : Nat} : (ss.map Span.words)[i]? = (ss.drop i).head?.map Span.words := by
  rw [List.getElem?_map, List.head?_drop]

theorem next?_of_ahead {k : Cursor} (h : Ahead ss k (t :: rest)) (hf : t.family = f) : ∃ k',
    k.next? f (ss.map Span.words) = some (some (t.start, k')) ∧ Ahead ss k' ((t.aboveValue? t.first).toList ++ rest) := by
  cases h with
  | inside hdrop hfamily hfirst hlast =>
    rename_i s
    have hle := t.first_le_last
    have hword := t.last_lt_word
    have hsum : s.words.1.toNat + k.offset.toNat = t.first := by
      rw [s.words_first, hfirst]
    obtain ⟨x, hplus, hx⟩ := Word.exists_plus? hsum (Nat.lt_of_le_of_lt hle hword)
    have hstart : Address.ofLowBits f x.toNat = t.start := ofLowBits_eq hf hx
    have hdrop' : ss.drop (k.index + 1) = rest := by
      rw [← List.tail_drop, hdrop, List.tail_cons]
    rw [Cursor.next?, getElem?_words, hdrop]
    simp only [List.head?_cons, Option.map_some, hplus, Option.bind_eq_bind, Option.bind_some, hstart]
    rcases above_first_cases t with ⟨habove, heq⟩ | ⟨u, habove, hlt, hfu, hfirst', hlast'⟩
    · have hend : x = s.words.2 := BitVec.eq_of_toNat_eq (by rw [hx, s.words_last, heq, hlast])
      rw [if_pos hend, habove]
      exact ⟨_, rfl, .of_drop hdrop'⟩
    · have hne : x ≠ s.words.2 := fun heq => by
        have := congrArg BitVec.toNat heq
        rw [hx, s.words_last] at this
        omega
      have hnext : k.offset.toNat + 1 < 2 ^ 128 := by omega
      obtain ⟨offset, hoffset, hvalue⟩ := Word.exists_plus? (x := k.offset) (y := 1) rfl hnext
      rw [if_neg hne, hoffset, habove]
      refine ⟨_, rfl, .inside hdrop (hfu.trans hfamily) ?_ (hlast'.trans hlast)⟩
      rw [hvalue, hfirst', hfirst]
      rfl

theorem yields_cursor (h : Ascending f sp.free) :
    Yields (Cursor.next? f (sp.free.map Span.words)) .start sp.addresses := by
  refine yields_addresses (R := fun k left => Ascending f left.free ∧ Ahead sp.free k left.free) ?_ ?_
    ⟨h, .of_drop List.drop_zero⟩ rfl
  · rintro k left ⟨-, hk⟩ hnone
    rw [free_of_takeAddress?_none hnone] at hk
    cases hk with
    | behind hdrop =>
      rw [Cursor.next?, getElem?_words, hdrop]
      rfl
  · rintro k before a left ⟨hasc, hk⟩ hsome
    have hleft := (takeAddress?_eq_some hasc hsome).2.2.2
    obtain ⟨t, rest, hfree, rfl, heq⟩ := takeAddress?_cons hsome
    rw [hfree] at hk hasc
    obtain ⟨k', hstep, hk'⟩ := next?_of_ahead hk (hasc.family t List.mem_cons_self)
    exact ⟨k', hstep, hleft, heq ▸ hk'⟩

/-! ### All walks -/

/-- What the walks over a space of a family find on words, where no sum and no difference fails. -/
structure InWords (f : Family) (sp : Space) : Prop where
  size : sizeWords? (sp.free.map Span.words) = some sp.size
  nth : ∀ n : Word, nthWords? f n (sp.free.map Span.words) = some (sp.nth? n.toNat)
  claim : Yields (claimWords? f) (sp.free.map Span.words) sp.addresses
  cursor : Yields (Cursor.next? f (sp.free.map Span.words)) .start sp.addresses

theorem inWords (h : Ascending f sp.free) : InWords f sp where
  size := sizeWords?_eq sp
  nth n := nthWords?_eq n h.family
  claim := yields_claimWords? h
  cursor := yields_cursor h

/-- After any carvings of a computed space, the walks agree on one list of all free addresses: each comes once and in
ascending order, the size is how many there are, the address with an index is the one at that place, and claims take them
one by one from the front. All of it comes out on words too. A computed space and what the children cover of the parent
have as many addresses as the parent. -/
theorem walks_agree (parent : Block) (children : List Block) (ks : List Carving) :
    let sp := ((compute parent children).carveAll ks).1
    (sp.addresses.Pairwise fun a b => a.value < b.value) ∧ (∀ a, a ∈ sp.addresses ↔ a ∈ sp) ∧
      (∀ k, sp.lowest k = sp.addresses.take k) ∧
      (sp.size = sp.addresses.length ∧ sp.size = {a | a ∈ sp}.ncard) ∧
      (∀ n, sp.nth? n = sp.addresses[n]? ∧ (sp.nth? n = none ↔ sp.size ≤ n)) ∧
      (∀ k, (sp.claims k).2 = (List.range k).map (sp.addresses[·]?) ∧
        (sp.claims k).1.addresses = sp.addresses.drop k ∧ InWords parent.family (sp.claims k).1) ∧
      InWords parent.family sp ∧
      (compute parent children).size + {a | a ∈ parent ∧ ∃ c ∈ children, a ∈ c}.ncard = parent.size := by
  intro sp
  have hasc : Ascending parent.family sp.free := (carveAll_without ks (compute_ascending parent children)).ascending
  refine ⟨addresses_pairwise hasc, fun _ => mem_addresses, sp.lowest_eq_take, ⟨sp.size_eq_length, (ncard_mem hasc).symm⟩,
    fun n => ⟨sp.nth?_eq_getElem? n, ?_⟩, fun k => ?_, inWords hasc, size_compute_add parent children⟩
  · rw [sp.nth?_eq_getElem?, sp.size_eq_length, List.getElem?_eq_none_iff]
  · obtain ⟨hclaimed, hleft, hleftasc⟩ := claims_spec k hasc
    exact ⟨hclaimed, hleft, inWords hleftasc⟩

/-- One span with every address of the wider family has a size and a last index. -/
example : sizeWords? [(0, .allOnes 128)] = some (2 ^ 128) ∧
    nthWords? .v6 (.allOnes 128) [(0, .allOnes 128)] = some (some (.ofLowBits .v6 (2 ^ 128 - 1))) := by
  decide +kernel

end Space

end AddressPlan
