import AddressPlan.Number.Power
import AddressPlan.Text.Digits
import Mathlib.Data.Nat.Digits.Defs

/-!
Numbers that are written in digits are read back. The digits of a number end where a character follows that is
no digit, and zeros in front of them do not count.
-/

namespace AddressPlan.Text

variable {base n d : Nat} {cs tail : List Char}

/-- The text does not go on with a digit. -/
def NoDigit (base : Nat) (cs : List Char) : Prop :=
  ∀ c ∈ cs.head?, digit? base c = none

theorem noDigit_nil : NoDigit base [] := fun _ hc => nomatch hc

theorem noDigit_cons {c : Char} (h : digit? base c = none) : NoDigit base (c :: cs) := by
  intro x hx
  cases hx
  exact h

/-! ### One digit -/

theorem digit?_digitChar (hb : base ≤ 16) (hd : d < base) : digit? base d.digitChar = some d := by
  have hall : ∀ b < 17, ∀ d < b, digit? b d.digitChar = some d := by decide
  exact hall base (Nat.lt_succ_of_le hb) d hd

theorem digit?_ten_eq_some {c : Char} : digit? 10 c = some d ↔ d < 10 ∧ c = d.digitChar := by
  constructor
  · intro h
    have hrange : '0' ≤ c ∧ c ≤ '9' := by
      refine Decidable.byContradiction fun hc => ?_
      simp only [digit?, if_neg hc] at h
      split at h <;> split at h <;> first | omega | cases h
    obtain ⟨h0, h9⟩ := hrange
    have h0 : 48 ≤ c.toNat := h0
    have h9 : c.toNat ≤ 57 := h9
    have hvalue : c.toNat - 48 < 10 := by omega
    have hchar : c = (c.toNat - 48).digitChar := by
      apply Char.toNat_inj.mp
      rw [Nat.toNat_digitChar_of_lt_ten hvalue]
      omega
    rw [hchar, digit?_digitChar (by omega) hvalue] at h
    obtain rfl := Option.some.inj h
    exact ⟨hvalue, hchar⟩
  · rintro ⟨hd, rfl⟩
    exact digit?_digitChar (by omega) hd

theorem mem_toDigits (hb : 1 < base) : ∀ n : Nat, ∀ c ∈ Nat.toDigits base n, ∃ d, d < base ∧ c = d.digitChar := by
  intro n
  induction n using Nat.strongRecOn with
  | ind n ih =>
    intro c hc
    rw [Nat.toDigits_eq_if hb] at hc
    split at hc
    · rename_i hlt
      exact ⟨n, hlt, List.mem_singleton.mp hc⟩
    · rename_i hge
      rcases List.mem_append.mp hc with hc | hc
      · exact ih (n / base) (Nat.div_lt_self (by omega) hb) c hc
      · exact ⟨n % base, Nat.mod_lt _ (by omega), List.mem_singleton.mp hc⟩

theorem exists_decimal_cons (n : Nat) : ∃ d cs, d < 10 ∧ decimal n = Nat.digitChar d :: cs := by
  obtain ⟨c, cs, heq⟩ := List.exists_cons_of_length_pos (Nat.length_toDigits_pos (b := 10) (n := n))
  have hmem : c ∈ Nat.toDigits 10 n := by
    rw [heq]
    exact List.mem_cons_self
  obtain ⟨d, hd, rfl⟩ := mem_toDigits (by omega) n c hmem
  exact ⟨d, cs, hd, heq⟩

/-! ### The digits of a number -/

def digitList (base n : Nat) : List Nat :=
  (Nat.toDigits base n).filterMap (digit? base)

theorem digitList_of_lt (hb : base ≤ 16) (h : n < base) : digitList base n = [n] := by
  rw [digitList, Nat.toDigits_of_lt_base h, List.filterMap_cons_some (digit?_digitChar hb h)]
  rfl

theorem digitList_of_le (hb1 : 1 < base) (hb : base ≤ 16) (h : base ≤ n) :
    digitList base n = digitList base (n / base) ++ [n % base] := by
  have hmod : n % base < base := Nat.mod_lt _ (by omega)
  rw [digitList, Nat.toDigits_of_base_le hb1 h, List.filterMap_append,
    List.filterMap_cons_some (digit?_digitChar hb hmod)]
  rfl

theorem ofDigits_append (ds : List Nat) (d : Nat) : ofDigits base (ds ++ [d]) = ofDigits base ds * base + d := by
  rw [ofDigits, List.foldl_append]
  rfl

theorem ofDigits_digitList (hb1 : 1 < base) (hb : base ≤ 16) (n : Nat) : ofDigits base (digitList base n) = n := by
  induction n using Nat.strongRecOn with
  | ind n ih =>
    rcases Nat.lt_or_ge n base with h | h
    · rw [digitList_of_lt hb h]
      simp [ofDigits]
    · rw [digitList_of_le hb1 hb h, ofDigits_append, ih (n / base) (Nat.div_lt_self (by omega) hb1)]
      exact Nat.div_add_mod' n base

theorem length_digitList (hb1 : 1 < base) (hb : base ≤ 16) (n : Nat) :
    (digitList base n).length = (Nat.toDigits base n).length := by
  rw [digitList, List.length_filterMap_eq_countP, List.countP_eq_length]
  intro c hc
  obtain ⟨d, hd, rfl⟩ := mem_toDigits hb1 n c hc
  rw [digit?_digitChar hb hd]
  rfl

theorem length_digitList_le (hb1 : 1 < base) (hb : base ≤ 16) {k : Nat} (hk : 0 < k) (h : n < base ^ k) :
    (digitList base n).length ≤ k := by
  rw [length_digitList hb1 hb, Nat.length_toDigits_le_iff hb1 hk]
  exact h

theorem digitList_ne_nil (hb1 : 1 < base) (hb : base ≤ 16) (n : Nat) : digitList base n ≠ [] := by
  apply List.ne_nil_of_length_pos
  rw [length_digitList hb1 hb]
  exact Nat.length_toDigits_pos

/-- Only the number zero starts with the digit zero. -/
theorem head_digitList_ne_zero (hb1 : 1 < base) (hb : base ≤ 16) : ∀ n : Nat, 0 < n → (digitList base n).head? ≠ some 0 := by
  intro n
  induction n using Nat.strongRecOn with
  | ind n ih =>
    intro hn
    rcases Nat.lt_or_ge n base with h | h
    · rw [digitList_of_lt hb h, List.head?_cons]
      intro h0
      cases h0
      exact Nat.lt_irrefl _ hn
    · have hpos : 0 < n / base := Nat.div_pos h (by omega)
      have hlt : n / base < n := Nat.div_lt_self hn hb1
      obtain ⟨d, ds, hds⟩ := List.exists_cons_of_ne_nil (digitList_ne_nil hb1 hb (n / base))
      have hih := ih (n / base) hlt hpos
      rw [digitList_of_le hb1 hb h]
      rw [hds] at hih ⊢
      exact hih

/-! ### Taking digits off a text -/

theorem takeDigits_of_noDigit (h : NoDigit base tail) : takeDigits base tail = ([], tail) := by
  cases tail with
  | nil => rfl
  | cons c cs => rw [takeDigits, h c rfl]

theorem takeDigits_append (h : NoDigit base tail) : ∀ {cs : List Char}, (∀ c ∈ cs, (digit? base c).isSome) →
    takeDigits base (cs ++ tail) = (cs.filterMap (digit? base), tail)
  | [], _ => takeDigits_of_noDigit h
  | c :: cs, hcs => by
    obtain ⟨hc, hrest⟩ := List.forall_mem_cons.mp hcs
    obtain ⟨d, hd⟩ := Option.isSome_iff_exists.mp hc
    rw [List.cons_append, takeDigits, hd, takeDigits_append h hrest, List.filterMap_cons_some hd]

theorem isSome_toDigits (hb1 : 1 < base) (hb : base ≤ 16) (n : Nat) :
    ∀ c ∈ Nat.toDigits base n, (digit? base c).isSome := by
  intro c hc
  obtain ⟨d, hd, rfl⟩ := mem_toDigits hb1 n c hc
  rw [digit?_digitChar hb hd]
  rfl

theorem takeDigits_toDigits (hb1 : 1 < base) (hb : base ≤ 16) (n : Nat) (h : NoDigit base tail) :
    takeDigits base (Nat.toDigits base n ++ tail) = (digitList base n, tail) :=
  takeDigits_append h (isSome_toDigits hb1 hb n)

theorem takeDigits_decimal (n : Nat) (h : NoDigit 10 tail) :
    takeDigits 10 (decimal n ++ tail) = (digitList 10 n, tail) :=
  takeDigits_toDigits (by omega) (by omega) n h

theorem ofDigits_decimal (n : Nat) : ofDigits 10 (digitList 10 n) = n :=
  ofDigits_digitList (by omega) (by omega) n

/-- Numbers are told apart by their digits, if what follows these is no digit. -/
theorem repr_append_inj {m : Nat} {s t : String} (hs : NoDigit 10 s.toList) (ht : NoDigit 10 t.toList) :
    n.repr ++ s = m.repr ++ t ↔ n = m ∧ s = t := by
  have hdigits : ∀ k : Nat, k.repr.toList = decimal k := fun _ => String.toList_ofList
  constructor
  · intro h
    have htake := congrArg (fun text => takeDigits 10 text.toList) h
    simp only [String.toList_append, hdigits, takeDigits_decimal _ hs, takeDigits_decimal _ ht, Prod.mk.injEq] at htake
    obtain ⟨hnumber, htail⟩ := htake
    refine ⟨?_, String.toList_inj.mp htail⟩
    rw [← ofDigits_decimal n, hnumber, ofDigits_decimal]
  · rintro ⟨rfl, rfl⟩
    rfl

/-! ### Whole texts -/

/-- Decimal digits, at least one, that stand for a number. -/
def IsDecimal (cs : List Char) (n : Nat) : Prop :=
  ∃ ds, ds ≠ [] ∧ (∀ d ∈ ds, d < 10) ∧ cs = ds.map Nat.digitChar ∧ Nat.ofDigits 10 ds.reverse = n

theorem ofDigits_eq (base : Nat) (ds : List Nat) : ofDigits base ds = Nat.ofDigits base ds.reverse := by
  rw [Nat.ofDigits_eq_foldr, List.foldr_reverse, ofDigits]
  simp only [Nat.cast_id, Nat.add_comm, Nat.mul_comm]

theorem takeDigits_eq_whole : ∀ {cs : List Char} {ds : List Nat}, takeDigits base cs = (ds, []) ↔ cs.map (digit? base) = ds.map some
  | [], [] => iff_of_true rfl rfl
  | [], d :: ds => iff_of_false nofun nofun
  | c :: cs, ds => by
    rw [takeDigits, List.map_cons]
    cases digit? base c with
    | none => exact iff_of_false nofun fun h => by cases ds <;> cases h
    | some e =>
      cases ds with
      | nil => exact iff_of_false nofun nofun
      | cons d ds =>
        have ih : takeDigits base cs = (ds, []) ↔ cs.map (digit? base) = ds.map some := takeDigits_eq_whole
        simp only [Prod.ext_iff, List.map_cons, List.cons.injEq, Option.some.injEq, and_assoc] at ih ⊢
        exact and_congr_right fun _ => ih

theorem map_digit?_ten : ∀ {cs : List Char} {ds : List Nat},
    cs.map (digit? 10) = ds.map some ↔ (∀ d ∈ ds, d < 10) ∧ cs = ds.map Nat.digitChar
  | [], [] => iff_of_true rfl ⟨fun _ h => absurd h List.not_mem_nil, rfl⟩
  | [], d :: ds => iff_of_false nofun nofun
  | c :: cs, [] => iff_of_false nofun nofun
  | c :: cs, d :: ds => by
    simp only [List.map_cons, List.cons.injEq, List.forall_mem_cons, digit?_ten_eq_some, map_digit?_ten]
    exact ⟨fun ⟨⟨hd, hc⟩, hds, hcs⟩ => ⟨⟨hd, hds⟩, hc, hcs⟩, fun ⟨⟨hd, hds⟩, hc, hcs⟩ => ⟨⟨hd, hc⟩, hds, hcs⟩⟩

theorem number?_ten_eq_some : number? 10 cs = some n ↔ IsDecimal cs n := by
  constructor
  · intro h
    unfold number? at h
    split at h
    · rename_i d ds htake
      obtain ⟨hds, hcs⟩ := map_digit?_ten.mp (takeDigits_eq_whole.mp htake)
      exact ⟨d :: ds, nofun, hds, hcs, (ofDigits_eq _ _).symm.trans (Option.some.inj h)⟩
    · cases h
  · rintro ⟨ds, hne, hds, hcs, rfl⟩
    obtain ⟨d, ds, rfl⟩ := List.exists_cons_of_ne_nil hne
    rw [number?, takeDigits_eq_whole.mpr (map_digit?_ten.mpr ⟨hds, hcs⟩)]
    exact congrArg some (ofDigits_eq _ _)

/-! ### Zeros in front -/

theorem isSome_padded (width n : Nat) : ∀ c ∈ padded width n, (digit? 10 c).isSome := by
  intro c hc
  rcases List.mem_append.mp hc with hc | hc
  · rw [List.eq_of_mem_replicate hc]
    decide
  · exact isSome_toDigits (by omega) (by omega) n c hc

theorem length_padded {width : Nat} (hw : 0 < width) (h : n < 10 ^ width) : (padded width n).length = width := by
  have hle := (Nat.length_toDigits_le_iff (by omega : 1 < 10) hw).mpr h
  rw [padded, List.length_append, List.length_replicate, decimal]
  omega

theorem width_le_length_padded (width n : Nat) : width ≤ (padded width n).length := by
  rw [padded, List.length_append, List.length_replicate]
  omega

theorem ofDigits_zeros (ds : List Nat) : ∀ k : Nat, ofDigits base (List.replicate k 0 ++ ds) = ofDigits base ds
  | 0 => rfl
  | k + 1 => by
    rw [List.replicate_succ, List.cons_append]
    show List.foldl _ (0 * base + 0) _ = _
    rw [Nat.zero_mul]
    exact ofDigits_zeros ds k

theorem ofDigits_padded (width n : Nat) : ofDigits 10 ((padded width n).filterMap (digit? 10)) = n := by
  have hzero : (List.replicate (width - (decimal n).length) '0').filterMap (digit? 10) =
      List.replicate (width - (decimal n).length) 0 := by
    rw [List.filterMap_replicate]
    rfl
  rw [padded, List.filterMap_append, hzero, ofDigits_zeros]
  exact ofDigits_decimal n

end AddressPlan.Text
