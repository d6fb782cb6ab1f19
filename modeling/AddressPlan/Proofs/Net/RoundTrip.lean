import AddressPlan.Proofs.Except
import AddressPlan.Proofs.Net.Bits
import AddressPlan.Proofs.Net.Text
import AddressPlan.Proofs.Text.Blank
import Mathlib.Data.List.TakeDrop

/-!
The text of a block is read back as that block. No character of an address is a blank, a dash or a slash, so a dash stands
only between the two ends of a range and a slash only in front of the length of a network; what is read is what one of the
three forms says.
-/

namespace AddressPlan.Net

open Text

namespace Address

variable {c : Char}

/-- The characters that addresses are written with. -/
def alphabet : List Char :=
  ['0', '1', '2', '3', '4', '5', '6', '7', '8', '9', 'a', 'b', 'c', 'd', 'e', 'f', '.', ':']

theorem mem_alphabet_toDigits {base n : Nat} (hb1 : 1 < base) (hb : base ≤ 16) (h : c ∈ Nat.toDigits base n) : c ∈ alphabet := by
  obtain ⟨d, hd, rfl⟩ := mem_toDigits hb1 n c h
  have hall : ∀ d < 16, Nat.digitChar d ∈ alphabet := by decide
  exact hall d (Nat.lt_of_lt_of_le hd hb)

theorem mem_alphabet_dotted {n : Nat} (h : c ∈ dotted n) : c ∈ alphabet := by
  have hpoint : '.' ∈ alphabet := by decide
  have hdecimal : ∀ m, c ∈ decimal m → c ∈ alphabet := fun m => mem_alphabet_toDigits (by omega) (by omega)
  rw [dotted_eq] at h
  simp only [List.mem_append, List.mem_cons] at h
  rcases h with h | rfl | h | rfl | h | rfl | h
  · exact hdecimal _ h
  · exact hpoint
  · exact hdecimal _ h
  · exact hpoint
  · exact hdecimal _ h
  · exact hpoint
  · exact hdecimal _ h

theorem mem_alphabet_colonSeparated {gs : List Nat} (h : c ∈ colonSeparated gs) : c ∈ alphabet := by
  have hdigits : ∀ g, c ∈ Nat.toDigits 16 g → c ∈ alphabet := fun g => mem_alphabet_toDigits (by omega) (by omega)
  cases gs with
  | nil => cases h
  | cons g gs =>
    rw [colonSeparated_cons] at h
    rcases List.mem_append.mp h with h | h
    · exact hdigits g h
    · obtain ⟨g', -, h⟩ := List.mem_flatMap.mp h
      rcases List.mem_cons.mp h with rfl | h
      · decide
      · exact hdigits g' h

theorem mem_alphabet_colons {n : Nat} (h : c ∈ colons n) : c ∈ alphabet := by
  rw [colons] at h
  split at h
  · rcases List.mem_append.mp h with h | h
    · have hall : "::ffff:".toList.all (· ∈ alphabet) = true := by decide
      exact of_decide_eq_true (List.all_eq_true.mp hall c h)
    · exact mem_alphabet_dotted h
  · dsimp only at h
    split at h
    · rcases List.mem_append.mp h with h | h
      · rcases List.mem_append.mp h with h | h
        · exact mem_alphabet_colonSeparated h
        · have hall : [':', ':'].all (· ∈ alphabet) = true := by decide
          exact of_decide_eq_true (List.all_eq_true.mp hall c h)
      · exact mem_alphabet_colonSeparated h
    · exact mem_alphabet_colonSeparated h

theorem mem_alphabet {a : Address} (h : c ∈ a.chars) : c ∈ alphabet := by
  rw [chars] at h
  split at h
  · exact mem_alphabet_dotted h
  · exact mem_alphabet_colons h

theorem isBlank_chars {a : Address} (h : c ∈ a.chars) : isBlank c = false := by
  have hall : alphabet.all (!isBlank ·) = true := by decide
  exact (Bool.not_eq_true' _).mp (List.all_eq_true.mp hall c (mem_alphabet h))

theorem dash_notMem_chars (a : Address) : '-' ∉ a.chars := fun h => by
  have hnot : '-' ∉ alphabet := by decide
  exact hnot (mem_alphabet h)

end Address

namespace Network

variable {n : Network} {c : Char}

theorem mem_chars (h : c ∈ n.chars) : c ∈ '/' :: Address.alphabet := by
  rcases List.mem_append.mp h with h | h
  · exact List.mem_cons_of_mem _ (Address.mem_alphabet h)
  · rcases List.mem_cons.mp h with rfl | h
    · exact List.mem_cons_self
    · exact List.mem_cons_of_mem _ (Address.mem_alphabet_toDigits (by omega) (by omega) h)

theorem isBlank_chars (h : c ∈ n.chars) : isBlank c = false := by
  have hall : ('/' :: Address.alphabet).all (!isBlank ·) = true := by decide
  exact (Bool.not_eq_true' _).mp (List.all_eq_true.mp hall c (mem_chars h))

theorem dash_notMem_chars (n : Network) : '-' ∉ n.chars := fun h => by
  have hnot : '-' ∉ '/' :: Address.alphabet := by decide
  exact hnot (mem_chars h)

theorem slash_mem_chars (n : Network) : '/' ∈ n.chars :=
  List.mem_append_right _ List.mem_cons_self

/-- An aligned network has no bit set beyond its length. -/
theorem Aligned.bit_eq_false (h : n.Aligned) {i : Nat} (hlow : n.length ≤ i) (hhigh : i < n.family.width) :
    n.address.bit i = false := by
  have hsize : n.address.value % 2 ^ (n.family.width - n.length) = 0 := h.mod_eq_zero
  have hplace : n.family.width - 1 - i < n.family.width - n.length := by omega
  have hbit := Nat.testBit_mod_two_pow n.address.value (n.family.width - n.length) (n.family.width - 1 - i)
  rw [hsize, Nat.zero_testBit, decide_eq_true hplace, Bool.true_and] at hbit
  exact hbit.symm

end Network

namespace Block

variable {b c : Block} {cs : List Char} {d : Char}

/-! ### The three forms -/

theorem splitAt?_cons (x : Char) : splitAt? d (x :: cs) =
    if x = d then some ([], cs) else (splitAt? d cs).map fun r => (x :: r.1, r.2) := by
  simp only [splitAt?, List.span_eq_takeWhile_dropWhile]
  by_cases h : x = d
  · simp [h]
  · have hne : (x != d) = true := bne_iff_ne.mpr h
    simp only [List.takeWhile_cons, List.dropWhile_cons, hne, if_true, if_neg h]
    cases List.dropWhile (fun c => c != d) cs <;> rfl

/-- A text is split where a character stands for the first time. -/
theorem splitAt?_eq_some : ∀ {cs front back : List Char}, splitAt? d cs = some (front, back) ↔ cs = front ++ d :: back ∧ d ∉ front
  | [], front, back => iff_of_false nofun fun h => by simp at h
  | x :: cs, front, back => by
    rw [splitAt?_cons]
    split
    · rename_i hx
      cases front with
      | nil => simp [hx]
      | cons y front =>
        refine iff_of_false nofun ?_
        rintro ⟨hcs, hd⟩
        cases hcs
        exact hd (hx ▸ List.mem_cons_self)
    · rename_i hx
      cases front with
      | nil => simp [hx]
      | cons y front =>
        have ih : splitAt? d cs = some (front, back) ↔ cs = front ++ d :: back ∧ d ∉ front := splitAt?_eq_some
        have hne : d ≠ x := Ne.symm hx
        simp only [Option.map_eq_some_iff, Prod.mk.injEq, Prod.exists, List.cons.injEq, List.cons_append, List.mem_cons, not_or]
        constructor
        · rintro ⟨front', back', h, ⟨rfl, rfl⟩, rfl⟩
          obtain ⟨hcs, hd⟩ := ih.mp h
          exact ⟨⟨rfl, hcs⟩, hne, hd⟩
        · rintro ⟨⟨rfl, hcs⟩, -, hd⟩
          exact ⟨front, back, ih.mpr ⟨hcs, hd⟩, ⟨rfl, rfl⟩, rfl⟩

theorem splitAt?_eq_none : ∀ {cs : List Char}, splitAt? d cs = none ↔ d ∉ cs
  | [] => iff_of_true rfl List.not_mem_nil
  | x :: cs => by
    rw [splitAt?_cons]
    split
    · rename_i hx
      simp [hx]
    · rename_i hx
      rw [Option.map_eq_none_iff, splitAt?_eq_none, List.mem_cons, not_or]
      exact (and_iff_right (Ne.symm hx)).symm

/-- What a text without blanks around it stands for. -/
inductive Reads (cs : List Char) : Block → Prop where
  | range {front back : List Char} {s : Span} (hsplit : cs = front ++ '-' :: back) (hdash : '-' ∉ front)
      (hstart : Address.ofChars? (trim front) = some s.start) (hstop : Address.ofChars? (trim back) = some s.stop) : Reads cs (range s)
  | network {n : Network} (hdash : '-' ∉ cs) (hslash : '/' ∈ cs) (hn : Network.ofChars? cs = some n) : Reads cs (ofNetwork n)
  | host {a : Address} (hdash : '-' ∉ cs) (hslash : '/' ∉ cs) (ha : Address.ofChars? (trim cs) = some a) : Reads cs (host a)

theorem address_eq_ok {bad : BlockError} {a : Address} :
    (match Address.ofChars? cs with | some a => .ok a | none => .error bad : Except BlockError Address) = .ok a ↔
      Address.ofChars? cs = some a := by
  cases Address.ofChars? cs with
  | none => exact ⟨nofun, nofun⟩
  | some x => exact ⟨fun h => by cases h; rfl, fun h => by cases h; rfl⟩

theorem reads_of_ofText {text : String} (h : ofText text = .ok b) : Reads (trim text.toList) b := by
  rw [ofText] at h
  dsimp only at h
  split at h
  · rename_i front back hsplit
    obtain ⟨hcs, hdash⟩ := splitAt?_eq_some.mp hsplit
    obtain ⟨x, hx, h⟩ := bind_eq_ok.mp h
    obtain ⟨y, hy, h⟩ := bind_eq_ok.mp h
    obtain ⟨s, hs, h⟩ := bind_eq_ok.mp h
    cases h
    obtain ⟨rfl, rfl⟩ := Span.between_eq_ok_iff.mp hs
    exact .range hcs hdash (address_eq_ok.mp hx) (address_eq_ok.mp hy)
  · rename_i hsplit
    have hdash := splitAt?_eq_none.mp hsplit
    split at h
    · rename_i hslash
      split at h
      · rename_i n hn
        cases h
        exact .network hdash (List.contains_iff_mem.mp hslash) hn
      · cases h
    · rename_i hslash
      obtain ⟨a, ha, h⟩ := bind_eq_ok.mp h
      cases h
      exact .host hdash (fun hmem => hslash (List.contains_iff_mem.mpr hmem)) (address_eq_ok.mp ha)

theorem ofText_of_reads {text : String} (h : Reads (trim text.toList) b) : ofText text = .ok b := by
  rw [ofText]
  cases h with
  | range hcs hdash hstart hstop =>
    rw [splitAt?_eq_some.mpr ⟨hcs, hdash⟩]
    exact bind_eq_ok.mpr ⟨_, address_eq_ok.mpr hstart, bind_eq_ok.mpr ⟨_, address_eq_ok.mpr hstop,
      bind_eq_ok.mpr ⟨_, Span.between_eq_ok_iff.mpr ⟨rfl, rfl⟩, rfl⟩⟩⟩
  | network hdash hslash hn =>
    rw [splitAt?_eq_none.mpr hdash]
    dsimp only
    rw [if_pos (List.contains_iff_mem.mpr hslash), hn]
    rfl
  | host hdash hslash ha =>
    rw [splitAt?_eq_none.mpr hdash]
    dsimp only
    rw [if_neg fun hmem => hslash (List.contains_iff_mem.mp hmem)]
    exact bind_eq_ok.mpr ⟨_, address_eq_ok.mpr ha, rfl⟩

/-- A text is read exactly if it has one of the three forms. -/
theorem ofText_eq_ok {text : String} : ofText text = .ok b ↔ Reads (trim text.toList) b :=
  ⟨reads_of_ofText, ofText_of_reads⟩

/-! ### There and back -/

theorem Reads.canonical (h : Reads cs b) : b.Canonical := by
  cases h with
  | range => exact trivial
  | network => exact canonical_ofNetwork _
  | host => exact Network.aligned_host _

theorem reads_network (n : Network) : Reads n.chars (ofNetwork n) :=
  .network n.dash_notMem_chars n.slash_mem_chars n.ofChars?_chars

theorem trim_chars (a : Address) : trim a.chars = a.chars :=
  trim_eq_self fun _ => Address.isBlank_chars

theorem reads_between {x y : Address} : Reads (x.chars ++ '-' :: y.chars) b ↔ ∃ s : Span, s.start = x ∧ s.stop = y ∧ b = range s := by
  have hdash : '-' ∈ x.chars ++ '-' :: y.chars := List.mem_append_right _ List.mem_cons_self
  constructor
  · intro h
    cases h with
    | @range front back s hsplit hfront hstart hstop =>
      have hsame : some (x.chars, y.chars) = some (front, back) :=
        calc some (x.chars, y.chars)
          _ = splitAt? '-' (x.chars ++ '-' :: y.chars) := (splitAt?_eq_some.mpr ⟨rfl, x.dash_notMem_chars⟩).symm
          _ = some (front, back) := splitAt?_eq_some.mpr ⟨hsplit, hfront⟩
      cases hsame
      rw [trim_chars, Address.ofChars?_chars] at hstart hstop
      exact ⟨s, (Option.some.inj hstart).symm, (Option.some.inj hstop).symm, rfl⟩
    | network hno => exact absurd hdash hno
    | host hno => exact absurd hdash hno
  · rintro ⟨s, rfl, rfl, rfl⟩
    refine .range rfl s.start.dash_notMem_chars ?_ ?_
    · rw [trim_chars, Address.ofChars?_chars]
    · rw [trim_chars, Address.ofChars?_chars]

theorem Canonical.reads (h : b.Canonical) : Reads b.chars b := by
  cases b with
  | network n =>
    have hn := reads_network n
    rwa [ofNetwork, Network.Aligned.truncate_eq h] at hn
  | range s => exact reads_between.mpr ⟨s, rfl, rfl, rfl⟩

theorem isBlank_between {x y : Address} (h : d ∈ x.chars ++ '-' :: y.chars) : isBlank d = false := by
  rcases List.mem_append.mp h with h | h
  · exact Address.isBlank_chars h
  · rcases List.mem_cons.mp h with rfl | h
    · decide
    · exact Address.isBlank_chars h

theorem isBlank_chars (h : d ∈ b.chars) : isBlank d = false := by
  cases b with
  | network n => exact Network.isBlank_chars h
  | range s => exact isBlank_between h

theorem ofText_ofList (h : ∀ x ∈ cs, isBlank x = false) : ofText (.ofList cs) = .ok b ↔ Reads cs b := by
  rw [ofText_eq_ok, String.toList_ofList, trim_eq_self h]

theorem Canonical.ofText (h : b.Canonical) : ofText b.text = .ok b :=
  (ofText_ofList fun _ => isBlank_chars).mpr h.reads

/-- A block is read back from its text, as the same kind of block, exactly if it has no bits beyond the length of a network;
nothing else is ever read. -/
theorem text_round_trip :
    (∀ b : Block, ofText b.text = .ok b ↔ b.Canonical) ∧
    (∀ text b, ofText text = .ok b → b.Canonical ∧ ofText b.text = .ok b) ∧
    (∀ text n, ofText text = .ok (network n) → ∀ i, n.length ≤ i → i < n.family.width → n.address.bit i = false) ∧
    (∀ b c : Block, b.Canonical → c.Canonical → b.text = c.text → b = c) ∧
    (∀ n : Network, ofText n.text = .ok (network n.truncate)) ∧
    ∀ x y b, ofText (x.text ++ "-" ++ y.text) = .ok b ↔ ∃ s : Span, s.start = x ∧ s.stop = y ∧ b = range s := by
  have hcanonical : ∀ text b, ofText text = .ok b → b.Canonical := fun text b h => (ofText_eq_ok.mp h).canonical
  refine ⟨fun b => ⟨hcanonical b.text b, Canonical.ofText⟩, fun text b h => ⟨hcanonical text b h, (hcanonical text b h).ofText⟩,
    fun text n h i => Network.Aligned.bit_eq_false (hcanonical text (network n) h), fun b c hb hc htext => ?_, fun n => ?_,
    fun x y b => ?_⟩
  · have hsame : Except.ok (ε := BlockError) b = .ok c :=
      calc Except.ok b
        _ = ofText b.text := hb.ofText.symm
        _ = ofText c.text := by rw [htext]
        _ = .ok c := hc.ofText
    exact Except.ok.inj hsame
  · exact (ofText_ofList fun _ => Network.isBlank_chars).mpr (reads_network n)
  · have htext : x.text ++ "-" ++ y.text = .ofList (x.chars ++ '-' :: y.chars) := by
      apply String.toList_injective
      simp [Address.text]
    rw [htext, ofText_ofList fun _ => isBlank_between]
    exact reads_between

/-- An IPv6 network of addresses that are written with octets. -/
def mapped : Network :=
  ⟨⟨.v6, 0xffff0a000000, by decide⟩, 104, by decide⟩

/-- A range between addresses with two gaps of the same length. -/
def tied : Span :=
  ⟨.v6, 0x10000000000010000000000010001, 0x10000000000010000000000010002, by decide, by decide⟩

theorem text_round_trip_gaps :
    (network mapped).text = "::ffff:10.0.0.0/104" ∧ ofText (network mapped).text = .ok (network mapped) ∧
    (∀ i, 104 ≤ i → i < 128 → mapped.address.bit i = false) ∧
    (range tied).text = "1::1:0:0:1:1-1::1:0:0:1:2" ∧ ofText (range tied).text = .ok (range tied) := by
  obtain ⟨hread, -, hbits, -⟩ := text_round_trip
  have haligned : mapped.address.value = mapped.first := by decide
  have hmapped : ofText (network mapped).text = .ok (network mapped) := (hread (network mapped)).mpr haligned
  exact ⟨by decide +kernel, hmapped, hbits _ mapped hmapped, by decide +kernel, (hread (range tied)).mpr trivial⟩

end Block

end AddressPlan.Net
