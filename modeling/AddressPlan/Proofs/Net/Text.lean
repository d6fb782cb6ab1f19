import AddressPlan.Net.Network
import AddressPlan.Proofs.Text.Digits

/-!
The text of an address is read back as that address in either dialect, and the text of a network as that network. IPv4 and
IPv6 differ in how an address is written; a text of the one is never taken for the other, because the first digits of an IPv6
address are not followed by a point.
-/

namespace AddressPlan.Net

open Text

namespace Address

variable {d : Dialect} {n g : Nat} {gs : List Nat} {cs tail : List Char} {room : Nat}

/-! ### Octets -/

theorem noDigit_point : NoDigit 10 ('.' :: cs) :=
  noDigit_cons (by decide)

/-- A number is written without zeros that it does not need, so no dialect objects. -/
theorem octet?_decimal (hn : n < 256) (h : NoDigit 10 tail) : octet? d (decimal n ++ tail) = some (n, tail) := by
  have hlen : (digitList 10 n).length ≤ 3 := length_digitList_le (by omega) (by omega) (by omega) (by omega)
  have hne : (digitList 10 n).isEmpty = false := by
    rw [List.isEmpty_eq_false_iff]
    exact digitList_ne_nil (by omega) (by omega) n
  have hlong : ¬ 3 < (digitList 10 n).length := by omega
  have hzeros : (!d.leadingZeros && (digitList 10 n).head? == some 0 && decide (1 < (digitList 10 n).length)) = false := by
    rcases Nat.eq_zero_or_pos n with rfl | hpos
    · rw [digitList_of_lt (by omega) (by omega)]
      exact Bool.and_false _
    · have hhead : ((digitList 10 n).head? == some 0) = false :=
        beq_false_of_ne (head_digitList_ne_zero (by omega) (by omega) n hpos)
      rw [hhead, Bool.and_false, Bool.false_and]
  simp only [octet?, takeDigits_decimal n h, ofDigits_decimal, hne, hlong, hzeros, hn]
  rfl

theorem quotient_step (b n i : Nat) : n / b ^ (i + 1) * b + n / b ^ i % b = n / b ^ i := by
  rw [Nat.pow_succ, ← Nat.div_div_eq_div_mul]
  exact Nat.div_add_mod' _ _

theorem dotted_eq (n : Nat) : dotted n =
    decimal (n / 256 ^ (3 : Nat) % 256) ++ '.' :: (decimal (n / 256 ^ (2 : Nat) % 256) ++ '.' ::
      (decimal (n / 256 ^ (1 : Nat) % 256) ++ '.' :: decimal (n / 256 ^ (0 : Nat) % 256))) := by
  simp only [dotted, List.map_cons, List.map_nil, List.intercalate, List.intersperse, List.flatten_cons,
    List.flatten_nil, List.cons_append, List.nil_append, List.append_nil]

theorem dotted?_dotted (hn : n < 2 ^ (32 : Nat)) (h : NoDigit 10 tail) : dotted? d (dotted n ++ tail) = some (n, tail) := by
  have hoctet : ∀ i, n / 256 ^ i % 256 < 256 := fun i => Nat.mod_lt _ (by omega)
  have hvalue : ((n / 256 ^ 3 % 256 * 256 + n / 256 ^ 2 % 256) * 256 + n / 256 ^ 1 % 256) * 256 + n / 256 ^ 0 % 256 = n := by
    rw [Nat.mod_eq_of_lt (Nat.div_lt_of_lt_mul (by omega)), quotient_step, quotient_step, quotient_step]
    exact Nat.div_one n
  simp only [dotted_eq, List.append_assoc, List.cons_append, dotted?, Option.bind_eq_bind, Option.bind_some, dropChar?,
    octet?_decimal (hoctet _) noDigit_point, octet?_decimal (hoctet _) h, if_true, hvalue]

/-- A text whose first digits are not followed by a point is not in octets. -/
theorem dotted?_eq_none (h : (takeDigits 10 cs).2.head? ≠ some '.') : dotted? d cs = none := by
  have hdrop : dropChar? '.' (takeDigits 10 cs).2 = none := by
    cases hrest : (takeDigits 10 cs).2 with
    | nil => rfl
    | cons c rest =>
      rw [hrest] at h
      rw [dropChar?, if_neg]
      rintro rfl
      exact h rfl
  cases ho : octet? d cs with
  | none => simp only [dotted?, ho, Option.bind_eq_bind, Option.bind_none]
  | some r =>
    have hr : r.2 = (takeDigits 10 cs).2 := by
      simp only [octet?] at ho
      split at ho
      · cases ho
      split at ho
      · cases ho
      split at ho
      · cases ho
        rfl
      · cases ho
    simp only [dotted?, ho, hr, hdrop, Option.bind_eq_bind, Option.bind_some, Option.bind_none]

/-! ### Groups -/

/-- Where an address may end. -/
inductive Closes : List Char → Prop where
  | slash (rest : List Char) : Closes ('/' :: rest)
  | nil : Closes []

/-- Where a run of groups may end: also in front of a gap. -/
inductive Stops : List Char → Prop where
  | closes {cs : List Char} (h : Closes cs) : Stops cs
  | gap (rest : List Char) : Stops (':' :: ':' :: rest)

/-- Where a group may end: also in front of another one. -/
inductive Ends : List Char → Prop where
  | closes {cs : List Char} (h : Closes cs) : Ends cs
  | colon (rest : List Char) : Ends (':' :: rest)

theorem Closes.noDigit {base : Nat} (hb : base ≤ 16) (h : Closes tail) : NoDigit base tail := by
  cases h with
  | slash rest =>
    have hall : ∀ b < 17, digit? b '/' = none := by decide
    exact noDigit_cons (hall base (Nat.lt_succ_of_le hb))
  | nil => exact noDigit_nil

theorem Stops.ends (h : Stops tail) : Ends tail := by
  cases h with
  | closes h => exact .closes h
  | gap rest => exact .colon _

theorem Ends.noDigit {base : Nat} (hb : base ≤ 16) (h : Ends tail) : NoDigit base tail := by
  cases h with
  | closes h => exact h.noDigit hb
  | colon rest =>
    have hall : ∀ b < 17, digit? b ':' = none := by decide
    exact noDigit_cons (hall base (Nat.lt_succ_of_le hb))

theorem Ends.head_ne_point (h : Ends tail) : tail.head? ≠ some '.' := by
  rcases h with ⟨_ | _⟩ | _ <;> exact nofun

theorem Ends.rest_head (h : Ends tail) : (takeDigits 10 tail).2.head? ≠ some '.' := by
  rw [takeDigits_of_noDigit (h.noDigit (by omega))]
  exact h.head_ne_point

theorem rest_head_append (hc : (takeDigits 10 tail).2.head? ≠ some '.') : ∀ {ds : List Char}, (∀ x ∈ ds, x ≠ '.') →
    (takeDigits 10 (ds ++ tail)).2.head? ≠ some '.'
  | [], _ => hc
  | x :: ds, h => by
    obtain ⟨hx, hds⟩ := List.forall_mem_cons.mp h
    rw [List.cons_append, takeDigits]
    cases digit? 10 x with
    | none =>
      intro heq
      exact hx (Option.some.inj heq)
    | some d => exact rest_head_append hc hds

theorem dotted?_group (h : Ends tail) : dotted? d (Nat.toDigits 16 g ++ tail) = none := by
  refine dotted?_eq_none (rest_head_append h.rest_head fun x hx => ?_)
  obtain ⟨d, hd, rfl⟩ := mem_toDigits (by omega) g x hx
  have hall : ∀ d < 16, Nat.digitChar d ≠ '.' := by decide
  exact hall d hd

theorem dotted?_ends (h : Ends tail) : dotted? d tail = none :=
  dotted?_eq_none h.rest_head

theorem group?_toDigits (hg : g < 65536) (h : Ends tail) : group? (Nat.toDigits 16 g ++ tail) = some (g, tail) := by
  have hlen : (digitList 16 g).length ≤ 4 := length_digitList_le (by omega) (by omega) (by omega) (by omega)
  have hne : (digitList 16 g).isEmpty = false := by
    rw [List.isEmpty_eq_false_iff]
    exact digitList_ne_nil (by omega) (by omega) g
  have hlong : ¬ 4 < (digitList 16 g).length := by omega
  simp only [group?, takeDigits_toDigits (by omega : 1 < 16) (by omega) g (h.noDigit (by omega)),
    ofDigits_digitList (by omega : 1 < 16) (by omega), hne, hlong]
  rfl

theorem group?_ends (h : Ends tail) : group? tail = none := by
  simp only [group?, takeDigits_of_noDigit (h.noDigit (Nat.le_refl 16)), List.isEmpty_nil, Bool.true_or, if_true]

/-- Groups with a colon in front of each. -/
def colonChars (gs : List Nat) : List Char :=
  gs.flatMap fun g => ':' :: Nat.toDigits 16 g

theorem colonChars_cons (g : Nat) (gs : List Nat) (tail : List Char) :
    colonChars (g :: gs) ++ tail = ':' :: (Nat.toDigits 16 g ++ (colonChars gs ++ tail)) := by
  rw [colonChars, List.flatMap_cons, ← colonChars, List.cons_append, List.cons_append, List.append_assoc]

theorem colonSeparated_cons (g : Nat) (gs : List Nat) : colonSeparated (g :: gs) = Nat.toDigits 16 g ++ colonChars gs := by
  induction gs generalizing g with
  | nil => simp [colonSeparated, colonChars, List.intercalate]
  | cons h gs ih =>
    rw [colonChars, List.flatMap_cons, ← colonChars, List.cons_append, ← ih]
    simp [colonSeparated, List.intercalate]

theorem Ends.colonChars (h : Ends tail) (gs : List Nat) : Ends (colonChars gs ++ tail) := by
  cases gs with
  | nil => exact h
  | cons g gs => exact .colon _

theorem takeGroups_false (hgs : ∀ g ∈ gs, g < 65536) (hroom : gs.length ≤ room) (hstop : Stops tail) :
    takeGroups d room false (colonChars gs ++ tail) = ⟨gs, false, tail⟩ := by
  induction gs generalizing room with
  | nil =>
    cases room with
    | zero => rfl
    | succ room =>
      cases hstop with
      | closes h => cases h <;> simp [takeGroups, colonChars, dropChar?]
      | gap rest =>
        have hcolon : Ends (':' :: rest) := .colon rest
        simp [takeGroups, colonChars, dropChar?, dotted?_ends hcolon, group?_ends hcolon]
  | cons g gs ih =>
    obtain ⟨hg, hgs⟩ := List.forall_mem_cons.mp hgs
    obtain ⟨room, rfl⟩ : ∃ r, room = r + 1 := Nat.exists_eq_succ_of_ne_zero (by rintro rfl; cases hroom)
    have hends := hstop.ends.colonChars gs
    simp [takeGroups, colonChars_cons, dropChar?, dotted?_group hends, group?_toDigits hg hends,
      ih hgs (Nat.le_of_succ_le_succ hroom)]

/-- Groups at the start of a text, as far as they go. -/
theorem takeGroups_true (hgs : ∀ g ∈ gs, g < 65536) (hroom : gs.length ≤ room) (hstop : Stops tail) :
    takeGroups d room true (colonSeparated gs ++ tail) = ⟨gs, false, tail⟩ := by
  cases gs with
  | nil =>
    cases room with
    | zero => rfl
    | succ room =>
      simp [takeGroups, colonSeparated, List.intercalate, dotted?_ends hstop.ends, group?_ends hstop.ends]
  | cons g gs =>
    obtain ⟨hg, hgs⟩ := List.forall_mem_cons.mp hgs
    obtain ⟨room, rfl⟩ : ∃ r, room = r + 1 := Nat.exists_eq_succ_of_ne_zero (by rintro rfl; cases hroom)
    have hends := hstop.ends.colonChars gs
    simp [takeGroups, colonSeparated_cons, dotted?_group hends, group?_toDigits hg hends,
      takeGroups_false hgs (Nat.le_of_succ_le_succ hroom) hstop]

/-! ### The gap -/

theorem leading_zeros : ∀ gs : List Nat, (gs.takeWhile (· == 0)).length ≤ gs.length ∧
    List.replicate (gs.takeWhile (· == 0)).length 0 ++ gs.drop (gs.takeWhile (· == 0)).length = gs
  | [] => ⟨Nat.le_refl _, rfl⟩
  | 0 :: gs => by
    obtain ⟨hle, heq⟩ := leading_zeros gs
    exact ⟨Nat.succ_le_succ hle, congrArg (0 :: ·) heq⟩
  | (g + 1) :: gs => ⟨Nat.zero_le _, rfl⟩

/-- The gap stands for zeros. -/
theorem longestGap_zeros : ∀ gs : List Nat, (longestGap gs).1 + (longestGap gs).2 ≤ gs.length ∧
    gs.take (longestGap gs).1 ++ (List.replicate (longestGap gs).2 0 ++ gs.drop ((longestGap gs).1 + (longestGap gs).2)) = gs
  | [] => ⟨Nat.le_refl _, rfl⟩
  | g :: gs => by
    obtain ⟨hle, heq⟩ := longestGap_zeros gs
    rw [longestGap]
    split
    · rw [Nat.zero_add]
      exact leading_zeros (g :: gs)
    · refine ⟨by simp only [List.length_cons]; omega, ?_⟩
      rw [List.take_succ_cons, Nat.add_right_comm, List.drop_succ_cons, List.cons_append, heq]

/-! ### Addresses -/

theorem groups_lt (n : Nat) : ∀ g ∈ groups n, g < 65536 := by
  intro g hg
  obtain ⟨i, -, rfl⟩ := List.mem_map.mp hg
  exact Nat.mod_lt _ (by omega)

theorem ofGroups_groups (hn : n < 2 ^ (128 : Nat)) : ofGroups (groups n) = n := by
  have htop : n / 65536 ^ 7 % 65536 = n / 65536 ^ 7 := Nat.mod_eq_of_lt (Nat.div_lt_of_lt_mul (by omega))
  simp only [ofGroups, ofDigits, groups, List.map_cons, List.map_nil, List.foldl_cons, List.foldl_nil, Nat.zero_mul,
    Nat.zero_add]
  rw [htop, quotient_step, quotient_step, quotient_step, quotient_step, quotient_step, quotient_step, quotient_step]
  exact Nat.div_one n

theorem ofGroups_mapped (hmapped : isMapped n = true) :
    ofGroups ([] ++ List.replicate 5 0 ++ [0xffff, n % 2 ^ (32 : Nat) / 65536, n % 2 ^ (32 : Nat) % 65536]) = n := by
  have hhigh : n / 2 ^ (32 : Nat) = 0xffff := by simpa [isMapped] using hmapped
  have hn := Nat.div_add_mod n (2 ^ (32 : Nat))
  have hlow := Nat.div_add_mod (n % 2 ^ (32 : Nat)) 65536
  simp [ofGroups, ofDigits]
  omega

theorem takeGroups_mapped {m : Nat} (hm : m < 2 ^ (32 : Nat)) (hroom : 3 ≤ room) (h : Closes tail) :
    takeGroups d room true (Nat.toDigits 16 0xffff ++ ':' :: (dotted m ++ tail)) =
      ⟨[0xffff, m / 65536, m % 65536], true, tail⟩ := by
  obtain ⟨room, rfl⟩ := Nat.exists_eq_add_of_le' hroom
  have hcolon : Ends (':' :: (dotted m ++ tail)) := .colon _
  have hrest : takeGroups d (room + 2) false (':' :: (dotted m ++ tail)) = ⟨[m / 65536, m % 65536], true, tail⟩ := by
    simp [takeGroups, dropChar?, dotted?_dotted hm (h.noDigit (by omega))]
  have hgroup : group? (Nat.toDigits 16 0xffff ++ ':' :: (dotted m ++ tail)) = some (0xffff, ':' :: (dotted m ++ tail)) :=
    group?_toDigits (by omega) hcolon
  rw [takeGroups]
  simp [dotted?_group hcolon, hgroup, hrest]

/-- Groups around a double colon, which stands for zeros. There are more than one, so the strict dialect has room too. -/
theorem colons?_gap {front back : List Nat} (zeros : Nat) {last : Bool} {rest : List Char} (hfront : ∀ g ∈ front, g < 65536)
    (hlen : front.length + zeros + back.length = 8) (hzeros : 1 < zeros)
    (hback : ∀ room, back.length ≤ room → takeGroups d room true cs = ⟨back, last, rest⟩) :
    colons? d (colonSeparated front ++ ':' :: ':' :: cs) =
      some (ofGroups (front ++ List.replicate zeros 0 ++ back), rest) := by
  have hhead : takeGroups d 8 true (colonSeparated front ++ ':' :: ':' :: cs) = ⟨front, false, ':' :: ':' :: cs⟩ :=
    takeGroups_true hfront (by omega) (.gap cs)
  have hne : front.length ≠ 8 := by omega
  have hcount : 8 - front.length - back.length = zeros := by omega
  have hroom : back.length ≤ if d.idleGap then 8 - front.length else 7 - front.length := by
    split <;> omega
  simp [colons?, hhead, hne, dropChar?, hback _ hroom, hcount]

theorem colons?_longestGap (hgs : ∀ g ∈ gs, g < 65536) (hlen : gs.length = 8) (hgap : 1 < (longestGap gs).2)
    (h : Closes tail) :
    colons? d (colonSeparated (gs.take (longestGap gs).1) ++ ':' :: ':' ::
      (colonSeparated (gs.drop ((longestGap gs).1 + (longestGap gs).2)) ++ tail)) = some (ofGroups gs, tail) := by
  obtain ⟨hle, heq⟩ := longestGap_zeros gs
  generalize (longestGap gs).1 = start, (longestGap gs).2 = zeros at *
  have hfront : ∀ g ∈ gs.take start, g < 65536 := fun g hg => hgs g (List.mem_of_mem_take hg)
  have hback : ∀ g ∈ gs.drop (start + zeros), g < 65536 := fun g hg => hgs g (List.mem_of_mem_drop hg)
  have htake : (gs.take start).length = start := List.length_take_of_le (by omega)
  have hdrop : (gs.drop (start + zeros)).length = gs.length - (start + zeros) := List.length_drop
  have hall := colons?_gap (d := d) zeros hfront (by omega) (by omega) fun room hroom =>
    takeGroups_true hback hroom (.closes h)
  rw [List.append_assoc, heq] at hall
  exact hall

theorem colons?_colons (hn : n < 2 ^ (128 : Nat)) (h : Closes tail) : colons? d (colons n ++ tail) = some (n, tail) := by
  rw [colons]
  split
  · rename_i hmapped
    have hlow : n % 2 ^ (32 : Nat) < 2 ^ (32 : Nat) := Nat.mod_lt n (by omega)
    have hall := colons?_gap (d := d) 5 (List.forall_mem_nil _) (by rfl) (by omega) fun room hroom =>
      takeGroups_mapped hlow hroom h
    rw [ofGroups_mapped hmapped] at hall
    exact hall
  · dsimp only
    split
    · rename_i hgap
      have hall := colons?_longestGap (d := d) (groups_lt n) rfl hgap h
      rw [ofGroups_groups hn] at hall
      rw [List.append_assoc, List.append_assoc, List.cons_append, List.cons_append, List.nil_append]
      exact hall
    · have hgroups : takeGroups d 8 true (colonSeparated (groups n) ++ tail) = ⟨groups n, false, tail⟩ :=
        takeGroups_true (groups_lt n) (Nat.le_refl _) (.closes h)
      have hlen : (groups n).length = 8 := rfl
      simp [colons?, hgroups, hlen, ofGroups_groups hn]

theorem dotted?_colonSeparated (h : Ends tail) : dotted? d (colonSeparated gs ++ tail) = none := by
  cases gs with
  | nil => exact dotted?_ends h
  | cons g gs =>
    rw [colonSeparated_cons, List.append_assoc]
    exact dotted?_group (h.colonChars gs)

theorem dotted?_colons (h : Closes tail) : dotted? d (colons n ++ tail) = none := by
  rw [colons]
  split
  · exact dotted?_ends (.colon _)
  · dsimp only
    split
    · rw [List.append_assoc, List.append_assoc]
      exact dotted?_colonSeparated (.colon _)
    · exact dotted?_colonSeparated (.closes h)

theorem take?_chars (d : Dialect) (a : Address) (h : Closes tail) : take? d (a.chars ++ tail) = some (a, tail) := by
  obtain ⟨f, n, hn⟩ := a
  cases f with
  | v4 =>
    have hdotted : dotted? d (dotted n ++ tail) = some (n, tail) := dotted?_dotted hn (h.noDigit (by omega))
    simp [take?, chars, hdotted, ofValue?, hn]
  | v6 => simp [take?, chars, dotted?_colons h, colons?_colons hn h, ofValue?, hn]

theorem ofChars?_chars (a : Address) : ofChars? a.chars = some a := by
  have htake := take?_chars .strict a .nil
  rw [List.append_nil] at htake
  rw [ofChars?, htake]

end Address

namespace Network

theorem text_eq (n : Network) : n.text = s!"{n.address.text}/{n.length}" := by
  apply String.toList_injective
  simp [text, chars, Address.text, decimal, toString]

theorem length_digits_le (n : Network) : (digitList 10 n.length).length ≤ lengthDigits n.address.family := by
  have hle := n.length_le
  cases hf : n.address.family with
  | v4 =>
    rw [hf] at hle
    exact length_digitList_le (by omega) (by omega) (by decide) (Nat.lt_of_le_of_lt hle (by decide))
  | v6 =>
    rw [hf] at hle
    exact length_digitList_le (by omega) (by omega) (by decide) (Nat.lt_of_le_of_lt hle (by decide))

theorem ofChars?_chars (n : Network) : ofChars? n.chars = some n := by
  have hdigits : takeDigits 10 (decimal n.length) = (digitList 10 n.length, []) := by
    have h := takeDigits_decimal n.length noDigit_nil
    rwa [List.append_nil] at h
  have hne : digitList 10 n.length ≠ [] := digitList_ne_nil (by omega) (by omega) n.length
  have hlong : ¬ lengthDigits n.address.family < (digitList 10 n.length).length := Nat.not_lt.mpr n.length_digits_le
  simp [ofChars?, chars, Address.take?_chars .tolerant n.address (.slash _), dropChar?, hdigits, hne, hlong, ofDigits_decimal, of?, n.length_le]

end Network

end AddressPlan.Net
