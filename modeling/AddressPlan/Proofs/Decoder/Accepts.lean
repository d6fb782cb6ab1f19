import AddressPlan.Decoder.Record
import AddressPlan.Proofs.Json.Reads

/-!
What decoders accept: a decoder accepts a value if it reads the text that the printer makes of it, at any level of
indentation, as what the value stands for. Combinators of decoders accept what their parts accept.
-/

namespace AddressPlan.Decoder

open Json Json.Reader Text

variable {α β σ : Type} {d : Decoder α} {v : Json} {a : α}

/-- The decoder reads the printed value, which starts like a value, as `a`. -/
structure Accepts (d : Decoder α) (v : Json) (a : α) : Prop where
  starts : ∀ level, ∃ c cs, prettyChars level v = c :: cs ∧ isFiller c = false ∧ c ≠ ']'
  takes : ∀ level front tail, Fillers front → Follows tail → Takes d.read (front ++ (prettyChars level v ++ tail)) a tail

theorem Accepts.map (f : α → β) (h : Accepts d v a) : Accepts (d.map f) v (f a) where
  starts := h.starts
  takes level front tail hfront htail := .bind (h.takes level front tail hfront htail) (.pure _ tail)

/-! ### Texts -/

theorem starts_string (s : String) (level : Nat) :
    ∃ c cs, prettyChars level (.string s) = c :: cs ∧ isFiller c = false ∧ c ≠ ']' := by
  rw [prettyChars]
  exact ⟨'"', _, rfl, by rfl, by decide⟩

theorem accepts_text (expected s : String) : Accepts (text expected) (.string s) s where
  starts := starts_string s
  takes level front tail hfront _ := by
    rw [prettyChars, stringChars_append]
    exact .located (.bind (.peekPart hfront (by rfl) _) (.quotedString s tail))

theorem accepts_string (s : String) : Accepts string (.string s) s :=
  accepts_text _ s

theorem accepts_parsed {expected s : String} {parse : String → Except String α} (h : parse s = .ok a) :
    Accepts (parsed expected parse) (.string s) a where
  starts := starts_string s
  takes level front tail hfront htail := by
    refine .located (.bind ((accepts_text expected s).takes level front tail hfront htail) ?_)
    dsimp only
    rw [h]
    exact .pure a tail

theorem accepts_choice {options : List (String × α)} {name : String} (h : options.find? (·.1 == name) = some (name, a)) :
    Accepts (choice options) (.string name) a where
  starts := starts_string name
  takes level front tail hfront htail := by
    have hchoose : choose options name = .ok a := by rw [choose, h]
    have hname := (accepts_text "variant identifier" name).takes level [] tail fillers_nil htail
    rw [prettyChars, stringChars_append] at hname ⊢
    refine .bind (.peekPart hfront (by rfl) _) (.located (.bind hname ?_))
    rw [hchoose]
    exact .pure a tail

/-! ### Truth values and integers -/

theorem accepts_bool (b : Bool) : Accepts bool (.bool b) b where
  starts level := by
    cases b with
    | true => exact ⟨'t', _, by rw [prettyChars], by rfl, by decide⟩
    | false => exact ⟨'f', _, by rw [prettyChars], by rfl, by decide⟩
  takes level front tail hfront _ := by
    cases b with
    | true =>
      rw [prettyChars]
      exact .located (.bind (.peekPart hfront (by rfl) _) (.bind (.ident tail ['t', 'r', 'u', 'e']) (.pure true tail)))
    | false =>
      rw [prettyChars]
      exact .located (.bind (.peekPart hfront (by rfl) _) (.bind (.ident tail ['f', 'a', 'l', 's', 'e']) (.pure false tail)))

theorem prettyChars_nat (level n : Nat) : prettyChars level (.nat n) = decimal n := by
  rw [Json.nat, prettyChars, Number.chars, integerChars, if_neg (by omega)]
  rfl

theorem digitChar_starts {d : Nat} (hd : d < 10) : isFiller d.digitChar = false ∧ d.digitChar.isDigit = true ∧
    d.digitChar ≠ ']' ∧ d.digitChar ≠ 'n' := by
  have hall : ∀ d < 10, isFiller (Nat.digitChar d) = false ∧ (Nat.digitChar d).isDigit = true ∧
    Nat.digitChar d ≠ ']' ∧ Nat.digitChar d ≠ 'n' := by decide
  exact hall d hd

theorem accepts_integer {name : String} {low high : Int} {n : Nat} (hn : n ≤ maxInteger) (hlow : low ≤ n) (hhigh : n ≤ high) :
    Accepts (integer name low high) (.nat n) n where
  starts level := by
    obtain ⟨d, cs, hd, heq⟩ := exists_decimal_cons n
    obtain ⟨hfiller, -, hend, -⟩ := digitChar_starts hd
    exact ⟨_, cs, by rw [prettyChars_nat, heq], hfiller, hend⟩
  takes level front tail hfront htail := by
    obtain ⟨d, cs, hd, heq⟩ := exists_decimal_cons n
    obtain ⟨hfiller, hdigit, -, -⟩ := digitChar_starts hd
    have hnumber := Takes.signedNumber hn htail
    rw [prettyChars_nat]
    rw [heq, List.cons_append] at hnumber ⊢
    refine .located (.bind (.peekPart hfront hfiller _) ?_)
    dsimp only
    rw [if_pos (Or.inr hdigit)]
    refine .bind hnumber ?_
    dsimp only
    rw [if_pos ⟨hlow, hhigh⟩]
    exact .pure _ tail

theorem accepts_uint64 (n : UInt64) : Accepts uint64 (.nat n.toNat) n := by
  have hn : n.toNat ≤ maxInteger := Nat.le_of_lt_succ n.toNat_lt
  have hint : Accepts (integer "u64" 0 maxInteger) (.nat n.toNat) n.toNat :=
    accepts_integer hn (Int.natCast_nonneg _) (Int.ofNat_le.mpr hn)
  have h := hint.map fun i : Int => UInt64.ofNat i.toNat
  rw [Int.toNat_natCast, UInt64.ofNat_toNat] at h
  exact h

/-! ### Options and lists -/

theorem accepts_none : Accepts (option d) .null none where
  starts level := ⟨'n', _, by rw [prettyChars], by rfl, by decide⟩
  takes level front tail hfront _ := by
    rw [prettyChars]
    exact .bind (.peekPart hfront (by rfl) _) (.bind (.ident tail ['n', 'u', 'l', 'l']) (.pure none tail))

theorem accepts_some (h : Accepts d v a) (hv : ∀ level, (prettyChars level v).head? ≠ some 'n') :
    Accepts (option d) v (some a) where
  starts := h.starts
  takes level front tail hfront htail := by
    obtain ⟨c, cs, heq, hfiller, -⟩ := h.starts level
    have hc : c ≠ 'n' := by
      rintro rfl
      exact hv level (by rw [heq]; rfl)
    have hvalue := h.takes level [] tail fillers_nil htail
    rw [heq, List.nil_append, List.cons_append] at hvalue
    rw [heq, List.cons_append]
    refine .bind (.peekPart hfront hfiller _) ?_
    split
    · rename_i hn
      exact absurd (Option.some.inj hn) hc
    · exact .bind hvalue (.pure _ tail)

/-- An option is written as null or as its value, which does not look like null. -/
theorem accepts_ofOption {f : α → Json} (h : ∀ a, Accepts d (f a) a) (hf : ∀ a level, (prettyChars level (f a)).head? ≠ some 'n') :
    ∀ o : Option α, Accepts (option d) (.ofOption f o) o
  | none => accepts_none
  | some a => accepts_some (h a) (hf a)

theorem head_string (s : String) (level : Nat) : (prettyChars level (.string s)).head? ≠ some 'n' := by
  rw [prettyChars]
  exact nofun

theorem head_nat (n level : Nat) : (prettyChars level (.nat n)).head? ≠ some 'n' := by
  obtain ⟨d, cs, hd, heq⟩ := exists_decimal_cons n
  rw [prettyChars_nat, heq]
  intro h
  exact (digitChar_starts hd).2.2.2 (Option.some.inj h)

theorem follows_newline (level : Nat) (cs : List Char) : Follows (newline level ++ cs) := by
  intro c hc
  cases hc
  exact Or.inr rfl

theorem follows_items (level outer : Nat) (items : List Json) (cs : List Char) :
    Follows (prettyItems level items ++ (newline outer ++ cs)) := by
  cases items with
  | nil =>
    rw [prettyItems]
    exact follows_newline outer cs
  | cons item items =>
    rw [prettyItems]
    intro c hc
    cases hc
    exact Or.inl rfl

theorem length_prettyItems (level : Nat) : ∀ items : List Json, items.length ≤ (prettyItems level items).length
  | [] => Nat.zero_le _
  | item :: items => by
    have h := length_prettyItems level items
    rw [prettyItems]
    simp only [List.length_cons, List.length_append]
    omega

variable {f : α → Json}

theorem takes_items (level outer : Nat) (tail : List Char) : ∀ {as : List α}, (∀ a ∈ as, Accepts d (f a) a) → ∀ {fuel : Nat},
    as.length < fuel → Takes (items d.read fuel false) (prettyItems level (as.map f) ++ (newline outer ++ ']' :: tail)) as (']' :: tail)
  | [], _, fuel + 1, _ => .bind (.noItem false (fillers_newline outer) tail) (.pure [] _)
  | a :: as, h, fuel + 1, hfuel => by
    obtain ⟨ha, has⟩ := List.forall_mem_cons.mp h
    obtain ⟨c, cs, heq, hfiller, hend⟩ := ha.starts level
    have hvalue := ha.takes level [] _ fillers_nil (follows_items level outer (as.map f) (']' :: tail))
    have hrest := takes_items level outer tail has (Nat.lt_of_succ_lt_succ hfuel)
    rw [List.map_cons, prettyItems, List.append_assoc, List.append_assoc, List.cons_append]
    rw [heq, List.cons_append] at hvalue ⊢
    exact .bind (.nextItem (fillers_newline level) hfiller hend) (.bind hvalue (.bind hrest (.pure _ _)))

theorem accepts_list {as : List α} (h : ∀ a ∈ as, Accepts d (f a) a) : Accepts (list d) (.array (as.map f)) as where
  starts level := by
    cases as with
    | nil => exact ⟨'[', _, by rw [List.map_nil, prettyChars], by rfl, by decide⟩
    | cons a as => exact ⟨'[', _, by rw [List.map_cons, prettyChars]; rfl, by rfl, by decide⟩
  takes level front tail hfront _ := by
    cases as with
    | nil =>
      rw [List.map_nil, prettyChars]
      refine .located (.bind (.peekPart hfront (by rfl) _) (.bind (.eat _ _) (.closedBy ?_ (.endList tail))))
      exact .bind (.fuel _) (.bind (.noItem true fillers_nil tail) (.pure [] _))
    | cons a as =>
      obtain ⟨ha, has⟩ := List.forall_mem_cons.mp h
      obtain ⟨c, cs, heq, hfiller, hend⟩ := ha.starts (level + 1)
      have hvalue := ha.takes (level + 1) [] _ fillers_nil (follows_items (level + 1) level (as.map f) (']' :: tail))
      have hlen := length_prettyItems (level + 1) (as.map f)
      rw [List.map_cons, prettyChars]
      simp only [List.append_assoc, List.cons_append, List.nil_append]
      rw [heq, List.cons_append] at hvalue ⊢
      refine .located (.bind (.peekPart hfront (by rfl) _) (.bind (.eat _ _) (.closedBy (.bind (.fuel _) ?_) (.endList tail))))
      refine .bind (.firstItem (fillers_newline (level + 1)) hfiller hend) (.bind hvalue (.bind ?_ (.pure _ _)))
      refine takes_items (level + 1) level tail has ?_
      rw [List.length_map] at hlen
      simp only [List.length_append, List.length_cons]
      omega

/-! ### Records -/

variable {fields : List (Field σ)} {s s' : σ}

/-- What the members of an object make of a record: each sets a field that has not been set before, and in the end no
field is missing. -/
inductive Builds (fields : List (Field σ)) : List String → List (String × Json) → σ → σ → Prop
  | done {seen : List String} {s : σ} (h : missing? fields seen = none) : Builds fields seen [] s s
  | member {seen : List String} {name : String} {v : Json} {ms : List (String × Json)} {s s' : σ} {f : Field σ} {set : σ → σ}
      (hf : field? fields name = some f) (hseen : seen.contains name = false) (hv : Accepts f.decoder v set)
      (hms : Builds fields (name :: seen) ms (set s) s') : Builds fields seen ((name, v) :: ms) s s'

theorem follows_members (level outer : Nat) (ms : List (String × Json)) (cs : List Char) :
    Follows (prettyMembers level ms ++ (newline outer ++ cs)) := by
  cases ms with
  | nil =>
    rw [prettyMembers]
    exact follows_newline outer cs
  | cons m ms =>
    rw [prettyMembers]
    intro c hc
    cases hc
    exact Or.inl rfl

theorem length_prettyMembers (level : Nat) : ∀ ms : List (String × Json), ms.length ≤ (prettyMembers level ms).length
  | [] => Nat.zero_le _
  | (name, v) :: ms => by
    have h := length_prettyMembers level ms
    rw [prettyMembers]
    simp only [List.length_cons, List.length_append]
    omega

/-- One round of reading members, once the name is read. -/
theorem takes_member {name : String} {seen : List String} {f : Field σ} {set : σ → σ} {fuel : Nat} {isFirst : Bool}
    {cs mid tail : List Char} (level : Nat) (hf : field? fields name = some f) (hseen : seen.contains name = false)
    (hname : Takes (nextName? isFirst) cs (some name) (':' :: ' ' :: (prettyChars level v ++ mid)))
    (hv : Accepts f.decoder v set) (hmid : Follows mid)
    (hrest : Takes (readMembers fields fuel (name :: seen) false (set s)) mid s' tail) :
    Takes (readMembers fields (fuel + 1) seen isFirst s) cs s' tail := by
  have hblank : Fillers [' '] := List.forall_mem_singleton.mpr (by rfl)
  refine .bind hname ?_
  dsimp only
  rw [hf]
  dsimp only
  rw [hseen, if_neg Bool.false_ne_true]
  exact .bind (.colon _) (.bind (hv.takes level [' '] mid hblank hmid) hrest)

theorem takes_done {seen : List String} {fuel : Nat} {isFirst : Bool} {front : List Char} (h : missing? fields seen = none)
    (hfront : Fillers front) (tail : List Char) :
    Takes (readMembers fields (fuel + 1) seen isFirst s) (front ++ '\x7d' :: tail) s ('\x7d' :: tail) := by
  refine .bind (.noName isFirst hfront tail) ?_
  dsimp only
  rw [h]
  exact .pure s _

theorem Builds.takes {seen : List String} {ms : List (String × Json)} (h : Builds fields seen ms s s') (level outer : Nat)
    (tail : List Char) : ∀ {fuel : Nat}, ms.length < fuel → Takes (readMembers fields fuel seen false s)
      (prettyMembers level ms ++ (newline outer ++ '\x7d' :: tail)) s' ('\x7d' :: tail) := by
  induction h with
  | done h =>
    intro fuel hfuel
    obtain ⟨fuel, rfl⟩ := Nat.exists_eq_succ_of_ne_zero (Nat.ne_of_gt hfuel)
    rw [prettyMembers]
    exact takes_done h (fillers_newline outer) tail
  | member hf hseen hv hms ih =>
    intro fuel hfuel
    obtain ⟨fuel, rfl⟩ := Nat.exists_eq_succ_of_ne_zero (Nat.ne_of_gt (Nat.lt_of_le_of_lt (Nat.zero_le _) hfuel))
    refine takes_member level hf hseen ?_ hv (follows_members level outer _ _) (ih (Nat.lt_of_succ_lt_succ hfuel))
    rw [prettyMembers]
    simp only [List.append_assoc, List.cons_append, List.nil_append]
    exact .nextName (fillers_newline level) _ _

theorem accepts_record {name : String} {blank : σ} {ms : List (String × Json)} (h : Builds fields [] ms blank s) :
    Accepts (record name blank fields) (.object ms) s where
  starts level := by
    cases ms with
    | nil => exact ⟨'\x7b', _, by rw [prettyChars], by rfl, by decide⟩
    | cons m ms => exact ⟨'\x7b', _, by rw [prettyChars]; rfl, by rfl, by decide⟩
  takes level front tail hfront _ := by
    cases h with
    | done h =>
      rw [prettyChars]
      refine .located (.bind (.peekPart hfront (by rfl) _) (.bind (.eat _ _) (.closedBy ?_ (.endObject tail))))
      exact .bind (.fuel _) (takes_done h fillers_nil tail)
    | @member _ first v ms _ _ f set hf hseen hv hms =>
      have hlen := length_prettyMembers (level + 1) ms
      rw [prettyChars]
      simp only [List.append_assoc, List.cons_append, List.nil_append]
      refine .located (.bind (.peekPart hfront (by rfl) _) (.bind (.eat _ _) (.closedBy (.bind (.fuel _) ?_) (.endObject tail))))
      refine takes_member (level + 1) hf hseen (.firstName (fillers_newline (level + 1)) first _) hv (follows_members _ _ _ _) ?_
      refine hms.takes (level + 1) level tail ?_
      simp only [List.length_append, List.length_cons]
      omega

/-! ### Whole texts -/

theorem Accepts.ofText (h : Accepts d v a) (source : Json.Source) : d.ofText source v.pretty = .ok a := by
  have htaken := h.takes 0 [] [] fillers_nil nofun
  rw [List.nil_append, List.append_nil] at htaken
  refine run_eq_ok source ?_
  rw [pretty, String.toList_ofList]
  exact htaken

end AddressPlan.Decoder
