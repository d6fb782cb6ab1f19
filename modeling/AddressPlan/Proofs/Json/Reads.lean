import AddressPlan.Json.Printer
import AddressPlan.Json.Reader
import AddressPlan.Proofs.Text.Digits

/-!
Readers, told by what they take off the front of a text. Positions are left out: they matter to errors only, and a
text that was written by the printer has none.
-/

namespace AddressPlan.Json

open Text

variable {α β : Type} {c : Char} {cs mid rest tail : List Char}

/-! ### Strings -/

/-- A string is read up to its closing quote, wherever it stands. -/
def StringReads (cs chars tail : List Char) : Prop :=
  ∀ p : Position, ∃ q, stringTail cs p = .ok (chars, tail, q)

theorem StringReads.quote (tail : List Char) : StringReads ('"' :: tail) [] tail := by
  intro p
  rw [stringTail, if_pos rfl]
  exact ⟨_, rfl⟩

theorem StringReads.escape {chars : List Char} {d : Char} {n : Nat} (h : ∀ p, Json.escape cs p = .ok (d, n))
    (hrest : StringReads (cs.drop n) chars tail) : StringReads ('\\' :: cs) (d :: chars) tail := by
  intro p
  obtain ⟨q, hq⟩ := hrest (p.along (n + 1))
  rw [stringTail, if_neg (by decide), if_pos rfl, h]
  dsimp only
  rw [hq]
  exact ⟨q, rfl⟩

theorem StringReads.plain {chars : List Char} (hquote : c ≠ '"') (hslash : c ≠ '\\') (hcontrol : ¬ c.toNat < 0x20)
    (hrest : StringReads cs chars tail) : StringReads (c :: cs) (c :: chars) tail := by
  intro p
  obtain ⟨q, hq⟩ := hrest (p.after c)
  rw [stringTail, if_neg hquote, if_neg hslash, if_neg hcontrol, hq]
  exact ⟨q, rfl⟩

theorem escape_short {d : Char} (hu : c ≠ 'u') (h : shortEscape? c = some d) (p : Position) :
    Json.escape (c :: cs) p = .ok (d, 1) := by
  rw [Json.escape, h]
  exact hu

theorem escape_control (hc : c.toNat < 0x20) (p : Position) :
    Json.escape ('u' :: '0' :: '0' :: (c.toNat / 16).digitChar :: (c.toNat % 16).digitChar :: cs) p = .ok (c, 5) := by
  have hhigh : digit? 16 (c.toNat / 16).digitChar = some (c.toNat / 16) := digit?_digitChar (Nat.le_refl _) (by omega)
  have hlow : digit? 16 (c.toNat % 16).digitChar = some (c.toNat % 16) := digit?_digitChar (Nat.le_refl _) (by omega)
  have hzero : digit? 16 '0' = some 0 := by decide
  have hunit : hexUnit ('0' :: '0' :: (c.toNat / 16).digitChar :: (c.toNat % 16).digitChar :: cs) (p.along 1) = .ok c.toNat := by
    have hvalue : ofDigits 16 [0, 0, c.toNat / 16, c.toNat % 16] = c.toNat := by
      simp only [ofDigits, List.foldl_cons, List.foldl_nil]
      omega
    simp only [hexUnit, List.take_succ_cons, List.take_zero, List.filterMap_cons_some hzero, List.filterMap_cons_some hhigh,
      List.filterMap_cons_some hlow, List.filterMap_nil, List.length_cons, List.length_nil, hvalue]
    rfl
  have hplain : c.toNat < 0xd800 ∨ 0xdfff < c.toNat := by omega
  rw [Json.escape, unicodeEscape, hunit]
  simp only [bind, Except.bind, if_pos hplain, Char.ofNat_toNat]
  rfl

/-- Whatever stands for a character inside a string is read as that character. -/
theorem StringReads.escaped {chars : List Char} (c : Char) (hrest : StringReads cs chars tail) :
    StringReads (Json.escaped c ++ cs) (c :: chars) tail := by
  have hshort : ∀ x d : Char, x ≠ 'u' → shortEscape? x = some d → StringReads ('\\' :: x :: cs) (d :: chars) tail :=
    fun x d hu h => .escape (escape_short hu h) hrest
  rw [Json.escaped]
  split
  · rename_i h
    subst h
    exact hshort '"' '"' (by decide) (by decide)
  split
  · rename_i h
    subst h
    exact hshort '\\' '\\' (by decide) (by decide)
  split
  · rename_i h
    subst h
    exact hshort 'b' '\x08' (by decide) (by decide)
  split
  · rename_i h
    subst h
    exact hshort 'f' '\x0c' (by decide) (by decide)
  split
  · rename_i h
    subst h
    exact hshort 'n' '\n' (by decide) (by decide)
  split
  · rename_i h
    subst h
    exact hshort 'r' '\r' (by decide) (by decide)
  split
  · rename_i h
    subst h
    exact hshort 't' '\t' (by decide) (by decide)
  split
  · rename_i h
    exact .escape (escape_control h) hrest
  · rename_i hquote hslash _ _ _ _ _ hcontrol
    exact .plain hquote hslash hcontrol hrest

theorem StringReads.flatMap (tail : List Char) : ∀ chars : List Char,
    StringReads (chars.flatMap Json.escaped ++ '"' :: tail) chars tail
  | [] => .quote tail
  | c :: chars => by
    rw [List.flatMap_cons, List.append_assoc]
    exact .escaped c (StringReads.flatMap tail chars)

namespace Reader

/-! ### Steps of reading -/

/-- What a reader takes off the front of a text: it gives `a` and leaves `tail`. -/
def Takes (r : Reader α) (cs : List Char) (a : α) (tail : List Char) : Prop :=
  ∀ c : Cursor, c.rest = cs → ∃ c', r c = .ok a c' ∧ c'.rest = tail

variable {r : Reader α} {a : α} {b : β}

theorem Takes.pure (a : α) (cs : List Char) : Takes (pure a) cs a cs :=
  fun c h => ⟨c, rfl, h⟩

theorem Takes.bind {f : α → Reader β} (h : Takes r cs a mid) (hf : Takes (f a) mid b tail) : Takes (r >>= f) cs b tail := by
  intro c hc
  obtain ⟨c₁, h₁, hmid⟩ := h c hc
  obtain ⟨c₂, h₂, htail⟩ := hf c₁ hmid
  refine ⟨c₂, ?_, htail⟩
  show EStateM.bind r f c = _
  rw [EStateM.bind, h₁]
  exact h₂

/-- A reader that looks at its cursor sees the text. -/
theorem Takes.get {f : Cursor → Reader α} (h : ∀ c : Cursor, c.rest = cs → Takes (f c) cs a tail) :
    Takes (MonadStateOf.get >>= f) cs a tail :=
  fun c hc => h c hc c hc

theorem Takes.modify {f : Cursor → Cursor} (h : ∀ c : Cursor, c.rest = cs → (f c).rest = tail) :
    Takes (modify f) cs () tail :=
  fun c hc => ⟨f c, rfl, h c hc⟩

theorem Takes.located (h : Takes r cs a tail) : Takes (located r) cs a tail := by
  intro c hc
  obtain ⟨c', heq, htail⟩ := h c hc
  exact ⟨c', by rw [Reader.located, heq], htail⟩

theorem Takes.closedBy {close : Reader Unit} (h : Takes r cs a mid) (hclose : Takes close mid () tail) :
    Takes (closedBy r close) cs a tail := by
  intro c hc
  obtain ⟨c₁, h₁, hmid⟩ := h c hc
  obtain ⟨c₂, h₂, htail⟩ := hclose c₁ hmid
  refine ⟨c₂, ?_, htail⟩
  rw [Reader.closedBy, h₁]
  dsimp only
  rw [h₂]

theorem Takes.eat (c : Char) (cs : List Char) : Takes eat (c :: cs) () cs := by
  intro k hk
  rw [Reader.eat, hk]
  exact ⟨_, rfl, rfl⟩

theorem Takes.fuel (cs : List Char) : Takes fuel cs (cs.length + 1) cs := by
  intro c hc
  refine ⟨c, ?_, hc⟩
  rw [← hc]
  rfl

theorem Takes.ident (tail : List Char) : ∀ ds : List Char, Takes (ident ds) (ds ++ tail) () tail
  | [] => .pure () tail
  | d :: ds => by
    rw [Reader.ident]
    refine .get fun c hc => ?_
    rw [hc]
    dsimp only [List.cons_append]
    rw [if_pos rfl]
    exact .bind (.eat d _) (.ident tail ds)

/-- Nothing but characters that stand between the parts of a value. -/
def Fillers (cs : List Char) : Prop :=
  ∀ c ∈ cs, isFiller c = true

theorem dropFillers_append (cs : List Char) (hc : isFiller c = false) : ∀ {front : List Char}, Fillers front →
    ∀ p : Position, ∃ q, dropFillers (front ++ c :: cs) p = (c :: cs, q)
  | [], _, p => by
    rw [List.nil_append, dropFillers, if_neg (by rw [hc]; exact Bool.false_ne_true)]
    exact ⟨p, rfl⟩
  | x :: front, h, p => by
    obtain ⟨hx, hfront⟩ := List.forall_mem_cons.mp h
    rw [List.cons_append, dropFillers, if_pos hx]
    exact dropFillers_append cs hc hfront _

theorem Takes.peekPart {front : List Char} (hfront : Fillers front) (hc : isFiller c = false) (cs : List Char) :
    Takes peekPart (front ++ c :: cs) (some c) (c :: cs) := by
  intro k hk
  obtain ⟨q, hq⟩ := dropFillers_append cs hc hfront k.position
  rw [Reader.peekPart, hk, hq]
  exact ⟨_, rfl, rfl⟩

theorem Takes.peekEnd : Takes Reader.peekPart [] none [] := by
  intro k hk
  rw [Reader.peekPart, hk]
  exact ⟨_, rfl, rfl⟩

theorem stringChars_append (s : String) (cs : List Char) :
    stringChars s ++ cs = '"' :: (s.toList.flatMap escaped ++ '"' :: cs) := by
  rw [stringChars, List.cons_append, List.cons_append, List.append_assoc]
  rfl

theorem Takes.quotedString (s : String) (tail : List Char) :
    Takes quotedString ('"' :: (s.toList.flatMap escaped ++ '"' :: tail)) s tail := by
  intro c hc
  obtain ⟨q, hq⟩ := StringReads.flatMap tail s.toList (c.position.along 1)
  rw [Reader.quotedString, hc, List.drop_one, List.tail_cons, hq]
  dsimp only
  rw [String.ofList_toList]
  exact ⟨_, rfl, rfl⟩

/-! ### Parts of lists and objects -/

theorem fillers_newline (level : Nat) : Fillers (newline level) := by
  intro c hc
  rcases List.mem_cons.mp hc with rfl | hc
  · rfl
  · rw [List.eq_of_mem_replicate hc]
    rfl

theorem fillers_nil : Fillers [] := fun _ hc => absurd hc List.not_mem_nil

variable {front : List Char}

theorem Takes.firstItem (hfront : Fillers front) (hc : isFiller c = false) (hend : c ≠ ']') :
    Takes (hasItem true) (front ++ c :: cs) true (c :: cs) := by
  refine .bind (.peekPart hfront hc cs) ?_
  split
  · rename_i h
    cases h
  · rename_i h
    exact absurd (Option.some.inj h) hend
  · exact .pure true _

theorem Takes.nextItem (hfront : Fillers front) (hc : isFiller c = false) (hend : c ≠ ']') :
    Takes (hasItem false) (',' :: (front ++ c :: cs)) true (c :: cs) := by
  refine .bind (.peekPart fillers_nil (by rfl) _) (.bind (.eat _ _) (.bind (.peekPart hfront hc cs) ?_))
  split
  · rename_i h
    exact absurd (Option.some.inj h) hend
  · exact .pure true _
  · rename_i h
    cases h

theorem Takes.noItem (isFirst : Bool) (hfront : Fillers front) (tail : List Char) :
    Takes (hasItem isFirst) (front ++ ']' :: tail) false (']' :: tail) :=
  .bind (.peekPart hfront (by rfl) tail) (.pure false _)

theorem Takes.endList (tail : List Char) : Takes endList (']' :: tail) () tail :=
  .bind (.peekPart fillers_nil (by rfl) tail) (.eat _ tail)

theorem Takes.firstName (hfront : Fillers front) (name : String) (cs : List Char) :
    Takes (nextName? true) (front ++ (stringChars name ++ cs)) (some name) cs := by
  rw [stringChars_append]
  exact .bind (.peekPart hfront (by rfl) _) (.bind (.quotedString name cs) (.pure _ _))

theorem Takes.nextName (hfront : Fillers front) (name : String) (cs : List Char) :
    Takes (nextName? false) (',' :: (front ++ (stringChars name ++ cs))) (some name) cs := by
  rw [stringChars_append]
  exact .bind (.peekPart fillers_nil (by rfl) _) (.bind (.eat _ _)
    (.bind (.peekPart hfront (by rfl) _) (.bind (.quotedString name cs) (.pure _ _))))

theorem Takes.noName (isFirst : Bool) (hfront : Fillers front) (tail : List Char) :
    Takes (nextName? isFirst) (front ++ '\x7d' :: tail) none ('\x7d' :: tail) :=
  .bind (.peekPart hfront (by rfl) tail) (.pure none _)

theorem Takes.endObject (tail : List Char) : Takes endObject ('\x7d' :: tail) () tail :=
  .bind (.peekPart fillers_nil (by rfl) tail) (.eat _ tail)

theorem Takes.colon (tail : List Char) : Takes colon (':' :: tail) () tail :=
  .bind (.peekPart fillers_nil (by rfl) tail) (.eat _ tail)

/-! ### Numbers -/

/-- What stands behind a value, inside another one or at the end of the text. -/
def Follows (cs : List Char) : Prop :=
  ∀ c ∈ cs.head?, c = ',' ∨ c = '\n'

theorem Follows.noDigit (h : Follows tail) : NoDigit 10 tail := by
  intro c hc
  rcases h c hc with rfl | rfl <;> decide

theorem le_foldl_digits : ∀ (ds : List Nat) (n : Nat), n ≤ ds.foldl (fun n d => n * 10 + d) n
  | [], n => Nat.le_refl n
  | d :: ds, n => by
    have h := le_foldl_digits ds (n * 10 + d)
    rw [List.foldl_cons]
    omega

theorem keepDigits_of_le : ∀ (ds : List Nat) (n : Nat), ds.foldl (fun n d => n * 10 + d) n ≤ maxInteger →
    keepDigits n ds = (ds.foldl (fun n d => n * 10 + d) n, 0)
  | [], _, _ => rfl
  | d :: ds, n, h => by
    rw [List.foldl_cons] at h ⊢
    rw [keepDigits, if_pos (Nat.le_trans (le_foldl_digits ds _) h)]
    exact keepDigits_of_le ds _ h

theorem Takes.number {n : Nat} (hn : n ≤ maxInteger) (htail : Follows tail) :
    Takes (number false) (decimal n ++ tail) (.integer n) tail := by
  have hdigits := takeDigits_decimal n htail.noDigit
  have hkeep : keepDigits 0 (digitList 10 n) = (n, 0) := by
    have hvalue : (digitList 10 n).foldl (fun n d => n * 10 + d) 0 = n := ofDigits_decimal n
    rw [keepDigits_of_le _ _ (by rw [hvalue]; exact hn), hvalue]
  have hdrop : (decimal n ++ tail).drop (digitList 10 n).length = tail := by
    rw [length_digitList (by omega : 1 < 10) (by omega), ← decimal]
    exact List.drop_left
  refine .get fun c hc => ?_
  rw [hc, hdigits]
  split
  · rename_i h
    exact absurd h (digitList_ne_nil (by omega) (by omega) n)
  · rename_i h
    have hpos : 0 < n := by
      refine Nat.pos_of_ne_zero fun h0 => ?_
      subst h0
      rw [digitList_of_lt (by omega : 10 ≤ 16) (by omega)] at h
      cases h
    refine absurd ?_ (head_digitList_ne_zero (by omega : 1 < 10) (by omega) n hpos)
    rw [show digitList 10 n = _ from h]
    rfl
  · refine .bind (show Takes _ _ () tail from .modify fun k hk => ?_) ?_
    · show k.rest.drop _ = _
      rw [hk, hdrop]
    · rw [hkeep]
      refine .get fun k hk => ?_
      rw [hk]
      split
      · rename_i h
        rcases htail _ h with h | h <;> cases h
      · rename_i h
        rcases htail _ h with h | h <;> cases h
      · rename_i h
        rcases htail _ h with h | h <;> cases h
      · exact .bind (.modify fun k hk => hk) (.pure _ tail)

theorem Takes.signedNumber {n : Nat} (hn : n ≤ maxInteger) (htail : Follows tail) :
    Takes signedNumber (decimal n ++ tail) (.integer n) tail := by
  obtain ⟨d, ds, hd, heq⟩ := exists_decimal_cons n
  have hsign : ∀ d < 10, Nat.digitChar d ≠ '-' := by decide
  refine .get fun c hc => ?_
  rw [hc, if_neg]
  · exact .number hn htail
  · rw [heq]
    intro h
    exact hsign d hd (Option.some.inj h)

/-! ### Whole texts -/

theorem run_eq_ok {text : String} (source : Source) (h : Takes r text.toList a []) : run r source text = .ok a := by
  obtain ⟨c₁, h₁, hrest⟩ := h (Cursor.ofText source text) rfl
  obtain ⟨c₂, h₂, -⟩ := Takes.peekEnd c₁ hrest
  simp only [run, bind, EStateM.bind, h₁, h₂]
  rfl

end Reader

end AddressPlan.Json
