import AddressPlan.Proofs.Text.Digits
import AddressPlan.Text.Blank
import Mathlib.Data.List.TakeWhile

/-!
Blanks around a text. What is trimmed off a text are all the blanks at its ends, so a text that has none around it stays as
it is.
-/

namespace AddressPlan.Text

variable {c : Char} {cs : List Char}

theorem isBlank_of_digit (h : (digit? 10 c).isSome) : isBlank c = false := by
  obtain ⟨d, hd⟩ := Option.isSome_iff_exists.mp h
  obtain ⟨hlt, rfl⟩ := digit?_ten_eq_some.mp hd
  have hall : ∀ d < 10, isBlank (Nat.digitChar d) = false := by decide
  exact hall d hlt

theorem trimStart_cons (h : isBlank c = false) : trimStart (c :: cs) = c :: cs := by
  rw [trimStart, List.dropWhile_cons_of_neg]
  rw [h]
  exact Bool.false_ne_true

/-! ### Both ends -/

theorem trimStart_append {before : List Char} (h : ∀ c ∈ before, isBlank c = true) : trimStart (before ++ cs) = trimStart cs :=
  List.dropWhile_append_of_pos h

theorem trimEnd_append {after : List Char} (h : ∀ c ∈ after, isBlank c = true) : trimEnd (cs ++ after) = trimEnd cs := by
  rw [trimEnd, List.reverse_append, List.dropWhile_append_of_pos fun c hc => h c (List.mem_reverse.mp hc), trimEnd]

theorem trimStart_eq_self (h : ∀ c ∈ cs, isBlank c = false) : trimStart cs = cs := by
  cases cs with
  | nil => rfl
  | cons c cs => exact trimStart_cons (h c List.mem_cons_self)

theorem trimEnd_eq_self (h : ∀ c ∈ cs, isBlank c = false) : trimEnd cs = cs := by
  have hreverse : trimStart cs.reverse = cs.reverse := trimStart_eq_self fun c hc => h c (List.mem_reverse.mp hc)
  exact (congrArg List.reverse hreverse).trans cs.reverse_reverse

theorem trim_eq_self (h : ∀ c ∈ cs, isBlank c = false) : trim cs = cs := by
  rw [trim, trimStart_eq_self h, trimEnd_eq_self h]

/-- Blanks around a text without any are what is trimmed off it. -/
theorem trim_append {before after : List Char} (hbefore : ∀ c ∈ before, isBlank c = true)
    (hcs : ∀ c ∈ cs, isBlank c = false) (hafter : ∀ c ∈ after, isBlank c = true) : trim (before ++ (cs ++ after)) = cs := by
  cases cs with
  | nil =>
    rw [trim, trimStart_append hbefore, List.nil_append, ← List.append_nil after, trimStart_append hafter]
    rfl
  | cons c cs =>
    rw [trim, trimStart_append hbefore, List.cons_append, trimStart_cons (hcs c List.mem_cons_self), ← List.cons_append,
      trimEnd_append hafter, trimEnd_eq_self hcs]

/-- A text is what is left of it once it is trimmed, with blanks around. -/
theorem exists_blanks_around (cs : List Char) : ∃ before after, cs = before ++ (trim cs ++ after) ∧
    (∀ c ∈ before, isBlank c = true) ∧ ∀ c ∈ after, isBlank c = true := by
  let inner := trimStart cs
  refine ⟨cs.takeWhile isBlank, (inner.reverse.takeWhile isBlank).reverse, ?_, fun c hc => List.mem_takeWhile_imp hc,
    fun c hc => List.mem_takeWhile_imp (List.mem_reverse.mp hc)⟩
  have hend : trim cs ++ (inner.reverse.takeWhile isBlank).reverse = inner := by
    rw [trim, trimEnd, ← List.reverse_append, List.takeWhile_append_dropWhile, List.reverse_reverse]
  rw [hend]
  exact List.takeWhile_append_dropWhile.symm

end AddressPlan.Text
