import AddressPlan.Allocation.Lock
import AddressPlan.Proofs.Text.Digits

/-!
The names of lock files. A name tells the kind of allocation that it stands for and the parent, if it stands for one parent
only, so that different locks never share a file.
-/

namespace AddressPlan

open Text

theorem Mode.lockNumber_inj {m m' : Mode} : m.lockNumber = m'.lockNumber ↔ m = m' := by
  cases m <;> cases m' <;> decide

theorem Parent.eq_iff {p p' : Parent} : p = p' ↔ p.kind = p'.kind ∧ p.id = p'.id := by
  constructor
  · rintro rfl
    exact ⟨rfl, rfl⟩
  · rintro ⟨hkind, hid⟩
    cases p <;> cases p' <;> cases hkind <;> cases hid <;> rfl

namespace LockKey

/-- What follows the number in the name of a lock file. -/
def suffix : Option Parent → String
  | none => ".lock"
  | some (.prefixRecord id) => "-prefix-" ++ (id.toNat.repr ++ ".lock")
  | some (.rangeRecord id) => "-iprange-" ++ (id.toNat.repr ++ ".lock")

theorem fileName_eq (k : LockKey) : k.fileName = "ipam-" ++ (k.mode.lockNumber.repr ++ suffix k.parent) := by
  obtain ⟨mode, _ | ⟨id⟩ | ⟨id⟩⟩ := k
  · exact String.append_assoc
  · show "ipam-" ++ mode.lockNumber.repr ++ "-prefix-" ++ id.toNat.repr ++ ".lock" = _
    rw [String.append_assoc, String.append_assoc, String.append_assoc]
    rfl
  · show "ipam-" ++ mode.lockNumber.repr ++ "-iprange-" ++ id.toNat.repr ++ ".lock" = _
    rw [String.append_assoc, String.append_assoc, String.append_assoc]
    rfl

/-- Two characters tell whether a lock is for all, for those from a prefix, or for those from a range. -/
theorem take_suffix (p : Option Parent) : (suffix p).toList.take 2 =
    match p with
    | none => ['.', 'l']
    | some (.prefixRecord _) => ['-', 'p']
    | some (.rangeRecord _) => ['-', 'i'] := by
  obtain _ | ⟨id⟩ | ⟨id⟩ := p
  · rfl
  · rw [suffix, String.toList_append]
    rfl
  · rw [suffix, String.toList_append]
    rfl

theorem noDigit_suffix (p : Option Parent) : NoDigit 10 (suffix p).toList := by
  obtain _ | ⟨id⟩ | ⟨id⟩ := p
  · exact noDigit_cons (by decide)
  · rw [suffix, String.toList_append]
    exact noDigit_cons (by decide)
  · rw [suffix, String.toList_append]
    exact noDigit_cons (by decide)

theorem suffix_inj {p p' : Option Parent} : suffix p = suffix p' ↔ p = p' := by
  refine ⟨fun h => ?_, congrArg suffix⟩
  have hend : NoDigit 10 ".lock".toList := noDigit_cons (by decide)
  have hstart := congrArg (fun s => s.toList.take 2) h
  simp only [take_suffix] at hstart
  match p, p', hstart with
  | none, none, _ => rfl
  | some (.prefixRecord id), some (.prefixRecord id'), _ =>
    have hid := ((repr_append_inj hend hend).mp ((String.append_right_inj _).mp h)).1
    rw [UInt64.toNat_inj.mp hid]
  | some (.rangeRecord id), some (.rangeRecord id'), _ =>
    have hid := ((repr_append_inj hend hend).mp ((String.append_right_inj _).mp h)).1
    rw [UInt64.toNat_inj.mp hid]

theorem fileName_inj {k k' : LockKey} : k.fileName = k'.fileName ↔ k = k' := by
  rw [fileName_eq, fileName_eq, String.append_right_inj, repr_append_inj (noDigit_suffix _) (noDigit_suffix _),
    Mode.lockNumber_inj, suffix_inj]
  obtain ⟨mode, parent⟩ := k
  obtain ⟨mode', parent'⟩ := k'
  rw [mk.injEq]

theorem of_global_inj {m m' : Mode} {p p' : Parent} : of m p .global = of m' p' .global ↔ m = m' := by
  rw [of, of, global, global, mk.injEq, and_iff_left rfl]

theorem of_parent_inj {m m' : Mode} {p p' : Parent} :
    of m p .parent = of m' p' .parent ↔ m = m' ∧ p.kind = p'.kind ∧ p.id = p'.id := by
  rw [of, of, mk.injEq, Option.some.injEq, Parent.eq_iff]

theorem of_global_ne_of_parent (m m' : Mode) (p p' : Parent) : of m p .global ≠ of m' p' .parent := by
  intro h
  have hparent := congrArg LockKey.parent h
  cases hparent

/-! ### A name in a directory -/

theorem slash_not_mem_digits (n : Nat) : '/' ∉ Nat.toDigits 10 n := fun h =>
  absurd (Nat.isDigit_of_mem_toDigits (by decide) (by decide) h) (by decide)

theorem slash_not_mem_suffix (p : Option Parent) : '/' ∉ (suffix p).toList := by
  obtain _ | ⟨id⟩ | ⟨id⟩ := p
  · rw [suffix]
    decide
  · simp [suffix, slash_not_mem_digits]
  · simp [suffix, slash_not_mem_digits]

theorem slash_not_mem_fileName (k : LockKey) : '/' ∉ k.fileName.toList := by
  simp [fileName_eq, slash_not_mem_digits, slash_not_mem_suffix]

theorem length_fileName (k : LockKey) : 2 < k.fileName.length := by
  rw [fileName_eq, String.length_append]
  exact Nat.lt_of_lt_of_le (by decide) (Nat.le_add_right _ _)

end LockKey

end AddressPlan
