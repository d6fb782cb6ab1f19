import AddressPlan.Proofs.Text.Blank
import AddressPlan.Proofs.Text.Digits
import AddressPlan.Time.Timestamp.Parser

/-!
The text of a timestamp is read back as that timestamp, to the nanosecond and with its leap second. Each scanner is
told by what it takes off the front of a text; the zone is always the letter for UTC, so no minute is moved.
-/

namespace AddressPlan.Time.Timestamp

open Text

variable {α β : Type} {n low high most : Nat} {c : Char} {cs rest tail : List Char}

theorem exists_padded_cons {width : Nat} (hw : 0 < width) (n : Nat) : ∃ c cs, padded width n = c :: cs ∧ (digit? 10 c).isSome := by
  have hlen := width_le_length_padded width n
  obtain ⟨c, cs, heq⟩ := List.exists_cons_of_length_pos (Nat.lt_of_lt_of_le hw hlen)
  refine ⟨c, cs, heq, isSome_padded width n c ?_⟩
  rw [heq]
  exact List.mem_cons_self

theorem trimStart_padded {width : Nat} (hw : 0 < width) : trimStart (padded width n ++ tail) = padded width n ++ tail := by
  obtain ⟨c, cs, heq, hc⟩ := exists_padded_cons hw n
  rw [heq]
  exact trimStart_cons (isBlank_of_digit hc)

theorem noDigit_take (h : NoDigit 10 tail) : ∀ k : Nat, NoDigit 10 (tail.take k)
  | 0 => noDigit_nil
  | k + 1 => by
    cases tail with
    | nil => exact h
    | cons c cs => exact h

namespace Scan

theorem run_bind {m : Scan α} {f : α → Scan β} {a : α} (h : m.run cs = pure (a, rest)) : (m >>= f).run cs = (f a).run rest := by
  rw [StateT.run_bind, h]
  rfl

theorem digits_run {ds : List Char} (hds : ∀ c ∈ ds, (digit? 10 c).isSome) (hne : ds ≠ []) (hmost : ds.length ≤ most)
    (hstop : NoDigit 10 (tail.take (most - ds.length))) :
    (digits most).run (ds ++ tail) = pure (ofDigits 10 (ds.filterMap (digit? 10)), tail) := by
  have htake : takeDigits 10 ((ds ++ tail).take most) = (ds.filterMap (digit? 10), tail.take (most - ds.length)) := by
    rw [List.take_append, List.take_of_length_le hmost]
    exact takeDigits_append hstop hds
  have hlen : (ds.filterMap (digit? 10)).length = ds.length := by
    rw [List.length_filterMap_eq_countP, List.countP_eq_length]
    exact hds
  have hnil : ds.filterMap (digit? 10) ≠ [] := by
    rw [← List.length_pos_iff, hlen]
    exact List.length_pos_iff.mpr hne
  simp [digits, htake, hlen, hne, hnil]

theorem digits_padded {width : Nat} (hw : 0 < width) (hlen : (padded width n).length ≤ most)
    (hstop : NoDigit 10 (tail.take (most - (padded width n).length))) :
    (digits most).run (padded width n ++ tail) = pure (n, tail) := by
  have hne : padded width n ≠ [] :=
    List.length_pos_iff.mp (Nat.lt_of_lt_of_le hw (width_le_length_padded width n))
  rw [digits_run (isSome_padded width n) hne hlen hstop, ofDigits_padded]

theorem number_padded (hlow : low ≤ n) (hhigh : n ≤ high) (hn : n < 100) :
    (number low high).run (padded 2 n ++ tail) = pure (n, tail) := by
  have hlen : (padded 2 n).length = 2 := length_padded (by omega) hn
  have hdigits : (digits 2).run (padded 2 n ++ tail) = pure (n, tail) := by
    refine digits_padded (by omega) (Nat.le_of_eq hlen) ?_
    rw [hlen]
    exact noDigit_nil
  simp [number, skipBlanks, trimStart_padded, hdigits, hlow, hhigh]

theorem separator_cons (hc : isBlank c = false) : (separator c).run (c :: tail) = pure ((), tail) := by
  simp [separator, skipBlanks, trimStart_cons hc]

theorem year_yearChars {y : Int} (hy : firstYear ≤ y ∧ y ≤ lastYear) (hstop : NoDigit 10 tail) :
    year.run (yearChars y ++ tail) = pure (y, tail) := by
  obtain ⟨hfirst, hlast⟩ := hy
  simp only [firstYear] at hfirst
  simp only [lastYear] at hlast
  rw [yearChars]
  split
  · rename_i hfour
    have hlt : y.toNat < 10 ^ (4 : Nat) := by omega
    have hlen : (padded 4 y.toNat).length = 4 := length_padded (by omega) hlt
    have hdigits : (digits 4).run (padded 4 y.toNat ++ tail) = pure (y.toNat, tail) := by
      refine digits_padded (by omega) (Nat.le_of_eq hlen) ?_
      rw [hlen]
      exact noDigit_nil
    obtain ⟨c, cs, heq, hc⟩ := exists_padded_cons (by omega : 0 < 4) y.toNat
    have hminus : c ≠ '-' := by
      rintro rfl
      cases hc
    have hplus : c ≠ '+' := by
      rintro rfl
      cases hc
    have hy : (y.toNat : Int) = y := Int.toNat_of_nonneg hfour.1
    rw [heq, List.cons_append] at hdigits ⊢
    simp [year, skipBlanks, trimStart_cons (isBlank_of_digit hc), hminus, hplus, hdigits, hy]
  · have hlen := width_le_length_padded 4 y.natAbs
    have hdigits : (digits (padded 4 y.natAbs ++ tail).length).run (padded 4 y.natAbs ++ tail) = pure (y.natAbs, tail) :=
      digits_padded (by omega) (by rw [List.length_append]; omega) (noDigit_take hstop _)
    split
    · rename_i hneg
      have hmost : y.natAbs ≤ maxWrittenYear + 1 := by
        simp only [maxWrittenYear]
        omega
      have hy : -(y.natAbs : Int) = y := by omega
      have hblank : isBlank '-' = false := by decide
      rw [List.cons_append]
      rw [List.length_append] at hdigits
      generalize y.natAbs = n at hdigits hmost hy ⊢
      simp [year, skipBlanks, trimStart_cons hblank, hdigits, hmost, hy]
    · rename_i hpos
      have hmost : y.natAbs ≤ maxWrittenYear := by
        simp only [maxWrittenYear]
        omega
      have hy : (y.natAbs : Int) = y := by omega
      have hblank : isBlank '+' = false := by decide
      rw [List.cons_append]
      rw [List.length_append] at hdigits
      generalize y.natAbs = n at hdigits hmost hy ⊢
      simp [year, skipBlanks, trimStart_cons hblank, hdigits, hmost, hy]

theorem fraction_decimals {k nano : Nat} (hk : 0 < k) (hk9 : k ≤ 9) (hn : n < 10 ^ k)
    (hscale : n * 10 ^ (9 - k) = nano) (hstop : NoDigit 10 tail) :
    fraction.run ('.' :: (padded k n ++ tail)) = pure (nano, tail) := by
  have hlen : (padded k n).length = k := length_padded hk hn
  have hdigits : (digits 9).run (padded k n ++ tail) = pure (n, tail) :=
    digits_padded hk (by omega) (noDigit_take hstop _)
  have htake : takeDigits 10 ((padded k n ++ tail).take 9) = ((padded k n).filterMap (digit? 10), tail.take (9 - k)) := by
    rw [List.take_append, List.take_of_length_le (by omega), hlen]
    exact takeDigits_append (noDigit_take hstop _) (isSome_padded k n)
  have hcount : ((padded k n).filterMap (digit? 10)).length = k := by
    rw [List.length_filterMap_eq_countP, List.countP_eq_length.mpr (isSome_padded k n)]
    exact hlen
  simp [fraction, htake, hdigits, hcount, hscale, takeDigits_of_noDigit hstop]

theorem fraction_fractionChars {nano : Nat} (hn : nano < 1000000000) (hstop : NoDigit 10 tail) (hpoint : tail.head? ≠ some '.') :
    fraction.run (fractionChars nano ++ tail) = pure (nano, tail) := by
  rw [fractionChars]
  split
  · rename_i h0
    subst h0
    cases tail with
    | nil => rfl
    | cons c cs =>
      have hc : c ≠ '.' := by
        rintro rfl
        exact hpoint rfl
      simp [fraction, hc]
  · split
    · exact fraction_decimals (by omega) (by omega) (by omega) (by omega) hstop
    · split
      · exact fraction_decimals (by omega) (by omega) (by omega) (by omega) hstop
      · exact fraction_decimals (by omega) (by omega) (by omega) (by omega) hstop

theorem dateEnd_cons (tail : List Char) : dateEnd.run ('T' :: tail) = pure ((), tail) := by
  simp [dateEnd]

theorem zone_utc : zone.run ['Z'] = pure (0, []) := by
  simp [zone]

end Scan

/-- A clock that is not ahead shows the same time. -/
theorem ahead?_zero (t : Timestamp) : t.ahead? 0 = some t := by
  obtain ⟨date, hour, minute, second, nano, hhour, hminute, hsecond, hnano⟩ := t
  have hday : ¬ dayMinutes ≤ ((hour * 60 + minute : Nat) : Int) - 0 := by
    simp only [dayMinutes]
    omega
  have hstart : ¬ ((hour * 60 + minute : Nat) : Int) - 0 < 0 := by omega
  have hmod : (((hour * 60 + minute : Nat) : Int) - 0) % dayMinutes = ((hour * 60 + minute : Nat) : Int) := by
    simp only [dayMinutes]
    omega
  have hh : (hour * 60 + minute) / 60 = hour := by omega
  have hm : (hour * 60 + minute) % 60 = minute := by omega
  simp only [ahead?, if_neg hstart, if_neg hday, hmod, Option.bind_eq_bind, Option.bind_some, Int.toNat_natCast, hh, hm]
  simp [of?, hhour, hminute, hsecond, hnano]

theorem ofText_text (t : Timestamp) : ofText t.text = .ok t := by
  have hdash : isBlank '-' = false := by decide
  have hcolon : isBlank ':' = false := by decide
  have hmonth := t.date.month_mem
  have hday : 1 ≤ t.date.day ∧ t.date.day ≤ 31 := by
    obtain ⟨h1, h2⟩ := t.date.day_mem
    refine ⟨h1, Nat.le_trans h2 ?_⟩
    rw [daysIn]
    split
    · split <;> omega
    · split <;> omega
  have hh := t.hour_lt
  have hm := t.minute_lt
  have hs := t.second_le
  have hzone : NoDigit 10 ['Z'] := noDigit_cons (by decide)
  have hdate : Date.of? t.date.year t.date.month t.date.day = some t.date := by
    rw [Date.of?, dif_pos ⟨t.date.year_mem, t.date.month_mem, t.date.day_mem⟩]
  have htime : of? t.date t.hour t.minute t.second t.nano = some t := by
    rw [of?, dif_pos ⟨t.hour_lt, t.minute_lt, t.second_le, t.nano_lt⟩]
  have hrun : Scan.timestamp.run t.text.toList = pure (t, []) := by
    rw [text, String.toList_ofList, localChars, Scan.timestamp]
    simp only [List.append_assoc, List.cons_append]
    rw [Scan.run_bind (Scan.year_yearChars t.date.year_mem (noDigit_cons (by decide))),
      Scan.run_bind (Scan.separator_cons hdash),
      Scan.run_bind (Scan.number_padded hmonth.1 hmonth.2 (by omega)),
      Scan.run_bind (Scan.separator_cons hdash),
      Scan.run_bind (Scan.number_padded hday.1 hday.2 (by omega)),
      Scan.run_bind (Scan.dateEnd_cons _),
      Scan.run_bind (Scan.number_padded (by omega) (by omega) (by omega)),
      Scan.run_bind (Scan.separator_cons hcolon),
      Scan.run_bind (Scan.number_padded (by omega) (by omega) (by omega)),
      Scan.run_bind (Scan.separator_cons hcolon),
      Scan.run_bind (Scan.number_padded (by omega) hs (by omega)),
      Scan.run_bind (Scan.fraction_fractionChars t.nano_lt hzone (by decide))]
    have hutc : isBlank 'Z' = false := by decide
    have hend : trimStart [] = [] := rfl
    simp [Scan.skipBlanks, trimStart_cons hutc, Scan.zone_utc, hend, hdate, htime, ahead?_zero, dayMinutes]
  have h : (fun x : Timestamp × List Char => x.1) <$> Scan.timestamp.run t.text.toList = .ok t := by
    rw [hrun]
    rfl
  exact h

end AddressPlan.Time.Timestamp
