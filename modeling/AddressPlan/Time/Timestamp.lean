import AddressPlan.Text.Digits
import AddressPlan.Time.Date

/-!
Points in time, in UTC, to the nanosecond. The second may be a leap second, whose number is sixty. The text of
a timestamp has as many decimals of the second as it needs, in groups of three; years of more or less than four
digits have a sign.
-/

namespace AddressPlan.Time

open Text

structure Timestamp where
  date : Date
  hour : Nat
  minute : Nat
  second : Nat
  nano : Nat
  hour_lt : hour < 24
  minute_lt : minute < 60
  second_le : second ≤ 60
  nano_lt : nano < 1000000000
  deriving DecidableEq, Repr

namespace Timestamp

def of? (date : Date) (hour minute second nano : Nat) : Option Timestamp :=
  if h : hour < 24 ∧ minute < 60 ∧ second ≤ 60 ∧ nano < 1000000000 then
    some ⟨date, hour, minute, second, nano, h.1, h.2.1, h.2.2.1, h.2.2.2⟩
  else none

def dayMinutes : Int := 1440

/-- The same point in time for a clock that is ahead by some minutes, less than a day of them. -/
def ahead? (t : Timestamp) (minutes : Int) : Option Timestamp := do
  let m := (t.hour * 60 + t.minute : Nat) - minutes
  let date ← if m < 0 then t.date.previous? else if dayMinutes ≤ m then t.date.next? else some t.date
  let m := (m % dayMinutes).toNat
  of? date (m / 60) (m % 60) t.second t.nano

def daySeconds : Int := 86400

/-- The point in time that comes some seconds and nanoseconds after the start of 1970. -/
def ofUnix? (seconds : Int) (nano : Nat) : Option Timestamp := do
  let date ← Date.ofDays? (seconds / daySeconds)
  let s := (seconds % daySeconds).toNat
  of? date (s / 3600) (s / 60 % 60) (s % 60) nano

/-! ### Text -/

/-- A year, with a sign unless it has four digits. -/
def yearChars (year : Int) : List Char :=
  if 0 ≤ year ∧ year ≤ 9999 then padded 4 year.toNat
  else (if year < 0 then '-' else '+') :: padded 4 year.natAbs

def fractionChars (nano : Nat) : List Char :=
  if nano = 0 then []
  else if nano % 1000000 = 0 then '.' :: padded 3 (nano / 1000000)
  else if nano % 1000 = 0 then '.' :: padded 6 (nano / 1000)
  else '.' :: padded 9 nano

def localChars (t : Timestamp) : List Char :=
  yearChars t.date.year ++ '-' :: padded 2 t.date.month ++ '-' :: padded 2 t.date.day ++
    'T' :: padded 2 t.hour ++ ':' :: padded 2 t.minute ++ ':' :: padded 2 t.second ++ fractionChars t.nano

/-- The text in records: the zone is the letter for UTC. -/
def text (t : Timestamp) : String :=
  .ofList (t.localChars ++ ['Z'])

/-- The text in responses: the zone is an offset of zero. -/
def offsetText (t : Timestamp) : String :=
  .ofList (t.localChars ++ "+00:00".toList)

end Timestamp

end AddressPlan.Time
