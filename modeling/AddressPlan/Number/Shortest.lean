import AddressPlan.Number.Binary64
import AddressPlan.Text.Digits

/-!
The shortest decimal text of a double: the fewest digits that read back as the same double, and of those
the nearest to it. Magnitudes from 1e-5 up to 1e16 are written out with a point, others with an exponent.
-/

namespace AddressPlan.Binary64

open Text

/-- A decimal number: `digits * 10 ^ exponent`. -/
structure Decimal where
  digits : Nat
  exponent : Int
  deriving DecidableEq, Repr

/-- A multiple of `10 ^ p` as a fraction. -/
def Decimal.ratio (d : Decimal) : Nat × Nat :=
  if 0 ≤ d.exponent then (d.digits * 10 ^ d.exponent.toNat, 1) else (d.digits, 10 ^ (-d.exponent).toNat)

def compareRatio (x y : Nat × Nat) : Ordering :=
  compare (x.1 * y.2) (y.1 * x.2)

/-- The fraction `n / 4` in units of the last place of `x`. -/
def quarters (x : Binary64) (n : Nat) : Nat × Nat :=
  let r := (⟨false, n, x.exponent⟩ : Binary64).ratio
  (r.1, r.2 * 4)

/-- Whether a fraction rounds to `x`: it lies between the midpoints to the neighbours of `x`, and on a midpoint
only if the mantissa of `x` is even. -/
def roundsHere (x : Binary64) (r : Nat × Nat) : Bool :=
  let atBoundary := x.mantissa == 2 ^ (52 : Nat) && minExponent < x.exponent
  let low := x.quarters (4 * x.mantissa - if atBoundary then 1 else 2)
  let high := x.quarters (4 * x.mantissa + 2)
  let even := x.mantissa % 2 == 0
  let above := match compareRatio low r with
    | .lt => true
    | .eq => even
    | .gt => false
  let below := match compareRatio r high with
    | .lt => true
    | .eq => even
    | .gt => false
  above && below

/-- The multiple of `10 ^ p` nearest to `x` among those that round to it, if there is any. -/
def onGrid? (x : Binary64) (p : Int) : Option Decimal :=
  let (num, den) := x.ratio
  let q := if 0 ≤ p then num / (den * 10 ^ p.toNat) else num * 10 ^ (-p).toNat / den
  let down : Decimal := ⟨q, p⟩
  let up : Decimal := ⟨q + 1, p⟩
  match 0 < q && x.roundsHere down.ratio, x.roundsHere up.ratio with
  | true, true =>
    -- `x` is nearer to `down` when twice `x` is at most their sum
    let middle := (⟨2 * q + 1, p⟩ : Decimal).ratio
    match compareRatio (2 * num, den) middle with
    | .lt => some down
    | .gt => some up
    | .eq => some (if q % 2 = 0 then down else up)
  | true, false => some down
  | false, true => some up
  | false, false => none

/-- The first hit on the grids of `10 ^ p`, from a coarse one to finer ones. -/
def firstOnGrid (x : Binary64) (p : Int) : Nat → Decimal
  | 0 => ⟨0, 0⟩
  | steps + 1 =>
    match x.onGrid? p with
    | some d => d
    | none => firstOnGrid x (p - 1) steps

/-- The shortest decimal that reads back as the magnitude of `x`. -/
def shortest (x : Binary64) : Decimal :=
  if x.isZero then ⟨0, 0⟩ else firstOnGrid x 309 640

/-- Where the written form changes: the least and greatest decimal exponents without an `e`. -/
structure PlainRange where
  least : Int
  greatest : Int

/-- Numbers in messages are written out from 1e-5 up to 1e16. -/
def inMessages : PlainRange := ⟨-5, 15⟩

/-- The digits of a decimal, with a point after the first `whole` of them. -/
def pointed (ds : List Char) (whole : Nat) : List Char :=
  if ds.length ≤ whole then ds ++ List.replicate (whole - ds.length) '0' ++ ['.', '0']
  else ds.take whole ++ '.' :: ds.drop whole

def Decimal.chars (plain : PlainRange) (d : Decimal) : List Char :=
  if d.digits = 0 then ['0', '.', '0']
  else
    let ds := decimal d.digits
    let e : Int := d.exponent + ds.length - 1
    if e < plain.least ∨ plain.greatest < e then
      let mantissa := if ds.length = 1 then ds else ds.take 1 ++ '.' :: ds.drop 1
      mantissa ++ 'e' :: (if e < 0 then '-' else '+') :: decimal e.natAbs
    else if e < 0 then
      ['0', '.'] ++ List.replicate (e.natAbs - 1) '0' ++ ds
    else pointed ds (e.toNat + 1)

/-- The text of a double as messages show it. -/
def text (x : Binary64) : String :=
  .ofList ((if x.negative then ['-'] else []) ++ x.shortest.chars inMessages)

end AddressPlan.Binary64
