import AddressPlan.Number.Power

/-!
Floating-point numbers of double precision, in exact arithmetic. A finite double is a sign, a mantissa of
at most 53 bits and a power of two. `ofRatio` rounds a fraction to the nearest double, ties to the even
mantissa; products, quotients and powers of ten are rounded through it.
-/

namespace AddressPlan

/-- A finite double: `mantissa * 2 ^ exponent`, negated if `negative`. -/
structure Binary64 where
  negative : Bool
  mantissa : Nat
  exponent : Int
  deriving DecidableEq, Repr

namespace Binary64

def minExponent : Int := -1074

def maxExponent : Int := 971

def zero (negative : Bool) : Binary64 :=
  ⟨negative, 0, minExponent⟩

def isZero (x : Binary64) : Bool :=
  x.mantissa == 0

def negate (x : Binary64) : Binary64 :=
  { x with negative := !x.negative }

/-- A fraction divided by a power of two. -/
def scaleDown (num den : Nat) (e : Int) : Nat × Nat :=
  if 0 ≤ e then (num, den * 2 ^ e.toNat) else (num * 2 ^ (-e).toNat, den)

/-- The quotient as a natural number, to the nearest one and to the even one of two as near. -/
def roundHalfEven (num den : Nat) : Nat :=
  let q := num / den
  let r := num % den
  if 2 * r < den || (2 * r == den && q % 2 == 0) then q else q + 1

/-- The exponent at which a positive fraction has a mantissa of 53 bits, if doubles reach so low. -/
def exponentOf (num den : Nat) : Int :=
  let e : Int := (num.log2 : Int) - den.log2 - 53
  let (n, d) := scaleDown num den e
  max minExponent (if 2 ^ (53 : Nat) ≤ n / d then e + 1 else e)

/-- The nearest double to a non-negative fraction; `none` if it is too large for one. -/
def ofRatio (num den : Nat) : Option Binary64 :=
  if num = 0 then some (zero false)
  else
    let e := exponentOf num den
    let (n, d) := scaleDown num den e
    let m := roundHalfEven n d
    let (m, e) := if m = 2 ^ (53 : Nat) then (2 ^ (52 : Nat), e + 1) else (m, e)
    if maxExponent < e then none else some ⟨false, m, e⟩

def ratio (x : Binary64) : Nat × Nat :=
  if 0 ≤ x.exponent then (x.mantissa * 2 ^ x.exponent.toNat, 1) else (x.mantissa, 2 ^ (-x.exponent).toNat)

def ofNat? (n : Nat) : Option Binary64 :=
  ofRatio n 1

/-- The product of the magnitudes, rounded. -/
def mul? (x y : Binary64) : Option Binary64 :=
  ofRatio (x.ratio.1 * y.ratio.1) (x.ratio.2 * y.ratio.2)

/-- The quotient of the magnitudes, rounded; the divisor is not zero. -/
def div? (x y : Binary64) : Option Binary64 :=
  ofRatio (x.ratio.1 * y.ratio.2) (x.ratio.2 * y.ratio.1)

/-- `x * 10 ^ k`, where the power of ten is a double itself. -/
def timesPowerOfTen? (x : Binary64) (k : Nat) : Option Binary64 := do
  x.mul? (← ofNat? (10 ^ k))

/-- The greatest power of ten that is a double. -/
def maxPower : Nat := 308

/-- `x / 10 ^ k` for powers of ten that are doubles, in steps of the greatest one. -/
def overPowerOfTen? (x : Binary64) (k : Nat) : Option Binary64 :=
  if k ≤ maxPower then do x.div? (← ofNat? (10 ^ k))
  else if x.isZero then some x
  else do
    let power ← ofNat? (10 ^ maxPower)
    (← x.div? power).overPowerOfTen? (k - maxPower)
termination_by k
decreasing_by simp only [maxPower] at *; omega

/-- `n * 10 ^ e`, computed as the double of `n` times or over the double of the power of ten; `none` if that
is too large for a double. -/
def ofDecimal? (n : Nat) (e : Int) : Option Binary64 := do
  let x ← ofNat? n
  if 0 ≤ e then
    if e.toNat ≤ maxPower then x.timesPowerOfTen? e.toNat
    else if x.isZero then some x
    else none
  else x.overPowerOfTen? (-e).toNat

end Binary64

end AddressPlan
