/-!
# Finite binary64 numbers

A finite double is a sign and a value `mantissa · 2 ^ exponent` in the normal form of the format:
the mantissa has at most 53 bits, and it has exactly 53 unless the exponent is the least one.

* `Binary64.ofRatio`  : the double nearest to a quotient of naturals, a tie going to the even
  mantissa; no double when the quotient is too large;
* `Binary64.scale`    : a whole number times a power of ten, rounded after each operation;
* `Binary64.Normal`   : the normal form; two normal doubles of one value and sign are equal.
-/

namespace AstDump

/-- A power of two. -/
def twoPow (k : Nat) : Nat := Nat.pow 2 k

/-- A power of ten. -/
def tenPow (k : Nat) : Nat := Nat.pow 10 k

/-- A finite double: the value is `mantissa · 2 ^ exponent`, negated when `negative`. -/
structure Binary64 where
  negative : Bool
  mantissa : Nat
  exponent : Int
  deriving DecidableEq, Repr, Inhabited

namespace Binary64

/-- Bits of a full mantissa. -/
def precision : Nat := 53

/-- The exponent of the smallest doubles. -/
def minExponent : Int := -1074

/-- The exponent of the largest doubles. -/
def maxExponent : Int := 971

/-- The mantissa is full, or the exponent is already the least one. -/
def Normal (x : Binary64) : Prop :=
  x.mantissa < twoPow precision ∧ minExponent ≤ x.exponent ∧ x.exponent ≤ maxExponent ∧
    (x.exponent = minExponent ∨ twoPow (precision - 1) ≤ x.mantissa)

instance (x : Binary64) : Decidable x.Normal := by unfold Normal; infer_instance

/-- Zero, with a sign. -/
def zero (negative : Bool) : Binary64 := ⟨negative, 0, minExponent⟩

/-- The number with its sign set. -/
def withSign (negative : Bool) (x : Binary64) : Binary64 := { x with negative }

/-- Numerator of the magnitude. -/
def num (x : Binary64) : Nat := x.mantissa * twoPow x.exponent.toNat

/-- Denominator of the magnitude, a power of two. -/
def den (x : Binary64) : Nat := twoPow (-x.exponent).toNat

/-- The quotient rounded to a whole number, a tie going to the even one. -/
def roundDiv (n d : Nat) : Nat :=
  let q := n / d
  let r := n % d
  if d < 2 * r ∨ (2 * r = d ∧ q % 2 = 1) then q + 1 else q

/-- The greatest `k` with `2 ^ k ≤ n / d`, for positive `n` and `d`. -/
def floorLog2 (n d : Nat) : Int :=
  let k : Int := (n.log2 : Int) - d.log2
  if d * twoPow k.toNat ≤ n * twoPow (-k).toNat then k else k - 1

/-- The double nearest to `n / d`, a tie going to the even mantissa; none when the quotient rounds
beyond the largest double. -/
def ofRatio (n d : Nat) : Option Binary64 :=
  if n = 0 then some (zero false) else
  let e := max (floorLog2 n d - (precision - 1 : Nat)) minExponent
  let m := roundDiv (n * twoPow (-e).toNat) (d * twoPow e.toNat)
  let x : Binary64 :=
    if m = twoPow precision then ⟨false, twoPow (precision - 1), e + 1⟩ else ⟨false, m, e⟩
  if x.exponent ≤ maxExponent then some x else none

/-- The double nearest to a whole number. -/
def ofNat (n : Nat) : Option Binary64 := ofRatio n 1

/-- The product of the magnitudes, rounded; none on overflow. -/
def mul (x y : Binary64) : Option Binary64 := ofRatio (x.num * y.num) (x.den * y.den)

/-- The quotient of the magnitudes, rounded; none on overflow. -/
def div (x y : Binary64) : Option Binary64 := ofRatio (x.num * y.den) (x.den * y.num)

/-- The largest power of ten that is a double. -/
def maxTenPower : Nat := 308

/-- A whole number times a power of ten, in at most three roundings: the number to a double, then
one product, or one or two quotients, by the double nearest to a power of ten. None on overflow. -/
def scale (significand : Nat) (tens : Int) : Option Binary64 := do
  if significand = 0 then return zero false
  let x ← ofNat significand
  if 0 ≤ tens then
    if tens ≤ maxTenPower then x.mul (← ofNat (tenPow tens.toNat)) else none
  else
    let k := (-tens).toNat
    if k ≤ maxTenPower then
      x.div (← ofNat (tenPow k))
    else
      let y ← x.div (← ofNat (tenPow maxTenPower))
      if k ≤ 2 * maxTenPower then y.div (← ofNat (tenPow (k - maxTenPower))) else return zero false

end Binary64

end AstDump
