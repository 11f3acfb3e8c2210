import AstDump.Number.Binary64

/-!
# The shortest decimal that reads back

A double stands for every real number that rounds to it. Of the decimals with the fewest digits in
that interval the one nearest to the double names it.

* `Binary64.Rounds`   : a decimal lies in the interval of a double;
* `Binary64.shortest` : the digits and the decimal exponent of the shortest such decimal.
-/

namespace AstDump

/-- The decimal `0.d₁d₂…dₙ · 10 ^ point`, without trailing zeros. -/
structure Decimal where
  digits : List Char
  point : Int
  deriving DecidableEq, Repr, Inhabited

namespace Binary64

/-- Number of decimal digits of a natural number. -/
def decimalLength (n : Nat) : Nat := (Nat.toDigits 10 n).length

/-- The greatest `k` with `10 ^ k ≤ n / d`, for positive `n` and `d`. -/
def floorLog10 (n d : Nat) : Int :=
  let k : Int := (decimalLength n : Int) - decimalLength d
  if d * tenPow k.toNat ≤ n * tenPow (-k).toNat then k else k - 1

/-- Quarter units in the last place down to the number half way to the next smaller double: two, or
one below a power of two, where the doubles get denser. -/
def quartersBelow (x : Binary64) : Nat :=
  if x.mantissa = twoPow (precision - 1) ∧ minExponent < x.exponent then 1 else 2

/-- The decimal `c · 10 ^ grid` rounds to the magnitude of `x`: it lies between the half-way points
to the neighbours of `x`, which belong to `x` when its mantissa is even. -/
def Rounds (x : Binary64) (c : Nat) (grid : Int) : Prop :=
  let scaleX := twoPow x.exponent.toNat * tenPow (-grid).toNat
  let lower := (4 * x.mantissa - x.quartersBelow) * scaleX
  let upper := (4 * x.mantissa + 2) * scaleX
  let value := 4 * c * tenPow grid.toNat * x.den
  if x.mantissa % 2 = 0 then lower ≤ value ∧ value ≤ upper else lower < value ∧ value < upper

instance (x : Binary64) (c : Nat) (grid : Int) : Decidable (x.Rounds c grid) := by
  unfold Rounds; infer_instance

/-- The multiple of `10 ^ grid` nearest to the magnitude of `x` that rounds to `x`, if one does; a
tie goes to the even multiple. -/
def nearestOn (x : Binary64) (grid : Int) : Option Nat :=
  let n := x.num * tenPow (-grid).toNat
  let d := x.den * tenPow grid.toNat
  let low := n / d
  match decide (x.Rounds low grid), decide (x.Rounds (low + 1) grid) with
  | true, true => some (roundDiv n d)
  | true, false => some low
  | false, true => some (low + 1)
  | false, false => none

/-- Enough digits to tell all doubles apart. -/
def maxDigits : Nat := 17

/-- The digits of a decimal without the zeros at its end. -/
def significantDigits (c : Nat) : List Char :=
  ((Nat.toDigits 10 c).reverse.dropWhile (· == '0')).reverse

/-- The shortest decimal that rounds to the magnitude of a nonzero double. -/
def shortest (x : Binary64) : Decimal :=
  let k := floorLog10 x.num x.den
  let found := (List.range maxDigits).findSome? fun (i : Nat) =>
    (x.nearestOn (k - i)).map fun c => (c, k - (i : Int))
  match found with
  | some (c, grid) => ⟨significantDigits c, decimalLength c + grid⟩
  | none => ⟨[], 0⟩

end Binary64

end AstDump
