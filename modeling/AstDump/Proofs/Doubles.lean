import AstDump.Proofs.Spelling
import Mathlib.Data.List.DropRight

/-!
# The text of a double is a number

A double is written with the fewest decimal digits that name it. Such digits are always found:
doubles are so far apart that between the half-way points to the neighbours of one there is a
decimal of seventeen digits. They do not start with a zero, so that what is written is a number.

* `Binary64.floorLog10_le`      : where the digits of a quotient start;
* `Binary64.exists_nearestOn`   : seventeen digits are enough;
* `Binary64.shortest_digits`    : the digits of a double are those of a positive number;
* `NumberText`                  : a number as it is written;
* `Json.exists_numberText`      : whole numbers are written so;
* `Binary64.exists_numberText`  : and doubles are.
-/

namespace AstDump

/-! ## Powers of ten -/

theorem tenPow_add (a b : Nat) : tenPow (a + b) = tenPow a * tenPow b := Nat.pow_add 10 a b

theorem tenPow_pos (k : Nat) : 0 < tenPow k := Nat.pow_pos (by decide)

theorem twoPow_pos (k : Nat) : 0 < twoPow k := Nat.pow_pos (by decide)

namespace Binary64

theorem decimalLength_bounds {n : Nat} (h : 0 < n) :
    0 < decimalLength n ∧ tenPow (decimalLength n - 1) ≤ n ∧ n < tenPow (decimalLength n) := by
  have hpos : 0 < decimalLength n := Nat.length_toDigits_pos
  refine ⟨hpos, ?_, (Nat.length_toDigits_le_iff (by decide) hpos).mp (Nat.le_refl _)⟩
  by_cases hone : decimalLength n = 1
  · rw [hone]
    exact h
  · refine Nat.not_lt.mp fun hlt => ?_
    have hle : decimalLength n ≤ decimalLength n - 1 :=
      (Nat.length_toDigits_le_iff (by decide) (by omega)).mpr hlt
    omega

/-- The digits of a quotient start where they are said to. -/
theorem floorLog10_le {n d : Nat} (hn : 0 < n) (hd : 0 < d) :
    d * tenPow (floorLog10 n d).toNat ≤ n * tenPow (-floorLog10 n d).toNat := by
  unfold floorLog10
  dsimp only
  split
  · assumption
  · obtain ⟨hposn, hlow, -⟩ := decimalLength_bounds hn
    obtain ⟨-, -, hhigh⟩ := decimalLength_bounds hd
    generalize hk : (decimalLength n : Int) - decimalLength d - 1 = k
    calc d * tenPow k.toNat
        ≤ tenPow (decimalLength d) * tenPow k.toNat := Nat.mul_le_mul_right _ (Nat.le_of_lt hhigh)
      _ = tenPow (decimalLength n - 1) * tenPow (-k).toNat := by
        rw [← tenPow_add, ← tenPow_add]
        congr 1
        omega
      _ ≤ n * tenPow (-k).toNat := Nat.mul_le_mul_right _ hlow

/-- On a grid that is `i` powers of ten finer, a quotient is as many times larger. -/
theorem le_on_finer {n d : Nat} {k : Int} (h : d * tenPow k.toNat ≤ n * tenPow (-k).toNat)
    (i : Nat) : d * tenPow (k - i).toNat * tenPow i ≤ n * tenPow (-(k - i)).toNat := by
  have hexponents : tenPow (k - i).toNat * tenPow i * tenPow (-k).toNat =
      tenPow k.toNat * tenPow (-(k - i)).toNat := by
    rw [← tenPow_add, ← tenPow_add, ← tenPow_add]
    congr 1
    omega
  refine Nat.le_of_mul_le_mul_right ?_ (tenPow_pos (-k).toNat)
  calc d * tenPow (k - i).toNat * tenPow i * tenPow (-k).toNat
      = d * tenPow k.toNat * tenPow (-(k - i)).toNat := by
        rw [Nat.mul_assoc d, Nat.mul_assoc d, hexponents, Nat.mul_assoc d]
    _ ≤ n * tenPow (-k).toNat * tenPow (-(k - i)).toNat := Nat.mul_le_mul_right _ h
    _ = n * tenPow (-(k - i)).toNat * tenPow (-k).toNat := by
        rw [Nat.mul_assoc, Nat.mul_assoc, Nat.mul_comm (tenPow _)]

/-! ## Seventeen digits -/

/-- The unit in the last place of a double, on a grid of powers of ten. -/
def unitOn (x : Binary64) (grid : Int) : Nat := twoPow x.exponent.toNat * tenPow (-grid).toNat

/-- The step of a grid, in the same unit. -/
def stepOn (x : Binary64) (grid : Int) : Nat := x.den * tenPow grid.toNat

theorem num_mul_tenPow (x : Binary64) (grid : Int) :
    x.num * tenPow (-grid).toNat = x.mantissa * x.unitOn grid := Nat.mul_assoc _ _ _

/-- What lies strictly between the half-way points rounds to the double. -/
theorem rounds_of_lt {x : Binary64} {c : Nat} {grid : Int}
    (hlower : 4 * (x.mantissa * x.unitOn grid) - x.quartersBelow * x.unitOn grid <
      4 * (c * x.stepOn grid))
    (hupper : 4 * (c * x.stepOn grid) <
      4 * (x.mantissa * x.unitOn grid) + 2 * x.unitOn grid) : x.Rounds c grid := by
  rw [← Nat.mul_assoc 4 x.mantissa, ← Nat.sub_mul] at hlower
  rw [← Nat.mul_assoc 4 x.mantissa, ← Nat.add_mul] at hupper
  have hvalue : 4 * c * tenPow grid.toNat * x.den = 4 * (c * x.stepOn grid) := by
    rw [stepOn, Nat.mul_comm x.den, Nat.mul_assoc, Nat.mul_assoc]
  unfold Rounds
  dsimp only
  rw [hvalue]
  split
  · exact ⟨Nat.le_of_lt hlower, Nat.le_of_lt hupper⟩
  · exact ⟨hlower, hupper⟩

theorem quartersBelow_cases (x : Binary64) :
    (x.quartersBelow = 1 ∧ x.mantissa = twoPow (precision - 1)) ∨ x.quartersBelow = 2 := by
  unfold quartersBelow
  split
  · next h => exact .inl ⟨rfl, h.1⟩
  · exact .inr rfl

/-- **A decimal next to a double rounds to it** on every grid on which the double has seventeen
digits: a step of such a grid is less than the distance of two doubles. -/
theorem rounds_low_or_high {x : Binary64} (hpos : 0 < x.mantissa)
    (hfits : x.mantissa < twoPow precision) {grid : Int}
    (hgrid : x.stepOn grid * tenPow 16 ≤ x.mantissa * x.unitOn grid) :
    let low := x.mantissa * x.unitOn grid / x.stepOn grid
    x.Rounds low grid ∨ x.Rounds (low + 1) grid := by
  intro low
  have hten : tenPow 16 = 10000000000000000 := by decide +kernel
  have htwo : twoPow precision = 9007199254740992 := by decide +kernel
  have hhalf : twoPow (precision - 1) = 4503599627370496 := by decide +kernel
  have hstep : 0 < x.stepOn grid := Nat.mul_pos (twoPow_pos _) (tenPow_pos _)
  have hdiv : low * x.stepOn grid + x.mantissa * x.unitOn grid % x.stepOn grid =
      x.mantissa * x.unitOn grid := Nat.div_add_mod' _ _
  have hrest := Nat.mod_lt (x.mantissa * x.unitOn grid) hstep
  have hunit : x.unitOn grid ≤ x.mantissa * x.unitOn grid := Nat.le_mul_of_pos_left _ hpos
  -- below a power of two the doubles are twice as dense, but then the mantissa is half as large
  have hdense : 2 * x.stepOn grid < x.quartersBelow * x.unitOn grid := by
    rw [hten] at hgrid
    rcases x.quartersBelow_cases with ⟨hone, hmantissa⟩ | htwoQuarters
    · rw [hmantissa, hhalf] at hgrid
      rw [hone]
      omega
    · have hmantissa : x.mantissa * x.unitOn grid ≤ 9007199254740991 * x.unitOn grid :=
        Nat.mul_le_mul_right _ (by omega)
      rw [htwoQuarters]
      omega
  have hquarters : x.quartersBelow * x.unitOn grid ≤ 2 * x.unitOn grid := by
    refine Nat.mul_le_mul_right _ ?_
    rcases x.quartersBelow_cases with ⟨hone, -⟩ | htwoQuarters <;> omega
  by_cases hlow : 2 * (x.mantissa * x.unitOn grid % x.stepOn grid) ≤ x.stepOn grid
  · exact .inl (rounds_of_lt (by omega) (by omega))
  · have hnext : (low + 1) * x.stepOn grid = low * x.stepOn grid + x.stepOn grid :=
      Nat.succ_mul _ _
    exact .inr (rounds_of_lt (by omega) (by omega))

/-! ## The shortest digits -/

/-- What is found on a grid is no less than the double, cut off at the grid. -/
theorem le_of_nearestOn {x : Binary64} {grid : Int} {c : Nat} (h : x.nearestOn grid = some c) :
    x.mantissa * x.unitOn grid / x.stepOn grid ≤ c := by
  unfold nearestOn at h
  dsimp only at h
  rw [num_mul_tenPow] at h
  split at h
  · cases h
    unfold roundDiv
    dsimp only
    split
    · exact Nat.le_succ _
    · exact Nat.le_refl _
  · cases h
    exact Nat.le_refl _
  · cases h
    exact Nat.le_succ _
  · cases h

/-- A double is at least as large as the power of ten where its digits start, on any finer grid. -/
theorem stepOn_le {x : Binary64} (hpos : 0 < x.mantissa) (i : Nat) :
    x.stepOn (floorLog10 x.num x.den - i) * tenPow i ≤
      x.mantissa * x.unitOn (floorLog10 x.num x.den - i) := by
  have hnum : 0 < x.num := Nat.mul_pos hpos (twoPow_pos _)
  have hden : 0 < x.den := twoPow_pos _
  rw [← num_mul_tenPow]
  exact le_on_finer (floorLog10_le hnum hden) i

/-- **Seventeen digits are enough** for any double. -/
theorem exists_nearestOn {x : Binary64} (hpos : 0 < x.mantissa)
    (hfits : x.mantissa < twoPow precision) :
    ∃ c, x.nearestOn (floorLog10 x.num x.den - (16 : Nat)) = some c := by
  have hrounds := rounds_low_or_high hpos hfits (stepOn_le hpos 16)
  unfold nearestOn
  dsimp only
  rw [num_mul_tenPow]
  split
  · exact ⟨_, rfl⟩
  · exact ⟨_, rfl⟩
  · exact ⟨_, rfl⟩
  · next hlow hhigh =>
    rcases hrounds with h | h
    · exact absurd h (of_decide_eq_false hlow)
    · exact absurd h (of_decide_eq_false hhigh)

/-- **The digits of a double** are those of a positive number, without the zeros at its end. -/
theorem shortest_digits {x : Binary64} (hpos : 0 < x.mantissa)
    (hfits : x.mantissa < twoPow precision) :
    ∃ c, 0 < c ∧ x.shortest.digits = significantDigits c := by
  unfold shortest
  dsimp only
  split
  · next c grid hfound =>
    obtain ⟨i, -, hi⟩ := List.exists_of_findSome?_eq_some hfound
    obtain ⟨c', hc', hpair⟩ := Option.map_eq_some_iff.mp hi
    cases hpair
    refine ⟨c, Nat.lt_of_lt_of_le ?_ (le_of_nearestOn hc'), rfl⟩
    have hle : x.stepOn (floorLog10 x.num x.den - i) ≤
        x.mantissa * x.unitOn (floorLog10 x.num x.den - i) :=
      Nat.le_trans (Nat.le_mul_of_pos_right _ (tenPow_pos i)) (stepOn_le hpos i)
    exact Nat.div_pos hle (Nat.mul_pos (twoPow_pos _) (tenPow_pos _))
  · next hnone =>
    obtain ⟨c, hc⟩ := exists_nearestOn hpos hfits
    have hlast := List.findSome?_eq_none_iff.mp hnone 16 (by decide)
    rw [hc] at hlast
    cases hlast

end Binary64

/-! ## Numbers as they are written -/

/-- Decimal digits, at least one. -/
structure IsDigits (ds : List Char) : Prop where
  ne_nil : ds ≠ []
  isDigit : ∀ c ∈ ds, c.isDigit = true

/-- A number as it is written: a minus sign or none, digits without a zero in front, and perhaps a
fraction and an exponent. -/
structure NumberText where
  negative : Bool
  whole : List Char
  fraction : Option (List Char)
  exponent : Option (Char × List Char)
  isDigits_whole : IsDigits whole
  leading : whole.head? = some '0' → whole = ['0']
  isDigits_fraction : ∀ ds ∈ fraction, IsDigits ds
  isDigits_exponent : ∀ e ∈ exponent, (e.1 = '-' ∨ e.1 = '+') ∧ IsDigits e.2

namespace NumberText

/-- The fraction with its point. -/
def fractionChars : Option (List Char) → List Char
  | some ds => '.' :: ds
  | none => []

/-- The exponent with its mark and sign. -/
def exponentChars : Option (Char × List Char) → List Char
  | some (sign, ds) => 'e' :: sign :: ds
  | none => []

/-- The characters of the number without its sign. -/
def unsigned (t : NumberText) : List Char :=
  t.whole ++ (fractionChars t.fraction ++ exponentChars t.exponent)

/-- The characters of the number. -/
def chars (t : NumberText) : List Char := if t.negative then '-' :: t.unsigned else t.unsigned

end NumberText

/-- Digits as bytes: one for each, all of them digits. -/
theorem IsDigits.charBytes {ds : List Char} (h : IsDigits ds) :
    ∃ b bs, AstDump.charBytes ds = b :: bs ∧ ∀ d ∈ b :: bs, Byte.isDigit d = true := by
  have hall : ∀ d ∈ AstDump.charBytes ds, Byte.isDigit d = true := by
    intro d hd
    obtain ⟨c, hc, hd⟩ := List.mem_flatMap.mp hd
    obtain ⟨b, hbytes, -, hvalue⟩ := Json.utf8EncodeChar_digit (h.isDigit c hc)
    rw [hbytes, List.mem_singleton] at hd
    exact hd ▸ Byte.isDigit_of_digit? hvalue
  cases hbytes : AstDump.charBytes ds with
  | nil =>
    obtain ⟨c, cs, rfl⟩ := List.exists_cons_of_ne_nil h.ne_nil
    obtain ⟨b, hb, -⟩ := Json.utf8EncodeChar_digit (h.isDigit c List.mem_cons_self)
    rw [charBytes_cons, hb] at hbytes
    cases hbytes
  | cons b bs => exact ⟨b, bs, rfl, hbytes ▸ hall⟩

/-- A number starts with a minus sign or a digit. -/
theorem NumberText.start (t : NumberText) :
    ∃ b bs, charBytes t.chars = b :: bs ∧ (b = Byte.minus ∨ Byte.isDigit b) := by
  unfold chars
  split
  · exact ⟨Byte.minus, _, rfl, .inl rfl⟩
  · obtain ⟨b, bs, hbytes, hdigits⟩ := t.isDigits_whole.charBytes
    rw [unsigned, charBytes_append, hbytes]
    exact ⟨b, _, rfl, .inr (hdigits b List.mem_cons_self)⟩

theorem isDigits_toDigits (n : Nat) : IsDigits (Nat.toDigits 10 n) :=
  ⟨Nat.toDigits_ne_nil, fun _ => Json.isDigit_of_mem_toDigits⟩

/-- Only zero itself starts with a zero. -/
theorem toDigits_of_head? {n : Nat} (h : (Nat.toDigits 10 n).head? = some '0') :
    Nat.toDigits 10 n = ['0'] := by
  obtain rfl | hpos := Nat.eq_zero_or_pos n
  · exact Nat.toDigits_zero 10
  · exact absurd h (Json.head?_toDigits_ne hpos)

theorem isDigits_zero : IsDigits ['0'] := isDigits_toDigits 0

/-- Digits with a point among them are a number, if there is no zero in front. -/
theorem exists_numberText_point {whole fraction : List Char} (hwhole : IsDigits whole)
    (hleading : whole.head? = some '0' → whole = ['0']) (hfraction : IsDigits fraction) :
    ∃ t : NumberText, whole ++ '.' :: fraction = t.unsigned := by
  refine ⟨⟨false, whole, some fraction, none, hwhole, hleading, by simpa using hfraction,
    by simp⟩, ?_⟩
  simp [NumberText.unsigned, NumberText.fractionChars, NumberText.exponentChars]

/-- **A whole number is written as a number.** -/
theorem Json.exists_numberText (n : Int) : ∃ t : NumberText, intChars n = t.chars := by
  refine ⟨⟨decide (n < 0), Nat.toDigits 10 n.natAbs, none, none, isDigits_toDigits _,
    toDigits_of_head?, by simp, by simp⟩, ?_⟩
  unfold intChars NumberText.chars NumberText.unsigned
  by_cases hneg : n < 0 <;> simp [hneg, NumberText.fractionChars, NumberText.exponentChars]

theorem Json.charBytes_intChars_eq_cons (n : Int) :
    ∃ b bs, charBytes (intChars n) = b :: bs ∧ (b = Byte.minus ∨ Byte.isDigit b) := by
  obtain ⟨t, ht⟩ := exists_numberText n
  rw [ht]
  exact t.start

/-- The digits of a positive number without the zeros at its end: at least the first is left. -/
theorem Binary64.isDigits_significantDigits {c : Nat} (h : 0 < c) :
    IsDigits (significantDigits c) ∧ (significantDigits c).head? ≠ some '0' := by
  have hhead := Json.head?_toDigits_ne h
  obtain ⟨rest, hrest⟩ : significantDigits c <+: Nat.toDigits 10 c := List.rdropWhile_prefix _ _
  cases hdigits : significantDigits c with
  | nil =>
    have hzeros := List.rdropWhile_eq_nil_iff.mp hdigits
    cases hall : Nat.toDigits 10 c with
    | nil => exact absurd hall Nat.toDigits_ne_nil
    | cons d ds =>
      have hd := hzeros d (hall ▸ List.mem_cons_self)
      rw [hall, eq_of_beq hd] at hhead
      exact absurd rfl hhead
  | cons d ds =>
    rw [hdigits] at hrest
    rw [← hrest] at hhead
    refine ⟨⟨List.cons_ne_nil d ds, fun e he => ?_⟩, hhead⟩
    have hmem : e ∈ Nat.toDigits 10 c := hrest ▸ List.mem_append_left rest he
    exact Json.isDigit_of_mem_toDigits hmem

namespace Decimal

theorem isDigit_of_mem_zeros {n : Nat} {c : Char} (h : c ∈ List.replicate n '0') :
    c.isDigit = true := by
  rw [(List.mem_replicate.mp h).2]
  rfl

variable {x : Decimal} (hdigits : IsDigits x.digits)
include hdigits

/-- The digits before the point, which is behind the first digit. -/
theorem isDigits_whole (hpoint : 0 < x.point) :
    let whole := x.digits.take x.point.toNat ++
      List.replicate (x.point.toNat - x.digits.length) '0'
    IsDigits whole ∧ whole.head? = x.digits.head? := by
  intro whole
  obtain ⟨d, ds, hcons⟩ := List.exists_cons_of_ne_nil hdigits.ne_nil
  have hfirst : whole.head? = x.digits.head? := by
    rw [List.head?_append, List.head?_take, if_neg (by omega), hcons]
    rfl
  refine ⟨⟨fun hnil => ?_, fun c hc => ?_⟩, hfirst⟩
  · rw [hnil, hcons] at hfirst
    cases hfirst
  · rcases List.mem_append.mp hc with hc | hc
    · exact hdigits.isDigit c (List.mem_of_mem_take hc)
    · exact isDigit_of_mem_zeros hc

/-- The digits behind the point, or a zero. -/
theorem isDigits_fraction (n : Nat) :
    IsDigits (if (x.digits.drop n).isEmpty then ['0'] else x.digits.drop n) := by
  split
  · exact isDigits_zero
  · next hsome =>
    exact ⟨by simpa using hsome, fun c hc => hdigits.isDigit c (List.mem_of_mem_drop hc)⟩

/-- Plain notation is a number if the digits do not start with a zero. -/
theorem exists_numberText_plain (hhead : x.digits.head? ≠ some '0') :
    ∃ t : NumberText, x.plain = t.unsigned := by
  unfold plain
  split
  · have hfraction : IsDigits (List.replicate (-x.point).toNat '0' ++ x.digits) := by
      refine ⟨List.append_ne_nil_of_right_ne_nil _ hdigits.ne_nil, fun c hc => ?_⟩
      exact (List.mem_append.mp hc).elim isDigit_of_mem_zeros (hdigits.isDigit c)
    exact exists_numberText_point isDigits_zero (fun _ => rfl) hfraction
  · next hpoint =>
    obtain ⟨hwhole, hfirst⟩ := isDigits_whole hdigits (Int.not_le.mp hpoint)
    exact exists_numberText_point hwhole (fun hzero => absurd (hfirst.symm.trans hzero) hhead)
      (isDigits_fraction hdigits _)

/-- Scientific notation is a number. -/
theorem exists_numberText_scientific : ∃ t : NumberText, x.scientific = t.unsigned := by
  have hfirst : ∀ {d : Char} {ds : List Char}, x.digits = d :: ds →
      IsDigits [d] ∧ ([d].head? = some '0' → [d] = ['0']) := by
    intro d ds hcons
    have hd := hdigits.isDigit d (hcons ▸ List.mem_cons_self)
    exact ⟨⟨by simp, by simpa using hd⟩, fun hzero => by simpa using hzero⟩
  have hexponent : ∀ e ∈ some ((if x.point - 1 < 0 then '-' else '+'),
      Nat.toDigits 10 (x.point - 1).natAbs), (e.1 = '-' ∨ e.1 = '+') ∧ IsDigits e.2 := by
    intro e he
    cases he
    refine ⟨?_, isDigits_toDigits _⟩
    split
    · exact .inl rfl
    · exact .inr rfl
  unfold scientific
  dsimp only
  split
  · next hnil => exact absurd hnil hdigits.ne_nil
  · next d hcons =>
    obtain ⟨hd, hzero⟩ := hfirst hcons
    exact ⟨⟨false, [d], none, some _, hd, hzero, by simp, hexponent⟩, rfl⟩
  · next d rest hrest hcons =>
    obtain ⟨hd, hzero⟩ := hfirst hcons
    have hfraction : IsDigits rest := by
      refine ⟨hrest, fun c hc => hdigits.isDigit c ?_⟩
      exact hcons ▸ List.mem_cons_of_mem d hc
    exact ⟨⟨false, [d], some rest, some _, hd, hzero, by simpa using hfraction, hexponent⟩, rfl⟩

end Decimal

/-- **A double is written as a number.** -/
theorem Binary64.exists_numberText {x : Binary64} (h : x.mantissa < twoPow precision) :
    ∃ t : NumberText, x.chars = t.chars := by
  have hmagnitude : ∃ t : NumberText,
      (if x.mantissa = 0 then ['0', '.', '0'] else x.shortest.chars .json) = t.unsigned := by
    split
    · exact exists_numberText_point isDigits_zero (fun _ => rfl) isDigits_zero
    · next hzero =>
      obtain ⟨c, hc, hdigits⟩ := shortest_digits (Nat.pos_of_ne_zero hzero) h
      obtain ⟨hc, hhead⟩ := isDigits_significantDigits hc
      rw [← hdigits] at hc hhead
      unfold Decimal.chars
      dsimp only
      split
      · exact Decimal.exists_numberText_plain hc hhead
      · exact Decimal.exists_numberText_scientific hc
  obtain ⟨t, ht⟩ := hmagnitude
  refine ⟨{ t with negative := x.negative }, ?_⟩
  unfold chars NumberText.chars
  dsimp only
  rw [ht]
  rfl

theorem Binary64.charBytes_chars_eq_cons {x : Binary64} (h : x.mantissa < twoPow precision) :
    ∃ b bs, charBytes x.chars = b :: bs ∧ (b = Byte.minus ∨ Byte.isDigit b) := by
  obtain ⟨t, ht⟩ := exists_numberText h
  rw [ht]
  exact t.start

end AstDump
