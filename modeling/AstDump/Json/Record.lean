import AstDump.Json.Basic

/-!
# Reading records from values

A record is written as an object, in which keys of other names do not matter, or as the list of its
fields in order.

* `Json.fields?`   : the values of the fields of a record;
* `Json.required`  : a field that has to be there;
* `Json.optional`  : a field that may be absent or null;
* `Json.natBelow?`, `Json.list?`, `Json.bool?` : values of one type.
-/

namespace AstDump

namespace Json

/-- The values of the named fields, in order. An object may lack some; a list has all of them and no
more. -/
def fields? (names : List String) : Json → Option (List (Option Json))
  | obj members => some (names.map fun name => Members.get? name members)
  | arr items => if items.length = names.length then some (items.map some) else none
  | _ => none

/-- A field that has to be there. -/
def required {α : Type} (read : Json → Option α) (field : Option Json) : Option α := field.bind read

/-- A field that may be absent or null; a value of the wrong type is refused. -/
def optional {α : Type} (read : Json → Option α) : Option Json → Option (Option α)
  | none => some none
  | some null => some none
  | some v => (read v).map some

/-- A whole number from zero up to a bound, the bound excluded. -/
def natBelow? (bound : Nat) : Json → Option Nat
  | int n => if 0 ≤ n ∧ n < bound then some n.toNat else none
  | _ => none

/-- A boolean. -/
def bool? : Json → Option Bool
  | bool b => some b
  | _ => none

/-- A list of values of one type. -/
def list? {α : Type} (read : Json → Option α) : Json → Option (List α)
  | arr items => items.mapM read
  | _ => none

/-- An absent field is written as null. -/
def ofOption {α : Type} (write : α → Json) : Option α → Json
  | some a => write a
  | none => null

/-- A natural number as a value. -/
def nat (n : Nat) : Json := int n

/-- One more than the greatest 32-bit word. -/
def words32 : Nat := 0x100000000

/-- One more than the greatest 64-bit word. -/
def words64 : Nat := 0x10000000000000000

/-- A number below the bound is read back. -/
theorem natBelow?_nat {bound n : Nat} (h : n < bound) : natBelow? bound (nat n) = some n := by
  rw [nat, natBelow?, if_pos (by omega), Int.toNat_natCast]

/-- What is read is below the bound. -/
theorem lt_of_natBelow? {bound n : Nat} {v : Json} (h : natBelow? bound v = some n) :
    n < bound := by
  unfold natBelow? at h
  split at h
  · split at h
    · cases h
      omega
    · cases h
  · cases h

end Json

end AstDump
