import AstDump.Json.Basic

/-!
# Equality of JSON values

Whether two values are the same can be decided, member by member and item by item.
-/

namespace AstDump

namespace Json

mutual

/-- Decides whether two values are equal. -/
def decEq : (v w : Json) → Decidable (v = w)
  | null, w => match w with
    | null => isTrue rfl
    | bool _ | int _ | float _ | str _ | arr _ | obj _ => isFalse (by simp)
  | bool a, w => match w with
    | bool b => decidable_of_iff (a = b) (by simp)
    | null | int _ | float _ | str _ | arr _ | obj _ => isFalse (by simp)
  | int a, w => match w with
    | int b => decidable_of_iff (a = b) (by simp)
    | null | bool _ | float _ | str _ | arr _ | obj _ => isFalse (by simp)
  | float a, w => match w with
    | float b => decidable_of_iff (a = b) (by simp)
    | null | bool _ | int _ | str _ | arr _ | obj _ => isFalse (by simp)
  | str a, w => match w with
    | str b => decidable_of_iff (a = b) (by simp)
    | null | bool _ | int _ | float _ | arr _ | obj _ => isFalse (by simp)
  | arr a, w => match w with
    | arr b => match decEqItems a b with
      | isTrue h => isTrue (by rw [h])
      | isFalse h => isFalse (by simpa using h)
    | null | bool _ | int _ | float _ | str _ | obj _ => isFalse (by simp)
  | obj a, w => match w with
    | obj b => match decEqMembers a b with
      | isTrue h => isTrue (by rw [h])
      | isFalse h => isFalse (by simpa using h)
    | null | bool _ | int _ | float _ | str _ | arr _ => isFalse (by simp)

/-- Decides whether two lists of values are equal. -/
def decEqItems : (vs ws : List Json) → Decidable (vs = ws)
  | [], [] => isTrue rfl
  | [], _ :: _ => isFalse (by simp)
  | _ :: _, [] => isFalse (by simp)
  | v :: vs, w :: ws => match decEq v w, decEqItems vs ws with
    | isTrue h, isTrue h' => isTrue (by rw [h, h'])
    | isFalse h, _ => isFalse (by simp [h])
    | _, isFalse h => isFalse (by simp [h])

/-- Decides whether two lists of members are equal. -/
def decEqMembers : (vs ws : List (String × Json)) → Decidable (vs = ws)
  | [], [] => isTrue rfl
  | [], _ :: _ => isFalse (by simp)
  | _ :: _, [] => isFalse (by simp)
  | (k, v) :: vs, (l, w) :: ws => match decEq v w, decEqMembers vs ws with
    | isTrue h, isTrue h' =>
      if hk : k = l then isTrue (by rw [hk, h, h']) else isFalse (by simp [hk])
    | isFalse h, _ => isFalse (by simp [h])
    | _, isFalse h => isFalse (by simp [h])

end

instance : DecidableEq Json := decEq

end Json

end AstDump
