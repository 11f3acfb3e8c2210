import AstDump.Number.Binary64

/-!
# JSON values

A dump is a JSON value. Whole numbers and doubles are kept apart, because a dump tells `1` from
`1.0`; the members of an object stand in the order of their keys, each key once.

* `Json`                      : the values;
* `Members.get?_insert`       : the values under the keys of an object, one of them set;
* `Json.member?`              : the member of an object under a key;
* `Json.leaf`, `Json.branch`  : records of a dump;
* `Json.nesting`              : how many containers are open at once in a value;
* `Json.Canonical`            : members sorted by key, whole numbers in the range of 64-bit words.
-/

namespace AstDump

/-- A JSON value. -/
inductive Json where
  | null
  | bool (b : Bool)
  | int (n : Int)
  | float (x : Binary64)
  | str (s : String)
  | arr (items : List Json)
  | obj (members : List (String × Json))
  deriving Repr, Inhabited

/-- The members of an object. -/
abbrev Members := List (String × Json)

namespace Members

/-- The value under a key. -/
def get? (key : String) : Members → Option Json
  | [] => none
  | (k, v) :: rest => if k = key then some v else get? key rest

/-- The members with `key` set to `value`: an earlier value under the key is replaced, and a new key
goes before the first greater one. -/
def insert (key : String) (value : Json) : Members → Members
  | [] => [(key, value)]
  | (k, v) :: rest =>
    if k = key then (key, value) :: rest
    else if key < k then (key, value) :: (k, v) :: rest
    else (k, v) :: insert key value rest

/-- The keys, in order. -/
def keys (members : Members) : List String := members.map Prod.fst

theorem get?_cons (key : String) (value : Json) (k : String) (rest : Members) :
    get? k ((key, value) :: rest) = if k = key then some value else get? k rest := by
  rw [get?]
  simp only [eq_comm]

theorem get?_insert (key : String) (value : Json) (k : String) (members : Members) :
    (members.insert key value).get? k = if k = key then some value else members.get? k := by
  induction members with
  | nil => rw [insert, get?_cons]
  | cons m rest ih =>
    obtain ⟨name, v⟩ := m
    rw [insert]
    split
    · rename_i hname
      subst hname
      rw [get?_cons, get?_cons]
      split <;> rfl
    · split
      · rw [get?_cons]
      · rename_i hname _
        rw [get?_cons, get?_cons, ih]
        by_cases hk : k = name
        · subst hk
          simp [hname]
        · simp [hk]

theorem insert_ne_nil (key : String) (value : Json) (members : Members) :
    members.insert key value ≠ [] := by
  intro h
  have hget := get?_insert key value key members
  rw [h, if_pos rfl] at hget
  cases hget

/-- The fields of other keys stay as they are. -/
theorem filter_insert {p : String → Bool} {key : String} (hp : p key = false) (value : Json)
    (members : Members) :
    (members.insert key value).filter (fun m => p m.1) = members.filter fun m => p m.1 := by
  induction members with
  | nil => simp [insert, hp]
  | cons m rest ih =>
    obtain ⟨name, v⟩ := m
    rw [insert]
    by_cases hname : name = key
    · simp [hname, hp]
    · rw [if_neg hname]
      split
      · simp [hp]
      · rw [List.filter_cons, List.filter_cons, ih]

theorem isSome_get?_of_mem {members : Members} {m : String × Json} (h : m ∈ members) :
    (members.get? m.1).isSome = true := by
  induction members with
  | nil => cases h
  | cons first rest ih =>
    obtain ⟨name, v⟩ := first
    rw [get?]
    split
    · rfl
    · rename_i hname
      rcases List.mem_cons.mp h with rfl | h
      · exact absurd rfl hname
      · exact ih h

end Members

namespace Json

/-- The member of an object under a key; nothing for any other value. -/
def member? (key : String) : Json → Option Json
  | obj members => Members.get? key members
  | _ => none

/-- The text of a string value. -/
def text? : Json → Option String
  | str s => some s
  | _ => none

/-- A child record without members stands for "no node here". -/
def IsPlaceholder (v : Json) : Prop := v = obj []

instance (v : Json) : Decidable v.IsPlaceholder :=
  match v with
  | obj [] => isTrue rfl
  | obj (_ :: _) => isFalse (by simp [IsPlaceholder])
  | null => isFalse (by simp [IsPlaceholder])
  | bool _ => isFalse (by simp [IsPlaceholder])
  | int _ => isFalse (by simp [IsPlaceholder])
  | float _ => isFalse (by simp [IsPlaceholder])
  | str _ => isFalse (by simp [IsPlaceholder])
  | arr _ => isFalse (by simp [IsPlaceholder])

/-- A record that has an id and a kind and nothing else. -/
def leaf (rawId kind : String) : Json := obj [("id", str rawId), ("kind", str kind)]

/-- A record that has items besides its id and its kind. -/
def branch (rawId kind : String) (inner : List Json) : Json :=
  obj [("id", str rawId), ("inner", arr inner), ("kind", str kind)]

mutual

/-- Number of values in a value, itself included. -/
def size : Json → Nat
  | arr items => sizeItems items + 1
  | obj members => sizeMembers members + 1
  | _ => 1

/-- Number of values in a list of values. -/
def sizeItems : List Json → Nat
  | [] => 0
  | v :: rest => v.size + sizeItems rest

/-- Number of values under a list of members. -/
def sizeMembers : List (String × Json) → Nat
  | [] => 0
  | (_, v) :: rest => v.size + sizeMembers rest

end

mutual

/-- The greatest number of containers that are open at once in a value. -/
def nesting : Json → Nat
  | arr items => nestingItems items + 1
  | obj members => nestingMembers members + 1
  | _ => 0

/-- The greatest nesting in a list of values. -/
def nestingItems : List Json → Nat
  | [] => 0
  | v :: rest => max v.nesting (nestingItems rest)

/-- The greatest nesting under a list of members. -/
def nestingMembers : List (String × Json) → Nat
  | [] => 0
  | (_, v) :: rest => max v.nesting (nestingMembers rest)

end

theorem nestingItems_le_iff {vs : List Json} {d : Nat} :
    nestingItems vs ≤ d ↔ ∀ v ∈ vs, v.nesting ≤ d := by
  induction vs with
  | nil => simp [nestingItems]
  | cons v vs ih => simp only [nestingItems, Nat.max_le, List.forall_mem_cons, ih]

theorem size_pos (v : Json) : 0 < v.size := by
  cases v <;> simp [size]

/-- An item is no larger and no deeper than the list, which has no more items than values. -/
theorem sizeItems_bounds (vs : List Json) :
    vs.length ≤ sizeItems vs ∧ ∀ v ∈ vs, v.size ≤ sizeItems vs ∧ v.nesting ≤ nestingItems vs := by
  induction vs with
  | nil => exact ⟨Nat.le_refl 0, fun _ hmem => by cases hmem⟩
  | cons v vs ih =>
    obtain ⟨hlength, hvs⟩ := ih
    have hpos := size_pos v
    simp only [sizeItems, nestingItems, List.length_cons, List.forall_mem_cons]
    refine ⟨by omega, by omega, fun w hw => ?_⟩
    have hw := hvs w hw
    omega

theorem sizeMembers_bounds (ms : Members) :
    ms.length ≤ sizeMembers ms ∧
      ∀ m ∈ ms, m.2.size ≤ sizeMembers ms ∧ m.2.nesting ≤ nestingMembers ms := by
  induction ms with
  | nil => exact ⟨Nat.le_refl 0, fun _ hmem => by cases hmem⟩
  | cons m ms ih =>
    obtain ⟨hlength, hms⟩ := ih
    have hpos := size_pos m.2
    simp only [sizeMembers, nestingMembers, List.length_cons, List.forall_mem_cons]
    refine ⟨by omega, by omega, fun w hw => ?_⟩
    have hw := hms w hw
    omega

/-- The least whole number that is not a double. -/
def minInt : Int := -0x8000000000000000

/-- The greatest whole number that is not a double. -/
def maxInt : Int := 0xffffffffffffffff

mutual

/-- The form in which values are read: keys of objects strictly increasing, whole numbers in the
range of signed or unsigned 64-bit words, doubles in normal form. -/
def Canonical : Json → Prop
  | int n => minInt ≤ n ∧ n ≤ maxInt
  | float x => x.Normal
  | arr items => CanonicalItems items
  | obj members => (Members.keys members).Pairwise (· < ·) ∧ CanonicalMembers members
  | _ => True

/-- Every value of a list is canonical. -/
def CanonicalItems : List Json → Prop
  | [] => True
  | v :: rest => v.Canonical ∧ CanonicalItems rest

/-- Every member's value is canonical. -/
def CanonicalMembers : List (String × Json) → Prop
  | [] => True
  | (_, v) :: rest => v.Canonical ∧ CanonicalMembers rest

end

theorem canonicalItems_iff {vs : List Json} : CanonicalItems vs ↔ ∀ v ∈ vs, v.Canonical := by
  induction vs with
  | nil => simp [CanonicalItems]
  | cons v vs ih => simp [CanonicalItems, ih]

theorem canonicalMembers_iff {ms : Members} : CanonicalMembers ms ↔ ∀ m ∈ ms, m.2.Canonical := by
  induction ms with
  | nil => simp [CanonicalMembers]
  | cons m ms ih => simp only [CanonicalMembers, List.forall_mem_cons, ih]

mutual

/-- No number in the value is a double. -/
def Whole : Json → Prop
  | float _ => False
  | arr items => WholeItems items
  | obj members => WholeMembers members
  | _ => True

/-- No number in the values is a double. -/
def WholeItems : List Json → Prop
  | [] => True
  | v :: rest => v.Whole ∧ WholeItems rest

/-- No number under the members is a double. -/
def WholeMembers : List (String × Json) → Prop
  | [] => True
  | (_, v) :: rest => v.Whole ∧ WholeMembers rest

end

theorem wholeItems_iff {vs : List Json} : WholeItems vs ↔ ∀ v ∈ vs, v.Whole := by
  induction vs with
  | nil => simp [WholeItems]
  | cons v vs ih => simp [WholeItems, ih]

theorem wholeMembers_iff {ms : Members} : WholeMembers ms ↔ ∀ m ∈ ms, m.2.Whole := by
  induction ms with
  | nil => simp [WholeMembers]
  | cons m ms ih => simp only [WholeMembers, List.forall_mem_cons, ih]

end Json

end AstDump
