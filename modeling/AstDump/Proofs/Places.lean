import AstDump.Proofs.Records

/-!
# Places in a dump

A value that decoding comes to has a place: the positions of the items that lead to it, level by
level. Document order is the lexicographic order of the places: a place comes before the places
inside of it.

* `Before`        : document order;
* `Json.valueAt?` : the value at a place;
* `Json.pathTo`   : the path that leads to it;
* `Dropped`       : a malformed item of a record that all records above lead to;
* `exists_dropped_at_or_above` : whatever is malformed is dropped, or lies inside of what is.
-/

namespace AstDump

/-- Where a value stands in a dump: the positions of the items that lead to it. -/
abbrev Place := List Nat

/-- Document order. -/
def Before (p q : Place) : Prop := List.Lex (· < ·) p q

namespace Before

variable {p q : Place}

theorem cons_iff {i j : Nat} : Before (i :: p) (j :: q) ↔ i < j ∨ i = j ∧ Before p q :=
  List.cons_lex_cons_iff

theorem not_nil : ¬ Before p [] := List.not_lex_nil

theorem trans {r : Place} (h : Before p q) (h' : Before q r) : Before p r :=
  List.lex_trans (fun hij hjk => Nat.lt_trans hij hjk) h h'

theorem append_left (place : Place) (h : Before p q) : Before (place ++ p) (place ++ q) := by
  induction place with
  | nil => exact h
  | cons i place ih => exact cons_iff.mpr (.inr ⟨rfl, ih⟩)

/-- A place comes before the places inside of it. -/
theorem append_cons (place : Place) (i : Nat) (inner : Place) :
    Before place (place ++ i :: inner) := by
  have h : Before (place ++ []) (place ++ i :: inner) := append_left place List.Lex.nil
  rwa [List.append_nil] at h

/-- What comes before a place comes before no place on the way to it. -/
theorem not_of_prefix (h : q <+: p) : ¬ Before p q := by
  obtain ⟨inner, rfl⟩ := h
  intro hbefore
  cases inner with
  | nil =>
    rw [List.append_nil] at hbefore
    exact List.lex_irrefl Nat.lt_irrefl q hbefore
  | cons i inner =>
    exact List.lex_irrefl Nat.lt_irrefl q ((append_cons q i inner).trans hbefore)

end Before

namespace Json

/-- The items of the children field of a value; none where there is no such list. -/
def childItems (options : Options) : Json → List Json
  | .obj members => (Members.items? options members).getD []
  | _ => []

/-- The value at a place. A placeholder is at no place, and so is what lies inside it. -/
def valueAt? (options : Options) : Json → Place → Option Json
  | v, [] => some v
  | v, i :: place =>
    match (v.childItems options)[i]? with
    | none => none
    | some item => if item.IsPlaceholder then none else valueAt? options item place

/-- The steps of a path from a record to its item at a position. -/
def stepsTo (options : Options) (v : Json) (i : Nat) : Path :=
  match v with
  | .obj members =>
    [.node (.ofTag ((Members.kindTag? members).getD "")) ((Members.idText? members).getD ""),
      .item ((Members.childrenField? options members).getD "") i]
  | _ => []

/-- The path that leads to a place. -/
def pathTo (options : Options) : Json → Place → Path
  | _, [] => []
  | v, i :: place =>
    match (v.childItems options)[i]? with
    | none => []
    | some item => v.stepsTo options i ++ pathTo options item place

variable {options : Options} {raw item v : Json} {i : Nat} {place : Place}

theorem valueAt?_cons_iff : raw.valueAt? options (i :: place) = some v ↔
    ∃ item, (raw.childItems options)[i]? = some item ∧ ¬ item.IsPlaceholder ∧
      item.valueAt? options place = some v := by
  rw [valueAt?]
  cases (raw.childItems options)[i]? with
  | none => simp
  | some item => by_cases hitem : item.IsPlaceholder <;> simp [hitem]

theorem pathTo_cons (h : (raw.childItems options)[i]? = some item) (place : Place) :
    raw.pathTo options (i :: place) = raw.stepsTo options i ++ item.pathTo options place := by
  rw [pathTo, h]

end Json

namespace Record

variable {options : Options} {path : Path} {depth : Nat} {raw : Json} {r : Record}
  {items : List Json}

theorem childItems_of_openAt (h : openAt options path depth raw = .ok (r, items)) :
    raw.childItems options = items := by
  obtain ⟨-, rfl, -, -, hitems⟩ := openAt_eq_ok_iff.mp h
  rw [Json.childItems, hitems]
  rfl

theorem stepsTo_of_openAt (h : openAt options path depth raw = .ok (r, items)) (i : Nat) :
    raw.stepsTo options i = [.node r.kind r.rawId, .item (r.childrenField options) i] := by
  obtain ⟨-, rfl, hid, ⟨tag, hkind, htag⟩, -⟩ := openAt_eq_ok_iff.mp h
  rw [Json.stepsTo, hid, hkind, htag, childrenField_eq]
  rfl

theorem append_stepsTo (h : openAt options path depth raw = .ok (r, items)) (i : Nat) :
    path ++ raw.stepsTo options i =
      path ++ [.node r.kind r.rawId] ++ [.item (r.childrenField options) i] := by
  rw [stepsTo_of_openAt h, List.append_assoc]
  rfl

end Record

/-! ## What recovery drops -/

/-- The value at a place below a record is malformed, and all records on the way to it are
well-formed, the first of them at the given depth. -/
inductive Dropped (options : Options) : Nat → Json → Place → Json → Prop
  | item {depth : Nat} {raw item : Json} {i : Nat} (record : WellFormed options depth raw)
      (at_i : (raw.childItems options)[i]? = some item) (held : ¬ item.IsPlaceholder)
      (malformed : ¬ WellFormed options (depth + 1) item) : Dropped options depth raw [i] item
  | inside {depth : Nat} {raw item v : Json} {i : Nat} {place : Place}
      (record : WellFormed options depth raw) (at_i : (raw.childItems options)[i]? = some item)
      (held : ¬ item.IsPlaceholder) (rest : Dropped options (depth + 1) item place v) :
      Dropped options depth raw (i :: place) v

namespace Dropped

variable {options : Options} {depth : Nat} {raw v : Json} {place : Place}

theorem record (h : Dropped options depth raw place v) : WellFormed options depth raw := by
  cases h <;> assumption

theorem valueAt? (h : Dropped options depth raw place v) : raw.valueAt? options place = some v := by
  induction h with
  | item _ at_i held _ => exact Json.valueAt?_cons_iff.mpr ⟨_, at_i, held, rfl⟩
  | inside _ at_i held _ ih => exact Json.valueAt?_cons_iff.mpr ⟨_, at_i, held, ih⟩

/-- The first position of a dropped place, and what is dropped below the item there. -/
theorem cons_iff {i : Nat} : Dropped options depth raw (i :: place) v ↔
    WellFormed options depth raw ∧ ∃ item, (raw.childItems options)[i]? = some item ∧
      ¬ item.IsPlaceholder ∧
        (place = [] ∧ v = item ∧ ¬ WellFormed options (depth + 1) item ∨
          Dropped options (depth + 1) item place v) := by
  constructor
  · intro h
    cases h with
    | item record at_i held malformed => exact ⟨record, _, at_i, held, .inl ⟨rfl, rfl, malformed⟩⟩
    | inside record at_i held rest => exact ⟨record, _, at_i, held, .inr rest⟩
  · rintro ⟨record, item, at_i, held, ⟨rfl, rfl, malformed⟩ | rest⟩
    · exact .item record at_i held malformed
    · exact .inside record at_i held rest

theorem cons_iff_of_item {i : Nat} {item : Json} (record : WellFormed options depth raw)
    (at_i : (raw.childItems options)[i]? = some item) (held : ¬ item.IsPlaceholder) :
    Dropped options depth raw (i :: place) v ↔
      place = [] ∧ v = item ∧ ¬ WellFormed options (depth + 1) item ∨
        Dropped options (depth + 1) item place v := by
  rw [cons_iff, at_i]
  simp [record, held]

theorem not_nil : ¬ Dropped options depth raw [] v := by
  intro h
  cases h

end Dropped

/-- **Whatever is malformed is dropped, or lies inside of what is dropped**: the first malformed
value on the way to it. -/
theorem exists_dropped_at_or_above {options : Options} {depth : Nat} {raw v : Json} {place : Place}
    (hraw : WellFormed options depth raw) (hv : raw.valueAt? options place = some v)
    (hmalformed : ¬ WellFormed options (depth + place.length) v) :
    ∃ top u, top <+: place ∧ Dropped options depth raw top u := by
  induction place generalizing depth raw with
  | nil =>
    cases hv
    exact absurd hraw hmalformed
  | cons i place ih =>
    obtain ⟨item, at_i, held, hv⟩ := Json.valueAt?_cons_iff.mp hv
    by_cases hitem : WellFormed options (depth + 1) item
    · rw [List.length_cons, Nat.add_comm _ 1, ← Nat.add_assoc] at hmalformed
      obtain ⟨top, u, htop, hdropped⟩ := ih hitem hv hmalformed
      exact ⟨i :: top, u, by simpa using htop, .inside hraw at_i held hdropped⟩
    · exact ⟨[i], item, by simp, .item hraw at_i held hitem⟩

end AstDump
