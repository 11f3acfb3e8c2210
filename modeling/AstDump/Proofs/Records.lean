import AstDump.Decode.Record

/-!
# What makes a record

A value is a node record at a depth when it lies no deeper than the limit and is an object with an
id, a kind, and a children field that is a list if it is there at all. Here this is said about the
value alone, apart from the order in which the decoder finds out.

* `WellFormed`                 : the value is a node record;
* `Fault`                      : the first thing that is wrong with a value, with its error;
* `Record.openAt`              : the checks of the decoder on one value;
* `Record.openAt_eq_error_iff` : they fail with exactly the fault of the value;
* `Record.openAt_eq_ok_iff`    : and else give its id, kind and items.
-/

namespace AstDump

/-- The text of an id: a string, or a number as it is printed. -/
def Json.idText? : Json → Option String
  | .str s => some s
  | v => v.numberText?

/-- The tag of a kind: a string that is not empty. -/
def Json.kindTag? : Json → Option String
  | .str s => if s = "" then none else some s
  | _ => none

/-- The items of a list. -/
def Json.items? : Json → Option (List Json)
  | .arr items => some items
  | _ => none

/-- An id is no list. -/
theorem Json.items?_of_idText? {v : Json} {s : String} (h : v.idText? = some s) :
    v.items? = none := by
  cases v with
  | arr items => cases h
  | _ => rfl

theorem Json.eq_str_of_kindTag? {v : Json} {tag : String} (h : v.kindTag? = some tag) :
    v = .str tag ∧ tag ≠ "" := by
  unfold kindTag? at h
  split at h
  · split at h
    · cases h
    · next hs =>
      cases h
      exact ⟨rfl, hs⟩
  · cases h

namespace Members

/-- The id of a record. -/
def idText? (members : Members) : Option String := (members.get? "id").bind Json.idText?

/-- The kind of a record. -/
def kindTag? (members : Members) : Option String := (members.get? "kind").bind Json.kindTag?

/-- The first of the children fields that is there. -/
def childrenField? (options : Options) (members : Members) : Option String :=
  options.childrenFields.find? fun field => (members.get? field).isSome

/-- The items of the children field. Without the field there are none; a field that is no list has
no items at all. -/
def items? (options : Options) (members : Members) : Option (List Json) :=
  match members.childrenField? options with
  | none => some []
  | some field => (members.get? field).bind Json.items?

end Members

/-- The value is a node record at a depth. -/
def WellFormed (options : Options) (depth : Nat) (v : Json) : Prop :=
  depth ≤ options.maxDepth ∧ ∃ members : Members, v = .obj members ∧ members.idText?.isSome ∧
    members.kindTag?.isSome ∧ (members.items? options).isSome

/-- What is wrong with a value at a path and a depth, and the error that says so. Of several things
the first counts, in the order of the constructors. -/
inductive Fault (options : Options) (path : Path) (depth : Nat) : Json → DecodeError → Prop
  | tooDeep {v : Json} (deep : options.maxDepth < depth) :
      Fault options path depth v (.tooDeep path options.maxDepth)
  | notARecord {v : Json} (shallow : depth ≤ options.maxDepth)
      (other : ∀ members, v ≠ .obj members) :
      Fault options path depth v (.notARecord path (.ofJson v))
  | missingId {members : Members} (shallow : depth ≤ options.maxDepth)
      (id : members.get? "id" = none) :
      Fault options path depth (.obj members) (.missingField path .id)
  | invalidId {members : Members} {v : Json} (shallow : depth ≤ options.maxDepth)
      (id : members.get? "id" = some v) (noText : v.idText? = none) :
      Fault options path depth (.obj members) (.invalidField path .id)
  | missingKind {members : Members} {rawId : String} (shallow : depth ≤ options.maxDepth)
      (id : members.idText? = some rawId) (kind : members.get? "kind" = none) :
      Fault options path depth (.obj members) (.missingField path .kind)
  | invalidKind {members : Members} {rawId : String} {v : Json}
      (shallow : depth ≤ options.maxDepth) (id : members.idText? = some rawId)
      (kind : members.get? "kind" = some v) (noTag : v.kindTag? = none) :
      Fault options path depth (.obj members) (.invalidField path .kind)
  | malformedChildren {members : Members} {rawId tag : String} (shallow : depth ≤ options.maxDepth)
      (id : members.idText? = some rawId) (kind : members.kindTag? = some tag)
      (noItems : members.items? options = none) :
      Fault options path depth (.obj members)
        (.malformedChildren (path ++ [.node (.ofTag tag) rawId]) rawId (.ofTag tag))

namespace Record

/-- The record that a value is at a depth, with its items. -/
def openAt (options : Options) (path : Path) (depth : Nat) (raw : Json) :
    Except DecodeError (Record × List Json) :=
  match read options path depth raw with
  | .error e => .error e
  | .ok r =>
    match r.items? options with
    | none => .error (.malformedChildren (path ++ [.node r.kind r.rawId]) r.rawId r.kind)
    | some items => .ok (r, items)

/-- The checks succeed when the value is read and its children are a list. -/
theorem openAt_ok_cases {options : Options} {path : Path} {depth : Nat} {raw : Json} {r : Record}
    {items : List Json} (h : openAt options path depth raw = .ok (r, items)) :
    read options path depth raw = .ok r ∧ r.items? options = some items := by
  unfold openAt at h
  cases hread : read options path depth raw with
  | error e => rw [hread] at h; cases h
  | ok r' =>
    rw [hread] at h
    simp only at h
    cases hitems : r'.items? options with
    | none => rw [hitems] at h; cases h
    | some items' =>
      rw [hitems] at h
      cases h
      exact ⟨rfl, hitems⟩

/-- They fail when the value is not read, or its children are no list. -/
theorem openAt_error_cases {options : Options} {path : Path} {depth : Nat} {raw : Json}
    {e : DecodeError} (h : openAt options path depth raw = .error e) :
    read options path depth raw = .error e ∨ ∃ r, read options path depth raw = .ok r ∧
      r.items? options = none ∧
      e = .malformedChildren (path ++ [.node r.kind r.rawId]) r.rawId r.kind := by
  unfold openAt at h
  cases hread : read options path depth raw with
  | error e' =>
    rw [hread] at h
    cases h
    exact .inl rfl
  | ok r =>
    rw [hread] at h
    simp only at h
    cases hitems : r.items? options with
    | none =>
      rw [hitems] at h
      cases h
      exact .inr ⟨r, rfl, hitems, rfl⟩
    | some items => rw [hitems] at h; cases h

theorem readId_eq (path : Path) (members : Members) :
    readId path members = match members.get? "id" with
      | none => .error (.missingField path .id)
      | some v => match v.idText? with
        | none => .error (.invalidField path .id)
        | some s => .ok s := by
  have hkey : RequiredField.id.key = "id" := rfl
  unfold readId
  rw [hkey]
  cases members.get? "id" with
  | none => rfl
  | some v => cases v <;> rfl

theorem readKind_eq (path : Path) (members : Members) :
    readKind path members = match members.get? "kind" with
      | none => .error (.missingField path .kind)
      | some v => match v.kindTag? with
        | none => .error (.invalidField path .kind)
        | some tag => .ok (.ofTag tag) := by
  have hkey : RequiredField.kind.key = "kind" := rfl
  unfold readKind
  rw [hkey]
  cases members.get? "kind" with
  | none => rfl
  | some v =>
    cases v with
    | str s => by_cases hs : s = "" <;> simp [Json.kindTag?, hs]
    | _ => rfl

/-- The children entry is the children field with its value. -/
theorem childrenEntry?_eq (options : Options) (r : Record) :
    r.childrenEntry? options = (r.members.childrenField? options).bind fun field =>
      (r.members.get? field).map (Prod.mk field) := by
  unfold childrenEntry? Members.childrenField?
  induction options.childrenFields with
  | nil => rfl
  | cons field fields ih =>
    cases hv : r.members.get? field with
    | none => simpa [hv] using ih
    | some v => simp [hv]

theorem get?_childrenField {options : Options} {members : Members} {field : String}
    (h : members.childrenField? options = some field) : ∃ v, members.get? field = some v := by
  have hsome := List.find?_some h
  exact Option.isSome_iff_exists.mp hsome

/-- The children field of a record with items holds the list of them. -/
theorem get?_of_items? {options : Options} {members : Members} {field : String} {items : List Json}
    (hfield : members.childrenField? options = some field)
    (h : members.items? options = some items) : members.get? field = some (.arr items) := by
  rw [Members.items?, hfield] at h
  obtain ⟨v, hv, hitems⟩ := Option.bind_eq_some_iff.mp h
  cases v with
  | arr found =>
    cases hitems
    exact hv
  | _ => cases hitems

theorem childrenEntry?_fst (options : Options) (r : Record) :
    (r.childrenEntry? options).map Prod.fst = r.members.childrenField? options := by
  rw [childrenEntry?_eq]
  cases hf : r.members.childrenField? options with
  | none => rfl
  | some field =>
    obtain ⟨v, hv⟩ := get?_childrenField hf
    simp [hv]

theorem items?_eq (options : Options) (r : Record) :
    r.items? options = r.members.items? options := by
  unfold items? Members.items?
  rw [childrenEntry?_eq]
  cases hf : r.members.childrenField? options with
  | none => rfl
  | some field =>
    obtain ⟨v, hv⟩ := get?_childrenField hf
    simp only [Option.bind_some, hv, Option.map_some]
    cases v <;> rfl

theorem childrenField_eq (options : Options) (r : Record) :
    r.childrenField options = (r.members.childrenField? options).getD "" := by
  rw [childrenField, childrenEntry?_fst]

theorem attrs_eq (options : Options) (r : Record) :
    r.attrs options = r.members.filter fun m =>
      m.1 ≠ "id" ∧ m.1 ≠ "kind" ∧ some m.1 ≠ r.members.childrenField? options := by
  unfold attrs
  rw [childrenEntry?_fst]
  rfl

theorem openAt_of_fault {options : Options} {path : Path} {depth : Nat} {raw : Json}
    {e : DecodeError} (h : Fault options path depth raw e) :
    openAt options path depth raw = .error e := by
  unfold openAt
  cases h with
  | tooDeep deep => simp [read, deep]
  | notARecord shallow other =>
    have hread : read options path depth raw = .error (.notARecord path (.ofJson raw)) := by
      unfold read
      rw [if_neg (by omega)]
      cases raw with
      | obj members => exact absurd rfl (other members)
      | _ => rfl
    rw [hread]
  | missingId shallow id =>
    simp [read, readId_eq, id, Nat.not_lt.mpr shallow, bind, Except.bind]
  | invalidId shallow id noText =>
    simp [read, readId_eq, id, noText, Nat.not_lt.mpr shallow, bind, Except.bind]
  | missingKind shallow id kind =>
    obtain ⟨v, hv, hid⟩ := Option.bind_eq_some_iff.mp id
    simp [read, readId_eq, readKind_eq, hv, hid, kind, Nat.not_lt.mpr shallow, bind, Except.bind]
  | invalidKind shallow id kind noTag =>
    obtain ⟨v, hv, hid⟩ := Option.bind_eq_some_iff.mp id
    simp [read, readId_eq, readKind_eq, hv, hid, kind, noTag, Nat.not_lt.mpr shallow, bind,
      Except.bind]
  | malformedChildren shallow id kind noItems =>
    obtain ⟨v, hv, hid⟩ := Option.bind_eq_some_iff.mp id
    obtain ⟨w, hw, htag⟩ := Option.bind_eq_some_iff.mp kind
    simp [read, readId_eq, readKind_eq, hv, hid, hw, htag, Nat.not_lt.mpr shallow, bind,
      Except.bind, pure, Except.pure, items?_eq, noItems]

theorem openAt_of_members {options : Options} {path : Path} {depth : Nat} {members : Members}
    {rawId tag : String} {items : List Json} (shallow : depth ≤ options.maxDepth)
    (id : members.idText? = some rawId) (kind : members.kindTag? = some tag)
    (hitems : members.items? options = some items) :
    openAt options path depth (.obj members) = .ok (⟨members, rawId, .ofTag tag⟩, items) := by
  obtain ⟨v, hv, hid⟩ := Option.bind_eq_some_iff.mp id
  obtain ⟨w, hw, htag⟩ := Option.bind_eq_some_iff.mp kind
  unfold openAt
  simp [read, readId_eq, readKind_eq, hv, hid, hw, htag, Nat.not_lt.mpr shallow, bind,
    Except.bind, pure, Except.pure, items?_eq, hitems]

end Record

/-- A value is a record or has a fault. -/
theorem wellFormed_or_fault (options : Options) (path : Path) (depth : Nat) (v : Json) :
    WellFormed options depth v ∨ ∃ e, Fault options path depth v e := by
  by_cases deep : options.maxDepth < depth
  · exact .inr ⟨_, .tooDeep deep⟩
  have shallow : depth ≤ options.maxDepth := Nat.le_of_not_lt deep
  by_cases hobj : ∃ members : Members, v = .obj members
  case neg => exact .inr ⟨_, .notARecord shallow fun members h => hobj ⟨members, h⟩⟩
  obtain ⟨members, rfl⟩ := hobj
  -- the checks in the order of the decoder: each either fails or leaves the next
  cases hid : members.get? "id" with
  | none => exact .inr ⟨_, .missingId shallow hid⟩
  | some idValue =>
  cases hrawId : idValue.idText? with
  | none => exact .inr ⟨_, .invalidId shallow hid hrawId⟩
  | some rawId =>
  have id : members.idText? = some rawId := by rw [Members.idText?, hid, Option.bind_some, hrawId]
  cases hkind : members.get? "kind" with
  | none => exact .inr ⟨_, .missingKind shallow id hkind⟩
  | some kindValue =>
  cases htag : kindValue.kindTag? with
  | none => exact .inr ⟨_, .invalidKind shallow id hkind htag⟩
  | some tag =>
  have kind : members.kindTag? = some tag := by
    rw [Members.kindTag?, hkind, Option.bind_some, htag]
  cases hitems : members.items? options with
  | none => exact .inr ⟨_, .malformedChildren shallow id kind hitems⟩
  | some items =>
    exact .inl ⟨shallow, members, rfl, by rw [id]; rfl, by rw [kind]; rfl, by rw [hitems]; rfl⟩

/-- The checks succeed on a well-formed value. -/
theorem WellFormed.openAt {options : Options} {depth : Nat} {v : Json}
    (h : WellFormed options depth v) (path : Path) :
    ∃ members rawId tag items, v = .obj members ∧ depth ≤ options.maxDepth ∧
      Members.idText? members = some rawId ∧ Members.kindTag? members = some tag ∧
      Members.items? options members = some items ∧
      Record.openAt options path depth v = .ok (⟨members, rawId, .ofTag tag⟩, items) := by
  obtain ⟨shallow, members, rfl, hid, hkind, hitems⟩ := h
  obtain ⟨rawId, hid⟩ := Option.isSome_iff_exists.mp hid
  obtain ⟨tag, hkind⟩ := Option.isSome_iff_exists.mp hkind
  obtain ⟨items, hitems⟩ := Option.isSome_iff_exists.mp hitems
  exact ⟨members, rawId, tag, items, rfl, shallow, hid, hkind, hitems,
    Record.openAt_of_members shallow hid hkind hitems⟩

namespace Record

variable {options : Options} {path : Path} {depth : Nat} {raw : Json}

/-- **The checks succeed on exactly the well-formed values**, with their id, kind and items. -/
theorem openAt_eq_ok_iff {r : Record} {items : List Json} :
    openAt options path depth raw = .ok (r, items) ↔
      depth ≤ options.maxDepth ∧ raw = .obj r.members ∧ r.members.idText? = some r.rawId ∧
        (∃ tag, r.members.kindTag? = some tag ∧ r.kind = .ofTag tag) ∧
        r.members.items? options = some items := by
  constructor
  · intro h
    rcases wellFormed_or_fault options path depth raw with hwf | ⟨e, he⟩
    · obtain ⟨members, rawId, tag, found, rfl, shallow, hid, hkind, hitems, hopen⟩ :=
        hwf.openAt path
      rw [hopen] at h
      cases h
      exact ⟨shallow, rfl, hid, ⟨tag, hkind, rfl⟩, hitems⟩
    · rw [openAt_of_fault he] at h
      cases h
  · rintro ⟨shallow, rfl, hid, ⟨tag, hkind, htag⟩, hitems⟩
    obtain ⟨members, rawId, kind⟩ := r
    cases htag
    exact openAt_of_members shallow hid hkind hitems

/-- **The checks fail with exactly the fault of a value.** -/
theorem openAt_eq_error_iff {e : DecodeError} :
    openAt options path depth raw = .error e ↔ Fault options path depth raw e := by
  refine ⟨fun h => ?_, openAt_of_fault⟩
  rcases wellFormed_or_fault options path depth raw with hwf | ⟨e', he'⟩
  · obtain ⟨_, _, _, _, _, _, _, _, _, hopen⟩ := hwf.openAt path
    rw [hopen] at h
    cases h
  · rw [openAt_of_fault he'] at h
    cases h
    exact he'

theorem wellFormed_of_openAt {r : Record} {items : List Json}
    (h : openAt options path depth raw = .ok (r, items)) : WellFormed options depth raw := by
  obtain ⟨shallow, rfl, hid, ⟨tag, hkind, -⟩, hitems⟩ := openAt_eq_ok_iff.mp h
  exact ⟨shallow, r.members, rfl, by rw [hid]; rfl, by rw [hkind]; rfl, by rw [hitems]; rfl⟩

end Record

/-- A value that has a fault is no record. -/
theorem Fault.not_wellFormed {options : Options} {path : Path} {depth : Nat} {v : Json}
    {e : DecodeError} (h : Fault options path depth v e) : ¬ WellFormed options depth v := by
  intro hwf
  obtain ⟨_, _, _, _, _, _, _, _, _, hopen⟩ := hwf.openAt path
  rw [Record.openAt_of_fault h] at hopen
  cases hopen

end AstDump
