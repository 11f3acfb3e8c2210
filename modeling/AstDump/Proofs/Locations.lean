import AstDump.Location

/-!
# Places are read back

Of a place at least one thing is known, and its numbers fit the words they are kept in. These are
all the places there are: each of them is read back from its own record, also where that record is
one of the two places of a macro.

* `Json.optional_ofOption`     : a field that may be absent is read back;
* `Location.InRange`           : the numbers of a place fit their words;
* `Location.ofRecord?_toJson`  : the record of a place is read back;
* `Location.inRange_of_ofRecord?` : what is read from any record is in range;
* `location_normal_form`       : places as objects give them.
-/

namespace AstDump

namespace Json

variable {α : Type} {read : Json → Option α}

theorem optional_of_ne_null {v : Json} (h : v ≠ null) :
    optional read (some v) = (read v).map some := by
  cases v with
  | null => exact absurd rfl h
  | _ => rfl

/-- **A field that may be absent is read back**, if its value is and null is no value. -/
theorem optional_ofOption {write : α → Json} {a : Option α} (hnull : read null = none)
    (h : ∀ x ∈ a, read (write x) = some x) : optional read (some (ofOption write a)) = some a := by
  cases a with
  | none => rfl
  | some x =>
    have hx := h x rfl
    have hne : write x ≠ null := by
      intro hv
      rw [hv, hnull] at hx
      cases hx
    rw [ofOption, optional_of_ne_null hne, hx, Option.map_some]

/-- What a field that may be absent holds was read from a value. -/
theorem exists_of_optional {field : Option Json} {a : Option α} (h : optional read field = some a) :
    ∀ x ∈ a, ∃ v, read v = some x := by
  intro x hx
  unfold optional at h
  split at h
  · cases h
    cases hx
  · cases h
    cases hx
  · next v _ =>
    obtain ⟨y, hy, rfl⟩ := Option.map_eq_some_iff.mp h
    cases hx
    exact ⟨v, hy⟩

end Json

namespace Location

/-- The numbers of the place fit the words they are kept in. -/
structure InRange (l : Location) : Prop where
  offset : ∀ n ∈ l.offset, n < Json.words64
  line : ∀ n ∈ l.line, n < Json.words32
  col : ∀ n ∈ l.col, n < Json.words32
  tokLen : ∀ n ∈ l.tokLen, n < Json.words32

/-- **The record of a place is read back.** -/
theorem ofRecord?_toJson {l : Location} (h : l.InRange) : ofRecord? l.toJson = some l := by
  have hnat : ∀ {bound : Nat} {a : Option Nat}, (∀ n ∈ a, n < bound) →
      Json.optional (Json.natBelow? bound) (some (Json.ofOption Json.nat a)) = some a :=
    fun hbound => Json.optional_ofOption rfl fun n hn => Json.natBelow?_nat (hbound n hn)
  have hfile : Json.optional Json.text? (some (Json.ofOption Json.str l.file)) = some l.file :=
    Json.optional_ofOption rfl fun _ _ => rfl
  have hfields : l.toJson.fields? fieldNames = some [
      some (Json.ofOption Json.nat l.offset), some (Json.ofOption Json.str l.file),
      some (Json.ofOption Json.nat l.line), some (Json.ofOption Json.nat l.col),
      some (Json.ofOption Json.nat l.tokLen)] := rfl
  simp [ofRecord?, hfields, hnat h.offset, hfile, hnat h.line, hnat h.col, hnat h.tokLen]

/-- **What is read from a record is in range**, whatever the record. -/
theorem inRange_of_ofRecord? {record : Json} {l : Location} (h : ofRecord? record = some l) :
    l.InRange := by
  have hlt : ∀ {bound : Nat} {field : Option Json} {a : Option Nat},
      Json.optional (Json.natBelow? bound) field = some a → ∀ n ∈ a, n < bound := by
    intro bound field a ha n hn
    obtain ⟨v, hv⟩ := Json.exists_of_optional ha n hn
    exact Json.lt_of_natBelow? hv
  unfold ofRecord? at h
  obtain ⟨fields, -, h⟩ := Option.bind_eq_some_iff.mp h
  split at h
  · obtain ⟨offset, hoffset, h⟩ := Option.bind_eq_some_iff.mp h
    obtain ⟨file, -, h⟩ := Option.bind_eq_some_iff.mp h
    obtain ⟨line, hline, h⟩ := Option.bind_eq_some_iff.mp h
    obtain ⟨col, hcol, h⟩ := Option.bind_eq_some_iff.mp h
    obtain ⟨tokLen, htokLen, h⟩ := Option.bind_eq_some_iff.mp h
    cases h
    exact ⟨hlt hoffset, hlt hline, hlt hcol, hlt htokLen⟩
  · cases h

/-! ## Objects -/

theorem ofJson?_eq_some_iff {members : Members} {l : Location} :
    ofJson? (.obj members) = some l ↔ ofRecord? (target members) = some l ∧ ¬ l.IsEmpty := by
  rw [ofJson?, Option.filter_eq_some_iff, decide_eq_true_eq]

/-- An object gives the place whose record counts in it. -/
theorem ofJson?_of_target {members : Members} {l : Location} (h : l.InRange) (hne : ¬ l.IsEmpty)
    (htarget : target members = l.toJson) : ofJson? (.obj members) = some l := by
  rw [ofJson?_eq_some_iff, htarget]
  exact ⟨ofRecord?_toJson h, hne⟩

theorem inRange_of_ofJson? {raw : Json} {l : Location} (h : ofJson? raw = some l) :
    l.InRange ∧ ¬ l.IsEmpty := by
  cases raw with
  | obj members =>
    obtain ⟨hrecord, hne⟩ := ofJson?_eq_some_iff.mp h
    exact ⟨inRange_of_ofRecord? hrecord, hne⟩
  | _ => cases h

theorem ofJson?_toJson {l : Location} (h : l.InRange) (hne : ¬ l.IsEmpty) :
    ofJson? l.toJson = some l := ofJson?_of_target h hne rfl

end Location

/-- **Places have a normal form**, whatever the object they come from: at least one thing is known
of a place, and its own record gives it again. Every place in range of which something is known is
given by its record, alone, as the place where a macro is used beside any other members, and as the
place where a macro is written if it is not said where that is used. -/
theorem location_normal_form :
    (∀ (raw : Json) (l : Location), Location.ofJson? raw = some l →
      l.InRange ∧ ¬ l.IsEmpty ∧ Location.ofJson? l.toJson = some l) ∧
    ∀ l : Location, l.InRange → ¬ l.IsEmpty →
      Location.ofJson? l.toJson = some l ∧
      (∀ members : Members, members.get? "expansionLoc" = some l.toJson →
        Location.ofJson? (.obj members) = some l) ∧
      ∀ members : Members, members.get? "expansionLoc" = none →
        members.get? "spellingLoc" = some l.toJson →
        Location.ofJson? (.obj members) = some l := by
  refine ⟨fun raw l h => ?_, fun l hrange hne => ⟨Location.ofJson?_toJson hrange hne, ?_, ?_⟩⟩
  · obtain ⟨hrange, hne⟩ := Location.inRange_of_ofJson? h
    exact ⟨hrange, hne, Location.ofJson?_toJson hrange hne⟩
  · intro members hused
    refine Location.ofJson?_of_target hrange hne ?_
    rw [Location.target, hused, Option.some_or, Option.getD_some]
  · intro members hunused hwritten
    refine Location.ofJson?_of_target hrange hne ?_
    rw [Location.target, hunused, hwritten, Option.none_or, Option.getD_some]

/-- A place inside of a macro, the greatest offset among its numbers, beside a place that does not
count and would be refused. -/
theorem location_normal_form_macro :
    let l : Location := ⟨some 0xffffffffffffffff, some "a\"b.c", none, some 0xffffffff, none⟩
    let raw : Json := .obj [("expansionLoc", l.toJson), ("spellingLoc", .str "nowhere")]
    Location.ofJson? raw = some l ∧ ¬ l.IsEmpty ∧ Location.ofJson? l.toJson = some l := by
  intro l raw
  have hrange : l.InRange := by
    constructor <;> decide
  have hne : ¬ l.IsEmpty := by decide
  have hraw := (location_normal_form.2 l hrange hne).2.1
    [("expansionLoc", l.toJson), ("spellingLoc", .str "nowhere")] rfl
  exact ⟨hraw, hne, (location_normal_form.1 raw l hraw).2.2⟩

end AstDump
