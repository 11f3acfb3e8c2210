import AstDump.Proofs.Units
import AstDump.Proofs.Reports

/-!
# Errors of decoding

Decoding with and without recovery go together up to the first error. Whatever error is returned or
kept, its path spells the way to the value that it is about, from the root of the dump down.

* `decode_modes`           : the two modes of decoding compared;
* `Trail`                  : the way down to a value, with the segments that spell it;
* `Dropped.trail`          : the path to a dropped value spells the way to it;
* `Pinpoints`              : an error is about the value at a place, and its path leads there;
* `decode_errors_pinpoint` : so it is for every error of decoding.
-/

namespace AstDump

/-! ## The two modes -/

/-- **Strict decoding is decoding with recovery as far as the first error.** It gives a unit exactly
if recovery gives that unit and keeps no errors, and fails exactly with the error that recovery
fails with or keeps first. -/
theorem decode_modes (options : Options) (raw : Json) :
    (∀ u, decode { options with recoverMalformed := false } raw = .ok u ↔
      decode { options with recoverMalformed := true } raw = .ok u ∧ u.diagnostics = #[]) ∧
    (∀ e, decode { options with recoverMalformed := false } raw = .error e ↔
      decode { options with recoverMalformed := true } raw = .error e ∨
        ∃ u, decode { options with recoverMalformed := true } raw = .ok u ∧
          u.diagnostics[0]? = some e) := by
  have hstop : RecordTree.ofJson { options with recoverMalformed := false } raw =
      RecordTree.stopAtFirst (RecordTree.ofJson { options with recoverMalformed := true } raw) :=
    RecordTree.ofJson_strict rfl
  refine ⟨fun u => ?_, fun e => ?_⟩
  · rw [decode_eq_ok_iff, decode_eq_ok_iff, hstop]
    constructor
    · rintro ⟨tree, errors, hfound, rfl⟩
      obtain ⟨hok, rfl⟩ := RecordTree.stopAtFirst_eq_ok_iff.mp hfound
      exact ⟨⟨tree, [], hok, rfl⟩, rfl⟩
    · rintro ⟨⟨tree, errors, hok, rfl⟩, hnone⟩
      have herrors : errors = [] := congrArg Array.toList hnone
      exact ⟨tree, errors, RecordTree.stopAtFirst_eq_ok_iff.mpr ⟨hok, herrors⟩, rfl⟩
  · rw [decode_eq_error_iff, decode_eq_error_iff, hstop, RecordTree.stopAtFirst_eq_error_iff]
    refine or_congr Iff.rfl ⟨?_, ?_⟩
    · rintro ⟨tree, errors, hok⟩
      exact ⟨_, decode_eq_ok_iff.mpr ⟨tree, _, hok, rfl⟩, rfl⟩
    · rintro ⟨u, hu, hfirst⟩
      obtain ⟨tree, errors, hok, rfl⟩ := decode_eq_ok_iff.mp hu
      cases errors with
      | nil => cases hfirst
      | cons first rest =>
        obtain rfl : first = e := Option.some.inj hfirst
        exact ⟨tree, rest, hok⟩

/-! ## The way to a value -/

/-- The segment of a record: its kind and its id. -/
def Json.segment? : Json → Option String
  | .obj members => do
    let tag ← Members.kindTag? members
    let rawId ← Members.idText? members
    return tag ++ "#" ++ rawId
  | _ => none

/-- The way from a value, at a depth, to the value at a place below it. It passes well-formed
records only, and goes on at the item of the children field that stands at the next position of the
place. The segments that spell it are those of the records, each followed by field and position of
the item. -/
inductive Trail (options : Options) : (depth : Nat) → Json → Place → List String → Json → Prop
  | here {depth : Nat} {v : Json} : Trail options depth v [] [] v
  | item {depth i : Nat} {members : Members} {segment field : String} {items : List Json}
      {item v : Json} {place : Place} {segments : List String}
      (record : WellFormed options depth (.obj members))
      (name : Json.segment? (.obj members) = some segment)
      (chosen : members.childrenField? options = some field)
      (list : members.get? field = some (.arr items))
      (at_i : items[i]? = some item) (held : ¬ item.IsPlaceholder)
      (rest : Trail options (depth + 1) item place segments v) :
      Trail options depth (.obj members) (i :: place)
        (segment :: (field ++ "[" ++ toString i ++ "]") :: segments) v

/-- The text of a path: its segments with slashes between them. -/
def spell (segments : List String) : String :=
  if segments = [] then "<root>" else "/".intercalate segments

theorem Path.text_eq (path : Path) : Path.text path = spell (path.map PathStep.text) := by
  unfold Path.text spell
  cases path <;> rfl

/-- One record more at the beginning of the way. -/
theorem Trail.cons {options : Options} {depth i : Nat} {raw item v : Json} {place : Place}
    {segments : List String} (record : WellFormed options depth raw)
    (at_i : (raw.childItems options)[i]? = some item) (held : ¬ item.IsPlaceholder)
    (rest : Trail options (depth + 1) item place segments v) :
    Trail options depth raw (i :: place)
      ((raw.stepsTo options i).map PathStep.text ++ segments) v := by
  obtain ⟨members, rawId, tag, items, rfl, -, hid, hkind, hitems, -⟩ := record.openAt []
  rw [Json.childItems, hitems] at at_i
  cases hfield : Members.childrenField? options members with
  | none =>
    rw [Members.items?, hfield] at hitems
    cases hitems
    cases at_i
  | some field =>
    have hlist := Record.get?_of_items? hfield hitems
    have hname : Json.segment? (.obj members) = some (tag ++ "#" ++ rawId) := by
      simp [Json.segment?, hkind, hid]
    have hsteps : ((Json.obj members).stepsTo options i).map PathStep.text =
        [tag ++ "#" ++ rawId, field ++ "[" ++ toString i ++ "]"] := by
      simp only [Json.stepsTo, hkind, hid, hfield, Option.getD_some, List.map_cons, List.map_nil,
        PathStep.text, Kind.tag_ofTag]
      rfl
    rw [hsteps]
    exact .item record hname hfield hlist at_i held rest

/-- **The path to a dropped value spells the way to it.** -/
theorem Dropped.trail {options : Options} {depth : Nat} {raw v : Json} {place : Place}
    (h : Dropped options depth raw place v) :
    Trail options depth raw place ((raw.pathTo options place).map PathStep.text) v := by
  induction h with
  | item record at_i held _ =>
    rw [Json.pathTo_cons at_i, List.map_append]
    exact .cons record at_i held .here
  | inside record at_i held _ ih =>
    rw [Json.pathTo_cons at_i, List.map_append]
    exact .cons record at_i held ih

/-! ## Where an error lies -/

/-- What an error adds to the way to its value: when the children are no list, the record that they
belong to. -/
def DecodeError.ownSegments (v : Json) : DecodeError → List String
  | malformedChildren _ _ _ => v.segment?.toList
  | _ => []

/-- The error says what is wrong with the value at a place, and its path spells the way there. -/
structure Pinpoints (options : Options) (raw : Json) (place : Place) (v : Json) (e : DecodeError) :
    Prop where
  fault : ∃ path, Fault options path place.length v e
  path : ∃ segments, Trail options 0 raw place segments v ∧
    e.path?.map Path.text = some (spell (segments ++ e.ownSegments v))

/-- The path of an error is the path of its value, and for children the step of the value. -/
theorem Fault.text_path {options : Options} {path : Path} {depth : Nat} {v : Json} {e : DecodeError}
    (h : Fault options path depth v e) :
    e.path?.map Path.text = some (spell (path.map PathStep.text ++ e.ownSegments v)) := by
  cases h with
  | malformedChildren _ hid hkind _ =>
    simp [DecodeError.path?, DecodeError.ownSegments, Json.segment?, hid, hkind, Path.text_eq,
      PathStep.text]
  | _ => simp [DecodeError.path?, DecodeError.ownSegments, Path.text_eq]

namespace Pinpoints

variable {options : Options} {raw v : Json} {place : Place} {e : DecodeError}

theorem root (h : Fault options [] 0 raw e) : Pinpoints options raw [] raw e :=
  ⟨⟨[], h⟩, [], .here, h.text_path⟩

theorem dropped (hdropped : Dropped options 0 raw place v)
    (h : Fault options (raw.pathTo options place) place.length v e) :
    Pinpoints options raw place v e :=
  ⟨⟨_, h⟩, _, hdropped.trail, h.text_path⟩

end Pinpoints

/-- The errors that are kept pinpoint the values that are dropped, one by one. -/
theorem Reports.pinpoint {options : Options} {raw : Json} {errors : List DecodeError}
    {values : List (Place × Json)} (h : Reports options [] 0 raw 0 errors values) :
    List.Forall₂ (fun e x => Pinpoints options raw x.1 x.2 e) errors values := by
  obtain ⟨hlength, hfaults⟩ := List.forall₂_iff_zip.mp h.faults
  refine List.forall₂_iff_zip.mpr ⟨hlength, fun {e x} hmem => ?_⟩
  have hfault := hfaults hmem
  rw [List.nil_append, Nat.zero_add] at hfault
  exact .dropped ((h.mem_iff_dropped x.1 x.2).mp (List.of_mem_zip hmem).2) hfault

/-- A dump has a record tree, with the errors of what is dropped, or an error that pinpoints a value
of it. -/
theorem RecordTree.pinpoints_or_reports (options : Options) (raw : Json) :
    (∃ e place v, ofJson options raw = .error e ∧ Pinpoints options raw place v e) ∨
      ∃ tree errors values, ofJson options raw = .ok (tree, errors) ∧
        Reports options [] 0 raw 0 errors values := by
  rcases ofJson_recovering options raw with
    ⟨e, herror, hfault⟩ | ⟨tree, errors, values, hok, -, hreports⟩
  · refine .inl ⟨e, [], raw, ?_, .root hfault⟩
    cases hmode : options.recoverMalformed with
    | true => rwa [Options.recovering_eq hmode] at herror
    | false =>
      rw [ofJson_strict hmode, herror]
      rfl
  · cases hmode : options.recoverMalformed with
    | true =>
      rw [Options.recovering_eq hmode] at hok
      exact .inr ⟨tree, errors, values, hok, hreports⟩
    | false =>
      -- the first error that recovery would keep is fatal
      have hstop := @ofJson_strict options raw hmode
      rw [hok] at hstop
      cases errors with
      | nil => exact .inr ⟨tree, [], values, hstop, hreports⟩
      | cons e rest =>
        cases hreports.pinpoint with
        | cons hfirst _ => exact .inl ⟨e, _, _, hstop, hfirst⟩

/-- **Every error of decoding pinpoints the value that it is about**, the one that is returned and
those that are kept. Those that are kept are about different values, in document order. -/
theorem decode_errors_pinpoint (options : Options) (raw : Json) :
    (∀ e, decode options raw = .error e → ∃ place v, Pinpoints options raw place v e) ∧
    ∀ u, decode options raw = .ok u → ∃ values : List (Place × Json),
      values.Pairwise (fun a b => Before a.1 b.1) ∧
      List.Forall₂ (fun e x => Pinpoints options raw x.1 x.2 e) u.diagnostics.toList values := by
  rcases RecordTree.pinpoints_or_reports options raw with
    ⟨e, place, v, herror, hpoint⟩ | ⟨tree, errors, values, hok, hreports⟩
  · have hdecode := decode_eq_error_iff.mpr herror
    refine ⟨fun e' he' => ?_, fun u hu => ?_⟩
    · rw [hdecode] at he'
      cases he'
      exact ⟨place, v, hpoint⟩
    · rw [hdecode] at hu
      cases hu
  · have hdecode := decode_eq_ok_iff.mpr ⟨tree, errors, hok, rfl⟩
    refine ⟨fun e he => ?_, fun u hu => ?_⟩
    · rw [hdecode] at he
      cases he
    · rw [hdecode] at hu
      cases hu
      exact ⟨values, hreports.sorted, hreports.pinpoint⟩

/-- A placeholder counts for the positions, and so does an item that is dropped. -/
theorem decode_errors_pinpoint_two_kept :
    let options : Options := { Options.default with recoverMalformed := true }
    let raw : Json := .branch "0x1" "CompoundStmt" [.obj [], .null, .obj [("children", .arr [
      .obj [("id", .str "0x3"), ("inner", .null), ("kind", .str "IfStmt")]]), ("id", .int 2),
      ("kind", .str "DoStmt")]]
    ∃ u values, decode options raw = .ok u ∧
      List.Forall₂ (fun e (x : Place × Json) => Pinpoints options raw x.1 x.2 e)
        u.diagnostics.toList values ∧
      u.diagnostics.toList.map (fun e => e.path?.map Path.text) =
        [some "CompoundStmt#0x1/inner[1]",
          some "CompoundStmt#0x1/inner[2]/DoStmt#2/children[0]/IfStmt#0x3"] := by
  intro options raw
  have hpaths : (decode options raw).toOption.map
      (fun u => u.diagnostics.toList.map fun e => e.path?.map Path.text) =
        some [some "CompoundStmt#0x1/inner[1]",
          some "CompoundStmt#0x1/inner[2]/DoStmt#2/children[0]/IfStmt#0x3"] := by decide +kernel
  obtain ⟨u, hu, hpaths⟩ := exists_decode_of_map hpaths
  obtain ⟨values, -, hvalues⟩ := (decode_errors_pinpoint options raw).2 u hu
  exact ⟨u, values, hu, hvalues, hpaths⟩

end AstDump
