import AstDump.Options.Reader
import AstDump.Proofs.Skipping
import AstDump.Proofs.TextDecoding
import AstDump.Source
import Mathlib.Data.List.Nodup

/-!
# Options that are left out

A text may give any of the four options, in any order and among keys that mean nothing. Those that
it gives count, and all others are as they are by default: an option is read by its own key alone,
and the values of other keys are passed over.

* `OptionKey.member`               : an option as a member of an object;
* `Options.overlay`                : some options laid over others;
* `Options.readOption_value`       : the value of an option is read back;
* `Options.readMember_writeMember` : a member is read by its key;
* `Options.foldlM_putMember`       : members that come one after another, no option twice;
* `configText_overlays`            : options from the text of an object.
-/

namespace AstDump

/-! ## Options and members -/

theorem Json.canonical_nat {n : Nat} (h : n < words64) : (nat n).Canonical := by
  unfold words64 at h
  simp only [nat, Canonical, minInt, maxInt]
  omega

namespace OptionKey

/-- The value of an option. -/
def value (o : Options) : OptionKey → Json
  | pointerWidth => .nat o.pointerWidth
  | maxDepth => .nat o.maxDepth
  | childrenFields => .arr (o.childrenFields.map .str)
  | recoverMalformed => .bool o.recoverMalformed

/-- An option as a member of an object. -/
def member (o : Options) (key : OptionKey) : String × Json := (key.name, key.value o)

theorem ofName?_name (key : OptionKey) : ofName? key.name = some key := by
  cases key <;> decide

theorem ofName?_eq_none {name : String} (h : ∀ key : OptionKey, name ≠ key.name) :
    ofName? name = none :=
  List.find?_eq_none.mpr fun key _ => by simpa using (h key).symm

theorem mem_all (key : OptionKey) : key ∈ all := by cases key <;> decide

end OptionKey

namespace Options

/-- The numbers of the options fit the words they are kept in. -/
structure InRange (o : Options) : Prop where
  pointerWidth : o.pointerWidth < Json.words32
  maxDepth : o.maxDepth < Json.words64

theorem InRange.canonical_value {o : Options} (h : o.InRange) (key : OptionKey) :
    (key.value o).Canonical := by
  cases key with
  | pointerWidth => exact Json.canonical_nat (Nat.lt_trans h.pointerWidth (by decide))
  | maxDepth => exact Json.canonical_nat h.maxDepth
  | childrenFields =>
    simp only [OptionKey.value, Json.Canonical, Json.canonicalItems_iff, List.forall_mem_map]
    exact fun _ _ => trivial
  | recoverMalformed => exact trivial

/-- The options `o` where they are chosen, and `base` elsewhere. -/
def overlay (o base : Options) (chosen : OptionKey → Bool) : Options where
  pointerWidth := if chosen .pointerWidth then o.pointerWidth else base.pointerWidth
  maxDepth := if chosen .maxDepth then o.maxDepth else base.maxDepth
  childrenFields := if chosen .childrenFields then o.childrenFields else base.childrenFields
  recoverMalformed := if chosen .recoverMalformed then o.recoverMalformed else base.recoverMalformed

/-- One option of `o` laid over `base`. -/
def put (o : Options) (key : OptionKey) (base : Options) : Options :=
  o.overlay base fun k => k = key

/-- Options that are laid over others one by one. -/
theorem foldl_put (o : Options) (keys : List OptionKey) (base : Options) :
    keys.foldl (fun base key => o.put key base) base = o.overlay base fun key => key ∈ keys := by
  induction keys generalizing base with
  | nil => simp [overlay]
  | cons key keys ih =>
    rw [List.foldl_cons, ih]
    cases key <;> simp [overlay, put]

end Options

/-! ## Reading one option -/

namespace Json

theorem writeFurther_map {α β : Type} (c : Char) (write : β → List Char → List Char) (f : α → β)
    (xs : List α) (rest : List Char) :
    writeFurther c write (xs.map f) rest = writeFurther c (fun x => write (f x)) xs rest := by
  induction xs with
  | nil => rfl
  | cons x xs ih => rw [List.map_cons, writeFurther, writeFurther, ih]

theorem writeAll_map {α β : Type} (c : Char) (write : β → List Char → List Char) (f : α → β)
    (xs : List α) (rest : List Char) :
    writeAll c write (xs.map f) rest = writeAll c (fun x => write (f x)) xs rest := by
  cases xs with
  | nil => rfl
  | cons x xs => rw [List.map_cons, writeAll, writeAll, writeFurther_map]

end Json

namespace Options

open Json (NumberEnd)

theorem readNat_nat {bound n : Nat} (hn : n < bound) (hbound : bound ≤ Json.words64)
    {rest : List Char} (hend : NumberEnd (charBytes rest)) :
    readNat bound (charBytes ((Json.nat n).writeOnto rest)) = .ok (n, charBytes rest) := by
  obtain ⟨b, bs, hbytes, hb⟩ := Json.charBytes_intChars_eq_cons n
  obtain ⟨hmin, hmax⟩ := Json.canonical_nat (Nat.lt_of_lt_of_le hn hbound)
  have hnumber := Json.readNumber_intChars hend hmin hmax
  have hvalue : Json.natBelow? bound (.int n) = some n := Json.natBelow?_nat hn
  rw [Json.nat, Json.writeOnto, charBytes_append]
  rw [hbytes, List.cons_append] at hnumber ⊢
  unfold readNat
  rw [Json.skipBlanks_cons (Json.numberStart_cases hb).1]
  dsimp only
  rw [if_pos hb, hnumber, ok_bind]
  dsimp only
  rw [hvalue]
  rfl

theorem readTexts_texts {bound : Nat} {names : List String} (hbound : names.length < bound)
    (rest : List Char) :
    readTexts bound (charBytes ((Json.arr (names.map .str)).writeOnto rest)) =
      .ok (names, charBytes rest) := by
  have htext : ∀ name ∈ names, ∀ (items : List String) rest, NumberEnd (charBytes rest) →
      Json.readItem readText items (charBytes ((Json.str name).writeOnto rest)) =
        .ok (name :: items, charBytes rest) := by
    intro name _ items rest _
    have hread : readText (charBytes ((Json.str name).writeOnto rest)) =
        .ok (name, charBytes rest) := Json.readString_escapeOnto name rest
    rw [Json.readItem_eq, hread]
    rfl
  have hitems := Json.closes_bracket.foldItems_writeAll_ok (Json.readItem readText)
    (fun items name => name :: items) rest names
    (fun name _ rest => ⟨Byte.quote, _, rfl, by decide, by decide⟩) htext [] hbound
  have hread : readTexts bound (charBytes ((Json.arr (names.map .str)).writeOnto rest)) =
      Json.readItems bound readText (charBytes
        (Json.writeAll ']' (fun name => (Json.str name).writeOnto) names rest)) := by
    rw [Json.writeOnto_arr, Json.writeAll_map]
    rfl
  rw [hread, Json.readItems, Json.foldSequence, hitems, ok_bind]
  simp

/-- **The value of an option is read back.** -/
theorem readOption_value {o : Options} (hrange : o.InRange) {bound : Nat}
    (key : OptionKey) (hsize : (key.value o).size < bound) (base : Options)
    {rest : List Char} (hend : NumberEnd (charBytes rest)) :
    readOption bound key base (charBytes ((key.value o).writeOnto rest)) =
      .ok (o.put key base, charBytes rest) := by
  cases key with
  | pointerWidth =>
    have hread := readNat_nat hrange.pointerWidth (by decide) hend
    simp [readOption, OptionKey.value, hread, put, overlay]
  | maxDepth =>
    have hread := readNat_nat hrange.maxDepth (Nat.le_refl _) hend
    simp [readOption, OptionKey.value, hread, put, overlay]
  | childrenFields =>
    have hlength := (Json.sizeItems_bounds (o.childrenFields.map .str)).1
    simp only [OptionKey.value, Json.size] at hsize
    rw [List.length_map] at hlength
    have hcount : o.childrenFields.length < bound := by omega
    have hread := readTexts_texts hcount rest
    simp [readOption, OptionKey.value, hread, put, overlay]
  | recoverMalformed =>
    have hread : readBool (charBytes ((Json.bool o.recoverMalformed).writeOnto rest)) =
        .ok (o.recoverMalformed, charBytes rest) := by
      cases o.recoverMalformed <;> rfl
    simp [readOption, OptionKey.value, hread, put, overlay]

/-! ## Reading members -/

/-- A member that gives an option of `o`, or that has some other key and any value. -/
def Accepts (o : Options) (m : String × Json) : Prop :=
  (∃ key : OptionKey, m = key.member o) ∨ ((∀ key : OptionKey, m.1 ≠ key.name) ∧ m.2.Canonical)

theorem Accepts.canonical {o : Options} (hrange : o.InRange) {m : String × Json} (h : o.Accepts m) :
    m.2.Canonical := by
  rcases h with ⟨key, rfl⟩ | ⟨-, hcanonical⟩
  · exact hrange.canonical_value key
  · exact hcanonical

/-- What becomes of such a member after others: an option that was given before is refused. -/
def putMember (o : Options) (state : List OptionKey × Options) (m : String × Json) :
    Except Json.Fault (List OptionKey × Options) :=
  match OptionKey.ofName? m.1 with
  | some key =>
    if key ∈ state.1 then .error .mismatched else .ok (key :: state.1, o.put key state.2)
  | none => .ok state

/-- **A member is read by its key**: an option is put over those so far, and any other value is
passed over. -/
theorem readMember_writeMember {o : Options} (hrange : o.InRange) {bound : Nat}
    {m : String × Json} (hm : o.Accepts m) (hnesting : m.2.nesting ≤ bound)
    (hsize : m.2.size < bound) (state : List OptionKey × Options) {rest : List Char}
    (hend : NumberEnd (charBytes rest)) :
    readMember bound state (charBytes (Json.writeMember m rest)) =
      (o.putMember state m).map fun state => (state, charBytes rest) := by
  have hkey : Json.readKey Json.readString (charBytes (Json.writeMember m rest)) =
      .ok (m.1, charBytes (':' :: m.2.writeOnto rest)) := Json.readString_escapeOnto m.1 _
  have hcolon : Json.readColon (charBytes (':' :: m.2.writeOnto rest)) =
      .ok (charBytes (m.2.writeOnto rest)) := rfl
  obtain ⟨seen, base⟩ := state
  rcases hm with ⟨key, rfl⟩ | ⟨hother, hcanonical⟩
  · have hread : readOption bound key base (charBytes ((key.member o).2.writeOnto rest)) =
        .ok (o.put key base, charBytes rest) := readOption_value hrange key hsize base hend
    have hname : OptionKey.ofName? (key.member o).1 = some key := OptionKey.ofName?_name key
    unfold readMember putMember
    simp only [hkey, hcolon, ok_bind, hname, hread]
    by_cases hseen : key ∈ seen
    · rw [if_pos hseen, if_pos hseen]
      rfl
    · rw [if_neg hseen, if_neg hseen]
      rfl
  · have hskip := Json.skips m.2 hcanonical bound bound rest hnesting hsize hend
    have hname := OptionKey.ofName?_eq_none hother
    unfold readMember putMember
    simp only [hkey, hcolon, ok_bind, hname, hskip]
    rfl

/-- The options that members give, in the order in which they come. -/
def givenBy (members : Members) : List OptionKey :=
  members.filterMap fun m => OptionKey.ofName? m.1

/-- **Members that come one after another**, no option twice: their options are laid over those that
are there. -/
theorem foldlM_putMember (o : Options) {members : Members} :
    ∀ {seen : List OptionKey} {base : Options}, (givenBy members ++ seen).Nodup →
      members.foldlM o.putMember (seen, base) = .ok ((givenBy members).reverse ++ seen,
        (givenBy members).foldl (fun base key => o.put key base) base) := by
  induction members with
  | nil =>
    intro seen base _
    rfl
  | cons m members ih =>
    intro seen base hnodup
    rw [List.foldlM_cons, putMember]
    cases hname : OptionKey.ofName? m.1 with
    | none =>
      have hgiven : givenBy (m :: members) = givenBy members := List.filterMap_cons_none hname
      rw [hgiven] at hnodup ⊢
      exact ih hnodup
    | some key =>
      have hgiven : givenBy (m :: members) = key :: givenBy members :=
        List.filterMap_cons_some hname
      rw [hgiven, List.cons_append] at hnodup
      have hseen : key ∉ seen := fun hmem =>
        (List.nodup_cons.mp hnodup).1 (List.mem_append_right (givenBy members) hmem)
      dsimp only
      rw [hgiven, if_neg hseen, ok_bind, List.foldl_cons, List.reverse_cons, List.append_assoc]
      exact ih (List.nodup_middle.mpr hnodup)

/-- **The members of an object are read**: the options that they give, over the defaults. -/
theorem readKeyed_writeAll {o : Options} (hrange : o.InRange) {members : Members}
    (haccepts : ∀ m ∈ members, o.Accepts m) (hnodup : (givenBy members).Nodup) {bound : Nat}
    (hnesting : Json.nestingMembers members ≤ bound) (hsize : Json.sizeMembers members < bound)
    (rest : List Char) :
    readKeyed bound (charBytes (Json.writeAll '\x7d' Json.writeMember members rest)) =
      .ok (o.overlay default fun key => key ∈ givenBy members, charBytes rest) := by
  obtain ⟨hlength, hbounds⟩ := Json.sizeMembers_bounds members
  have hcount : List.length members < bound := by omega
  have hmembers := Json.closes_brace.foldItems_writeAll (readMember bound) o.putMember rest members
    (fun m _ rest => ⟨Byte.quote, _, rfl, by decide, by decide⟩)
    (fun m hm state rest hend => by
      have hbounds := hbounds m hm
      exact readMember_writeMember hrange (haccepts m hm) (by omega) (by omega) state hend)
    ([], default) hcount
  rw [← List.append_nil (givenBy members)] at hnodup
  rw [foldlM_putMember o hnodup, foldl_put] at hmembers
  unfold readKeyed Json.foldSequence
  rw [hmembers]
  rfl

/-- **Options from the text of an object** whose members are options of `o`, none of them twice, and
others. -/
theorem ofText_compact {o : Options} (hrange : o.InRange) {members : Members}
    (haccepts : ∀ m ∈ members, o.Accepts m) (hnodup : (givenBy members).Nodup) :
    ofText (bytesOf (Json.obj members).compact) =
      .ok (o.overlay default fun key => key ∈ givenBy members) := by
  have hspace := Json.takesSpace_obj
    (fun m hm => Json.takesSpace m.2 ((haccepts m hm).canonical hrange)) []
  have hnesting := textNesting_le_length (bytesOf (Json.obj members).compact)
  rw [Json.textNesting_compact] at hnesting
  rw [Json.compact, bytesOf_ofList] at hnesting ⊢
  simp only [Json.nesting] at hnesting
  simp only [Json.size] at hspace
  have hread : read ((charBytes ((Json.obj members).writeOnto [])).length + 1)
      (charBytes ((Json.obj members).writeOnto [])) =
        .ok (o.overlay default fun key => key ∈ givenBy members, charBytes []) := by
    rw [Json.writeOnto_obj] at hnesting hspace ⊢
    exact readKeyed_writeAll hrange haccepts hnodup (by omega) (by omega) []
  rw [ofText, hread]
  rfl

/-- The options that are given are those that are chosen, each once, in whatever order. -/
theorem givenBy_perm {o : Options} {chosen : OptionKey → Bool} {members others : Members}
    (hothers : ∀ m ∈ others, ∀ key : OptionKey, m.1 ≠ key.name)
    (h : members.Perm ((OptionKey.all.filter chosen).map (OptionKey.member o) ++ others)) :
    (givenBy members).Perm (OptionKey.all.filter chosen) := by
  have hchosen : givenBy ((OptionKey.all.filter chosen).map (OptionKey.member o)) =
      OptionKey.all.filter chosen := by
    have hname : (fun m => OptionKey.ofName? m.1) ∘ OptionKey.member o = some := by
      funext key
      exact OptionKey.ofName?_name key
    rw [givenBy, List.filterMap_map, hname, List.filterMap_some]
  have hnone : givenBy others = [] :=
    List.filterMap_eq_nil_iff.mpr fun m hm => OptionKey.ofName?_eq_none (hothers m hm)
  have hgiven := h.filterMap fun m => OptionKey.ofName? m.1
  rw [List.filterMap_append] at hgiven
  rwa [← givenBy, ← givenBy, ← givenBy, hchosen, hnone, List.append_nil] at hgiven

end Options

/-- **Options that are left out** are as they are by default. A text that gives some options of `o`,
in whatever order and among members that mean nothing, gives these options over the defaults. -/
theorem configText_overlays {o : Options} (hrange : o.InRange) (chosen : OptionKey → Bool)
    {others members : Members}
    (hothers : ∀ m ∈ others, (∀ key : OptionKey, m.1 ≠ key.name) ∧ m.2.Canonical)
    (hmembers : members.Perm
      ((OptionKey.all.filter chosen).map (OptionKey.member o) ++ others)) :
    Options.ofConfigText (Json.obj members).compact = .ok (o.overlay Options.default chosen) := by
  have haccepts : ∀ m ∈ members, o.Accepts m := by
    intro m hm
    rcases List.mem_append.mp (hmembers.mem_iff.mp hm) with hgiven | hother
    · obtain ⟨key, -, rfl⟩ := List.mem_map.mp hgiven
      exact .inl ⟨key, rfl⟩
    · exact .inr (hothers m hother)
  have hgiven := Options.givenBy_perm (fun m hm => (hothers m hm).1) hmembers
  have hall : OptionKey.all.Nodup := by decide
  have hchosen : (fun key => decide (key ∈ Options.givenBy members)) = chosen := by
    funext key
    simp [hgiven.mem_iff, OptionKey.mem_all key]
  have hread := Options.ofText_compact hrange haccepts (hgiven.nodup_iff.mpr (hall.filter chosen))
  rw [hchosen] at hread
  rw [Options.ofConfigText, hread]
  rfl

/-- The largest depth and names with escapes, among values of one key that comes twice: the smallest
double, and an object with a key that would mean something outside of it. -/
theorem configText_overlays_unknown_keys :
    let members : Members := [("x\n", .float ⟨false, 1, -1074⟩),
      ("max_depth", .nat 18446744073709551615),
      ("x\n", .obj [("pointer_width", .arr [.null, .str "\""])]),
      ("children_fields", .arr [.str "", .str "\\\x07é"])]
    (Json.obj members).compact = "\x7b\"x\\n\":5e-324,\"max_depth\":18446744073709551615," ++
        "\"x\\n\":\x7b\"pointer_width\":[null,\"\\\"\"]\x7d," ++
        "\"children_fields\":[\"\",\"\\\\\\u0007é\"]\x7d" ∧
      Options.ofConfigText (Json.obj members).compact = .ok { Options.default with
        maxDepth := 18446744073709551615, childrenFields := ["", "\\\x07é"] } := by
  intro members
  let others : Members := [("x\n", .float ⟨false, 1, -1074⟩),
    ("x\n", .obj [("pointer_width", .arr [.null, .str "\""])])]
  have hothers : ∀ m ∈ others, (∀ key : OptionKey, m.1 ≠ key.name) ∧ m.2.Canonical := by
    have hkey : ∀ key : OptionKey, "x\n" ≠ key.name := by
      intro key
      cases key <;> decide
    simp only [others, List.forall_mem_cons, Json.Canonical, Json.CanonicalMembers,
      Json.CanonicalItems]
    refine ⟨⟨hkey, by decide⟩, ⟨hkey, by decide⟩, by simp⟩
  exact ⟨by decide +kernel,
    configText_overlays (o := ⟨0, 18446744073709551615, ["", "\\\x07é"], false⟩)
      ⟨by decide, by decide⟩ (fun key => key = .maxDepth ∨ key = .childrenFields) hothers
      (by decide)⟩

end AstDump
