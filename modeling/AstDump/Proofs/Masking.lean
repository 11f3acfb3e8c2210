import AstDump.Decode.Mask
import AstDump.Proofs.Reports

/-!
# Masked dumps

A dump whose malformed items are replaced by placeholders beforehand is decoded strictly, and has
the same record tree as the dump itself has with recovery on.

* `Record.openAt_mapItems`   : a record whose items are changed is the same record otherwise;
* `isMalformed_iff`          : what is replaced is no node record;
* `RecordTree.ofLevels_mask` : the record tree of a masked dump;
* `dropped_iff_placeholder`  : the values that become placeholders are those that are dropped.
-/

namespace AstDump

/-! ## Changing the items of a record -/

namespace Members

theorem get?_replace (key : String) (value : Json) (k : String) (members : Members) :
    (members.replace key value).get? k =
      (members.get? k).map fun v => if k = key then value else v := by
  induction members with
  | nil => rfl
  | cons m rest ih =>
    obtain ⟨name, v⟩ := m
    have hcons : replace key value ((name, v) :: rest) =
        (if name = key then (key, value) else (name, v)) :: replace key value rest := rfl
    rw [hcons]
    by_cases hkey : name = key <;> by_cases hk : name = k
    · subst hkey hk
      simp [get?]
    · subst hkey
      simp only [if_true, get?, if_neg hk, ih]
    · subst hk
      simp [get?, hkey]
    · simp only [if_neg hkey, get?, if_neg hk, ih]

/-- The fields that are not replaced stay as they are. -/
theorem filter_replace {p : String → Bool} {key : String} (hp : p key = false) (value : Json)
    (members : Members) :
    (members.replace key value).filter (fun m => p m.1) = members.filter fun m => p m.1 := by
  induction members with
  | nil => rfl
  | cons m rest ih =>
    have hcons : replace key value (m :: rest) =
        (if m.1 = key then (key, value) else m) :: replace key value rest := rfl
    rw [hcons, List.filter_cons, List.filter_cons, ih]
    by_cases hkey : m.1 = key
    · simp [hkey, hp]
    · rw [if_neg hkey]

/-- The record is the same but for its items, each of which is changed. -/
structure SameButItems (options : Options) (f : Json → Json) (members changed : Members) :
    Prop where
  idText? : changed.idText? = members.idText?
  kindTag? : changed.kindTag? = members.kindTag?
  childrenField? : changed.childrenField? options = members.childrenField? options
  items? : changed.items? options = (members.items? options).map (List.map f)
  attrs : ∀ p : String → Bool,
    (∀ field, members.childrenField? options = some field → p field = false) →
      changed.filter (fun m => p m.1) = members.filter fun m => p m.1

/-- A record whose list of children is replaced. A children field that holds a list is neither the
id nor the kind. -/
theorem sameButItems_replace {options : Options} (f : Json → Json) {members : Members}
    {field rawId tag : String} {items : List Json} (hid : members.idText? = some rawId)
    (hkind : members.kindTag? = some tag) (hfield : members.childrenField? options = some field)
    (hitems : members.get? field = some (.arr items)) :
    SameButItems options f members (members.replace field (.arr (items.map f))) := by
  have hnotId : "id" ≠ field := by
    rintro rfl
    rw [idText?, hitems] at hid
    cases hid
  have hnotKind : "kind" ≠ field := by
    rintro rfl
    rw [kindTag?, hitems] at hkind
    cases hkind
  have hsame : (members.replace field (.arr (items.map f))).childrenField? options =
      members.childrenField? options := by
    unfold childrenField?
    congr 1
    funext k
    rw [get?_replace, Option.isSome_map]
  refine ⟨?_, ?_, hsame, ?_, ?_⟩
  · simp [idText?, get?_replace, hnotId]
  · simp [kindTag?, get?_replace, hnotKind]
  · unfold items?
    rw [hsame, hfield]
    simp [get?_replace, hitems, Json.items?]
  · intro p hp
    exact filter_replace (hp field hfield) _ _

end Members

/-- **Changing the items of a record leaves it the same otherwise.** -/
theorem mapItems_obj {options : Options} (f : Json → Json) {members : Members} {rawId tag : String}
    {items : List Json} (hid : members.idText? = some rawId) (hkind : members.kindTag? = some tag)
    (hitems : members.items? options = some items) :
    ∃ changed, mapItems options f (.obj members) = .obj changed ∧
      members.SameButItems options f changed := by
  have hentry := Record.childrenEntry?_eq options ⟨members, "", .other ""⟩
  cases hfield : Members.childrenField? options members with
  | none =>
    rw [hfield] at hentry
    have hnone : members.items? options = some [] := by rw [Members.items?, hfield]
    refine ⟨members, ?_, rfl, rfl, rfl, by rw [hnone]; rfl, fun _ _ => rfl⟩
    simp only [mapItems, hentry, Option.bind_none]
  | some field =>
    have hlist := Record.get?_of_items? hfield hitems
    rw [hfield] at hentry
    refine ⟨_, ?_, Members.sameButItems_replace f hid hkind hfield hlist⟩
    simp only [mapItems, hentry, Option.bind_some, hlist, Option.map_some]

/-- The record that a value is when its items are changed. -/
theorem Record.openAt_mapItems {options : Options} {path : Path} {depth : Nat} {raw : Json}
    {r : Record} {items : List Json} (f : Json → Json)
    (h : openAt options path depth raw = .ok (r, items)) :
    ∃ r', openAt options path depth (mapItems options f raw) = .ok (r', items.map f) ∧
      r'.rawId = r.rawId ∧ r'.kind = r.kind ∧ r'.attrs options = r.attrs options ∧
      r'.childrenField options = r.childrenField options := by
  obtain ⟨shallow, rfl, hid, ⟨tag, hkind, htag⟩, hitems⟩ := openAt_eq_ok_iff.mp h
  obtain ⟨changed, hchanged, hsame⟩ := mapItems_obj f hid hkind hitems
  refine ⟨⟨changed, r.rawId, r.kind⟩, ?_, rfl, rfl, ?_, ?_⟩
  · refine openAt_eq_ok_iff.mpr ⟨shallow, hchanged, ?_, ⟨tag, ?_, htag⟩, ?_⟩
    · rw [hsame.idText?, hid]
    · rw [hsame.kindTag?, hkind]
    · rw [hsame.items?, hitems]
      rfl
  · rw [attrs_eq, attrs_eq, hsame.childrenField?]
    exact hsame.attrs (fun key => decide (key ≠ "id" ∧ key ≠ "kind" ∧
      some key ≠ r.members.childrenField? options)) fun field hfield => by simp [hfield]
  · rw [childrenField_eq, childrenField_eq, hsame.childrenField?]

/-! ## What is replaced -/

/-- **What is replaced is no node record.** -/
theorem isMalformed_iff {options : Options} {depth : Nat} {v : Json} :
    isMalformed options depth v = true ↔ ¬ WellFormed options depth v := by
  have hopen : isMalformed options depth v = (Record.openAt options [] depth v).toBool.not := by
    unfold isMalformed Record.openAt
    cases Record.read options [] depth v with
    | error e => rfl
    | ok r => cases hitems : r.items? options <;> simp [hitems, Except.toBool]
  rw [hopen]
  cases hresult : Record.openAt options [] depth v with
  | error e =>
    have hfault := Record.openAt_eq_error_iff.mp hresult
    simp [Except.toBool, hfault.not_wellFormed]
  | ok found =>
    have hwf : WellFormed options depth v := Record.wellFormed_of_openAt hresult
    simp [Except.toBool, hwf]

theorem not_wellFormed_placeholder (options : Options) (depth : Nat) :
    ¬ WellFormed options depth (.obj []) := by
  rintro ⟨-, members, hmembers, hid, -⟩
  cases hmembers
  cases hid

/-- A malformed item as a placeholder, and any other masked by the levels below. -/
def maskItem (options : Options) (levels : Nat) (item : Json) : Json :=
  if isMalformed options (options.maxDepth + 1 - levels) item then .obj []
  else maskLevels options levels item

theorem maskLevels_succ (options : Options) (levels : Nat) (raw : Json) :
    maskLevels options (levels + 1) raw = mapItems options (maskItem options levels) raw := rfl

section MaskItem

variable {options : Options} {depth levels : Nat} {item : Json}

theorem maskItem_of_malformed (hdepth : depth + levels = options.maxDepth + 1)
    (h : ¬ WellFormed options depth item) : maskItem options levels item = .obj [] := by
  have hlevel : options.maxDepth + 1 - levels = depth := by omega
  rw [maskItem, hlevel, if_pos (isMalformed_iff.mpr h)]

theorem maskItem_of_wellFormed (hdepth : depth + levels = options.maxDepth + 1)
    (h : WellFormed options depth item) :
    maskItem options levels item = maskLevels options levels item := by
  have hlevel : options.maxDepth + 1 - levels = depth := by omega
  rw [maskItem, hlevel, if_neg]
  exact fun hmalformed => isMalformed_iff.mp hmalformed h

end MaskItem

/-! ## The record tree of a masked dump -/

namespace RecordTree

variable {options : Options} {path : Path} {depth levels : Nat} {raw : Json}

/-- The items of a masked record, once the levels below are known. -/
theorem ofItems_mask {field : String} (hdepth : depth + levels = options.maxDepth + 1)
    (hlower : ∀ path item found, ofLevels options.recovering levels path item = .ok found →
      ofLevels options.strict levels path (maskLevels options levels item) = .ok (found.1, []))
    (items : List Json) : ∀ (position : Nat) found,
      ofItems true (ofLevels options.recovering levels) path field position items = .ok found →
      ofItems false (ofLevels options.strict levels) path field position
        (items.map (maskItem options levels)) = .ok (found.1, []) := by
  induction items with
  | nil =>
    intro position found h
    cases h
    rfl
  | cons item rest ih =>
    intro position found h
    rw [List.map_cons]
    rcases ofItems_cons_cases h with
      ⟨hitem, hmore⟩ | ⟨more, -, hmore, ⟨tree, errors, htree, rfl⟩ | ⟨e, -, htree, rfl⟩⟩
    · have hmalformed : ¬ WellFormed options depth item := by
        rw [hitem]
        exact not_wellFormed_placeholder options depth
      rw [maskItem_of_malformed hdepth hmalformed, ofItems_placeholder rfl, ih _ _ hmore]
    · have hmasked := hlower _ _ _ htree
      have hheld : ¬ (maskLevels options levels item).IsPlaceholder := by
        intro hplaceholder
        rw [hplaceholder] at hmasked
        exact not_wellFormed_placeholder _ depth (wellFormed_of_ofLevels hmasked hdepth)
      have hitem := wellFormed_of_ofLevels htree hdepth
      rw [maskItem_of_wellFormed hdepth hitem, ofItems_tree hheld hmasked, ih _ _ hmore]
      rfl
    · have hmalformed := (fault_of_ofLevels htree hdepth).not_wellFormed
      rw [maskItem_of_malformed hdepth hmalformed, ofItems_placeholder rfl, ih _ _ hmore]

/-- **A masked dump has, decoded strictly, the record tree that the dump has with recovery on.** -/
theorem ofLevels_mask {found : RecordTree × List DecodeError}
    (hdepth : depth + levels = options.maxDepth + 1)
    (h : ofLevels options.recovering levels path raw = .ok found) :
    ofLevels options.strict levels path (maskLevels options levels raw) = .ok (found.1, []) := by
  induction levels generalizing depth path raw found with
  | zero => cases h
  | succ levels ih =>
    obtain ⟨r, items, lower, trees, hlevels, hopen, hitems, hfound⟩ :=
      exists_openAt_of_ofLevels h hdepth
    obtain rfl : levels = lower := by omega
    have hdown : depth + 1 + levels = options.maxDepth + 1 := by omega
    obtain ⟨r', hopen', hid, hkind, hattrs, hfield⟩ :=
      Record.openAt_mapItems (maskItem options levels) hopen
    have hmasked := ofItems_mask hdown (fun path item found hfound => ih hdown hfound) items _ _
      hitems
    have hstrict : Record.openAt options.strict path depth
        (mapItems options (maskItem options levels) raw) = .ok (r', items.map _) := hopen'
    have htree := ofLevels_of_ok hstrict (show depth + levels = options.maxDepth by omega)
    have hrecord : ofRecord options.strict r' (items.map (maskItem options levels)) trees =
        ofRecord options.recovering r items trees := by
      have hattrs' : r'.attrs options.strict = r.attrs options.recovering := hattrs
      unfold ofRecord
      rw [List.isEmpty_map, hid, hkind, hattrs']
    have hfield' : r'.childrenField options.strict = r.childrenField options.recovering := hfield
    have hoff : options.strict.recoverMalformed = false := rfl
    rw [hid, hkind, hfield', hoff, hmasked] at htree
    rw [maskLevels_succ, htree, hfound, ← hrecord]
    rfl

end RecordTree

/-! ## Where the placeholders stand -/

/-- The item at a place, a placeholder or not. -/
def Json.itemAt? (options : Options) : Json → Place → Option Json
  | v, [] => some v
  | v, i :: place =>
    match (v.childItems options)[i]? with
    | none => none
    | some item => itemAt? options item place

section Placeholders

variable {options : Options} {depth levels : Nat} {raw : Json}

theorem childItems_maskLevels (hraw : WellFormed options depth raw) :
    (maskLevels options (levels + 1) raw).childItems options =
      (raw.childItems options).map (maskItem options levels) := by
  obtain ⟨members, rawId, tag, items, rfl, -, -, -, -, hopen⟩ := hraw.openAt []
  obtain ⟨r', hopen', -⟩ := Record.openAt_mapItems (maskItem options levels) hopen
  rw [maskLevels_succ, Record.childItems_of_openAt hopen', Record.childItems_of_openAt hopen]

theorem wellFormed_maskLevels (hraw : WellFormed options depth raw) :
    WellFormed options depth (maskLevels options (levels + 1) raw) := by
  obtain ⟨members, rawId, tag, items, rfl, -, -, -, -, hopen⟩ := hraw.openAt []
  obtain ⟨r', hopen', -⟩ := Record.openAt_mapItems (maskItem options levels) hopen
  exact Record.wellFormed_of_openAt hopen'

theorem itemAt?_placeholder {place : Place} :
    (Json.obj []).itemAt? options place = some (.obj []) ↔ place = [] := by
  cases place with
  | nil => simp [Json.itemAt?]
  | cons i place =>
    have hnone : (Json.obj []).childItems options = [] := by
      have hfield : Members.childrenField? options [] = none :=
        List.find?_eq_none.mpr fun field _ => by simp [Members.get?]
      rw [Json.childItems, Members.items?, hfield]
      rfl
    simp [Json.itemAt?, hnone]

/-- **The values that become placeholders are those that are dropped.** -/
theorem dropped_iff_placeholder {place : Place} {v : Json}
    (hdepth : depth + levels = options.maxDepth + 1) (hraw : WellFormed options depth raw) :
    Dropped options depth raw place v ↔ raw.valueAt? options place = some v ∧
      (maskLevels options levels raw).itemAt? options place = some (.obj []) := by
  induction place generalizing depth levels raw with
  | nil =>
    have hwithin : depth ≤ options.maxDepth := hraw.1
    obtain ⟨lower, rfl⟩ : ∃ lower, levels = lower + 1 := ⟨levels - 1, by omega⟩
    refine ⟨fun h => absurd h Dropped.not_nil, ?_⟩
    rintro ⟨-, hmask⟩
    have hwf : WellFormed options depth (maskLevels options (lower + 1) raw) :=
      wellFormed_maskLevels hraw
    rw [Option.some.inj hmask] at hwf
    exact absurd hwf (not_wellFormed_placeholder options depth)
  | cons i place ih =>
    have hwithin : depth ≤ options.maxDepth := hraw.1
    obtain ⟨lower, rfl⟩ : ∃ lower, levels = lower + 1 := ⟨levels - 1, by omega⟩
    have hdown : depth + 1 + lower = options.maxDepth + 1 := by omega
    rw [Dropped.cons_iff, Json.valueAt?_cons_iff, Json.itemAt?, childItems_maskLevels hraw,
      List.getElem?_map]
    cases (raw.childItems options)[i]? with
    | none => simp
    | some item =>
      by_cases hheld : item.IsPlaceholder
      · simp [hheld]
      by_cases hitem : WellFormed options (depth + 1) item
      · simp only [Option.some.injEq, exists_eq_left', hheld, not_false_eq_true, true_and, hitem,
          not_true_eq_false, and_false, false_or, hraw, Option.map_some]
        rw [maskItem_of_wellFormed hdown hitem]
        exact ih hdown hitem
      · have hnot : ¬ Dropped options (depth + 1) item place v := fun h => hitem h.record
        simp only [Option.some.injEq, exists_eq_left', hheld, not_false_eq_true, true_and, hitem,
          and_true, hnot, or_false, hraw, Option.map_some]
        rw [maskItem_of_malformed hdown hitem, itemAt?_placeholder, and_comm]
        refine and_congr_left fun hplace => ?_
        subst hplace
        exact ⟨fun h => h ▸ rfl, fun h => (Option.some.inj h).symm⟩

end Placeholders

end AstDump
