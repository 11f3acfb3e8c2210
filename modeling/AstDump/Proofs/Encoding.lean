import AstDump.Decode.Encode
import AstDump.Proofs.Units

/-!
# Nothing is lost in decoding

From the nodes of a unit a dump can be written that decodes to the same unit. What is written of a
node is one record, whatever the record that it came from looked like: the id as a string, and the
children under the first of the children fields.

* `Record.openAt_written`      : the record that is written is the record that was read;
* `RecordTree.toJson`          : the dump of a record tree;
* `Tree.ShowsAll.encode_eq`    : what is written of a tree is the dump of its record tree;
* `RecordTree.ofLevels_toJson` : the dump of a record tree that was read has this record tree;
* `decode_encode`              : what is written of a decoded unit decodes to the unit.
-/

namespace AstDump

/-! ## One record -/

namespace Members

/-- The record with an id, a kind, attributes, and items under the first of the children fields. -/
def written (options : Options) (rawId : String) (kind : Kind) (attrs : Members)
    (items : List Json) : Members :=
  let record := (attrs.insert "id" (.str rawId)).insert "kind" (.str kind.tag)
  match options.childrenFields with
  | [] => record
  | field :: _ => record.insert field (.arr items)

section Written

variable {options : Options} {rawId : String} {kind : Kind} {attrs : Members} {items : List Json}

theorem get?_written {key : String} (h : options.childrenFields.head? ≠ some key) :
    (written options rawId kind attrs items).get? key =
      if key = "kind" then some (.str kind.tag)
      else if key = "id" then some (.str rawId) else attrs.get? key := by
  unfold written
  cases hfields : options.childrenFields with
  | nil => simp only [get?_insert]
  | cons field fields =>
    have hne : key ≠ field := by
      rintro rfl
      simp [hfields] at h
    simp only [get?_insert, if_neg hne]

theorem childrenField?_written :
    (written options rawId kind attrs items).childrenField? options =
      options.childrenFields.head? := by
  unfold written childrenField?
  cases options.childrenFields with
  | nil => rfl
  | cons field fields => simp [get?_insert]

theorem items?_written (h : options.childrenFields = [] → items = []) :
    (written options rawId kind attrs items).items? options = some items := by
  rw [items?, childrenField?_written]
  cases hfields : options.childrenFields with
  | nil => simp [h hfields]
  | cons field fields => simp [written, hfields, get?_insert, Json.items?]

theorem filter_written {p : String → Bool} (hid : p "id" = false) (hkind : p "kind" = false)
    (hfirst : ∀ field, options.childrenFields.head? = some field → p field = false) :
    (written options rawId kind attrs items).filter (fun m => p m.1) =
      attrs.filter fun m => p m.1 := by
  unfold written
  cases hfields : options.childrenFields with
  | nil => simp only [filter_insert hkind, filter_insert hid]
  | cons field fields =>
    have hfield : p field = false := hfirst field (by rw [hfields]; rfl)
    simp only [filter_insert hfield, filter_insert hkind, filter_insert hid]

theorem written_ne_nil : written options rawId kind attrs items ≠ [] := by
  unfold written
  cases options.childrenFields <;> exact insert_ne_nil _ _ _

end Written

/-- A record that has the first of the children fields has its children there. -/
theorem childrenField?_of_head? {options : Options} {members : Members} {field : String}
    (hfirst : options.childrenFields.head? = some field)
    (h : (members.get? field).isSome = true) : members.childrenField? options = some field := by
  obtain ⟨fields, hfields⟩ := List.head?_eq_some_iff.mp hfirst
  rw [childrenField?, hfields, List.find?_cons, h]

/-- In a record with items, the first of the children fields is none that holds anything but a
list. -/
theorem head?_ne_of_items? {options : Options} {members : Members} {key : String} {v : Json}
    {items : List Json} (h : members.items? options = some items)
    (hv : members.get? key = some v) (hnot : v.items? = none) :
    options.childrenFields.head? ≠ some key := by
  intro hfirst
  have hlist := Record.get?_of_items? (childrenField?_of_head? hfirst (by rw [hv]; rfl)) h
  rw [hv] at hlist
  cases hlist
  cases hnot

end Members

namespace Record

variable {options : Options} {path : Path} {depth : Nat} {raw : Json} {r : Record}
  {items : List Json}

/-- The first of the children fields is no attribute. -/
theorem attrs_ne_head? {m : String × Json} (hm : m ∈ r.attrs options) :
    m.1 ≠ "id" ∧ m.1 ≠ "kind" ∧ some m.1 ≠ options.childrenFields.head? := by
  rw [attrs_eq, List.mem_filter, decide_eq_true_iff] at hm
  obtain ⟨hmem, hid, hkind, hfield⟩ := hm
  refine ⟨hid, hkind, fun hfirst => hfield ?_⟩
  exact (Members.childrenField?_of_head? hfirst.symm (Members.isSome_get?_of_mem hmem)).symm

/-- A record that has items has a field for them. -/
theorem childrenFields_ne_nil {item : Json}
    (h : openAt options path depth raw = .ok (r, item :: items)) : options.childrenFields ≠ [] := by
  intro hnil
  obtain ⟨-, -, -, -, hitems⟩ := openAt_eq_ok_iff.mp h
  have hfield : r.members.childrenField? options = none := by
    rw [Members.childrenField?, hnil]
    rfl
  rw [Members.items?, hfield] at hitems
  cases hitems

theorem attrs_written (options : Options) (r : Record) (rawId : String) (kind : Kind)
    (items : List Json) :
    attrs options ⟨Members.written options rawId kind (r.attrs options) items, rawId, kind⟩ =
      r.attrs options := by
  have hattrs := attrs_eq options
    ⟨Members.written options rawId kind (r.attrs options) items, rawId, kind⟩
  have hkeep : ∀ m ∈ r.attrs options, decide (m.1 ≠ "id" ∧ m.1 ≠ "kind" ∧
      some m.1 ≠ options.childrenFields.head?) = true :=
    fun m hm => decide_eq_true (attrs_ne_head? hm)
  have hfilter := @Members.filter_written options rawId kind (r.attrs options) items
    (fun key => decide (key ≠ "id" ∧ key ≠ "kind" ∧ some key ≠ options.childrenFields.head?))
    (by simp) (by simp) (fun field hfield => by simp [hfield])
  dsimp only at hattrs
  rw [hattrs, Members.childrenField?_written, hfilter, List.filter_eq_self.mpr hkeep]

/-- **The record that is written of a node is the record that was read**, with other items. -/
theorem openAt_written (h : openAt options path depth raw = .ok (r, items)) (path' : Path)
    {items' : List Json} (hnone : options.childrenFields = [] → items' = []) :
    ∃ r', openAt options path' depth
        (.obj (Members.written options r.rawId r.kind (r.attrs options) items')) =
          .ok (r', items') ∧
      r'.rawId = r.rawId ∧ r'.kind = r.kind ∧ r'.attrs options = r.attrs options := by
  obtain ⟨shallow, -, hid, ⟨tag, hkind, htag⟩, hitems⟩ := openAt_eq_ok_iff.mp h
  obtain ⟨idValue, hidValue, hidText⟩ := Option.bind_eq_some_iff.mp hid
  obtain ⟨kindValue, hkindValue, hkindTag⟩ := Option.bind_eq_some_iff.mp hkind
  obtain ⟨rfl, hnonempty⟩ := Json.eq_str_of_kindTag? hkindTag
  -- neither the id nor the kind is a list, so neither is where children are written
  have hfirstId : options.childrenFields.head? ≠ some "id" :=
    Members.head?_ne_of_items? hitems hidValue (Json.items?_of_idText? hidText)
  have hfirstKind : options.childrenFields.head? ≠ some "kind" :=
    Members.head?_ne_of_items? hitems hkindValue rfl
  have hattrs := attrs_written options r r.rawId r.kind items'
  obtain ⟨record, hrecord⟩ : ∃ record, record =
    Members.written options r.rawId r.kind (r.attrs options) items' := ⟨_, rfl⟩
  rw [← hrecord] at hattrs ⊢
  refine ⟨⟨record, r.rawId, r.kind⟩, openAt_eq_ok_iff.mpr ⟨shallow, rfl, ?_, ⟨tag, ?_, htag⟩, ?_⟩,
    rfl, rfl, hattrs⟩
  · rw [Members.idText?, hrecord, Members.get?_written hfirstId]
    rfl
  · rw [Members.kindTag?, hrecord, Members.get?_written hfirstKind, htag, Kind.tag_ofTag]
    simp [Json.kindTag?, hnonempty]
  · rw [hrecord, Members.items?_written hnone]

end Record

/-! ## The dump of a record tree -/

namespace RecordTree

mutual

/-- The dump of a record tree. -/
def toJson (options : Options) : RecordTree → Json
  | leaf rawId kind attrs => .obj (Members.written options rawId kind attrs [])
  | branch rawId kind attrs children => .obj (Members.written options rawId kind attrs
      (if children.isEmpty then [.obj []] else toJsonAll options children))

/-- The dumps of a forest. -/
def toJsonAll (options : Options) : List RecordTree → List Json
  | [] => []
  | t :: ts => t.toJson options :: toJsonAll options ts

end

end RecordTree

namespace Tree

variable {options : Options} {t : Tree}

/-- The record of a node; its view does not matter. -/
theorem recordOf_succ {levels i : Nat} {n : Node} (h : t.plainNodes[i]? = some n) :
    t.recordOf options (levels + 1) i = .obj (Members.written options n.rawId n.kind n.attrs
      (childItems n.children (t.recordOf options levels))) := by
  rw [getElem?_plainNodes] at h
  obtain ⟨m, hm, rfl⟩ := Option.map_eq_some_iff.mp h
  rw [recordOf, hm]
  unfold Members.written
  cases options.childrenFields <;> rfl

/-- What is written of a forest that a tree lists. -/
theorem ShowsAll.map_recordOf (ts : List RecordTree) :
    ∀ {p : Option NodeId} {d first levels : Nat}, t.ShowsAll p d first ts →
      RecordTree.sizeAll ts ≤ levels →
      (RecordTree.tops first ts).map (t.recordOf options levels) =
        RecordTree.toJsonAll options ts := by
  induction ts using RecordTree.forest_induction with
  | nil => intro p d first levels _ _; rfl
  | cons s ts below beside =>
    intro p d first levels h hlevels
    obtain ⟨hs, hts⟩ := h.cons
    have hsize := s.size_eq
    rw [RecordTree.sizeAll] at hlevels
    have hrecord : t.recordOf options levels first = s.toJson options := by
      obtain ⟨lower, rfl⟩ : ∃ lower, levels = lower + 1 := ⟨levels - 1, by omega⟩
      have hitems := @below (some first) (d + 1) (first + 1) lower hs.below (by omega)
      rw [recordOf_succ hs.top]
      cases s with
      | leaf rawId kind attrs => rfl
      | branch rawId kind attrs children =>
        rw [RecordTree.toJson, ← show _ = RecordTree.toJsonAll options children from hitems]
        cases children <;> rfl
    rw [RecordTree.tops_cons, List.map_cons, hrecord, beside hts (by omega)]
    rfl

/-- **What is written of a tree is the dump of the record tree that it lists.** -/
theorem ShowsAll.encode_eq {s : RecordTree} (h : t.ShowsAll none 0 root [s])
    (hsize : t.size = s.size) : t.encode options = s.toJson options := by
  have hle : RecordTree.sizeAll [s] ≤ t.size := by
    rw [hsize]
    exact Nat.le_refl _
  exact List.singleton_inj.mp (ShowsAll.map_recordOf [s] h hle)

end Tree

/-! ## Reading a written record tree -/

namespace RecordTree

theorem toJson_not_placeholder (options : Options) (t : RecordTree) :
    ¬ (t.toJson options).IsPlaceholder := by
  intro h
  cases t <;> exact Members.written_ne_nil (Json.obj.inj h)

section Items

variable {recover : Bool}
  {ofItem : Path → Json → Except DecodeError (RecordTree × List DecodeError)}
  {path : Path} {field : String}

/-- The trees of a list of items are trees of items. -/
theorem exists_item_of_mem (items : List Json) : ∀ {position : Nat} {found},
    ofItems recover ofItem path field position items = .ok found →
    ∀ t ∈ found.1, ∃ path item errors, ofItem path item = .ok (t, errors) := by
  induction items with
  | nil =>
    intro position found h t ht
    cases h
    cases ht
  | cons item rest ih =>
    intro position found h t ht
    rcases ofItems_cons_cases h with
      ⟨-, hrest⟩ | ⟨more, -, hmore, ⟨tree, errors, htree, rfl⟩ | ⟨e, -, -, rfl⟩⟩
    · exact ih hrest t ht
    · rcases List.mem_cons.mp ht with rfl | ht
      · exact ⟨_, item, errors, htree⟩
      · exact ih hmore t ht
    · exact ih hmore t ht

end Items

variable {options : Options} {levels : Nat}

/-- The value reads as the tree, wherever it stands. -/
def ReadsAs (options : Options) (levels : Nat) (v : Json) (t : RecordTree) : Prop :=
  ∀ path, ofLevels options levels path v = .ok (t, [])

/-- The dumps of trees that are read back, in a list. -/
theorem ofItems_toJsonAll {recover : Bool} {path : Path} {field : String} (ts : List RecordTree)
    (h : ∀ t ∈ ts, ReadsAs options levels (t.toJson options) t) : ∀ position : Nat,
      ofItems recover (ofLevels options levels) path field position (toJsonAll options ts) =
        .ok (ts, []) := by
  induction ts with
  | nil => intro position; rfl
  | cons t ts ih =>
    intro position
    have hrest := ih (fun t ht => h t (List.mem_cons_of_mem _ ht)) (position + 1)
    rw [toJsonAll, ofItems_tree (toJson_not_placeholder options t) (h t List.mem_cons_self _),
      hrest]
    rfl

/-- A record that is written again with items of its own: the items tell its trees. -/
theorem readsAs_written {path : Path} {depth : Nat} {raw : Json} {r : Record}
    {items items' : List Json} {trees : List RecordTree}
    (hopen : Record.openAt options path depth raw = .ok (r, items))
    (hdepth : depth + levels = options.maxDepth)
    (hnone : options.childrenFields = [] → items' = [])
    (hread : ∀ path field, ofItems options.recoverMalformed (ofLevels options levels) path field 0
      items' = .ok (trees, [])) :
    ReadsAs options (levels + 1)
      (.obj (Members.written options r.rawId r.kind (r.attrs options) items'))
      (ofRecord options r items' trees) := by
  intro path'
  obtain ⟨r', hopen', hid, hkind, hattrs⟩ := Record.openAt_written hopen path' hnone
  have hsame : ofRecord options r' items' trees = ofRecord options r items' trees := by
    unfold ofRecord
    rw [hid, hkind, hattrs]
  rw [ofLevels_of_ok hopen' hdepth, hread, ← hsame]
  rfl

/-- **The dump of a record tree that was read has this record tree**, and nothing is dropped. -/
theorem ofLevels_toJson {path : Path} {depth : Nat} {raw : Json}
    {found : RecordTree × List DecodeError} (hdepth : depth + levels = options.maxDepth + 1)
    (h : ofLevels options levels path raw = .ok found) :
    ReadsAs options levels (found.1.toJson options) found.1 := by
  induction levels generalizing depth path raw found with
  | zero => cases h
  | succ levels ih =>
    intro path'
    obtain ⟨r, items, lower, trees, hlevels, hopen, hitems, hfound⟩ :=
      exists_openAt_of_ofLevels h hdepth
    obtain rfl : levels = lower := by omega
    have hdown : depth + levels = options.maxDepth := by omega
    have hlower : ∀ t ∈ trees, ReadsAs options levels (t.toJson options) t := by
      intro t ht
      obtain ⟨_, item, errors, hitem⟩ := exists_item_of_mem items hitems t ht
      exact ih (show depth + 1 + levels = options.maxDepth + 1 by omega) hitem
    rw [hfound]
    cases items with
    | nil =>
      have hempty : trees = [] := trees_nil hitems rfl
      subst hempty
      exact readsAs_written hopen hdown (fun _ => rfl) (fun _ _ => rfl) path'
    | cons item rest =>
      -- a record with items has a field for them
      have hfields : options.childrenFields ≠ [] := Record.childrenFields_ne_nil hopen
      cases trees with
      | nil =>
        have hplaceholder : ∀ path field, ofItems options.recoverMalformed
            (ofLevels options levels) path field 0 [.obj []] = .ok ([], []) :=
          fun path field => ofItems_placeholder rfl
        exact readsAs_written hopen hdown (fun h => absurd h hfields) hplaceholder path'
      | cons t ts =>
        exact readsAs_written hopen hdown (fun h => absurd h hfields)
          (fun path field => ofItems_toJsonAll (t :: ts) hlower 0) path'

end RecordTree

/-- **Nothing is lost in decoding**, whatever the dump and the options: what is written of the
unit's tree is decoded without an error, to the same tree and the same registry. -/
theorem decode_encode {options : Options} {raw : Json} {u : TranslationUnit}
    (h : decode options raw = .ok u) :
    decode options (u.tree.encode options) = .ok { u with diagnostics := #[] } := by
  obtain ⟨tree, errors, hfound, rfl⟩ := decode_eq_ok_iff.mp h
  have hwritten : (tree.unit options.target errors).tree.encode options = tree.toJson options :=
    (tree.showsAll_unit options.target errors).encode_eq (tree.size_unit options.target errors)
  have hread := RecordTree.ofLevels_toJson (Nat.zero_add _) hfound []
  rw [hwritten]
  exact decode_eq_ok_iff.mpr ⟨tree, [], hread, rfl⟩

/-- A number for an id, children in the second field while the first is absent, a candidate for the
children that is an attribute, a list of a placeholder alone, and an item that is dropped. -/
theorem decode_encode_second_field :
    let options : Options := { Options.default with recoverMalformed := true }
    let raw : Json := .obj [("children", .arr [.null,
        .obj [("children", .int 3), ("id", .str "0x2"), ("inner", .arr [.obj []]),
          ("kind", .str "IfStmt")]]),
      ("id", .int 1), ("kind", .str "Unheard")]
    ∃ u, decode options raw = .ok u ∧ u.diagnostics.size = 1 ∧
      u.tree.encode options = .branch "1" "Unheard" [.obj [("children", .int 3),
        ("id", .str "0x2"), ("inner", .arr [.obj []]), ("kind", .str "IfStmt")]] ∧
      decode options (u.tree.encode options) = .ok { u with diagnostics := #[] } := by
  intro options raw
  have hwritten : (decode options raw).toOption.map (fun u =>
      (u.diagnostics.size, u.tree.encode options)) =
        some (1, .branch "1" "Unheard" [.obj [("children", .int 3), ("id", .str "0x2"),
          ("inner", .arr [.obj []]), ("kind", .str "IfStmt")]]) := by decide +kernel
  obtain ⟨u, hu, hwritten⟩ := exists_decode_of_map hwritten
  obtain ⟨hsize, hencode⟩ := Prod.mk.inj hwritten
  exact ⟨u, hu, hsize, hencode, decode_encode hu⟩

end AstDump
