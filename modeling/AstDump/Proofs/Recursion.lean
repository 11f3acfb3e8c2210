import AstDump.Proofs.Forest
import AstDump.Proofs.Records

/-!
# The recursion over a dump

What the record tree of a value is, case by case: of the items of a list, one after the other, and
of a value, by the checks on it.

* `RecordTree.ofItems_tree`, `RecordTree.ofItems_drop`, `RecordTree.ofItems_fail` : an item more;
* `RecordTree.ofItems_cons_cases` : what the trees of a list come from;
* `RecordTree.ofLevels_of_ok`, `RecordTree.ofLevels_of_error` : a value that passes the checks, and
  one that does not;
* `RecordTree.ofLevels_strict` : decoding that stops at the first error is decoding that goes on,
  cut off at the first error.
-/

namespace AstDump

/-- The options with recovery on. -/
def Options.recovering (options : Options) : Options := { options with recoverMalformed := true }

/-- The options with recovery off. -/
def Options.strict (options : Options) : Options := { options with recoverMalformed := false }

theorem Options.recovering_eq {options : Options} (h : options.recoverMalformed = true) :
    options.recovering = options := by
  rw [recovering, ← h]

namespace RecordTree

/-! ## Items -/

section Items

variable {recover : Bool}
  {ofItem : Path → Json → Except DecodeError (RecordTree × List DecodeError)}
  {path : Path} {field : String} {position : Nat} {item : Json} {rest : List Json}

theorem ofItems_placeholder (h : item.IsPlaceholder) :
    ofItems recover ofItem path field position (item :: rest) =
      ofItems recover ofItem path field (position + 1) rest := by
  rw [ofItems, if_pos h]

theorem ofItems_tree {tree : RecordTree} {errors : List DecodeError} (h : ¬ item.IsPlaceholder)
    (hitem : ofItem (path ++ [.item field position]) item = .ok (tree, errors)) :
    ofItems recover ofItem path field position (item :: rest) =
      (ofItems recover ofItem path field (position + 1) rest).map fun found =>
        (tree :: found.1, errors ++ found.2) := by
  rw [ofItems, if_neg h, hitem]
  cases ofItems recover ofItem path field (position + 1) rest <;> rfl

theorem ofItems_drop {e : DecodeError} (hrecover : recover = true) (h : ¬ item.IsPlaceholder)
    (hitem : ofItem (path ++ [.item field position]) item = .error e) :
    ofItems recover ofItem path field position (item :: rest) =
      (ofItems recover ofItem path field (position + 1) rest).map fun found =>
        (found.1, e :: found.2) := by
  rw [ofItems, if_neg h, hitem]
  simp only [if_pos hrecover]
  cases ofItems recover ofItem path field (position + 1) rest <;> rfl

theorem ofItems_fail {e : DecodeError} (hstrict : recover = false) (h : ¬ item.IsPlaceholder)
    (hitem : ofItem (path ++ [.item field position]) item = .error e) :
    ofItems recover ofItem path field position (item :: rest) = .error e := by
  rw [ofItems, if_neg h, hitem]
  simp [hstrict]

/-- What the trees of a list come from: its first item is passed over, has a tree, or is dropped. -/
theorem ofItems_cons_cases {found : List RecordTree × List DecodeError}
    (h : ofItems recover ofItem path field position (item :: rest) = .ok found) :
    (item.IsPlaceholder ∧ ofItems recover ofItem path field (position + 1) rest = .ok found) ∨
    ∃ more, ¬ item.IsPlaceholder ∧
      ofItems recover ofItem path field (position + 1) rest = .ok more ∧
      ((∃ tree errors, ofItem (path ++ [.item field position]) item = .ok (tree, errors) ∧
          found = (tree :: more.1, errors ++ more.2)) ∨
        ∃ e, recover = true ∧ ofItem (path ++ [.item field position]) item = .error e ∧
          found = (more.1, e :: more.2)) := by
  by_cases hitem : item.IsPlaceholder
  · rw [ofItems_placeholder hitem] at h
    exact .inl ⟨hitem, h⟩
  cases hmore : ofItems recover ofItem path field (position + 1) rest with
  | error e =>
    cases htree : ofItem (path ++ [.item field position]) item with
    | ok result => rw [ofItems_tree hitem htree, hmore] at h; cases h
    | error e' =>
      cases recover with
      | false => rw [ofItems_fail rfl hitem htree] at h; cases h
      | true => rw [ofItems_drop rfl hitem htree, hmore] at h; cases h
  | ok more =>
    refine .inr ⟨more, hitem, rfl, ?_⟩
    cases htree : ofItem (path ++ [.item field position]) item with
    | ok result =>
      rw [ofItems_tree hitem htree, hmore] at h
      cases h
      exact .inl ⟨result.1, result.2, rfl, rfl⟩
    | error e =>
      cases recover with
      | false => rw [ofItems_fail rfl hitem htree] at h; cases h
      | true =>
        rw [ofItems_drop rfl hitem htree, hmore] at h
        cases h
        exact .inr ⟨e, rfl, rfl, rfl⟩

/-- A list without items has no trees. -/
theorem trees_nil {found : List RecordTree × List DecodeError} {items : List Json}
    (h : ofItems recover ofItem path field position items = .ok found) (hitems : items = []) :
    found.1 = [] := by
  subst hitems
  cases h
  rfl

end Items

/-- While malformed items are dropped, a list of items never fails. -/
theorem exists_ofItems_of_recover
    (ofItem : Path → Json → Except DecodeError (RecordTree × List DecodeError)) (path : Path)
    (field : String) (items : List Json) :
    ∀ position, ∃ found, ofItems true ofItem path field position items = .ok found := by
  induction items with
  | nil => intro position; exact ⟨_, rfl⟩
  | cons item rest ih =>
    intro position
    obtain ⟨found, hfound⟩ := ih (position + 1)
    by_cases hitem : item.IsPlaceholder
    · exact ⟨found, by rw [ofItems_placeholder hitem, hfound]⟩
    · cases htree : ofItem (path ++ [.item field position]) item with
      | ok result => exact ⟨_, by rw [ofItems_tree hitem htree, hfound]; rfl⟩
      | error e => exact ⟨_, by rw [ofItems_drop rfl hitem htree, hfound]; rfl⟩

/-! ## Values -/

section Levels

variable {options : Options} {path : Path} {depth levels : Nat} {raw : Json}

theorem ofLevels_of_error {e : DecodeError} (h : Record.openAt options path depth raw = .error e)
    (hdepth : depth + levels = options.maxDepth + 1) :
    ofLevels options levels path raw = .error e := by
  cases levels with
  | zero =>
    have hdeep : options.maxDepth < depth := by omega
    simp only [Record.openAt, Record.read, if_pos hdeep] at h
    cases h
    rfl
  | succ levels =>
    have heq : options.maxDepth - levels = depth := by omega
    rw [ofLevels, heq]
    rcases Record.openAt_error_cases h with hread | ⟨r, hread, hitems, rfl⟩
    · rw [hread]
      rfl
    · rw [hread]
      simp [bind, Except.bind, hitems]

theorem ofLevels_of_ok {r : Record} {items : List Json}
    (h : Record.openAt options path depth raw = .ok (r, items))
    (hdepth : depth + levels = options.maxDepth) :
    ofLevels options (levels + 1) path raw =
      (ofItems options.recoverMalformed (ofLevels options levels) (path ++ [.node r.kind r.rawId])
        (r.childrenField options) 0 items).map fun found =>
          (ofRecord options r items found.1, found.2) := by
  have heq : options.maxDepth - levels = depth := by omega
  obtain ⟨hread, hitems⟩ := Record.openAt_ok_cases h
  rw [ofLevels, heq, hread]
  simp only [bind, Except.bind, hitems]
  cases ofItems options.recoverMalformed (ofLevels options levels)
    (path ++ [.node r.kind r.rawId]) (r.childrenField options) 0 items <;> rfl

/-- While malformed items are dropped, a record has a tree. -/
theorem exists_ofLevels_of_recover {r : Record} {items : List Json}
    (hrecover : options.recoverMalformed = true)
    (h : Record.openAt options path depth raw = .ok (r, items))
    (hdepth : depth + levels = options.maxDepth) :
    ∃ found, ofLevels options (levels + 1) path raw = .ok found := by
  obtain ⟨found, hfound⟩ := exists_ofItems_of_recover (ofLevels options levels)
    (path ++ [.node r.kind r.rawId]) (r.childrenField options) items 0
  rw [ofLevels_of_ok h hdepth, hrecover, hfound]
  exact ⟨_, rfl⟩

/-- A value that has a tree passes the checks, and its items have trees by the levels below. -/
theorem exists_openAt_of_ofLevels {found : RecordTree × List DecodeError}
    (h : ofLevels options levels path raw = .ok found)
    (hdepth : depth + levels = options.maxDepth + 1) :
    ∃ r items lower trees, levels = lower + 1 ∧
      Record.openAt options path depth raw = .ok (r, items) ∧
      ofItems options.recoverMalformed (ofLevels options lower) (path ++ [.node r.kind r.rawId])
        (r.childrenField options) 0 items = .ok (trees, found.2) ∧
      found.1 = ofRecord options r items trees := by
  cases hopen : Record.openAt options path depth raw with
  | error e =>
    rw [ofLevels_of_error hopen hdepth] at h
    cases h
  | ok entered =>
    obtain ⟨r, items⟩ := entered
    have hwithin : depth ≤ options.maxDepth := (Record.openAt_eq_ok_iff.mp hopen).1
    obtain ⟨lower, rfl⟩ : ∃ lower, levels = lower + 1 := ⟨levels - 1, by omega⟩
    rw [ofLevels_of_ok hopen (show depth + lower = _ by omega)] at h
    cases hitems : ofItems options.recoverMalformed (ofLevels options lower)
        (path ++ [.node r.kind r.rawId]) (r.childrenField options) 0 items with
    | error e => rw [hitems] at h; cases h
    | ok inner =>
      rw [hitems] at h
      cases h
      exact ⟨r, items, lower, inner.1, rfl, rfl, hitems, rfl⟩

/-- A value that has a tree is a record. -/
theorem wellFormed_of_ofLevels {found : RecordTree × List DecodeError}
    (h : ofLevels options levels path raw = .ok found)
    (hdepth : depth + levels = options.maxDepth + 1) : WellFormed options depth raw := by
  obtain ⟨r, items, lower, trees, -, hopen, -⟩ := exists_openAt_of_ofLevels h hdepth
  exact Record.wellFormed_of_openAt hopen

/-- While malformed items are dropped, a value without a tree has a fault of its own. -/
theorem fault_of_ofLevels {e : DecodeError}
    (h : ofLevels options.recovering levels path raw = .error e)
    (hdepth : depth + levels = options.maxDepth + 1) : Fault options path depth raw e := by
  refine Record.openAt_eq_error_iff.mp ?_
  show Record.openAt options.recovering path depth raw = .error e
  cases hopen : Record.openAt options.recovering path depth raw with
  | error e' =>
    rw [ofLevels_of_error hopen hdepth] at h
    cases h
    rfl
  | ok entered =>
    obtain ⟨r, items⟩ := entered
    have hwithin : depth ≤ options.maxDepth := (Record.openAt_eq_ok_iff.mp hopen).1
    obtain ⟨lower, rfl⟩ : ∃ lower, levels = lower + 1 := ⟨levels - 1, by omega⟩
    have hdown : depth + lower = options.maxDepth := by omega
    obtain ⟨found, hok⟩ := exists_ofLevels_of_recover rfl hopen hdown
    rw [hok] at h
    cases h

end Levels

/-! ## The tree of a record -/

theorem children_ofRecord (options : Options) (r : Record) {items : List Json}
    {trees : List RecordTree} (h : items = [] → trees = []) :
    (ofRecord options r items trees).children = trees := by
  unfold ofRecord
  cases items with
  | nil => rw [h rfl]; rfl
  | cons item rest => rfl

theorem top_ofRecord (options : Options) (r : Record) (items : List Json) (trees : List RecordTree)
    (p : Option NodeId) (d first : Nat) :
    (ofRecord options r items trees).top p d first = {
      rawId := r.rawId
      kind := r.kind
      attrs := r.attrs options
      children := if items.isEmpty then none else some (tops (first + 1) trees).toArray
      parent := p
      depth := d
      view := .plain } := by
  unfold ofRecord
  split <;> rfl

/-! ## Stopping at the first error -/

/-- What is left of a result when its first error is fatal. -/
def stopAtFirst {α : Type} :
    Except DecodeError (α × List DecodeError) → Except DecodeError (α × List DecodeError)
  | .ok (a, []) => .ok (a, [])
  | .ok (_, e :: _) => .error e
  | .error e => .error e

section StopAtFirst

variable {α : Type} {result : Except DecodeError (α × List DecodeError)}

theorem stopAtFirst_eq_ok_iff {found : α × List DecodeError} :
    stopAtFirst result = .ok found ↔ result = .ok found ∧ found.2 = [] := by
  obtain ⟨a, errors⟩ := found
  rcases result with e | ⟨b, _ | ⟨e, more⟩⟩
  · simp [stopAtFirst]
  · simp only [stopAtFirst, Except.ok.injEq, Prod.mk.injEq]
    exact ⟨fun h => ⟨h, h.2.symm⟩, And.left⟩
  · simp only [stopAtFirst, Except.ok.injEq, Prod.mk.injEq, false_iff, reduceCtorEq]
    rintro ⟨⟨-, rfl⟩, h⟩
    cases h

theorem stopAtFirst_eq_error_iff {e : DecodeError} :
    stopAtFirst result = .error e ↔
      result = .error e ∨ ∃ a errors, result = .ok (a, e :: errors) := by
  rcases result with e | ⟨b, _ | ⟨e, more⟩⟩ <;> simp [stopAtFirst]

end StopAtFirst

theorem ofItems_strict
    {strict lenient : Path → Json → Except DecodeError (RecordTree × List DecodeError)}
    (h : ∀ path item, strict path item = stopAtFirst (lenient path item)) (path : Path)
    (field : String) (items : List Json) : ∀ position,
      ofItems false strict path field position items =
        stopAtFirst (ofItems true lenient path field position items) := by
  induction items with
  | nil => intro position; rfl
  | cons item rest ih =>
    intro position
    by_cases hitem : item.IsPlaceholder
    · rw [ofItems_placeholder hitem, ofItems_placeholder hitem, ih]
    have hstrict := h (path ++ [.item field position]) item
    obtain ⟨found, hfound⟩ := exists_ofItems_of_recover lenient path field rest (position + 1)
    cases hlenient : lenient (path ++ [.item field position]) item with
    | error e =>
      rw [hlenient] at hstrict
      rw [ofItems_fail rfl hitem hstrict, ofItems_drop rfl hitem hlenient, hfound]
      rfl
    | ok result =>
      obtain ⟨tree, errors⟩ := result
      rw [hlenient] at hstrict
      rw [ofItems_tree hitem hlenient, hfound]
      cases errors with
      | nil =>
        rw [ofItems_tree hitem hstrict, ih, hfound]
        obtain ⟨trees, more⟩ := found
        cases more <;> rfl
      | cons e errors =>
        rw [ofItems_fail rfl hitem hstrict]
        rfl

/-- **Decoding that stops at the first error is decoding that goes on, cut off at the first
error.** -/
theorem ofLevels_strict {options : Options} (hstrict : options.recoverMalformed = false)
    {levels depth : Nat} (path : Path) (raw : Json)
    (hdepth : depth + levels = options.maxDepth + 1) :
    ofLevels options levels path raw =
      stopAtFirst (ofLevels options.recovering levels path raw) := by
  induction levels generalizing depth path raw with
  | zero => rfl
  | succ levels ih =>
    have hdown : depth + levels = options.maxDepth := by omega
    cases hopen : Record.openAt options path depth raw with
    | error e =>
      have hopen' : Record.openAt options.recovering path depth raw = .error e := hopen
      rw [ofLevels_of_error hopen hdepth, ofLevels_of_error hopen' hdepth]
      rfl
    | ok entered =>
      obtain ⟨r, items⟩ := entered
      have hopen' : Record.openAt options.recovering path depth raw = .ok (r, items) := hopen
      have hbelow : depth + 1 + levels = options.maxDepth + 1 := by omega
      have hitems := ofItems_strict (fun path item => ih path item hbelow)
        (path ++ [.node r.kind r.rawId]) (r.childrenField options) items 0
      obtain ⟨found, hfound⟩ := exists_ofItems_of_recover (ofLevels options.recovering levels)
        (path ++ [.node r.kind r.rawId]) (r.childrenField options) items 0
      rw [hfound] at hitems
      rw [ofLevels_of_ok hopen hdown, ofLevels_of_ok hopen' hdown, hstrict, hitems]
      show _ = stopAtFirst ((ofItems true _ _ (r.childrenField options) 0 items).map _)
      rw [hfound]
      obtain ⟨trees, errors⟩ := found
      cases errors <;> rfl

end RecordTree

end AstDump
