import AstDump.Proofs.Masking
import AstDump.Proofs.Origin
import AstDump.Proofs.Units

/-!
# What is left of the items of a record

Placeholders are passed over and malformed items are dropped. Of what is left, each item has a tree,
and the trees below a record are those of its surviving items, one by one and in order. The values
that are kept of them stand where their trees are listed.

* `Json.survivors`                        : the items of a record that survive;
* `RecordTree.forall₂_ofItems`            : each of them has a tree;
* `RecordTree.Lists`                      : the values of a forest stand where it is listed;
* `RecordTree.StandsFor.below`            : so do the survivors of a record, right after it;
* `RecordTree.StandsFor.forall₂_childIds` : the children of a node stand for these survivors;
* `RecordTree.Occurs.standsFor`           : every subtree stands for a value.
-/

namespace AstDump

namespace Json

/-- The item survives decoding at a depth: it is no placeholder, and nothing is wrong with it. -/
def survives (options : Options) (depth : Nat) (item : Json) : Bool :=
  ¬ item.IsPlaceholder ∧ isMalformed options depth item = false

/-- The items of a record at a depth that survive decoding. -/
def survivors (options : Options) (depth : Nat) (v : Json) : List Json :=
  (v.childItems options).filter (survives options (depth + 1))

variable {options : Options} {depth levels : Nat} {item : Json}

theorem survives_iff : item.survives options depth = true ↔
    ¬ item.IsPlaceholder ∧ WellFormed options depth item := by
  rw [survives, decide_eq_true_iff, Bool.eq_false_iff, Ne, isMalformed_iff, not_not]

/-- What is kept of a list of items is what is kept of the survivors. -/
theorem keptItems_eq_flatMap (hdepth : depth + levels = options.maxDepth + 1) (items : List Json) :
    keptItems (kept options levels) items =
      (items.filter (survives options depth)).flatMap (kept options levels) := by
  induction items with
  | nil => rfl
  | cons item rest ih =>
    by_cases hitem : item.IsPlaceholder
    · have hnot : ¬ item.survives options depth = true := fun h => (survives_iff.mp h).1 hitem
      rw [keptItems_placeholder hitem, List.filter_cons_of_neg hnot, ih]
    rw [keptItems_held hitem, ih]
    rcases wellFormed_or_fault options [] depth item with hwf | ⟨e, hfault⟩
    · rw [List.filter_cons_of_pos (survives_iff.mpr ⟨hitem, hwf⟩), List.flatMap_cons]
    · have hnot : ¬ item.survives options depth = true := fun h =>
        hfault.not_wellFormed (survives_iff.mp h).2
      rw [List.filter_cons_of_neg hnot, kept_of_error (Record.openAt_of_fault hfault) hdepth,
        List.nil_append]

end Json

/-- The node at a position is of the kind that is named by the record at this position among the
values. -/
structure Tree.Presents (t : Tree) (values : List Json) (i : Nat) (v : Json) : Prop where
  value : values[i]? = some v
  kind : ∃ tag, v.member? "kind" = some (.str tag) ∧ t.kind? i = some (.ofTag tag)

namespace RecordTree

/-- The value has this tree where so many levels are left. -/
def HasTree (options : Options) (levels : Nat) (v : Json) (s : RecordTree) : Prop :=
  ∃ path errors, ofLevels options levels path v = .ok (s, errors)

variable {options : Options} {depth levels : Nat} {v : Json} {s : RecordTree}

/-- **The trees of a list of items are those of the survivors**, one by one. -/
theorem forall₂_ofItems {path : Path} {field : String}
    (hdepth : depth + levels = options.maxDepth + 1) (items : List Json) : ∀ position found,
      ofItems options.recoverMalformed (ofLevels options levels) path field position items =
        .ok found →
      List.Forall₂ (HasTree options levels) (items.filter (Json.survives options depth))
        found.1 := by
  induction items with
  | nil =>
    intro position found h
    cases h
    exact .nil
  | cons item rest ih =>
    intro position found h
    rcases ofItems_cons_cases h with
      ⟨hitem, hrest⟩ | ⟨more, hitem, hmore, ⟨tree, errors, htree, rfl⟩ | ⟨e, hrecover, htree, rfl⟩⟩
    · rw [List.filter_cons_of_neg fun hs => (Json.survives_iff.mp hs).1 hitem]
      exact ih _ _ hrest
    · have hwf := wellFormed_of_ofLevels htree hdepth
      rw [List.filter_cons_of_pos (Json.survives_iff.mpr ⟨hitem, hwf⟩)]
      exact .cons ⟨_, errors, htree⟩ (ih _ _ hmore)
    · -- only a recovering decoder goes on after an error, and what it drops is malformed
      rw [← Options.recovering_eq hrecover] at htree
      have hfault := fault_of_ofLevels htree hdepth
      rw [List.filter_cons_of_neg fun hs => hfault.not_wellFormed (Json.survives_iff.mp hs).2]
      exact ih _ more hmore

/-- A value that has a tree is a record of the same kind, and the trees below it are those of its
survivors. -/
theorem HasTree.record (h : HasTree options levels v s)
    (hdepth : depth + levels = options.maxDepth + 1) :
    ∃ lower tag, levels = lower + 1 ∧ v.member? "kind" = some (.str tag) ∧
      (∀ p d i, (s.top p d i).kind = .ofTag tag) ∧
      List.Forall₂ (HasTree options lower) (v.survivors options depth) s.children ∧
      v.kept options levels =
        v :: (v.survivors options depth).flatMap (Json.kept options lower) := by
  obtain ⟨path, errors, htree⟩ := h
  obtain ⟨r, items, lower, trees, rfl, hopen, hitems, hs⟩ := exists_openAt_of_ofLevels htree hdepth
  have hbelow : depth + 1 + lower = options.maxDepth + 1 := by omega
  have hsurvivors : v.survivors options depth =
      items.filter (Json.survives options (depth + 1)) := by
    rw [Json.survivors, Record.childItems_of_openAt hopen]
  have hchildren : s.children = trees := by
    rw [show s = _ from hs, children_ofRecord options r (trees_nil hitems)]
  have hkept := Json.kept_of_ok hopen (show depth + lower = options.maxDepth by omega)
  obtain ⟨-, rfl, -, ⟨tag, htag, hkind⟩, -⟩ := Record.openAt_eq_ok_iff.mp hopen
  obtain ⟨w, hw, hwtag⟩ := Option.bind_eq_some_iff.mp htag
  obtain ⟨rfl, -⟩ := Json.eq_str_of_kindTag? hwtag
  refine ⟨lower, tag, rfl, hw, fun p d i => ?_, ?_, ?_⟩
  · rw [show s = _ from hs, top_ofRecord, hkind]
  · rw [hsurvivors, hchildren]
    exact forall₂_ofItems hbelow items 0 _ hitems
  · rw [hkept, hsurvivors, Json.keptItems_eq_flatMap hbelow]

theorem length_flatMap_of_forall₂ {f : Json → List Json} {vs : List Json} {ts : List RecordTree}
    (h : List.Forall₂ (fun v s => (f v).length = s.size) vs ts) :
    (vs.flatMap f).length = sizeAll ts := by
  induction h with
  | nil => rfl
  | cons hv _ ih => rw [List.flatMap_cons, List.length_append, hv, ih, sizeAll]

/-- As many values are kept of a value as its tree has nodes. -/
theorem HasTree.length_kept (h : HasTree options levels v s)
    (hdepth : depth + levels = options.maxDepth + 1) :
    (v.kept options levels).length = s.size := by
  induction levels generalizing depth v s with
  | zero =>
    obtain ⟨path, errors, htree⟩ := h
    cases htree
  | succ levels ih =>
    obtain ⟨lower, -, hlevels, -, -, htrees, hkept⟩ := h.record hdepth
    obtain rfl : levels = lower := by omega
    have hbelow := htrees.imp fun item tree htree =>
      ih htree (show depth + 1 + levels = options.maxDepth + 1 by omega)
    rw [hkept, List.length_cons, length_flatMap_of_forall₂ hbelow, size_eq]

/-! ## Where the values stand -/

/-- In a list of values, what is kept of a value at a depth stands from position `i` on, and the
value has the tree `s`. -/
def StandsFor (options : Options) (values : List Json) (depth i : Nat) (v : Json)
    (s : RecordTree) : Prop :=
  ∃ levels, depth + levels = options.maxDepth + 1 ∧ HasTree options levels v s ∧
    ListedAt values i (v.kept options levels)

/-- The values have the trees of a forest, and what is kept of them stands where the forest is
listed. -/
inductive Lists (options : Options) (values : List Json) (depth : Nat) :
    (first : Nat) → List Json → List RecordTree → Prop
  | nil {first : Nat} : Lists options values depth first [] []
  | cons {first : Nat} {v : Json} {vs : List Json} {s : RecordTree} {ts : List RecordTree}
      (head : StandsFor options values depth first v s)
      (tail : Lists options values depth (first + s.size) vs ts) :
      Lists options values depth first (v :: vs) (s :: ts)

section Lists

variable {values : List Json} {i : Nat}

theorem lists_of_forall₂ (hdepth : depth + levels = options.maxDepth + 1) {vs : List Json}
    {ts : List RecordTree} (h : List.Forall₂ (HasTree options levels) vs ts) : ∀ {first : Nat},
      ListedAt values first (vs.flatMap (Json.kept options levels)) →
      Lists options values depth first vs ts := by
  induction h with
  | nil => intro first _; exact .nil
  | cons hv _ ih =>
    intro first hlisted
    obtain ⟨hhere, hafter⟩ := hlisted.append
    -- as much is kept of the first value as its tree takes up, so the rest stands where it should
    rw [hv.length_kept hdepth] at hafter
    exact .cons ⟨levels, hdepth, hv, hhere⟩ (ih hafter)

/-- **After a record stand its survivors.** -/
theorem StandsFor.below (h : StandsFor options values depth i v s) :
    Lists options values (depth + 1) (i + 1) (v.survivors options depth) s.children := by
  obtain ⟨levels, hdepth, htree, hlisted⟩ := h
  obtain ⟨lower, -, rfl, -, -, htrees, hkept⟩ := htree.record hdepth
  rw [hkept] at hlisted
  exact lists_of_forall₂ (by omega) htrees hlisted.cons.2

theorem StandsFor.getElem? (h : StandsFor options values depth i v s) : values[i]? = some v := by
  obtain ⟨levels, hdepth, htree, hlisted⟩ := h
  obtain ⟨lower, tag, -, -, -, -, hkept⟩ := htree.record hdepth
  rw [hkept] at hlisted
  exact hlisted.cons.1

theorem StandsFor.presents {t : Tree} {p : Option NodeId} {d : Nat}
    (h : StandsFor options values depth i v s) (hshows : t.Shows p d i s) :
    t.Presents values i v := by
  have hvalue := h.getElem?
  obtain ⟨levels, hdepth, htree, -⟩ := h
  obtain ⟨lower, tag, -, htag, hkind, -⟩ := htree.record hdepth
  refine ⟨hvalue, tag, htag, ?_⟩
  rw [Tree.kind?_eq, hshows.top, Option.map_some, hkind]

/-- The tops of a forest stand for the values. -/
theorem Lists.forall₂_tops {t : Tree} {p : Option NodeId} {d first : Nat} {vs : List Json}
    {ts : List RecordTree} (h : Lists options values depth first vs ts)
    (hshows : t.ShowsAll p d first ts) :
    List.Forall₂ (t.Presents values) (tops first ts) vs := by
  induction h with
  | nil => exact .nil
  | cons head tail ih =>
    obtain ⟨hs, hts⟩ := hshows.cons
    exact .cons (head.presents hs) (ih hts)

/-- **The children of a node stand for the survivors of its record.** -/
theorem StandsFor.forall₂_childIds {t : Tree} {p : Option NodeId} {d : Nat}
    (h : StandsFor options values depth i v s) (hshows : t.Shows p d i s) :
    List.Forall₂ (t.Presents values) (t.childIds i).toList (v.survivors options depth) := by
  rw [hshows.childIds]
  exact h.below.forall₂_tops hshows.below

/-- **At the position of every subtree stands the value that it is the tree of.** -/
theorem Occurs.standsFor {parent p : Option NodeId} {first d : Nat} {ts : List RecordTree}
    (h : Occurs parent depth first ts p d i s) : ∀ {vs : List Json},
      Lists options values depth first vs ts → ∃ v, StandsFor options values d i v s := by
  induction h with
  | here =>
    intro vs hlists
    cases hlists with
    | cons head tail => exact ⟨_, head⟩
  | inside _ ih =>
    intro vs hlists
    cases hlists with
    | cons head tail => exact ih head.below
  | after _ ih =>
    intro vs hlists
    cases hlists with
    | cons head tail => exact ih tail

end Lists

/-- The values that are kept of a dump, in document order, are those of all subtrees. -/
theorem standsFor_kept {raw : Json} {tree : RecordTree} {errors : List DecodeError}
    {p : Option NodeId} {d i : Nat} (h : ofJson options raw = .ok (tree, errors))
    (hocc : Occurs none 0 0 [tree] p d i s) :
    ∃ v, StandsFor options (raw.kept options (options.maxDepth + 1)) d i v s := by
  have hroot : StandsFor options (raw.kept options (options.maxDepth + 1)) 0 0 raw tree :=
    ⟨options.maxDepth + 1, Nat.zero_add _, ⟨[], errors, h⟩, List.prefix_rfl⟩
  exact hocc.standsFor (.cons hroot .nil)

end RecordTree

end AstDump
