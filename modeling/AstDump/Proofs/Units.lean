import AstDump.Proofs.Walk

/-!
# Decoded units

A decoded unit is the unit of the record tree of its dump, so its tree of nodes lists that record
tree. A view is worked out when the items of its node are done, while the nodes above have no
children yet and the nodes after it are not there; it is the view that the finished tree gives.

* `RecordTree.showsAll_unit`                : the tree of a unit lists the record tree;
* `decode_eq_ok_iff`, `decode_eq_error_iff` : decoding by way of the record tree;
* `decode_view`                             : the views of a decoded unit.
-/

namespace AstDump

namespace RecordTree

variable (target : Target) (tree : RecordTree) (errors : List DecodeError)

theorem tree_unit :
    (tree.unit target errors).tree = (Tree.empty target).addForest none 0 [tree] := by
  rw [Tree.addForest, nodesAll_singleton]
  rfl

theorem plainNodes_unit : (tree.unit target errors).tree.plainNodes = tree.nodes none 0 0 := by
  rw [tree_unit, Tree.plainNodes_addForest, nodesAll_singleton]
  rfl

@[simp] theorem size_unit : (tree.unit target errors).tree.size = tree.size := by
  rw [← Tree.length_plainNodes, plainNodes_unit, length_nodes]

/-- **The tree of a unit lists the record tree**, from the root on. -/
theorem showsAll_unit : (tree.unit target errors).tree.ShowsAll none 0 0 [tree] := by
  rw [tree_unit]
  exact Tree.showsAll_of_plainNodes rfl

/-- The views of a unit were worked out on a tree that lists the record tree as well. -/
theorem view_unit {i : Nat} {n : Node} (hn : (tree.unit target errors).tree.node? i = some n) :
    n.view = (tree.unit target errors).tree.buildView i := by
  have hshows := tree.showsAll_unit target errors
  rw [tree_unit] at hn
  exact Tree.view_addForest (t := Tree.empty target) hshows (Nat.zero_le i) hn

end RecordTree

theorem decode_eq_ok_iff {options : Options} {raw : Json} {u : TranslationUnit} :
    decode options raw = .ok u ↔ ∃ tree errors,
      RecordTree.ofJson options raw = .ok (tree, errors) ∧ u = tree.unit options.target errors := by
  rw [decode_eq_recursion, decodeByRecursion]
  cases RecordTree.ofJson options raw with
  | error e => simp [Except.map]
  | ok found =>
    constructor
    · intro h
      cases h
      exact ⟨found.1, found.2, rfl, rfl⟩
    · rintro ⟨tree, errors, hfound, rfl⟩
      cases hfound
      rfl

theorem decode_eq_error_iff {options : Options} {raw : Json} {e : DecodeError} :
    decode options raw = .error e ↔ RecordTree.ofJson options raw = .error e := by
  rw [decode_eq_recursion, decodeByRecursion]
  cases RecordTree.ofJson options raw with
  | error e' => simp [Except.map]
  | ok found => simp [Except.map]

/-- Whatever is worked out from the unit of a dump, there is a unit that gives it. -/
theorem exists_decode_of_map {α : Type} {options : Options} {raw : Json} {f : TranslationUnit → α}
    {value : α} (h : (decode options raw).toOption.map f = some value) :
    ∃ u, decode options raw = .ok u ∧ f u = value := by
  cases hu : decode options raw with
  | error e =>
    rw [hu] at h
    cases h
  | ok u =>
    rw [hu] at h
    exact ⟨u, rfl, Option.some.inj h⟩

/-- **The view that a node holds is the view that the finished tree gives it**, whatever the dump
and the options. -/
theorem decode_view {options : Options} {raw : Json} {u : TranslationUnit} {i : Nat} {n : Node}
    (h : decode options raw = .ok u) (hn : u.tree.node? i = some n) :
    n.view = u.tree.buildView i := by
  obtain ⟨tree, errors, -, rfl⟩ := decode_eq_ok_iff.mp h
  exact tree.view_unit options.target errors hn

/-- The compound statement lists its loop and the variable declared after it. -/
theorem decode_view_compound :
    let raw : Json := .branch "0x1" "CompoundStmt" [.leaf "0x2" "WhileStmt",
      .branch "0x3" "DeclStmt" [.leaf "0x4" "VarDecl"]]
    ∃ u n, decode Options.default raw = .ok u ∧ u.tree.node? 0 = some n ∧
      n.view = u.tree.buildView 0 := by
  intro raw
  exact ⟨_, _, rfl, rfl, @decode_view Options.default raw _ 0 _ rfl rfl⟩

end AstDump
