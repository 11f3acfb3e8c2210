import AstDump.Proofs.Preorder

/-!
# Outlines

An outline is written by recursion on the tree, with a counter for the indentation. It comes out as
one pass over the nodes in document order, where the depth that a node holds tells how far its line
is indented.

* `Tree.ShowsAll.outlineLines` : the lines of a forest are those of its listing;
* `Tree.Shows.nodes_extract`   : the nodes of a subtree are a slice of all nodes;
* `decode_outline`             : the outline of a node is that of the slice.
-/

namespace AstDump

namespace Tree

variable {t : Tree}

/-- The line of a node in the outline of a subtree whose top lies at depth `base`. -/
def lineFrom (base : Nat) (n : Node) : String := outlineLine (n.depth - base) n

/-- The lines of a subtree: that of its top, then those of the subtrees below it, one level further
in. -/
theorem Shows.outlineLines_succ {p : Option NodeId} {d i : Nat} {s : RecordTree}
    (h : t.Shows p d i s) (levels indent : Nat) :
    t.outlineLines (levels + 1) indent i = outlineLine indent (s.top p d i) ::
      (RecordTree.tops (i + 1) s.children).flatMap (t.outlineLines levels (indent + 1)) := by
  have htop := h.top
  rw [getElem?_plainNodes] at htop
  obtain ⟨n, hn, hplain⟩ := Option.map_eq_some_iff.mp htop
  have hchildren : n.childIds.toList = RecordTree.tops (i + 1) s.children := by
    have hids := RecordTree.top_childIds p d i s
    rw [← hplain] at hids
    exact congrArg Array.toList hids
  rw [Tree.outlineLines, hn, ← hplain, ← hchildren]
  rfl

/-- **The lines of a forest are those of its listing**, one for each node in document order. The
counter for the indentation is how far a node lies below the depth `base`. -/
theorem ShowsAll.outlineLines {base : Nat} (ts : List RecordTree) :
    ∀ (p : Option NodeId) (first indent levels : Nat), t.ShowsAll p (base + indent) first ts →
      RecordTree.sizeAll ts ≤ levels →
      (RecordTree.tops first ts).flatMap (t.outlineLines levels indent) =
        (RecordTree.nodesAll p (base + indent) first ts).map (lineFrom base) := by
  induction ts using RecordTree.forest_induction with
  | nil => intro p first indent levels _ _; rfl
  | cons s ts below beside =>
    intro p first indent levels h hlevels
    obtain ⟨hs, hts⟩ := h.cons
    have hsize := s.size_eq
    rw [RecordTree.sizeAll] at hlevels
    obtain ⟨levels, rfl⟩ : ∃ lower, levels = lower + 1 := ⟨levels - 1, by omega⟩
    have hline : lineFrom base (s.top p (base + indent) first) =
        outlineLine indent (s.top p (base + indent) first) := by
      rw [lineFrom, RecordTree.top_depth, Nat.add_sub_cancel_left]
    have hbelow := below (some first) (first + 1) (indent + 1) levels hs.below (by omega)
    have hbeside := beside p (first + s.size) indent (levels + 1) hts (by omega)
    rw [RecordTree.tops_cons, List.flatMap_cons, hs.outlineLines_succ, hbelow, hbeside,
      RecordTree.nodesAll, RecordTree.nodes_eq, List.map_append, List.map_cons, hline]
    rfl

namespace Shows

variable {p : Option NodeId} {d i : Nat} {s : RecordTree}

theorem outlineLines (h : t.Shows p d i s) {levels : Nat} (hlevels : s.size ≤ levels) :
    t.outlineLines levels 0 i = (s.nodes p d i).map (lineFrom d) := by
  have hone : RecordTree.sizeAll [s] ≤ levels := by simpa [RecordTree.sizeAll] using hlevels
  have hlines := ShowsAll.outlineLines [s] p i 0 levels h.all hone
  rw [RecordTree.nodesAll_singleton] at hlines
  simpa [RecordTree.tops] using hlines

/-- **The nodes of a subtree are a slice of all nodes**, views aside. -/
theorem nodes_extract (h : t.Shows p d i s) :
    (t.nodes.extract i (i + t.subtreeSize i)).toList.map Node.plain = s.nodes p d i := by
  have htake := List.prefix_iff_eq_take.mp h
  rw [RecordTree.length_nodes] at htake
  rw [htake, h.subtreeSize, plainNodes]
  simp

/-- An outline is the lines of a slice of the nodes. -/
theorem outlineLines_eq_extract (h : t.Shows p d i s) {levels : Nat} (hlevels : s.size ≤ levels) :
    t.outlineLines levels 0 i =
      (t.nodes.extract i (i + t.subtreeSize i)).toList.map (lineFrom d) := by
  rw [h.outlineLines hlevels, ← h.nodes_extract, List.map_map]
  rfl

theorem depth_le_of_mem_extract (h : t.Shows p d i s) {n : Node}
    (hn : n ∈ t.nodes.extract i (i + t.subtreeSize i)) : d ≤ n.depth := by
  have hplain := List.mem_map_of_mem (f := Node.plain) (Array.mem_toList_iff.mpr hn)
  rw [h.nodes_extract, ← RecordTree.nodesAll_singleton] at hplain
  have hle : d ≤ n.plain.depth := RecordTree.depth_le_of_mem_nodesAll [s] hplain
  exact hle

end Shows

end Tree

/-- **The outline of a node, line by line**, whatever the dump and the options: for every node of
the slice that its subtree takes up, in order, a tab for each level below the node, the id, a space,
the tag of the kind and a newline. The bound on the levels is never reached. -/
theorem decode_outline {options : Options} {raw : Json} {u : TranslationUnit} {i : Nat} {n : Node}
    (h : decode options raw = .ok u) (hn : u.tree.node? i = some n) :
    u.tree.outline i =
      String.join ((u.tree.nodes.extract i (i + u.tree.subtreeSize i)).toList.map fun m =>
        String.ofList (List.replicate (m.depth - n.depth) '\t') ++ m.rawId ++ " " ++ m.kind.tag ++
          "\n") ∧
    i + u.tree.subtreeSize i ≤ u.tree.size ∧
    (∀ m ∈ u.tree.nodes.extract i (i + u.tree.subtreeSize i), n.depth ≤ m.depth) ∧
    ∀ levels, u.tree.subtreeSize i ≤ levels →
      String.join (u.tree.outlineLines levels 0 i) = u.tree.outline i := by
  obtain ⟨tree, errors, -, rfl⟩ := decode_eq_ok_iff.mp h
  obtain ⟨p, d, s, -, hs, -, rfl, -⟩ := (tree.showsAll_unit options.target errors).node
    (tree.size_unit options.target errors) hn
  have hle := hs.add_size_le
  have hbound : s.size ≤ (tree.unit options.target errors).tree.size := by omega
  have houtline := hs.outlineLines_eq_extract hbound
  refine ⟨by rw [Tree.outline, houtline]; rfl, by rwa [hs.subtreeSize],
    fun m hm => hs.depth_le_of_mem_extract hm, fun levels hlevels => ?_⟩
  rw [hs.subtreeSize] at hlevels
  rw [Tree.outline, houtline, hs.outlineLines_eq_extract hlevels]

/-- The outline of a loop one level down, with a call two levels below it. -/
theorem decode_outline_loop :
    let raw : Json := .branch "0" "FunctionDecl" [.leaf "1" "ParmVarDecl",
      .branch "2" "WhileStmt" [.leaf "3" "DeclRefExpr",
        .branch "4" "CompoundStmt" [.leaf "5" "CallExpr"], .leaf "6" "NullStmt"],
      .leaf "7" "NullStmt"]
    ∃ u n, decode Options.default raw = .ok u ∧ u.tree.node? 2 = some n ∧ n.depth = 1 ∧
      u.tree.outline 2 =
        "2 WhileStmt\n\t3 DeclRefExpr\n\t4 CompoundStmt\n\t\t5 CallExpr\n\t6 NullStmt\n" := by
  intro raw
  have hvalues : (decode Options.default raw).toOption.map (fun u =>
      ((u.tree.node? 2).map Node.depth,
        (u.tree.nodes.extract 2 (2 + u.tree.subtreeSize 2)).toList.map fun m =>
          (m.depth, m.rawId, m.kind.tag))) =
      some (some 1, [(1, "2", "WhileStmt"), (2, "3", "DeclRefExpr"), (2, "4", "CompoundStmt"),
        (3, "5", "CallExpr"), (2, "6", "NullStmt")]) := by decide +kernel
  obtain ⟨u, hu, hvalues⟩ := exists_decode_of_map hvalues
  simp only [Prod.mk.injEq, Option.map_eq_some_iff] at hvalues
  obtain ⟨⟨n, hn, hdepth⟩, hslice⟩ := hvalues
  have houtline := (decode_outline hu hn).1
  have hlines := congrArg (List.map fun (line : Nat × String × String) =>
    String.ofList (List.replicate (line.1 - 1) '\t') ++ line.2.1 ++ " " ++ line.2.2 ++ "\n") hslice
  rw [List.map_map] at hlines
  rw [hdepth] at houtline
  exact ⟨u, n, hu, hn, hdepth, houtline.trans ((congrArg String.join hlines).trans rfl)⟩

end AstDump
