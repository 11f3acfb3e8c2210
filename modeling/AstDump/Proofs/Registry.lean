import AstDump.Proofs.Units

/-!
# The registry of a decoded unit

The registry is filled while a dump is decoded, a node at a time, and rolled back where an item is
dropped. When decoding is over its lists are those that one would read off the finished tree.

* `Registry.entries_record_all` : the entries after a run of nodes;
* `Tree.positions`              : the nodes of a kind, in document order;
* `Tree.Shows.positions_eq`     : the root, if it is of the kind, and what a deep search finds;
* `RecordTree.entries_unit`     : the entries of a unit are the nodes of their kind;
* `decode_registry`             : so it is for every decoded dump.
-/

namespace AstDump

/-- **What is listed of a run of nodes**: the entries grow by the positions of the nodes of their
kind. -/
theorem Registry.entries_record_all {kind : Kind} (hlisted : isListed kind = true)
    (ns : List Node) : ∀ (first : Nat) (r : Registry),
      (((ns.zipIdx first).foldl (fun r n => r.record n.1.kind n.2) r).entries kind).toList =
        (r.entries kind).toList ++
          ((ns.zipIdx first).filter fun n => n.1.kind = kind).map Prod.snd := by
  induction ns with
  | nil => intro first r; simp
  | cons n ns ih =>
    intro first r
    rw [List.zipIdx_cons, List.foldl_cons, ih, entries_record, List.filter_cons]
    by_cases hkind : n.kind = kind
    · subst hkind
      simp [hlisted]
    · simp [hkind, Ne.symm hkind]

namespace Tree

/-- The positions of the nodes of a kind, in document order. -/
def positions (t : Tree) (kind : Kind) : List Nat :=
  (List.range t.size).filter fun i => t.kind? i = some kind

theorem mem_positions {t : Tree} {kind : Kind} {i : Nat} :
    i ∈ t.positions kind ↔ ∃ n, t.node? i = some n ∧ n.kind = kind := by
  rw [positions, List.mem_filter, List.mem_range, decide_eq_true_iff, kind?, Option.map_eq_some_iff]
  refine ⟨And.right, fun h => ⟨?_, h⟩⟩
  obtain ⟨n, hn, -⟩ := h
  exact (Array.getElem?_eq_some_iff.mp hn).1

theorem mem_positions_iff {t : Tree} {kind : Kind} {i : Nat} :
    i ∈ t.positions kind ↔ t.kind? i = some kind := by
  rw [mem_positions, kind?, Option.map_eq_some_iff]

theorem positions_increasing (t : Tree) (kind : Kind) : (t.positions kind).Pairwise (· < ·) :=
  List.pairwise_lt_range.filter _

/-- The positions of a kind, read off the nodes. -/
theorem positions_eq_zipIdx (t : Tree) (kind : Kind) :
    t.positions kind = (t.plainNodes.zipIdx.filter fun n => n.1.kind = kind).map Prod.snd := by
  have hrange : List.range t.size = t.plainNodes.zipIdx.map Prod.snd := by
    rw [List.zipIdx_map_snd, length_plainNodes, List.range_eq_range']
  rw [positions, hrange, List.filter_map]
  congr 1
  refine List.filter_congr fun n hn => ?_
  have hat : t.plainNodes[n.2]? = some n.1 := List.mem_zipIdx_iff_getElem?.mp hn
  simp [kind?_eq, hat]

/-- **The nodes of a kind are the root, if it is one of them, and what a deep search from the root
finds.** -/
theorem Shows.positions_eq {t : Tree} {p : Option NodeId} {d : Nat} {s : RecordTree}
    (h : t.Shows p d root s) (hsize : t.size = s.size) (kind : Kind) :
    (t.positions kind).toArray =
      (if t.kind? root = some kind then #[root] else #[]) ++ t.collect root kind true := by
  have hrange : List.range t.size = root :: candidates root s true := by
    rw [hsize, s.size_eq, List.range_eq_range', List.range'_succ]
    rfl
  rw [positions, hrange, List.filter_cons, h.collect]
  by_cases hroot : t.kind? root = some kind <;> simp [hroot]

/-- The entries are the nodes of a kind, each once and in document order: the root, if it is of the
kind, and what a deep search from the root finds. -/
structure ListsKind (t : Tree) (kind : Kind) (entries : Array NodeId) : Prop where
  increasing : entries.toList.Pairwise (· < ·)
  mem_iff : ∀ i : Nat, i ∈ entries ↔ ∃ n, t.node? i = some n ∧ n.kind = kind
  eq_collect : entries =
    (if t.kind? root = some kind then #[root] else #[]) ++ t.collect root kind true

end Tree

namespace RecordTree

variable (target : Target) (tree : RecordTree) (errors : List DecodeError)

/-- **The entries of a unit are the nodes of their kind.** -/
theorem entries_unit {kind : Kind} (hlisted : Registry.isListed kind = true) :
    (tree.unit target errors).registry.entries kind =
      ((tree.unit target errors).tree.positions kind).toArray := by
  have hentries := Registry.entries_record_all hlisted (tree.nodes none 0 Tree.root) 0 .empty
  apply Array.toList_inj.mp
  rw [Tree.positions_eq_zipIdx, plainNodes_unit]
  rw [Registry.entries_empty, List.nil_append] at hentries
  exact hentries

theorem listsKind_unit (kind : Kind) (hlisted : Registry.isListed kind = true) :
    (tree.unit target errors).tree.ListsKind kind
      ((tree.unit target errors).registry.entries kind) := by
  have hshows := (tree.showsAll_unit target errors).cons.1
  rw [entries_unit target tree errors hlisted]
  refine ⟨Tree.positions_increasing _ kind, fun i => ?_, ?_⟩
  · rw [List.mem_toArray, Tree.mem_positions]
  · exact hshows.positions_eq (tree.size_unit target errors) kind

end RecordTree

/-- **The registry of a decoded unit**, whatever the dump and the options: each of its lists holds
the nodes of its kind, none missing or listed twice, in document order. -/
theorem decode_registry {options : Options} {raw : Json} {u : TranslationUnit}
    (h : decode options raw = .ok u) :
    u.tree.ListsKind .functionDecl u.registry.functions ∧
    u.tree.ListsKind .compoundStmt u.registry.compounds ∧
    u.tree.ListsKind .forStmt u.registry.forLoops ∧
    u.tree.ListsKind .whileStmt u.registry.whileLoops ∧
    u.tree.ListsKind .doStmt u.registry.doLoops := by
  obtain ⟨tree, errors, -, rfl⟩ := decode_eq_ok_iff.mp h
  have hlists := tree.listsKind_unit options.target errors
  exact ⟨hlists .functionDecl rfl, hlists .compoundStmt rfl, hlists .forStmt rfl,
    hlists .whileStmt rfl, hlists .doStmt rfl⟩

/-- A loop inside of a loop; a loop without an id that stands between them is dropped. -/
theorem decode_registry_nested_loops :
    let options : Options := { Options.default with recoverMalformed := true }
    let raw : Json := .branch "0x1" "ForStmt" [.obj [("kind", .str "ForStmt")],
      .branch "0x2" "CompoundStmt" [.leaf "0x3" "ForStmt"]]
    ∃ u, decode options raw = .ok u ∧ u.tree.ListsKind .forStmt u.registry.forLoops ∧
      u.registry.forLoops = #[0, 2] := by
  intro options raw
  have hloops : (decode options raw).toOption.map (·.registry.forLoops) = some #[0, 2] := by
    decide +kernel
  obtain ⟨u, hu, hloops⟩ := exists_decode_of_map hloops
  exact ⟨u, hu, (decode_registry hu).2.2.1, hloops⟩

end AstDump
