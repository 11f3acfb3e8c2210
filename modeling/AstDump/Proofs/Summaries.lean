import AstDump.Proofs.Parameters

/-!
# Summaries are complete

A summary is put together from lists of nodes that are asked for what they are, and a node that is
something else would be left out without a word. None is: every id of the registry has its entry, in
the order of the registry, and every parameter of a function counts.

* `FunctionSummary.Describes` : what an entry says of its function;
* `LoopSummary.Describes`     : what an entry says of its loop;
* `UnitSummary.Describes`     : one entry for each id of the registry, in order;
* `forall₂_map_filterMap`     : a list from which nothing is left out;
* `splitArgs_snd`             : the split of arguments into inputs and outputs;
* `decode_summary`            : the summary of a decoded unit.
-/

namespace AstDump

/-! ## Statements -/

/-- The entry of a function: the id of its node, all parameters among the children of the node, in
every list, and their split into inputs and at most one output. -/
structure FunctionSummary.Describes (s : FunctionSummary) (t : Tree) (i : Nat) : Prop where
  node : ∃ n, t.node? i = some n ∧ s.id = n.rawId
  params : s.argCount = (t.childIds i).toList.countP fun c => t.kind? c = some .parmVarDecl
  names : s.paramNames.length = s.argCount
  types : s.paramTypes.length = s.argCount
  const : s.paramConst.length = s.argCount
  split : s.inputs + s.outputs = s.argCount
  outputs_le : s.outputs ≤ 1
  output_iff : s.outputs = 1 ↔ 2 ≤ s.argCount

/-- The entry of a loop: the id and the kind of its node, and either all three bounds or none. -/
structure LoopSummary.Describes (s : LoopSummary) (t : Tree) (i : Nat) : Prop where
  node : ∃ n, t.node? i = some n ∧ s.id = n.rawId ∧ s.kind = n.kind.tag
  all_bounds : s.basic = true ↔
    s.lowerBound.isSome = true ∧ s.upperBound.isSome = true ∧ s.step.isSome = true
  any_bound : s.basic = true ↔
    s.lowerBound.isSome = true ∨ s.upperBound.isSome = true ∨ s.step.isSome = true

/-- The summary has one entry for each id of the registry, in order: the functions, and the loops by
their sort. -/
structure UnitSummary.Describes (s : UnitSummary) (u : TranslationUnit) : Prop where
  functions : List.Forall₂ (fun i (f : FunctionSummary) => f.Describes u.tree i)
    u.registry.functions.toList s.functions
  loops : List.Forall₂ (fun i (l : LoopSummary) => l.Describes u.tree i)
    (u.registry.forLoops.toList ++ u.registry.whileLoops.toList ++ u.registry.doLoops.toList)
    s.loops

/-! ## Entries -/

/-- Where every id is what it is asked for, no entry is missing and none is out of place. -/
theorem forall₂_map_filterMap {α β : Type} {as? : NodeId → Option α} {write : α → β}
    {R : NodeId → β → Prop} {ids : List NodeId}
    (h : ∀ i ∈ ids, ∃ a, as? i = some a ∧ R i (write a)) :
    List.Forall₂ R ids ((ids.filterMap as?).map write) := by
  induction ids with
  | nil => exact .nil
  | cons i ids ih =>
    obtain ⟨a, ha, hwrite⟩ := h i List.mem_cons_self
    rw [List.filterMap_cons_some ha, List.map_cons]
    exact .cons hwrite (ih fun j hj => h j (List.mem_cons_of_mem i hj))

/-- Every argument is an input or an output. -/
theorem splitArgs_add (n : Nat) : (splitArgs n).1 + (splitArgs n).2 = n := by
  unfold splitArgs
  split <;> simp

/-- Two arguments or more have one output among them, fewer have none. -/
theorem splitArgs_snd (n : Nat) : (splitArgs n).2 = if 2 ≤ n then 1 else 0 := by
  unfold splitArgs
  split <;> rfl

/-- The parameters of a function, counted among its children. -/
theorem Tree.length_paramNodes (t : Tree) (i : Nat) :
    (t.paramNodes i).length =
      (t.childIds i).toList.countP fun c => t.kind? c = some .parmVarDecl := by
  rw [paramNodes, List.filter_filterMap, List.length_filterMap_eq_countP]
  refine List.countP_congr fun c _ => ?_
  cases hn : t.node? c with
  | none => simp [kind?, hn]
  | some n => simp [kind?, hn, Option.filter]

section Entries

variable {t : Tree} {p : Option NodeId} {d i : Nat} {r : RecordTree}

theorem FunctionDecl.describes {f : FunctionDecl} {n : Node} (hviews : t.HasViews)
    (hr : t.Shows p d i r) (hn : t.node? i = some n) (hf : t.function? i = some f) :
    (f.summary t).Describes t i := by
  have htells := FunctionDecl.tellsParams hviews hr hf
  obtain ⟨-, rfl⟩ := hviews.function?_eq_some_iff.mp hf
  have houtputs := splitArgs_snd (FunctionDecl.summary t ⟨i, t.functionView i⟩).argCount
  constructor
  · refine ⟨n, hn, ?_⟩
    simp [FunctionDecl.summary, hn]
  · rw [htells.count, t.length_paramNodes]
  · rw [htells.names, htells.count, List.length_map]
  · rw [htells.types, htells.count, List.length_map]
  · rw [htells.const, htells.count, List.length_map]
  · exact splitArgs_add _
  · refine Nat.le_trans (Nat.le_of_eq houtputs) ?_
    split <;> omega
  · refine (Eq.congr_left houtputs).trans ?_
    split <;> omega

theorem LoopStmt.describes {l : LoopStmt} {n : Node} (hn : t.node? i = some n)
    (hl : l.node = i) : (l.summary t).Describes t i := by
  subst hl
  constructor
  · refine ⟨n, hn, ?_, ?_⟩ <;> simp [LoopStmt.summary, hn]
  · simp [LoopStmt.summary, isBasic, lowerBound?, upperBound?, step?]
  · simp [LoopStmt.summary, isBasic, lowerBound?, upperBound?, step?]

theorem Tree.HasViews.exists_loop {kind : Kind} (hviews : t.HasViews) (hloop : kind.isLoop = true)
    (hkind : t.kind? i = some kind) :
    ∃ l, t.loop? i = some l ∧ (l.summary t).Describes t i := by
  obtain ⟨n, hn, -⟩ := Option.map_eq_some_iff.mp hkind
  have hl := hviews.loop?_eq_some_iff.mpr ⟨⟨kind, hkind, hloop⟩, rfl⟩
  exact ⟨_, hl, LoopStmt.describes hn rfl⟩

end Entries

/-! ## Units -/

/-- **The summary of a decoded unit is complete**, whatever the dump and the options, dropped items
included: each id of the registry has its entry, in order, and the entry tells of all parameters of
a function and of all bounds of a loop or none. -/
theorem decode_summary {options : Options} {raw : Json} {u : TranslationUnit}
    (h : decode options raw = .ok u) : u.summary.Describes u := by
  obtain ⟨tree, errors, -, rfl⟩ := decode_eq_ok_iff.mp h
  have hviews := tree.hasViews_unit options.target errors
  have hkinds := fun kind i => @RecordTree.kind?_of_mem_entries options.target tree errors kind i
  constructor
  · refine forall₂_map_filterMap fun i hi => ?_
    have hkind := hkinds .functionDecl i (Array.mem_toList_iff.mp hi)
    obtain ⟨n, hn, -⟩ := Option.map_eq_some_iff.mp hkind
    obtain ⟨p, d, r, -, hr, -⟩ := (tree.showsAll_unit options.target errors).node
      (tree.size_unit options.target errors) hn
    have hf := hviews.function?_eq_some_iff.mpr ⟨hkind, rfl⟩
    exact ⟨_, hf, FunctionDecl.describes hviews hr hn hf⟩
  · unfold TranslationUnit.summary TranslationUnit.forLoops TranslationUnit.whileLoops
      TranslationUnit.doLoops
    dsimp only
    rw [← List.filterMap_append, ← List.filterMap_append]
    refine forall₂_map_filterMap fun i hi => ?_
    simp only [List.mem_append, Array.mem_toList_iff] at hi
    rcases hi with (hi | hi) | hi
    · exact hviews.exists_loop rfl (hkinds .forStmt i hi)
    · exact hviews.exists_loop rfl (hkinds .whileStmt i hi)
    · exact hviews.exists_loop rfl (hkinds .doStmt i hi)

/-- A function with two parameters and a dropped item between them, whose `do` loop stands before a
counting loop, and a function without parameters. -/
theorem decode_summary_one_dropped :
    let raw : Json := .branch "0" "TranslationUnitDecl" [
      .branch "1" "FunctionDecl" [.leaf "2" "ParmVarDecl", .int 7, .leaf "3" "ParmVarDecl",
        .branch "4" "CompoundStmt" [.leaf "5" "DoStmt",
          .branch "6" "ForStmt" [.leaf "7" "DeclStmt", .leaf "8" "BinaryOperator",
            .leaf "9" "UnaryOperator", .leaf "10" "NullStmt"]]],
      .leaf "11" "FunctionDecl"]
    ∃ u, decode { Options.default with recoverMalformed := true } raw = .ok u ∧
      u.registry = ⟨#[1, 11], #[4], #[6], #[], #[5]⟩ ∧
      u.summary.functions.map (fun f => (f.id, f.argCount)) = [("1", 2), ("11", 0)] ∧
      u.summary.loops.map (fun l => (l.id, l.kind)) =
        [("6", "ForStmt"), ("5", "DoStmt")] ∧
      u.summary.Describes u := by
  intro raw
  have hvalues : (decode { Options.default with recoverMalformed := true } raw).toOption.map
      (fun u => (u.registry,
        u.summary.functions.map (fun f => (f.id, f.argCount)),
        u.summary.loops.map (fun l => (l.id, l.kind)))) =
      some (⟨#[1, 11], #[4], #[6], #[], #[5]⟩, [("1", 2), ("11", 0)],
        [("6", "ForStmt"), ("5", "DoStmt")]) := by decide +kernel
  obtain ⟨u, hu, hvalues⟩ := exists_decode_of_map hvalues
  simp only [Prod.mk.injEq] at hvalues
  obtain ⟨hregistry, hentries, hloops⟩ := hvalues
  exact ⟨u, hu, hregistry, hentries, hloops, decode_summary hu⟩

end AstDump
