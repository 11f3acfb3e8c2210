import AstDump.Proofs.Lookup
import AstDump.Proofs.Survivors

/-!
# Loops and their items

What a loop tells is kept when the loop is complete: the header from the number and the order of its
children, the rest from below the child that is its body. By then the placeholders and malformed
items of its record are gone, so all of it is about the items that survive.

* `Json.isOfKind`               : a record names a kind;
* `Tree.findIdx?_kind`          : the first child of a kind stands for the first item of the kind;
* `LoopStmt.Reflects`           : a loop tells what its surviving items are;
* `LoopStmt.reflects`           : a loop of a complete tree does;
* `decode_loops`                : and so does every loop of a decoded unit.
-/

namespace AstDump

/-- The record names this kind. -/
def Json.isOfKind (kind : Kind) (v : Json) : Bool := v.member? "kind" = some (.str kind.tag)

/-- The loop tells what its surviving items are, which its children are made from one by one. -/
structure LoopStmt.Reflects (options : Options) (raw : Json) (t : Tree) (items : List Json)
    (l : LoopStmt) : Prop where
  children : List.Forall₂ (MadeFrom options raw) (t.childIds l.node).toList items
  basic_iff : l.isBasic = true ↔ t.kind? l.node = some .forStmt ∧ items.length = 4
  /-- With a counting header, the bounds are the first three children. -/
  header : l.isBasic = true → ∃ lower upper step last,
    (t.childIds l.node).toList = [lower, upper, step, last] ∧ l.lowerBound? = some lower ∧
      l.upperBound? = some upper ∧ l.step? = some step ∧ (l.confidence? t).isSome = true
  no_header : l.isBasic = false → l.lowerBound? = none ∧ l.upperBound? = none ∧ l.step? = none ∧
    l.confidence? t = none
  /-- The body is made from the first item that is a compound statement. -/
  body : (l.body? t).map CompoundStmt.node =
    (items.findIdx? (Json.isOfKind .compoundStmt)).bind fun k => (t.childIds l.node)[k]?
  /-- What the loop lists lies below its body, and so below no other child. -/
  within : ∀ j : Nat, j ∈ l.view.varDecls ∨ j ∈ l.view.calls ∨ j ∈ l.view.breaks →
    ∃ body, l.body? t = some body ∧ t.Encloses body.node j ∧
      ∀ c ∈ t.childIds l.node, c ≠ body.node → ¬ t.Reaches c j
  no_body : l.body? t = none → l.view.varDecls = #[] ∧ l.view.calls = #[] ∧ l.view.breaks = #[]

namespace Tree

/-! ## Kinds of items -/

section Kinds

variable {t : Tree} {values : List Json} {kind : Kind}

theorem Presents.lt_size {i : Nat} {v : Json} (h : t.Presents values i v) : i < t.size := by
  obtain ⟨tag, -, hkind⟩ := h.kind
  obtain ⟨n, hn, -⟩ := Option.map_eq_some_iff.mp hkind
  exact (Array.getElem?_eq_some_iff.mp hn).1

/-- A node is of a kind with a name of its own if its record names the kind. -/
theorem Presents.kind?_eq_some_iff {i : Nat} {v : Json} (h : t.Presents values i v)
    (hkind : .ofTag kind.tag = kind) : t.kind? i = some kind ↔ v.isOfKind kind = true := by
  obtain ⟨tag, htag, hof⟩ := h.kind
  rw [hof, Option.some.injEq, Json.isOfKind, decide_eq_true_iff, htag, Option.some.injEq,
    Json.str.injEq]
  constructor
  · rintro rfl
    rw [Kind.tag_ofTag]
  · rintro rfl
    exact hkind

/-- The first node of a kind stands where the first record of the kind stands. -/
theorem findIdx?_kind {ids : List NodeId} {items : List Json}
    (h : List.Forall₂ (t.Presents values) ids items) (hkind : .ofTag kind.tag = kind) :
    ids.findIdx? (fun i => t.kind? i = some kind) = items.findIdx? (Json.isOfKind kind) := by
  -- kinds and records are tested with the same outcome, position by position
  have hsame : ids.map (fun i => decide (t.kind? i = some kind)) =
      items.map (Json.isOfKind kind) := by
    rw [← List.forall₂_eq_eq_eq, List.forall₂_map_left_iff, List.forall₂_map_right_iff]
    refine h.imp fun i v hv => ?_
    rw [Bool.eq_iff_iff, decide_eq_true_iff]
    exact hv.kind?_eq_some_iff hkind
  have hfound := congrArg (List.findIdx? id) hsame
  rwa [List.findIdx?_map, List.findIdx?_map] at hfound

theorem collectFirst?_of_presents {i : Nat} {items : List Json}
    (h : List.Forall₂ (t.Presents values) (t.childIds i).toList items)
    (hkind : .ofTag kind.tag = kind) :
    t.collectFirst? i kind =
      (items.findIdx? (Json.isOfKind kind)).bind fun k => (t.childIds i)[k]? := by
  rw [collectFirst?, ← Array.find?_toList, List.find?_eq_bind_findIdx?_getElem?,
    findIdx?_kind h hkind]
  simp only [Array.getElem?_toList]

end Kinds

/-! ## Headers -/

/-- A `for` with four children has the header of a counting loop. -/
theorem isSome_loopBounds?_iff {t : Tree} {i : Nat} :
    (t.loopBounds? i).isSome = true ↔
      t.kind? i = some .forStmt ∧ (t.childIds i).toList.length = 4 := by
  rw [Option.isSome_iff_exists]
  simp only [loopBounds?_eq_some_iff, exists_and_left]
  refine and_congr_right fun _ => ?_
  constructor
  · rintro ⟨b, last, hids⟩
    rw [hids]
    rfl
  · intro hlength
    obtain ⟨lower, upper, step, last, hids⟩ := List.length_eq_four.mp hlength
    exact ⟨⟨lower, upper, step⟩, last, hids⟩

/-! ## Bodies -/

/-- What is found below the body of a loop is found below no other child of the loop. -/
theorem IsPreorder.of_mem_body {t : Tree} (hpre : t.IsPreorder) {p : Option NodeId} {d i b j : Nat}
    {s : RecordTree} (h : t.Shows p d i s) (hbody : t.collectFirst? i .compoundStmt = some b)
    {kind : Kind} {recursive : Bool} (hj : j ∈ t.collect b kind recursive) :
    t.Encloses b j ∧ ∀ c ∈ t.childIds i, c ≠ b → ¬ t.Reaches c j := by
  obtain ⟨hafter, hbefore, -⟩ := h.of_mem_body hbody hj
  obtain ⟨n, hn, -⟩ := Option.map_eq_some_iff.mp (kind?_of_collectFirst? hbody)
  have hb : b < t.size := (Array.getElem?_eq_some_iff.mp hn).1
  have hencloses := (hpre.encloses_iff hb).mpr ⟨hafter, hbefore⟩
  have hchild : t.IsChild i b := Array.mem_toList_iff.mpr (Array.mem_of_find?_eq_some hbody)
  refine ⟨hencloses, fun c hc hne => ?_⟩
  exact hpre.not_reaches_of_sibling (Array.mem_toList_iff.mpr hc) hchild hne hencloses.2

end Tree

/-! ## Loops -/

section Loops

variable {options : Options} {raw : Json} {t : Tree} {values items : List Json}
  {p : Option NodeId} {d i : Nat} {s : RecordTree}

theorem LoopStmt.map_node_body? (hviews : t.HasViews) (i : Nat) :
    (LoopStmt.body? t ⟨i, t.loopView i⟩).map CompoundStmt.node =
      t.collectFirst? i .compoundStmt := by
  unfold body?
  rw [t.loopView_body i]
  exact hviews.map_node_compound? fun b hb => Tree.kind?_of_collectFirst? hb

/-- What a loop lists lies below its body. -/
theorem LoopStmt.within_body (hpre : t.IsPreorder) (hviews : t.HasViews) (h : t.Shows p d i s)
    {j : Nat} (hj : j ∈ (t.loopView i).varDecls ∨ j ∈ (t.loopView i).calls ∨
      j ∈ (t.loopView i).breaks) :
    ∃ body, LoopStmt.body? t ⟨i, t.loopView i⟩ = some body ∧ t.Encloses body.node j ∧
      ∀ c ∈ t.childIds i, c ≠ body.node → ¬ t.Reaches c j := by
  cases hfirst : t.collectFirst? i .compoundStmt with
  | none => simp [Tree.loopView_of_no_body hfirst] at hj
  | some b =>
    have hbody := map_node_body? hviews i
    rw [hfirst] at hbody
    obtain ⟨body, hcompound, rfl⟩ := Option.map_eq_some_iff.mp hbody
    refine ⟨body, hcompound, ?_⟩
    rw [Tree.loopView_of_body hfirst] at hj
    rcases hj with hj | hj | hj
    all_goals exact hpre.of_mem_body h hfirst hj

/-- **A loop of a complete tree tells what its surviving items are.** -/
theorem LoopStmt.reflects (hpre : t.IsPreorder) (hviews : t.HasViews) (h : t.Shows p d i s)
    (hitems : List.Forall₂ (t.Presents values) (t.childIds i).toList items)
    (hmade : ∀ c v, t.Presents values c v → MadeFrom options raw c v) :
    (⟨i, t.loopView i⟩ : LoopStmt).Reflects options raw t items := by
  have hbounds := t.loopView_bounds i
  have hbody := map_node_body? hviews i
  refine ⟨hitems.imp hmade, ?_, fun hbasic => ?_, fun hbasic => ?_, ?_,
    fun j hj => within_body hpre hviews h hj, fun hnone => ?_⟩
  · unfold isBasic
    rw [hbounds, Tree.isSome_loopBounds?_iff, hitems.length_eq]
  · obtain ⟨b, hb⟩ : ∃ b, (t.loopView i).bounds = some b := Option.isSome_iff_exists.mp hbasic
    obtain ⟨-, last, hids⟩ := Tree.loopBounds?_eq_some_iff.mp (hbounds.symm.trans hb)
    refine ⟨b.lower, b.upper, b.step, last, hids, ?_⟩
    simp [lowerBound?, upperBound?, step?, confidence?, hb]
  · have hb : (t.loopView i).bounds = none :=
      Option.isNone_iff_eq_none.mp (Option.isSome_eq_false_iff.mp hbasic)
    simp [lowerBound?, upperBound?, step?, confidence?, hb]
  · rw [hbody]
    exact Tree.collectFirst?_of_presents hitems rfl
  · rw [hnone] at hbody
    rw [Tree.loopView_of_no_body hbody.symm]
    exact ⟨rfl, rfl, rfl⟩

end Loops

/-- **Loops tell what their surviving items are**, whatever the dump and the options. -/
theorem decode_loops {options : Options} {raw : Json} {u : TranslationUnit}
    (h : decode options raw = .ok u) (i : Nat) (n : Node) (hn : u.tree.node? i = some n)
    (hloop : n.kind.isLoop = true) :
    ∃ l r, u.tree.loop? i = some l ∧ l.node = i ∧ (∀ v, MadeFrom options raw i v ↔ v = r) ∧
      l.Reflects options raw u.tree (r.survivors options n.depth) := by
  have hmade := fun c hc v => @madeFrom_iff options raw u h c hc v
  obtain ⟨tree, errors, hfound, rfl⟩ := decode_eq_ok_iff.mp h
  have hall := tree.showsAll_unit options.target errors
  have hsize := tree.size_unit options.target errors
  have hviews := tree.hasViews_unit options.target errors
  obtain ⟨p, d, s, hocc, hs, -, rfl, -⟩ := hall.node hsize hn
  obtain ⟨r, hr⟩ := RecordTree.standsFor_kept hfound hocc
  have hitems := hr.forall₂_childIds hs
  have hreflects := LoopStmt.reflects (hall.isPreorder hsize) hviews hs hitems fun c v hv =>
    (hmade c hv.lt_size v).mpr hv.value
  have hkind := Tree.kind?_of_node hn rfl
  refine ⟨_, r, hviews.loop?_eq_some_iff.mpr ⟨⟨n.kind, hkind, hloop⟩, rfl⟩, rfl, fun v => ?_,
    hreflects⟩
  rw [hmade i (hr.presents hs).lt_size, hr.getElem?, Option.some.injEq, eq_comm]

/-- A counting loop at depth one. Of the six items of its record one is a placeholder and one has no
id. Its header declares a variable and calls a function, too, but only those of the body are
listed. -/
theorem decode_loops_two_passed_over :
    let options : Options := { Options.default with recoverMalformed := true }
    let loop : Json := .branch "2" "ForStmt" [
      .branch "3" "DeclStmt" [.leaf "4" "VarDecl"], .obj [],
      .branch "5" "BinaryOperator" [.leaf "6" "CallExpr"],
      .obj [("kind", .str "CompoundStmt")], .leaf "7" "UnaryOperator",
      .branch "8" "CompoundStmt" [.branch "9" "DeclStmt" [.leaf "10" "VarDecl"],
        .branch "11" "IfStmt" [.leaf "12" "CallExpr"], .leaf "13" "BreakStmt"]]
    let raw : Json := .branch "0" "CompoundStmt" [.leaf "1" "NullStmt", loop]
    ∃ u n l, decode options raw = .ok u ∧ u.tree.node? 2 = some n ∧ n.kind.isLoop = true ∧
      u.tree.loop? 2 = some l ∧ MadeFrom options raw 2 loop ∧
      l.Reflects options raw u.tree (loop.survivors options 1) ∧
      l.view = ⟨some ⟨3, 5, 7⟩, some 8, #[10], #[12], #[13]⟩ := by
  intro options loop raw
  have hvalues : (decode options raw).toOption.map (fun u =>
      ((u.tree.node? 2).map fun n => (n.kind, n.depth), (u.tree.loop? 2).map LoopStmt.view)) =
      some (some (.forStmt, 1), some ⟨some ⟨3, 5, 7⟩, some 8, #[10], #[12], #[13]⟩) := by
    decide +kernel
  obtain ⟨u, hu, hvalues⟩ := exists_decode_of_map hvalues
  simp only [Prod.mk.injEq, Option.map_eq_some_iff] at hvalues
  obtain ⟨⟨n, hn, hkind, hdepth⟩, l, hl, hview⟩ := hvalues
  have hloop : n.kind.isLoop = true := by rw [hkind]; rfl
  have hmade : MadeFrom options raw 2 loop :=
    (madeFrom_iff hu (Array.getElem?_eq_some_iff.mp hn).1).mpr (by decide +kernel)
  obtain ⟨l', r, hl', -, hr, hreflects⟩ := decode_loops hu 2 n hn hloop
  rw [hl] at hl'
  cases hl'
  rw [← (hr loop).mp hmade, hdepth] at hreflects
  exact ⟨u, n, l, hu, hn, hloop, hl, hmade, hreflects, hview⟩

end AstDump
