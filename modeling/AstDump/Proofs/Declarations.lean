import AstDump.Proofs.Lookup

/-!
# Variables declared one to a statement

The variables in the view of a compound statement are found from above: by a search among the
children of the statement, with a search in its predicate, and a further search below each statement
that was found. Seen from below, a variable is among them exactly if its parent is a declaration
statement right below the compound statement, and has no other variable for a child.

* `Tree.DeclaresOne`                 : a declaration statement right below a node has one variable;
* `Tree.variablesOf`                 : the variables among the children of a node;
* `Tree.Shows.mem_singleVarDecls_iff` : the variables in the view, by their statements;
* `Tree.IsPreorder.declaresOne_iff`  : the same by way of parents;
* `decode_declarations`              : the variables of the compound statements of a decoded unit.
-/

namespace AstDump

namespace Tree

/-- The declaration statement `s` stands right below `c` and has the variable `v` for a child, and
no other variable. Children that are no variables make no difference. -/
structure DeclaresOne (t : Tree) (c s v : Nat) : Prop where
  statement : t.kind? s = some .declStmt
  below : t.parent? s = some c
  declared : t.kind? v = some .varDecl
  inside : t.parent? v = some s
  only : ∀ w, t.kind? w = some .varDecl → t.parent? w = some s → w = v

/-- The variables among the children of a node. -/
def variablesOf (t : Tree) (s : Nat) : List NodeId :=
  (t.childIds s).toList.filter fun j => t.kind? j = some .varDecl

theorem mem_variablesOf {t : Tree} {s v : Nat} :
    v ∈ t.variablesOf s ↔ t.IsChild s v ∧ t.kind? v = some .varDecl := by
  simp [variablesOf, IsChild]

/-- The first child that is a variable. -/
theorem collectFirst?_varDecl (t : Tree) (s : Nat) :
    t.collectFirst? s .varDecl = (t.variablesOf s).head? := by
  rw [collectFirst?, variablesOf, List.head?_filter, Array.find?_toList]

theorem eq_singleton_iff_of_increasing {l : List Nat} (h : l.Pairwise (· < ·)) {v : Nat} :
    l = [v] ↔ v ∈ l ∧ ∀ w ∈ l, w = v := by
  constructor
  · rintro rfl
    simp
  · rintro ⟨hv, honly⟩
    rcases l with _ | ⟨a, _ | ⟨b, l⟩⟩
    · cases hv
    · rw [honly a List.mem_cons_self]
    · -- two elements would be equal, but the list increases
      have ha := honly a (by simp)
      have hb := honly b (by simp)
      have hlt := (List.pairwise_cons.mp h).1 b (by simp)
      omega

/-! ## From above -/

section Above

variable {t : Tree} {p : Option NodeId} {d c : Nat} {r : RecordTree}

theorem Shows.size_collect_varDecl (h : t.Shows p d c r) :
    (t.collect c .varDecl false).size = (t.variablesOf c).length := by
  rw [← Array.length_toList, h.collect_direct, variablesOf]

/-- The variables of a view, by the statements that they come from. -/
theorem Shows.mem_singleVarDecls_iff (h : t.Shows p d c r) {v : Nat} :
    v ∈ t.singleVarDecls c ↔
      ∃ s, t.IsChild c s ∧ t.kind? s = some .declStmt ∧ t.variablesOf s = [v] := by
  unfold singleVarDecls
  rw [h.collectWhere, Array.mem_filterMap]
  refine exists_congr fun s => ?_
  simp only [List.mem_toArray, List.mem_filter, decide_eq_true_eq, IsChild, h.childIds,
    collectFirst?_varDecl, candidates, if_neg Bool.false_ne_true]
  constructor
  · rintro ⟨⟨hs, hkind, hone⟩, hfirst⟩
    obtain ⟨r', hr', -⟩ := h.child hs
    rw [hr'.size_collect_varDecl, List.length_eq_one_iff] at hone
    obtain ⟨w, hw⟩ := hone
    rw [hw] at hfirst ⊢
    cases hfirst
    exact ⟨hs, hkind, rfl⟩
  · rintro ⟨hs, hkind, hone⟩
    obtain ⟨r', hr', -⟩ := h.child hs
    rw [hr'.size_collect_varDecl, hone]
    exact ⟨⟨hs, hkind, rfl⟩, rfl⟩

theorem Shows.singleVarDecls_increasing (h : t.Shows p d c r) :
    (t.singleVarDecls c).toList.Pairwise (· < ·) :=
  List.Pairwise.sublist h.singleVarDecls_sublist (h.collect_increasing .varDecl)

end Above

/-! ## From below -/

namespace IsPreorder

variable {t : Tree} {c s v : Nat}

theorem variablesOf_increasing (h : t.IsPreorder) (s : Nat) :
    (t.variablesOf s).Pairwise (· < ·) := by
  refine List.Pairwise.filter _ ?_
  cases hn : t.node? s with
  | none => simp [childIds, hn]
  | some n =>
    rw [childIds_of_node hn]
    exact h.increasing s n hn

/-- **A statement declares one variable if it has no other among its children.** -/
theorem declaresOne_iff (h : t.IsPreorder) :
    t.DeclaresOne c s v ↔
      t.IsChild c s ∧ t.kind? s = some .declStmt ∧ t.variablesOf s = [v] := by
  rw [eq_singleton_iff_of_increasing (h.variablesOf_increasing s)]
  simp only [mem_variablesOf, ← h.parent?_eq_some_iff]
  constructor
  · intro hone
    exact ⟨hone.below, hone.statement, ⟨hone.inside, hone.declared⟩,
      fun w hw => hone.only w hw.2 hw.1⟩
  · rintro ⟨hbelow, hstatement, ⟨hinside, hdeclared⟩, honly⟩
    exact ⟨hstatement, hbelow, hdeclared, hinside, fun w hkind hparent =>
      honly w ⟨hparent, hkind⟩⟩

end IsPreorder

end Tree

/-- The variables that a compound statement lists are those that are declared one to a statement
right below it, in document order and each once. A declaration statement adds to the list exactly
if it stands right below and has one variable among its children. -/
structure CompoundStmt.ListsDeclared (t : Tree) (c : CompoundStmt) : Prop where
  whole : c.varDecls t = c.view.varDecls.toList
  increasing : (c.varDecls t).Pairwise (· < ·)
  mem_iff : ∀ v : Nat, v ∈ c.varDecls t ↔ ∃ s, t.DeclaresOne c.node s v
  adds_iff : ∀ s : Nat, t.kind? s = some .declStmt →
    ((∃ v ∈ c.varDecls t, t.parent? v = some s) ↔
      t.parent? s = some c.node ∧ (t.variablesOf s).length = 1)

/-- **Variables declared one to a statement**, whatever the dump and the options. -/
theorem decode_declarations {options : Options} {raw : Json} {u : TranslationUnit}
    (h : decode options raw = .ok u) (c : Nat) (n : Node) (hn : u.tree.node? c = some n)
    (hkind : n.kind = .compoundStmt) :
    ∃ stmt, u.tree.compound? c = some stmt ∧ stmt.node = c ∧ stmt.ListsDeclared u.tree := by
  obtain ⟨tree, errors, -, rfl⟩ := decode_eq_ok_iff.mp h
  have hall := tree.showsAll_unit options.target errors
  have hsize := tree.size_unit options.target errors
  have hpre := hall.isPreorder hsize
  have hviews := tree.hasViews_unit options.target errors
  obtain ⟨p, d, r, -, hr, -⟩ := hall.node hsize hn
  have hstmt := hviews.compound?_eq_some_iff.mpr ⟨Tree.kind?_of_node hn hkind, rfl⟩
  have hwhole := (CompoundStmt.answers hviews hr hstmt).varDecls.whole
  rw [List.map_id] at hwhole
  have hmem : ∀ v : Nat, v ∈ (tree.unit options.target errors).tree.singleVarDecls c ↔
      ∃ s, (tree.unit options.target errors).tree.DeclaresOne c s v := by
    intro v
    rw [hr.mem_singleVarDecls_iff]
    exact exists_congr fun s => hpre.declaresOne_iff.symm
  refine ⟨_, hstmt, rfl, hwhole, ?_, fun v => ?_, fun s hs => ?_⟩
  · rw [hwhole]
    exact hr.singleVarDecls_increasing
  · rw [hwhole, Array.mem_toList_iff]
    exact hmem v
  · rw [hwhole]
    constructor
    · rintro ⟨v, hv, hparent⟩
      obtain ⟨s', hone⟩ := (hmem v).mp (Array.mem_toList_iff.mp hv)
      obtain rfl : s' = s := Option.some.inj (hone.inside.symm.trans hparent)
      obtain ⟨-, -, hsingle⟩ := hpre.declaresOne_iff.mp hone
      exact ⟨hone.below, by rw [hsingle]; rfl⟩
    · rintro ⟨hbelow, hlength⟩
      obtain ⟨v, hsingle⟩ := List.length_eq_one_iff.mp hlength
      have hone := hpre.declaresOne_iff.mpr ⟨hpre.parent?_eq_some_iff.mp hbelow, hs, hsingle⟩
      exact ⟨v, Array.mem_toList_iff.mpr ((hmem v).mpr ⟨s, hone⟩), hone.inside⟩

/-- Of four declaration statements the first declares a variable and a record, the second two
variables, and the third stands below another statement. The last one has two variables in the dump,
but one of them has no id and is dropped. -/
theorem decode_declarations_one_dropped :
    let options : Options := { Options.default with recoverMalformed := true }
    let raw : Json := .branch "0" "CompoundStmt" [
      .branch "1" "DeclStmt" [.leaf "2" "RecordDecl", .leaf "3" "VarDecl"],
      .branch "4" "DeclStmt" [.leaf "5" "VarDecl", .leaf "6" "VarDecl"],
      .branch "7" "IfStmt" [.branch "8" "DeclStmt" [.leaf "9" "VarDecl"]], .obj [],
      .branch "10" "DeclStmt" [.obj [("kind", .str "VarDecl")], .leaf "11" "VarDecl"]]
    ∃ u n stmt, decode options raw = .ok u ∧ u.tree.node? 0 = some n ∧ n.kind = .compoundStmt ∧
      u.tree.compound? 0 = some stmt ∧ stmt.ListsDeclared u.tree ∧
      stmt.varDecls u.tree = [3, 11] := by
  intro options raw
  have hvalues : (decode options raw).toOption.map (fun u =>
      ((u.tree.node? 0).map Node.kind, (u.tree.compound? 0).map fun c => c.varDecls u.tree)) =
      some (some .compoundStmt, some [3, 11]) := by decide +kernel
  obtain ⟨u, hu, hvalues⟩ := exists_decode_of_map hvalues
  simp only [Prod.mk.injEq, Option.map_eq_some_iff] at hvalues
  obtain ⟨⟨n, hn, hkind⟩, stmt, hstmt, hvars⟩ := hvalues
  obtain ⟨stmt', hstmt', -, hlists⟩ := decode_declarations hu 0 n hn hkind
  rw [hstmt] at hstmt'
  cases hstmt'
  exact ⟨u, n, stmt, hu, hn, hkind, hstmt, hlists, hvars⟩

end AstDump
