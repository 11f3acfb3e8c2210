import AstDump.Proofs.Units

/-!
# Looking up by id

The index of a tree is kept beside the nodes and not read off them. It grows with every node, and
what it says of an id is always what a look at the nodes from the first one on would say.

* `Tree.FindsFirst`      : the index says what the nodes say;
* `Tree.FindsFirst.push` : a node more, whether or not its id is new;
* `Tree.IsFirst`         : the first node with an id;
* `decode_find`          : what is found in a decoded unit, by an id or by a reference.
-/

namespace AstDump

namespace Tree

/-- The index gives for every id the position of the first node that has it. -/
def FindsFirst (t : Tree) : Prop :=
  ∀ rawId : String, t.find? rawId = t.nodes.findIdx? fun n => n.rawId = rawId

/-! ## Growing trees -/

theorem FindsFirst.empty (target : Target) : (empty target).FindsFirst := by
  intro rawId
  have hnodes : (#[] : Array Node).findIdx? (fun n => n.rawId = rawId) = none :=
    Array.findIdx?_empty
  exact (find?_empty target rawId).trans hnodes.symm

/-- A node more: if its id was there before, the index still has the earlier node. -/
theorem FindsFirst.push {t : Tree} (h : t.FindsFirst) (n : Node) : (t.push n).FindsFirst := by
  intro rawId
  have hnodes : (t.push n).nodes = t.nodes.push n := rfl
  rw [find?_push, h rawId, hnodes, Array.findIdx?_push]
  simp [size]

theorem FindsFirst.pushAll (ns : List Node) :
    ∀ {t : Tree}, t.FindsFirst → (t.pushAll ns).FindsFirst := by
  induction ns with
  | nil => intro t h; exact h
  | cons n ns ih => intro t h; exact ih (h.push n)

theorem findIdx?_plainNodes (t : Tree) (rawId : String) :
    t.plainNodes.findIdx? (fun n => n.rawId = rawId) =
      t.nodes.findIdx? fun n => n.rawId = rawId := by
  rw [plainNodes, List.findIdx?_map, ← List.findIdx?_toArray]
  rfl

/-- Views have nothing to do with ids. -/
theorem FindsFirst.viewFrom {t : Tree} (h : t.FindsFirst) (mark : Nat) :
    (t.viewFrom mark).FindsFirst := by
  intro rawId
  rw [← findIdx?_plainNodes, plainNodes_viewFrom, findIdx?_plainNodes]
  exact h rawId

/-! ## The first node with an id -/

/-- The node at a position has an id, and no node before it has. -/
structure IsFirst (t : Tree) (rawId : String) (i : Nat) : Prop where
  has_id : ∃ n, t.node? i = some n ∧ n.rawId = rawId
  none_before : ∀ j < i, ∀ n, t.node? j = some n → n.rawId ≠ rawId

/-- No node has an id. -/
def Lacks (t : Tree) (rawId : String) : Prop :=
  ∀ (j : Nat) (n : Node), t.node? j = some n → n.rawId ≠ rawId

theorem FindsFirst.find?_eq_some_iff {t : Tree} (h : t.FindsFirst) {rawId : String} {i : Nat} :
    t.find? rawId = some i ↔ t.IsFirst rawId i := by
  rw [h rawId, Array.findIdx?_eq_some_iff_getElem]
  constructor
  · rintro ⟨hi, hid, hbefore⟩
    refine ⟨⟨t.nodes[i], Array.getElem?_eq_getElem hi, of_decide_eq_true hid⟩, ?_⟩
    intro j hj n hn
    obtain ⟨-, rfl⟩ := Array.getElem?_eq_some_iff.mp hn
    exact fun heq => hbefore j hj (decide_eq_true heq)
  · rintro ⟨⟨n, hn, hid⟩, hbefore⟩
    obtain ⟨hi, rfl⟩ := Array.getElem?_eq_some_iff.mp hn
    refine ⟨hi, decide_eq_true hid, fun j hj heq => ?_⟩
    have hlt : j < t.nodes.size := Nat.lt_trans hj hi
    exact hbefore j hj _ (Array.getElem?_eq_getElem hlt) (of_decide_eq_true heq)

theorem FindsFirst.find?_eq_none_iff {t : Tree} (h : t.FindsFirst) {rawId : String} :
    t.find? rawId = none ↔ t.Lacks rawId := by
  rw [h rawId, Array.findIdx?_eq_none_iff]
  constructor
  · intro hnone j n hn heq
    have hmem : n ∈ t.nodes := Array.mem_of_getElem? hn
    exact of_decide_eq_false (hnone n hmem) heq
  · intro hlacks n hmem
    obtain ⟨j, hn⟩ := Array.mem_iff_getElem?.mp hmem
    exact decide_eq_false (hlacks j n hn)

/-! ## References -/

theorem resolve?_of_node {t : Tree} {k : Nat} {n : Node} (hn : t.node? k = some n) :
    t.resolve? k = n.referencedId?.bind t.find? := by
  rw [resolve?, hn, Option.bind_some]

/-- A reference leads to the first node with the id that it names. -/
theorem FindsFirst.resolve?_eq_some_iff {t : Tree} (h : t.FindsFirst) {k i : Nat} {n : Node}
    (hn : t.node? k = some n) : t.resolve? k = some i ↔
      ∃ rawId, n.referencedId? = some rawId ∧ t.IsFirst rawId i := by
  rw [resolve?_of_node hn, Option.bind_eq_some_iff]
  simp only [h.find?_eq_some_iff]

/-- A reference leads nowhere if it names no id, or one that no node has. -/
theorem FindsFirst.resolve?_eq_none_iff {t : Tree} (h : t.FindsFirst) {k : Nat} {n : Node}
    (hn : t.node? k = some n) : t.resolve? k = none ↔
      n.referencedId? = none ∨ ∃ rawId, n.referencedId? = some rawId ∧ t.Lacks rawId := by
  rw [resolve?_of_node hn]
  cases n.referencedId? with
  | none => simp
  | some rawId => simp [h.find?_eq_none_iff]

end Tree

/-- The index of a unit says what the nodes of the unit say. -/
theorem RecordTree.findsFirst_unit (target : Target) (tree : RecordTree)
    (errors : List DecodeError) : (tree.unit target errors).tree.FindsFirst := by
  rw [tree_unit, Tree.addForest]
  exact ((Tree.FindsFirst.empty target).pushAll _).viewFrom _

/-- **What is found in a decoded unit**, whatever the dump and the options: by an id, the first node
that has it, and nothing only if no node has it; by the reference of a node, the first node with the
id that it names, and nothing only if it names none or one that no node has. -/
theorem decode_find {options : Options} {raw : Json} {u : TranslationUnit}
    (h : decode options raw = .ok u) :
    (∀ (rawId : String) (i : Nat), u.find? rawId = some i ↔ u.tree.IsFirst rawId i) ∧
    (∀ rawId : String, u.find? rawId = none ↔ u.tree.Lacks rawId) ∧
    ∀ (k : Nat) (n : Node), u.tree.node? k = some n →
      (∀ i : Nat, u.tree.resolve? k = some i ↔
        ∃ rawId, n.referencedId? = some rawId ∧ u.tree.IsFirst rawId i) ∧
      (u.tree.resolve? k = none ↔
        n.referencedId? = none ∨ ∃ rawId, n.referencedId? = some rawId ∧ u.tree.Lacks rawId) := by
  obtain ⟨tree, errors, -, rfl⟩ := decode_eq_ok_iff.mp h
  have hfinds := tree.findsFirst_unit options.target errors
  exact ⟨fun rawId i => hfinds.find?_eq_some_iff, fun rawId => hfinds.find?_eq_none_iff,
    fun k n hn => ⟨fun i => hfinds.resolve?_eq_some_iff hn, hfinds.resolve?_eq_none_iff hn⟩⟩

/-- The id 7 is there three times, once as a number and once more in a record that is dropped; the
reference leads to the first of the two that are left. -/
theorem decode_find_number_and_text :
    let options : Options := { Options.default with recoverMalformed := true }
    let raw : Json := .branch "0x1" "CompoundStmt" [
      .obj [("id", .str "7")], .obj [("id", .int 7), ("kind", .str "VarDecl")],
      .leaf "7" "VarDecl", .obj [("id", .str "0x2"), ("kind", .str "DeclRefExpr"),
        ("referencedDecl", .obj [("id", .str "7")])]]
    ∃ u n, decode options raw = .ok u ∧ u.tree.node? 3 = some n ∧ u.tree.IsFirst "7" 1 ∧
      n.referencedId? = some "7" ∧ u.tree.resolve? 3 = some 1 := by
  intro options raw
  have hvalues : (decode options raw).toOption.map (fun u => (u.find? "7",
      (u.tree.node? 3).bind Node.referencedId?)) = some (some 1, some "7") := by decide +kernel
  obtain ⟨u, hu, hvalues⟩ := exists_decode_of_map hvalues
  simp only [Prod.mk.injEq] at hvalues
  obtain ⟨hfind, hreference⟩ := hvalues
  obtain ⟨n, hn, hid⟩ := Option.bind_eq_some_iff.mp hreference
  obtain ⟨hfirst, -, hresolve⟩ := decode_find hu
  have hseven := (hfirst "7" 1).mp hfind
  exact ⟨u, n, hu, hn, hseven, hid, ((hresolve 3 n hn).1 1).mpr ⟨"7", hid, hseven⟩⟩

end AstDump
