import AstDump.Proofs.Units
import AstDump.Tree.Subtree
import Mathlib.Logic.Relation

/-!
# The order of a decoded tree

The nodes of a decoded unit are a tree in pre-order: a node comes before what is below it, and a
subtree is an interval of positions that the subtrees of the children divide among them.

* `Tree.Reaches`       : the way down, along children;
* `Tree.Tiles`         : subtrees one after the other fill an interval;
* `Tree.IsPreorder`    : a tree in pre-order;
* `decode_isPreorder`  : decoded trees are.
-/

namespace AstDump

namespace Tree

/-- The second node is among the children of the first. -/
def IsChild (t : Tree) (i c : Nat) : Prop := c ∈ (t.childIds i).toList

/-- The second node is the first, or lies below it. -/
def Reaches (t : Tree) : Nat → Nat → Prop := Relation.ReflTransGen t.IsChild

/-- The subtrees of the listed nodes, one after the other, are the interval from `first` to
`last`. -/
def Tiles (t : Tree) (first : Nat) : List NodeId → (last : Nat) → Prop
  | [], last => first = last
  | c :: cs, last => c = first ∧ Tiles t (first + t.subtreeSize c) cs last

/-- A tree in pre-order, its root at position 0. -/
structure IsPreorder (t : Tree) : Prop where
  nonempty : 0 < t.size
  /-- Only the root has no parent. -/
  parent_eq_none : ∀ (i : Nat) (n : Node), t.node? i = some n → (n.parent = none ↔ i = 0)
  root_depth : ∀ n : Node, t.node? 0 = some n → n.depth = 0
  /-- Children come after their parent, know it, and lie one level deeper. -/
  child : ∀ (i : Nat) (n : Node), t.node? i = some n → ∀ c ∈ n.childIds.toList,
    i < c ∧ ∃ m, t.node? c = some m ∧ m.parent = some i ∧ m.depth = n.depth + 1
  increasing : ∀ (i : Nat) (n : Node), t.node? i = some n → n.childIds.toList.Pairwise (· < ·)
  /-- A node other than the root is a child of its parent, and of no other node. -/
  listed : ∀ (c : Nat) (m : Node), t.node? c = some m → c ≠ 0 →
    ∃ p < c, m.parent = some p ∧
      ∀ (i : Nat) (n : Node), t.node? i = some n → (c ∈ n.childIds.toList ↔ i = p)
  /-- A node and what is below it are an interval. -/
  interval : ∀ i : Nat, i < t.size → i + t.subtreeSize i ≤ t.size ∧
    ∀ j, t.Reaches i j ↔ i ≤ j ∧ j < i + t.subtreeSize i
  /-- The subtrees of the children fill the interval after the node. -/
  tiling : ∀ (i : Nat) (n : Node), t.node? i = some n →
    t.Tiles (i + 1) n.childIds.toList (i + t.subtreeSize i)

/-! ## Below one node -/

/-- Below a forest the positions follow one another. -/
theorem ShowsAll.descendantsUpTo {t : Tree} (ts : List RecordTree) :
    ∀ {p : Option NodeId} {d first levels : Nat}, t.ShowsAll p d first ts →
      RecordTree.sizeAll ts ≤ levels →
      (RecordTree.tops first ts).flatMap (fun c => c :: t.descendantsUpTo levels c) =
        List.range' first (RecordTree.sizeAll ts) := by
  induction ts using RecordTree.forest_induction with
  | nil => intro p d first levels _ _; rfl
  | cons s ts below beside =>
    intro p d first levels h hlevels
    obtain ⟨hs, hts⟩ := h.cons
    have hsize := s.size_eq
    rw [RecordTree.sizeAll] at hlevels
    obtain ⟨levels, rfl⟩ : ∃ lower, levels = lower + 1 := ⟨levels - 1, by omega⟩
    have hbelow : t.descendantsUpTo (levels + 1) first =
        List.range' (first + 1) (RecordTree.sizeAll s.children) := by
      rw [Tree.descendantsUpTo, hs.childIds]
      exact below hs.below (by omega)
    rw [RecordTree.tops_cons, List.flatMap_cons, hbelow, beside hts (by omega),
      RecordTree.range'_sizeAll_cons, List.cons_append]

/-- Every position of a forest is reached from one of its tops. -/
theorem ShowsAll.exists_reaches {t : Tree} (ts : List RecordTree) :
    ∀ {p : Option NodeId} {d first j : Nat}, t.ShowsAll p d first ts → first ≤ j →
      j < first + RecordTree.sizeAll ts → ∃ c ∈ RecordTree.tops first ts, t.Reaches c j := by
  induction ts using RecordTree.forest_induction with
  | nil =>
    intro p d first j _ hle hlt
    rw [RecordTree.sizeAll] at hlt
    omega
  | cons s ts below beside =>
    intro p d first j h hle hlt
    obtain ⟨hs, hts⟩ := h.cons
    have hsize := s.size_eq
    rw [RecordTree.sizeAll] at hlt
    by_cases htop : j = first
    · subst htop
      exact ⟨j, List.mem_cons_self, .refl⟩
    by_cases hin : j < first + s.size
    · obtain ⟨c, hc, hreach⟩ := below hs.below (show first + 1 ≤ j by omega) (by omega)
      refine ⟨first, List.mem_cons_self, .head ?_ hreach⟩
      rw [IsChild, hs.childIds]
      exact hc
    · obtain ⟨c, hc, hreach⟩ := beside hts (show first + s.size ≤ j by omega) (by omega)
      exact ⟨c, List.mem_cons_of_mem _ hc, hreach⟩

namespace Shows

variable {t : Tree} {p : Option NodeId} {d i : Nat} {s : RecordTree}

theorem descendants (h : t.Shows p d i s) :
    t.descendants i = List.range' (i + 1) (RecordTree.sizeAll s.children) := by
  have hle := h.add_size_le
  have hsize := s.size_eq
  obtain ⟨levels, hlevels⟩ : ∃ levels, t.size = levels + 1 := ⟨t.size - 1, by omega⟩
  rw [Tree.descendants, hlevels, Tree.descendantsUpTo, h.childIds]
  exact ShowsAll.descendantsUpTo s.children h.below (by omega)

theorem subtreeSize (h : t.Shows p d i s) : t.subtreeSize i = s.size := by
  rw [Tree.subtreeSize, h.descendants, List.length_range', s.size_eq]

/-- **What a node reaches is the interval of its subtree.** -/
theorem reaches_iff (h : t.Shows p d i s) (j : Nat) : t.Reaches i j ↔ i ≤ j ∧ j < i + s.size := by
  have hsize := s.size_eq
  constructor
  · intro hreach
    induction hreach using Relation.ReflTransGen.head_induction_on generalizing p d s with
    | refl => exact ⟨Nat.le_refl j, by omega⟩
    | head hchild _ ih =>
      rw [IsChild, h.childIds] at hchild
      obtain ⟨s', hs', hlt, hle⟩ := h.child hchild
      have hin := ih hs' s'.size_eq
      omega
  · rintro ⟨hle, hlt⟩
    by_cases htop : j = i
    · rw [htop]
      exact .refl
    · obtain ⟨c, hc, hreach⟩ := ShowsAll.exists_reaches s.children h.below (show i + 1 ≤ j by omega)
        (by omega)
      refine .head ?_ hreach
      rw [IsChild, h.childIds]
      exact hc

end Shows

/-- The subtrees of a forest fill its interval. -/
theorem ShowsAll.tiles {t : Tree} (ts : List RecordTree) :
    ∀ {p : Option NodeId} {d first : Nat}, t.ShowsAll p d first ts →
      t.Tiles first (RecordTree.tops first ts) (first + RecordTree.sizeAll ts) := by
  induction ts with
  | nil => intro p d first _; rfl
  | cons s ts ih =>
    intro p d first h
    obtain ⟨hs, hts⟩ := h.cons
    refine ⟨rfl, ?_⟩
    rw [hs.subtreeSize, RecordTree.sizeAll, ← Nat.add_assoc]
    exact ih hts

/-! ## The whole tree -/

/-- The node at the top of a subtree. -/
theorem Shows.node {t : Tree} {p : Option NodeId} {d i : Nat} {s : RecordTree}
    (h : t.Shows p d i s) : ∃ n, t.node? i = some n ∧ n.parent = p ∧ n.depth = d ∧
      n.childIds.toList = RecordTree.tops (i + 1) s.children := by
  have htop := h.top
  rw [getElem?_plainNodes] at htop
  obtain ⟨n, hn, hplain⟩ := Option.map_eq_some_iff.mp htop
  have hparent := RecordTree.top_parent p d i s
  have hdepth := RecordTree.top_depth p d i s
  have hchildren := RecordTree.top_childIds p d i s
  rw [← hplain] at hparent hdepth hchildren
  exact ⟨n, hn, hparent, hdepth, congrArg Array.toList hchildren⟩

section Whole

variable {t : Tree} {tree : RecordTree} {i : Nat}

/-- Every position of a tree that lists a record tree is the top of a subtree. -/
theorem ShowsAll.exists_shows (h : t.ShowsAll none 0 0 [tree]) (hsize : t.size = tree.size)
    (hi : i < t.size) :
    ∃ p d s, RecordTree.Occurs none 0 0 [tree] p d i s ∧ t.Shows p d i s := by
  have hlt : i < 0 + RecordTree.sizeAll [tree] := by
    simp only [RecordTree.sizeAll]
    omega
  obtain ⟨p, d, s, hocc⟩ := RecordTree.exists_occurs [tree] none 0 0 i (Nat.zero_le i) hlt
  exact ⟨p, d, s, hocc, h.of_occurs hocc⟩

theorem ShowsAll.node (h : t.ShowsAll none 0 0 [tree]) (hsize : t.size = tree.size) {n : Node}
    (hn : t.node? i = some n) :
    ∃ p d s, RecordTree.Occurs none 0 0 [tree] p d i s ∧ t.Shows p d i s ∧ n.parent = p ∧
      n.depth = d ∧ n.childIds.toList = RecordTree.tops (i + 1) s.children := by
  obtain ⟨p, d, s, hocc, hs⟩ := h.exists_shows hsize (Array.getElem?_eq_some_iff.mp hn).1
  obtain ⟨n', hn', hnode⟩ := hs.node
  rw [hn] at hn'
  cases hn'
  exact ⟨p, d, s, hocc, hs, hnode⟩

/-- **A tree that lists a record tree is in pre-order.** -/
theorem ShowsAll.isPreorder (h : t.ShowsAll none 0 0 [tree]) (hsize : t.size = tree.size) :
    t.IsPreorder where
  nonempty := by
    rw [hsize]
    exact tree.size_pos
  parent_eq_none i n hn := by
    obtain ⟨p, d, s, hocc, -, hp, -⟩ := h.node hsize hn
    rcases hocc.root_or_child with ⟨hi, hnone, -⟩ | ⟨_, _, j, _, -, -, hj, hlt⟩
    · simp [hi, hp, hnone]
    · have hi : i ≠ 0 := by omega
      simp [hi, hp, hj]
  root_depth n hn := by
    obtain ⟨p, d, s, hocc, -, -, hd, -⟩ := h.node hsize hn
    rcases hocc.root_or_child with ⟨-, -, hzero⟩ | ⟨_, _, j, _, -, -, -, hlt⟩
    · rw [hd, hzero]
    · exact absurd hlt (Nat.not_lt_zero j)
  child i n hn c hc := by
    obtain ⟨p, d, s, -, hs, -, hd, hchildren⟩ := h.node hsize hn
    rw [hchildren] at hc
    obtain ⟨s', hs', hlt, -⟩ := hs.child hc
    obtain ⟨m, hm, hparent, hdepth, -⟩ := hs'.node
    exact ⟨hlt, m, hm, hparent, by rw [hdepth, hd]⟩
  increasing i n hn := by
    obtain ⟨p, d, s, -, -, -, -, hchildren⟩ := h.node hsize hn
    rw [hchildren]
    exact RecordTree.tops_pairwise s.children (i + 1)
  listed c m hm hc := by
    obtain ⟨p, d, s, hocc, -, hp, -⟩ := h.node hsize hm
    rcases hocc.root_or_child with ⟨hzero, -⟩ | ⟨p', d', j, s', hj, hin, hpj, hlt⟩
    · exact absurd hzero hc
    refine ⟨j, hlt, by rw [hp, hpj], fun i n hn => ⟨fun hmem => ?_, ?_⟩⟩
    · -- whatever lists it is what it has for its parent
      obtain ⟨_, _, s₁, -, hs₁, -, -, hchildren⟩ := h.node hsize hn
      rw [hchildren] at hmem
      obtain ⟨s₂, hs₂, -⟩ := hs₁.child hmem
      obtain ⟨m', hm', hparent, -⟩ := hs₂.node
      rw [hm] at hm'
      cases hm'
      rw [hp, hpj] at hparent
      exact (Option.some.inj hparent).symm
    · rintro rfl
      obtain ⟨n', hn', -, -, hchildren⟩ := (h.of_occurs hj).node
      rw [hn] at hn'
      cases hn'
      rw [hchildren]
      exact hin
  interval i hi := by
    obtain ⟨p, d, s, -, hs⟩ := h.exists_shows hsize hi
    rw [hs.subtreeSize]
    exact ⟨hs.add_size_le, hs.reaches_iff⟩
  tiling i n hn := by
    obtain ⟨p, d, s, -, hs, -, -, hchildren⟩ := h.node hsize hn
    have hlast : i + t.subtreeSize i = i + 1 + RecordTree.sizeAll s.children := by
      rw [hs.subtreeSize, s.size_eq]
      omega
    rw [hchildren, hlast]
    exact ShowsAll.tiles s.children hs.below

end Whole

end Tree

/-- **Decoded trees are in pre-order**, whatever the dump and the options. -/
theorem decode_isPreorder {options : Options} {raw : Json} {u : TranslationUnit}
    (h : decode options raw = .ok u) : u.tree.IsPreorder := by
  obtain ⟨tree, errors, -, rfl⟩ := decode_eq_ok_iff.mp h
  exact (tree.showsAll_unit options.target errors).isPreorder (tree.size_unit ..)

/-- A dump of three levels, with a malformed item that is dropped. -/
theorem decode_isPreorder_dropped :
    let options : Options := { Options.default with recoverMalformed := true }
    let raw : Json := .branch "0x1" "CompoundStmt" [
      .branch "0x2" "ForStmt" [.obj [("id", .str "0x3")], .leaf "0x4" "VarDecl"],
      .leaf "0x5" "ReturnStmt"]
    ∃ u, decode options raw = .ok u ∧ u.tree.IsPreorder := by
  intro options raw
  exact ⟨_, rfl, @decode_isPreorder options raw _ rfl⟩

end AstDump
