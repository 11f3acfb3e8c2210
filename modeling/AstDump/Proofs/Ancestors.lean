import AstDump.Proofs.Preorder

/-!
# The way up

The parent of a node is written down when the node is entered, the children when it is closed. In a
decoded tree the two tell the same: whoever stands on the way up from a node has the node below it.

* `Tree.IsPreorder.parent?_eq_some_iff` : parents and children are each other's converse;
* `Tree.IsPreorder.reaches_total`       : there is only one way up;
* `Tree.IsPreorder.not_reaches_of_sibling` : subtrees of two children have no node in common;
* `Tree.Climbs`                         : the way up from a node, parent by parent;
* `Tree.IsPreorder.exists_climbs`       : every node has one;
* `Tree.IsPreorder.mem_ancestors_iff`   : on the way up from a node is what the node lies below;
* `Tree.IsPreorder.enclosing?_eq_some_iff` : the nearest node of a kind there is the last one;
* `decode_ancestors`                    : the ways up in a decoded unit.
-/

namespace AstDump

namespace Tree

/-- The second node lies below the first: it is reached from there, along one child or more. -/
def Encloses (t : Tree) (a i : Nat) : Prop := a ≠ i ∧ t.Reaches a i

/-- The depth of a node. -/
def depth? (t : Tree) (i : Nat) : Option Nat := (t.node? i).map Node.depth

/-- The way up from a node at a depth is a list that ends, whatever bound is set to its length. -/
structure LeadsUp (t : Tree) (i depth : Nat) (up : List NodeId) : Prop where
  /-- Each node is the parent of the one before it, and the last one has no parent. -/
  parents : ∀ k : Nat, ((i :: up)[k]?).bind t.parent? = up[k]?
  /-- No bound is reached that the depth does not reach. -/
  bound_irrelevant : ∀ n, depth ≤ n → t.ancestorsUpTo n i = up
  length : up.length = depth
  decreasing : (i :: up).Pairwise fun a b => b < a
  /-- The depths count down to zero. -/
  depths : (i :: up).map t.depth? = (List.range (depth + 1)).reverse.map some
  last : (i :: up).getLast? = some root
  eq_nil_iff : up = [] ↔ i = root

/-! ## Parents and children -/

theorem childIds_of_node {t : Tree} {i : Nat} {n : Node} (h : t.node? i = some n) :
    t.childIds i = n.childIds := by
  simp [childIds, h]

theorem parent?_of_node {t : Tree} {i : Nat} {n : Node} (h : t.node? i = some n) :
    t.parent? i = n.parent := by
  simp [parent?, h]

/-- What has children is a node. -/
theorem IsChild.node {t : Tree} {i c : Nat} (h : t.IsChild i c) :
    ∃ n, t.node? i = some n ∧ c ∈ n.childIds.toList := by
  cases hn : t.node? i with
  | none => simp [IsChild, childIds, hn] at h
  | some n =>
    rw [IsChild, childIds_of_node hn] at h
    exact ⟨n, rfl, h⟩

namespace IsPreorder

variable {t : Tree} {a b i c : Nat} {kind : Kind}

theorem node_of_lt (hi : i < t.size) : ∃ n, t.node? i = some n :=
  ⟨t.nodes[i], Array.getElem?_eq_getElem hi⟩

/-- **The parent of a node is what lists it as a child.** -/
theorem parent?_eq_some_iff (h : t.IsPreorder) : t.parent? c = some i ↔ t.IsChild i c := by
  constructor
  · intro hparent
    obtain ⟨m, hm, hi⟩ := Option.bind_eq_some_iff.mp hparent
    have hc : c ≠ 0 := by
      intro hzero
      have hnone := (h.parent_eq_none c m hm).mpr hzero
      rw [hi] at hnone
      cases hnone
    obtain ⟨p, hlt, hp, hlisted⟩ := h.listed c m hm hc
    obtain rfl : i = p := Option.some.inj (hi.symm.trans hp)
    have hsize : c < t.size := (Array.getElem?_eq_some_iff.mp hm).1
    obtain ⟨n, hn⟩ := @node_of_lt t i (by omega)
    rw [IsChild, childIds_of_node hn]
    exact (hlisted i n hn).mpr rfl
  · intro hchild
    obtain ⟨n, hn, hc⟩ := hchild.node
    obtain ⟨-, m, hm, hparent, -⟩ := h.child i n hn c hc
    rw [parent?_of_node hm, hparent]

theorem lt_of_isChild (h : t.IsPreorder) (hc : t.IsChild i c) : i < c := by
  obtain ⟨n, hn, hmem⟩ := hc.node
  exact (h.child i n hn c hmem).1

theorem child_lt_size (h : t.IsPreorder) (hc : t.IsChild i c) : c < t.size := by
  obtain ⟨n, hn, hmem⟩ := hc.node
  obtain ⟨-, m, hm, -⟩ := h.child i n hn c hmem
  exact (Array.getElem?_eq_some_iff.mp hm).1

theorem le_of_reaches (h : t.IsPreorder) (hreach : t.Reaches a b) : a ≤ b := by
  induction hreach with
  | refl => exact Nat.le_refl a
  | tail _ hchild ih => exact Nat.le_trans ih (Nat.le_of_lt (h.lt_of_isChild hchild))

/-- A node is reached from itself and from what its parent is reached from. -/
theorem reaches_iff_parent? (h : t.IsPreorder) :
    t.Reaches a i ↔ i = a ∨ ∃ p, t.parent? i = some p ∧ t.Reaches a p := by
  rw [Reaches, Relation.ReflTransGen.cases_tail_iff]
  refine or_congr_right (exists_congr fun p => ?_)
  rw [h.parent?_eq_some_iff, and_comm]

/-- No child of a node is reached from another one: the way up leads past it. -/
theorem not_reaches_sibling (h : t.IsPreorder) (ha : t.IsChild i a) (hb : t.IsChild i b)
    (hne : a ≠ b) : ¬ t.Reaches a b := by
  intro hreach
  rcases h.reaches_iff_parent?.mp hreach with hsame | ⟨p, hparent, hreach⟩
  · exact hne hsame.symm
  · rw [h.parent?_eq_some_iff.mpr hb] at hparent
    cases hparent
    have hle := h.le_of_reaches hreach
    have hlt := h.lt_of_isChild ha
    omega

/-- Of two nodes that reach a third one, one reaches the other: there is only one way up. -/
theorem reaches_total (h : t.IsPreorder) (ha : t.Reaches a c) (hb : t.Reaches b c) :
    t.Reaches a b ∨ t.Reaches b a := by
  have hunique : Relator.RightUnique (Function.swap t.IsChild) := by
    intro j p q hp hq
    exact Option.some.inj
      ((h.parent?_eq_some_iff.mpr hp).symm.trans (h.parent?_eq_some_iff.mpr hq))
  rcases Relation.ReflTransGen.total_of_right_unique hunique hb.swap ha.swap with hup | hup
  · exact .inl hup.swap
  · exact .inr hup.swap

/-- **The subtrees of two children have no node in common.** -/
theorem not_reaches_of_sibling (h : t.IsPreorder) (ha : t.IsChild i a) (hb : t.IsChild i b)
    (hne : a ≠ b) (hreach : t.Reaches b c) : ¬ t.Reaches a c := by
  intro hreach'
  rcases h.reaches_total hreach' hreach with hdown | hdown
  · exact h.not_reaches_sibling ha hb hne hdown
  · exact h.not_reaches_sibling hb ha hne.symm hdown

end IsPreorder

/-! ## Climbing -/

/-- The way up from a node at a depth: nothing above the root, and otherwise the parent and the way
up from there. -/
inductive Climbs (t : Tree) : (i depth : Nat) → (up : List NodeId) → Prop
  | root {n : Node} (node : t.node? 0 = some n) (parent : n.parent = none) (depth : n.depth = 0) :
      Climbs t 0 0 []
  | step {i p d : Nat} {up : List NodeId} {n : Node} (node : t.node? i = some n)
      (parent : n.parent = some p) (depth : n.depth = d + 1) (lt : p < i)
      (rest : Climbs t p d up) : Climbs t i (d + 1) (p :: up)

/-- **Every node has a way up.** Parents stand before their children, so it comes to an end. -/
theorem IsPreorder.exists_climbs {t : Tree} (h : t.IsPreorder) {i : Nat} {n : Node}
    (hn : t.node? i = some n) : ∃ up, t.Climbs i n.depth up := by
  induction i using Nat.strongRecOn generalizing n with
  | ind i ih =>
    by_cases hzero : i = 0
    · subst hzero
      have hdepth := h.root_depth n hn
      rw [hdepth]
      exact ⟨[], .root hn ((h.parent_eq_none 0 n hn).mpr rfl) hdepth⟩
    · obtain ⟨p, hlt, hparent, hlisted⟩ := h.listed i n hn hzero
      have hsize : i < t.size := (Array.getElem?_eq_some_iff.mp hn).1
      obtain ⟨m, hm⟩ := @IsPreorder.node_of_lt t p (by omega)
      obtain ⟨-, n', hn', -, hdepth⟩ := h.child p m hm i ((hlisted p m hm).mpr rfl)
      rw [hn] at hn'
      cases hn'
      obtain ⟨up, hup⟩ := ih p hlt hm
      rw [hdepth]
      exact ⟨p :: up, .step hn hparent hdepth hlt hup⟩

namespace Climbs

variable {t : Tree} {i d : Nat} {up : List NodeId}

theorem depth?_eq (h : t.Climbs i d up) : t.depth? i = some d := by
  cases h with
  | root node _ depth => simp [depth?, node, depth]
  | step node _ depth => simp [depth?, node, depth]

theorem length (h : t.Climbs i d up) : up.length = d := by
  induction h with
  | root => rfl
  | step _ _ _ _ _ ih => rw [List.length_cons, ih]

/-- The depth is enough of a bound. -/
theorem ancestorsUpTo (h : t.Climbs i d up) : ∀ n, d ≤ n → t.ancestorsUpTo n i = up := by
  induction h with
  | root node parent _ =>
    intro n _
    cases n with
    | zero => rfl
    | succ n => rw [Tree.ancestorsUpTo, parent?_of_node node, parent]
  | step node parent _ _ _ ih =>
    intro n hn
    obtain ⟨n, rfl⟩ : ∃ m, n = m + 1 := ⟨n - 1, by omega⟩
    rw [Tree.ancestorsUpTo, parent?_of_node node, parent]
    simp only [ih n (by omega)]

theorem parents (h : t.Climbs i d up) : ∀ k : Nat, ((i :: up)[k]?).bind t.parent? = up[k]? := by
  induction h with
  | root node parent _ =>
    intro k
    cases k with
    | zero => simp [parent?_of_node node, parent]
    | succ k => simp
  | step node parent _ _ _ ih =>
    intro k
    cases k with
    | zero => simp [parent?_of_node node, parent]
    | succ k => simpa using ih k

theorem decreasing (h : t.Climbs i d up) : (i :: up).Pairwise fun a b => b < a := by
  induction h with
  | root => simp
  | step _ _ _ lt _ ih =>
    refine List.pairwise_cons.mpr ⟨fun a ha => ?_, ih⟩
    rcases List.mem_cons.mp ha with rfl | ha
    · exact lt
    · exact Nat.lt_trans ((List.pairwise_cons.mp ih).1 a ha) lt

theorem depths (h : t.Climbs i d up) :
    (i :: up).map t.depth? = (List.range (d + 1)).reverse.map some := by
  have hown := h.depth?_eq
  induction h with
  | root => simp [hown]
  | @step _ _ d _ _ _ _ _ _ rest ih =>
    have hrange : (List.range (d + 1 + 1)).reverse = (d + 1) :: (List.range (d + 1)).reverse := by
      rw [List.range_succ, List.reverse_append]
      rfl
    rw [List.map_cons, ih rest.depth?_eq, hown, hrange, List.map_cons]

theorem last (h : t.Climbs i d up) : (i :: up).getLast? = some Tree.root := by
  induction h with
  | root => rfl
  | step _ _ _ _ _ ih => rw [List.getLast?_cons_cons, ih]

/-- A way up is no deeper than its node stands. -/
theorem depth_le (h : t.Climbs i d up) : d ≤ i := by
  induction h with
  | root => exact Nat.le_refl 0
  | step _ _ _ lt _ ih => omega

theorem eq_nil_iff (h : t.Climbs i d up) : up = [] ↔ i = Tree.root := by
  cases h with
  | root => simp [Tree.root]
  | step _ _ _ lt _ =>
    have hne : i ≠ 0 := by omega
    simp [Tree.root, hne]

theorem leadsUp (h : t.Climbs i d up) : t.LeadsUp i d up :=
  ⟨h.parents, h.ancestorsUpTo, h.length, h.decreasing, h.depths, h.last, h.eq_nil_iff⟩

/-- **On the way up from a node is what the node lies below.** -/
theorem mem_iff (h : t.Climbs i d up) (hpre : t.IsPreorder) {a : Nat} :
    a ∈ up ↔ t.Encloses a i := by
  unfold Encloses
  induction h with
  | root node parent _ =>
    rw [hpre.reaches_iff_parent?, parent?_of_node node, parent]
    simp [eq_comm]
  | @step i p _ up _ node parent _ lt _ ih =>
    have hparent : t.parent? i = some p := by rw [parent?_of_node node, parent]
    have hreaches : t.Reaches a i ↔ i = a ∨ t.Reaches a p := by
      rw [hpre.reaches_iff_parent?, hparent]
      simp
    have hne : t.Reaches a p → a ≠ i := by
      intro hreach
      have hle := hpre.le_of_reaches hreach
      omega
    rw [List.mem_cons, ih, hreaches]
    constructor
    · rintro (rfl | ⟨-, hreach⟩)
      · exact ⟨hne .refl, .inr .refl⟩
      · exact ⟨hne hreach, .inr hreach⟩
    · rintro ⟨hai, rfl | hreach⟩
      · exact absurd rfl hai
      · by_cases hap : a = p
        · exact .inl hap
        · exact .inr ⟨hap, hreach⟩

end Climbs

/-- In a decreasing list the first element that a test accepts is the greatest. -/
theorem le_of_find?_decreasing {l : List Nat} (h : l.Pairwise fun a b => b < a) {p : Nat → Bool}
    {a b : Nat} (hfind : l.find? p = some a) (hb : b ∈ l) (hpb : p b = true) : b ≤ a := by
  obtain ⟨-, before, after, rfl, hbefore⟩ := List.find?_eq_some_iff_append.mp hfind
  obtain ⟨-, hrest, -⟩ := List.pairwise_append.mp h
  rcases List.mem_append.mp hb with hb | hb
  · have hnot := hbefore b hb
    simp [hpb] at hnot
  · rcases List.mem_cons.mp hb with rfl | hb
    · exact Nat.le_refl b
    · exact Nat.le_of_lt ((List.pairwise_cons.mp hrest).1 b hb)

namespace IsPreorder

variable {t : Tree} {a i : Nat} {n : Node} {kind : Kind}

theorem climbs_ancestors (h : t.IsPreorder) (hn : t.node? i = some n) :
    t.Climbs i n.depth (t.ancestors i) := by
  obtain ⟨up, hup⟩ := h.exists_climbs hn
  have hle := hup.depth_le
  have hlt : i < t.size := (Array.getElem?_eq_some_iff.mp hn).1
  rw [ancestors, hup.ancestorsUpTo t.size (by omega)]
  exact hup

theorem mem_ancestors_iff (h : t.IsPreorder) (hn : t.node? i = some n) :
    a ∈ t.ancestors i ↔ t.Encloses a i := (h.climbs_ancestors hn).mem_iff h

theorem enclosing?_eq_none_iff (h : t.IsPreorder) (hn : t.node? i = some n) :
    t.enclosing? i kind = none ↔ ∀ b, t.kind? b = some kind → ¬ t.Encloses b i := by
  rw [enclosing?, List.find?_eq_none]
  simp only [decide_eq_true_eq, h.mem_ancestors_iff hn]
  exact forall_congr' fun b => imp_not_comm

/-- **The nearest node of a kind on the way up is the last of those that the node lies below.** -/
theorem enclosing?_eq_some_iff (h : t.IsPreorder) (hn : t.node? i = some n) :
    t.enclosing? i kind = some a ↔ (t.kind? a = some kind ∧ t.Encloses a i) ∧
      ∀ b, t.kind? b = some kind → t.Encloses b i → b ≤ a := by
  have hdecreasing := (List.pairwise_cons.mp (h.climbs_ancestors hn).decreasing).2
  have hfound : ∀ {a}, t.enclosing? i kind = some a →
      (t.kind? a = some kind ∧ t.Encloses a i) ∧
        ∀ b, t.kind? b = some kind → t.Encloses b i → b ≤ a := by
    intro a ha
    have hmem := (h.mem_ancestors_iff hn).mp (List.mem_of_find?_eq_some ha)
    have hkind := List.find?_some ha
    simp only [decide_eq_true_eq] at hkind
    refine ⟨⟨hkind, hmem⟩, fun b hkind hb => ?_⟩
    exact le_of_find?_decreasing hdecreasing ha ((h.mem_ancestors_iff hn).mpr hb)
      (decide_eq_true hkind)
  refine ⟨hfound, fun ⟨⟨hkind, ha⟩, hlast⟩ => ?_⟩
  cases hb : t.enclosing? i kind with
  | none => exact absurd ha ((h.enclosing?_eq_none_iff hn).mp hb a hkind)
  | some b =>
    obtain ⟨⟨hkind', hb'⟩, hlast'⟩ := hfound hb
    rw [Nat.le_antisymm (hlast b hkind' hb') (hlast' a hkind ha)]

theorem encloses_iff (h : t.IsPreorder) (ha : a < t.size) :
    t.Encloses a i ↔ a < i ∧ i < a + t.subtreeSize a := by
  rw [Encloses, (h.interval a ha).2]
  omega

end IsPreorder

/-- A deep search finds the nodes of the kind within the subtree. -/
theorem Shows.mem_collect {t : Tree} {p : Option NodeId} {d a i : Nat} {s : RecordTree}
    (h : t.Shows p d a s) {kind : Kind} :
    i ∈ t.collect a kind true ↔
      (a < i ∧ i < a + t.subtreeSize a) ∧ t.kind? i = some kind := by
  have hsize := s.size_eq
  rw [h.collect, List.mem_toArray, List.mem_filter, candidates, if_pos rfl, List.mem_range'_1,
    decide_eq_true_iff, h.subtreeSize]
  refine and_congr_left fun _ => ?_
  omega

theorem Shows.collect_increasing {t : Tree} {p : Option NodeId} {d a : Nat} {s : RecordTree}
    (h : t.Shows p d a s) (kind : Kind) : (t.collect a kind true).toList.Pairwise (· < ·) := by
  rw [h.collect, candidates, if_pos rfl]
  exact List.Pairwise.filter _ List.pairwise_lt_range'

end Tree

/-- **Parents and children are dual**, whatever the dump and the options. The way up from a node has
as many nodes as the node is deep and ends at the root. A node stands there exactly if a deep search
from it finds the lower one, that is, if the lower one stands in the interval after it; and the
nearest node of a kind is the last one of the kind that the node lies below. -/
theorem decode_ancestors {options : Options} {raw : Json} {u : TranslationUnit}
    (h : decode options raw = .ok u) :
    (∀ (i : Nat) (n : Node), u.tree.node? i = some n →
      u.tree.LeadsUp i n.depth (u.tree.ancestors i)) ∧
    (∀ (a i : Nat) (m n : Node), u.tree.node? a = some m → u.tree.node? i = some n →
      (a ∈ u.tree.ancestors i ↔ i ∈ u.tree.collect a n.kind true) ∧
      (i ∈ u.tree.collect a n.kind true ↔ a < i ∧ i < a + u.tree.subtreeSize a)) ∧
    ∀ (i : Nat) (n : Node) (kind : Kind), u.tree.node? i = some n →
      (∀ a, u.tree.enclosing? i kind = some a ↔
        (u.tree.kind? a = some kind ∧ u.tree.Encloses a i) ∧
          ∀ b, u.tree.kind? b = some kind → u.tree.Encloses b i → b ≤ a) ∧
      (u.tree.enclosing? i kind = none ↔
        ∀ b, u.tree.kind? b = some kind → ¬ u.tree.Encloses b i) := by
  obtain ⟨tree, errors, -, rfl⟩ := decode_eq_ok_iff.mp h
  have hall := tree.showsAll_unit options.target errors
  have hsize := tree.size_unit options.target errors
  have hpre := hall.isPreorder hsize
  refine ⟨fun i n hn => (hpre.climbs_ancestors hn).leadsUp, fun a i m n hm hn => ?_,
    fun i n kind hn => ⟨fun a => hpre.enclosing?_eq_some_iff hn, hpre.enclosing?_eq_none_iff hn⟩⟩
  obtain ⟨p, d, s, -, hs, -⟩ := hall.node hsize hm
  have hkind : (tree.unit options.target errors).tree.kind? i = some n.kind := by
    simp [Tree.kind?, hn]
  have hfound : i ∈ (tree.unit options.target errors).tree.collect a n.kind true ↔
      a < i ∧ i < a + (tree.unit options.target errors).tree.subtreeSize a := by
    rw [hs.mem_collect]
    simp [hkind]
  refine ⟨?_, hfound⟩
  rw [hpre.mem_ancestors_iff hn, hpre.encloses_iff (Array.getElem?_eq_some_iff.mp hm).1, hfound]

/-- A call in the inner of two loops, between a statement before the loops and a call after them. -/
theorem decode_ancestors_nested_loops :
    let raw : Json := .branch "0" "CompoundStmt" [.leaf "1" "NullStmt",
      .branch "2" "ForStmt" [.branch "3" "ForStmt" [.leaf "4" "CallExpr"]], .leaf "5" "CallExpr"]
    ∃ u m n, decode Options.default raw = .ok u ∧ u.tree.node? 2 = some m ∧
      u.tree.node? 4 = some n ∧ u.tree.LeadsUp 4 3 [3, 2, 0] ∧
      4 ∈ u.tree.collect 2 .callExpr true ∧ u.tree.enclosing? 4 .forStmt = some 3 ∧
      ∀ b, u.tree.kind? b = some .forStmt → u.tree.Encloses b 4 → b ≤ 3 := by
  intro raw
  have hvalues : (decode Options.default raw).toOption.map (fun u =>
      ((u.tree.node? 2).map Node.kind, (u.tree.node? 4).map fun n => (n.kind, n.depth),
        u.tree.ancestors 4, u.tree.enclosing? 4 .forStmt)) =
      some (some .forStmt, some (.callExpr, 3), [3, 2, 0], some 3) := by decide +kernel
  obtain ⟨u, hu, hvalues⟩ := exists_decode_of_map hvalues
  simp only [Prod.mk.injEq, Option.map_eq_some_iff] at hvalues
  obtain ⟨⟨m, hm, -⟩, ⟨n, hn, hcall, hdepth⟩, hup, hloop⟩ := hvalues
  obtain ⟨hways, hdual, hnearest⟩ := decode_ancestors hu
  have hway := hways 4 n hn
  have hbelow := (hdual 2 4 m n hm hn).1
  rw [hdepth, hup] at hway
  rw [hup, hcall] at hbelow
  exact ⟨u, m, n, hu, hm, hn, hway, hbelow.mp (by decide), hloop,
    (((hnearest 4 n .forStmt hn).1 3).mp hloop).2⟩

end AstDump
