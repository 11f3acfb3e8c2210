import AstDump.Proofs.Forest
import AstDump.Tree.Search

/-!
# What a search finds

Below a node whose subtree is complete, a search with a worklist asks its predicate about the nodes
of one kind in the order of their positions: all positions of the subtree after the top for a deep
search, the tops of the trees below it for a search among the children.

* `Tree.Shows`                : a tree of nodes shows a record tree at a position, views aside;
* `Tree.searchM_tops`         : the worklist of a forest takes its positions one after the other;
* `Tree.Shows.collectWhereM`  : a search is a left fold over its candidates;
* `Tree.Shows.collectWhere`   : with a predicate that looks at the candidate alone, a filter;
* `Tree.Shows.collect`        : without a predicate, a filter by kind.
-/

namespace AstDump

/-- The node without its view. -/
def Node.plain (n : Node) : Node := { n with view := .plain }

namespace Tree

/-- The nodes of a tree without their views. -/
def plainNodes (t : Tree) : List Node := t.nodes.toList.map Node.plain

@[simp] theorem length_plainNodes (t : Tree) : t.plainNodes.length = t.size := by
  simp [plainNodes, size]

theorem getElem?_plainNodes (t : Tree) (i : Nat) :
    t.plainNodes[i]? = (t.node? i).map Node.plain := by
  simp [plainNodes, node?]

theorem kind?_eq (t : Tree) (i : Nat) : t.kind? i = t.plainNodes[i]?.map Node.kind := by
  rw [getElem?_plainNodes, kind?, Option.map_map]
  rfl

theorem childIds_eq (t : Tree) (i : Nat) :
    t.childIds i = (t.plainNodes[i]?.map Node.childIds).getD #[] := by
  rw [getElem?_plainNodes, childIds, Option.map_map]
  rfl

theorem declaredType?_eq (t : Tree) (i : Nat) :
    (t.node? i).bind Node.declaredType? = t.plainNodes[i]?.bind Node.declaredType? := by
  rw [getElem?_plainNodes, Option.bind_map]
  rfl

/-- A record tree is listed at a position, below a parent and at a depth. Views do not matter. -/
def Shows (t : Tree) (p : Option NodeId) (d : Nat) (i : Nat) (s : RecordTree) : Prop :=
  ListedAt t.plainNodes i (s.nodes p d i)

/-- A forest is listed from a position on. Views do not matter. -/
def ShowsAll (t : Tree) (p : Option NodeId) (d : Nat) (first : Nat) (ts : List RecordTree) : Prop :=
  ListedAt t.plainNodes first (RecordTree.nodesAll p d first ts)

theorem ShowsAll.of_occurs {t : Tree} {parent p : Option NodeId} {depth d first i : Nat}
    {ts : List RecordTree} {s : RecordTree} (h : t.ShowsAll parent depth first ts)
    (hs : RecordTree.Occurs parent depth first ts p d i s) : t.Shows p d i s := hs.isListed h

theorem ShowsAll.cons {t : Tree} {p : Option NodeId} {d first : Nat} {s : RecordTree}
    {ts : List RecordTree} (h : t.ShowsAll p d first (s :: ts)) :
    t.Shows p d first s ∧ t.ShowsAll p d (first + s.size) ts := by
  have hcut := h.append
  rw [RecordTree.length_nodes] at hcut
  exact hcut

namespace Shows

variable {t : Tree} {p : Option NodeId} {d i : Nat} {s : RecordTree}

/-- A tree is a forest of one. -/
theorem all (h : t.Shows p d i s) : t.ShowsAll p d i [s] := by
  unfold ShowsAll
  rw [RecordTree.nodesAll_singleton]
  exact h

theorem top (h : t.Shows p d i s) : t.plainNodes[i]? = some (s.top p d i) := by
  unfold Shows at h
  rw [RecordTree.nodes_eq] at h
  exact h.cons.1

theorem below (h : t.Shows p d i s) : t.ShowsAll (some i) (d + 1) (i + 1) s.children := by
  unfold Shows at h
  rw [RecordTree.nodes_eq] at h
  exact h.cons.2

theorem childIds (h : t.Shows p d i s) :
    t.childIds i = (RecordTree.tops (i + 1) s.children).toArray := by
  rw [childIds_eq, h.top]
  exact RecordTree.top_childIds p d i s

theorem add_size_le (h : t.Shows p d i s) : i + s.size ≤ t.size := by
  have hne : s.nodes p d i ≠ [] := by
    rw [RecordTree.nodes_eq]
    exact List.cons_ne_nil _ _
  have hle := ListedAt.length_le h hne
  rwa [RecordTree.length_nodes, length_plainNodes] at hle

/-- A child of a node is the top of a subtree of its own, within that of the node. -/
theorem child (h : t.Shows p d i s) {c : Nat} (hc : c ∈ RecordTree.tops (i + 1) s.children) :
    ∃ s', t.Shows (some i) (d + 1) c s' ∧ i < c ∧ c + s'.size ≤ i + s.size := by
  obtain ⟨s', hlisted⟩ := RecordTree.occurs_of_mem_tops s.children hc
  have hocc := hlisted (some i) (d + 1) 0
  have hbounds := hocc.bounds
  have hsize := s.size_eq
  exact ⟨s', h.below.of_occurs hocc, by omega, by omega⟩

end Shows

/-! ## The worklist -/

section Monadic

variable {m : Type → Type} [Monad m] {t : Tree} {kind : Kind}
  {accept : Array NodeId → NodeId → m Bool}

theorem searchM_nil (recursive : Bool) (n : Nat) (found : Array NodeId) :
    t.searchM kind recursive accept n [] found = pure found := by
  cases n <;> rfl

/-- A search that does not go down tests its worklist. -/
theorem searchM_direct (worklist : List NodeId) :
    ∀ (n : Nat) (found : Array NodeId), worklist.length ≤ n →
      t.searchM kind false accept n worklist found =
        worklist.foldlM (t.testM kind accept) found := by
  induction worklist with
  | nil => intro n found _; exact searchM_nil false n found
  | cons i rest ih =>
    intro n found hn
    obtain ⟨n, rfl⟩ : ∃ k, n = k + 1 := ⟨n - 1, by simp only [List.length_cons] at hn; omega⟩
    rw [searchM, List.foldlM_cons]
    congr 1
    funext found
    exact ih n found (by simpa using hn)

/-- **A deep search takes the positions of a forest one after the other**, before the rest of its
worklist. -/
theorem searchM_tops [LawfulMonad m] (ts : List RecordTree) :
    ∀ (p : Option NodeId) (d first n : Nat) (rest : List NodeId) (found : Array NodeId),
      t.ShowsAll p d first ts →
      t.searchM kind true accept (RecordTree.sizeAll ts + n) (RecordTree.tops first ts ++ rest)
          found =
        ((List.range' first (RecordTree.sizeAll ts)).foldlM (t.testM kind accept) found >>=
          t.searchM kind true accept n rest) := by
  induction ts using RecordTree.forest_induction with
  | nil =>
    intro p d first n rest found _
    simp [RecordTree.sizeAll, RecordTree.tops]
  | cons s ts below beside =>
    intro p d first n rest found h
    have hs := h.cons.1
    have hpos : RecordTree.sizeAll (s :: ts) + n =
        (RecordTree.sizeAll s.children + (RecordTree.sizeAll ts + n)) + 1 := by
      rw [RecordTree.sizeAll, RecordTree.size_eq]
      omega
    rw [hpos, RecordTree.range'_sizeAll_cons, RecordTree.tops_cons, List.cons_append, searchM,
      List.foldlM_cons, bind_assoc]
    congr 1
    funext found
    -- the worklist is now the tops below the first tree, then the tops beside it
    rw [if_pos rfl, hs.childIds, List.foldlM_append, bind_assoc,
      below _ _ _ _ _ _ hs.below]
    congr 1
    funext found
    exact beside _ _ _ _ _ _ h.cons.2

end Monadic

/-- The nodes that a search below a node asks about, in order. -/
def candidates (i : Nat) (s : RecordTree) (recursive : Bool) : List NodeId :=
  if recursive then List.range' (i + 1) (RecordTree.sizeAll s.children)
  else RecordTree.tops (i + 1) s.children

namespace Shows

variable {t : Tree} {p : Option NodeId} {d i : Nat} {s : RecordTree}

/-- **A search is a left fold over its candidates.** The bound on the number of nodes is never
reached. -/
theorem collectWhereM {m : Type → Type} [Monad m] [LawfulMonad m] (h : t.Shows p d i s)
    (kind : Kind) (recursive : Bool) (accept : Array NodeId → NodeId → m Bool) :
    t.collectWhereM i kind recursive accept =
      (candidates i s recursive).foldlM (t.testM kind accept) #[] := by
  have hsize := h.add_size_le
  have heq := s.size_eq
  unfold Tree.collectWhereM candidates
  rw [h.childIds]
  cases recursive with
  | false =>
    have hlen : (RecordTree.tops (i + 1) s.children).length ≤ t.size := by
      have := RecordTree.length_le_sizeAll s.children
      rw [RecordTree.length_tops]
      omega
    exact searchM_direct _ _ _ hlen
  | true =>
    obtain ⟨n, hn⟩ : ∃ n, t.size = RecordTree.sizeAll s.children + n :=
      ⟨t.size - RecordTree.sizeAll s.children, by omega⟩
    have hsearch := @searchM_tops m _ t kind accept _ s.children (some i) (d + 1) (i + 1) n [] #[]
      h.below
    rw [List.append_nil] at hsearch
    have hlast : t.searchM kind true accept n [] = pure := funext (searchM_nil true n)
    rw [hn, hsearch, hlast, bind_pure]
    rfl

/-- A search whose predicate looks at the candidate alone is a filter. -/
theorem collectWhere (h : t.Shows p d i s) (kind : Kind) (recursive : Bool) (q : NodeId → Bool) :
    t.collectWhere i kind recursive (fun _ j => q j) =
      ((candidates i s recursive).filter fun j => t.kind? j = some kind ∧ q j).toArray := by
  unfold Tree.collectWhere
  rw [h.collectWhereM]
  generalize candidates i s recursive = js
  suffices ∀ found : Array NodeId,
      Id.run (js.foldlM (t.testM kind fun _ j => pure (q j)) found) =
        found ++ (js.filter fun j => t.kind? j = some kind ∧ q j).toArray by
    simpa using this #[]
  induction js with
  | nil => intro found; simp
  | cons j js ih =>
    intro found
    rw [List.foldlM_cons]
    by_cases hkind : t.kind? j = some kind
    · cases hq : q j with
      | false => simpa [testM, hkind, hq] using ih found
      | true => simpa [testM, hkind, hq] using ih (found.push j)
    · simpa [testM, hkind] using ih found

theorem collect (h : t.Shows p d i s) (kind : Kind) (recursive : Bool) :
    t.collect i kind recursive =
      ((candidates i s recursive).filter fun j => t.kind? j = some kind).toArray := by
  rw [Tree.collect, h.collectWhere]
  simp

theorem collectFirst? (h : t.Shows p d i s) (kind : Kind) :
    t.collectFirst? i kind =
      (RecordTree.tops (i + 1) s.children).find? fun j => t.kind? j = some kind := by
  rw [Tree.collectFirst?, h.childIds, List.find?_toArray]

end Shows

end Tree

end AstDump
