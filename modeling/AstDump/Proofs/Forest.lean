import AstDump.Decode.RecordTree

/-!
# Listings of forests

The nodes of a forest stand one tree after the other, and those of a tree below its top. A listing
is laid out so that every subtree is a segment of it:

* `RecordTree.forest_induction` : a forest is empty, or a tree with a forest below it before a
  forest beside it;
* `RecordTree.Occurs`           : a subtree stands at a position of a listing;
* `RecordTree.exists_occurs`    : some subtree stands at every position;
* `RecordTree.Occurs.isListed`  : its nodes are a segment of the listing, from that position on.
-/

namespace AstDump

/-! ## Segments -/

/-- The elements `ns` stand in a list from position `first` on. -/
def ListedAt {α : Type} (all : List α) (first : Nat) (ns : List α) : Prop := ns <+: all.drop first

namespace ListedAt

variable {α : Type} {all : List α} {first : Nat}

theorem cons {n : α} {ns : List α} (h : ListedAt all first (n :: ns)) :
    all[first]? = some n ∧ ListedAt all (first + 1) ns := by
  obtain ⟨after, hafter⟩ := h
  refine ⟨?_, after, ?_⟩
  · simpa [List.head?_drop] using (congrArg List.head? hafter).symm
  · rw [← List.drop_drop, ← hafter]
    rfl

theorem append {ms ns : List α} (h : ListedAt all first (ms ++ ns)) :
    ListedAt all first ms ∧ ListedAt all (first + ms.length) ns := by
  obtain ⟨after, hafter⟩ := h
  refine ⟨⟨ns ++ after, by rw [← List.append_assoc, hafter]⟩, after, ?_⟩
  rw [← List.drop_drop, ← hafter, List.append_assoc, List.drop_left]

theorem getElem? {ns : List α} (h : ListedAt all first ns) {k : Nat} (hk : k < ns.length) :
    all[first + k]? = ns[k]? := by
  obtain ⟨after, hafter⟩ := h
  rw [← List.getElem?_drop, ← hafter, List.getElem?_append_left hk]

theorem length_le {ns : List α} (h : ListedAt all first ns) (hne : ns ≠ []) :
    first + ns.length ≤ all.length := by
  have hlen := List.IsPrefix.length_le h
  have hpos := List.length_pos_iff.mpr hne
  rw [List.length_drop] at hlen
  omega

end ListedAt

namespace RecordTree

/-! ## Sizes and tops -/

/-- The trees below the top of a tree. -/
def children : RecordTree → List RecordTree
  | leaf _ _ _ => []
  | branch _ _ _ children => children

/-- What holds of the empty forest, and of a tree before a forest when it holds of what is below the
tree and of the forest, holds of every forest. -/
@[elab_as_elim]
theorem forest_induction {motive : List RecordTree → Prop} (nil : motive [])
    (cons : ∀ t ts, motive t.children → motive ts → motive (t :: ts)) : ∀ ts, motive ts
  | [] => nil
  | leaf _ _ _ :: ts => cons _ ts nil (forest_induction nil cons ts)
  | branch _ _ _ cs :: ts =>
    cons _ ts (forest_induction nil cons cs) (forest_induction nil cons ts)

theorem tops_cons (first : Nat) (t : RecordTree) (ts : List RecordTree) :
    tops first (t :: ts) = first :: tops (first + t.size) ts := rfl

theorem size_eq (t : RecordTree) : t.size = sizeAll t.children + 1 := by
  cases t <;> rfl

theorem size_pos (t : RecordTree) : 0 < t.size := by
  rw [size_eq]
  omega

theorem nodes_eq (parent : Option NodeId) (depth : Nat) (first : Nat) (t : RecordTree) :
    t.nodes parent depth first = t.top parent depth first ::
      nodesAll (some first) (depth + 1) (first + 1) t.children := by
  cases t <;> rfl

theorem top_childIds (parent : Option NodeId) (depth : Nat) (first : Nat) (t : RecordTree) :
    (t.top parent depth first).childIds = (tops (first + 1) t.children).toArray := by
  cases t <;> rfl

@[simp] theorem top_parent (parent : Option NodeId) (depth : Nat) (first : Nat)
    (t : RecordTree) : (t.top parent depth first).parent = parent := by
  cases t <;> rfl

@[simp] theorem top_depth (parent : Option NodeId) (depth : Nat) (first : Nat)
    (t : RecordTree) : (t.top parent depth first).depth = depth := by
  cases t <;> rfl

@[simp] theorem length_nodesAll (ts : List RecordTree) :
    ∀ (parent : Option NodeId) (depth : Nat) (first : Nat),
      (nodesAll parent depth first ts).length = sizeAll ts := by
  induction ts using forest_induction with
  | nil => intros; rfl
  | cons t ts below beside =>
    intro parent depth first
    rw [nodesAll, nodes_eq, sizeAll, size_eq, List.length_append, List.length_cons, below, beside]

@[simp] theorem length_nodes (parent : Option NodeId) (depth : Nat) (first : Nat)
    (t : RecordTree) : (t.nodes parent depth first).length = t.size := by
  rw [nodes_eq, List.length_cons, length_nodesAll, size_eq]

theorem nodesAll_singleton (parent : Option NodeId) (depth : Nat) (first : Nat)
    (t : RecordTree) : nodesAll parent depth first [t] = t.nodes parent depth first := by
  rw [nodesAll, nodesAll, List.append_nil]

theorem nodesAll_append (parent : Option NodeId) (depth : Nat) (ss ts : List RecordTree) :
    ∀ first : Nat, nodesAll parent depth first (ss ++ ts) =
      nodesAll parent depth first ss ++ nodesAll parent depth (first + sizeAll ss) ts := by
  induction ss with
  | nil => intro first; rfl
  | cons s ss ih =>
    intro first
    rw [List.cons_append, nodesAll, nodesAll, ih, sizeAll, List.append_assoc, Nat.add_assoc]

/-- Nothing in a listing lies higher than its tops. -/
theorem depth_le_of_mem_nodesAll (ts : List RecordTree) :
    ∀ {parent : Option NodeId} {depth first : Nat} {n : Node},
      n ∈ nodesAll parent depth first ts → depth ≤ n.depth := by
  induction ts using forest_induction with
  | nil => intro parent depth first n h; cases h
  | cons t ts below beside =>
    intro parent depth first n h
    rw [nodesAll, nodes_eq, List.cons_append, List.mem_cons, List.mem_append] at h
    rcases h with rfl | h | h
    · exact Nat.le_of_eq (top_depth ..).symm
    · exact Nat.le_of_succ_le (below h)
    · exact beside h

/-- The positions of a forest: those of its first tree, top first, then those of the others. -/
theorem range'_sizeAll_cons (first : Nat) (t : RecordTree) (ts : List RecordTree) :
    List.range' first (sizeAll (t :: ts)) = first ::
      (List.range' (first + 1) (sizeAll t.children) ++
        List.range' (first + t.size) (sizeAll ts)) := by
  rw [sizeAll, size_eq, Nat.add_right_comm, List.range'_succ, ← List.range'_append_1,
    Nat.add_right_comm, Nat.add_assoc]

theorem length_tops (ts : List RecordTree) : ∀ first : Nat, (tops first ts).length = ts.length := by
  induction ts with
  | nil => intro first; rfl
  | cons t ts ih => intro first; rw [tops, List.length_cons, List.length_cons, ih]

/-- A forest has no more trees than nodes. -/
theorem length_le_sizeAll (ts : List RecordTree) : ts.length ≤ sizeAll ts := by
  induction ts with
  | nil => exact Nat.le_refl 0
  | cons t ts ih =>
    have := t.size_pos
    rw [sizeAll, List.length_cons]
    omega

/-- The tops of a forest lie within its listing. -/
theorem mem_tops_bounds (ts : List RecordTree) :
    ∀ {first c : Nat}, c ∈ tops first ts → first ≤ c ∧ c < first + sizeAll ts := by
  induction ts with
  | nil => intro first c h; cases h
  | cons t ts ih =>
    intro first c h
    have hpos := t.size_pos
    rw [sizeAll]
    rcases List.mem_cons.mp h with rfl | h
    · omega
    · have := ih h
      omega

theorem tops_pairwise (ts : List RecordTree) :
    ∀ first : Nat, (tops first ts).Pairwise (· < ·) := by
  induction ts with
  | nil => intro first; exact .nil
  | cons t ts ih =>
    intro first
    refine List.pairwise_cons.mpr ⟨fun c hc => ?_, ih _⟩
    exact Nat.lt_of_lt_of_le (Nat.lt_add_of_pos_right t.size_pos) (mem_tops_bounds ts hc).1

/-! ## Subtrees of a listing -/

/-- Where the forest `ts` is listed from `first` on, below a parent and at a depth, the tree `s`
stands at position `i`, below the parent `p` and at the depth `d`. -/
inductive Occurs : (parent : Option NodeId) → (depth : Nat) → (first : Nat) →
    (ts : List RecordTree) → (p : Option NodeId) → (d : Nat) → (i : Nat) → (s : RecordTree) → Prop
  | here {parent : Option NodeId} {depth : Nat} {first : Nat} {t : RecordTree}
      {ts : List RecordTree} : Occurs parent depth first (t :: ts) parent depth first t
  | inside {parent p : Option NodeId} {depth d : Nat} {first i : Nat} {t s : RecordTree}
      {ts : List RecordTree} (h : Occurs (some first) (depth + 1) (first + 1) t.children p d i s) :
      Occurs parent depth first (t :: ts) p d i s
  | after {parent p : Option NodeId} {depth d : Nat} {first i : Nat} {t s : RecordTree}
      {ts : List RecordTree} (h : Occurs parent depth (first + t.size) ts p d i s) :
      Occurs parent depth first (t :: ts) p d i s

/-- **Every position of a listing is the top of a subtree.** -/
theorem exists_occurs (ts : List RecordTree) :
    ∀ (parent : Option NodeId) (depth : Nat) (first i : Nat), first ≤ i →
      i < first + sizeAll ts → ∃ p d s, Occurs parent depth first ts p d i s := by
  induction ts using forest_induction with
  | nil => intro parent depth first i hle hlt; simp only [sizeAll] at hlt; omega
  | cons t ts below beside =>
    intro parent depth first i hle hlt
    rw [sizeAll, size_eq] at hlt
    by_cases htop : i = first
    · subst htop
      exact ⟨parent, depth, t, .here⟩
    · by_cases hin : i < first + t.size
      · rw [size_eq] at hin
        obtain ⟨p, d, s, h⟩ := below (some first) (depth + 1) (first + 1) i (by omega) (by omega)
        exact ⟨p, d, s, .inside h⟩
      · rw [size_eq] at hin
        obtain ⟨p, d, s, h⟩ := beside parent depth (first + t.size) i
          (by rw [size_eq]; omega) (by rw [size_eq]; omega)
        exact ⟨p, d, s, .after h⟩

namespace Occurs

variable {parent p : Option NodeId} {depth d : Nat} {first i : Nat} {ts : List RecordTree}
  {s : RecordTree}

/-- **A subtree is listed where it stands.** -/
theorem isListed (h : Occurs parent depth first ts p d i s) {all : List Node}
    (hall : ListedAt all first (nodesAll parent depth first ts)) :
    ListedAt all i (s.nodes p d i) := by
  induction h with
  | here => exact hall.append.1
  | inside _ ih =>
    have htree := hall.append.1
    rw [nodes_eq] at htree
    exact ih htree.cons.2
  | after _ ih =>
    have hrest := hall.append.2
    rw [length_nodes] at hrest
    exact ih hrest

/-- A subtree ends no later than the listing that it stands in. -/
theorem bounds (h : Occurs parent depth first ts p d i s) :
    first ≤ i ∧ i + s.size ≤ first + sizeAll ts := by
  induction h with
  | here => rw [sizeAll]; omega
  | @inside _ _ _ _ _ _ t _ _ _ ih =>
    have := t.size_eq
    rw [sizeAll]
    omega
  | after _ ih => rw [sizeAll]; omega

/-- A subtree stands at the top of the listing, or is a child of a subtree that stands before it. -/
theorem parent_cases (h : Occurs parent depth first ts p d i s) :
    (i ∈ tops first ts ∧ p = parent ∧ d = depth) ∨
    ∃ p' d' j s', Occurs parent depth first ts p' d' j s' ∧ i ∈ tops (j + 1) s'.children ∧
      p = some j ∧ d = d' + 1 := by
  induction h with
  | here => exact .inl ⟨List.mem_cons_self, rfl, rfl⟩
  | @inside parent _ depth _ first _ t _ ts _ ih =>
    rcases ih with ⟨hi, hp, hd⟩ | ⟨p', d', j, s', hj, hi, hp, hd⟩
    · exact .inr ⟨parent, depth, first, t, .here, hi, hp, hd⟩
    · exact .inr ⟨p', d', j, s', .inside hj, hi, hp, hd⟩
  | after _ ih =>
    rcases ih with ⟨hi, hp, hd⟩ | ⟨p', d', j, s', hj, hi, hp, hd⟩
    · exact .inl ⟨List.mem_cons_of_mem _ hi, hp, hd⟩
    · exact .inr ⟨p', d', j, s', .after hj, hi, hp, hd⟩

/-- A subtree of a whole listing stands at its beginning, or below a node before it. -/
theorem root_or_child {tree s : RecordTree} {p : Option NodeId}
    {d i : Nat} (h : Occurs none 0 0 [tree] p d i s) :
    (i = 0 ∧ p = none ∧ d = 0) ∨ ∃ p' d' j s', Occurs none 0 0 [tree] p' d' j s' ∧
      i ∈ tops (j + 1) s'.children ∧ p = some j ∧ j < i := by
  rcases h.parent_cases with ⟨hi, hp, hd⟩ | ⟨p', d', j, s', hj, hi, hp, -⟩
  · exact .inl ⟨List.mem_singleton.mp hi, hp, hd⟩
  · exact .inr ⟨p', d', j, s', hj, hi, hp, (mem_tops_bounds s'.children hi).1⟩

end Occurs

/-- The tops of a forest are the tops of its trees, wherever the forest is listed. -/
theorem occurs_of_mem_tops (ts : List RecordTree) :
    ∀ {first c : Nat}, c ∈ tops first ts → ∃ t, ∀ (parent : Option NodeId) (depth n : Nat),
      Occurs parent depth (first + n) ts parent depth (c + n) t := by
  induction ts with
  | nil => intro first c h; cases h
  | cons t ts ih =>
    intro first c h
    rcases List.mem_cons.mp h with rfl | h
    · exact ⟨t, fun _ _ _ => .here⟩
    · obtain ⟨s, hc⟩ := ih h
      refine ⟨s, fun parent depth n => .after ?_⟩
      rw [Nat.add_right_comm]
      exact hc parent depth n

end RecordTree

end AstDump
