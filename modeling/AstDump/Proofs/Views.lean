import AstDump.Proofs.Search
import AstDump.Tree.BuildView
import Mathlib.Data.List.Basic
import Mathlib.Data.List.Find

/-!
# Views depend on the subtree alone

What `buildView` reads of a tree lies in the subtree of the node, and of that subtree it reads
everything but the views. So a view that was built while only the subtree was there is the view that
is built on any larger tree, whatever stands around the subtree; and where the subtree stands
elsewhere, only the ids in the view are other ones.

* `View.moved`                    : a view whose ids are moved;
* `Tree.Shows.buildView_moved`    : the view of a subtree moves with the subtree;
* `Tree.Shows.buildView_congr`    : two trees that show the same subtree give it the same view;
* `Tree.ShowsAll.buildView_congr` : the same for every node of a forest.
-/

namespace AstDump

/-- The view with the ids in it moved by `n`. -/
def View.moved (n : Nat) : View → View
  | plain => plain
  | function v =>
    function { v with params := v.params.map (· + n), body := v.body.map (· + n) }
  | compound v => compound {
      varDecls := v.varDecls.map (· + n)
      forLoops := v.forLoops.map (· + n)
      whileLoops := v.whileLoops.map (· + n)
      doLoops := v.doLoops.map (· + n)
      calls := v.calls.map (· + n) }
  | loop v => loop {
      bounds := v.bounds.map fun b => ⟨b.lower + n, b.upper + n, b.step + n⟩
      body := v.body.map (· + n)
      varDecls := v.varDecls.map (· + n)
      calls := v.calls.map (· + n)
      breaks := v.breaks.map (· + n) }

theorem View.moved_zero (v : View) : v.moved 0 = v := by
  cases v <;> simp [moved]

namespace RecordTree

theorem tops_moved (n : Nat) (ts : List RecordTree) :
    ∀ first : Nat, tops (first + n) ts = (tops first ts).map (· + n) := by
  induction ts with
  | nil => intro first; rfl
  | cons t ts ih =>
    intro first
    rw [tops_cons, tops_cons, List.map_cons, ← ih, Nat.add_right_comm]

/-- The kinds of a forest do not depend on where it is listed. -/
theorem map_kind_nodesAll (ts : List RecordTree) : ∀ (p p' : Option NodeId) (d d' i i' : Nat),
    (nodesAll p d i ts).map Node.kind = (nodesAll p' d' i' ts).map Node.kind := by
  induction ts using forest_induction with
  | nil => intros; rfl
  | cons t ts below beside =>
    intro p p' d d' i i'
    have htop : (t.top p d i).kind = (t.top p' d' i').kind := by cases t <;> rfl
    rw [nodesAll, nodesAll, nodes_eq, nodes_eq, List.map_append, List.map_append, List.map_cons,
      List.map_cons, htop, below (some i) (some i') _ (d' + 1) _ (i' + 1),
      beside p p' _ d' _ (i' + t.size)]

end RecordTree

namespace Tree

theorem mem_candidates_bounds {i j : Nat} {s : RecordTree} {recursive : Bool}
    (h : j ∈ candidates i s recursive) : i < j ∧ j < i + s.size := by
  have hsize := s.size_eq
  unfold candidates at h
  cases recursive with
  | false =>
    have hj : j ∈ RecordTree.tops (i + 1) s.children := h
    have := RecordTree.mem_tops_bounds _ hj
    omega
  | true =>
    have hj : j ∈ List.range' (i + 1) (RecordTree.sizeAll s.children) := h
    rw [List.mem_range'_1] at hj
    omega

theorem candidates_moved (i n : Nat) (s : RecordTree) (recursive : Bool) :
    candidates (i + n) s recursive = (candidates i s recursive).map (· + n) := by
  unfold candidates
  cases recursive with
  | false =>
    have htops := RecordTree.tops_moved n s.children (i + 1)
    rw [Nat.add_right_comm] at htops
    exact htops
  | true =>
    have hrange : (List.range' (i + 1) (RecordTree.sizeAll s.children)).map (n + ·) =
        List.range' (n + (i + 1)) (RecordTree.sizeAll s.children) := List.map_add_range' _ _ 1
    simp only [Nat.add_comm n] at hrange
    rw [Nat.add_right_comm] at hrange
    exact hrange.symm

namespace Shows

variable {t t' : Tree} {p p' : Option NodeId} {d d' i n : Nat} {s : RecordTree}

theorem kind?_moved (h : t.Shows p d i s) (h' : t'.Shows p' d' (i + n) s) {j : Nat} (hle : i ≤ j)
    (hlt : j < i + s.size) : t'.kind? (j + n) = t.kind? j := by
  obtain ⟨k, rfl⟩ : ∃ k, j = i + k := ⟨j - i, by omega⟩
  have hk : k < s.size := by omega
  have hkinds := RecordTree.map_kind_nodesAll [s] p' p d' d (i + n) i
  rw [RecordTree.nodesAll_singleton, RecordTree.nodesAll_singleton] at hkinds
  rw [kind?_eq, kind?_eq, Nat.add_right_comm, h.getElem? (by rwa [RecordTree.length_nodes]),
    h'.getElem? (by rwa [RecordTree.length_nodes]), ← List.getElem?_map, ← List.getElem?_map,
    hkinds]

/-- A child is the top of the same subtree in both trees. -/
theorem child_moved (h : t.Shows p d i s) (h' : t'.Shows p' d' (i + n) s) {c : Nat}
    (hc : c ∈ RecordTree.tops (i + 1) s.children) :
    ∃ s', t.Shows (some i) (d + 1) c s' ∧ t'.Shows (some (i + n)) (d' + 1) (c + n) s' := by
  have hbelow := h'.below
  rw [Nat.add_right_comm] at hbelow
  obtain ⟨s', hocc⟩ := RecordTree.occurs_of_mem_tops s.children hc
  exact ⟨s', h.below.of_occurs (hocc _ _ 0), hbelow.of_occurs (hocc _ _ n)⟩

theorem collectWhere_moved (h : t.Shows p d i s) (h' : t'.Shows p' d' (i + n) s) (kind : Kind)
    (recursive : Bool) {q q' : NodeId → Bool}
    (hq : ∀ j ∈ candidates i s recursive, q' (j + n) = q j) :
    t'.collectWhere (i + n) kind recursive (fun _ j => q' j) =
      (t.collectWhere i kind recursive (fun _ j => q j)).map (· + n) := by
  rw [h.collectWhere, h'.collectWhere, candidates_moved, List.filter_map, List.map_toArray]
  congr 2
  refine List.filter_congr fun j hj => ?_
  have hb := mem_candidates_bounds hj
  simp only [Function.comp_apply, kind?_moved h h' (Nat.le_of_lt hb.1) hb.2, hq j hj]

theorem collect_moved (h : t.Shows p d i s) (h' : t'.Shows p' d' (i + n) s) (kind : Kind)
    (recursive : Bool) :
    t'.collect (i + n) kind recursive = (t.collect i kind recursive).map (· + n) :=
  collectWhere_moved h h' kind recursive fun _ _ => rfl

theorem collectFirst?_moved (h : t.Shows p d i s) (h' : t'.Shows p' d' (i + n) s) (kind : Kind) :
    t'.collectFirst? (i + n) kind = (t.collectFirst? i kind).map (· + n) := by
  rw [h.collectFirst?, h'.collectFirst?, Nat.add_right_comm, RecordTree.tops_moved, List.find?_map]
  congr 1
  refine List.find?_congr fun j hj => ?_
  have hb := @mem_candidates_bounds i j s false hj
  simp only [Function.comp_apply, kind?_moved h h' (Nat.le_of_lt hb.1) hb.2]

theorem mem_tops_of_collectFirst? (h : t.Shows p d i s) {kind : Kind} {c : Nat}
    (hc : t.collectFirst? i kind = some c) : c ∈ RecordTree.tops (i + 1) s.children := by
  rw [h.collectFirst?] at hc
  exact List.mem_of_find?_eq_some hc

/-! ## The views of the three kinds -/

theorem functionView_moved (h : t.Shows p d i s) (h' : t'.Shows p' d' (i + n) s) :
    View.function (t'.functionView (i + n)) = (View.function (t.functionView i)).moved n := by
  have htype : (s.top p' d' (i + n)).declaredType? = (s.top p d i).declaredType? := by
    cases s <;> rfl
  simp only [functionView, View.moved, collect_moved h h', collectFirst?_moved h h',
    declaredType?_eq, h.top, h'.top, Option.bind_some, htype]

/-- Of the children it is asked how many variables are directly below them: one level deeper than
the children themselves. -/
theorem singleVarDecls_moved (h : t.Shows p d i s) (h' : t'.Shows p' d' (i + n) s) :
    t'.singleVarDecls (i + n) = (t.singleVarDecls i).map (· + n) := by
  have hone : ∀ j ∈ candidates i s false,
      decide ((t'.collect (j + n) .varDecl false).size = 1) =
        decide ((t.collect j .varDecl false).size = 1) := by
    intro j hj
    obtain ⟨s', hs, hs'⟩ := child_moved h h' hj
    rw [collect_moved hs hs', Array.size_map]
  unfold singleVarDecls
  rw [collectWhere_moved h h' .declStmt false hone, h.collectWhere]
  simp only [List.map_toArray, List.filterMap_toArray, List.filterMap_map, List.map_filterMap]
  congr 1
  refine List.filterMap_congr fun j hj => ?_
  obtain ⟨s', hs, hs'⟩ := child_moved h h' (List.mem_of_mem_filter hj)
  exact collectFirst?_moved hs hs' _

theorem compoundView_moved (h : t.Shows p d i s) (h' : t'.Shows p' d' (i + n) s) :
    View.compound (t'.compoundView (i + n)) = (View.compound (t.compoundView i)).moved n := by
  simp only [compoundView, View.moved, singleVarDecls_moved h h', collect_moved h h']

theorem loopBounds?_moved (h : t.Shows p d i s) (h' : t'.Shows p' d' (i + n) s) :
    t'.loopBounds? (i + n) =
      (t.loopBounds? i).map fun b => ⟨b.lower + n, b.upper + n, b.step + n⟩ := by
  unfold loopBounds?
  rw [kind?_moved h h' (Nat.le_refl i) (Nat.lt_add_of_pos_right s.size_pos), h.childIds,
    h'.childIds, Nat.add_right_comm, RecordTree.tops_moved]
  split
  · rcases RecordTree.tops (i + 1) s.children with _ | ⟨_, _ | ⟨_, _ | ⟨_, _ | ⟨_, _ | _⟩⟩⟩⟩ <;> rfl
  · rfl

theorem loopView_moved (h : t.Shows p d i s) (h' : t'.Shows p' d' (i + n) s) :
    View.loop (t'.loopView (i + n)) = (View.loop (t.loopView i)).moved n := by
  unfold loopView
  rw [loopBounds?_moved h h', collectFirst?_moved h h']
  cases hbody : t.collectFirst? i .compoundStmt with
  | none => simp [View.moved]
  | some body =>
    obtain ⟨s', hs, hs'⟩ := child_moved h h' (h.mem_tops_of_collectFirst? hbody)
    simp only [Option.map_some, View.moved, collect_moved hs hs']

/-- **The view of a subtree moves with the subtree.** -/
theorem buildView_moved (h : t.Shows p d i s) (h' : t'.Shows p' d' (i + n) s) :
    t'.buildView (i + n) = (t.buildView i).moved n := by
  unfold buildView
  rw [kind?_moved h h' (Nat.le_refl i) (Nat.lt_add_of_pos_right s.size_pos),
    functionView_moved h h', compoundView_moved h h', loopView_moved h h']
  cases t.kind? i with
  | none => rfl
  | some kind => cases kind <;> rfl

/-- **A view is a function of the subtree.** -/
theorem buildView_congr (h : t.Shows p d i s) (h' : t'.Shows p d i s) :
    t.buildView i = t'.buildView i := by
  have hmoved := buildView_moved (n := 0) h h'
  rw [View.moved_zero] at hmoved
  exact hmoved.symm

end Shows

/-- Two trees that list the same forest give each of its nodes the same view. -/
theorem ShowsAll.buildView_congr {t t' : Tree} {p : Option NodeId} {d first j : Nat}
    {ts : List RecordTree} (h : t.ShowsAll p d first ts) (h' : t'.ShowsAll p d first ts)
    (hle : first ≤ j) (hlt : j < first + RecordTree.sizeAll ts) :
    t.buildView j = t'.buildView j := by
  obtain ⟨p', d', s, hocc⟩ := RecordTree.exists_occurs ts p d first j hle hlt
  exact Shows.buildView_congr (h.of_occurs hocc) (h'.of_occurs hocc)

end Tree

end AstDump
