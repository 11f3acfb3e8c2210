import AstDump.Proofs.Views

/-!
# Growing trees

While a dump is decoded its tree grows at the end, and a node gets its children and its view when
its subtree is complete. The result is the same as adding all nodes of a forest first and working
out their views afterwards, because a view depends on the subtree alone.

* `Tree.addForest`        : the tree with a forest added at its end;
* `Tree.view_addForest`   : the views are those of any tree that lists the forest at this place;
* `Tree.addForest_append` : one forest after another is one forest;
* `Tree.addForest_above`  : a node whose children come last is finished by them and its view.
-/

namespace AstDump

namespace Tree

/-- The tree with nodes added at its end. -/
def pushAll (t : Tree) (ns : List Node) : Tree := ns.foldl push t

/-- The tree with the views from a position on worked out on the tree as it is. -/
def viewFrom (t : Tree) (mark : Nat) : Tree :=
  { t with
    nodes := t.nodes.mapIdx fun i n => if mark ≤ i then { n with view := t.buildView i } else n }

/-- The tree with a forest added at its end, below a parent and at a depth: first the nodes, then
their views. -/
def addForest (t : Tree) (p : Option NodeId) (d : Nat) (ts : List RecordTree) : Tree :=
  (t.pushAll (RecordTree.nodesAll p d t.size ts)).viewFrom t.size

/-- Trees are the same when they agree on the index, the target, the nodes but for the views, and
the views. -/
theorem ext_plain {t t' : Tree} (index : t.index = t'.index) (target : t.target = t'.target)
    (plain : t.plainNodes = t'.plainNodes)
    (views : ∀ (i : Nat) n n', t.node? i = some n → t'.node? i = some n' → n.view = n'.view) :
    t = t' := by
  have hnode : ∀ i : Nat, t.nodes[i]? = t'.nodes[i]? := by
    intro i
    have hplain : (t.node? i).map Node.plain = (t'.node? i).map Node.plain := by
      rw [← getElem?_plainNodes, ← getElem?_plainNodes, plain]
    show t.node? i = t'.node? i
    cases hn : t.node? i with
    | none =>
      rw [hn] at hplain
      exact (Option.map_eq_none_iff.mp hplain.symm).symm
    | some n =>
      rw [hn] at hplain
      obtain ⟨n', hn', heq⟩ := Option.map_eq_some_iff.mp hplain.symm
      have hview := views i n n' hn hn'
      rw [hn']
      cases n
      cases n'
      simp only [Node.plain, Node.mk.injEq] at heq
      simp_all
  obtain ⟨_, _, _⟩ := t
  exact (Tree.mk.injEq ..).mpr ⟨index, Array.ext_getElem? hnode, target⟩

/-! ## Adding nodes -/

theorem nodes_pushAll (ns : List Node) :
    ∀ t : Tree, (t.pushAll ns).nodes = t.nodes ++ ns.toArray := by
  induction ns with
  | nil => intro t; simp [pushAll]
  | cons n ns ih =>
    intro t
    have hstep : (t.pushAll (n :: ns)).nodes = ((t.push n).pushAll ns).nodes := rfl
    rw [hstep, ih]
    simp [push]

theorem index_pushAll (ns : List Node) : ∀ t : Tree, (t.pushAll ns).index =
    (ns.zipIdx t.size).foldl (fun index n => index.insertIfNew n.1.rawId n.2) t.index := by
  induction ns with
  | nil => intro t; rfl
  | cons n ns ih =>
    intro t
    have hstep : (t.pushAll (n :: ns)).index = ((t.push n).pushAll ns).index := rfl
    rw [hstep, ih, size_push]
    rfl

theorem target_pushAll (ns : List Node) : ∀ t : Tree, (t.pushAll ns).target = t.target := by
  induction ns with
  | nil => intro t; rfl
  | cons n ns ih => intro t; exact ih (t.push n)

@[simp] theorem size_pushAll (t : Tree) (ns : List Node) :
    (t.pushAll ns).size = t.size + ns.length := by
  simp [size, nodes_pushAll]

theorem node?_pushAll (t : Tree) (ns : List Node) (i : Nat) :
    (t.pushAll ns).node? i = if i < t.size then t.node? i else ns[i - t.size]? := by
  rw [node?, nodes_pushAll, Array.getElem?_append]
  simp only [List.getElem?_toArray]
  rfl

theorem plainNodes_pushAll (t : Tree) (ns : List Node) :
    (t.pushAll ns).plainNodes = t.plainNodes ++ ns.map Node.plain := by
  simp [plainNodes, nodes_pushAll]

theorem plainNodes_push (t : Tree) (n : Node) :
    (t.push n).plainNodes = t.plainNodes ++ [n.plain] := plainNodes_pushAll t [n]

theorem node?_push_of_lt (t : Tree) (n : Node) {i : Nat} (h : i < t.size) :
    (t.push n).node? i = t.node? i := by
  have hnode := node?_pushAll t [n] i
  rwa [if_pos h] at hnode

/-! ## Working out views -/

@[simp] theorem size_viewFrom (t : Tree) (mark : Nat) : (t.viewFrom mark).size = t.size := by
  simp [viewFrom, size]

theorem node?_viewFrom (t : Tree) (mark i : Nat) : (t.viewFrom mark).node? i =
    (t.node? i).map fun n => if mark ≤ i then { n with view := t.buildView i } else n := by
  simp [viewFrom, node?]

theorem plainNodes_viewFrom (t : Tree) (mark : Nat) :
    (t.viewFrom mark).plainNodes = t.plainNodes := by
  refine List.ext_getElem? fun i => ?_
  rw [getElem?_plainNodes, getElem?_plainNodes, node?_viewFrom, Option.map_map]
  congr 1
  funext n
  simp only [Function.comp_apply]
  split <;> rfl

theorem node?_viewFrom_of_lt (t : Tree) {mark i : Nat} (h : i < mark) :
    (t.viewFrom mark).node? i = t.node? i := by
  rw [node?_viewFrom]
  simp [Nat.not_le.mpr h]

theorem view_viewFrom {t : Tree} {mark i : Nat} {n : Node} (hle : mark ≤ i)
    (h : (t.viewFrom mark).node? i = some n) : n.view = t.buildView i := by
  rw [node?_viewFrom] at h
  obtain ⟨m, -, rfl⟩ := Option.map_eq_some_iff.mp h
  rw [if_pos hle]

theorem node?_modify (t : Tree) (i j : Nat) (f : Node → Node) :
    (t.modify i f).node? j = if i = j then (t.node? j).map f else t.node? j := by
  rw [modify, node?, Array.getElem?_modify]
  rfl

theorem plainNodes_modify_children (t : Tree) (i : Nat) (children : Option (Array NodeId)) :
    (t.modify i fun n => { n with children }).plainNodes =
      t.plainNodes.modify i fun n => { n with children } := by
  refine List.ext_getElem? fun j => ?_
  rw [List.getElem?_modify, getElem?_plainNodes, node?_modify, getElem?_plainNodes]
  split
  · rw [Option.map_map]
    simp [Function.comp_def, Node.plain]
  · simp

theorem plainNodes_modify_view (t : Tree) (i : Nat) (view : View) :
    (t.modify i fun n => { n with view }).plainNodes = t.plainNodes := by
  refine List.ext_getElem? fun j => ?_
  rw [getElem?_plainNodes, node?_modify, getElem?_plainNodes]
  split
  · rw [Option.map_map]
    rfl
  · rfl

/-! ## Forests at the end of a tree -/

theorem plain_nodesAll (ts : List RecordTree) : ∀ (p : Option NodeId) (d first : Nat),
    (RecordTree.nodesAll p d first ts).map Node.plain = RecordTree.nodesAll p d first ts := by
  induction ts using RecordTree.forest_induction with
  | nil => intro p d first; rfl
  | cons s ts below beside =>
    intro p d first
    have htop : (s.top p d first).plain = s.top p d first := by cases s <;> rfl
    rw [RecordTree.nodesAll, RecordTree.nodes_eq, List.map_append, List.map_cons, htop, below,
      beside]

section AddForest

variable (t : Tree) (p : Option NodeId) (d : Nat) (ts : List RecordTree)

theorem index_addForest : (t.addForest p d ts).index =
    ((RecordTree.nodesAll p d t.size ts).zipIdx t.size).foldl
      (fun index n => index.insertIfNew n.1.rawId n.2) t.index :=
  index_pushAll _ t

@[simp] theorem target_addForest : (t.addForest p d ts).target = t.target := target_pushAll _ t

@[simp] theorem size_addForest : (t.addForest p d ts).size = t.size + RecordTree.sizeAll ts := by
  rw [addForest, size_viewFrom, size_pushAll, RecordTree.length_nodesAll]

theorem plainNodes_addForest : (t.addForest p d ts).plainNodes =
    t.plainNodes ++ RecordTree.nodesAll p d t.size ts := by
  rw [addForest, plainNodes_viewFrom, plainNodes_pushAll, plain_nodesAll]

theorem node?_addForest_of_lt {i : Nat} (h : i < t.size) :
    (t.addForest p d ts).node? i = t.node? i := by
  rw [addForest, node?_viewFrom_of_lt _ h, node?_pushAll, if_pos h]

/-- A forest that was added to a tree is listed there, and so in every tree with the same nodes. -/
theorem showsAll_of_plainNodes {t : Tree} {p : Option NodeId} {d : Nat} {ts : List RecordTree}
    {whole : Tree} (h : whole.plainNodes = (t.addForest p d ts).plainNodes) :
    whole.ShowsAll p d t.size ts := by
  refine ⟨[], ?_⟩
  rw [h, plainNodes_addForest, List.append_nil, ← length_plainNodes, List.drop_left]

/-- **The views of a forest are those of any tree that lists it at the same place.** -/
theorem view_addForest {t whole : Tree} {p : Option NodeId} {d i : Nat} {ts : List RecordTree}
    {n : Node} (hwhole : whole.ShowsAll p d t.size ts) (hi : t.size ≤ i)
    (hn : (t.addForest p d ts).node? i = some n) : n.view = whole.buildView i := by
  have hlt : i < (t.addForest p d ts).size := (Array.getElem?_eq_some_iff.mp hn).1
  have hpushed : (t.pushAll (RecordTree.nodesAll p d t.size ts)).ShowsAll p d t.size ts :=
    showsAll_of_plainNodes (plainNodes_viewFrom _ t.size).symm
  rw [size_addForest] at hlt
  rw [view_viewFrom hi hn]
  exact hpushed.buildView_congr hwhole hi hlt

theorem addForest_nil : t.addForest p d [] = t := by
  refine ext_plain rfl rfl ?_ fun i n n' hn hn' => ?_
  · rw [plainNodes_addForest, RecordTree.nodesAll, List.append_nil]
  · have hlt : i < t.size := (Array.getElem?_eq_some_iff.mp hn').1
    rw [node?_addForest_of_lt t p d [] hlt, hn'] at hn
    cases hn
    rfl

end AddForest

/-- **One forest after another is one forest.** -/
theorem addForest_append (t : Tree) (p : Option NodeId) (d : Nat) (ss ts : List RecordTree) :
    (t.addForest p d ss).addForest p d ts = t.addForest p d (ss ++ ts) := by
  have hnodes := RecordTree.nodesAll_append p d ss ts t.size
  have hplain : ((t.addForest p d ss).addForest p d ts).plainNodes =
      (t.addForest p d (ss ++ ts)).plainNodes := by
    rw [plainNodes_addForest, plainNodes_addForest, plainNodes_addForest, size_addForest, hnodes,
      List.append_assoc]
  -- the whole tree lists both forests, so it gives the views of either
  have hsecond : (t.addForest p d (ss ++ ts)).ShowsAll p d (t.addForest p d ss).size ts :=
    showsAll_of_plainNodes hplain.symm
  have hfirst : (t.addForest p d (ss ++ ts)).ShowsAll p d t.size ss := by
    have hboth : (t.addForest p d (ss ++ ts)).ShowsAll p d t.size (ss ++ ts) :=
      showsAll_of_plainNodes rfl
    unfold ShowsAll at hboth
    rw [hnodes] at hboth
    exact hboth.append.1
  refine ext_plain ?_ (by simp) hplain fun i n n' hn hn' => ?_
  · rw [index_addForest, index_addForest, index_addForest, size_addForest, hnodes,
      List.zipIdx_append, List.foldl_append, RecordTree.length_nodesAll]
  · by_cases hold : i < t.size
    · rw [node?_addForest_of_lt _ p d ts (by rw [size_addForest]; omega),
        node?_addForest_of_lt t p d ss hold] at hn
      rw [node?_addForest_of_lt t p d (ss ++ ts) hold, hn] at hn'
      cases hn'
      rfl
    · rw [view_addForest (showsAll_of_plainNodes rfl) (by omega) hn']
      by_cases hin : i < (t.addForest p d ss).size
      · rw [node?_addForest_of_lt _ p d ts hin] at hn
        exact view_addForest hfirst (by omega) hn
      · exact view_addForest hsecond (by omega) hn

/-- **A node whose children come last**: added without them, then followed by the forest below it,
it is finished by its children and its view. -/
theorem addForest_above (t : Tree) (p : Option NodeId) (d : Nat) (s : RecordTree)
    {grown filled : Tree}
    (hgrown : grown = (t.push { s.top p d t.size with children := none }).addForest
      (some t.size) (d + 1) s.children)
    (hfilled : filled = grown.modify t.size fun n =>
      { n with children := (s.top p d t.size).children }) :
    filled.modify t.size (fun n => { n with view := filled.buildView t.size }) =
      t.addForest p d [s] := by
  obtain ⟨bare, hbare⟩ : ∃ bare : Node, bare = { s.top p d t.size with children := none } :=
    ⟨_, rfl⟩
  obtain ⟨whole, hwhole⟩ : ∃ whole, whole = t.addForest p d [s] := ⟨_, rfl⟩
  rw [← hbare] at hgrown
  rw [← hwhole]
  have hplain : filled.plainNodes = whole.plainNodes := by
    have htop : bare.plain = bare := by rw [hbare]; cases s <;> rfl
    rw [hfilled, plainNodes_modify_children, hgrown, plainNodes_addForest, plainNodes_push, htop,
      size_push, List.append_assoc, List.singleton_append, List.modify_eq_take_drop,
      List.take_left' (length_plainNodes t), List.drop_left' (length_plainNodes t), hwhole,
      plainNodes_addForest, RecordTree.nodesAll_singleton, RecordTree.nodes_eq, hbare]
    rfl
  -- the whole tree lists the subtree, and with it the forest below its top
  have hshows : whole.Shows p d t.size s :=
    (showsAll_of_plainNodes (by rw [hwhole] : _ = (t.addForest p d [s]).plainNodes)).cons.1
  have hfilledShows : filled.Shows p d t.size s := by
    unfold Shows
    rw [hplain]
    exact hshows
  have hbelow : whole.ShowsAll (some t.size) (d + 1) (t.push bare).size s.children := by
    rw [size_push]
    exact hshows.below
  refine ext_plain ?_ ?_ (by rw [plainNodes_modify_view, hplain]) fun i n n' hn hn' => ?_
  · show filled.index = _
    rw [hwhole, index_addForest, RecordTree.nodesAll_singleton, RecordTree.nodes_eq,
      List.zipIdx_cons, List.foldl_cons, hfilled]
    show grown.index = _
    rw [hgrown, index_addForest, size_push, hbare]
    rfl
  · show filled.target = _
    rw [hwhole, target_addForest, hfilled]
    show grown.target = _
    rw [hgrown, target_addForest]
    rfl
  · by_cases htop : t.size = i
    · subst htop
      rw [node?_modify, if_pos rfl] at hn
      obtain ⟨m, -, rfl⟩ := Option.map_eq_some_iff.mp hn
      rw [hwhole] at hn'
      rw [view_addForest (showsAll_of_plainNodes rfl) (Nat.le_refl _) hn', ← hwhole]
      exact hfilledShows.buildView_congr hshows
    · rw [node?_modify, if_neg htop, hfilled, node?_modify, if_neg htop, hgrown] at hn
      rw [hwhole] at hn'
      by_cases hold : i < t.size
      · rw [node?_addForest_of_lt _ _ _ _ (by rw [size_push]; omega),
          node?_push_of_lt t bare hold] at hn
        rw [node?_addForest_of_lt t p d [s] hold, hn] at hn'
        cases hn'
        rfl
      · rw [view_addForest (showsAll_of_plainNodes rfl) (by omega) hn', ← hwhole]
        exact view_addForest hbelow (by rw [size_push]; omega) hn

end Tree

end AstDump
