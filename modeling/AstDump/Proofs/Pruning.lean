import AstDump.Proofs.Locality

/-!
# Record trees within fewer levels

With recovery on, a dump that is decoded with fewer levels has the same record tree, but for what
lies too deep. Listed, it has the nodes of the whole tree that are not too deep, in the same order;
where a node stands is how many of them stand before it.

* `RecordTree.prune`           : a tree down to so many levels;
* `RecordTree.treeOf_prune`    : fewer levels prune the tree of a value;
* `Node.cut`                   : a node of a tree that is cut, its links renumbered;
* `RecordTree.Renumbers`       : the new positions count the nodes that are left;
* `RecordTree.nodesAll_prune`  : the listing of a pruned forest.
-/

namespace AstDump

/-- The node is no deeper than a limit. -/
def Node.isWithin (limit : Nat) (n : Node) : Bool := n.depth ≤ limit

/-- The node in a tree that is cut at a depth, its links renumbered and without its view. Above the
cut it keeps its children; at the cut its list of children is empty, if it has one. -/
def Node.cut (limit : Nat) (renumber : Nat → Nat) (n : Node) : Node :=
  { n with
    children := n.children.map fun ids => if n.depth < limit then ids.map renumber else #[]
    parent := n.parent.map renumber
    view := .plain }

namespace RecordTree

/-- The tree with other trees below its top. A leaf has no list to put them in. -/
def withChildren : RecordTree → List RecordTree → RecordTree
  | leaf rawId kind attrs, _ => leaf rawId kind attrs
  | branch rawId kind attrs _, trees => branch rawId kind attrs trees

/-- The tree down to so many levels; of no levels nothing is left. -/
def prune : (levels : Nat) → RecordTree → Option RecordTree
  | 0, _ => none
  | levels + 1, t => some (t.withChildren (t.children.filterMap (prune levels)))

theorem children_withChildren (t : RecordTree) (f : RecordTree → Option RecordTree) :
    (t.withChildren (t.children.filterMap f)).children = t.children.filterMap f := by
  cases t <;> rfl

theorem ofRecord_withChildren (options : Options) (r : Record) (items : List Json)
    (trees : List RecordTree) (f : RecordTree → Option RecordTree) :
    (ofRecord options r items trees).withChildren
        ((ofRecord options r items trees).children.filterMap f) =
      ofRecord options r items (trees.filterMap f) := by
  cases items <;> rfl

/-! ## Fewer levels -/

/-- Where the items of a list have fewer trees, the list has what is left of its trees. Only a
decoder that drops items goes on after one without a tree. -/
theorem treeOf_ofItems_filterMap {recover : Bool} (hrecover : recover = true)
    {f : RecordTree → Option RecordTree}
    {ofItem ofItem' : Path → Json → Except DecodeError (RecordTree × List DecodeError)}
    (h : ∀ path path' item, treeOf (ofItem path item) = (treeOf (ofItem' path' item)).bind f)
    (path path' : Path) (field field' : String) (items : List Json) : ∀ position position',
      treeOf (ofItems recover ofItem path field position items) =
        (treeOf (ofItems recover ofItem' path' field' position' items)).map (List.filterMap f) := by
  induction items with
  | nil => intro position position'; rfl
  | cons item rest ih =>
    intro position position'
    have hrest := ih (position + 1) (position' + 1)
    by_cases hitem : item.IsPlaceholder
    · rw [ofItems_placeholder hitem, ofItems_placeholder hitem, hrest]
    have hsame := h (path ++ [.item field position]) (path' ++ [.item field' position']) item
    cases htree : ofItem (path ++ [.item field position]) item with
    | error e =>
      rw [ofItems_drop hrecover hitem htree, treeOf_map_errors, hrest]
      cases htree' : ofItem' (path' ++ [.item field' position']) item with
      | error e' => rw [ofItems_drop hrecover hitem htree', treeOf_map_errors]
      | ok found' =>
        rw [htree, htree'] at hsame
        have hnone : f found'.1 = none := hsame.symm
        rw [ofItems_tree hitem htree', treeOf_map, Option.map_map]
        congr 1
        funext trees
        rw [Function.comp_apply, List.filterMap_cons_none hnone]
    | ok found =>
      rw [htree] at hsame
      obtain ⟨tree', htree', hsome⟩ := Option.bind_eq_some_iff.mp hsame.symm
      obtain ⟨errors', htree'⟩ := treeOf_eq_some htree'
      rw [ofItems_tree hitem htree, ofItems_tree hitem htree', treeOf_map, treeOf_map, hrest,
        Option.map_map, Option.map_map]
      congr 1
      funext trees
      rw [Function.comp_apply, Function.comp_apply, List.filterMap_cons_some hsome]

variable {options : Options}

/-- **Fewer levels prune the tree of a value.** -/
theorem treeOf_prune (hrecover : options.recoverMalformed = true) {limit depth levels more : Nat}
    (hdepth : depth + levels = limit + 1) (hmore : depth + (levels + more) = options.maxDepth + 1)
    (path path' : Path) (raw : Json) :
    treeOf (ofLevels { options with maxDepth := limit } levels path raw) =
      (treeOf (ofLevels options (levels + more) path' raw)).bind (prune levels) := by
  induction levels generalizing depth path path' raw with
  | zero =>
    cases treeOf (ofLevels options (0 + more) path' raw) <;> rfl
  | succ levels ih =>
    rw [Nat.succ_add] at hmore ⊢
    cases hopen : Record.openAt options path' depth raw with
    | ok entered =>
      obtain ⟨r, items⟩ := entered
      have hopen' := openAt_within hopen (show depth ≤ limit by omega) path
      have hitems := treeOf_ofItems_filterMap hrecover (fun path path' item =>
        ih (show depth + 1 + levels = _ by omega) (show depth + 1 + (levels + more) = _ by omega)
          path path' item) (path ++ [.node r.kind r.rawId]) (path' ++ [.node r.kind r.rawId])
          (r.childrenField options) (r.childrenField options) items 0 0
      rw [ofLevels_of_ok hopen (show depth + (levels + more) = _ by omega),
        ofLevels_of_ok hopen' (show depth + levels = limit by omega), treeOf_map, treeOf_map,
        Option.bind_map]
      refine (congrArg (Option.map (ofRecord options r items)) hitems).trans ?_
      rw [Option.map_map, Option.map_eq_bind]
      congr 1
      funext trees
      exact congrArg some (ofRecord_withChildren options r items trees (prune levels)).symm
    | error e =>
      obtain ⟨e', hopen'⟩ := openAt_error_within hopen (by omega) limit depth path
      rw [ofLevels_of_error hopen hmore, ofLevels_of_error hopen' hdepth]
      rfl

/-! ## The listing of what is left -/

/-- Where nodes are listed from `first` on, the new position of each is how many of those before it
are within the limit, counted from `first'` on. -/
def Renumbers (limit : Nat) (renumber : Nat → Nat) (first first' : Nat) (nodes : List Node) :
    Prop :=
  ∀ k ≤ nodes.length, renumber (first + k) = first' + (nodes.take k).countP (Node.isWithin limit)

namespace Renumbers

variable {limit : Nat} {renumber : Nat → Nat} {first first' : Nat}

theorem start {nodes : List Node} (h : Renumbers limit renumber first first' nodes) :
    renumber first = first' := by
  simpa using h 0 (Nat.zero_le _)

theorem append {before after : List Node}
    (h : Renumbers limit renumber first first' (before ++ after)) :
    Renumbers limit renumber first first' before ∧
      Renumbers limit renumber (first + before.length)
        (first' + before.countP (Node.isWithin limit)) after := by
  constructor
  · intro k hk
    rw [h k (by rw [List.length_append]; omega), List.take_append_of_le_length hk]
  · intro k hk
    have hat := h (before.length + k) (by rw [List.length_append]; omega)
    rw [List.take_length_add_append, List.countP_append] at hat
    rw [Nat.add_assoc, hat, Nat.add_assoc]

theorem cons {n : Node} {after : List Node} (hn : n.isWithin limit = true)
    (h : Renumbers limit renumber first first' (n :: after)) :
    Renumbers limit renumber (first + 1) (first' + 1) after := by
  have hone : Renumbers limit renumber first first' ([n] ++ after) := h
  have hrest := hone.append.2
  rwa [List.countP_singleton, List.length_singleton, if_pos hn] at hrest

end Renumbers

section Listing

variable {limit : Nat} {renumber : Nat → Nat}

/-- Nothing that is listed below the limit is within it. -/
theorem filter_nodesAll_of_lt (ts : List RecordTree) {p : Option NodeId} {depth first : Nat}
    (h : limit < depth) : (nodesAll p depth first ts).filter (Node.isWithin limit) = [] := by
  refine List.filter_eq_nil_iff.mpr fun n hn hwithin => ?_
  have hle := depth_le_of_mem_nodesAll ts hn
  have hdepth : n.depth ≤ limit := of_decide_eq_true hwithin
  omega

/-- The top of a pruned tree is that of the tree, cut. Its children are renumbered one by one, if
there are levels left for them. -/
theorem top_prune {levels depth first first' : Nat} {p : Option NodeId} (t : RecordTree)
    (hdepth : depth + levels = limit)
    (htops : levels ≠ 0 → tops (first' + 1) (t.children.filterMap (prune levels)) =
      (tops (first + 1) t.children).map renumber) :
    (t.withChildren (t.children.filterMap (prune levels))).top (p.map renumber) depth first' =
      (t.top p depth first).cut limit renumber := by
  cases t with
  | leaf rawId kind attrs => rfl
  | branch rawId kind attrs cs =>
    have hchildren : (tops (first' + 1) (cs.filterMap (prune levels))).toArray =
        if depth < limit then (tops (first + 1) cs).toArray.map renumber else #[] := by
      by_cases hlevels : levels = 0
      · subst hlevels
        have hnone : cs.filterMap (prune 0) = [] := by simp [prune]
        rw [if_neg (by omega), hnone]
        rfl
      · rw [if_pos (by omega), List.map_toArray]
        exact congrArg List.toArray (htops hlevels)
    simp only [withChildren, children, top, Node.cut, hchildren, Option.map_some]
    rfl

/-- **The listing of a pruned forest**: the nodes within the limit, each cut, and in the same
order. -/
theorem nodesAll_prune (ts : List RecordTree) :
    ∀ {p : Option NodeId} {levels depth first first' : Nat}, depth + levels = limit + 1 →
      Renumbers limit renumber first first' (nodesAll p depth first ts) →
      nodesAll (p.map renumber) depth first' (ts.filterMap (prune levels)) =
        ((nodesAll p depth first ts).filter (Node.isWithin limit)).map (Node.cut limit renumber) ∧
      (levels ≠ 0 → tops first' (ts.filterMap (prune levels)) = (tops first ts).map renumber) := by
  induction ts using forest_induction with
  | nil => intro p levels depth first first' _ _; exact ⟨rfl, fun _ => rfl⟩
  | cons t ts below beside =>
    intro p levels depth first first' hdepth hnew
    cases levels with
    | zero =>
      have hnone : (t :: ts).filterMap (prune 0) = [] := by simp [prune]
      rw [filter_nodesAll_of_lt (t :: ts) (by omega), hnone]
      exact ⟨rfl, fun h => absurd rfl h⟩
    | succ levels =>
      obtain ⟨pruned, hpruned⟩ : ∃ pruned, prune (levels + 1) t = some pruned := ⟨_, rfl⟩
      have hchildren : pruned.children = t.children.filterMap (prune levels) := by
        rw [← Option.some.inj hpruned, children_withChildren]
      have hwithin : (t.top p depth first).isWithin limit = true := by
        refine decide_eq_true ?_
        rw [top_depth]
        omega
      rw [nodesAll, nodes_eq, List.cons_append] at hnew
      have hfirst := hnew.start
      obtain ⟨hinside, hafter⟩ := (hnew.cons hwithin).append
      obtain ⟨hbelow, hinsideTops⟩ := below (show depth + 1 + levels = _ by omega) hinside
      rw [Option.map_some, hfirst, ← hchildren] at hbelow
      -- what is left of the tree takes up as many positions as it has nodes within the limit
      have hsize : pruned.size =
          (nodesAll (some first) (depth + 1) (first + 1) t.children).countP
            (Node.isWithin limit) + 1 := by
        rw [size_eq, ← length_nodesAll _ (some first') (depth + 1) (first' + 1), hbelow,
          List.length_map, List.countP_eq_length_filter]
      have hnext : Renumbers limit renumber (first + t.size) (first' + pruned.size)
          (nodesAll p depth (first + t.size) ts) := by
        rw [length_nodesAll, Nat.add_right_comm, Nat.add_assoc first, ← size_eq,
          Nat.add_right_comm first', Nat.add_assoc first', ← hsize] at hafter
        exact hafter
      obtain ⟨hbeside, hafterTops⟩ := beside hdepth hnext
      have htop : pruned.top (p.map renumber) depth first' =
          (t.top p depth first).cut limit renumber := by
        rw [← Option.some.inj hpruned]
        exact top_prune t (by omega) hinsideTops
      rw [List.filterMap_cons_some hpruned]
      constructor
      · rw [nodesAll, nodes_eq, htop, hbelow, hbeside, nodesAll, nodes_eq, List.cons_append,
          List.cons_append, List.filter_cons_of_pos hwithin, List.filter_append, List.map_cons,
          List.map_append]
      · intro hlevels
        rw [tops_cons, tops_cons, List.map_cons, hfirst, hafterTops hlevels]

end Listing

end RecordTree

end AstDump
