import AstDump.Proofs.Preorder
import AstDump.Proofs.Registry
import AstDump.Proofs.Survivors

/-!
# Decoding is local

What stands around a record has no influence on the nodes that are made of it and of what is below
it. Decoded alone, with as many levels as were left for it, the record has the same nodes, at other
positions and depths.

* `Node.moved`                       : a node at another position and depth;
* `RecordTree.nodesAll_moved`        : the listing of a forest elsewhere;
* `RecordTree.exists_kept_of_occurs` : every subtree is the tree of the value its top is made from;
* `RecordTree.treeOf_ofLevels`       : the tree of a value depends on the levels that are left, not
  on the limit or the path;
* `TranslationUnit.StandsAt`         : a unit stands in another one, from a position on;
* `decode_local`                     : so does the unit of a record, in that of the dump around it.
-/

namespace AstDump

/-! ## Moving nodes -/

/-- The node at a position that lies `n` further on, `d` levels further down. -/
def Node.moved (n d : Nat) (node : Node) : Node :=
  { node with
    children := node.children.map fun ids => ids.map (· + n)
    parent := node.parent.map (· + n)
    depth := node.depth + d
    view := node.view.moved n }

/-- The node without its parent. -/
def Node.orphan (node : Node) : Node := { node with parent := none }

theorem Node.ext_plain {m n : Node} (hplain : m.plain = n.plain) (hview : m.view = n.view) :
    m = n := by
  cases m
  cases n
  simp only [Node.plain, Node.mk.injEq] at hplain
  simp_all

namespace RecordTree

theorem top_moved (n e : Nat) (t : RecordTree) (p : Option NodeId) (d i : Nat) :
    t.top (p.map (· + n)) (d + e) (i + n) = (t.top p d i).moved n e := by
  cases t with
  | leaf rawId kind attrs => rfl
  | branch rawId kind attrs children =>
    simp [top, Node.moved, View.moved, ← tops_moved, Nat.add_right_comm]

/-- **The listing of a forest elsewhere** is its listing with every node moved. -/
theorem nodesAll_moved (n e : Nat) (ts : List RecordTree) : ∀ (p : Option NodeId) (d i : Nat),
    nodesAll (p.map (· + n)) (d + e) (i + n) ts = (nodesAll p d i ts).map (Node.moved n e) := by
  induction ts using forest_induction with
  | nil => intros; rfl
  | cons t ts below beside =>
    intro p d i
    have hbelow := below (some i) (d + 1) (i + 1)
    have hbeside := beside p d (i + t.size)
    rw [Option.map_some, Nat.add_right_comm d, Nat.add_right_comm i] at hbelow
    rw [Nat.add_right_comm] at hbeside
    rw [nodesAll, nodesAll, nodes_eq, nodes_eq, List.map_append, List.map_cons, ← top_moved,
      ← hbelow, ← hbeside]

theorem Occurs.moved {parent p : Option NodeId} {depth d first i : Nat} {ts : List RecordTree}
    {s : RecordTree} (h : Occurs parent depth first ts p d i s) (n : Nat) :
    ∀ (parent' : Option NodeId) (depth' : Nat),
      ∃ p' d', Occurs parent' depth' (first + n) ts p' d' (i + n) s := by
  induction h with
  | here => intro parent' depth'; exact ⟨parent', depth', .here⟩
  | @inside _ _ _ _ first _ _ _ _ _ ih =>
    intro parent' depth'
    obtain ⟨p', d', hocc⟩ := ih (some (first + n)) (depth' + 1)
    rw [Nat.add_right_comm] at hocc
    exact ⟨p', d', .inside hocc⟩
  | after _ ih =>
    intro parent' depth'
    obtain ⟨p', d', hocc⟩ := ih parent' depth'
    rw [Nat.add_right_comm] at hocc
    exact ⟨p', d', .after hocc⟩

/-! ## The value of every subtree -/

/-- The value has this tree at a depth. -/
def IsTreeOf (options : Options) (depth : Nat) (v : Json) (s : RecordTree) : Prop :=
  ∃ levels path errors, depth + levels = options.maxDepth + 1 ∧
    ofLevels options levels path v = .ok (s, errors)

variable {options : Options} {path : Path} {depth levels : Nat} {raw : Json}

/-- The value at the position of a node has the subtree of the node for its tree. -/
theorem exists_kept_of_occurs {tree s : RecordTree} {errors : List DecodeError}
    {p : Option NodeId} {d i : Nat} (h : ofJson options raw = .ok (tree, errors))
    (hocc : Occurs none 0 0 [tree] p d i s) :
    ∃ v, (raw.kept options (options.maxDepth + 1))[i]? = some v ∧ IsTreeOf options d v s := by
  obtain ⟨v, hv⟩ := standsFor_kept h hocc
  have hat := hv.getElem?
  obtain ⟨levels, hdepth, ⟨path, errors, htree⟩, -⟩ := hv
  exact ⟨v, hat, levels, path, errors, hdepth, htree⟩

/-! ## The tree of a value, wherever it stands -/

/-- The tree of a result, whatever its errors. -/
def treeOf {α : Type} (result : Except DecodeError (α × List DecodeError)) : Option α :=
  result.toOption.map Prod.fst

theorem treeOf_map {α β : Type} {result : Except DecodeError (α × List DecodeError)} {f : α → β}
    {g : α × List DecodeError → List DecodeError} :
    treeOf (result.map fun found => (f found.1, g found)) = (treeOf result).map f := by
  cases result <;> rfl

theorem treeOf_map_errors {α : Type} {result : Except DecodeError (α × List DecodeError)}
    {g : α × List DecodeError → List DecodeError} :
    treeOf (result.map fun found => (found.1, g found)) = treeOf result := by
  cases result <;> rfl

theorem treeOf_eq_some {α : Type} {result : Except DecodeError (α × List DecodeError)} {a : α}
    (h : treeOf result = some a) : ∃ errors, result = .ok (a, errors) := by
  cases result with
  | error e => cases h
  | ok found =>
    cases h
    exact ⟨found.2, rfl⟩

theorem treeOf_ofItems {recover : Bool}
    {ofItem ofItem' : Path → Json → Except DecodeError (RecordTree × List DecodeError)}
    (h : ∀ path path' item, treeOf (ofItem path item) = treeOf (ofItem' path' item))
    (path path' : Path) (field field' : String) (items : List Json) : ∀ position position',
      treeOf (ofItems recover ofItem path field position items) =
        treeOf (ofItems recover ofItem' path' field' position' items) := by
  induction items with
  | nil => intro position position'; rfl
  | cons item rest ih =>
    intro position position'
    have hrest := ih (position + 1) (position' + 1)
    by_cases hitem : item.IsPlaceholder
    · rw [ofItems_placeholder hitem, ofItems_placeholder hitem, hrest]
    have hsame := h (path ++ [.item field position]) (path' ++ [.item field' position']) item
    cases htree : ofItem (path ++ [.item field position]) item with
    | ok found =>
      rw [htree] at hsame
      obtain ⟨errors, htree'⟩ := treeOf_eq_some hsame.symm
      rw [ofItems_tree hitem htree, ofItems_tree hitem htree', treeOf_map, treeOf_map, hrest]
    | error e =>
      cases htree' : ofItem' (path' ++ [.item field' position']) item with
      | ok found => rw [htree, htree'] at hsame; cases hsame
      | error e' =>
        cases recover with
        | false => rw [ofItems_fail rfl hitem htree, ofItems_fail rfl hitem htree']; rfl
        | true =>
          rw [ofItems_drop rfl hitem htree, ofItems_drop rfl hitem htree', treeOf_map_errors,
            treeOf_map_errors, hrest]

/-- A record within the limit is one within any other limit. -/
theorem openAt_within {limit depth' : Nat} {r : Record} {items : List Json}
    (h : Record.openAt options path depth raw = .ok (r, items)) (hwithin : depth' ≤ limit)
    (path' : Path) :
    Record.openAt { options with maxDepth := limit } path' depth' raw = .ok (r, items) := by
  obtain ⟨-, hraw, hid, hkind, hitems⟩ := Record.openAt_eq_ok_iff.mp h
  exact Record.openAt_eq_ok_iff.mpr ⟨hwithin, hraw, hid, hkind, hitems⟩

/-- What is no record, though within the limit, is none within any other limit. -/
theorem openAt_error_within {e : DecodeError} (h : Record.openAt options path depth raw = .error e)
    (hwithin : depth ≤ options.maxDepth) (limit depth' : Nat) (path' : Path) :
    ∃ e', Record.openAt { options with maxDepth := limit } path' depth' raw = .error e' := by
  cases hopen : Record.openAt { options with maxDepth := limit } path' depth' raw with
  | error e' => exact ⟨e', rfl⟩
  | ok entered =>
    have hback := openAt_within hopen hwithin path
    rw [h] at hback
    cases hback

/-- **The tree of a value depends on the levels that are left**, not on the limit, and not on the
path to the value. -/
theorem treeOf_ofLevels {limit depth' : Nat} (hdepth : depth + levels = options.maxDepth + 1)
    (hdepth' : depth' + levels = limit + 1) (path path' : Path) (raw : Json) :
    treeOf (ofLevels options levels path raw) =
      treeOf (ofLevels { options with maxDepth := limit } levels path' raw) := by
  induction levels generalizing depth depth' path path' raw with
  | zero => rfl
  | succ levels ih =>
    cases hopen : Record.openAt options path depth raw with
    | ok entered =>
      obtain ⟨r, items⟩ := entered
      have hopen' := openAt_within hopen (show depth' ≤ limit by omega) path'
      rw [ofLevels_of_ok hopen (show depth + levels = _ by omega),
        ofLevels_of_ok hopen' (show depth' + levels = limit by omega), treeOf_map, treeOf_map]
      congr 1
      exact treeOf_ofItems (fun path path' item =>
        ih (show depth + 1 + levels = _ by omega) (show depth' + 1 + levels = _ by omega)
          path path' item) _ _ _ _ items 0 0
    | error e =>
      obtain ⟨e', hopen'⟩ := openAt_error_within hopen (by omega) limit depth' path'
      rw [ofLevels_of_error hopen hdepth, ofLevels_of_error hopen' hdepth']
      rfl

/-- A value that has a tree somewhere below a dump has it alone, too. -/
theorem IsTreeOf.alone {d : Nat} {v : Json} {s : RecordTree} (h : IsTreeOf options d v s) :
    ∃ errors, ofJson { options with maxDepth := options.maxDepth - d } v = .ok (s, errors) := by
  obtain ⟨levels, path, errors, hdepth, htree⟩ := h
  have hlevels : levels = options.maxDepth - d + 1 := by
    cases levels with
    | zero => cases htree
    | succ levels => omega
  subst hlevels
  have halone := treeOf_ofLevels hdepth (Nat.zero_add _) path [] v
  rw [htree] at halone
  exact treeOf_eq_some halone.symm

end RecordTree

/-! ## A unit inside a unit -/

/-- The part is what a list of positions has from `first` on and before `last`: a segment, with
smaller positions before it and greater ones after it. -/
def IsSegment (first last : Nat) (part all : List Nat) : Prop :=
  ∃ before after, all = before ++ part ++ after ∧ (∀ j ∈ before, j < first) ∧
    (∀ j ∈ part, first ≤ j ∧ j < last) ∧ ∀ j ∈ after, last ≤ j

/-- The positions of a kind within an interval are a segment of all positions of the kind. -/
theorem Tree.isSegment_positions (t : Tree) (kind : Kind) {first n : Nat} (h : first + n ≤ t.size) :
    IsSegment first (first + n) ((List.range' first n).filter fun j => t.kind? j = some kind)
      (t.positions kind) := by
  obtain ⟨rest, hrest⟩ := Nat.exists_eq_add_of_le h
  have hrange : List.range t.size =
      List.range' 0 first ++ List.range' first n ++ List.range' (first + n) rest := by
    rw [hrest, List.range_eq_range', ← List.range'_append_1, ← List.range'_append_1, Nat.zero_add,
      Nat.zero_add]
  refine ⟨(List.range' 0 first).filter fun j => t.kind? j = some kind,
    (List.range' (first + n) rest).filter fun j => t.kind? j = some kind, ?_, ?_, ?_, ?_⟩
  · rw [positions, hrange, List.filter_append, List.filter_append]
  · intro j hj
    have := List.mem_range'_1.mp (List.mem_of_mem_filter hj)
    omega
  · intro j hj
    exact List.mem_range'_1.mp (List.mem_of_mem_filter hj)
  · intro j hj
    exact (List.mem_range'_1.mp (List.mem_of_mem_filter hj)).1

/-- A unit stands in another one from position `i` on, `d` levels down: its nodes are those of the
subtree there, but for the parent of the first of them, and its registry lists those of their
positions that the other registry lists. -/
structure TranslationUnit.StandsAt (v u : TranslationUnit) (i d : Nat) : Prop where
  size : v.tree.size = u.tree.subtreeSize i
  top : (u.tree.node? i).map Node.orphan = (v.tree.node? 0).map (Node.moved i d)
  below : ∀ k, 0 < k → k < v.tree.size →
    u.tree.node? (i + k) = (v.tree.node? k).map (Node.moved i d)
  functions : IsSegment i (i + u.tree.subtreeSize i) (v.registry.functions.toList.map (· + i))
    u.registry.functions.toList
  compounds : IsSegment i (i + u.tree.subtreeSize i) (v.registry.compounds.toList.map (· + i))
    u.registry.compounds.toList
  forLoops : IsSegment i (i + u.tree.subtreeSize i) (v.registry.forLoops.toList.map (· + i))
    u.registry.forLoops.toList
  whileLoops : IsSegment i (i + u.tree.subtreeSize i) (v.registry.whileLoops.toList.map (· + i))
    u.registry.whileLoops.toList
  doLoops : IsSegment i (i + u.tree.subtreeSize i) (v.registry.doLoops.toList.map (· + i))
    u.registry.doLoops.toList

namespace RecordTree

variable {tree s : RecordTree} {p : Option NodeId} {d i : Nat}

/-- The nodes of a unit: those of the listing, with the views of the finished tree. -/
theorem node?_unit (target : Target) (tree : RecordTree) (errors : List DecodeError) (k : Nat) :
    (tree.unit target errors).tree.node? k = (tree.nodes none 0 0)[k]?.map fun n =>
      { n with view := (tree.unit target errors).tree.buildView k } := by
  have hplain := (tree.unit target errors).tree.getElem?_plainNodes k
  rw [plainNodes_unit] at hplain
  rw [hplain]
  cases hn : (tree.unit target errors).tree.node? k with
  | none => rfl
  | some n =>
    rw [Option.map_some, Option.map_some, ← tree.view_unit target errors hn]
    rfl

section Inside

variable {target target' : Target} {errors errors' : List DecodeError}

/-- What a subtree shows at its positions is what it shows alone. -/
theorem shows_alone (h : Occurs none 0 0 [tree] p d i s) {k : Nat} (hk : k < s.size) :
    ∃ p₁ d₁ p₂ d₂ s', (s.unit target' errors').tree.Shows p₁ d₁ k s' ∧
      (tree.unit target errors).tree.Shows p₂ d₂ (k + i) s' := by
  have hlt : k < 0 + sizeAll [s] := by
    rw [sizeAll, sizeAll]
    omega
  obtain ⟨p₁, d₁, s', hocc⟩ := exists_occurs [s] none 0 0 k (Nat.zero_le k) hlt
  obtain ⟨p₂, d₂, hocc'⟩ := hocc.moved i p d
  have hs : (tree.unit target errors).tree.ShowsAll p d (0 + i) [s] := by
    rw [Nat.zero_add]
    exact ((tree.showsAll_unit target errors).of_occurs h).all
  exact ⟨p₁, d₁, p₂, d₂, s', (s.showsAll_unit target' errors').of_occurs hocc, hs.of_occurs hocc'⟩

theorem buildView_alone (h : Occurs none 0 0 [tree] p d i s) {k : Nat} (hk : k < s.size) :
    (tree.unit target errors).tree.buildView (k + i) =
      ((s.unit target' errors').tree.buildView k).moved i := by
  obtain ⟨_, _, _, _, _, halone, hwithin⟩ := shows_alone h hk
  exact halone.buildView_moved hwithin

theorem kind?_alone (h : Occurs none 0 0 [tree] p d i s) {k : Nat} (hk : k < s.size) :
    (tree.unit target errors).tree.kind? (k + i) = (s.unit target' errors').tree.kind? k := by
  obtain ⟨_, _, _, _, s', halone, hwithin⟩ := shows_alone h hk
  exact halone.kind?_moved hwithin (Nat.le_refl k) (Nat.lt_add_of_pos_right s'.size_pos)

/-- A node below the top of a subtree is the node of the subtree alone, moved. -/
theorem node?_alone (h : Occurs none 0 0 [tree] p d i s) {k : Nat} (hpos : 0 < k)
    (hk : k < s.size) : (tree.unit target errors).tree.node? (i + k) =
      ((s.unit target' errors').tree.node? k).map (Node.moved i d) := by
  have hlisted : ListedAt (tree.nodes none 0 0) i (s.nodes p d i) := by
    rw [← plainNodes_unit target tree errors]
    exact (tree.showsAll_unit target errors).of_occurs h
  have hview := @buildView_alone tree s p d i target target' errors errors' h k hk
  obtain ⟨k, rfl⟩ : ∃ j, k = j + 1 := ⟨k - 1, by omega⟩
  have hmoved := nodesAll_moved i d s.children (some 0) 1 1
  simp only [Option.map_some, Nat.zero_add, Nat.add_comm 1] at hmoved
  rw [node?_unit, node?_unit, hlisted.getElem? (by rwa [length_nodes]), nodes_eq, nodes_eq,
    List.getElem?_cons_succ, List.getElem?_cons_succ, hmoved, List.getElem?_map, Option.map_map,
    Option.map_map, Nat.add_comm i, hview]
  rfl

theorem node?_top_alone (h : Occurs none 0 0 [tree] p d i s) :
    ((tree.unit target errors).tree.node? i).map Node.orphan =
      ((s.unit target' errors').tree.node? 0).map (Node.moved i d) := by
  have hlisted : ListedAt (tree.nodes none 0 0) i (s.nodes p d i) := by
    rw [← plainNodes_unit target tree errors]
    exact (tree.showsAll_unit target errors).of_occurs h
  have hview := @buildView_alone tree s p d i target target' errors errors' h 0 s.size_pos
  have hmoved := top_moved i d s none 0 0
  have horphan : s.top none d i = (s.top p d i).orphan := by cases s <;> rfl
  rw [nodes_eq p d i s] at hlisted
  simp only [Option.map_none, Nat.zero_add] at hmoved hview
  rw [node?_unit, node?_unit, hlisted.cons.1, nodes_eq, List.getElem?_cons_zero, Option.map_some,
    Option.map_some, Option.map_some, Option.map_some, hview]
  refine congrArg some (Node.ext_plain ?_ rfl)
  show (s.top p d i).orphan.plain = ((s.top none 0 0).moved i d).plain
  rw [← horphan, hmoved]

/-- The entries of a kind at the positions of a subtree are those of the subtree alone. -/
theorem isSegment_entries (h : Occurs none 0 0 [tree] p d i s) {kind : Kind}
    (hlisted : Registry.isListed kind = true) :
    IsSegment i (i + s.size)
      (((s.unit target' errors').registry.entries kind).toList.map (· + i))
      ((tree.unit target errors).registry.entries kind).toList := by
  have hbounds := h.bounds
  rw [sizeAll, sizeAll] at hbounds
  have hwithin : i + s.size ≤ (tree.unit target errors).tree.size := by
    rw [size_unit]
    omega
  have hsegment := (tree.unit target errors).tree.isSegment_positions kind hwithin
  have hrange : List.range' i s.size = (List.range s.size).map (· + i) := by
    simp only [List.range'_eq_map_range, Nat.add_comm]
  have hown : (List.range' i s.size).filter
        (fun j => (tree.unit target errors).tree.kind? j = some kind) =
      ((s.unit target' errors').tree.positions kind).map (· + i) := by
    rw [hrange, List.filter_map, Tree.positions, size_unit]
    congr 1
    refine List.filter_congr fun k hk => ?_
    rw [Function.comp_apply, kind?_alone h (List.mem_range.mp hk)]
  rw [entries_unit target tree errors hlisted, entries_unit target' s errors' hlisted, ← hown]
  exact hsegment

/-- **The unit of a subtree stands where the subtree stands.** -/
theorem standsAt_unit (h : Occurs none 0 0 [tree] p d i s) :
    (s.unit target' errors').StandsAt (tree.unit target errors) i d := by
  have hsize : (tree.unit target errors).tree.subtreeSize i = s.size :=
    ((tree.showsAll_unit target errors).of_occurs h).subtreeSize
  have hsegment : ∀ kind, Registry.isListed kind = true → _ := fun kind =>
    @isSegment_entries tree s p d i target target' errors errors' h kind
  rw [← hsize] at hsegment
  refine ⟨by rw [size_unit, hsize], node?_top_alone h, fun k hpos hk => ?_,
    hsegment .functionDecl rfl, hsegment .compoundStmt rfl, hsegment .forStmt rfl,
    hsegment .whileStmt rfl, hsegment .doStmt rfl⟩
  rw [size_unit] at hk
  exact node?_alone h hpos hk

end Inside

end RecordTree

/-- **Decoding is local**, whatever the dump and the options: each node is made from one record, and
the record alone, where as many levels are left as there were for it, is decoded to a unit that
stands in the unit of the dump from this node on. -/
theorem decode_local {options : Options} {raw : Json} {u : TranslationUnit} {i : Nat} {n : Node}
    (h : decode options raw = .ok u) (hn : u.tree.node? i = some n) :
    ∃ r, (∀ v, MadeFrom options raw i v ↔ v = r) ∧
      ∃ part, decode { options with maxDepth := options.maxDepth - n.depth } r = .ok part ∧
        part.StandsAt u i n.depth := by
  have hlt : i < u.tree.size := (Array.getElem?_eq_some_iff.mp hn).1
  have hmade := fun v => @madeFrom_iff options raw u h i hlt v
  obtain ⟨tree, errors, hfound, rfl⟩ := decode_eq_ok_iff.mp h
  obtain ⟨p, d, s, hocc, -, -, rfl, -⟩ :=
    (tree.showsAll_unit options.target errors).node (tree.size_unit options.target errors) hn
  obtain ⟨r, hr, htree⟩ := RecordTree.exists_kept_of_occurs hfound hocc
  obtain ⟨ownErrors, hown⟩ := htree.alone
  refine ⟨r, fun v => ?_, s.unit options.target ownErrors,
    decode_eq_ok_iff.mpr ⟨s, ownErrors, hown, rfl⟩, RecordTree.standsAt_unit hocc⟩
  rw [hmade, hr, Option.some.injEq, eq_comm]

/-- A loop at depth one, after a leaf and after an item that is dropped. -/
theorem decode_local_after_dropped :
    let options : Options := { Options.default with recoverMalformed := true }
    let loop : Json := .branch "0x3" "WhileStmt" [.null,
      .branch "0x4" "CompoundStmt" [.leaf "0x5" "BreakStmt"]]
    let raw : Json := .branch "0x1" "CompoundStmt" [.leaf "0x2" "NullStmt", .int 7, loop]
    ∃ u n part, decode options raw = .ok u ∧ u.tree.node? 2 = some n ∧ n.depth = 1 ∧
      MadeFrom options raw 2 loop ∧ decode { options with maxDepth := 255 } loop = .ok part ∧
      part.StandsAt u 2 1 := by
  intro options loop raw
  have hdepth : (decode options raw).toOption.map (fun u => (u.tree.node? 2).map Node.depth) =
      some (some 1) := by decide +kernel
  obtain ⟨u, hu, hdepth⟩ := exists_decode_of_map hdepth
  obtain ⟨n, hn, hone⟩ := Option.map_eq_some_iff.mp hdepth
  obtain ⟨r, hmade, part, hpart, hstands⟩ := decode_local hu hn
  have hloop : MadeFrom options raw 2 loop :=
    (madeFrom_iff hu (Array.getElem?_eq_some_iff.mp hn).1).mpr (by decide +kernel)
  rw [hone] at hpart hstands
  rw [← (hmade loop).mp hloop] at hpart
  exact ⟨u, n, part, hu, hn, hone, hloop, hpart, hstands⟩

end AstDump
