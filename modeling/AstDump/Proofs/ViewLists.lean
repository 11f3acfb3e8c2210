import AstDump.Proofs.Locality
import AstDump.Unit.Views

/-!
# The lists of the views

The loops and calls of a compound statement are listed three times: in the registry, as the nodes
are entered; in the view of the statement, when it is closed; and, if the statement is the body of a
loop, in the view of the loop. No list is made from another, but all of them are read off the same
interval of positions.

* `IsSegment.eq_filter`               : a segment is what a list has within its bounds;
* `Tree.Shows.isSegment_collect`      : what a deep search finds is a segment of all of the kind;
* `Tree.ShowsAll.sublist_firstOfKind` : the first children of a kind, tree by tree;
* `TranslationUnit.ListsCompound`, `TranslationUnit.ListsLoop` : the lists of a view are right;
* `decode_views_agree`                : so they are in a decoded unit.
-/

namespace AstDump

/-- A segment is what the whole list has within the bounds of the segment. -/
theorem IsSegment.eq_filter {first last : Nat} {part all : List Nat}
    (h : IsSegment first last part all) :
    part = all.filter fun j => first ≤ j ∧ j < last := by
  obtain ⟨before, after, rfl, hbefore, hpart, hafter⟩ := h
  have hnone : before.filter (fun j => first ≤ j ∧ j < last) = [] := by
    apply List.filter_eq_nil_iff.mpr
    intro j hj
    have hlt := hbefore j hj
    simp only [decide_eq_true_eq]
    omega
  have hall : part.filter (fun j => first ≤ j ∧ j < last) = part := by
    apply List.filter_eq_self.mpr
    intro j hj
    exact decide_eq_true (hpart j hj)
  have hrest : after.filter (fun j => first ≤ j ∧ j < last) = [] := by
    apply List.filter_eq_nil_iff.mpr
    intro j hj
    have hle := hafter j hj
    simp only [decide_eq_true_eq]
    omega
  rw [List.filter_append, List.filter_append, hnone, hall, hrest, List.append_nil, List.nil_append]

/-- The lists in the view of a compound statement: its loops are what the registry lists below it,
its calls are the calls below it. -/
structure TranslationUnit.ListsCompound (u : TranslationUnit) (c : Nat) (v : CompoundView) :
    Prop where
  forLoops : IsSegment (c + 1) (c + u.tree.subtreeSize c) v.forLoops.toList
    u.registry.forLoops.toList
  whileLoops : IsSegment (c + 1) (c + u.tree.subtreeSize c) v.whileLoops.toList
    u.registry.whileLoops.toList
  doLoops : IsSegment (c + 1) (c + u.tree.subtreeSize c) v.doLoops.toList
    u.registry.doLoops.toList
  calls : v.calls.toList =
    (u.tree.positions .callExpr).filter fun j => c < j ∧ j < c + u.tree.subtreeSize c

/-- The lists in the view of a loop with the body `b`, whose own view is `w`: the loop has the calls
of the body, the variables below the body, of which the body itself may list only some, and the
breaks among the children of the body. -/
structure TranslationUnit.ListsLoop (u : TranslationUnit) (v : LoopView) (b : Nat)
    (w : CompoundView) : Prop where
  calls : v.calls = w.calls
  varDecls : v.varDecls.toList =
    (u.tree.positions .varDecl).filter fun j => b < j ∧ j < b + u.tree.subtreeSize b
  breaks : v.breaks.toList =
    (u.tree.childIds b).toList.filter fun j => u.tree.kind? j = some .breakStmt
  sublist : w.varDecls.toList.Sublist v.varDecls.toList

namespace Tree

/-! ## Views by kind -/

theorem kind?_of_node {t : Tree} {i : Nat} {n : Node} {kind : Kind} (hn : t.node? i = some n)
    (hkind : n.kind = kind) : t.kind? i = some kind := by
  rw [kind?, hn, Option.map_some, hkind]

theorem buildView_compound {t : Tree} {i : Nat} (h : t.kind? i = some .compoundStmt) :
    t.buildView i = .compound (t.compoundView i) := by
  rw [buildView, h]

theorem buildView_loop {t : Tree} {i : Nat} {kind : Kind} (h : t.kind? i = some kind)
    (hloop : kind.isLoop = true) : t.buildView i = .loop (t.loopView i) := by
  rw [buildView, h]
  unfold Kind.isLoop at hloop
  split at hloop
  case h_4 => cases hloop
  all_goals rfl

theorem loopView_of_body {t : Tree} {i b : Nat} (h : t.collectFirst? i .compoundStmt = some b) :
    t.loopView i = ⟨t.loopBounds? i, some b, t.collect b .varDecl true, t.collect b .callExpr true,
      t.collect b .breakStmt false⟩ := by
  rw [loopView, h]

theorem collectFirst?_of_loopView {t : Tree} {i b : Nat} (h : (t.loopView i).body = some b) :
    t.collectFirst? i .compoundStmt = some b := by
  unfold loopView at h
  cases hbody : t.collectFirst? i .compoundStmt with
  | none => rw [hbody] at h; cases h
  | some b' => rw [hbody] at h; exact h

theorem kind?_of_collectFirst? {t : Tree} {i c : Nat} {kind : Kind}
    (h : t.collectFirst? i kind = some c) : t.kind? c = some kind := by
  unfold collectFirst? at h
  have hkind := Array.find?_some h
  exact of_decide_eq_true hkind

theorem isSome_collectFirst?_iff {t : Tree} {i : Nat} {kind : Kind} :
    (t.collectFirst? i kind).isSome = true ↔ ∃ c ∈ t.childIds i, t.kind? c = some kind := by
  rw [collectFirst?, Array.find?_isSome]
  simp

/-! ## Variables -/

/-- **The first children of a kind**, of one tree after the other, are some of the nodes of the kind
in the forest, in their order. -/
theorem ShowsAll.sublist_firstOfKind {t : Tree} (kind : Kind) (ts : List RecordTree) :
    ∀ {p : Option NodeId} {d first : Nat}, t.ShowsAll p d first ts →
      ((RecordTree.tops first ts).filterMap fun c => t.collectFirst? c kind).Sublist
        ((List.range' first (RecordTree.sizeAll ts)).filter fun j => t.kind? j = some kind) := by
  induction ts with
  | nil => intro p d first _; exact .slnil
  | cons s ts ih =>
    intro p d first h
    obtain ⟨hs, hts⟩ := h.cons
    have hcons : ((RecordTree.tops first (s :: ts)).filterMap fun c => t.collectFirst? c kind) =
        (t.collectFirst? first kind).toList ++
          (RecordTree.tops (first + s.size) ts).filterMap fun c => t.collectFirst? c kind := by
      rw [RecordTree.tops_cons, List.filterMap_cons]
      cases t.collectFirst? first kind <;> rfl
    -- what is found in the first tree lies below its top, before the other trees
    have hown : (t.collectFirst? first kind).toList.Sublist
        ((List.range' (first + 1) (RecordTree.sizeAll s.children)).filter
          fun j => t.kind? j = some kind) := by
      cases hfirst : t.collectFirst? first kind with
      | none => exact List.nil_sublist _
      | some k =>
        have hin := RecordTree.mem_tops_bounds s.children (hs.mem_tops_of_collectFirst? hfirst)
        exact List.singleton_sublist.mpr (List.mem_filter.mpr
          ⟨List.mem_range'_1.mpr hin, decide_eq_true (kind?_of_collectFirst? hfirst)⟩)
    have hboth := hown.append (ih hts)
    rw [← List.filter_append] at hboth
    rw [hcons, RecordTree.range'_sizeAll_cons]
    exact hboth.trans ((List.sublist_cons_self first _).filter _)

namespace Shows

variable {t : Tree} {p : Option NodeId} {d i : Nat} {s : RecordTree}

/-- **What a deep search finds** are the positions of the kind within the subtree. -/
theorem isSegment_collect (h : t.Shows p d i s) (kind : Kind) :
    IsSegment (i + 1) (i + t.subtreeSize i) (t.collect i kind true).toList (t.positions kind) := by
  have hle := h.add_size_le
  have hsize := s.size_eq
  have hlast : i + t.subtreeSize i = i + 1 + RecordTree.sizeAll s.children := by
    rw [h.subtreeSize]
    omega
  rw [h.collect, hlast]
  exact t.isSegment_positions kind (by omega)

/-- The variables that a node declares one to a statement are among the variables below it. -/
theorem singleVarDecls_sublist (h : t.Shows p d i s) :
    (t.singleVarDecls i).toList.Sublist (t.collect i .varDecl true).toList := by
  have hsome := h.below.sublist_firstOfKind .varDecl
  unfold singleVarDecls
  rw [h.collectWhere, h.collect]
  simp only [List.filterMap_toArray]
  exact (List.filter_sublist.filterMap _).trans hsome

/-- A search among the children finds the children of the kind. -/
theorem collect_direct (h : t.Shows p d i s) (kind : Kind) : (t.collect i kind false).toList =
    (t.childIds i).toList.filter fun j => t.kind? j = some kind := by
  rw [h.collect, h.childIds]
  rfl

end Shows

end Tree

/-! ## Units -/

namespace TranslationUnit

variable {u : TranslationUnit} {p : Option NodeId} {d i : Nat} {s : RecordTree}

/-- The lists of a compound statement, where the registry lists the positions of its kinds. -/
theorem listsCompound (h : u.tree.Shows p d i s)
    (hentries : ∀ kind, Registry.isListed kind = true →
      u.registry.entries kind = (u.tree.positions kind).toArray) :
    u.ListsCompound i (u.tree.compoundView i) := by
  have hsegment : ∀ kind, Registry.isListed kind = true →
      IsSegment (i + 1) (i + u.tree.subtreeSize i) (u.tree.collect i kind true).toList
        (u.registry.entries kind).toList := by
    intro kind hlisted
    rw [hentries kind hlisted]
    exact h.isSegment_collect kind
  exact ⟨hsegment .forStmt rfl, hsegment .whileStmt rfl, hsegment .doStmt rfl,
    (h.isSegment_collect .callExpr).eq_filter⟩

/-- The lists of a loop whose body is the node at `i`. -/
theorem listsLoop (h : u.tree.Shows p d i s) {l : Nat}
    (hbody : u.tree.collectFirst? l .compoundStmt = some i) :
    u.ListsLoop (u.tree.loopView l) i (u.tree.compoundView i) := by
  rw [Tree.loopView_of_body hbody]
  exact ⟨rfl, (h.isSegment_collect .varDecl).eq_filter, h.collect_direct .breakStmt,
    h.singleVarDecls_sublist⟩

end TranslationUnit

/-- **Views, registry and tree agree**, whatever the dump and the options: every compound statement
has a view with the right lists, and so has every loop, where it has a body. -/
theorem decode_views_agree {options : Options} {raw : Json} {u : TranslationUnit}
    (h : decode options raw = .ok u) :
    (∀ (c : Nat) (n : Node), u.tree.node? c = some n → n.kind = .compoundStmt →
      ∃ v, n.view = .compound v ∧ u.ListsCompound c v) ∧
    ∀ (l : Nat) (n : Node), u.tree.node? l = some n → n.kind.isLoop = true →
      ∃ v, n.view = .loop v ∧ ∀ b, v.body = some b →
        ∃ m w, u.tree.node? b = some m ∧ m.kind = .compoundStmt ∧ m.view = .compound w ∧
          u.ListsLoop v b w := by
  obtain ⟨tree, errors, -, rfl⟩ := decode_eq_ok_iff.mp h
  have hall := tree.showsAll_unit options.target errors
  have hsize := tree.size_unit options.target errors
  refine ⟨fun c n hn hkind => ?_, fun l n hn hloop => ?_⟩
  · obtain ⟨p, d, s, -, hs, -⟩ := hall.node hsize hn
    have hview := tree.view_unit options.target errors hn
    rw [Tree.buildView_compound (Tree.kind?_of_node hn hkind)] at hview
    exact ⟨_, hview, TranslationUnit.listsCompound hs fun kind hlisted =>
      tree.entries_unit options.target errors hlisted⟩
  · obtain ⟨p, d, s, -, hs, -⟩ := hall.node hsize hn
    have hview := tree.view_unit options.target errors hn
    rw [Tree.buildView_loop (Tree.kind?_of_node hn rfl) hloop] at hview
    refine ⟨_, hview, fun b hb => ?_⟩
    have hbody := Tree.collectFirst?_of_loopView hb
    obtain ⟨s', hs', -⟩ := hs.child (hs.mem_tops_of_collectFirst? hbody)
    obtain ⟨m, hm, hcompound⟩ := Option.map_eq_some_iff.mp (Tree.kind?_of_collectFirst? hbody)
    have hbodyView := tree.view_unit options.target errors hm
    rw [Tree.buildView_compound (Tree.kind?_of_node hm hcompound)] at hbodyView
    exact ⟨m, _, hm, hcompound, hbodyView, TranslationUnit.listsLoop hs' hbody⟩

/-- A loop whose body declares three variables, one of them in a statement of its own, and holds a
loop with a call; another loop follows the first. -/
theorem decode_views_agree_nested_loops :
    let raw : Json := .branch "0" "CompoundStmt" [
      .branch "1" "ForStmt" [
        .branch "2" "CompoundStmt" [
          .branch "3" "DeclStmt" [.leaf "4" "VarDecl"],
          .branch "5" "DeclStmt" [.leaf "6" "VarDecl", .leaf "7" "VarDecl"],
          .branch "8" "WhileStmt" [.branch "9" "CompoundStmt" [.leaf "10" "CallExpr"]],
          .leaf "11" "BreakStmt"]],
      .leaf "12" "WhileStmt"]
    let v : LoopView := ⟨none, some 2, #[4, 6, 7], #[10], #[11]⟩
    let w : CompoundView := ⟨#[4], #[], #[8], #[], #[10]⟩
    ∃ u, decode Options.default raw = .ok u ∧ u.tree.view? 1 = some (.loop v) ∧
      u.tree.view? 2 = some (.compound w) ∧ u.ListsCompound 2 w ∧ u.ListsLoop v 2 w ∧
      u.registry.whileLoops = #[8, 12] := by
  intro raw v w
  have hvalues : (decode Options.default raw).toOption.map (fun u =>
      ((u.tree.node? 1).map fun n => (n.kind, n.view),
        (u.tree.node? 2).map fun n => (n.kind, n.view), u.registry.whileLoops)) =
      some (some (.forStmt, .loop v), some (.compoundStmt, .compound w), #[8, 12]) := by
    decide +kernel
  obtain ⟨u, hu, hvalues⟩ := exists_decode_of_map hvalues
  simp only [Prod.mk.injEq, Option.map_eq_some_iff] at hvalues
  obtain ⟨⟨n, hn, hfor, hloop⟩, ⟨m, hm, hcompound, hbody⟩, hwhile⟩ := hvalues
  obtain ⟨hcompounds, hloops⟩ := decode_views_agree hu
  obtain ⟨w', hw', hlists⟩ := hcompounds 2 m hm hcompound
  obtain ⟨v', hv', hlistsLoop⟩ := hloops 1 n hn (by rw [hfor]; rfl)
  rw [hbody] at hw'
  rw [hloop] at hv'
  cases hw'
  cases hv'
  obtain ⟨m', w', hm', -, hw', hlistsBody⟩ := hlistsLoop 2 rfl
  rw [hm] at hm'
  cases hm'
  rw [hbody] at hw'
  cases hw'
  refine ⟨u, hu, ?_, ?_, hlists, hlistsBody, hwhile⟩
  · rw [Tree.view?, hn, Option.map_some, hloop]
  · rw [Tree.view?, hm, Option.map_some, hbody]

end AstDump
