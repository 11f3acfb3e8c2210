import AstDump.Proofs.Preorder
import AstDump.Tree.Filter

/-!
# The order of a search

Which nodes a search looks at, and when, does not depend on what its predicate answers. On a decoded
tree the worklist runs empty after the nodes in the scope of the search, which come in document
order; the predicate is asked about those of the kind, each once, and told what was accepted before.

* `Tree.worklistAfter`      : the worklist of a search after some nodes;
* `Tree.searchM_add`        : a search goes on with this worklist;
* `Tree.recursionM`         : the search told by recursion, a child and then what is below it;
* `Tree.SearchedAs`         : the scope of a search, with all that follows from it;
* `decode_search`           : the scopes of the searches of a decoded unit.
-/

namespace AstDump

namespace Tree

/-- The worklist of a search after so many nodes were taken off its front. -/
def worklistAfter (t : Tree) (recursive : Bool) : (n : Nat) → List NodeId → List NodeId
  | 0, worklist => worklist
  | _ + 1, [] => []
  | n + 1, i :: rest =>
    worklistAfter t recursive n ((if recursive then (t.childIds i).toList else []) ++ rest)

section Monadic

variable {m : Type → Type} [Monad m]

/-- The nodes found so far, and `i` if the predicate accepts it after them. -/
def askM (accept : Array NodeId → NodeId → m Bool) (found : Array NodeId) (i : NodeId) :
    m (Array NodeId) := do
  if ← accept found i then return found.push i else return found

/-- The search below a node told by recursion, down to `levels` levels: a child is tested, then the
search goes on below it, whether or not it was accepted, and then comes the next child. -/
def recursionM (t : Tree) (kind : Kind) (recursive : Bool)
    (accept : Array NodeId → NodeId → m Bool) :
    (levels : Nat) → (found : Array NodeId) → NodeId → m (Array NodeId)
  | 0, found, _ => return found
  | levels + 1, found, i =>
    (t.childIds i).toList.foldlM (fun found c =>
      (if t.kind? c = some kind then askM accept found c else pure found) >>= fun found =>
        if recursive then recursionM t kind recursive accept levels found c else pure found) found

end Monadic

/-- The searches below a node, for any kind and with any predicate, have this scope. The monad of
the predicate stands for whatever state it keeps between its answers. -/
structure SearchedAs (t : Tree) (i : Nat) (recursive : Bool) (scope : List NodeId) : Prop where
  /-- The nodes of the scope are all that is ever taken off the worklist. -/
  worklist_runs_empty : t.worklistAfter recursive scope.length (t.childIds i).toList = []
  /-- The bound on the number of nodes is not reached. -/
  within_bound : scope.length < t.size
  /-- Any other bound that is not reached would do as well. -/
  bound_irrelevant : ∀ {m : Type → Type} [Monad m] [LawfulMonad m] (kind : Kind)
    (accept : Array NodeId → NodeId → m Bool) (n : Nat), scope.length ≤ n →
      t.searchM kind recursive accept n (t.childIds i).toList #[] =
        t.collectWhereM i kind recursive accept
  /-- The predicate is asked once about each node of the kind, in the order of the scope, and what
  it accepts is appended to what it accepted before. -/
  eq_fold : ∀ {m : Type → Type} [Monad m] [LawfulMonad m] (kind : Kind)
    (accept : Array NodeId → NodeId → m Bool),
      t.collectWhereM i kind recursive accept =
        (scope.filter fun j => t.kind? j = some kind).foldlM (askM accept) #[]
  /-- The search is the recursion over the tree, if that may go down as far as there are nodes. -/
  eq_recursion : ∀ {m : Type → Type} [Monad m] [LawfulMonad m] (kind : Kind)
    (accept : Array NodeId → NodeId → m Bool) (levels : Nat), t.subtreeSize i ≤ levels →
      t.collectWhereM i kind recursive accept = t.recursionM kind recursive accept levels #[] i

/-! ## The worklist -/

section Worklist

variable {t : Tree}

theorem worklistAfter_nil (recursive : Bool) (n : Nat) : t.worklistAfter recursive n [] = [] := by
  cases n <;> rfl

/-- Without going down, the worklist only gets shorter. -/
theorem worklistAfter_direct (n : Nat) :
    ∀ worklist : List NodeId, t.worklistAfter false n worklist = worklist.drop n := by
  induction n with
  | zero => intro worklist; rfl
  | succ n ih =>
    intro worklist
    cases worklist with
    | nil => rfl
    | cons i rest => exact ih rest

/-- **The worklist of a forest is used up by the nodes of the forest**, before the rest is looked
at. -/
theorem worklistAfter_tops (ts : List RecordTree) :
    ∀ (p : Option NodeId) (d first n : Nat) (rest : List NodeId), t.ShowsAll p d first ts →
      t.worklistAfter true (RecordTree.sizeAll ts + n) (RecordTree.tops first ts ++ rest) =
        t.worklistAfter true n rest := by
  induction ts using RecordTree.forest_induction with
  | nil =>
    intro p d first n rest _
    rw [RecordTree.sizeAll, Nat.zero_add]
    rfl
  | cons s ts below beside =>
    intro p d first n rest h
    have hsize : RecordTree.sizeAll (s :: ts) + n =
        RecordTree.sizeAll s.children + (RecordTree.sizeAll ts + n) + 1 := by
      rw [RecordTree.sizeAll, s.size_eq]
      omega
    rw [hsize, RecordTree.tops_cons, List.cons_append, worklistAfter, if_pos rfl, h.cons.1.childIds,
      below _ _ _ _ _ h.cons.1.below]
    exact beside _ _ _ _ _ h.cons.2

variable {m : Type → Type} [Monad m] {kind : Kind} {accept : Array NodeId → NodeId → m Bool}

/-- **A search of so many nodes goes on with the worklist that they leave.** -/
theorem searchM_add [LawfulMonad m] (recursive : Bool) (a b : Nat) :
    ∀ (worklist : List NodeId) (found : Array NodeId),
      t.searchM kind recursive accept (a + b) worklist found =
        (t.searchM kind recursive accept a worklist found >>=
          t.searchM kind recursive accept b (t.worklistAfter recursive a worklist)) := by
  induction a with
  | zero =>
    intro worklist found
    rw [Nat.zero_add, searchM, pure_bind]
    rfl
  | succ a ih =>
    intro worklist found
    cases worklist with
    | nil => rw [searchM_nil, searchM_nil, pure_bind, worklistAfter_nil, searchM_nil]
    | cons i rest =>
      rw [Nat.succ_add, searchM, searchM, bind_assoc]
      congr 1
      funext found
      exact ih _ found

/-- Once the worklist is empty, the bound makes no difference. -/
theorem searchM_of_worklistAfter [LawfulMonad m] {recursive : Bool} {worklist : List NodeId}
    {a n : Nat} (h : t.worklistAfter recursive a worklist = []) (hn : a ≤ n)
    (found : Array NodeId) :
    t.searchM kind recursive accept n worklist found =
      t.searchM kind recursive accept a worklist found := by
  obtain ⟨b, rfl⟩ := Nat.exists_eq_add_of_le hn
  have hrest : t.searchM kind recursive accept b [] = pure := funext (searchM_nil recursive b)
  rw [searchM_add, h, hrest, bind_pure]

/-! ## The recursion -/

theorem recursionM_succ (recursive : Bool) (levels : Nat) (found : Array NodeId) (i : Nat) :
    t.recursionM kind recursive accept (levels + 1) found i =
      (t.childIds i).toList.foldlM (fun found c =>
        t.testM kind accept found c >>= fun found =>
          if recursive then t.recursionM kind recursive accept levels found c else pure found)
        found := rfl

/-- Without going down, the recursion tests the children. -/
theorem recursionM_direct [LawfulMonad m] (levels : Nat) (found : Array NodeId) (i : Nat) :
    t.recursionM kind false accept (levels + 1) found i =
      (t.childIds i).toList.foldlM (t.testM kind accept) found := by
  rw [recursionM_succ]
  congr 1
  funext found c
  exact bind_pure _

/-- **The recursion over a forest takes its positions one after the other.** -/
theorem ShowsAll.foldlM_recursionM [LawfulMonad m] (ts : List RecordTree) :
    ∀ {p : Option NodeId} {d first levels : Nat} (found : Array NodeId), t.ShowsAll p d first ts →
      RecordTree.sizeAll ts ≤ levels →
      (RecordTree.tops first ts).foldlM (fun found c => do
        let found ← t.testM kind accept found c
        t.recursionM kind true accept levels found c) found =
        (List.range' first (RecordTree.sizeAll ts)).foldlM (t.testM kind accept) found := by
  induction ts using RecordTree.forest_induction with
  | nil => intro p d first levels found _ _; rfl
  | cons s ts below beside =>
    intro p d first levels found h hlevels
    obtain ⟨hs, hts⟩ := h.cons
    have hsize := s.size_eq
    rw [RecordTree.sizeAll] at hlevels
    obtain ⟨levels, rfl⟩ : ∃ lower, levels = lower + 1 := ⟨levels - 1, by omega⟩
    have hbelow : ∀ found, t.recursionM kind true accept (levels + 1) found first =
        (List.range' (first + 1) (RecordTree.sizeAll s.children)).foldlM (t.testM kind accept)
          found := by
      intro found
      rw [recursionM_succ, hs.childIds]
      exact below found hs.below (by omega)
    rw [RecordTree.tops_cons, RecordTree.range'_sizeAll_cons, List.foldlM_cons, List.foldlM_cons,
      bind_assoc]
    congr 1
    funext found
    rw [hbelow, List.foldlM_append]
    congr 1
    funext found
    exact beside found hts (by omega)

end Worklist

/-! ## Scopes -/

namespace Shows

variable {t : Tree} {p : Option NodeId} {d i : Nat} {s : RecordTree}

theorem length_candidates_lt (h : t.Shows p d i s) (recursive : Bool) :
    (candidates i s recursive).length < t.size := by
  have hle := h.add_size_le
  have hsize := s.size_eq
  unfold candidates
  cases recursive with
  | false =>
    have hshort := RecordTree.length_le_sizeAll s.children
    rw [if_neg Bool.false_ne_true, RecordTree.length_tops]
    omega
  | true =>
    rw [if_pos rfl, List.length_range']
    omega

theorem worklistAfter_candidates (h : t.Shows p d i s) (recursive : Bool) :
    t.worklistAfter recursive (candidates i s recursive).length (t.childIds i).toList = [] := by
  rw [h.childIds]
  cases recursive with
  | false => rw [worklistAfter_direct]; exact List.drop_length
  | true =>
    have hempty := worklistAfter_tops s.children (some i) (d + 1) (i + 1) 0 [] h.below
    rw [List.append_nil, Nat.add_zero, worklistAfter_nil] at hempty
    rw [candidates, if_pos rfl, List.length_range']
    exact hempty

/-- The recursion below a node is a left fold over the candidates of the search. -/
theorem recursionM {m : Type → Type} [Monad m] [LawfulMonad m] (h : t.Shows p d i s) (kind : Kind)
    (recursive : Bool) (accept : Array NodeId → NodeId → m Bool) {levels : Nat}
    (hlevels : s.size ≤ levels) :
    t.recursionM kind recursive accept levels #[] i =
      (candidates i s recursive).foldlM (t.testM kind accept) #[] := by
  have hsize := s.size_eq
  obtain ⟨levels, rfl⟩ : ∃ lower, levels = lower + 1 := ⟨levels - 1, by omega⟩
  cases recursive with
  | false => rw [recursionM_direct, h.childIds]; rfl
  | true =>
    rw [recursionM_succ, h.childIds]
    exact h.below.foldlM_recursionM s.children #[] (by omega)

/-- **The candidates of a search are its scope.** -/
theorem searchedAs (h : t.Shows p d i s) (recursive : Bool) :
    t.SearchedAs i recursive (candidates i s recursive) where
  worklist_runs_empty := h.worklistAfter_candidates recursive
  within_bound := h.length_candidates_lt recursive
  bound_irrelevant kind accept n hn := by
    have hempty := h.worklistAfter_candidates recursive
    have hbound := Nat.le_of_lt (h.length_candidates_lt recursive)
    rw [Tree.collectWhereM, searchM_of_worklistAfter hempty hn,
      searchM_of_worklistAfter hempty hbound]
  eq_fold kind accept := by
    rw [h.collectWhereM, List.foldlM_filter]
    congr 1
    funext found j
    by_cases hkind : t.kind? j = some kind
    · simp [testM, askM, hkind]
    · simp [testM, hkind]
  eq_recursion kind accept levels hlevels := by
    rw [h.subtreeSize] at hlevels
    rw [h.collectWhereM, h.recursionM kind recursive accept hlevels]

/-- The first child of a kind is the first that a search among the children finds. -/
theorem collectFirst?_eq_head (h : t.Shows p d i s) (kind : Kind) :
    t.collectFirst? i kind = (t.collect i kind false)[0]? := by
  rw [h.collectFirst?, h.collect, List.getElem?_toArray, ← List.head?_eq_getElem?,
    List.head?_filter]
  rfl

end Shows

end Tree

/-- **The scopes of the searches of a decoded unit**, whatever the dump and the options: a search
among the children looks at the children of the node; a deep search looks at all nodes below it,
which are the positions after it up to the end of its subtree. The first child of a kind is the
first that a search among the children finds. -/
theorem decode_search {options : Options} {raw : Json} {u : TranslationUnit} {i : Nat}
    (h : decode options raw = .ok u) (hi : i < u.tree.size) :
    u.tree.SearchedAs i false (u.tree.childIds i).toList ∧
    u.tree.SearchedAs i true (List.range' (i + 1) (u.tree.subtreeSize i - 1)) ∧
    (∀ j, j ∈ List.range' (i + 1) (u.tree.subtreeSize i - 1) ↔ j ≠ i ∧ u.tree.Reaches i j) ∧
    ∀ kind, u.tree.collectFirst? i kind = (u.tree.collect i kind false)[0]? := by
  obtain ⟨tree, errors, -, rfl⟩ := decode_eq_ok_iff.mp h
  obtain ⟨p, d, s, -, hs⟩ :=
    (tree.showsAll_unit options.target errors).exists_shows (tree.size_unit options.target errors)
      hi
  have hsize := s.size_eq
  have hdeep := hs.searchedAs true
  rw [Tree.candidates, if_pos rfl] at hdeep
  rw [hs.subtreeSize, hsize, Nat.add_sub_cancel]
  refine ⟨?_, hdeep, fun j => ?_, hs.collectFirst?_eq_head⟩
  · rw [hs.childIds]
    exact hs.searchedAs false
  · rw [hs.reaches_iff, List.mem_range'_1]
    omega

/-- Of three calls, one of them an argument of another, the second and every second one after it is
asked for: the predicate counts how often it is asked. -/
theorem decode_search_every_second :
    let raw : Json := .branch "0x1" "CompoundStmt" [
      .branch "0x2" "CallExpr" [.leaf "0x3" "CallExpr"], .leaf "0x4" "NullStmt",
      .leaf "0x5" "CallExpr"]
    ∃ u, decode Options.default raw = .ok u ∧ 0 < u.tree.size ∧
      u.tree.SearchedAs 0 true [1, 2, 3, 4] ∧
      u.tree.collectFiltered 0 .callExpr true (.every 2) = #[2] := by
  intro raw
  have hvalues : (decode Options.default raw).toOption.map (fun u =>
      (u.tree.size, u.tree.subtreeSize 0, u.tree.collectFiltered 0 .callExpr true (.every 2))) =
      some (5, 5, #[2]) := by decide +kernel
  obtain ⟨u, hu, hvalues⟩ := exists_decode_of_map hvalues
  simp only [Prod.mk.injEq] at hvalues
  obtain ⟨hsize, hsubtree, hfound⟩ := hvalues
  have hpos : 0 < u.tree.size := by omega
  have hdeep := (decode_search hu hpos).2.1
  rw [hsubtree] at hdeep
  exact ⟨u, hu, hpos, hdeep, hfound⟩

end AstDump
