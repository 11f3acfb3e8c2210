import AstDump.Proofs.ViewLists

/-!
# What views hold

Which nodes are functions, compound statements and loops is told by their views, but it comes to the
same as asking for their kinds; and the ids in a view are those of nodes below its own node, of the
kinds that the view is asked for.

* `Tree.HasViews`             : every node has the view that the tree gives it;
* `Tree.buildView_cases`      : which view that is;
* `Tree.HasViews.function?_eq_some_iff` and so on : functions, compound statements, loops by kind;
* `Tree.loopBounds?_eq_some_iff` : the header of a counting loop;
* `View.ids`, `Tree.Shows.ids_buildView` : the ids in a view stand in the subtree of its node.
-/

namespace AstDump

/-- The ids that a view holds. -/
def View.ids : View → List NodeId
  | plain => []
  | function v => v.params.toList ++ v.body.toList
  | compound v => v.varDecls.toList ++ v.forLoops.toList ++ v.whileLoops.toList ++
      v.doLoops.toList ++ v.calls.toList
  | loop v => (v.bounds.map fun b => [b.lower, b.upper, b.step]).getD [] ++ v.body.toList ++
      v.varDecls.toList ++ v.calls.toList ++ v.breaks.toList

/-! ## Nodes with views -/

namespace Tree

/-- Every node has the view that the tree gives it. -/
def HasViews (t : Tree) : Prop :=
  ∀ (i : Nat) (n : Node), t.node? i = some n → n.view = t.buildView i

/-- **Which view a tree gives**, by the kind of the node. -/
theorem buildView_cases {t : Tree} {i : Nat} {kind : Kind} (h : t.kind? i = some kind) :
    (kind = .functionDecl ∧ t.buildView i = .function (t.functionView i)) ∨
    (kind = .compoundStmt ∧ t.buildView i = .compound (t.compoundView i)) ∨
    (kind.isLoop = true ∧ t.buildView i = .loop (t.loopView i)) ∨
    (kind ≠ .functionDecl ∧ kind ≠ .compoundStmt ∧ kind.isLoop = false ∧
      t.buildView i = .plain) := by
  unfold buildView
  rw [h]
  by_cases hfunction : kind = .functionDecl
  · subst hfunction
    exact .inl ⟨rfl, rfl⟩
  by_cases hcompound : kind = .compoundStmt
  · subst hcompound
    exact .inr (.inl ⟨rfl, rfl⟩)
  refine .inr (.inr ?_)
  cases hloop : kind.isLoop with
  | true => cases kind <;> simp_all
  | false => cases kind <;> simp_all

namespace HasViews

variable {t : Tree} {i : Nat}

theorem view?_eq (h : t.HasViews) : t.view? i = (t.kind? i).map fun _ => t.buildView i := by
  unfold Tree.view? kind?
  cases hn : t.node? i with
  | none => rfl
  | some n => simp [h i n hn]

/-- The functions are the nodes of their kind. -/
theorem function?_eq_some_iff (h : t.HasViews) {f : FunctionDecl} :
    t.function? i = some f ↔ t.kind? i = some .functionDecl ∧ f = ⟨i, t.functionView i⟩ := by
  unfold function?
  rw [h.view?_eq]
  cases hkind : t.kind? i with
  | none => simp
  | some kind =>
    rcases buildView_cases hkind with
      ⟨rfl, hview⟩ | ⟨rfl, hview⟩ | ⟨hloop, hview⟩ | ⟨hother, -, -, hview⟩
    · simp [hview, eq_comm]
    · simp [hview]
    · have hother : kind ≠ .functionDecl := by
        rintro rfl
        cases hloop
      simp [hview, hother]
    · simp [hview, hother]

/-- The compound statements are the nodes of their kind. -/
theorem compound?_eq_some_iff (h : t.HasViews) {c : CompoundStmt} :
    t.compound? i = some c ↔ t.kind? i = some .compoundStmt ∧ c = ⟨i, t.compoundView i⟩ := by
  unfold compound?
  rw [h.view?_eq]
  cases hkind : t.kind? i with
  | none => simp
  | some kind =>
    rcases buildView_cases hkind with
      ⟨rfl, hview⟩ | ⟨rfl, hview⟩ | ⟨hloop, hview⟩ | ⟨-, hother, -, hview⟩
    · simp [hview]
    · simp [hview, eq_comm]
    · have hother : kind ≠ .compoundStmt := by
        rintro rfl
        cases hloop
      simp [hview, hother]
    · simp [hview, hother]

/-- The loops are the nodes of their three kinds. -/
theorem loop?_eq_some_iff (h : t.HasViews) {l : LoopStmt} :
    t.loop? i = some l ↔
      (∃ kind, t.kind? i = some kind ∧ kind.isLoop = true) ∧ l = ⟨i, t.loopView i⟩ := by
  unfold loop?
  rw [h.view?_eq]
  cases hkind : t.kind? i with
  | none => simp
  | some kind =>
    rcases buildView_cases hkind with
      ⟨rfl, hview⟩ | ⟨rfl, hview⟩ | ⟨hloop, hview⟩ | ⟨-, -, hother, hview⟩
    · simp [hview, Kind.isLoop]
    · simp [hview, Kind.isLoop]
    · simpa [hview, hloop] using eq_comm
    · simp [hview, hother]

end HasViews

/-! ## Loops -/

/-- The header of a counting loop: of the four children of a `for`, the first three. -/
theorem loopBounds?_eq_some_iff {t : Tree} {i : Nat} {b : LoopBounds} :
    t.loopBounds? i = some b ↔ t.kind? i = some .forStmt ∧
      ∃ last, (t.childIds i).toList = [b.lower, b.upper, b.step, last] := by
  unfold loopBounds?
  by_cases hkind : t.kind? i = some .forStmt
  · rw [if_pos hkind]
    split
    · next lower upper step last hids =>
      rw [hids]
      constructor
      · intro h
        cases h
        exact ⟨hkind, last, rfl⟩
      · rintro ⟨-, last', hsame⟩
        cases hsame
        rfl
    · next hother =>
      constructor
      · intro h
        cases h
      · rintro ⟨-, last, hids⟩
        exact absurd hids (hother _ _ _ _)
  · rw [if_neg hkind]
    simp [hkind]

theorem loopView_bounds (t : Tree) (i : Nat) : (t.loopView i).bounds = t.loopBounds? i := by
  unfold loopView
  split <;> rfl

theorem loopView_body (t : Tree) (i : Nat) :
    (t.loopView i).body = t.collectFirst? i .compoundStmt := by
  unfold loopView
  split
  · next body h => rw [h]
  · next h => rw [h]

/-- Without a body there is nothing to list. -/
theorem loopView_of_no_body {t : Tree} {i : Nat} (h : t.collectFirst? i .compoundStmt = none) :
    t.loopView i = ⟨t.loopBounds? i, none, #[], #[], #[]⟩ := by
  rw [loopView, h]

/-! ## The ids in a view -/

namespace Shows

variable {t : Tree} {p : Option NodeId} {d i j : Nat} {s : RecordTree} {kind : Kind}

theorem of_mem_collect (h : t.Shows p d i s) {recursive : Bool}
    (hj : j ∈ t.collect i kind recursive) :
    t.kind? j = some kind ∧ i < j ∧ j < i + s.size := by
  rw [h.collect, List.mem_toArray, List.mem_filter] at hj
  exact ⟨of_decide_eq_true hj.2, mem_candidates_bounds hj.1⟩

theorem of_collectFirst? (h : t.Shows p d i s) (hj : t.collectFirst? i kind = some j) :
    t.kind? j = some kind ∧ i < j ∧ j < i + s.size :=
  ⟨kind?_of_collectFirst? hj,
    @mem_candidates_bounds i j s false (h.mem_tops_of_collectFirst? hj)⟩

theorem of_mem_singleVarDecls (h : t.Shows p d i s) (hj : j ∈ t.singleVarDecls i) :
    t.kind? j = some .varDecl ∧ i < j ∧ j < i + s.size := by
  have hdeep := h.singleVarDecls_sublist.subset (Array.mem_toList_iff.mpr hj)
  exact h.of_mem_collect (Array.mem_toList_iff.mp hdeep)

theorem of_loopBounds? (h : t.Shows p d i s) {b : LoopBounds} (hb : t.loopBounds? i = some b)
    (hj : j ∈ [b.lower, b.upper, b.step]) : i < j ∧ j < i + s.size := by
  obtain ⟨-, last, hids⟩ := loopBounds?_eq_some_iff.mp hb
  have hmem : j ∈ (t.childIds i).toList := by
    rw [hids]
    exact List.mem_append_left [last] hj
  rw [h.childIds] at hmem
  exact @mem_candidates_bounds i j s false hmem

/-- What is listed of a body stands in the subtree of the body. -/
theorem of_mem_body (h : t.Shows p d i s) {b : Nat}
    (hbody : t.collectFirst? i .compoundStmt = some b) {recursive : Bool}
    (hj : j ∈ t.collect b kind recursive) :
    b < j ∧ j < b + t.subtreeSize b ∧ i < j ∧ j < i + s.size := by
  obtain ⟨s', hs', hlt, hle⟩ := h.child (h.mem_tops_of_collectFirst? hbody)
  obtain ⟨-, hafter, hbefore⟩ := hs'.of_mem_collect hj
  rw [hs'.subtreeSize]
  omega

theorem ids_loopView (h : t.Shows p d i s) (hj : j ∈ (View.loop (t.loopView i)).ids) :
    i < j ∧ j < i + s.size := by
  simp only [View.ids, List.mem_append, or_assoc, Array.mem_toList_iff, Option.mem_toList,
    loopView_bounds, loopView_body] at hj
  rcases hj with hj | hj | hj
  · cases hb : t.loopBounds? i with
    | none => simp [hb] at hj
    | some b =>
      rw [hb] at hj
      exact h.of_loopBounds? hb hj
  · exact (h.of_collectFirst? hj).2
  · cases hbody : t.collectFirst? i .compoundStmt with
    | none => simp [loopView_of_no_body hbody] at hj
    | some b =>
      rw [loopView_of_body hbody] at hj
      rcases hj with hj | hj | hj
      all_goals exact (h.of_mem_body hbody hj).2.2

/-- **A view holds ids of nodes below its own node.** -/
theorem ids_buildView (h : t.Shows p d i s) (hj : j ∈ (t.buildView i).ids) :
    i < j ∧ j < i + s.size := by
  cases hkind : t.kind? i with
  | none => simp [buildView, hkind, View.ids] at hj
  | some kind =>
    rcases buildView_cases hkind with
      ⟨-, hview⟩ | ⟨-, hview⟩ | ⟨-, hview⟩ | ⟨-, -, -, hview⟩
    all_goals rw [hview] at hj
    · rcases List.mem_append.mp hj with hj | hj
      · exact (h.of_mem_collect (Array.mem_toList_iff.mp hj)).2
      · exact (h.of_collectFirst? (Option.mem_toList.mp hj)).2
    · simp only [View.ids, compoundView, List.mem_append, or_assoc, Array.mem_toList_iff] at hj
      rcases hj with hj | hj | hj | hj | hj
      · exact (h.of_mem_singleVarDecls hj).2
      all_goals exact (h.of_mem_collect hj).2
    · exact h.ids_loopView hj
    · cases hj

end Shows

end Tree

end AstDump
