import AstDump.Proofs.Ancestors
import AstDump.Proofs.IdIndex
import AstDump.Proofs.ViewContents

/-!
# Looking up by position

An element is asked for by its position in a list of ids, while the whole list is read off the ids
by passing over those whose nodes are something else. Both agree because no id is passed over: each
list holds nodes of one kind, and every node has the view of its kind.

* `AnswersAs`, `AnswersWith`          : how a list answers at every position;
* `pick_answersAs`, `answersWith`     : a list of nodes, and of what nodes are;
* `TranslationUnit.IdsInRange`        : every id is that of a node;
* `decode_lookup`                     : the lists of a decoded unit.
-/

namespace AstDump

/-! ## Statements -/

/-- A list with these elements is asked for the element at a position. An empty list says that it is
empty; any other gives the elements that it has and refuses all other positions. -/
structure AnswersAs {α : Type} (list : ListName) (get : Nat → Except LookupError α)
    (all : List α) : Prop where
  empty_iff : ∀ i, get i = .error (.empty list) ↔ all = []
  ok_iff : ∀ i a, get i = .ok a ↔ all[i]? = some a
  outOfRange_iff : ∀ i, get i = .error (.outOfRange list i all.length) ↔
    all ≠ [] ∧ all.length ≤ i

/-- A list of ids is asked for what its nodes are: no id is passed over, and none that is picked
turns out to be something else. -/
structure AnswersWith {α : Type} (list : ListName) (ids : Array NodeId)
    (as? : NodeId → Option α) (node : α → NodeId) (get : Nat → Except LookupError α)
    (all : List α) : Prop where
  answers : AnswersAs list get all
  whole : all.map node = ids.toList
  picked : ∀ i id, pick list ids i = .ok id → ∃ a, as? id = some a ∧ get i = .ok a

/-- The list of a function, and what makes it a definition. -/
structure FunctionDecl.Answers (t : Tree) (f : FunctionDecl) : Prop where
  params : AnswersAs .parameters f.param f.view.params.toList
  definition : f.isDefinition = true ↔ ∃ body, f.body? t = some body

/-- The lists of a compound statement. -/
structure CompoundStmt.Answers (t : Tree) (c : CompoundStmt) : Prop where
  varDecls : AnswersWith .variableDeclarations c.view.varDecls t.varDecl? id (c.varDecl t)
    (c.varDecls t)
  forLoops : AnswersWith .forLoops c.view.forLoops t.loop? LoopStmt.node (c.forLoop t)
    (c.forLoops t)
  whileLoops : AnswersWith .whileLoops c.view.whileLoops t.loop? LoopStmt.node (c.whileLoop t)
    (c.whileLoops t)
  doLoops : AnswersWith .doLoops c.view.doLoops t.loop? LoopStmt.node (c.doLoop t) (c.doLoops t)
  calls : AnswersAs .calls c.call c.view.calls.toList

/-- The lists of a loop, and when it has a body. -/
structure LoopStmt.Answers (t : Tree) (l : LoopStmt) : Prop where
  varDecls : AnswersAs .variableDeclarations l.varDecl l.view.varDecls.toList
  calls : AnswersAs .calls l.call l.view.calls.toList
  breaks : AnswersAs .breakStatements l.breakPoint l.view.breaks.toList
  body : (∃ body, l.body? t = some body) ↔
    ∃ b ∈ t.childIds l.node, t.kind? b = some .compoundStmt

/-- The lists of a unit. -/
structure TranslationUnit.Answers (u : TranslationUnit) : Prop where
  functions : AnswersWith .functions u.registry.functions u.tree.function? FunctionDecl.node
    u.function u.functions
  compounds : AnswersWith .compoundStatements u.registry.compounds u.tree.compound?
    CompoundStmt.node u.compound u.compounds
  forLoops : AnswersWith .forLoops u.registry.forLoops u.tree.loop? LoopStmt.node u.forLoop
    u.forLoops
  whileLoops : AnswersWith .whileLoops u.registry.whileLoops u.tree.loop? LoopStmt.node
    u.whileLoop u.whileLoops
  doLoops : AnswersWith .doLoops u.registry.doLoops u.tree.loop? LoopStmt.node u.doLoop u.doLoops

/-- Every id that is held anywhere in a unit is that of a node. -/
structure TranslationUnit.IdsInRange (u : TranslationUnit) : Prop where
  registry : u.registry.Below u.tree.size
  parents : ∀ i p, u.tree.parent? i = some p → p < u.tree.size
  children : ∀ i, ∀ c ∈ u.tree.childIds i, c < u.tree.size
  views : ∀ i v, u.tree.view? i = some v → ∀ j ∈ v.ids, j < u.tree.size
  index : ∀ rawId i, u.find? rawId = some i → i < u.tree.size

/-! ## Lists -/

/-- The answer of a list at a position. -/
def answerAt {α : Type} (list : ListName) (all : List α) (i : Nat) : Except LookupError α :=
  match all[i]? with
  | some a => .ok a
  | none => if all.isEmpty then .error (.empty list) else .error (.outOfRange list i all.length)

theorem answerAt_answersAs {α : Type} (list : ListName) (all : List α) :
    AnswersAs list (answerAt list all) all := by
  constructor
  · intro i
    cases hi : all[i]? with
    | some a =>
      have hne : all ≠ [] := by
        rintro rfl
        cases hi
      simp [answerAt, hi, hne]
    | none => cases all <;> simp [answerAt, hi]
  · intro i a
    cases hi : all[i]? with
    | some b => simp [answerAt, hi]
    | none => cases all <;> simp [answerAt, hi]
  · intro i
    cases hi : all[i]? with
    | some a =>
      have hlt := (List.getElem?_eq_some_iff.mp hi).1
      simp [answerAt, hlt]
    | none =>
      have hle := List.getElem?_eq_none_iff.mp hi
      cases all <;> simp_all [answerAt]

theorem pick_eq_answerAt (list : ListName) (ids : Array NodeId) :
    pick list ids = answerAt list ids.toList := by
  funext i
  unfold pick answerAt
  rw [Array.getElem?_toList, Array.isEmpty_toList, Array.length_toList]
  by_cases hempty : ids = #[]
  · subst hempty
    rfl
  · cases ids[i]? <;> simp [hempty]

theorem pick_answersAs (list : ListName) (ids : Array NodeId) :
    AnswersAs list (pick list ids) ids.toList := by
  rw [pick_eq_answerAt]
  exact answerAt_answersAs list ids.toList

section Typed

variable {α : Type} {ids : Array NodeId} {as? : NodeId → Option α} {node : α → NodeId}

/-- A list from which nothing is dropped, element by element. -/
theorem getElem?_filterMap_of_forall {l : List NodeId} (h : ∀ i ∈ l, ∃ a, as? i = some a) :
    ∀ k : Nat, (l.filterMap as?)[k]? = l[k]?.bind as? := by
  induction l with
  | nil => intro k; simp
  | cons i l ih =>
    intro k
    obtain ⟨a, ha⟩ := h i List.mem_cons_self
    rw [List.filterMap_cons, ha]
    cases k with
    | zero => simp [ha]
    | succ k => simpa using ih (fun j hj => h j (List.mem_cons_of_mem i hj)) k

theorem map_filterMap_eq_self {l : List NodeId}
    (h : ∀ i ∈ l, ∃ a, as? i = some a ∧ node a = i) : (l.filterMap as?).map node = l := by
  induction l with
  | nil => rfl
  | cons i l ih =>
    obtain ⟨a, ha, hnode⟩ := h i List.mem_cons_self
    rw [List.filterMap_cons, ha, List.map_cons, hnode,
      ih fun j hj => h j (List.mem_cons_of_mem i hj)]

/-- **A list of what nodes are answers as the list of the nodes does**, if every node of it is what
it is asked for. -/
theorem answersWith (list : ListName) (h : ∀ i ∈ ids, ∃ a, as? i = some a ∧ node a = i) :
    AnswersWith list ids as? node (pickAs list ids as?) (ids.toList.filterMap as?) := by
  have hsome : ∀ i ∈ ids.toList, ∃ a, as? i = some a := by
    intro i hi
    obtain ⟨a, ha, -⟩ := h i (Array.mem_toList_iff.mp hi)
    exact ⟨a, ha⟩
  have hwhole : (ids.toList.filterMap as?).map node = ids.toList :=
    map_filterMap_eq_self fun i hi => h i (Array.mem_toList_iff.mp hi)
  have hlength : (ids.toList.filterMap as?).length = ids.toList.length := by
    rw [← List.length_map node, hwhole]
  have hempty : (ids.toList.filterMap as?).isEmpty = ids.toList.isEmpty := by
    rw [← List.isEmpty_map, hwhole]
  have hpicked : ∀ k id, ids.toList[k]? = some id →
      ∃ a, as? id = some a ∧ pickAs list ids as? k = .ok a := by
    intro k id hid
    obtain ⟨a, ha⟩ := hsome id (List.mem_of_getElem? hid)
    refine ⟨a, ha, ?_⟩
    simp [pickAs, pick_eq_answerAt, answerAt, hid, ha, bind, Except.bind, pure, Except.pure]
  have hget : pickAs list ids as? = answerAt list (ids.toList.filterMap as?) := by
    funext k
    cases hid : ids.toList[k]? with
    | some id =>
      obtain ⟨a, ha, has⟩ := hpicked k id hid
      rw [has, answerAt, getElem?_filterMap_of_forall hsome, hid, Option.bind_some, ha]
    | none =>
      -- the refusal names the length of the ids, which is that of what they are
      rw [answerAt, getElem?_filterMap_of_forall hsome, hid, Option.bind_none, hempty, hlength,
        pickAs, pick_eq_answerAt, answerAt, hid]
      cases ids.toList.isEmpty <;> rfl
  refine ⟨?_, hwhole, fun k id hid => ?_⟩
  · rw [hget]
    exact answerAt_answersAs list _
  · exact hpicked k id (((pick_answersAs list ids).ok_iff k id).mp hid)

end Typed

/-! ## Functions, compound statements and loops -/

section Views

variable {t : Tree} {p : Option NodeId} {d i : Nat} {s : RecordTree}

theorem Tree.varDecl?_of_kind (h : t.kind? i = some .varDecl) : t.varDecl? i = some i := by
  obtain ⟨n, hn, hkind⟩ := Option.map_eq_some_iff.mp h
  rw [varDecl?, hn]
  simp [Node.isVariable, hkind, Kind.isVariable]

/-- Nodes that are loops by their kind are loops by their view. -/
theorem Tree.HasViews.loops (h : t.HasViews) {ids : Array NodeId} {kind : Kind}
    (hloop : kind.isLoop = true) (hids : ∀ j ∈ ids, t.kind? j = some kind) :
    ∀ j ∈ ids, ∃ l, t.loop? j = some l ∧ l.node = j := by
  intro j hj
  exact ⟨⟨j, t.loopView j⟩, h.loop?_eq_some_iff.mpr ⟨⟨kind, hids j hj, hloop⟩, rfl⟩, rfl⟩

/-- A body that a view names is a compound statement. -/
theorem Tree.HasViews.map_node_compound? (h : t.HasViews) {body : Option NodeId}
    (hbody : ∀ b, body = some b → t.kind? b = some .compoundStmt) :
    (body.bind t.compound?).map CompoundStmt.node = body := by
  cases body with
  | none => rfl
  | some b =>
    have hb := h.compound?_eq_some_iff.mpr ⟨hbody b rfl, rfl⟩
    rw [Option.bind_some, hb, Option.map_some]

theorem Tree.HasViews.exists_compound_iff (h : t.HasViews) {body : Option NodeId}
    (hbody : ∀ b, body = some b → t.kind? b = some .compoundStmt) :
    (∃ c, body.bind t.compound? = some c) ↔ body.isSome = true := by
  rw [← Option.isSome_iff_exists, ← Option.isSome_map, h.map_node_compound? hbody]

theorem FunctionDecl.answers (hviews : t.HasViews) {f : FunctionDecl}
    (hf : t.function? i = some f) : f.Answers t := by
  obtain ⟨-, rfl⟩ := hviews.function?_eq_some_iff.mp hf
  refine ⟨pick_answersAs _ _, ?_⟩
  exact (hviews.exists_compound_iff fun b hb => Tree.kind?_of_collectFirst? hb).symm

theorem CompoundStmt.answers (hviews : t.HasViews) (hs : t.Shows p d i s) {c : CompoundStmt}
    (hc : t.compound? i = some c) : c.Answers t := by
  obtain ⟨-, rfl⟩ := hviews.compound?_eq_some_iff.mp hc
  have hloops : ∀ kind : Kind, kind.isLoop = true → ∀ j ∈ t.collect i kind true,
      ∃ l, t.loop? j = some l ∧ l.node = j := by
    intro kind hloop
    exact hviews.loops hloop fun j hj => (hs.of_mem_collect hj).1
  refine ⟨answersWith _ fun j hj => ?_, answersWith _ (hloops .forStmt rfl),
    answersWith _ (hloops .whileStmt rfl), answersWith _ (hloops .doStmt rfl), pick_answersAs _ _⟩
  exact ⟨j, Tree.varDecl?_of_kind (hs.of_mem_singleVarDecls hj).1, rfl⟩

theorem LoopStmt.answers (hviews : t.HasViews) {l : LoopStmt} (hl : t.loop? i = some l) :
    l.Answers t := by
  obtain ⟨-, rfl⟩ := hviews.loop?_eq_some_iff.mp hl
  refine ⟨pick_answersAs _ _, pick_answersAs _ _, pick_answersAs _ _, ?_⟩
  have hbody := t.loopView_body i
  unfold LoopStmt.body?
  rw [hviews.exists_compound_iff fun b hb => Tree.kind?_of_collectFirst? (hbody.symm.trans hb),
    hbody, Tree.isSome_collectFirst?_iff]

end Views

/-! ## Units -/

theorem Registry.isListed_of_mem_entries {r : Registry} {kind : Kind} {i : NodeId}
    (h : i ∈ r.entries kind) : isListed kind = true := by
  unfold entries at h
  split at h
  case h_6 => simp at h
  all_goals rfl

namespace RecordTree

variable (target : Target) (tree : RecordTree) (errors : List DecodeError)

theorem hasViews_unit : (tree.unit target errors).tree.HasViews :=
  fun _ _ hn => tree.view_unit target errors hn

theorem kind?_of_mem_entries {kind : Kind} {i : Nat}
    (hi : i ∈ (tree.unit target errors).registry.entries kind) :
    (tree.unit target errors).tree.kind? i = some kind := by
  have hlisted := Registry.isListed_of_mem_entries hi
  rw [entries_unit target tree errors hlisted, List.mem_toArray] at hi
  exact Tree.mem_positions_iff.mp hi

theorem answers_unit : (tree.unit target errors).Answers := by
  have hviews := tree.hasViews_unit target errors
  have hkinds := fun kind i => @kind?_of_mem_entries target tree errors kind i
  refine ⟨answersWith _ fun i hi => ?_, answersWith _ fun i hi => ?_,
    answersWith _ (hviews.loops rfl (hkinds .forStmt)),
    answersWith _ (hviews.loops rfl (hkinds .whileStmt)),
    answersWith _ (hviews.loops rfl (hkinds .doStmt))⟩
  · have hkind := hkinds .functionDecl i hi
    exact ⟨_, hviews.function?_eq_some_iff.mpr ⟨hkind, rfl⟩, rfl⟩
  · have hkind := hkinds .compoundStmt i hi
    exact ⟨_, hviews.compound?_eq_some_iff.mpr ⟨hkind, rfl⟩, rfl⟩

theorem idsInRange_unit : (tree.unit target errors).IdsInRange := by
  have hall := tree.showsAll_unit target errors
  have hsize := tree.size_unit target errors
  have hpre := hall.isPreorder hsize
  constructor
  · intro kind i hi
    obtain ⟨n, hn, -⟩ := Option.map_eq_some_iff.mp (tree.kind?_of_mem_entries target errors hi)
    exact (Array.getElem?_eq_some_iff.mp hn).1
  · intro i p hp
    obtain ⟨n, hn, -⟩ := (hpre.parent?_eq_some_iff.mp hp).node
    exact (Array.getElem?_eq_some_iff.mp hn).1
  · intro i c hc
    have hchild : (tree.unit target errors).tree.IsChild i c := Array.mem_toList_iff.mpr hc
    obtain ⟨n, hn, hmem⟩ := hchild.node
    obtain ⟨-, m, hm, -⟩ := hpre.child i n hn c hmem
    exact (Array.getElem?_eq_some_iff.mp hm).1
  · intro i v hv j hj
    obtain ⟨n, hn, rfl⟩ := Option.map_eq_some_iff.mp hv
    obtain ⟨p, d, s, -, hs, -⟩ := hall.node hsize hn
    rw [tree.view_unit target errors hn] at hj
    exact Nat.lt_of_lt_of_le (hs.ids_buildView hj).2 hs.add_size_le
  · intro rawId i hi
    obtain ⟨⟨n, hn, -⟩, -⟩ :=
      (tree.findsFirst_unit target errors).find?_eq_some_iff.mp hi
    exact (Array.getElem?_eq_some_iff.mp hn).1

end RecordTree

/-- **Looking up by position**, whatever the dump and the options: every list of the unit, of its
functions, compound statements and loops answers as the list that can be had whole, and all ids that
are held anywhere are those of nodes. -/
theorem decode_lookup {options : Options} {raw : Json} {u : TranslationUnit}
    (h : decode options raw = .ok u) :
    u.Answers ∧ (∀ i f, u.tree.function? i = some f → f.Answers u.tree) ∧
    (∀ i c, u.tree.compound? i = some c → c.Answers u.tree) ∧
    (∀ i l, u.tree.loop? i = some l → l.Answers u.tree) ∧ u.IdsInRange := by
  obtain ⟨tree, errors, -, rfl⟩ := decode_eq_ok_iff.mp h
  have hviews := tree.hasViews_unit options.target errors
  refine ⟨tree.answers_unit options.target errors, fun i f hf => FunctionDecl.answers hviews hf,
    fun i c hc => ?_, fun i l hl => LoopStmt.answers hviews hl,
    tree.idsInRange_unit options.target errors⟩
  obtain ⟨hkind, -⟩ := hviews.compound?_eq_some_iff.mp hc
  obtain ⟨n, hn, -⟩ := Option.map_eq_some_iff.mp hkind
  obtain ⟨p, d, s, -, hs, -⟩ := (tree.showsAll_unit options.target errors).node
    (tree.size_unit options.target errors) hn
  exact CompoundStmt.answers hviews hs hc

/-- A function whose body declares a variable and then has a loop: the lists of the unit and of the
body are asked within their bounds, past their end and while they are empty. -/
theorem decode_lookup_function :
    let raw : Json := .branch "0" "FunctionDecl" [.leaf "1" "ParmVarDecl",
      .branch "2" "CompoundStmt" [.branch "3" "DeclStmt" [.leaf "4" "VarDecl"],
        .branch "5" "ForStmt" [.branch "6" "CompoundStmt" [.leaf "7" "BreakStmt"]]]]
    ∃ u c, decode Options.default raw = .ok u ∧ u.tree.compound? 2 = some c ∧ u.IdsInRange ∧
      u.whileLoop 0 = .error (.empty .whileLoops) ∧
      u.forLoop 1 = .error (.outOfRange .forLoops 1 1) ∧ c.varDecl u.tree 0 = .ok 4 := by
  intro raw
  have hvalues : (decode Options.default raw).toOption.map (fun u =>
      (u.whileLoops, u.forLoops.map LoopStmt.node,
        (u.tree.compound? 2).map fun c => c.varDecls u.tree)) = some ([], [5], some [4]) := by
    decide +kernel
  obtain ⟨u, hu, hvalues⟩ := exists_decode_of_map hvalues
  simp only [Prod.mk.injEq, Option.map_eq_some_iff] at hvalues
  obtain ⟨hwhile, hfor, c, hc, hvars⟩ := hvalues
  have hlength : u.forLoops.length = 1 := by rw [← List.length_map LoopStmt.node, hfor]; rfl
  obtain ⟨hunit, -, hcompounds, -, hrange⟩ := decode_lookup hu
  have hpast := (hunit.forLoops.answers.outOfRange_iff 1).mpr
    ⟨List.ne_nil_of_length_pos (by omega), by omega⟩
  rw [hlength] at hpast
  refine ⟨u, c, hu, hc, hrange, (hunit.whileLoops.answers.empty_iff 0).mpr hwhile, hpast, ?_⟩
  exact ((hcompounds 2 c hc).varDecls.answers.ok_iff 0 4).mpr (by rw [hvars]; rfl)

end AstDump
