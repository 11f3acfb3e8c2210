import AstDump.Proofs.Declarations
import AstDump.Summary.OfUnit

/-!
# The function that is meant

Other tools work on one function of a unit. Without a name it is the only one that has a body; by a
name it is the first that has the name and a body, and among mere declarations of the name the first
one. Either way the functions are gone through in the order of the registry, which is that of the
document, so what is chosen can be said of positions alone.

* `Tree.HasBody`                       : a node has a compound statement for a child;
* `Tree.IsMeantBy`                     : the function that a name means;
* `TranslationUnit.ListsFunctions`     : the functions of a unit are those that its registry lists;
* `TranslationUnit.ListsFunctions.chooseFunction_none_cases`  : the choice without a name;
* `TranslationUnit.ListsFunctions.functionNamed?_eq_some_iff` : the choice by a name;
* `decode_extraction`                  : extraction from a decoded unit.
-/

namespace AstDump

/-! ## Statements -/

namespace Tree

/-- A compound statement stands among the children of the node. -/
def HasBody (t : Tree) (i : Nat) : Prop := ∃ c ∈ t.childIds i, t.kind? c = some .compoundStmt

/-- The node is a function declaration with the name. -/
structure IsFunctionNamed (t : Tree) (name : String) (i : Nat) : Prop where
  kind : t.kind? i = some .functionDecl
  name : (t.node? i).bind Node.name? = some name

/-- **The function that a name means**: the first in document order that has the name and a body or,
if none of that name has a body, the first that has the name. -/
structure IsMeantBy (t : Tree) (name : String) (i : Nat) : Prop where
  named : t.IsFunctionNamed name i
  first : (t.HasBody i ∧ ∀ j < i, t.IsFunctionNamed name j → ¬ t.HasBody j) ∨
    (∀ j, t.IsFunctionNamed name j → ¬ t.HasBody j) ∧ ∀ j < i, ¬ t.IsFunctionNamed name j

end Tree

namespace TranslationUnit

/-- The function is the only one in the registry that has a body. -/
structure IsOnlyDefinition (u : TranslationUnit) (i : Nat) : Prop where
  listed : i ∈ u.registry.functions
  body : u.tree.HasBody i
  only : ∀ j ∈ u.registry.functions, u.tree.HasBody j → j = i

/-- Extraction fails with the message. -/
def FailsWith (u : TranslationUnit) (target : Option String) (message : String) : Prop :=
  ∃ e, u.extractArguments target = .error e ∧ e.message = message

/-- Extraction without a name summarises the only function that has a body. It fails in two ways:
when there is no such function, and when there are several. -/
structure ExtractsOnly (u : TranslationUnit) : Prop where
  succeeds_iff : (∃ s, u.extractArguments none = .ok s) ↔ ∃ i, u.IsOnlyDefinition i
  ok_iff : ∀ s, u.extractArguments none = .ok s ↔
    ∃ i f, u.IsOnlyDefinition i ∧ u.tree.function? i = some f ∧ s = f.summary u.tree
  none_iff : u.FailsWith none "No function definitions found" ↔
    ∀ i ∈ u.registry.functions, ¬ u.tree.HasBody i
  several_iff : u.FailsWith none
      "Multiple symbols found, cannot choose the target without a name" ↔
    ∃ i j : Nat, i < j ∧ i ∈ u.registry.functions ∧ j ∈ u.registry.functions ∧
      u.tree.HasBody i ∧ u.tree.HasBody j

/-- Extraction by a name summarises the function that the name means, and fails only if no function
has the name. -/
structure ExtractsNamed (u : TranslationUnit) (name : String) : Prop where
  fails_iff : (∃ e, u.extractArguments (some name) = .error e) ↔
    ∀ i, ¬ u.tree.IsFunctionNamed name i
  ok_iff : ∀ s, u.extractArguments (some name) = .ok s ↔
    ∃ i f, u.tree.IsMeantBy name i ∧ u.tree.function? i = some f ∧ s = f.summary u.tree

end TranslationUnit

/-! ## Increasing lists -/

/-- In an increasing list, what is found is the least of those that are looked for. -/
theorem find?_eq_some_iff_of_increasing {l : List Nat} (h : l.Pairwise (· < ·)) {p : Nat → Bool}
    {i : Nat} :
    l.find? p = some i ↔ (i ∈ l ∧ p i = true) ∧ ∀ j < i, j ∈ l → p j = false := by
  induction l with
  | nil => simp
  | cons a l ih =>
    obtain ⟨hless, hrest⟩ := List.pairwise_cons.mp h
    cases ha : p a with
    | true =>
      rw [List.find?_cons_of_pos ha, Option.some.injEq]
      constructor
      · rintro rfl
        refine ⟨⟨List.mem_cons_self, ha⟩, fun j hj hmem => ?_⟩
        rcases List.mem_cons.mp hmem with rfl | hmem
        · omega
        · have hlt := hless j hmem
          omega
      · rintro ⟨⟨hmem, -⟩, hfirst⟩
        rcases List.mem_cons.mp hmem with rfl | hmem
        · rfl
        · -- the head would come before it
          have hearlier := hfirst a (hless i hmem) List.mem_cons_self
          rw [ha] at hearlier
          cases hearlier
    | false =>
      have hne : ∀ j, p j = true → j ≠ a := by
        rintro j hj rfl
        rw [ha] at hj
        cases hj
      rw [List.find?_cons_of_neg (by simp [ha]), ih hrest]
      constructor
      · rintro ⟨⟨hmem, hi⟩, hfirst⟩
        refine ⟨⟨List.mem_cons_of_mem a hmem, hi⟩, fun j hj hmem => ?_⟩
        rcases List.mem_cons.mp hmem with rfl | hmem
        · exact ha
        · exact hfirst j hj hmem
      · rintro ⟨⟨hmem, hi⟩, hfirst⟩
        exact ⟨⟨(List.mem_cons.mp hmem).resolve_left (hne i hi), hi⟩,
          fun j hj hmem => hfirst j hj (List.mem_cons_of_mem a hmem)⟩

theorem head?_eq_some_iff_of_increasing {l : List Nat} (h : l.Pairwise (· < ·)) {i : Nat} :
    l.head? = some i ↔ i ∈ l ∧ ∀ j < i, j ∉ l := by
  have hfind : l.head? = l.find? fun _ => true := by cases l <;> rfl
  rw [hfind, find?_eq_some_iff_of_increasing h]
  simp

theorem two_le_length_iff_of_increasing {l : List Nat} (h : l.Pairwise (· < ·)) :
    2 ≤ l.length ↔ ∃ i j, i < j ∧ i ∈ l ∧ j ∈ l := by
  rcases l with _ | ⟨a, _ | ⟨b, l⟩⟩
  · simp
  · simp only [List.length_singleton, List.mem_singleton]
    constructor
    · omega
    · rintro ⟨i, j, hlt, rfl, rfl⟩
      omega
  · have hlt := (List.pairwise_cons.mp h).1 b List.mem_cons_self
    simp only [List.length_cons, Nat.le_add_left, true_iff]
    exact ⟨a, b, hlt, List.mem_cons_self, List.mem_cons_of_mem a List.mem_cons_self⟩

/-! ## Functions by position -/

namespace Tree

/-- The node with the view of a function. -/
def functionAt (t : Tree) (i : Nat) : FunctionDecl := ⟨i, t.functionView i⟩

/-- The functions with a body, in document order. -/
def definitions (t : Tree) : List Nat :=
  (t.positions .functionDecl).filter fun i => (t.functionAt i).isDefinition

/-- The functions with a name, in document order. -/
def functionsNamed (t : Tree) (name : String) : List Nat :=
  (t.positions .functionDecl).filter fun i => (t.functionAt i).name? t = some name

variable {t : Tree} {i : Nat} {name : String}

theorem isDefinition_functionAt : (t.functionAt i).isDefinition = true ↔ t.HasBody i :=
  isSome_collectFirst?_iff

theorem mem_definitions :
    i ∈ t.definitions ↔ t.kind? i = some .functionDecl ∧ t.HasBody i := by
  rw [definitions, List.mem_filter, mem_positions_iff, isDefinition_functionAt]

theorem mem_functionsNamed : i ∈ t.functionsNamed name ↔ t.IsFunctionNamed name i := by
  rw [functionsNamed, List.mem_filter, mem_positions_iff, decide_eq_true_eq]
  exact ⟨fun h => ⟨h.1, h.2⟩, fun h => ⟨h.kind, h.name⟩⟩

theorem definitions_increasing (t : Tree) : t.definitions.Pairwise (· < ·) :=
  (t.positions_increasing .functionDecl).filter _

theorem functionsNamed_increasing (t : Tree) (name : String) :
    (t.functionsNamed name).Pairwise (· < ·) :=
  (t.positions_increasing .functionDecl).filter _

theorem HasViews.function?_functionAt (h : t.HasViews) (hkind : t.kind? i = some .functionDecl) :
    t.function? i = some (t.functionAt i) :=
  h.function?_eq_some_iff.mpr ⟨hkind, rfl⟩

end Tree

/-! ## The choice -/

namespace TranslationUnit

/-- The registry lists the functions of the unit, and every node has its view. -/
structure ListsFunctions (u : TranslationUnit) : Prop where
  views : u.tree.HasViews
  registry : u.registry.functions = (u.tree.positions .functionDecl).toArray

namespace ListsFunctions

variable {u : TranslationUnit} {i : Nat} {name : String} {f : FunctionDecl}

theorem mem_functions_iff (h : u.ListsFunctions) :
    i ∈ u.registry.functions ↔ u.tree.kind? i = some .functionDecl := by
  rw [h.registry, List.mem_toArray, Tree.mem_positions_iff]

theorem mem_definitions_iff (h : u.ListsFunctions) :
    i ∈ u.tree.definitions ↔ i ∈ u.registry.functions ∧ u.tree.HasBody i := by
  rw [Tree.mem_definitions, h.mem_functions_iff]

theorem functions_eq (h : u.ListsFunctions) :
    u.functions = (u.tree.positions .functionDecl).map u.tree.functionAt := by
  rw [functions, h.registry, ← List.filterMap_eq_map]
  refine List.filterMap_congr fun i hi => ?_
  exact h.views.function?_functionAt (Tree.mem_positions_iff.mp hi)

/-- **The choice without a name**, by the functions that have a body. -/
theorem chooseFunction_none_cases (h : u.ListsFunctions) :
    (u.tree.definitions = [] ∧ u.chooseFunction none = .error .noDefinition) ∨
    (∃ i, u.tree.definitions = [i] ∧ u.chooseFunction none = .ok (u.tree.functionAt i)) ∨
    ∃ i j rest, u.tree.definitions = i :: j :: rest ∧
      u.chooseFunction none = .error .ambiguous := by
  have hdefinitions : u.functions.filter FunctionDecl.isDefinition =
      u.tree.definitions.map u.tree.functionAt := by
    rw [h.functions_eq, List.filter_map]
    rfl
  unfold chooseFunction
  dsimp only
  rw [hdefinitions]
  rcases u.tree.definitions with _ | ⟨i, _ | ⟨j, rest⟩⟩
  · exact .inl ⟨rfl, rfl⟩
  · exact .inr (.inl ⟨i, rfl, rfl⟩)
  · exact .inr (.inr ⟨i, j, rest, rfl, rfl⟩)

theorem functionNamed?_eq (h : u.ListsFunctions) (name : String) :
    u.functionNamed? name =
      (((u.tree.functionsNamed name).find? fun i => (u.tree.functionAt i).isDefinition).or
        (u.tree.functionsNamed name).head?).map u.tree.functionAt := by
  have hcandidates : (u.functions.filter fun f => f.name? u.tree = some name) =
      (u.tree.functionsNamed name).map u.tree.functionAt := by
    rw [h.functions_eq, List.filter_map]
    rfl
  unfold functionNamed?
  dsimp only
  rw [hcandidates, List.find?_map, List.head?_map, Option.map_or]
  rfl

/-- **The choice by a name** is the function that the name means. -/
theorem functionNamed?_eq_some_iff (h : u.ListsFunctions) :
    u.functionNamed? name = some f ↔
      ∃ i, u.tree.IsMeantBy name i ∧ f = u.tree.functionAt i := by
  have hincreasing := u.tree.functionsNamed_increasing name
  have hbody : ∀ j, (u.tree.functionAt j).isDefinition = false ↔ ¬ u.tree.HasBody j := by
    intro j
    rw [← Tree.isDefinition_functionAt, Bool.not_eq_true]
  rw [h.functionNamed?_eq, Option.map_eq_some_iff]
  refine exists_congr fun i => and_congr ?_ eq_comm
  simp only [Option.or_eq_some_iff, find?_eq_some_iff_of_increasing hincreasing,
    head?_eq_some_iff_of_increasing hincreasing, List.find?_eq_none, Tree.mem_functionsNamed,
    Tree.isDefinition_functionAt, hbody]
  constructor
  · rintro (⟨⟨hnamed, hhas⟩, hfirst⟩ | ⟨hnone, hnamed, hfirst⟩)
    · exact ⟨hnamed, .inl ⟨hhas, hfirst⟩⟩
    · exact ⟨hnamed, .inr ⟨hnone, hfirst⟩⟩
  · rintro ⟨hnamed, ⟨hhas, hfirst⟩ | ⟨hnone, hfirst⟩⟩
    · exact .inl ⟨⟨hnamed, hhas⟩, hfirst⟩
    · exact .inr ⟨hnone, hnamed, hfirst⟩

theorem functionNamed?_eq_none_iff (h : u.ListsFunctions) :
    u.functionNamed? name = none ↔ ∀ i, ¬ u.tree.IsFunctionNamed name i := by
  rw [h.functionNamed?_eq, Option.map_eq_none_iff, Option.or_eq_none_iff, List.head?_eq_none_iff]
  constructor
  · rintro ⟨-, hempty⟩ i hi
    rw [← Tree.mem_functionsNamed, hempty] at hi
    cases hi
  · intro hnone
    have hempty : u.tree.functionsNamed name = [] := by
      refine List.eq_nil_iff_forall_not_mem.mpr fun i hi => ?_
      exact hnone i (Tree.mem_functionsNamed.mp hi)
    exact ⟨by rw [hempty]; rfl, hempty⟩

theorem chooseFunction_none_eq_ok_iff (h : u.ListsFunctions) :
    u.chooseFunction none = .ok f ↔ ∃ i, u.tree.definitions = [i] ∧ f = u.tree.functionAt i := by
  rcases h.chooseFunction_none_cases with
    ⟨hnone, hchoice⟩ | ⟨k, hsingle, hchoice⟩ | ⟨k, l, rest, hseveral, hchoice⟩
  · simp [hnone, hchoice]
  · simp [hsingle, hchoice, eq_comm]
  · simp [hseveral, hchoice]

theorem chooseFunction_none_eq_error_iff (h : u.ListsFunctions) {e : ExtractionError} :
    u.chooseFunction none = .error e ↔
      (e = .noDefinition ∧ u.tree.definitions = []) ∨
      (e = .ambiguous ∧ 2 ≤ u.tree.definitions.length) := by
  rcases h.chooseFunction_none_cases with
    ⟨hnone, hchoice⟩ | ⟨k, hsingle, hchoice⟩ | ⟨k, l, rest, hseveral, hchoice⟩
  · simp [hnone, hchoice, eq_comm]
  · simp [hsingle, hchoice]
  · simp [hseveral, hchoice, eq_comm]

end ListsFunctions

/-! ## Extraction -/

section Extraction

variable {u : TranslationUnit} {i : Nat} {name : String} {target : Option String}

theorem extractArguments_eq_ok_iff {s : FunctionSummary} :
    u.extractArguments target = .ok s ↔
      ∃ f, u.chooseFunction target = .ok f ∧ s = f.summary u.tree := by
  unfold extractArguments
  cases u.chooseFunction target with
  | error e => simp [Except.map]
  | ok f => simp [Except.map, eq_comm]

theorem extractArguments_eq_error_iff {e : ExtractionError} :
    u.extractArguments target = .error e ↔ u.chooseFunction target = .error e := by
  unfold extractArguments
  cases u.chooseFunction target with
  | error e' => simp [Except.map]
  | ok f => simp [Except.map]

/-- A function has a body and no other has one if the functions with a body are this one alone. -/
theorem ListsFunctions.isOnlyDefinition_iff (h : u.ListsFunctions) :
    u.IsOnlyDefinition i ↔ u.tree.definitions = [i] := by
  rw [Tree.eq_singleton_iff_of_increasing u.tree.definitions_increasing]
  simp only [h.mem_definitions_iff]
  constructor
  · rintro ⟨hlisted, hbody, honly⟩
    exact ⟨⟨hlisted, hbody⟩, fun j hj => honly j hj.1 hj.2⟩
  · rintro ⟨⟨hlisted, hbody⟩, honly⟩
    exact ⟨hlisted, hbody, fun j hj hhas => honly j ⟨hj, hhas⟩⟩

theorem ListsFunctions.failsWith_none_iff (h : u.ListsFunctions) {message : String} :
    u.FailsWith none message ↔
      (message = ExtractionError.noDefinition.message ∧ u.tree.definitions = []) ∨
      (message = ExtractionError.ambiguous.message ∧ 2 ≤ u.tree.definitions.length) := by
  simp only [FailsWith, extractArguments_eq_error_iff, h.chooseFunction_none_eq_error_iff]
  constructor
  · rintro ⟨e, ⟨rfl, hnone⟩ | ⟨rfl, hseveral⟩, rfl⟩
    · exact .inl ⟨rfl, hnone⟩
    · exact .inr ⟨rfl, hseveral⟩
  · rintro (⟨rfl, hnone⟩ | ⟨rfl, hseveral⟩)
    · exact ⟨_, .inl ⟨rfl, hnone⟩, rfl⟩
    · exact ⟨_, .inr ⟨rfl, hseveral⟩, rfl⟩

theorem ListsFunctions.extractsOnly (h : u.ListsFunctions) : u.ExtractsOnly := by
  have htexts : ExtractionError.noDefinition.message ≠ ExtractionError.ambiguous.message := by
    decide +kernel
  have hok : ∀ s, u.extractArguments none = .ok s ↔
      ∃ i f, u.IsOnlyDefinition i ∧ u.tree.function? i = some f ∧ s = f.summary u.tree := by
    intro s
    simp only [extractArguments_eq_ok_iff, h.chooseFunction_none_eq_ok_iff,
      ← h.isOnlyDefinition_iff]
    constructor
    · rintro ⟨_, ⟨i, honly, rfl⟩, hs⟩
      have hkind := h.mem_functions_iff.mp honly.listed
      exact ⟨i, _, honly, h.views.function?_functionAt hkind, hs⟩
    · rintro ⟨i, f, honly, hf, hs⟩
      exact ⟨f, ⟨i, honly, (h.views.function?_eq_some_iff.mp hf).2⟩, hs⟩
  constructor
  · constructor
    · rintro ⟨s, hs⟩
      obtain ⟨i, -, honly, -⟩ := (hok s).mp hs
      exact ⟨i, honly⟩
    · rintro ⟨i, honly⟩
      have hkind := h.mem_functions_iff.mp honly.listed
      exact ⟨_, (hok _).mpr ⟨i, _, honly, h.views.function?_functionAt hkind, rfl⟩⟩
  · exact hok
  · have hmessage : u.FailsWith none "No function definitions found" ↔ u.tree.definitions = [] := by
      rw [h.failsWith_none_iff]
      exact ⟨fun hfails => hfails.elim And.right fun hother => absurd hother.1 htexts,
        fun hnone => .inl ⟨rfl, hnone⟩⟩
    rw [hmessage, List.eq_nil_iff_forall_not_mem]
    simp only [h.mem_definitions_iff, not_and]
  · have hmessage : u.FailsWith none
        "Multiple symbols found, cannot choose the target without a name" ↔
          2 ≤ u.tree.definitions.length := by
      rw [h.failsWith_none_iff]
      exact ⟨fun hfails => hfails.elim (fun hother => absurd hother.1.symm htexts) And.right,
        fun hseveral => .inr ⟨rfl, hseveral⟩⟩
    rw [hmessage, two_le_length_iff_of_increasing u.tree.definitions_increasing]
    simp only [h.mem_definitions_iff]
    refine exists_congr fun i => exists_congr fun j => and_congr_right fun _ => ?_
    exact ⟨fun h => ⟨h.1.1, h.2.1, h.1.2, h.2.2⟩, fun h => ⟨⟨h.1, h.2.2.1⟩, h.2.1, h.2.2.2⟩⟩

theorem chooseFunction_some_eq_ok_iff {f : FunctionDecl} :
    u.chooseFunction (some name) = .ok f ↔ u.functionNamed? name = some f := by
  unfold chooseFunction
  dsimp only
  cases u.functionNamed? name <;> simp

theorem chooseFunction_some_eq_error_iff :
    (∃ e, u.chooseFunction (some name) = .error e) ↔ u.functionNamed? name = none := by
  unfold chooseFunction
  dsimp only
  cases u.functionNamed? name <;> simp

theorem ListsFunctions.extractsNamed (h : u.ListsFunctions) (name : String) :
    u.ExtractsNamed name := by
  constructor
  · simp only [extractArguments_eq_error_iff]
    rw [chooseFunction_some_eq_error_iff, h.functionNamed?_eq_none_iff]
  · intro s
    simp only [extractArguments_eq_ok_iff, chooseFunction_some_eq_ok_iff,
      h.functionNamed?_eq_some_iff]
    constructor
    · rintro ⟨_, ⟨i, hmeant, rfl⟩, hs⟩
      exact ⟨i, _, hmeant, h.views.function?_functionAt hmeant.named.kind, hs⟩
    · rintro ⟨i, f, hmeant, hf, hs⟩
      exact ⟨f, ⟨i, hmeant, (h.views.function?_eq_some_iff.mp hf).2⟩, hs⟩

/-- The only definition is what its name means, whatever else has the name. -/
theorem ListsFunctions.isMeantBy_of_isOnlyDefinition (h : u.ListsFunctions)
    (honly : u.IsOnlyDefinition i) (hnamed : u.tree.IsFunctionNamed name i) :
    u.tree.IsMeantBy name i := by
  refine ⟨hnamed, .inl ⟨honly.body, fun j hj hother hbody => ?_⟩⟩
  exact Nat.ne_of_lt hj (honly.only j (h.mem_functions_iff.mpr hother.kind) hbody)

end Extraction

end TranslationUnit

theorem TranslationUnit.ListsFunctions.of_decode {options : Options} {raw : Json}
    {u : TranslationUnit} (h : decode options raw = .ok u) : u.ListsFunctions := by
  obtain ⟨tree, errors, -, rfl⟩ := decode_eq_ok_iff.mp h
  exact ⟨tree.hasViews_unit options.target errors,
    @RecordTree.entries_unit options.target tree errors .functionDecl rfl⟩

/-- **Extraction from a decoded unit**, whatever the dump and the options: without a name it takes
the only function that has a body, by a name the function that the name means; and where the only
one with a body has a name, that name leads to the same summary. -/
theorem decode_extraction {options : Options} {raw : Json} {u : TranslationUnit}
    (h : decode options raw = .ok u) :
    u.ExtractsOnly ∧ (∀ name, u.ExtractsNamed name) ∧
    ∀ s i name, u.extractArguments none = .ok s → u.IsOnlyDefinition i →
      u.tree.IsFunctionNamed name i → u.extractArguments (some name) = .ok s := by
  have hlists := TranslationUnit.ListsFunctions.of_decode h
  refine ⟨hlists.extractsOnly, hlists.extractsNamed, fun s i name hs honly hnamed => ?_⟩
  obtain ⟨j, f, hother, hf, hsummary⟩ := (hlists.extractsOnly.ok_iff s).mp hs
  obtain rfl : j = i := honly.only j hother.listed hother.body
  exact ((hlists.extractsNamed name).ok_iff s).mpr
    ⟨j, f, hlists.isMeantBy_of_isOnlyDefinition honly hnamed, hf, hsummary⟩

/-- A function is declared before and after its definition, and the definition has a declaration of
another function in its body; one more function has no name. -/
theorem decode_extraction_declared_twice :
    let function (rawId name : String) (inner : List Json) : Json :=
      .obj [("id", .str rawId), ("inner", .arr inner), ("kind", .str "FunctionDecl"),
        ("name", .str name)]
    let raw : Json := .branch "0" "TranslationUnitDecl" [
      function "1" "work" [.leaf "2" "ParmVarDecl"], .leaf "3" "FunctionDecl",
      function "4" "work" [.branch "5" "CompoundStmt" [function "6" "other" []]],
      function "7" "work" []]
    ∃ u s, decode Options.default raw = .ok u ∧ u.IsOnlyDefinition 4 ∧
      u.tree.IsMeantBy "work" 4 ∧ s.id = "4" ∧ u.extractArguments none = .ok s ∧
      u.extractArguments (some "work") = .ok s ∧
      ¬ u.FailsWith none "No function definitions found" := by
  intro function raw
  have hvalues : (decode Options.default raw).toOption.map (fun u =>
      (u.tree.definitions, u.tree.kind? 4, (u.tree.node? 4).bind Node.name?,
        (u.extractArguments none).toOption.map FunctionSummary.id)) =
      some ([4], some .functionDecl, some "work", some "4") := by decide +kernel
  obtain ⟨u, hu, hvalues⟩ := exists_decode_of_map hvalues
  simp only [Prod.mk.injEq] at hvalues
  obtain ⟨hsingle, hkind, hname, hid⟩ := hvalues
  have hlists := TranslationUnit.ListsFunctions.of_decode hu
  have honly : u.IsOnlyDefinition 4 := hlists.isOnlyDefinition_iff.mpr hsingle
  have hnamed : u.tree.IsFunctionNamed "work" 4 := ⟨hkind, hname⟩
  obtain ⟨hextracts, -, hsame⟩ := decode_extraction hu
  obtain ⟨s, hs⟩ := hextracts.succeeds_iff.mpr ⟨4, honly⟩
  rw [hs] at hid
  refine ⟨u, s, hu, honly, hlists.isMeantBy_of_isOnlyDefinition honly hnamed,
    Option.some.inj hid, hs, hsame s 4 "work" hs honly hnamed, fun hnone => ?_⟩
  exact hextracts.none_iff.mp hnone 4 honly.listed honly.body

end AstDump
