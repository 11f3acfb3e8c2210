import AstDump.Proofs.Lookup
import AstDump.Proofs.Qualifiers
import AstDump.Summary.OfUnit

/-!
# The parameters in a summary

A summary names the types of the parameters of a function without their qualifiers, and says beside
each whether it was constant. The type and the mark come from two scans of the declared spelling:
the one takes `const` away where it stands as a word and at the end of a word of stars, the other
looks for the word alone. They part where `const` follows a star with no blank between.

* `Tree.paramNodes`              : the parameters of a function;
* `FunctionDecl.tellsParams`     : a summary tells of all of them, in order;
* `TypeName.LosesConst`          : a spelling loses a `const` with its qualifiers;
* `TypeName.losesConst_iff`      : how this shows in the words of the spelling;
* `decode_paramConst`            : what a summary marks as constant, and when that is what was lost;
* `decode_paramConst_after_star` : a `const` that is lost and not marked.
-/

namespace AstDump

/-! ## Losing `const` -/

namespace TypeName

/-- The spelling has `const` for a word. -/
def HasConst (s : String) : Prop := "const".toList ∈ Text.words s.toList

/-- A word of the spelling begins with a star and ends with `const`. -/
def HasConstAfterStar (s : String) : Prop :=
  ∃ w ∈ Text.words s.toList, ['*'] <+: w ∧ "const".toList <:+ w

/-- The spelling loses a `const` with its qualifiers: one of its words is `const` and is gone, or it
ends with `const` and all before that is left. -/
def LosesConst (s : String) : Prop :=
  ∃ w ∈ Text.words s.toList,
    (w = "const".toList ∧ remainder? w = none) ∨
    ∃ rest, w = rest ++ "const".toList ∧ remainder? w = some rest

theorem isConst_iff (s : String) : isConst s = true ↔ HasConst s := List.contains_iff_mem

theorem remainder?_const : remainder? "const".toList = none := by decide +kernel

/-- A `const` at the end of a word of stars is found before any other qualifier. -/
theorem remainder?_star_const {stars rest : List Char}
    (h : '*' :: stars = rest ++ "const".toList) : remainder? ('*' :: stars) = some rest := by
  have hfirst : qualifiers = "const" :: qualifiers.tail := rfl
  have hbefore : Text.before? "const".toList ('*' :: stars) = some rest :=
    Text.before?_eq_some_iff.mpr h
  rw [remainder?, isQualifier_star, if_neg Bool.false_ne_true, dropPointerQualifier, hfirst,
    List.findSome?_cons, hbefore, Option.getD_some]

/-- A word that loses some of its letters begins with a star. -/
theorem star_prefix_of_remainder? {w rest : List Char} (h : remainder? w = some rest)
    (hne : rest ≠ w) : ['*'] <+: w := by
  unfold remainder? at h
  split at h
  · cases h
  · cases h
    rcases dropPointerQualifier_cases w with hsame | ⟨q, -, rest, -, hsplit⟩
    · exact absurd hsame hne
    · exact ⟨rest ++ q.toList, hsplit.symm⟩

/-- **A spelling loses a `const`** if it has one for a word or at the end of a word of stars. -/
theorem losesConst_iff (s : String) : LosesConst s ↔ HasConst s ∨ HasConstAfterStar s := by
  constructor
  · rintro ⟨w, hw, ⟨rfl, -⟩ | ⟨rest, rfl, hrest⟩⟩
    · exact .inl hw
    · refine .inr ⟨_, hw, star_prefix_of_remainder? hrest ?_, rest, rfl⟩
      intro hsame
      have hlength := congrArg List.length hsame
      simp at hlength
  · rintro (hw | ⟨w, hw, ⟨stars, rfl⟩, rest, hrest⟩)
    · exact ⟨_, hw, .inl ⟨rfl, remainder?_const⟩⟩
    · exact ⟨_, hw, .inr ⟨rest, hrest.symm, remainder?_star_const hrest.symm⟩⟩

end TypeName

theorem Node.isConst_of_declaredType? {n : Node} {s : String} (h : n.declaredType? = some s) :
    n.isConst = TypeName.isConst s := by
  rw [Node.isConst, h, Option.map_some, Option.getD_some]

/-! ## Parameters -/

/-- The parameters of a function: the nodes of that kind among its children. -/
def Tree.paramNodes (t : Tree) (i : Nat) : List Node :=
  ((t.childIds i).toList.filterMap t.node?).filter fun n => n.kind = .parmVarDecl

/-- Asked one by one for what they are, no parameter is passed over. -/
theorem Tree.Shows.params_eq {t : Tree} {p : Option NodeId} {d i : Nat} {s : RecordTree}
    (h : t.Shows p d i s) :
    ((t.functionView i).params.toList.filterMap t.varDecl?).filterMap t.node? =
      t.paramNodes i := by
  have hparams : (t.functionView i).params.toList =
      (t.childIds i).toList.filter fun j => t.kind? j = some .parmVarDecl :=
    h.collect_direct .parmVarDecl
  rw [hparams, List.filterMap_filterMap, List.filterMap_filter, paramNodes, List.filter_filterMap]
  refine List.filterMap_congr fun j _ => ?_
  cases hn : t.node? j with
  | none => simp [kind?, hn]
  | some n =>
    by_cases hkind : n.kind = .parmVarDecl
    · simp [kind?, varDecl?, Node.isVariable, Kind.isVariable, Option.filter, hn, hkind]
    · simp [kind?, Option.filter, hn, hkind]

/-- A summary tells of the parameters of a function one by one, in order. -/
structure FunctionSummary.TellsParams (s : FunctionSummary) (params : List Node) : Prop where
  count : s.argCount = params.length
  names : s.paramNames = params.map fun n => n.name?.getD ""
  types : s.paramTypes = params.map fun n => TypeName.unqualified (n.declaredType?.getD "")
  const : s.paramConst = params.map Node.isConst

theorem FunctionDecl.tellsParams {t : Tree} {p : Option NodeId} {d i : Nat} {s : RecordTree}
    {f : FunctionDecl} (hviews : t.HasViews) (hs : t.Shows p d i s)
    (hf : t.function? i = some f) : (f.summary t).TellsParams (t.paramNodes i) := by
  obtain ⟨-, rfl⟩ := hviews.function?_eq_some_iff.mp hf
  rw [← hs.params_eq]
  exact ⟨rfl, rfl, rfl, rfl⟩

/-- **What a summary marks as constant**, for every parameter of every function, whatever the dump
and the options: those whose declared type has `const` for a word. Among what the type has lost
there is a `const` also where one ends a word of stars; so the mark tells what was lost exactly if
no such word stands without `const` as a word of its own. -/
theorem decode_paramConst {options : Options} {raw : Json} {u : TranslationUnit} {i k : Nat}
    {f : FunctionDecl} {n : Node} {s : String} (h : decode options raw = .ok u)
    (hf : u.tree.function? i = some f) (hn : (u.tree.paramNodes i)[k]? = some n)
    (hs : n.declaredType? = some s) :
    (f.summary u.tree).paramTypes[k]? = some (TypeName.unqualified s) ∧
    (TypeName.LosesConst s ↔ TypeName.HasConst s ∨ TypeName.HasConstAfterStar s) ∧
    ((f.summary u.tree).paramConst[k]? = some true ↔ TypeName.HasConst s) ∧
    (((f.summary u.tree).paramConst[k]? = some true ↔ TypeName.LosesConst s) ↔
      (TypeName.HasConstAfterStar s → TypeName.HasConst s)) := by
  obtain ⟨tree, errors, -, rfl⟩ := decode_eq_ok_iff.mp h
  have hviews := tree.hasViews_unit options.target errors
  obtain ⟨hkind, -⟩ := hviews.function?_eq_some_iff.mp hf
  obtain ⟨m, hm, -⟩ := Option.map_eq_some_iff.mp hkind
  obtain ⟨p, d, r, -, hr, -⟩ := (tree.showsAll_unit options.target errors).node
    (tree.size_unit options.target errors) hm
  have htells := FunctionDecl.tellsParams hviews hr hf
  have hmark : (f.summary (tree.unit options.target errors).tree).paramConst[k]? = some true ↔
      TypeName.HasConst s := by
    rw [htells.const, List.getElem?_map, hn, Option.map_some, Option.some.injEq,
      Node.isConst_of_declaredType? hs, TypeName.isConst_iff]
  refine ⟨?_, TypeName.losesConst_iff s, hmark, ?_⟩
  · rw [htells.types, List.getElem?_map, hn, Option.map_some, hs, Option.getD_some]
  · rw [hmark, TypeName.losesConst_iff]
    constructor
    · intro hsame hstar
      exact hsame.mpr (.inr hstar)
    · intro hstar
      exact ⟨.inl, fun hlost => hlost.elim id hstar⟩

/-- Both forms in one type: `const` as a word and at the end of a word of stars. The mark is right,
since the one stands for the other. -/
theorem decode_paramConst_both :
    let raw : Json := .branch "f" "FunctionDecl" [.obj [("id", .str "p"),
      ("kind", .str "ParmVarDecl"), ("type", .obj [("qualType", .str "int const **const")])]]
    ∃ u f n, decode Options.default raw = .ok u ∧ u.tree.function? 0 = some f ∧
      (u.tree.paramNodes 0)[0]? = some n ∧ n.declaredType? = some "int const **const" ∧
      (f.summary u.tree).paramTypes[0]? = some (TypeName.unqualified "int const **const") ∧
      ((f.summary u.tree).paramConst[0]? = some true ↔
        TypeName.LosesConst "int const **const") := by
  intro raw
  have hvalues : (decode Options.default raw).toOption.map (fun u =>
      ((u.tree.function? 0).isSome, (u.tree.paramNodes 0)[0]?.map Node.declaredType?)) =
      some (true, some (some "int const **const")) := by decide +kernel
  obtain ⟨u, hu, hvalues⟩ := exists_decode_of_map hvalues
  simp only [Prod.mk.injEq, Option.isSome_iff_exists, Option.map_eq_some_iff] at hvalues
  obtain ⟨⟨f, hf⟩, n, hn, hs⟩ := hvalues
  obtain ⟨htype, -, -, hagree⟩ := decode_paramConst hu hf hn hs
  have hword : TypeName.HasConst "int const **const" :=
    (TypeName.isConst_iff _).mp (by decide +kernel)
  exact ⟨u, f, n, hu, hf, hn, hs, htype, hagree.mpr fun _ => hword⟩

/-- **A `const` that is lost and not marked**: the only parameter is a constant pointer, written
with no blank after the star. -/
theorem decode_paramConst_after_star :
    let raw : Json := .branch "f" "FunctionDecl" [.obj [("id", .str "p"),
      ("kind", .str "ParmVarDecl"), ("type", .obj [("qualType", .str "int *const")])]]
    TypeName.LosesConst "int *const" ∧
    ∃ u f, decode Options.default raw = .ok u ∧ u.tree.function? 0 = some f ∧
      (u.tree.paramNodes 0).map Node.declaredType? = [some "int *const"] ∧
      (f.summary u.tree).paramTypes = ["int *"] ∧ (f.summary u.tree).paramConst = [false] := by
  intro raw
  have hlost : TypeName.LosesConst "int *const" :=
    ⟨"*const".toList, by decide +kernel, .inr ⟨['*'], by decide +kernel, by decide +kernel⟩⟩
  have hvalues : (decode Options.default raw).toOption.map (fun u =>
      ((u.tree.function? 0).map (fun f =>
          ((f.summary u.tree).paramTypes, (f.summary u.tree).paramConst)),
        (u.tree.paramNodes 0).map Node.declaredType?)) =
      some (some (["int *"], [false]), [some "int *const"]) := by decide +kernel
  obtain ⟨u, hu, hvalues⟩ := exists_decode_of_map hvalues
  simp only [Prod.mk.injEq, Option.map_eq_some_iff] at hvalues
  obtain ⟨⟨f, hf, htypes, hconst⟩, hdeclared⟩ := hvalues
  exact ⟨hlost, u, f, hu, hf, hdeclared, htypes, hconst⟩

end AstDump
