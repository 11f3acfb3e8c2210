import AstDump.Proofs.Qualifiers
import AstDump.Proofs.Units

/-!
# Pointer widths

Of the options only the pointer width is not looked at while a dump is decoded: it goes into the
tree as part of its target, where it stays until the width of a type is asked for. So two decodings
of one dump that differ in nothing but the pointer width give the same units, and widths that differ
for pointers alone.

* `RecordTree.ofJson_pointerWidth`  : the record tree of a dump has nothing to do with it;
* `RecordTree.tree_unit_retarget`   : the units of a record tree differ in their targets alone;
* `Node.IsPointer`                  : the type of a node is a pointer, as it was declared or without
  typedefs;
* `Tree.widthInBytes?_of_isPointer`, `Tree.widthInBytes?_congr` : what widths depend on;
* `decode_pointerWidth`             : two decodings of one dump.
-/

namespace AstDump

/-! ## Widths of types -/

namespace Target

variable {s : String}

theorem widthOf_of_star (target : Target) (h : '*' ∈ s.toList) :
    target.widthOf s = .bytes target.pointerWidth :=
  widthOf_eq_bytes_iff.mpr (.inl ⟨h, rfl⟩)

/-- What is no pointer is as wide on one target as on another. -/
theorem widthOf_congr (target target' : Target) (h : '*' ∉ s.toList) :
    target.widthOf s = target'.widthOf s := by
  simp [widthOf, TypeName.isPointer, h]

theorem not_star_of_unknown {target : Target} (h : target.widthOf s = .unknown) :
    '*' ∉ s.toList := by
  intro hstar
  rw [target.widthOf_of_star hstar] at h
  cases h

end Target

/-- The type of a node is a pointer: its declared spelling has a star, or nothing is known of that
spelling and the spelling without typedefs has a star. -/
def Node.IsPointer (target : Target) (n : Node) : Prop :=
  ∃ s, n.declaredType? = some s ∧
    ('*' ∈ s.toList ∨
      target.widthOf s = .unknown ∧ ∃ d, n.desugaredType? = some d ∧ '*' ∈ d.toList)

namespace Tree

variable {t t' : Tree} {n : Node} {s : String}

theorem widthInBytes?_of_bytes {k : Nat} (hs : n.declaredType? = some s)
    (h : t.target.widthOf s = .bytes k) : t.widthInBytes? n = some (.bytes k) := by
  rw [widthInBytes?, hs, Option.map_some, h]

/-- Where nothing is known of the declared type, the spelling without typedefs is asked. -/
theorem widthInBytes?_of_unknown (hs : n.declaredType? = some s)
    (h : t.target.widthOf s = .unknown) :
    t.widthInBytes? n = some ((n.desugaredType?.map t.target.widthOf).getD .unknown) := by
  rw [widthInBytes?, hs, Option.map_some, h]

theorem widthInBytes?_of_isPointer (h : n.IsPointer t.target) :
    t.widthInBytes? n = some (.bytes t.target.pointerWidth) := by
  obtain ⟨s, hs, hstar | ⟨hunknown, d, hd, hstar⟩⟩ := h
  · exact widthInBytes?_of_bytes hs (t.target.widthOf_of_star hstar)
  · rw [widthInBytes?_of_unknown hs hunknown, hd, Option.map_some, Option.getD_some,
      t.target.widthOf_of_star hstar]

/-- **The widths of all other types are the same on every target.** The second look-up is made on
both targets or on none, because the first one knows the same on both. -/
theorem widthInBytes?_congr (h : ¬ n.IsPointer t.target) :
    t.widthInBytes? n = t'.widthInBytes? n := by
  cases hs : n.declaredType? with
  | none => rw [widthInBytes?, widthInBytes?, hs, Option.map_none, Option.map_none]
  | some s =>
    have hplain : '*' ∉ s.toList := fun hstar => h ⟨s, hs, .inl hstar⟩
    have hsame := t.target.widthOf_congr t'.target hplain
    cases hwidth : t.target.widthOf s with
    | bytes k =>
      rw [widthInBytes?_of_bytes hs hwidth, widthInBytes?_of_bytes hs (hsame ▸ hwidth)]
    | unknown =>
      rw [widthInBytes?_of_unknown hs hwidth, widthInBytes?_of_unknown hs (hsame ▸ hwidth)]
      cases hd : n.desugaredType? with
      | none => rfl
      | some d =>
        have hplain : '*' ∉ d.toList := fun hstar => h ⟨s, hs, .inr ⟨hwidth, d, hd, hstar⟩⟩
        rw [Option.map_some, Option.map_some, t.target.widthOf_congr t'.target hplain]

end Tree

/-- What is a pointer on one target is one on every other. -/
theorem Node.IsPointer.congr {n : Node} {target : Target} (h : n.IsPointer target)
    (target' : Target) : n.IsPointer target' := by
  obtain ⟨s, hs, hstar | ⟨hunknown, hd⟩⟩ := h
  · exact ⟨s, hs, .inl hstar⟩
  · have hsame := target.widthOf_congr target' (Target.not_star_of_unknown hunknown)
    exact ⟨s, hs, .inr ⟨hsame ▸ hunknown, hd⟩⟩

/-! ## Decoding twice -/

namespace RecordTree

/-- The trees of all values down to some level, where only the pointer width is another. -/
theorem ofLevels_pointerWidth (options : Options) (p levels : Nat) :
    ofLevels { options with pointerWidth := p } levels = ofLevels options levels := by
  induction levels with
  | zero => rfl
  | succ levels ih =>
    funext path raw
    rw [ofLevels, ofLevels, ih]
    rfl

theorem ofJson_pointerWidth (options : Options) (p : Nat) (raw : Json) :
    ofJson { options with pointerWidth := p } raw = ofJson options raw := by
  rw [ofJson, ofLevels_pointerWidth, ofJson]

/-- **The units of a record tree differ in their targets alone**: both list the same tree, and a
view is a function of what is listed. -/
theorem tree_unit_retarget (target target' : Target) (tree : RecordTree)
    (errors : List DecodeError) : (tree.unit target' errors).tree =
      { (tree.unit target errors).tree with target := target' } := by
  have hshows := tree.showsAll_unit target errors
  have hshows' := tree.showsAll_unit target' errors
  refine Tree.ext_plain ?_ ?_ ?_ fun i n n' hn hn' => ?_
  · rw [tree_unit, tree_unit, Tree.index_addForest, Tree.index_addForest]
    rfl
  · rw [tree_unit, Tree.target_addForest]
    rfl
  · rw [plainNodes_unit, ← plainNodes_unit target tree errors]
    rfl
  · have hlt : i < 0 + sizeAll [tree] := by
      have hsize := (Array.getElem?_eq_some_iff.mp hn).1
      have hall : (tree.unit target' errors).tree.nodes.size = tree.size :=
        tree.size_unit target' errors
      rw [sizeAll, sizeAll]
      omega
    have hview : n'.view = (tree.unit target errors).tree.buildView i :=
      tree.view_unit target errors hn'
    rw [tree.view_unit target' errors hn, hview]
    exact hshows'.buildView_congr hshows (Nat.zero_le i) hlt

end RecordTree

/-- Two units are the same but for the widths of pointers, which are `p` in the one and `p'` in the
other. Nodes are compared with their views. -/
structure TranslationUnit.SameButPointers (p p' : Nat) (u u' : TranslationUnit) : Prop where
  nodes : u.tree.nodes = u'.tree.nodes
  index : u.tree.index = u'.tree.index
  registry : u.registry = u'.registry
  diagnostics : u.diagnostics = u'.diagnostics
  pointers : ∀ i n, u.tree.node? i = some n →
    (n.IsPointer u.tree.target ↔ n.IsPointer u'.tree.target) ∧
    (n.IsPointer u.tree.target →
      u.tree.widthInBytes? n = some (.bytes p) ∧ u'.tree.widthInBytes? n = some (.bytes p')) ∧
    (¬ n.IsPointer u.tree.target → u.tree.widthInBytes? n = u'.tree.widthInBytes? n)

theorem RecordTree.sameButPointers_unit (p p' : Nat) (tree : RecordTree)
    (errors : List DecodeError) :
    (tree.unit ⟨p⟩ errors).SameButPointers p p' (tree.unit ⟨p'⟩ errors) := by
  have htree := tree.tree_unit_retarget ⟨p⟩ ⟨p'⟩ errors
  have htarget : ∀ p, (tree.unit ⟨p⟩ errors).tree.target = ⟨p⟩ := by
    intro p
    rw [tree_unit, Tree.target_addForest]
    rfl
  refine ⟨by rw [htree], by rw [htree], rfl, rfl, fun i n _ => ⟨?_, fun hpointer => ?_, ?_⟩⟩
  · exact ⟨fun h => h.congr _, fun h => h.congr _⟩
  · rw [Tree.widthInBytes?_of_isPointer hpointer,
      Tree.widthInBytes?_of_isPointer (hpointer.congr _), htarget, htarget]
    exact ⟨rfl, rfl⟩
  · exact Tree.widthInBytes?_congr

/-- Two decodings end alike: both fail with one error, or both give a unit, and the units are the
same but for the widths of pointers. -/
inductive DecodeAlike (p p' : Nat) :
    Except DecodeError TranslationUnit → Except DecodeError TranslationUnit → Prop where
  | error (e : DecodeError) : DecodeAlike p p' (.error e) (.error e)
  | ok {u u' : TranslationUnit} (h : u.SameButPointers p p' u') : DecodeAlike p p' (.ok u) (.ok u')

/-- **The pointer width has no influence but on the widths of pointers**, whatever the dump and the
other options. -/
theorem decode_pointerWidth (options : Options) (p p' : Nat) (raw : Json) :
    DecodeAlike p p' (decode { options with pointerWidth := p } raw)
      (decode { options with pointerWidth := p' } raw) := by
  rw [decode_eq_recursion, decode_eq_recursion, decodeByRecursion, decodeByRecursion,
    RecordTree.ofJson_pointerWidth options p, RecordTree.ofJson_pointerWidth options p']
  cases RecordTree.ofJson options raw with
  | error e => exact .error e
  | ok found => exact .ok (found.1.sameButPointers_unit p p' found.2)

/-- A variable of a named type that is a pointer without its name, and one whose declared type has a
known width. -/
theorem decode_pointerWidth_typedef :
    let declared (rawId type : String) : Json :=
      .obj [("id", .str rawId), ("kind", .str "VarDecl"),
        ("type", .obj [("desugaredQualType", .str "void *"), ("qualType", .str type)])]
    let raw : Json := .branch "0" "DeclStmt" [declared "1" "handle", declared "2" "long"]
    ∃ u u' n m, decode { Options.default with pointerWidth := 4 } raw = .ok u ∧
      decode { Options.default with pointerWidth := 2 } raw = .ok u' ∧
      u.tree.node? 1 = some n ∧ n.IsPointer u.tree.target ∧
      u.tree.widthInBytes? n = some (.bytes 4) ∧ u'.tree.widthInBytes? n = some (.bytes 2) ∧
      u.tree.node? 2 = some m ∧ ¬ m.IsPointer u.tree.target ∧
      u.tree.widthInBytes? m = u'.tree.widthInBytes? m := by
  intro declared raw
  have hvalues : (decode { Options.default with pointerWidth := 4 } raw).toOption.map (fun u =>
      ((u.tree.node? 1).map (fun n => (n.declaredType?, n.desugaredType?)),
        u.tree.target.widthOf "handle", (u.tree.node? 2).map Node.declaredType?,
        u.tree.target.widthOf "long")) =
      some (some (some "handle", some "void *"), .unknown, some (some "long"), .bytes 8) := by
    decide +kernel
  obtain ⟨u, hu, hvalues⟩ := exists_decode_of_map hvalues
  simp only [Prod.mk.injEq, Option.map_eq_some_iff] at hvalues
  obtain ⟨⟨n, hn, hname, hplain⟩, hhandle, ⟨m, hm, hlong⟩, hwidth⟩ := hvalues
  have hpointer : n.IsPointer u.tree.target :=
    ⟨"handle", hname, .inr ⟨hhandle, "void *", hplain, by decide +kernel⟩⟩
  have hother : ¬ m.IsPointer u.tree.target := by
    rintro ⟨s, hs, hstar⟩
    obtain rfl : s = "long" := Option.some.inj (hs.symm.trans hlong)
    rcases hstar with hstar | ⟨hunknown, -⟩
    · exact absurd hstar (by decide +kernel)
    · rw [hwidth] at hunknown
      cases hunknown
  have halike := decode_pointerWidth Options.default 4 2 raw
  rw [hu] at halike
  generalize hu' : decode { Options.default with pointerWidth := 2 } raw = result at halike
  cases halike with
  | @ok _ u' hsame =>
    obtain ⟨-, hwidths, -⟩ := hsame.pointers 1 n hn
    obtain ⟨-, -, hequal⟩ := hsame.pointers 2 m hm
    exact ⟨u, u', n, m, hu, rfl, hn, hpointer, (hwidths hpointer).1, (hwidths hpointer).2, hm,
      hother, hequal hother⟩

end AstDump
