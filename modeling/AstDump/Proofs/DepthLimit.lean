import AstDump.Proofs.Errors
import AstDump.Proofs.Pruning
import Mathlib.Data.List.Sort

/-!
# Lower depth limits

With recovery on, decoding with a lower limit is cutting the tree at the limit. The errors are those
that items within the limit raise anyway, and one more for each item right below it.

* `Fault.within`, `Dropped.within` : within the limits, the limit does not matter;
* `Raised`                         : the errors of a dump, with the places that raise them;
* `Raised.filter_within`           : the errors that two limits have in common;
* `Raised.exists_deep`             : the errors of the items below the limit;
* `IsCut`                          : a unit is what is left of another one;
* `decode_cut`                     : so it is for the units of one dump under two limits.
-/

namespace AstDump

variable {options : Options} {limit depth : Nat} {path : Path} {raw v : Json} {place : Place}
  {e : DecodeError}

/-! ## Within the limit -/

theorem WellFormed.within (h : WellFormed options depth v) (hle : depth ≤ limit) :
    WellFormed { options with maxDepth := limit } depth v := ⟨hle, h.2⟩

theorem Fault.unique {e' : DecodeError} (h : Fault options path depth v e)
    (h' : Fault options path depth v e') : e = e' :=
  Except.error.inj ((Record.openAt_of_fault h).symm.trans (Record.openAt_of_fault h'))

/-- What is wrong with a value within two limits is the same. -/
theorem Fault.within (h : Fault options path depth v e) (hshallow : depth ≤ options.maxDepth)
    (hle : depth ≤ limit) : Fault { options with maxDepth := limit } path depth v e := by
  cases h with
  | tooDeep deep => omega
  | notARecord _ other => exact .notARecord hle other
  | missingId _ id => exact .missingId hle id
  | invalidId _ id noText => exact .invalidId hle id noText
  | missingKind _ id kind => exact .missingKind hle id kind
  | invalidKind _ id kind noTag => exact .invalidKind hle id kind noTag
  | malformedChildren _ id kind noItems => exact .malformedChildren hle id kind noItems

/-- Nothing is dropped more than one level below the limit: only records lead to it. -/
theorem Dropped.length_le (h : Dropped options depth raw place v) :
    depth + place.length ≤ options.maxDepth + 1 := by
  induction h with
  | item record _ _ _ => exact Nat.succ_le_succ record.1
  | inside _ _ _ _ ih => rw [List.length_cons]; omega

/-- What is dropped within two limits is the same. -/
theorem Dropped.within (h : Dropped options depth raw place v)
    (hshallow : depth + place.length ≤ options.maxDepth) (hle : depth + place.length ≤ limit) :
    Dropped { options with maxDepth := limit } depth raw place v := by
  induction h with
  | item record at_i held malformed =>
    rw [List.length_singleton] at hshallow hle
    refine .item (record.within (by omega)) at_i held fun hwf => malformed ?_
    exact hwf.within hshallow
  | inside record at_i held _ ih =>
    rw [List.length_cons] at hshallow hle
    exact .inside (record.within (by omega)) at_i held (ih (by omega) (by omega))

theorem Json.pathTo_maxDepth :
    raw.pathTo { options with maxDepth := limit } place = raw.pathTo options place := by
  induction place generalizing raw with
  | nil => rfl
  | cons i place ih =>
    cases hitem : (raw.childItems options)[i]? with
    | none =>
      have hitem' : (raw.childItems { options with maxDepth := limit })[i]? = none := hitem
      rw [pathTo, pathTo, hitem, hitem']
    | some item =>
      have hitem' : (raw.childItems { options with maxDepth := limit })[i]? = some item := hitem
      rw [pathTo_cons hitem, pathTo_cons hitem', ih]
      rfl

/-! ## Right below the limit -/

theorem Trail.within {segments : List String} (h : Trail options depth raw place segments v)
    (hle : depth + place.length ≤ limit + 1) :
    Trail { options with maxDepth := limit } depth raw place segments v := by
  induction h with
  | here => exact .here
  | item record name chosen list at_i held _ ih =>
    rw [List.length_cons] at hle
    exact .item (record.within (by omega)) name chosen list at_i held (ih (by omega))

/-- A malformed value that records lead to is dropped. -/
theorem Trail.dropped {segments : List String} (h : Trail options depth raw place segments v)
    (hplace : place ≠ []) (hmalformed : ¬ WellFormed options (depth + place.length) v) :
    Dropped options depth raw place v := by
  induction h with
  | here => exact absurd rfl hplace
  | @item depth i members _ field items item v place _ record _ chosen list at_i held rest ih =>
    have hat : ((Json.obj members).childItems options)[i]? = some item := by
      simpa [Json.childItems, Members.items?, chosen, list, Json.items?] using at_i
    rw [List.length_cons, Nat.add_comm _ 1, ← Nat.add_assoc] at hmalformed
    cases place with
    | nil =>
      cases rest
      exact .item record hat held hmalformed
    | cons j place => exact .inside record hat held (ih (List.cons_ne_nil j place) hmalformed)

/-- One level below the limit everything is dropped that records lead to. -/
theorem exists_dropped_iff_trail (h : place.length = options.maxDepth + 1) :
    (∃ item, Dropped options 0 raw place item) ↔
      ∃ segments item, Trail options 0 raw place segments item := by
  constructor
  · rintro ⟨item, hdropped⟩
    exact ⟨_, item, hdropped.trail⟩
  · rintro ⟨segments, item, htrail⟩
    have hne : place ≠ [] := by
      rintro rfl
      cases h
    refine ⟨item, htrail.dropped hne fun hwf => ?_⟩
    have hle := hwf.1
    omega

/-! ## The places of the errors -/

/-- The errors of a dump in document order, each with the place of the item that raises it. -/
structure Raised (options : Options) (raw : Json) (errors : List DecodeError)
    (reports : List (Place × DecodeError)) : Prop where
  errors : reports.map Prod.snd = errors
  sorted : reports.Pairwise fun a b => Before a.1 b.1
  mem_iff : ∀ place e, (place, e) ∈ reports ↔ ∃ item, Dropped options 0 raw place item ∧
    Fault options (raw.pathTo options place) place.length item e

theorem Reports.raised {errors : List DecodeError} {dropped : List (Place × Json)}
    (h : Reports options [] 0 raw 0 errors dropped) :
    ∃ reports, Raised options raw errors reports := by
  obtain ⟨hlength, hfaults⟩ := List.forall₂_iff_zip.mp h.faults
  have hplaces : (errors.zip dropped).map Prod.snd = dropped :=
    List.map_snd_zip (Nat.le_of_eq hlength.symm)
  have hfault : ∀ x ∈ errors.zip dropped,
      Fault options (raw.pathTo options x.2.1) x.2.1.length x.2.2 x.1 := by
    intro x hx
    have hfault := hfaults hx
    rwa [List.nil_append, Nat.zero_add] at hfault
  refine ⟨(errors.zip dropped).map fun x => (x.2.1, x.1), ?_, ?_, fun place e => ?_⟩
  · rw [List.map_map]
    exact List.map_fst_zip (Nat.le_of_eq hlength)
  · have hsorted := h.sorted
    rw [← hplaces, List.pairwise_map] at hsorted
    exact List.pairwise_map.mpr hsorted
  · simp only [← h.mem_iff_dropped, List.mem_map, Prod.mk.injEq]
    constructor
    · rintro ⟨x, hx, rfl, rfl⟩
      exact ⟨x.2.2, (List.of_mem_zip hx).2, hfault x hx⟩
    · rintro ⟨item, hitem, he⟩
      rw [← hplaces] at hitem
      obtain ⟨x, hx, hxitem⟩ := List.mem_map.mp hitem
      have hown := hfault x hx
      rw [hxitem] at hown
      exact ⟨x, hx, congrArg Prod.fst hxitem, hown.unique he⟩

/-- Reports in document order are determined by what is reported. -/
theorem eq_of_mem_iff_of_sorted {reports reports' : List (Place × DecodeError)}
    (h : reports.Pairwise fun a b => Before a.1 b.1)
    (h' : reports'.Pairwise fun a b => Before a.1 b.1)
    (hmem : ∀ place e, (place, e) ∈ reports ↔ (place, e) ∈ reports') : reports = reports' := by
  have hnot : ∀ a b : Place × DecodeError, Before a.1 b.1 → ¬ Before b.1 a.1 :=
    fun a b hab hba => Before.not_of_prefix List.prefix_rfl (hab.trans hba)
  have : Std.Irrefl fun a b : Place × DecodeError => Before a.1 b.1 :=
    ⟨fun a haa => hnot a a haa haa⟩
  have : Std.Antisymm fun a b : Place × DecodeError => Before a.1 b.1 :=
    ⟨fun a b hab hba => absurd hba (hnot a b hab)⟩
  exact h.eq_of_mem_iff h' fun x => hmem x.1 x.2

namespace Raised

variable {errors errors' : List DecodeError} {reports reports' : List (Place × DecodeError)}

/-- The item that raises an error is no deeper than a limit. -/
def isWithin (limit : Nat) (report : Place × DecodeError) : Bool := report.1.length ≤ limit

/-- **The errors that two limits have in common** are those of the items within both. -/
theorem filter_within (hle : limit ≤ options.maxDepth)
    (h : Raised { options with maxDepth := limit } raw errors reports)
    (h' : Raised options raw errors' reports') :
    reports.filter (isWithin limit) = reports'.filter (isWithin limit) := by
  refine eq_of_mem_iff_of_sorted (h.sorted.filter _) (h'.sorted.filter _) fun place e => ?_
  rw [List.mem_filter, List.mem_filter, h.mem_iff, h'.mem_iff, Json.pathTo_maxDepth]
  refine and_congr_left fun hwithin => exists_congr fun item => ?_
  have hshort : place.length ≤ limit := of_decide_eq_true hwithin
  have hlong : place.length ≤ options.maxDepth := hshort.trans hle
  have hshort' : 0 + place.length ≤ limit := by omega
  have hlong' : 0 + place.length ≤ options.maxDepth := by omega
  constructor
  · rintro ⟨hdropped, hfault⟩
    exact ⟨hdropped.within hshort' hlong', hfault.within hshort hlong⟩
  · rintro ⟨hdropped, hfault⟩
    exact ⟨hdropped.within hlong' hshort', hfault.within hlong hshort⟩

/-- **The errors below the limit**: one for each item right below it. -/
theorem exists_deep (h : Raised options raw errors reports) :
    ∃ deep : List Place, deep.Pairwise Before ∧
      (∀ place, place ∈ deep ↔ place.length = options.maxDepth + 1 ∧
        ∃ segments item, Trail options 0 raw place segments item) ∧
      reports.filter (fun report => ¬ isWithin options.maxDepth report) =
        deep.map fun place => (place, .tooDeep (raw.pathTo options place) options.maxDepth) := by
  have hdeep : ∀ place e, (place, e) ∈ reports.filter
      (fun report => ¬ isWithin options.maxDepth report) →
      place.length = options.maxDepth + 1 ∧ (∃ item, Dropped options 0 raw place item) ∧
        e = .tooDeep (raw.pathTo options place) options.maxDepth := by
    intro place e hmem
    obtain ⟨hmem, hout⟩ := List.mem_filter.mp hmem
    obtain ⟨item, hdropped, hfault⟩ := (h.mem_iff place e).mp hmem
    have hlt : options.maxDepth < place.length := by simpa [isWithin] using hout
    have hle := hdropped.length_le
    exact ⟨by omega, ⟨item, hdropped⟩, hfault.unique (.tooDeep hlt)⟩
  refine ⟨(reports.filter fun report => ¬ isWithin options.maxDepth report).map Prod.fst,
    List.pairwise_map.mpr (h.sorted.filter _), fun place => ⟨?_, ?_⟩, ?_⟩
  · intro hmem
    obtain ⟨⟨place, e⟩, hreport, rfl⟩ := List.mem_map.mp hmem
    obtain ⟨hlength, hdropped, -⟩ := hdeep place e hreport
    exact ⟨hlength, (exists_dropped_iff_trail hlength).mp hdropped⟩
  · rintro ⟨hlength, htrail⟩
    obtain ⟨item, hdropped⟩ := (exists_dropped_iff_trail hlength).mpr htrail
    have hlt : options.maxDepth < place.length := by omega
    have hmem := (h.mem_iff place _).mpr ⟨item, hdropped, .tooDeep hlt⟩
    refine List.mem_map.mpr ⟨_, List.mem_filter.mpr ⟨hmem, ?_⟩, rfl⟩
    simpa [isWithin] using hlt
  · rw [List.map_map]
    refine (List.map_id' _).symm.trans (List.map_congr_left ?_)
    rintro ⟨place, e⟩ hmem
    exact congrArg (Prod.mk place) (hdeep place e hmem).2.2

end Raised

/-! ## The cut -/

/-- How many of the nodes before a position are within a limit. -/
def Tree.rank (t : Tree) (limit i : Nat) : Nat :=
  (t.nodes.toList.take i).countP (Node.isWithin limit)

namespace RecordTree

theorem treeOf_ofJson_prune (hrecover : options.recoverMalformed = true)
    (hle : limit ≤ options.maxDepth) (raw : Json) :
    treeOf (ofJson { options with maxDepth := limit } raw) =
      (treeOf (ofJson options raw)).bind (prune (limit + 1)) := by
  obtain ⟨more, hmore⟩ : ∃ more, options.maxDepth + 1 = limit + 1 + more :=
    ⟨options.maxDepth - limit, by omega⟩
  unfold ofJson
  rw [hmore]
  exact treeOf_prune hrecover (Nat.zero_add _) (by omega) [] [] raw

/-- The nodes of the unit of a pruned tree. -/
theorem plainNodes_prune {tree pruned : RecordTree} (h : tree.prune (limit + 1) = some pruned)
    (target : Target) (errors errors' : List DecodeError) :
    (pruned.unit target errors).tree.plainNodes =
      ((tree.unit target errors').tree.nodes.toList.filter (Node.isWithin limit)).map
        (Node.cut limit ((tree.unit target errors').tree.rank limit)) := by
  have hwhole : nodesAll none 0 0 [tree] = (tree.unit target errors').tree.plainNodes := by
    rw [plainNodes_unit, nodesAll_singleton]
  have hleft : nodesAll none 0 0 ([tree].filterMap (prune (limit + 1))) =
      (pruned.unit target errors).tree.plainNodes := by
    rw [plainNodes_unit, List.filterMap_cons_some h, List.filterMap_nil, nodesAll_singleton]
  have hnew : Renumbers limit ((tree.unit target errors').tree.rank limit) 0 0
      (nodesAll none 0 0 [tree]) := by
    intro k _
    rw [hwhole, Tree.plainNodes, ← List.map_take, List.countP_map, Nat.zero_add, Nat.zero_add]
    rfl
  have hlisted := (nodesAll_prune [tree] (Nat.zero_add _) hnew).1
  rw [Option.map_none, hleft, hwhole] at hlisted
  rw [hlisted, Tree.plainNodes, List.filter_map, List.map_map]
  rfl

/-- With recovery on, the errors of a dump are those that its items raise. -/
theorem raised_of_ofJson {tree : RecordTree} {errors : List DecodeError}
    (h : ofJson options raw = .ok (tree, errors)) (hrecover : options.recoverMalformed = true) :
    ∃ reports, Raised options raw errors reports := by
  have hcases := ofJson_recovering options raw
  rw [Options.recovering_eq hrecover, h] at hcases
  rcases hcases with ⟨e, herror, -⟩ | ⟨_, _, dropped, hok, -, hreports⟩
  · cases herror
  · cases hok
    exact hreports.raised

/-- With recovery on, only a fault of the dump itself is an error of the decoding. -/
theorem ofJson_eq_error_iff (hrecover : options.recoverMalformed = true) :
    ofJson options raw = .error e ↔ Fault options [] 0 raw e := by
  have hlevels : 0 + (options.maxDepth + 1) = options.maxDepth + 1 := Nat.zero_add _
  constructor
  · intro h
    rw [← Options.recovering_eq hrecover] at h
    exact fault_of_ofLevels h hlevels
  · intro h
    exact ofLevels_of_error (Record.openAt_of_fault h) hlevels

end RecordTree

/-- A unit is what is left of another one of the same dump when the tree is cut at a depth.

Its nodes are those of the other unit that are no deeper, in the same order; parents and children
are given by how many of these stand before them. Its errors are those of the other unit that items
no deeper raise, with one more for each item right below the cut, all in document order. -/
structure IsCut (options : Options) (limit : Nat) (raw : Json) (u whole : TranslationUnit) :
    Prop where
  nodes : u.tree.plainNodes = (whole.tree.nodes.toList.filter (Node.isWithin limit)).map
    (Node.cut limit (whole.tree.rank limit))
  errors : ∃ (reports reports' : List (Place × DecodeError)) (deep : List Place),
    Raised { options with maxDepth := limit } raw u.diagnostics.toList reports ∧
    Raised options raw whole.diagnostics.toList reports' ∧
    reports.filter (Raised.isWithin limit) = reports'.filter (Raised.isWithin limit) ∧
    reports.filter (fun report => ¬ Raised.isWithin limit report) =
      deep.map (fun place => (place, .tooDeep (raw.pathTo options place) limit)) ∧
    deep.Pairwise Before ∧
    ∀ place, place ∈ deep ↔
      place.length = limit + 1 ∧ ∃ segments item, Trail options 0 raw place segments item

/-- The records that lead to what is right below a limit do so under a higher limit as well. -/
theorem exists_trail_within (hle : limit ≤ options.maxDepth) (h : place.length = limit + 1) :
    (∃ segments item, Trail { options with maxDepth := limit } 0 raw place segments item) ↔
      ∃ segments item, Trail options 0 raw place segments item := by
  constructor
  · rintro ⟨segments, item, htrail⟩
    exact ⟨segments, item, htrail.within (by omega)⟩
  · rintro ⟨segments, item, htrail⟩
    exact ⟨segments, item, htrail.within (by omega)⟩

theorem RecordTree.isCut {tree pruned : RecordTree} {errors errors' : List DecodeError}
    (hrecover : options.recoverMalformed = true) (hle : limit ≤ options.maxDepth)
    (h : ofJson { options with maxDepth := limit } raw = .ok (pruned, errors))
    (h' : ofJson options raw = .ok (tree, errors')) :
    IsCut options limit raw (pruned.unit options.target errors)
      (tree.unit options.target errors') := by
  have hprune := treeOf_ofJson_prune hrecover hle raw
  rw [h, h'] at hprune
  obtain ⟨reports, hreports⟩ := raised_of_ofJson h hrecover
  obtain ⟨reports', hreports'⟩ := raised_of_ofJson h' hrecover
  obtain ⟨deep, hsorted, hmem, hdeep⟩ := hreports.exists_deep
  refine ⟨plainNodes_prune hprune.symm options.target errors errors', reports, reports', deep,
    hreports, hreports', hreports.filter_within hle hreports', ?_, hsorted, fun place => ?_⟩
  · simpa only [Json.pathTo_maxDepth] using hdeep
  · rw [hmem]
    exact and_congr_right fun hlength => exists_trail_within hle hlength

/-- **Lowering the depth limit cuts the tree.** With recovery on, whatever the dump, decoding fails
with the same error under both limits, or it gives two units the one of which is what is left of the
other. -/
theorem decode_cut (hrecover : options.recoverMalformed = true) (hle : limit ≤ options.maxDepth)
    (raw : Json) :
    (∃ e, decode { options with maxDepth := limit } raw = .error e ∧
      decode options raw = .error e) ∨
    ∃ u whole, decode { options with maxDepth := limit } raw = .ok u ∧
      decode options raw = .ok whole ∧ IsCut options limit raw u whole := by
  cases hwhole : RecordTree.ofJson options raw with
  | error e =>
    have hrecover' : Options.recoverMalformed { options with maxDepth := limit } = true := hrecover
    have hfault := (RecordTree.ofJson_eq_error_iff hrecover).mp hwhole
    have hlower := (RecordTree.ofJson_eq_error_iff hrecover').mpr
      (hfault.within (Nat.zero_le _) (Nat.zero_le limit))
    exact .inl ⟨e, decode_eq_error_iff.mpr hlower, decode_eq_error_iff.mpr hwhole⟩
  | ok found =>
    obtain ⟨tree, errors'⟩ := found
    have hprune := RecordTree.treeOf_ofJson_prune hrecover hle raw
    rw [hwhole] at hprune
    obtain ⟨errors, hlower⟩ := RecordTree.treeOf_eq_some hprune
    exact .inr ⟨_, _, decode_eq_ok_iff.mpr ⟨_, errors, hlower, rfl⟩,
      decode_eq_ok_iff.mpr ⟨tree, errors', hwhole, rfl⟩,
      RecordTree.isCut hrecover hle hlower hwhole⟩

/-- Below the cut lie a record and a number that is none, beside a placeholder. Both are too deep,
and reported before the text that follows one level higher. -/
theorem decode_cut_two_levels :
    let options : Options := { Options.default with maxDepth := 2, recoverMalformed := true }
    let raw : Json := .branch "0" "FunctionDecl" [
      .branch "1" "CompoundStmt" [.leaf "2" "NullStmt", .obj [], .int 3], .str "text",
      .leaf "4" "VarDecl"]
    let inner (i : Nat) : Path := [.node (.ofTag "FunctionDecl") "0", .item "inner" i]
    let innermost (i : Nat) : Path :=
      inner 0 ++ [.node (.ofTag "CompoundStmt") "1", .item "inner" i]
    options.recoverMalformed = true ∧ 1 ≤ options.maxDepth ∧ ∃ u whole,
      decode { options with maxDepth := 1 } raw = .ok u ∧ decode options raw = .ok whole ∧
      IsCut options 1 raw u whole ∧
      u.tree.nodes.toList.map Node.children = [some #[1, 2], some #[], none] ∧
      u.diagnostics.toList = [.tooDeep (innermost 0) 1, .tooDeep (innermost 2) 1,
        .notARecord (inner 1) .string] ∧
      whole.tree.nodes.toList.map Node.children = [some #[1, 3], some #[2], none, none] ∧
      whole.diagnostics.toList = [.notARecord (innermost 2) (.number "3"),
        .notARecord (inner 1) .string] := by
  intro options raw inner innermost
  have hlower : (decode { options with maxDepth := 1 } raw).toOption.map (fun u =>
      (u.tree.nodes.toList.map Node.children, u.diagnostics.toList)) =
      some ([some #[1, 2], some #[], none], [.tooDeep (innermost 0) 1, .tooDeep (innermost 2) 1,
        .notARecord (inner 1) .string]) := by decide +kernel
  have hhigher : (decode options raw).toOption.map (fun u =>
      (u.tree.nodes.toList.map Node.children, u.diagnostics.toList)) =
      some ([some #[1, 3], some #[2], none, none], [.notARecord (innermost 2) (.number "3"),
        .notARecord (inner 1) .string]) := by decide +kernel
  obtain ⟨u, hu, hlower⟩ := exists_decode_of_map hlower
  obtain ⟨whole, hwhole, hhigher⟩ := exists_decode_of_map hhigher
  have hcut : IsCut options 1 raw u whole := by
    rcases @decode_cut options 1 rfl (by decide) raw with
      ⟨e, he, -⟩ | ⟨v, all, hv, hall, hcut⟩
    · rw [hu] at he
      cases he
    · cases hu.symm.trans hv
      cases hwhole.symm.trans hall
      exact hcut
  simp only [Prod.mk.injEq] at hlower hhigher
  exact ⟨rfl, by decide, u, whole, hu, hwhole, hcut, hlower.1, hlower.2, hhigher.1, hhigher.2⟩

end AstDump
