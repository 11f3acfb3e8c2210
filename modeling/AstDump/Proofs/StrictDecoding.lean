import AstDump.Proofs.Listing
import AstDump.Proofs.Units

/-!
# Strict decoding

Without recovery a dump is decoded exactly if every value that decoding comes to is a node record.
The nodes then are these records in document order, and otherwise the error is that of the first
value that is none.

* `Tree.TellsRecords`      : the nodes of a tree are the records of a dump;
* `decode_strict`          : strict decoding, as a whole.
-/

namespace AstDump

/-- The nodes of a tree are the values of a dump that have a place, in document order. -/
def Tree.TellsRecords (options : Options) (raw : Json) (t : Tree) : Prop :=
  ∃ records : List (Place × Json), records.Pairwise (fun a b => Before a.1 b.1) ∧
    (∀ place v, (place, v) ∈ records ↔ raw.valueAt? options place = some v) ∧
    TellAll options records t.nodes.toList records

/-- What a node tells does not depend on its view. -/
theorem Node.Tells.of_plain {options : Options} {records : List (Place × Json)} {n : Node}
    {place : Place} {members : Members} (h : n.plain.Tells options records place members) :
    n.Tells options records place members :=
  ⟨h.rawId, h.kind, h.attrs, h.depth, h.leaf, h.branch⟩

theorem tellsRecords_unit {options : Options} {raw : Json} {tree : RecordTree}
    {errors : List DecodeError} (hstrict : options.recoverMalformed = false)
    (h : RecordTree.ofJson options raw = .ok (tree, errors)) :
    (tree.unit options.target errors).tree.TellsRecords options raw := by
  obtain ⟨hall, -⟩ := RecordTree.allWellFormed_of_strict hstrict h
  refine ⟨raw.listing options (options.maxDepth + 1) [], Json.listing_sorted _ _ _, ?_, ?_⟩
  · intro place v
    rw [Json.mem_listing]
    constructor
    · rintro ⟨inner, rfl, -, hv⟩
      exact hv
    · intro hv
      exact ⟨place, rfl, Nat.lt_succ_of_le (hall place v hv).1, hv⟩
  · have hdepth : ([] : Place).length + (options.maxDepth + 1) = options.maxDepth + 1 :=
      Nat.zero_add _
    have htells := RecordTree.tells_ofLevels hstrict hdepth h 0 none List.prefix_rfl
    have hnodes : (tree.unit options.target errors).tree.nodes.toList.map Node.plain =
        tree.nodes none 0 0 := RecordTree.plainNodes_unit ..
    rw [List.length_nil, ← hnodes] at htells
    refine (List.forall₂_map_left_iff.mp htells).imp fun n entry => ?_
    rintro ⟨members, hmembers, hn⟩
    exact ⟨members, hmembers, hn.of_plain⟩

/-- **Strict decoding.** The walk gives what the recursion gives. It succeeds exactly if all values
of the dump are node records, and then the nodes are these records in document order; else it fails
with the error of the first value that is no node record. -/
theorem decode_strict (options : Options) (raw : Json)
    (hstrict : options.recoverMalformed = false) :
    decode options raw = decodeByRecursion options raw ∧
    ((∃ u, decode options raw = .ok u) ↔ AllWellFormed options raw) ∧
    (∀ u, decode options raw = .ok u → u.tree.TellsRecords options raw) ∧
    (∀ e, decode options raw = .error e → FirstFault options raw e) := by
  have hfault : ∀ e, decode options raw = .error e → FirstFault options raw e := fun e he =>
    RecordTree.firstFault_of_strict hstrict (decode_eq_error_iff.mp he)
  refine ⟨decode_eq_recursion options raw, ⟨?_, fun hall => ?_⟩, ?_, hfault⟩
  · rintro ⟨u, hu⟩
    obtain ⟨tree, errors, hfound, -⟩ := decode_eq_ok_iff.mp hu
    exact (RecordTree.allWellFormed_of_strict hstrict hfound).1
  · cases hdecode : decode options raw with
    | ok u => exact ⟨u, rfl⟩
    | error e => exact absurd hall (hfault e hdecode).not_allWellFormed
  · intro u hu
    obtain ⟨tree, errors, hfound, rfl⟩ := decode_eq_ok_iff.mp hu
    exact tellsRecords_unit hstrict hfound

/-- A statement list that begins with a placeholder, and a record with a number for its id. -/
theorem decode_strict_placeholder_first :
    let raw : Json := .obj [("children", .null), ("id", .str "0x1"), ("inner", .arr [.obj [],
      .obj [("id", .int 7), ("inner", .arr []), ("kind", .str "NullStmt")]]),
      ("kind", .str "CompoundStmt")]
    Options.default.recoverMalformed = false ∧
      ∃ u, decode Options.default raw = .ok u ∧ u.tree.TellsRecords Options.default raw :=
  ⟨rfl, _, rfl, (decode_strict Options.default _ rfl).2.2.1 _ rfl⟩

end AstDump
