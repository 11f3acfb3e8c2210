import AstDump.Proofs.Masking
import AstDump.Proofs.Units

/-!
# Decoding with recovery

With recovery on, a dump that is a node record is always decoded, and what comes out is what strict
decoding makes of the masked dump: the items that were dropped might as well have been placeholders.

* `RecordTree.ofJson_mask` : the record tree of a masked dump;
* `decode_recovering`      : decoding with recovery, as a whole.
-/

namespace AstDump

theorem RecordTree.ofJson_mask {options : Options} {raw : Json} {tree : RecordTree}
    {errors : List DecodeError} (h : ofJson options.recovering raw = .ok (tree, errors)) :
    ofJson options.strict (mask options raw) = .ok (tree, []) :=
  ofLevels_mask (Nat.zero_add _) h

/-- **Decoding with recovery.** When the dump is a node record, decoding succeeds. Its tree and its
registry are those of the masked dump, which strict decoding accepts. One error is kept for each
value that the mask replaces, in document order; these are the malformed items that records lead to.
When the dump is no node record, decoding fails with what is wrong with it. -/
theorem decode_recovering (options : Options) (raw : Json)
    (hrecover : options.recoverMalformed = true) :
    (WellFormed options 0 raw → ∃ u v replaced,
      decode options raw = .ok u ∧
      decode { options with recoverMalformed := false } (mask options raw) = .ok v ∧
      u.tree = v.tree ∧ u.registry = v.registry ∧ v.diagnostics = #[] ∧
      replaced.Pairwise (fun a b => Before a.1 b.1) ∧
      (∀ place item, (place, item) ∈ replaced ↔ raw.valueAt? options place = some item ∧
        (mask options raw).itemAt? options place = some (.obj [])) ∧
      (∀ place item, (place, item) ∈ replaced ↔ Dropped options 0 raw place item) ∧
      List.Forall₂ (fun e x => Fault options (raw.pathTo options x.1) x.1.length x.2 e)
        u.diagnostics.toList replaced) ∧
    (¬ WellFormed options 0 raw →
      ∃ e, Fault options [] 0 raw e ∧ decode options raw = .error e) := by
  rcases RecordTree.ofJson_recovering options raw with
    ⟨e, herror, hfault⟩ | ⟨tree, errors, dropped, hok, hraw, hreports⟩
  · rw [Options.recovering_eq hrecover] at herror
    exact ⟨fun hwf => absurd hwf hfault.not_wellFormed,
      fun _ => ⟨e, hfault, decode_eq_error_iff.mpr herror⟩⟩
  · have hmask := RecordTree.ofJson_mask hok
    rw [Options.recovering_eq hrecover] at hok
    refine ⟨fun _ => ⟨tree.unit options.target errors, tree.unit options.target [], dropped,
      decode_eq_ok_iff.mpr ⟨tree, errors, hok, rfl⟩, decode_eq_ok_iff.mpr ⟨tree, [], hmask, rfl⟩,
      rfl, rfl, rfl, hreports.sorted, ?_, hreports.mem_iff_dropped, ?_⟩, fun h => absurd hraw h⟩
    · intro place item
      rw [hreports.mem_iff_dropped, dropped_iff_placeholder (Nat.zero_add _) hraw]
      rfl
    · refine hreports.faults.imp fun e x hfault => ?_
      rwa [Nat.zero_add] at hfault

/-- Of three items, one lacks its kind and one is no object. -/
theorem decode_recovering_two_dropped :
    let options : Options := { Options.default with recoverMalformed := true }
    let raw : Json := .branch "0x1" "CompoundStmt" [
      .obj [("id", .str "0x2")], .leaf "0x3" "NullStmt", .int 4]
    options.recoverMalformed = true ∧ WellFormed options 0 raw ∧ ∃ u v,
      decode options raw = .ok u ∧
      decode { options with recoverMalformed := false } (mask options raw) = .ok v ∧
      u.tree = v.tree ∧ u.registry = v.registry ∧ u.diagnostics.size = 2 := by
  intro options raw
  have hwf : WellFormed options 0 raw := ⟨Nat.zero_le _, _, rfl, rfl, rfl, rfl⟩
  obtain ⟨u, v, -, hu, hv, htree, hregistry, -⟩ := (decode_recovering options raw rfl).1 hwf
  have hsize : (decode options raw).map (·.diagnostics.size) = .ok 2 := rfl
  rw [hu] at hsize
  exact ⟨rfl, hwf, u, v, hu, hv, htree, hregistry, Except.ok.inj hsize⟩

end AstDump
