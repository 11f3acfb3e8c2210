import AstDump.Proofs.Origin

/-!
# Back from any number of nodes

Whatever was allocated after a mark is gone when the walk is back at the mark. The nodes are cut off
and the index is filtered; an id that was there before kept its first node, so the filter takes away
no more than the new ids. The lists of the registry are popped from their ends, where the new
entries are.

* `Tree.truncate_push`, `Registry.rollback_record` : a node from the mark on leaves nothing behind;
* `Walk.restore_allocateAll`  : nor does any sequence of nodes;
* `Walk.Framed`               : every frame is of a node that is there;
* `Walk.Reachable.framed`     : so it is at every state of a walk;
* `recovery_restores`         : back from further nodes, and back from an item that is dropped.
-/

namespace AstDump

/-! ## One node -/

namespace Registry

theorem popWhile_push {ids : Array NodeId} {mark i : Nat} (h : mark ≤ i) :
    (ids.push i).popWhile (mark ≤ ·) = ids.popWhile (mark ≤ ·) := by
  have hlast : (#[i] : Array NodeId).popWhile (mark ≤ ·) = #[] := by
    rw [List.popWhile_toArray]
    simp [h]
  rw [← Array.append_singleton, Array.popWhile_append, hlast]
  rfl

/-- What is recorded of a node from the mark on is taken back. -/
theorem rollback_record {mark i : Nat} (h : mark ≤ i) (r : Registry) (kind : Kind) :
    (r.record kind i).rollback mark = r.rollback mark := by
  refine ext_entries fun k => ?_
  rw [entries_rollback, entries_rollback, entries_record]
  split
  · exact popWhile_push h
  · rfl

end Registry

/-- A node from the mark on is cut off, and the index forgets it. -/
theorem Tree.truncate_push {t : Tree} {mark : Nat} (h : mark ≤ t.size) (n : Node) :
    (t.push n).truncate mark = t.truncate mark := by
  have hindex : ((t.push n).truncate mark).index = (t.truncate mark).index := by
    refine Std.ExtTreeMap.ext_getElem? fun rawId => ?_
    show ((t.push n).truncate mark).find? rawId = (t.truncate mark).find? rawId
    rw [find?_truncate, find?_truncate, find?_push]
    cases t.find? rawId with
    | some i => rfl
    | none =>
      -- the id is new, and its node lies past the mark
      rw [Option.none_or]
      split
      · simp [h]
      · rfl
  have hnodes : (t.nodes.push n).take mark = t.nodes.take mark := by
    have hwithin : mark ≤ t.nodes.size := h
    rw [Array.take_eq_extract, Array.take_eq_extract, Array.extract_push, if_pos hwithin]
  exact (Tree.mk.injEq ..).mpr ⟨hindex, hnodes, rfl⟩

namespace Walk

variable {options : Options} {raw : Json} {w w' : Walk} {mark : Mark}

theorem restore_allocate (h : mark.nodes ≤ w.tree.size) (n : Node) :
    (w.allocate n).restore mark = w.restore mark := by
  unfold restore allocate
  rw [Tree.truncate_push h, Registry.rollback_record h]

/-- **Nothing is left of nodes that were allocated from the mark on**, however many and of whatever
ids and kinds. -/
theorem restore_allocateAll (ns : List Node) :
    ∀ {w : Walk}, mark.nodes ≤ w.tree.size →
      (w.allocateAll ns).restore mark = w.restore mark := by
  induction ns with
  | nil => intro w _; rfl
  | cons n ns ih =>
    intro w h
    have hmark : mark.nodes ≤ (w.allocate n).tree.size := by
      rw [size_allocate]
      omega
    exact (ih hmark).trans (restore_allocate h n)

theorem Bounded.restore_allocateAll (h : w.Bounded) (ns : List Node) :
    (w.allocateAll ns).restore w.mark = w := by
  have hback := h.restore_extend []
  rw [List.append_nil] at hback
  exact (Walk.restore_allocateAll ns (Nat.le_refl _)).trans hback

/-! ## Frames -/

/-- Every frame is of a node that is there. -/
def Framed (w : Walk) : Prop := ∀ f ∈ w.stack, f.node < w.tree.size

theorem Framed.past {top : Frame} {below : List Frame} {rest : List Json} (h : w.Framed)
    (hstack : w.stack = top :: below) : ∀ f ∈ top.past rest :: below, f.node < w.tree.size := by
  unfold Framed at h
  rw [hstack] at h
  intro f hf
  rcases List.mem_cons.mp hf with rfl | hf
  · exact h top List.mem_cons_self
  · exact h f (List.mem_cons_of_mem _ hf)

theorem Framed.finish {top : Frame} {below : List Frame} (h : w.Framed)
    (hstack : w.stack = top :: below) : (w.finish top below).Framed := by
  unfold Framed at h
  rw [hstack] at h
  intro f hf
  rw [size_finish]
  cases below with
  | nil => cases hf
  | cons parent below =>
    rcases List.mem_cons.mp hf with rfl | hf
    · exact h parent (by simp)
    · exact h f (by simp [hf])

/-- **A step keeps the frames within the tree.** -/
theorem Framed.step (hbounded : w.Bounded) (h : w.Framed) (hstep : w.step options = .ok w') :
    w'.Framed := by
  rcases step_cases hbounded hstep with ⟨-, rfl⟩ | ⟨top, below, hstack, ⟨-, rfl⟩ |
    ⟨item, rest, -, ⟨-, rfl⟩ | ⟨-, e, -, rfl⟩ | ⟨-, r, items, -, rfl⟩⟩⟩
  · exact h
  · exact h.finish hstack
  · exact h.past hstack
  · exact h.past hstack
  · intro f hf
    rw [size_opened]
    rcases List.mem_cons.mp hf with rfl | hf
    · exact Nat.lt_succ_self _
    · exact Nat.lt_succ_of_lt (h.past hstack f hf)

/-- **At every state of a walk** the frames are of nodes that are there. -/
theorem Reachable.framed (h : w.Reachable options raw) : w.Framed := by
  induction h with
  | enter enters =>
    obtain ⟨r, items, -, hstate⟩ := enter_start_cases enters
    rw [hstate]
    intro f hf
    cases List.mem_singleton.mp hf
    exact Nat.zero_lt_one
  | step hreached hstep ih => exact ih.step hreached.inOrder.bounded hstep

/-! ## Items that are not entered -/

/-- Where entering a value has failed, the path may have become longer, and nothing else. -/
theorem enter_error_cases {parent : Option NodeId} {depth : Nat} {outside : Mark} {e : DecodeError}
    {tried : Walk} (h : w.enter options raw parent depth outside = (.error e, tried)) :
    ∃ steps, tried = { w with path := w.path ++ steps } := by
  cases hopen : Record.openAt options w.path depth raw with
  | ok entered =>
    rw [enter_of_ok hopen] at h
    cases h
  | error e' =>
    obtain ⟨steps, henter⟩ : ∃ steps, w.enter options raw parent depth outside =
      (.error e', { w with path := w.path ++ steps }) := enter_of_error hopen
    rw [henter] at h
    cases h
    exact ⟨steps, rfl⟩

/-- What a step does with an item that is not entered. -/
theorem step_of_enter_error {top : Frame} {below : List Frame} {item : Json} {rest : List Json}
    {e : DecodeError} {tried : Walk} (hstack : w.stack = top :: below)
    (hitems : top.items = item :: rest) (hitem : ¬ item.IsPlaceholder)
    (henter : enter options (descend { w with stack := top.past rest :: below }
      (.item top.field top.position)) item (some top.node) (top.depth + 1) w.mark =
        (.error e, tried)) :
    w.step options = if options.recoverMalformed then .ok ((tried.restore w.mark).report e)
      else .error e := by
  have hmark : mark { w with stack := top.past rest :: below } = w.mark := rfl
  rw [step_item hstack hitems hitem]
  unfold tryItem
  simp only [hmark, henter]

/-- Back at the mark, all that an item that is not entered leaves behind is a frame past it. -/
theorem Bounded.restore_tried {top : Frame} {stack : List Frame} {item : Json}
    {e : DecodeError} {tried : Walk} (h : w.Bounded)
    (henter : enter options (descend { w with stack } (.item top.field top.position)) item
      (some top.node) (top.depth + 1) w.mark = (.error e, tried)) :
    tried.restore w.mark = { w with stack } := by
  obtain ⟨steps, htried⟩ := enter_error_cases henter
  have hbounded : Bounded { w with stack } := ⟨h.indexed, h.listed⟩
  have hback := hbounded.restore_extend (.item top.field top.position :: steps)
  rw [List.append_cons] at hback
  rw [htried]
  exact hback

end Walk

/-- **Recovery gives back what was there.** At every state of the walk over a dump: nodes that are
allocated from here on, of whatever ids and kinds, are gone without a trace when the tree is cut at
its present size and the registry rolled back to it. And when the next item is not entered, what
goes on after it has the tree with its index, the registry and the path of this state, and only
frames of nodes that are there. -/
theorem recovery_restores {options : Options} {raw : Json} {w : Walk}
    (h : w = Walk.start options ∨ w.Reachable options raw) :
    (∀ ns : List Node, (w.allocateAll ns).tree.truncate w.tree.size = w.tree ∧
      (w.allocateAll ns).registry.rollback w.tree.size = w.registry) ∧
    ∀ top below item rest e tried, w.stack = top :: below → top.items = item :: rest →
      ¬ item.IsPlaceholder →
      Walk.enter options (Walk.descend { w with stack := top.past rest :: below }
        (.item top.field top.position)) item (some top.node) (top.depth + 1) w.mark =
          (.error e, tried) →
      options.recoverMalformed = true →
      ∃ w', w.step options = .ok w' ∧ w' = (tried.restore w.mark).report e ∧
        w'.tree = w.tree ∧ w'.registry = w.registry ∧ w'.path = w.path ∧
        w'.stack = top.past rest :: below ∧ ∀ f ∈ w'.stack, f.node < w'.tree.size := by
  have hbounded : w.Bounded := by
    rcases h with rfl | h
    · exact .start options
    · exact h.inOrder.bounded
  have hframed : w.Framed := by
    rcases h with rfl | h
    · intro f hf
      cases hf
    · exact h.framed
  refine ⟨fun ns => ?_, fun top below item rest e tried hstack hitems hitem henter hrecover => ?_⟩
  · have hback := hbounded.restore_allocateAll ns
    exact ⟨congrArg Walk.tree hback, congrArg Walk.registry hback⟩
  · have hstep := Walk.step_of_enter_error hstack hitems hitem henter
    have hback := hbounded.restore_tried henter
    rw [if_pos hrecover] at hstep
    refine ⟨_, hstep, rfl, ?_⟩
    rw [hback]
    exact ⟨rfl, rfl, rfl, rfl, hframed.past hstack⟩

/-- A record with the id of its parent is not entered: what it has for children is a number. Another
node of this id is allocated and taken back. -/
theorem recovery_restores_same_id :
    let options : Options := { Options.default with recoverMalformed := true }
    let item : Json := .obj [("id", .str "0x1"), ("inner", .int 7), ("kind", .str "ForStmt")]
    let raw : Json := .branch "0x1" "ForStmt" [item]
    let again : Node := ⟨"0x1", .forStmt, [], none, some 0, 1, .plain⟩
    ∃ w w' : Walk, w.Reachable options raw ∧ w.tree.size = 1 ∧
      (w.allocateAll [again]).registry.forLoops = #[0, 1] ∧
      (w.allocateAll [again]).tree.truncate 1 = w.tree ∧
      (w.allocateAll [again]).registry.rollback 1 = w.registry ∧
      w.step options = .ok w' ∧ w'.diagnostics.size = 1 ∧ w'.tree = w.tree ∧
      w'.registry = w.registry ∧ w'.path = w.path := by
  intro options item raw again
  have hreached : Walk.Reachable options raw _ := .enter rfl
  obtain ⟨hnodes, hitems⟩ := recovery_restores (.inr hreached)
  obtain ⟨w', hstep, hw', htree, hregistry, hpath, -⟩ := hitems _ [] item [] _ _ rfl rfl
    (by decide) rfl rfl
  refine ⟨_, w', hreached, rfl, rfl, (hnodes [again]).1, (hnodes [again]).2, hstep, ?_, htree,
    hregistry, hpath⟩
  rw [hw']
  rfl

end AstDump
