import AstDump.Proofs.Walk

/-!
# Where the nodes come from

A node is made when the walk enters a value. Which value that is can be told from the dump alone:
the values that are kept, in document order, are the values that the nodes are made from, one after
the other.

* `Walk.Reachable`       : the states that the walk over a dump comes to;
* `MadeFrom`             : the walk makes its node at a position from a value;
* `Walk.step_cases`      : what a step can do;
* `Json.kept`            : the values that are kept, in document order;
* `Walk.Reachable.inOrder` : at every state the values that are still to come are those of the
  items ahead;
* `madeFrom_iff`         : the node at a position is made from the kept value at this position.
-/

namespace AstDump

/-! ## States of the walk -/

/-- The walk over a dump comes to this state. -/
inductive Walk.Reachable (options : Options) (raw : Json) : Walk → Prop
  | enter {frame : Frame} {w : Walk}
      (enters : (start options).enter options raw none 0 (start options).mark = (.ok frame, w)) :
      Reachable options raw { w with stack := [frame] }
  | step {w w' : Walk} (reached : Reachable options raw w) (steps : w.step options = .ok w') :
      Reachable options raw w'

/-- The walk over a dump makes its node at a position from a value: the first from the dump itself,
any other in a step that takes the value off the frame on top and has one node more. -/
inductive MadeFrom (options : Options) (raw : Json) : Nat → Json → Prop
  | root {frame : Frame} {w : Walk}
      (enters : (Walk.start options).enter options raw none 0 (Walk.start options).mark =
        (.ok frame, w)) : MadeFrom options raw 0 raw
  | item {w w' : Walk} {top : Frame} {below : List Frame} {item : Json} {rest : List Json}
      (reached : w.Reachable options raw) (steps : w.step options = .ok w')
      (stack : w.stack = top :: below) (items : top.items = item :: rest)
      (grows : w'.tree.size = w.tree.size + 1) : MadeFrom options raw w.tree.size item

namespace Walk

variable {options : Options} {raw : Json} {w w' : Walk}

theorem size_finish (w : Walk) (top : Frame) (below : List Frame) :
    (w.finish top below).tree.size = w.tree.size := by
  simp [finish, Tree.modify, Tree.size]

theorem Bounded.finish (h : w.Bounded) (top : Frame) (below : List Frame) :
    (w.finish top below).Bounded := by
  have hsize := w.size_finish top below
  refine ⟨fun rawId i hi => ?_, ?_⟩
  · rw [hsize]
    exact h.indexed rawId i hi
  · rw [hsize]
    exact h.listed

/-- **What a step can do**: nothing when the walk is over, close the frame on top, pass over a
placeholder, drop a malformed item, or enter a record. -/
theorem step_cases (hbounded : w.Bounded) (h : w.step options = .ok w') :
    (w.stack = [] ∧ w' = w) ∨ ∃ top below, w.stack = top :: below ∧
      ((top.items = [] ∧ w' = w.finish top below) ∨
        ∃ item rest, top.items = item :: rest ∧
          ((item.IsPlaceholder ∧ w' = { w with stack := top.past rest :: below }) ∨
            (¬ item.IsPlaceholder ∧ ∃ e,
              Record.openAt options (w.path ++ [.item top.field top.position]) (top.depth + 1)
                item = .error e ∧
              w' = { w with stack := top.past rest :: below }.report e) ∨
            (¬ item.IsPlaceholder ∧ ∃ r items,
              Record.openAt options (w.path ++ [.item top.field top.position]) (top.depth + 1)
                item = .ok (r, items) ∧
              w' = w.opened options [.item top.field top.position, .node r.kind r.rawId]
                (some top.node) (top.depth + 1) r items (top.past rest :: below)))) := by
  cases hstack : w.stack with
  | nil =>
    rw [step, hstack] at h
    cases h
    exact .inl ⟨rfl, rfl⟩
  | cons top below =>
    refine .inr ⟨top, below, rfl, ?_⟩
    cases hitems : top.items with
    | nil =>
      rw [step_finish hstack hitems] at h
      cases h
      exact .inl ⟨rfl, rfl⟩
    | cons item rest =>
      refine .inr ⟨item, rest, rfl, ?_⟩
      by_cases hitem : item.IsPlaceholder
      · rw [step_placeholder hstack hitems hitem] at h
        cases h
        exact .inl ⟨hitem, rfl⟩
      cases hopen : Record.openAt options (w.path ++ [.item top.field top.position])
          (top.depth + 1) item with
      | ok entered =>
        rw [step_enter hstack hitems hitem hopen] at h
        cases h
        exact .inr (.inr ⟨hitem, entered.1, entered.2, rfl, rfl⟩)
      | error e =>
        cases hrecover : options.recoverMalformed with
        | false => rw [step_fail hrecover hstack hitems hitem hopen] at h; cases h
        | true =>
          rw [step_drop hbounded hrecover hstack hitems hitem hopen] at h
          cases h
          exact .inr (.inl ⟨hitem, e, rfl, rfl⟩)

/-- A dump that is entered is a record, and the first state has its node and its frame. -/
theorem enter_start_cases {frame : Frame}
    (h : (start options).enter options raw none 0 (start options).mark = (.ok frame, w)) :
    ∃ r items, Record.openAt options [] 0 raw = .ok (r, items) ∧
      { w with stack := [frame] } =
        (start options).opened options [.node r.kind r.rawId] none 0 r items [] := by
  cases hopen : Record.openAt options (start options).path 0 raw with
  | error e =>
    obtain ⟨steps, henter⟩ : ∃ steps, (start options).enter options raw none 0
      (start options).mark = (.error e, _) := enter_of_error hopen
    rw [henter] at h
    cases h
  | ok entered =>
    rw [enter_of_ok hopen] at h
    cases h
    exact ⟨entered.1, entered.2, hopen, rfl⟩

end Walk

/-! ## The values that are kept -/

namespace Json

/-- What `below` gives for the items of a list, one after the other; placeholders are passed
over. -/
def keptItems (below : Json → List Json) (items : List Json) : List Json :=
  (items.filter fun v => ¬ v.IsPlaceholder).flatMap below

/-- The values down to so many levels that are kept, in document order. A value that is no record is
passed over with all that is in it. -/
def kept (options : Options) : (levels : Nat) → Json → List Json
  | 0, _ => []
  | levels + 1, v =>
    match Record.openAt options [] (options.maxDepth - levels) v with
    | .error _ => []
    | .ok (_, items) => v :: keptItems (kept options levels) items

variable {options : Options} {below : Json → List Json} {item v : Json} {rest : List Json}

theorem keptItems_placeholder (h : item.IsPlaceholder) :
    keptItems below (item :: rest) = keptItems below rest := by
  simp [keptItems, h]

theorem keptItems_held (h : ¬ item.IsPlaceholder) :
    keptItems below (item :: rest) = below item ++ keptItems below rest := by
  simp [keptItems, h]

theorem kept_of_ok {path : Path} {depth levels : Nat} {r : Record} {items : List Json}
    (h : Record.openAt options path depth v = .ok (r, items))
    (hdepth : depth + levels = options.maxDepth) :
    v.kept options (levels + 1) = v :: keptItems (kept options levels) items := by
  have heq : options.maxDepth - levels = depth := by omega
  have hopen : Record.openAt options [] depth v = .ok (r, items) :=
    Record.openAt_eq_ok_iff.mpr (Record.openAt_eq_ok_iff.mp h)
  rw [kept, heq, hopen]

theorem kept_of_error {path : Path} {depth levels : Nat} {e : DecodeError}
    (h : Record.openAt options path depth v = .error e)
    (hdepth : depth + levels = options.maxDepth + 1) : v.kept options levels = [] := by
  cases levels with
  | zero => rfl
  | succ levels =>
    have heq : options.maxDepth - levels = depth := by omega
    rw [kept, heq]
    cases hopen : Record.openAt options [] depth v with
    | error e' => rfl
    | ok entered =>
      have hok : Record.openAt options path depth v = .ok entered :=
        Record.openAt_eq_ok_iff.mpr (Record.openAt_eq_ok_iff.mp hopen)
      rw [h] at hok
      cases hok

end Json

/-- What is kept of the items that a frame has ahead. -/
def Frame.ahead (options : Options) (f : Frame) : List Json :=
  Json.keptItems (Json.kept options (options.maxDepth - f.depth)) f.items

namespace Walk

variable {options : Options} {raw : Json} {w w' : Walk}

/-- The kept values of the dump are as many as there are nodes, and then those of the items ahead,
frame by frame. No frame lies deeper than the limit. -/
structure InOrder (options : Options) (raw : Json) (w : Walk) : Prop where
  bounded : w.Bounded
  shallow : ∀ f ∈ w.stack, f.depth ≤ options.maxDepth
  split : ∃ made, raw.kept options (options.maxDepth + 1) =
    made ++ w.stack.flatMap (Frame.ahead options) ∧ made.length = w.tree.size

theorem InOrder.start {r : Record} {items : List Json}
    (hopen : Record.openAt options [] 0 raw = .ok (r, items)) :
    InOrder options raw ((start options).opened options [.node r.kind r.rawId] none 0 r items
      []) where
  bounded := (Bounded.start options).opened _ _ _ _ _ _
  shallow f hf := by
    cases List.mem_singleton.mp hf
    exact Nat.zero_le _
  split := by
    refine ⟨[raw], ?_, rfl⟩
    rw [Json.kept_of_ok hopen (Nat.zero_add _)]
    simp [opened, Frame.ahead, Record.frame]

/-- The next item of a frame is passed over or dropped: nothing is kept of it. -/
theorem InOrder.past {top : Frame} {below : List Frame} {rest : List Json}
    (h : InOrder options raw w) (hstack : w.stack = top :: below)
    (hnone : top.ahead options = (top.past rest).ahead options) (hbounded : w'.Bounded)
    (hstack' : w'.stack = top.past rest :: below) (hsize : w'.tree.size = w.tree.size) :
    InOrder options raw w' := by
  obtain ⟨-, hshallow, made, hmade, hlength⟩ := h
  rw [hstack] at hshallow hmade
  refine ⟨hbounded, ?_, made, ?_, by rw [hlength, hsize]⟩
  · rw [hstack']
    intro f hf
    rcases List.mem_cons.mp hf with rfl | hf
    · exact hshallow top List.mem_cons_self
    · exact hshallow f (List.mem_cons_of_mem _ hf)
  · rw [hmade, hstack', List.flatMap_cons, List.flatMap_cons, hnone]

theorem InOrder.finish {top : Frame} {below : List Frame} (h : InOrder options raw w)
    (hstack : w.stack = top :: below) (hitems : top.items = []) :
    InOrder options raw (w.finish top below) := by
  obtain ⟨hbounded, hshallow, made, hmade, hlength⟩ := h
  have hnone : top.ahead options = [] := by simp [Frame.ahead, hitems, Json.keptItems]
  rw [hstack] at hshallow hmade
  rw [List.flatMap_cons, hnone, List.nil_append] at hmade
  refine ⟨hbounded.finish top below, ?_, made, ?_, by rw [hlength, size_finish]⟩
  · cases below with
    | nil => intro f hf; cases hf
    | cons parent below =>
      intro f hf
      rcases List.mem_cons.mp hf with rfl | hf
      · exact hshallow parent (by simp)
      · exact hshallow f (by simp [hf])
  · rw [hmade]
    cases below <;> rfl

/-- The next item of a frame is entered: it comes first of what was ahead. -/
theorem InOrder.opened {top : Frame} {below : List Frame} {item : Json} {rest : List Json}
    {path : Path} {r : Record} {items : List Json} (h : InOrder options raw w)
    (hstack : w.stack = top :: below) (hitems : top.items = item :: rest)
    (hitem : ¬ item.IsPlaceholder)
    (hopen : Record.openAt options path (top.depth + 1) item = .ok (r, items)) (steps : Path)
    (p : Option NodeId) :
    (raw.kept options (options.maxDepth + 1))[w.tree.size]? = some item ∧
      InOrder options raw
        (w.opened options steps p (top.depth + 1) r items (top.past rest :: below)) := by
  obtain ⟨hbounded, hshallow, made, hmade, hlength⟩ := h
  rw [hstack] at hshallow hmade
  have hwithin : top.depth + 1 ≤ options.maxDepth := (Record.openAt_eq_ok_iff.mp hopen).1
  have hlevels : options.maxDepth - top.depth = options.maxDepth - (top.depth + 1) + 1 := by omega
  have hahead : top.ahead options =
      item :: ((r.frame options items w.tree.size (top.depth + 1) w.mark).ahead options ++
        (top.past rest).ahead options) := by
    rw [Frame.ahead, hitems, Json.keptItems_held hitem, hlevels,
      Json.kept_of_ok hopen (by omega), ← hlevels]
    rfl
  rw [List.flatMap_cons, hahead, List.cons_append] at hmade
  refine ⟨by rw [hmade, ← hlength]; simp, hbounded.opened _ _ _ _ _ _, ?_, made ++ [item], ?_, ?_⟩
  · intro f hf
    rcases List.mem_cons.mp hf with rfl | hf
    · exact hwithin
    rcases List.mem_cons.mp hf with rfl | hf
    · exact hshallow top List.mem_cons_self
    · exact hshallow f (List.mem_cons_of_mem _ hf)
  · rw [hmade]
    simp [Walk.opened]
  · rw [size_opened, List.length_append, hlength]
    rfl

/-- **A step keeps the order**, and a step that makes a node makes it from the kept value at its
position. -/
theorem InOrder.step (h : InOrder options raw w) (hstep : w.step options = .ok w') :
    InOrder options raw w' ∧ (w'.tree.size = w.tree.size ∨ w'.tree.size = w.tree.size + 1 ∧
      ∃ top below item rest, w.stack = top :: below ∧ top.items = item :: rest ∧
        (raw.kept options (options.maxDepth + 1))[w.tree.size]? = some item) := by
  rcases step_cases h.bounded hstep with ⟨-, rfl⟩ | ⟨top, below, hstack, ⟨hitems, rfl⟩ |
    ⟨item, rest, hitems, ⟨hitem, rfl⟩ | ⟨hitem, e, hopen, rfl⟩ | ⟨hitem, r, items, hopen, rfl⟩⟩⟩
  · exact ⟨h, .inl rfl⟩
  · exact ⟨h.finish hstack hitems, .inl (size_finish w top below)⟩
  · have hnone : top.ahead options = (top.past rest).ahead options := by
      rw [Frame.ahead, hitems, Json.keptItems_placeholder hitem]
      rfl
    exact ⟨h.past hstack hnone ⟨h.bounded.indexed, h.bounded.listed⟩ rfl rfl, .inl rfl⟩
  · have hnone : top.ahead options = (top.past rest).ahead options := by
      have hwithin : top.depth ≤ options.maxDepth := h.shallow top (by simp [hstack])
      rw [Frame.ahead, hitems, Json.keptItems_held hitem, Json.kept_of_error hopen (by omega)]
      rfl
    exact ⟨h.past hstack hnone ⟨h.bounded.indexed, h.bounded.listed⟩ rfl rfl, .inl rfl⟩
  · obtain ⟨hat, hordered⟩ := h.opened hstack hitems hitem hopen
      [.item top.field top.position, .node r.kind r.rawId] (some top.node)
    exact ⟨hordered, .inr ⟨size_opened, top, below, item, rest, hstack, hitems, hat⟩⟩

/-- **At every state of a walk** the kept values are those of the nodes, then those ahead. -/
theorem Reachable.inOrder (h : w.Reachable options raw) : InOrder options raw w := by
  induction h with
  | enter enters =>
    obtain ⟨r, items, hopen, hstate⟩ := enter_start_cases enters
    rw [hstate]
    exact .start hopen
  | step _ hstep ih => exact (ih.step hstep).1

/-- A run makes the nodes that it ends with and did not start with. -/
theorem exists_madeFrom_of_run {n : Nat} : ∀ {w w' : Walk}, w.Reachable options raw →
    w.run options n = .ok w' → ∀ i, w.tree.size ≤ i → i < w'.tree.size →
      ∃ v, MadeFrom options raw i v := by
  induction n with
  | zero =>
    intro w w' _ hrun i hle hlt
    cases hrun
    omega
  | succ n ih =>
    intro w w' hreached hrun i hle hlt
    rw [run] at hrun
    split at hrun
    · cases hrun
      omega
    cases hstep : w.step options with
    | error e => rw [hstep] at hrun; cases hrun
    | ok next =>
      rw [hstep] at hrun
      have hnext := ih (.step hreached hstep) hrun i
      rcases (hreached.inOrder.step hstep).2 with
        hsame | ⟨hgrows, top, below, item, rest, hstack, hitems, -⟩
      · exact hnext (by omega) hlt
      · by_cases hi : i = w.tree.size
        · subst hi
          exact ⟨item, .item hreached hstep hstack hitems hgrows⟩
        · exact hnext (by omega) hlt

end Walk

section MadeFrom

variable {options : Options} {raw : Json}

/-- A node is made from the kept value at its position. -/
theorem MadeFrom.kept {i : Nat} {v : Json} (h : MadeFrom options raw i v) :
    (raw.kept options (options.maxDepth + 1))[i]? = some v := by
  cases h with
  | root enters =>
    obtain ⟨r, items, hopen, -⟩ := Walk.enter_start_cases enters
    rw [Json.kept_of_ok hopen (Nat.zero_add _)]
    rfl
  | item reached steps stack items grows =>
    rcases (reached.inOrder.step steps).2 with hsame | ⟨-, top, below, item, rest, hs, hi, hat⟩
    · omega
    · rw [stack] at hs
      cases hs
      rw [items] at hi
      cases hi
      exact hat

/-- Every node of a decoded unit is made from a value. -/
theorem exists_madeFrom {u : TranslationUnit} (h : decode options raw = .ok u) {i : Nat}
    (hi : i < u.tree.size) : ∃ v, MadeFrom options raw i v := by
  unfold decode at h
  dsimp only at h
  split at h
  · cases h
  · rename_i frame w henter
    obtain ⟨r, items, -, hstate⟩ := Walk.enter_start_cases henter
    cases hrun : Walk.run options (2 * raw.size) { w with stack := [frame] } with
    | error e => rw [hrun] at h; cases h
    | ok last =>
      rw [hrun] at h
      cases h
      by_cases hzero : i = 0
      · subst hzero
        exact ⟨raw, .root henter⟩
      · have hsize : ({ w with stack := [frame] } : Walk).tree.size = 1 := by
          rw [hstate]
          rfl
        exact Walk.exists_madeFrom_of_run (.enter henter) hrun i (by omega) hi

/-- **The node at a position is made from the kept value at this position**, and from no other. -/
theorem madeFrom_iff {u : TranslationUnit} (h : decode options raw = .ok u) {i : Nat}
    (hi : i < u.tree.size) {v : Json} :
    MadeFrom options raw i v ↔ (raw.kept options (options.maxDepth + 1))[i]? = some v := by
  refine ⟨MadeFrom.kept, fun hv => ?_⟩
  obtain ⟨made, hmade⟩ := exists_madeFrom h hi
  have hat := hmade.kept
  rw [hv] at hat
  cases hat
  exact hmade

end MadeFrom

end AstDump
