import AstDump.Proofs.Growth
import AstDump.Proofs.Marks
import AstDump.Proofs.Records

/-!
# The steps of a walk

What one step does to the frame on top, case by case, and how runs are put together.

* `Walk.step_placeholder`, `Walk.step_enter`, `Walk.step_drop`, `Walk.step_fail` : an item that is
  passed over, entered, dropped, or fatal;
* `Walk.step_finish` : a frame without items is closed;
* `Walk.Leads`       : what a run comes to after a bounded number of steps;
* `Walk.after`       : the walk when a forest is decoded, and `Walk.after_after`: one forest after
  another.
-/

namespace AstDump

/-- The node of a record, without children and view. -/
def Record.bareNode (options : Options) (r : Record) (parent : Option NodeId) (depth : Nat) :
    Node where
  rawId := r.rawId
  kind := r.kind
  attrs := r.attrs options
  children := none
  parent := parent
  depth := depth
  view := .plain

/-- The frame of a record, none of whose items is done. -/
def Record.frame (options : Options) (r : Record) (items : List Json) (node : NodeId) (depth : Nat)
    (outside : Mark) : Frame where
  node := node
  depth := depth
  field := r.childrenField options
  items := items
  position := 0
  children := if items.isEmpty then none else some #[]
  outside := outside

/-- The frame past its first item. -/
def Frame.past (f : Frame) (rest : List Json) : Frame :=
  { f with items := rest, position := f.position + 1 }

namespace Walk

variable {options : Options} {w : Walk} {top : Frame} {below : List Frame} {item : Json}
  {rest : List Json}

/-! ## Entering a value -/

theorem enter_of_ok {raw : Json} {parent : Option NodeId} {depth : Nat} {outside : Mark}
    {r : Record} {items : List Json} (h : Record.openAt options w.path depth raw = .ok (r, items)) :
    w.enter options raw parent depth outside =
      (.ok (r.frame options items w.tree.size depth outside),
        (w.descend (.node r.kind r.rawId)).allocate (r.bareNode options parent depth)) := by
  obtain ⟨hread, hitems⟩ := Record.openAt_ok_cases h
  unfold enter
  rw [hread]
  simp only [hitems]
  rfl

/-- A value that is not entered leaves no more than a longer path. -/
theorem enter_of_error {raw : Json} {parent : Option NodeId} {depth : Nat} {outside : Mark}
    {e : DecodeError} (h : Record.openAt options w.path depth raw = .error e) :
    ∃ steps, w.enter options raw parent depth outside =
      (.error e, { w with path := w.path ++ steps }) := by
  unfold enter
  rcases Record.openAt_error_cases h with hread | ⟨r, hread, hitems, rfl⟩
  · rw [hread]
    exact ⟨[], by simp⟩
  · rw [hread]
    simp only [hitems]
    exact ⟨[.node r.kind r.rawId], rfl⟩

/-! ## One step -/

/-- The walk that has entered a record: the path goes further down, and the node and the frame of
the record are there. -/
def opened (options : Options) (w : Walk) (steps : Path) (parent : Option NodeId) (depth : Nat)
    (r : Record) (items : List Json) (below : List Frame) : Walk :=
  { ({ w with path := w.path ++ steps } : Walk).allocate (r.bareNode options parent depth) with
    stack := r.frame options items w.tree.size depth w.mark :: below }

theorem size_opened {steps : Path} {p : Option NodeId} {d : Nat} {r : Record} {items : List Json} :
    (w.opened options steps p d r items below).tree.size = w.tree.size + 1 :=
  size_allocate _ _

theorem Bounded.opened (h : w.Bounded) (steps : Path) (p : Option NodeId) (d : Nat) (r : Record)
    (items : List Json) (below : List Frame) :
    (w.opened options steps p d r items below).Bounded := by
  have hdown : ({ w with path := w.path ++ steps } : Walk).Bounded := ⟨h.indexed, h.listed⟩
  have hnode := hdown.allocate (r.bareNode options p d)
  exact ⟨hnode.indexed, hnode.listed⟩

theorem step_finish (hstack : w.stack = top :: below) (hitems : top.items = []) :
    w.step options = .ok (w.finish top below) := by
  unfold step
  rw [hstack]
  simp only [hitems]

theorem step_placeholder (hstack : w.stack = top :: below) (hitems : top.items = item :: rest)
    (hitem : item.IsPlaceholder) :
    w.step options = .ok { w with stack := top.past rest :: below } := by
  unfold step
  rw [hstack]
  simp only [hitems, if_pos hitem]
  rfl

theorem step_item (hstack : w.stack = top :: below) (hitems : top.items = item :: rest)
    (hitem : ¬ item.IsPlaceholder) :
    w.step options = { w with stack := top.past rest :: below }.tryItem options top item := by
  unfold step
  rw [hstack]
  simp only [hitems, if_neg hitem]
  rfl

theorem step_enter {r : Record} {items : List Json} (hstack : w.stack = top :: below)
    (hitems : top.items = item :: rest) (hitem : ¬ item.IsPlaceholder)
    (hopen : Record.openAt options (w.path ++ [.item top.field top.position]) (top.depth + 1) item =
      .ok (r, items)) :
    w.step options = .ok (w.opened options [.item top.field top.position, .node r.kind r.rawId]
      (some top.node) (top.depth + 1) r items (top.past rest :: below)) := by
  have henter : enter options (descend { w with stack := top.past rest :: below }
      (.item top.field top.position)) item (some top.node) (top.depth + 1) w.mark = _ :=
    enter_of_ok hopen
  rw [step_item hstack hitems hitem]
  unfold tryItem
  have hmark : mark { w with stack := top.past rest :: below } = w.mark := rfl
  simp only [hmark, henter]
  simp [opened, descend, allocate, mark]

/-- An item that is not entered fails the walk, or is reported after going back. -/
theorem tryItem_of_error {e : DecodeError}
    (hopen : Record.openAt options (w.path ++ [.item top.field top.position]) (top.depth + 1) item =
      .error e) :
    ∃ steps, w.tryItem options top item = if options.recoverMalformed
      then .ok (({ w with path := w.path ++ steps }.restore w.mark).report e) else .error e := by
  obtain ⟨steps, henter⟩ : ∃ steps, enter options (w.descend (.item top.field top.position)) item
      (some top.node) (top.depth + 1) w.mark = (.error e, _) := enter_of_error hopen
  refine ⟨[.item top.field top.position] ++ steps, ?_⟩
  unfold tryItem
  simp only [henter]
  rw [← List.append_assoc]
  rfl

theorem step_fail {e : DecodeError} (hstrict : options.recoverMalformed = false)
    (hstack : w.stack = top :: below) (hitems : top.items = item :: rest)
    (hitem : ¬ item.IsPlaceholder)
    (hopen : Record.openAt options (w.path ++ [.item top.field top.position]) (top.depth + 1) item =
      .error e) : w.step options = .error e := by
  obtain ⟨steps, htry⟩ : ∃ steps,
      tryItem options { w with stack := top.past rest :: below } top item = _ :=
    tryItem_of_error hopen
  rw [step_item hstack hitems hitem, htry, hstrict]
  rfl

/-- A dropped item leaves its error behind, and nothing else. -/
theorem step_drop {e : DecodeError} (hbounded : w.Bounded)
    (hrecover : options.recoverMalformed = true) (hstack : w.stack = top :: below)
    (hitems : top.items = item :: rest) (hitem : ¬ item.IsPlaceholder)
    (hopen : Record.openAt options (w.path ++ [.item top.field top.position]) (top.depth + 1) item =
      .error e) :
    w.step options = .ok ({ w with stack := top.past rest :: below }.report e) := by
  have hbounded' : Bounded { w with stack := top.past rest :: below } :=
    ⟨hbounded.indexed, hbounded.listed⟩
  obtain ⟨steps, htry⟩ : ∃ steps,
      tryItem options { w with stack := top.past rest :: below } top item = _ :=
    tryItem_of_error hopen
  rw [step_item hstack hitems hitem, htry, if_pos hrecover, hbounded'.restore_extend]

/-! ## Runs -/

/-- After at most so many steps from `w`, a run goes on from the walk of the result, or has failed
with its error. -/
def Leads (options : Options) (bound : Nat) (w : Walk) (result : Except DecodeError Walk) : Prop :=
  ∃ k ≤ bound, ∀ n, run options (k + n) w = result >>= run options n

namespace Leads

variable {result : Except DecodeError Walk} {a b : Nat}

theorem refl (w : Walk) : Leads options 0 w (.ok w) :=
  ⟨0, Nat.le_refl 0, fun n => by rw [Nat.zero_add]; rfl⟩

theorem mono (h : Leads options a w result) (hab : a ≤ b) : Leads options b w result := by
  obtain ⟨k, hk, hrun⟩ := h
  exact ⟨k, Nat.le_trans hk hab, hrun⟩

theorem trans {w' : Walk} (h : Leads options a w (.ok w')) (h' : Leads options b w' result) :
    Leads options (a + b) w result := by
  obtain ⟨k, hk, hrun⟩ := h
  obtain ⟨l, hl, hrun'⟩ := h'
  refine ⟨k + l, Nat.add_le_add hk hl, fun n => ?_⟩
  rw [Nat.add_assoc, hrun]
  exact hrun' n

theorem step {result : Except DecodeError Walk} (hstack : w.stack = top :: below)
    (h : w.step options = result) : Leads options 1 w result := by
  refine ⟨1, Nat.le_refl 1, fun n => ?_⟩
  rw [Nat.add_comm, run, hstack, h]
  cases result <;> rfl

end Leads

/-- A run that has steps enough comes to the result, if the walk is over then. -/
theorem Leads.run_eq {result : Except DecodeError Walk} {bound n : Nat}
    (h : Leads options bound w result) (hn : bound ≤ n)
    (hover : ∀ w', result = .ok w' → w'.stack = []) : run options n w = result := by
  obtain ⟨k, hk, hrun⟩ := h
  obtain ⟨rest, rfl⟩ := Nat.exists_eq_add_of_le (Nat.le_trans hk hn)
  rw [hrun]
  cases result with
  | error e => rfl
  | ok w' =>
    show run options rest w' = .ok w'
    cases rest with
    | zero => rfl
    | succ rest => rw [run, hover w' rfl]; rfl

/-! ## When a forest is decoded -/

/-- The walk with nodes more. -/
def allocateAll (w : Walk) (ns : List Node) : Walk := ns.foldl allocate w

/-- The walk when nodes and their views were added and errors were kept. -/
def after (w : Walk) (ns : List Node) (errors : List DecodeError) (stack : List Frame) : Walk where
  registry := (w.allocateAll ns).registry
  tree := (w.tree.pushAll ns).viewFrom w.tree.size
  diagnostics := w.diagnostics ++ errors.toArray
  path := w.path
  stack := stack

theorem tree_allocateAll (ns : List Node) :
    ∀ w : Walk, (w.allocateAll ns).tree = w.tree.pushAll ns := by
  induction ns with
  | nil => intro w; rfl
  | cons n ns ih => intro w; exact ih (w.allocate n)

theorem registry_allocateAll (ns : List Node) : ∀ w : Walk, (w.allocateAll ns).registry =
    (ns.zipIdx w.tree.size).foldl (fun r n => r.record n.1.kind n.2) w.registry := by
  induction ns with
  | nil => intro w; rfl
  | cons n ns ih =>
    intro w
    rw [show w.allocateAll (n :: ns) = (w.allocate n).allocateAll ns from rfl, ih, size_allocate]
    rfl

theorem Bounded.allocateAll (ns : List Node) :
    ∀ {w : Walk}, w.Bounded → (w.allocateAll ns).Bounded := by
  induction ns with
  | nil => intro w h; exact h
  | cons n ns ih => intro w h; exact ih (h.allocate n)

theorem size_after (w : Walk) (ns : List Node) (errors : List DecodeError) (stack : List Frame) :
    (w.after ns errors stack).tree.size = w.tree.size + ns.length := by
  rw [after, Tree.size_viewFrom, Tree.size_pushAll]

theorem Bounded.after (h : w.Bounded) (ns : List Node) (errors : List DecodeError)
    (stack : List Frame) : (w.after ns errors stack).Bounded := by
  have hall := h.allocateAll ns
  have hsize : (w.after ns errors stack).tree.size = (w.allocateAll ns).tree.size := by
    rw [size_after, tree_allocateAll, Tree.size_pushAll]
  constructor
  · intro rawId i hi
    rw [hsize]
    refine hall.indexed rawId i ?_
    rw [tree_allocateAll]
    exact hi
  · rw [hsize]
    exact hall.listed

/-- What a walk comes to depends on its nodes, its errors and its path alone. -/
theorem after_congr {w' : Walk} {errors errors' : List DecodeError} (ns : List Node)
    (stack : List Frame) (hregistry : w'.registry = w.registry) (htree : w'.tree = w.tree)
    (hpath : w'.path = w.path)
    (hdiagnostics : w'.diagnostics ++ errors'.toArray = w.diagnostics ++ errors.toArray) :
    w'.after ns errors' stack = w.after ns errors stack := by
  unfold after
  rw [registry_allocateAll, registry_allocateAll, hregistry, htree, hpath, hdiagnostics]

theorem after_nil (w : Walk) (stack : List Frame) : w.after [] [] stack = { w with stack } := by
  have htree : (w.tree.pushAll []).viewFrom w.tree.size = w.tree := w.tree.addForest_nil none 0
  rw [after, htree]
  simp [allocateAll]

/-- **One decoded forest after another is a decoded forest.** -/
theorem after_after (w : Walk) (p : Option NodeId) (d : Nat) (ss ts : List RecordTree)
    (errors errors' : List DecodeError) (stack stack' : List Frame) :
    (w.after (RecordTree.nodesAll p d w.tree.size ss) errors stack).after
        (RecordTree.nodesAll p d (w.tree.size + RecordTree.sizeAll ss) ts) errors' stack' =
      w.after (RecordTree.nodesAll p d w.tree.size (ss ++ ts)) (errors ++ errors') stack' := by
  obtain ⟨ms, hms⟩ : ∃ ms, ms = RecordTree.nodesAll p d w.tree.size ss := ⟨_, rfl⟩
  have hlen : ms.length = RecordTree.sizeAll ss := by rw [hms, RecordTree.length_nodesAll]
  have hsize : (w.after ms errors stack).tree.size = w.tree.size + RecordTree.sizeAll ss := by
    rw [size_after, hlen]
  have htree : (w.after ms errors stack).tree = w.tree.addForest p d ss := by rw [hms]; rfl
  rw [← hms]
  unfold after
  congr 1
  · show ((w.after ms errors stack).allocateAll _).registry = _
    rw [registry_allocateAll, registry_allocateAll, hsize, RecordTree.nodesAll_append, ← hms,
      List.zipIdx_append, List.foldl_append, hlen, Nat.add_comm]
    rw [show (w.after ms errors stack).registry = (w.allocateAll ms).registry from rfl,
      registry_allocateAll, Nat.add_comm]
  · show ((w.after ms errors stack).tree.pushAll _).viewFrom (w.after ms errors stack).tree.size =
      w.tree.addForest p d (ss ++ ts)
    rw [← hsize, htree]
    exact w.tree.addForest_append p d ss ts
  · simp

end Walk

end AstDump
