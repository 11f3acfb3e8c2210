import AstDump.Proofs.Recursion
import AstDump.Proofs.Steps

/-!
# The walk does what the recursion says

A walk over the items of a frame comes to the nodes of the trees that the recursion gives for these
items, one listing after the other, or fails with the error of the recursion. The induction is on
the levels that are left, and for each level on the items; the frames below the top are never
touched.

* `Walk.leads_items`         : the items of a frame;
* `decode_eq_recursion`      : the walk over a dump is the recursion over it, in either mode.
-/

namespace AstDump

/-! ## Sizes -/

theorem Members.size_get? {key : String} {v : Json} :
    ∀ {members : Members}, members.get? key = some v → v.size ≤ Json.sizeMembers members
  | [], h => by cases h
  | (k, u) :: rest, h => by
    rw [Members.get?] at h
    rw [Json.sizeMembers]
    split at h
    · cases h
      omega
    · have := size_get? h
      omega

/-- The items of a record are smaller than the record. -/
theorem Record.sizeItems_lt {options : Options} {path : Path} {depth : Nat} {raw : Json}
    {r : Record} {items : List Json} (h : openAt options path depth raw = .ok (r, items)) :
    Json.sizeItems items < raw.size := by
  obtain ⟨-, rfl, -, -, hitems⟩ := openAt_eq_ok_iff.mp h
  rw [Json.size]
  unfold Members.items? at hitems
  split at hitems
  · cases hitems
    simp [Json.sizeItems]
  · obtain ⟨v, hv, harr⟩ := Option.bind_eq_some_iff.mp hitems
    have hle := Members.size_get? hv
    cases v with
    | arr found =>
      cases harr
      rw [Json.size] at hle
      omega
    | _ => cases harr

/-- A frame all of whose items are done, with the tops of their trees as further children. -/
def Frame.done (f : Frame) (first : Nat) (trees : List RecordTree) : Frame :=
  { f with
    items := []
    position := f.position + f.items.length
    children := f.children.map (· ++ (RecordTree.tops first trees).toArray) }

theorem Frame.done_of_nil {f : Frame} (h : f.items = []) (first : Nat) : f.done first [] = f := by
  obtain ⟨node, depth, field, items, position, children, outside⟩ := f
  cases h
  cases children <;> simp [done, RecordTree.tops]

theorem Frame.done_past {f : Frame} {item : Json} {rest : List Json} (h : f.items = item :: rest)
    (first : Nat) (trees : List RecordTree) :
    (f.past rest).done first trees = f.done first trees := by
  unfold done past
  rw [h]
  simp [Nat.add_assoc, Nat.add_comm 1]

theorem Frame.done_addChild {f : Frame} {item : Json} {rest : List Json}
    (h : f.items = item :: rest) (first : Nat) (tree : RecordTree) (trees : List RecordTree) :
    ((f.past rest).addChild first).done (first + tree.size) trees =
      f.done first (tree :: trees) := by
  unfold done past addChild
  rw [h]
  cases f.children <;> simp [RecordTree.tops_cons, Nat.add_assoc, Nat.add_comm 1]

namespace Walk

variable {options : Options}

/-- The stack with one child more for the frame on top. -/
def addChild (i : NodeId) : List Frame → List Frame
  | [] => []
  | parent :: rest => parent.addChild i :: rest

/-- **A record whose items are all done is closed**: its tree is decoded, and is a child of the
frame below. -/
theorem finish_opened {w opn : Walk} {steps : Path} {p : Option NodeId} {d : Nat} {r : Record}
    {items : List Json} {below : List Frame} {trees : List RecordTree} {frame : Frame}
    (hopn : opn = w.opened options steps p d r items below)
    (hframe : frame = (r.frame options items w.tree.size d w.mark).done (w.tree.size + 1) trees)
    (hempty : items = [] → trees = []) (errors : List DecodeError) (stack : List Frame) :
    (opn.after (RecordTree.nodesAll (some w.tree.size) (d + 1) (w.tree.size + 1) trees) errors
        stack).finish frame below =
      w.after (RecordTree.nodesAll p d w.tree.size [RecordTree.ofRecord options r items trees])
        errors (addChild w.tree.size below) := by
  obtain ⟨tree, htree⟩ : ∃ tree, tree = RecordTree.ofRecord options r items trees := ⟨_, rfl⟩
  have hchildren : tree.children = trees := by
    rw [htree, RecordTree.children_ofRecord options r hempty]
  have hbare : r.bareNode options p d = { tree.top p d w.tree.size with children := none } := by
    rw [htree, RecordTree.top_ofRecord]
    rfl
  have hframeChildren : frame.children = (tree.top p d w.tree.size).children := by
    rw [hframe, htree, RecordTree.top_ofRecord]
    cases items <;> simp [Record.frame, Frame.done]
  have hnode : frame.node = w.tree.size := by rw [hframe]; rfl
  have hpath : opn.path.take frame.outside.path = w.path := by
    have houtside : frame.outside = w.mark := by rw [hframe]; rfl
    rw [houtside, hopn]
    simp [opened, allocate, mark]
  have hsize : opn.tree.size = w.tree.size + 1 := by rw [hopn, size_opened]
  unfold finish
  rw [hnode, hframeChildren, ← htree]
  unfold after
  dsimp only
  congr 1
  · rw [registry_allocateAll, registry_allocateAll, hsize, RecordTree.nodesAll_singleton,
      RecordTree.nodes_eq, hchildren, List.zipIdx_cons, List.foldl_cons]
    congr 1
    rw [hopn, htree]
    unfold RecordTree.ofRecord
    split <;> rfl
  · refine Tree.addForest_above w.tree p d tree ?_ rfl
    rw [hchildren, ← hbare, hsize, hopn, Tree.addForest, Tree.size_push]
    rfl
  · rw [hopn]
    rfl

/-! ## The items of a frame -/

/-- What a walk comes to when the items of its frame on top are done. -/
def itemsDone (options : Options) (levels : Nat) (w : Walk) (top : Frame) (below : List Frame) :
    Except DecodeError Walk :=
  (RecordTree.ofItems options.recoverMalformed (RecordTree.ofLevels options levels) w.path top.field
    top.position top.items).map fun found =>
      w.after (RecordTree.nodesAll (some top.node) (top.depth + 1) w.tree.size found.1) found.2
        (top.done w.tree.size found.1 :: below)

section ItemsDone

variable {levels : Nat} {item : Json} {rest : List Json} {w : Walk} {top : Frame}
  {below : List Frame}

theorem itemsDone_nil (hstack : w.stack = top :: below) (hitems : top.items = []) :
    itemsDone options levels w top below = .ok w := by
  have hframe := Frame.done_of_nil hitems w.tree.size
  rw [itemsDone, hitems, RecordTree.ofItems, Except.map]
  simp only [RecordTree.nodesAll]
  rw [hframe, after_nil, ← hstack]

theorem itemsDone_placeholder (hitems : top.items = item :: rest) (hitem : item.IsPlaceholder) :
    itemsDone options levels w top below =
      itemsDone options levels { w with stack := top.past rest :: below } (top.past rest)
        below := by
  unfold itemsDone
  rw [hitems, RecordTree.ofItems_placeholder hitem]
  congr 1
  funext found
  rw [Frame.done_past hitems]
  exact after_congr _ _ rfl rfl rfl rfl

theorem itemsDone_fail {e : DecodeError} (hstrict : options.recoverMalformed = false)
    (hitems : top.items = item :: rest) (hitem : ¬ item.IsPlaceholder)
    (hlevels : RecordTree.ofLevels options levels (w.path ++ [.item top.field top.position]) item =
      .error e) :
    itemsDone options levels w top below = .error e := by
  rw [itemsDone, hitems, RecordTree.ofItems_fail hstrict hitem hlevels]
  rfl

theorem itemsDone_drop {e : DecodeError} (hrecover : options.recoverMalformed = true)
    (hitems : top.items = item :: rest) (hitem : ¬ item.IsPlaceholder)
    (hlevels : RecordTree.ofLevels options levels (w.path ++ [.item top.field top.position]) item =
      .error e) :
    itemsDone options levels w top below = itemsDone options levels
      ({ w with stack := top.past rest :: below }.report e) (top.past rest) below := by
  unfold itemsDone
  rw [hitems, RecordTree.ofItems_drop hrecover hitem hlevels]
  show _ = Except.map _ (RecordTree.ofItems _ _ w.path top.field (top.position + 1) rest)
  cases RecordTree.ofItems options.recoverMalformed (RecordTree.ofLevels options levels) w.path
    top.field (top.position + 1) rest with
  | error e' => rfl
  | ok found =>
    simp only [Except.map]
    rw [Frame.done_past hitems]
    congr 1
    symm
    refine after_congr _ _ rfl rfl rfl ?_
    simp [report]

theorem itemsDone_tree {tree : RecordTree} {errors : List DecodeError}
    (hitems : top.items = item :: rest) (hitem : ¬ item.IsPlaceholder)
    (hlevels : RecordTree.ofLevels options levels (w.path ++ [.item top.field top.position]) item =
      .ok (tree, errors)) {next : Walk}
    (hnext : next = w.after (RecordTree.nodesAll (some top.node) (top.depth + 1) w.tree.size [tree])
      errors ((top.past rest).addChild w.tree.size :: below)) :
    itemsDone options levels w top below =
      itemsDone options levels next ((top.past rest).addChild w.tree.size) below := by
  have hpath : next.path = w.path := by rw [hnext]; rfl
  have hsize : next.tree.size = w.tree.size + tree.size := by
    rw [hnext, size_after, RecordTree.length_nodesAll]
    rfl
  unfold itemsDone
  rw [hitems, RecordTree.ofItems_tree hitem hlevels, hpath, hsize]
  show _ = Except.map _ (RecordTree.ofItems _ _ w.path top.field (top.position + 1) rest)
  cases RecordTree.ofItems options.recoverMalformed (RecordTree.ofLevels options levels) w.path
    top.field (top.position + 1) rest with
  | error e => rfl
  | ok found =>
    simp only [Except.map]
    rw [Frame.done_addChild hitems, hnext]
    congr 1
    exact (after_after w _ _ [tree] found.1 errors found.2 _ _).symm

end ItemsDone

/-- A walk comes through these items, at every frame that is so many levels above the limit. -/
def ItemsLead (options : Options) (levels : Nat) (items : List Json) : Prop :=
  ∀ (w : Walk) (top : Frame) (below : List Frame), w.Bounded → w.stack = top :: below →
    top.depth + levels = options.maxDepth → top.items = items →
    Leads options (2 * Json.sizeItems items) w (itemsDone options levels w top below)

section ItemsLead

variable {levels : Nat} {item : Json} {rest : List Json} {w : Walk} {top : Frame}
  {below : List Frame}

theorem leads_placeholder (hrest : ItemsLead options levels rest) (hbounded : w.Bounded)
    (hstack : w.stack = top :: below) (hdepth : top.depth + levels = options.maxDepth)
    (hitems : top.items = item :: rest) (hitem : item.IsPlaceholder) :
    Leads options (1 + 2 * Json.sizeItems rest) w (itemsDone options levels w top below) := by
  rw [itemsDone_placeholder hitems hitem]
  exact (Leads.step hstack (step_placeholder hstack hitems hitem)).trans
    (hrest _ _ _ ⟨hbounded.indexed, hbounded.listed⟩ rfl hdepth rfl)

theorem leads_malformed {e : DecodeError} (hrest : ItemsLead options levels rest)
    (hbounded : w.Bounded) (hstack : w.stack = top :: below)
    (hdepth : top.depth + levels = options.maxDepth) (hitems : top.items = item :: rest)
    (hitem : ¬ item.IsPlaceholder)
    (hopen : Record.openAt options (w.path ++ [.item top.field top.position]) (top.depth + 1) item =
      .error e) :
    Leads options (1 + 2 * Json.sizeItems rest) w (itemsDone options levels w top below) := by
  have hdown : top.depth + 1 + levels = options.maxDepth + 1 := by omega
  have hlevels := RecordTree.ofLevels_of_error hopen hdown
  cases hrecover : options.recoverMalformed with
  | false =>
    rw [itemsDone_fail hrecover hitems hitem hlevels]
    exact (Leads.step hstack (step_fail hrecover hstack hitems hitem hopen)).mono (by omega)
  | true =>
    rw [itemsDone_drop hrecover hitems hitem hlevels]
    exact (Leads.step hstack (step_drop hbounded hrecover hstack hitems hitem hopen)).trans
      (hrest _ _ _ ⟨hbounded.indexed, hbounded.listed⟩ rfl hdepth rfl)

/-- **A record that is entered**: the walk comes through its items by the levels below, and closes
it. -/
theorem leads_opened {steps : Path} {raw : Json} {d : Nat} {r : Record} {items : List Json}
    (hinner : ItemsLead options levels items) (hbounded : w.Bounded)
    (hdepth : d + levels = options.maxDepth)
    (hopen : Record.openAt options (w.path ++ steps) d raw = .ok (r, items)) (p : Option NodeId)
    (below : List Frame) :
    Leads options (2 * raw.size - 1)
      (w.opened options (steps ++ [.node r.kind r.rawId]) p d r items below)
      ((RecordTree.ofLevels options (levels + 1) (w.path ++ steps) raw).map fun found =>
        w.after (RecordTree.nodesAll p d w.tree.size [found.1]) found.2
          (addChild w.tree.size below)) := by
  obtain ⟨opn, hopn⟩ : ∃ opn,
    opn = w.opened options (steps ++ [.node r.kind r.rawId]) p d r items below := ⟨_, rfl⟩
  have hsize := Record.sizeItems_lt hopen
  have hgo := hinner opn (r.frame options items w.tree.size d w.mark) below
    (by rw [hopn]; exact hbounded.opened _ _ _ _ _ _) (by rw [hopn]; rfl) hdepth rfl
  have hpath : opn.path = w.path ++ steps ++ [.node r.kind r.rawId] := by
    rw [hopn]
    simp [opened, allocate]
  have hopnSize : opn.tree.size = w.tree.size + 1 := by rw [hopn, size_opened]
  rw [itemsDone, hpath, hopnSize] at hgo
  dsimp only [Record.frame] at hgo
  rw [RecordTree.ofLevels_of_ok hopen hdepth, ← hopn]
  cases hfound : RecordTree.ofItems options.recoverMalformed (RecordTree.ofLevels options levels)
      (w.path ++ steps ++ [.node r.kind r.rawId]) (r.childrenField options) 0 items with
  | error e =>
    rw [hfound] at hgo
    exact hgo.mono (by omega)
  | ok found =>
    rw [hfound] at hgo
    simp only [Except.map]
    rw [← finish_opened hopn rfl (RecordTree.trees_nil hfound)]
    exact (hgo.trans (.step rfl (step_finish rfl rfl))).mono (by omega)

/-- **An item that is a record**: the walk enters and closes it, and goes on beside it. -/
theorem leads_record {r : Record} {items : List Json} (hinner : ItemsLead options levels items)
    (hrest : ItemsLead options (levels + 1) rest) (hbounded : w.Bounded)
    (hstack : w.stack = top :: below) (hdepth : top.depth + (levels + 1) = options.maxDepth)
    (hitems : top.items = item :: rest) (hitem : ¬ item.IsPlaceholder)
    (hopen : Record.openAt options (w.path ++ [.item top.field top.position]) (top.depth + 1) item =
      .ok (r, items)) :
    Leads options (2 * (item.size + Json.sizeItems rest)) w
      (itemsDone options (levels + 1) w top below) := by
  have hdown : top.depth + 1 + levels = options.maxDepth := by omega
  have hpos := item.size_pos
  have hgo := (Leads.step hstack (step_enter hstack hitems hitem hopen)).trans
    (leads_opened hinner hbounded hdown hopen _ _)
  cases hlevels : RecordTree.ofLevels options (levels + 1)
      (w.path ++ [.item top.field top.position]) item with
  | error e =>
    have hstrict : options.recoverMalformed = false := by
      rw [← Bool.not_eq_true]
      intro hrecover
      obtain ⟨found, hok⟩ := RecordTree.exists_ofLevels_of_recover hrecover hopen hdown
      rw [hlevels] at hok
      cases hok
    rw [hlevels] at hgo
    rw [itemsDone_fail hstrict hitems hitem hlevels]
    exact hgo.mono (by omega)
  | ok found =>
    rw [hlevels] at hgo
    rw [itemsDone_tree hitems hitem hlevels rfl]
    exact (hgo.trans (hrest _ _ _ (hbounded.after _ _ _) rfl hdepth rfl)).mono (by omega)

end ItemsLead

/-- The items of a frame, once the levels below are known to be walked. The induction is on the
items. -/
theorem leads_items_of_lower {levels : Nat}
    (hlower : ∀ lower, levels = lower + 1 → ∀ items, ItemsLead options lower items)
    (items : List Json) : ItemsLead options levels items := by
  induction items with
  | nil =>
    intro w top below _ hstack _ hitems
    rw [itemsDone_nil hstack hitems]
    exact .refl w
  | cons item rest ih =>
    intro w top below hbounded hstack hdepth hitems
    have hpos := item.size_pos
    rw [Json.sizeItems]
    by_cases hitem : item.IsPlaceholder
    · exact (leads_placeholder ih hbounded hstack hdepth hitems hitem).mono (by omega)
    · cases hopen : Record.openAt options (w.path ++ [.item top.field top.position]) (top.depth + 1)
        item with
      | error e =>
        exact (leads_malformed ih hbounded hstack hdepth hitems hitem hopen).mono (by omega)
      | ok entered =>
        -- a record that is entered lies within the limit, so there is a level below
        have hwithin : top.depth + 1 ≤ options.maxDepth := (Record.openAt_eq_ok_iff.mp hopen).1
        obtain ⟨lower, rfl⟩ : ∃ lower, levels = lower + 1 := ⟨levels - 1, by omega⟩
        exact leads_record (hlower lower rfl _) ih hbounded hstack hdepth hitems hitem hopen

/-- **The items of a frame**: the walk comes through them to what the recursion says. -/
theorem leads_items (options : Options) (levels : Nat) (items : List Json) :
    ItemsLead options levels items := by
  induction levels generalizing items with
  | zero => exact leads_items_of_lower (fun lower h => by omega) items
  | succ levels ih =>
    refine leads_items_of_lower (fun lower h items => ?_) items
    obtain rfl : levels = lower := by omega
    exact ih items

/-! ## The whole dump -/

/-- A walk that starts with nothing and comes through a tree has its unit. -/
theorem unit_after_start (options : Options) (tree : RecordTree) (errors : List DecodeError)
    (stack : List Frame) :
    ((start options).after (RecordTree.nodesAll none 0 Tree.root [tree]) errors stack).unit =
      tree.unit options.target errors := by
  rw [RecordTree.nodesAll_singleton]
  unfold unit RecordTree.unit after
  rw [registry_allocateAll]
  congr 1
  simp [start]

end Walk

/-- **The walk over a dump is the recursion over it**, for every dump and all options: the same
unit, or the same error. -/
theorem decode_eq_recursion (options : Options) (raw : Json) :
    decode options raw = decodeByRecursion options raw := by
  obtain ⟨w, hw⟩ : ∃ w, w = Walk.start options := ⟨_, rfl⟩
  have hpath : w.path ++ [] = [] := by rw [hw]; rfl
  unfold decode decodeByRecursion RecordTree.ofJson
  rw [← hw, ← hpath]
  dsimp only
  cases hopen : Record.openAt options (w.path ++ []) 0 raw with
  | error e =>
    obtain ⟨steps, henter⟩ : ∃ steps, w.enter options raw none 0 w.mark =
      (.error e, { w with path := w.path ++ steps }) :=
      Walk.enter_of_error (by rw [← hopen, List.append_nil])
    rw [RecordTree.ofLevels_of_error hopen (Nat.zero_add _), henter]
    rfl
  | ok entered =>
    obtain ⟨r, items⟩ := entered
    have hbounded : w.Bounded := by rw [hw]; exact Walk.Bounded.start options
    have hgo := Walk.leads_opened (Walk.leads_items options _ items) hbounded (Nat.zero_add _) hopen
    have hrun := (hgo none []).run_eq (show 2 * raw.size - 1 ≤ 2 * raw.size by omega) (by
      intro w' h
      cases hfound : RecordTree.ofLevels options (options.maxDepth + 1) (w.path ++ []) raw with
      | error e => rw [hfound] at h; cases h
      | ok found => rw [hfound] at h; cases h; rfl)
    rw [Walk.enter_of_ok (by rw [← hopen, List.append_nil])]
    show (Walk.run options _
      (w.opened options ([] ++ [.node r.kind r.rawId]) none 0 r items [])).map Walk.unit = _
    rw [hrun]
    cases RecordTree.ofLevels options (options.maxDepth + 1) (w.path ++ []) raw with
    | error e => rfl
    | ok found =>
      rw [hw]
      exact congrArg Except.ok (Walk.unit_after_start options found.1 found.2 _)

end AstDump
