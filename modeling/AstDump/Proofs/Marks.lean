import AstDump.Decode.Walk

/-!
# Back to a mark

A walk that goes back to its own mark stays where it is, as long as its index and its registry point
to nodes that are there. Every walk is of this kind: what is allocated points to the last node.

* `Registry.entries`     : the list of a kind, empty for the kinds that are not listed;
* `Registry.entries_record`, `Registry.entries_rollback` : the operations, kind by kind;
* `Tree.find?_push`, `Tree.find?_truncate` : the operations, id by id;
* `Walk.Bounded`         : index and registry point to nodes that are there;
* `Walk.Bounded.restore_extend` : from further down the same path, back to the mark.
-/

namespace AstDump

namespace Registry

/-- The kind is one of the five that are listed. -/
def isListed : Kind → Bool
  | .functionDecl => true
  | .compoundStmt => true
  | .forStmt => true
  | .whileStmt => true
  | .doStmt => true
  | _ => false

/-- The entries of a kind. -/
def entries (r : Registry) : Kind → Array NodeId
  | .functionDecl => r.functions
  | .compoundStmt => r.compounds
  | .forStmt => r.forLoops
  | .whileStmt => r.whileLoops
  | .doStmt => r.doLoops
  | _ => #[]

/-- A registry is known by its entries. -/
theorem ext_entries {r r' : Registry} (h : ∀ kind, r.entries kind = r'.entries kind) : r = r' := by
  obtain ⟨functions, compounds, forLoops, whileLoops, doLoops⟩ := r
  have hfunctions : functions = _ := h .functionDecl
  have hcompounds : compounds = _ := h .compoundStmt
  have hforLoops : forLoops = _ := h .forStmt
  have hwhileLoops : whileLoops = _ := h .whileStmt
  have hdoLoops : doLoops = _ := h .doStmt
  rw [hfunctions, hcompounds, hforLoops, hwhileLoops, hdoLoops]
  rfl

theorem entries_empty (kind : Kind) : empty.entries kind = #[] := by
  unfold entries
  split <;> rfl

theorem entries_record (r : Registry) (kind : Kind) (i : NodeId) (k : Kind) :
    (r.record kind i).entries k =
      if isListed kind ∧ k = kind then (r.entries k).push i else r.entries k := by
  cases hlisted : isListed kind with
  | false =>
    have hsame : r.record kind i = r := by
      unfold record
      split
      case h_6 => rfl
      all_goals cases hlisted
    rw [hsame, if_neg (by simp)]
  | true =>
    unfold isListed at hlisted
    split at hlisted
    case h_6 => cases hlisted
    all_goals
      unfold entries record
      split <;> simp_all

theorem entries_rollback (r : Registry) (mark : Nat) (kind : Kind) :
    (r.rollback mark).entries kind = (r.entries kind).popWhile (mark ≤ ·) := by
  unfold entries rollback
  split <;> simp

/-- Every entry lies below a bound. -/
def Below (r : Registry) (bound : Nat) : Prop := ∀ kind, ∀ i ∈ r.entries kind, i < bound

theorem Below.record {r : Registry} {bound : Nat} (h : r.Below bound) (kind : Kind) :
    (r.record kind bound).Below (bound + 1) := by
  intro k i hi
  rw [entries_record] at hi
  split at hi
  · rcases Array.mem_push.mp hi with hi | rfl
    · exact Nat.lt_succ_of_lt (h k i hi)
    · exact Nat.lt_succ_self _
  · exact Nat.lt_succ_of_lt (h k i hi)

/-- Nothing is taken back from a registry whose entries all lie below the mark. -/
theorem Below.rollback {r : Registry} {mark : Nat} (h : r.Below mark) : r.rollback mark = r := by
  refine ext_entries fun kind => ?_
  rw [entries_rollback]
  have hkeep := h kind
  generalize r.entries kind = ids at hkeep
  unfold Array.popWhile
  split
  · rename_i hsize
    have hlast := hkeep _ (Array.getElem_mem (show ids.size - 1 < ids.size by omega))
    rw [if_neg (by simpa using hlast)]
  · rfl

end Registry

namespace Tree

theorem find?_empty (target : Target) (rawId : String) : (empty target).find? rawId = none :=
  Std.ExtTreeMap.getElem?_empty

/-- The index keeps the first node of an id. -/
theorem find?_push (t : Tree) (n : Node) (rawId : String) : (t.push n).find? rawId =
    (t.find? rawId).or (if n.rawId = rawId then some t.size else none) := by
  have hindex : (t.push n).index = t.index.insertIfNew n.rawId t.size := rfl
  unfold find?
  rw [hindex, Std.ExtTreeMap.getElem?_insertIfNew]
  by_cases hid : n.rawId = rawId
  · subst hid
    by_cases hmem : n.rawId ∈ t.index
    · simp [hmem]
    · simp [hmem]
  · simp [hid]

theorem find?_truncate (t : Tree) (mark : Nat) (rawId : String) :
    (t.truncate mark).find? rawId = (t.find? rawId).filter (· < mark) := by
  unfold find? truncate
  rw [Std.ExtTreeMap.getElem?_filter]
  simp

/-- The index points to nodes that are there. -/
def Indexed (t : Tree) : Prop :=
  ∀ (rawId : String) (i : NodeId), t.index[rawId]? = some i → i < t.size

theorem Indexed.push {t : Tree} (h : t.Indexed) (n : Node) : (t.push n).Indexed := by
  intro rawId i hi
  have hfind : (t.push n).find? rawId = some i := hi
  rw [find?_push, Option.or_eq_some_iff] at hfind
  rw [size_push]
  rcases hfind with hold | ⟨-, hnew⟩
  · exact Nat.lt_succ_of_lt (h rawId i hold)
  · split at hnew
    · cases hnew
      exact Nat.lt_succ_self _
    · cases hnew

/-- Nothing is cut off at the end of a tree. -/
theorem Indexed.truncate {t : Tree} (h : t.Indexed) : t.truncate t.size = t := by
  obtain ⟨index, nodes, target⟩ := t
  have hindex : (index.filter fun _ i => decide (i < nodes.size)) = index := by
    rw [Std.ExtTreeMap.filter_eq_self_iff]
    intro rawId hmem
    exact decide_eq_true (h rawId _ (Std.ExtTreeMap.getElem?_eq_some_getElem hmem))
  have hnodes : nodes.take nodes.size = nodes := by simp
  exact (Tree.mk.injEq ..).mpr ⟨hindex, hnodes, rfl⟩

end Tree

namespace Walk

/-- Index and registry point to nodes that are there. -/
structure Bounded (w : Walk) : Prop where
  indexed : w.tree.Indexed
  listed : w.registry.Below w.tree.size

theorem Bounded.start (options : Options) : (start options).Bounded where
  indexed := by
    intro rawId i hi
    have hnone : (Walk.start options).tree.find? rawId = none := Tree.find?_empty _ rawId
    have hfind : (Walk.start options).tree.find? rawId = some i := hi
    rw [hnone] at hfind
    cases hfind
  listed := by
    intro kind i hi
    have hnone : (Walk.start options).registry.entries kind = #[] := Registry.entries_empty kind
    rw [hnone] at hi
    exact absurd hi (Array.not_mem_empty i)

theorem size_allocate (w : Walk) (n : Node) : (w.allocate n).tree.size = w.tree.size + 1 :=
  w.tree.size_push n

theorem Bounded.allocate {w : Walk} (h : w.Bounded) (n : Node) : (w.allocate n).Bounded where
  indexed := h.indexed.push n
  listed := by
    rw [size_allocate]
    exact h.listed.record n.kind

/-- **Back to the mark of a walk, from further down its path.** -/
theorem Bounded.restore_extend {w : Walk} (h : w.Bounded) (steps : Path) :
    { w with path := w.path ++ steps }.restore w.mark = w := by
  have htree : w.tree.truncate w.tree.size = w.tree := h.indexed.truncate
  have hregistry : w.registry.rollback w.tree.size = w.registry := h.listed.rollback
  simp [restore, mark, htree, hregistry]

end Walk

end AstDump
