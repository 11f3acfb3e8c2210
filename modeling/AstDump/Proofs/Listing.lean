import AstDump.Proofs.Reports

/-!
# The records of a dump, listed

The values that decoding comes to, each with its place, in document order. When strict decoding
succeeds the nodes of the tree are these values one by one: the node at a position tells the record
at the same position.

* `Json.listing`            : the values down to a level, with their places;
* `Json.mem_listing`        : they are the values that have a place;
* `Json.listing_sorted`     : in document order;
* `Node.Tells`              : a node tells a record;
* `RecordTree.tells_ofLevels` : the nodes of a record tree tell the values of the listing.
-/

namespace AstDump

namespace Json

/-- The items of a value that are no placeholders, with their positions. -/
def heldItems (options : Options) (v : Json) : List (Json × Nat) :=
  (v.childItems options).zipIdx.filter fun x => ¬ x.1.IsPlaceholder

/-- The values down to so many levels, each with its place, in document order. -/
def listing (options : Options) : (levels : Nat) → Place → Json → List (Place × Json)
  | 0, _, _ => []
  | levels + 1, place, v =>
    (place, v) :: (v.heldItems options).flatMap fun x => listing options levels (place ++ [x.2]) x.1

variable {options : Options}

theorem mem_heldItems {v item : Json} {i : Nat} : (item, i) ∈ v.heldItems options ↔
    (v.childItems options)[i]? = some item ∧ ¬ item.IsPlaceholder := by
  rw [heldItems, List.mem_filter, List.mem_zipIdx_iff_getElem?]
  simp

/-- The positions of items grow. -/
theorem heldItems_sorted (v : Json) : (v.heldItems options).Pairwise fun x y => x.2 < y.2 := by
  have hpositions : ((v.childItems options).zipIdx.map Prod.snd).Pairwise (· < ·) := by
    rw [List.zipIdx_map_snd]
    exact List.pairwise_lt_range'
  exact (List.pairwise_map.mp hpositions).filter _

theorem mem_listing {levels : Nat} {place q : Place} {raw v : Json} :
    (q, v) ∈ raw.listing options levels place ↔
      ∃ inner, q = place ++ inner ∧ inner.length < levels ∧
        raw.valueAt? options inner = some v := by
  induction levels generalizing place raw with
  | zero => simp [listing]
  | succ levels ih =>
    rw [listing, List.mem_cons, List.mem_flatMap]
    constructor
    · rintro (heq | ⟨⟨item, i⟩, hitem, hin⟩)
      · cases heq
        exact ⟨[], by simp, by simp, rfl⟩
      · obtain ⟨inner, rfl, hlt, hv⟩ := ih.mp hin
        obtain ⟨hat, hheld⟩ := mem_heldItems.mp hitem
        exact ⟨i :: inner, by simp, by simpa using hlt,
          valueAt?_cons_iff.mpr ⟨item, hat, hheld, hv⟩⟩
    · rintro ⟨inner, rfl, hlt, hv⟩
      cases inner with
      | nil =>
        cases hv
        exact .inl (by simp)
      | cons i inner =>
        obtain ⟨item, hat, hheld, hv⟩ := valueAt?_cons_iff.mp hv
        refine .inr ⟨(item, i), mem_heldItems.mpr ⟨hat, hheld⟩, ih.mpr ⟨inner, ?_, ?_, hv⟩⟩
        · simp
        · simpa using hlt

theorem listing_sorted (levels : Nat) (place : Place) (raw : Json) :
    (raw.listing options levels place).Pairwise fun a b => Before a.1 b.1 := by
  induction levels generalizing place raw with
  | zero => exact .nil
  | succ levels ih =>
    refine List.pairwise_cons.mpr ⟨?_, List.pairwise_flatMap.mpr ⟨fun x _ => ih _ _, ?_⟩⟩
    · rintro ⟨q, v⟩ hin
      obtain ⟨⟨item, i⟩, -, hin⟩ := List.mem_flatMap.mp hin
      obtain ⟨inner, rfl, -⟩ := mem_listing.mp hin
      rw [List.append_assoc]
      exact Before.append_cons place i inner
    · refine (heldItems_sorted raw).imp fun {x y} hxy => ?_
      rintro ⟨p, u⟩ hp ⟨q, v⟩ hq
      obtain ⟨pinner, rfl, -⟩ := mem_listing.mp hp
      obtain ⟨qinner, rfl, -⟩ := mem_listing.mp hq
      rw [List.append_assoc, List.append_assoc]
      exact Before.append_left place (Before.cons_iff.mpr (.inl hxy))

end Json

/-! ## Nodes that tell records -/

/-- The node tells the record with these members at a place. Its children are given by their
positions in a list of records with their places. -/
structure Node.Tells (options : Options) (records : List (Place × Json)) (n : Node) (place : Place)
    (members : Members) : Prop where
  rawId : members.idText? = some n.rawId
  kind : members.kindTag? = some n.kind.tag
  attrs : n.attrs = members.filter fun m =>
    m.1 ≠ "id" ∧ m.1 ≠ "kind" ∧ some m.1 ≠ members.childrenField? options
  depth : n.depth = place.length
  leaf : n.children = none ↔ members.items? options = some []
  branch : ∀ ids, n.children = some ids → ids.toList.map (records[·]?) =
    ((Json.obj members).heldItems options).map fun x => some (place ++ [x.2], x.1)

/-- The nodes tell the records of a list one by one. -/
def TellAll (options : Options) (records : List (Place × Json)) (ns : List Node)
    (listed : List (Place × Json)) : Prop :=
  List.Forall₂ (fun n entry => ∃ members, entry.2 = .obj members ∧
    n.Tells options records entry.1 members) ns listed

namespace RecordTree

/-- Wherever the values down to so many levels stand among the records, the nodes of the tree tell
them. -/
def TellsListing (options : Options) (records : List (Place × Json)) (levels : Nat) (place : Place)
    (raw : Json) (tree : RecordTree) : Prop :=
  ∀ (first : Nat) (parent : Option NodeId),
    ListedAt records first (raw.listing options levels place) →
    TellAll options records (tree.nodes parent place.length first)
      (raw.listing options levels place)

variable {options : Options} {path : Path} {levels : Nat} {place : Place} {raw : Json}
  {records : List (Place × Json)}

/-- The nodes of a record that was opened, once the nodes of its items are known to tell them. -/
theorem tells_of_openAt {r : Record} {items : List Json} {trees : List RecordTree} {first : Nat}
    {listed : List (Place × Json)}
    (hopen : Record.openAt options path place.length raw = .ok (r, items))
    (hempty : items = [] → trees = [])
    (hbelow : TellAll options records
      (nodesAll (some first) (place.length + 1) (first + 1) trees) listed)
    (htops : (tops (first + 1) trees).map (records[·]?) =
      (raw.heldItems options).map fun x => some (place ++ [x.2], x.1)) (parent : Option NodeId) :
    TellAll options records ((ofRecord options r items trees).nodes parent place.length first)
      ((place, raw) :: listed) := by
  obtain ⟨-, rfl, hid, ⟨tag, hkind, htag⟩, hitems⟩ := Record.openAt_eq_ok_iff.mp hopen
  rw [nodes_eq, children_ofRecord options r hempty, top_ofRecord]
  refine .cons ⟨r.members, rfl, ?_⟩ hbelow
  refine ⟨hid, ?_, Record.attrs_eq options r, rfl, ?_, ?_⟩
  · rw [hkind, htag, Kind.tag_ofTag]
  · rw [hitems]
    cases items <;> simp
  · intro ids hids
    rw [← htops]
    cases items with
    | nil => cases hids
    | cons item rest =>
      cases hids
      rfl

/-- The nodes of strictly decoded items from a position on, once those of the levels below are known
to tell them. -/
theorem tells_ofItems {field : String}
    (hlower : ∀ (path : Path) (inner : Place) (item : Json) found,
      inner.length = place.length + 1 → ofLevels options levels path item = .ok found →
      found.1.TellsListing options records levels inner item)
    (rest : List Json) : ∀ (position : Nat) found,
      ofItems false (ofLevels options levels) path field position rest = .ok found →
      ∀ (first : Nat) (parent : Option NodeId) held,
        held = (rest.zipIdx position).filter (fun x => ¬ x.1.IsPlaceholder) →
        ListedAt records first (held.flatMap fun x => x.1.listing options levels (place ++ [x.2])) →
        TellAll options records (nodesAll parent (place.length + 1) first found.1)
            (held.flatMap fun x => x.1.listing options levels (place ++ [x.2])) ∧
          (tops first found.1).map (records[·]?) =
            held.map fun x => some (place ++ [x.2], x.1) := by
  induction rest with
  | nil =>
    intro position found h first parent held hheld _
    cases h
    subst hheld
    exact ⟨.nil, rfl⟩
  | cons item rest ih =>
    intro position found h first parent held hheld hlisted
    rw [List.zipIdx_cons, List.filter_cons] at hheld
    rcases ofItems_cons_cases h with
      ⟨hitem, hrest⟩ | ⟨more, hitem, hmore, ⟨tree, errors, htree, rfl⟩ | ⟨_, hrecover, _⟩⟩
    · rw [if_neg (by simp [hitem])] at hheld
      exact ih _ _ hrest first parent held hheld hlisted
    · rw [if_pos (by simp [hitem])] at hheld
      subst hheld
      rw [List.flatMap_cons] at hlisted ⊢
      obtain ⟨hown, hothers⟩ := hlisted.append
      have hplace : (place ++ [position]).length = place.length + 1 := by simp
      have htells := hlower _ _ _ _ hplace htree first parent hown
      have hlength := htells.length_eq
      rw [length_nodes] at hlength
      rw [← hlength] at hothers
      obtain ⟨hrest, htops⟩ := ih _ _ hmore _ parent _ rfl hothers
      rw [hplace] at htells
      refine ⟨List.rel_append htells hrest, ?_⟩
      rw [tops_cons, List.map_cons, List.map_cons, htops]
      cases levels with
      | zero => cases htree
      | succ levels => rw [hown.cons.1]
    · cases hrecover

/-- **The nodes of a strictly decoded value tell the values of its listing.** -/
theorem tells_ofLevels (hstrict : options.recoverMalformed = false)
    {found : RecordTree × List DecodeError}
    (hdepth : place.length + levels = options.maxDepth + 1)
    (h : ofLevels options levels path raw = .ok found) :
    found.1.TellsListing options records levels place raw := by
  induction levels generalizing path place raw found with
  | zero => cases h
  | succ levels ih =>
    intro first parent hlisted
    obtain ⟨r, items, lower, trees, hlevels, hopen, hitems, hfound⟩ :=
      exists_openAt_of_ofLevels h hdepth
    obtain rfl : levels = lower := by omega
    rw [hstrict] at hitems
    have hheld : raw.heldItems options = (items.zipIdx 0).filter fun x => ¬ x.1.IsPlaceholder := by
      rw [Json.heldItems, Record.childItems_of_openAt hopen]
    obtain ⟨hbelow, htops⟩ := tells_ofItems
      (fun path inner item found hinner hfound => ih (by omega) hfound)
      items 0 _ hitems (first + 1) (some first) _ hheld hlisted.cons.2
    rw [hfound]
    exact tells_of_openAt hopen (trees_nil hitems) hbelow htops parent

end RecordTree

end AstDump
