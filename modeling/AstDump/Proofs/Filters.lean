import AstDump.Proofs.Ancestors
import AstDump.Proofs.SearchOrder

/-!
# Searches that look at what they found

A predicate may ask what was accepted before. Two such predicates say something about the whole: the
one that counts stops a search after so many nodes, and the one that looks for what lies above the
candidate leaves the outermost nodes of the kind. The second is right because whatever lies above a
node was looked at before it, and was accepted if nothing lies above it in turn.

* `Tree.keep`                         : one answer of a plain predicate;
* `Tree.Shows.collectWhere_eq_foldl`  : a search goes through all nodes of the kind;
* `Tree.foldl_keep_limit`             : counting what was found;
* `Tree.IsPreorder.foldl_keep_clear`  : looking for what lies above the candidate;
* `Tree.Outermost`                    : the outermost nodes of a kind, with all that follows;
* `decode_filters`                    : the two searches in a decoded unit.
-/

namespace AstDump

namespace Tree

/-- The nodes found so far, and `i` if a plain predicate accepts it after them. -/
def keep (accept : Array NodeId → NodeId → Bool) (found : Array NodeId) (i : NodeId) :
    Array NodeId := if accept found i then found.push i else found

/-- None of the nodes found lies above the node. -/
def isClear (t : Tree) (found : Array NodeId) (i : NodeId) : Bool :=
  (t.ancestors i).all fun a => ¬ found.contains a

/-- What is found are the outermost nodes of a kind below a node. -/
structure Outermost (t : Tree) (i : Nat) (kind : Kind) (found : Array NodeId) : Prop where
  /-- They are of the kind, lie below the node, and no other node of the kind lies in between. -/
  mem_iff : ∀ c, c ∈ found ↔ (t.kind? c = some kind ∧ t.Encloses i c) ∧
    ∀ b, t.kind? b = some kind → t.Encloses i b → ¬ t.Encloses b c
  increasing : found.toList.Pairwise (· < ·)
  not_above : ∀ a ∈ found, ∀ b ∈ found, a ∉ t.ancestors b
  /-- Any other node of the kind below the node lies below exactly one of them. -/
  covers : ∀ c, t.kind? c = some kind → t.Encloses i c →
    c ∈ found ∨ ∃! a, a ∈ found ∧ a ∈ t.ancestors c

/-! ## Plain predicates -/

/-- A search whose predicate has no effects is the same in every monad. -/
theorem searchM_pure {m : Type → Type} [Monad m] [LawfulMonad m] {t : Tree} {kind : Kind}
    {recursive : Bool} (accept : Array NodeId → NodeId → Bool) (n : Nat) :
    ∀ (worklist : List NodeId) (found : Array NodeId),
      t.searchM kind recursive (fun found i => (pure (accept found i) : m Bool)) n worklist found =
        pure (Id.run (t.searchM kind recursive (fun found i => pure (accept found i)) n worklist
          found)) := by
  induction n with
  | zero => intro worklist found; rfl
  | succ n ih =>
    intro worklist found
    cases worklist with
    | nil => rfl
    | cons i rest =>
      have htest : t.testM kind (fun found i => (pure (accept found i) : m Bool)) found i =
          pure (Id.run (t.testM kind (fun found i => pure (accept found i)) found i)) := by
        unfold testM
        by_cases hkind : t.kind? i = some kind
        · cases haccept : accept found i <;> simp [hkind, haccept]
        · simp [hkind]
      rw [searchM, htest, pure_bind, ih]
      rfl

/-- A filter that keeps no state is a plain predicate. -/
theorem collectFiltered_eq {t : Tree} {filter : Filter} {accept : Array NodeId → NodeId → Bool}
    (h : filter.accepts t = fun found i => pure (accept found i)) (i : Nat) (kind : Kind)
    (recursive : Bool) :
    t.collectFiltered i kind recursive filter = t.collectWhere i kind recursive accept := by
  rw [collectFiltered, h, collectWhereM, searchM_pure]
  rfl

/-- **A search with a predicate goes through what the search without one finds.** -/
theorem Shows.collectWhere_eq_foldl {t : Tree} {p : Option NodeId} {d i : Nat} {s : RecordTree}
    (h : t.Shows p d i s) (kind : Kind) (recursive : Bool)
    (accept : Array NodeId → NodeId → Bool) :
    t.collectWhere i kind recursive accept =
      (t.collect i kind recursive).toList.foldl (keep accept) #[] := by
  have hask : ∀ (js : List NodeId) (found : Array NodeId),
      Id.run (js.foldlM (askM fun found i => pure (accept found i)) found) =
        js.foldl (keep accept) found := by
    intro js
    induction js with
    | nil => intro found; rfl
    | cons j js ih =>
      intro found
      rw [List.foldlM_cons, List.foldl_cons, ← ih]
      cases haccept : accept found j <;> simp [askM, keep, haccept]
  rw [Tree.collectWhere, (h.searchedAs recursive).eq_fold, hask, h.collect]

/-! ## Counting -/

/-- **Counting what was found** stops a search: as many as are missing are still taken. -/
theorem foldl_keep_limit (n : Nat) (js : List NodeId) : ∀ found : Array NodeId,
    js.foldl (keep fun found _ => found.size < n) found =
      found ++ (js.take (n - found.size)).toArray := by
  induction js with
  | nil => intro found; simp
  | cons j js ih =>
    intro found
    rw [List.foldl_cons, ih, keep]
    by_cases hsize : found.size < n
    · obtain ⟨left, hleft⟩ : ∃ left, n - found.size = left + 1 := ⟨n - found.size - 1, by omega⟩
      have hpush : n - (found.size + 1) = left := by omega
      simp [hsize, hleft, hpush]
    · have hnone : n - found.size = 0 := by omega
      simp [hsize, hnone]

theorem Shows.collectWhere_limit {t : Tree} {p : Option NodeId} {d i : Nat} {s : RecordTree}
    (h : t.Shows p d i s) (kind : Kind) (recursive : Bool) (n : Nat) :
    t.collectWhere i kind recursive (fun found _ => found.size < n) =
      (t.collect i kind recursive).take n := by
  rw [h.collectWhere_eq_foldl, foldl_keep_limit]
  apply Array.toList_inj.mp
  simp

/-! ## Looking up -/

namespace IsPreorder

variable {t : Tree} {a b c : Nat}

theorem lt_of_encloses (h : t.IsPreorder) (hab : t.Encloses a b) : a < b :=
  Nat.lt_of_le_of_ne (h.le_of_reaches hab.2) hab.1

theorem encloses_of_reaches (h : t.IsPreorder) (hab : t.Reaches a b) (hbc : t.Encloses b c) :
    t.Encloses a c := by
  have hle := h.le_of_reaches hab
  have hlt := h.lt_of_encloses hbc
  exact ⟨by omega, hab.trans hbc.2⟩

theorem isClear_iff (h : t.IsPreorder) {found : Array NodeId} (hc : c < t.size) :
    t.isClear found c = true ↔ ∀ a ∈ found, ¬ t.Encloses a c := by
  obtain ⟨n, hn⟩ := node_of_lt hc
  simp only [isClear, List.all_eq_true, h.mem_ancestors_iff hn, decide_eq_true_eq,
    Array.contains_eq_mem]
  exact forall_congr' fun a => imp_not_comm

/-- A listed node is reached from one of them that no other lies above. -/
theorem exists_clear_above (h : t.IsPreorder) {all : Array NodeId} (hall : ∀ c ∈ all, c < t.size)
    (hc : c ∈ all) : ∃ a ∈ all, t.Reaches a c ∧ t.isClear all a = true := by
  induction c using Nat.strongRecOn with
  | ind c ih =>
    by_cases hclear : t.isClear all c = true
    · exact ⟨c, hc, .refl, hclear⟩
    · rw [h.isClear_iff (hall c hc)] at hclear
      push Not at hclear
      obtain ⟨b, hb, hbc⟩ := hclear
      obtain ⟨a, ha, hab, haclear⟩ := ih b (h.lt_of_encloses hbc) hb
      exact ⟨a, ha, hab.trans hbc.2, haclear⟩

theorem mem_filter_isClear (h : t.IsPreorder) {all : Array NodeId} (hall : ∀ c ∈ all, c < t.size) :
    c ∈ all.filter (t.isClear all) ↔ c ∈ all ∧ ∀ b ∈ all, ¬ t.Encloses b c := by
  rw [Array.mem_filter]
  exact and_congr_right fun hc => h.isClear_iff (hall c hc)

/-- Of the listed nodes that a node is reached from, only one is clear of all: of two, one would lie
above the other. -/
theorem eq_of_isClear (h : t.IsPreorder) {all : Array NodeId} (hall : ∀ c ∈ all, c < t.size)
    (ha : a ∈ all.filter (t.isClear all)) (hb : b ∈ all.filter (t.isClear all))
    (hac : t.Reaches a c) (hbc : t.Reaches b c) : a = b := by
  rw [h.mem_filter_isClear hall] at ha hb
  by_contra hne
  rcases h.reaches_total hac hbc with hab | hba
  · exact hb.2 a ha.1 ⟨hne, hab⟩
  · exact ha.2 b hb.1 ⟨fun heq => hne heq.symm, hba⟩

/-- Whether a found node lies above a candidate can be told from all nodes listed before it. -/
theorem isClear_seen (h : t.IsPreorder) {seen rest : List NodeId}
    (hsorted : (seen ++ c :: rest).Pairwise (· < ·)) (hall : ∀ j ∈ seen ++ c :: rest, j < t.size) :
    t.isClear (seen.filter (t.isClear (seen ++ c :: rest).toArray)).toArray c =
      t.isClear (seen ++ c :: rest).toArray c := by
  have hc : c < t.size := hall c (by simp)
  rw [Bool.eq_iff_iff, h.isClear_iff hc, h.isClear_iff hc]
  constructor
  · -- what lies above the candidate is reached from something clear, which comes before it
    intro hfound b hb hbc
    obtain ⟨a, ha, hab, hclear⟩ := h.exists_clear_above (fun j hj => hall j (by simpa using hj)) hb
    have hac := h.encloses_of_reaches hab hbc
    have hlt := h.lt_of_encloses hac
    have hseen : a ∈ seen := by
      obtain ⟨-, hafter, -⟩ := List.pairwise_append.mp hsorted
      rcases List.mem_append.mp (List.mem_toArray.mp ha) with ha | ha
      · exact ha
      · rcases List.mem_cons.mp ha with rfl | ha
        · exact absurd hlt (Nat.lt_irrefl a)
        · exact absurd hlt (Nat.lt_asymm ((List.pairwise_cons.mp hafter).1 a ha))
    exact hfound a (by simp [hseen, hclear]) hac
  · intro hnone a ha
    have hseen := List.mem_of_mem_filter (List.mem_toArray.mp ha)
    exact hnone a (by simp [hseen])

/-- **Looking for what lies above the candidate among the nodes found so far** is looking for it
among all nodes listed. -/
theorem foldl_keep_clear (h : t.IsPreorder) (rest : List NodeId) : ∀ seen : List NodeId,
    (seen ++ rest).Pairwise (· < ·) → (∀ j ∈ seen ++ rest, j < t.size) →
      rest.foldl (keep t.isClear) (seen.filter (t.isClear (seen ++ rest).toArray)).toArray =
        ((seen ++ rest).filter (t.isClear (seen ++ rest).toArray)).toArray := by
  induction rest with
  | nil => intro seen _ _; simp
  | cons c rest ih =>
    intro seen hsorted hall
    have hsplit : seen ++ c :: rest = (seen ++ [c]) ++ rest := by simp
    have hnext := ih (seen ++ [c]) (hsplit ▸ hsorted) (hsplit ▸ hall)
    rw [← hsplit] at hnext
    rw [List.foldl_cons, keep, h.isClear_seen hsorted hall, ← hnext, List.filter_append]
    congr 1
    cases hclear : t.isClear (seen ++ c :: rest).toArray c with
    | false => simp [hclear]
    | true => simp [hclear]

end IsPreorder

section Outermost

variable {t : Tree} {p : Option NodeId} {d i : Nat} {s : RecordTree}

/-- A deep search finds the nodes of the kind that lie below the node. -/
theorem Shows.mem_collect_iff_encloses (h : t.Shows p d i s) (hpre : t.IsPreorder) {kind : Kind}
    {c : Nat} : c ∈ t.collect i kind true ↔ t.kind? c = some kind ∧ t.Encloses i c := by
  have hsize := h.add_size_le
  have hpos := s.size_pos
  rw [h.mem_collect, hpre.encloses_iff (show i < t.size by omega), and_comm]

theorem Shows.lt_size_of_mem_collect (h : t.Shows p d i s) {kind : Kind} {c : Nat}
    (hc : c ∈ t.collect i kind true) : c < t.size := by
  have hsize := h.add_size_le
  have hin := (h.mem_collect.mp hc).1
  rw [h.subtreeSize] at hin
  omega

/-- The search for what is clear of the nodes found before is a filter by what is clear of all. -/
theorem Shows.collectWhere_isClear (h : t.Shows p d i s) (hpre : t.IsPreorder) (kind : Kind) :
    t.collectWhere i kind true t.isClear =
      (t.collect i kind true).filter (t.isClear (t.collect i kind true)) := by
  have hall : ∀ j ∈ (t.collect i kind true).toList, j < t.size :=
    fun j hj => h.lt_size_of_mem_collect (Array.mem_toList_iff.mp hj)
  have hfold := hpre.foldl_keep_clear (t.collect i kind true).toList [] (h.collect_increasing kind)
    hall
  rw [h.collectWhere_eq_foldl]
  apply Array.toList_inj.mp
  simpa using congrArg Array.toList hfold

/-- **The search for what is clear of the nodes found before finds the outermost nodes.** -/
theorem Shows.outermost (h : t.Shows p d i s) (hpre : t.IsPreorder) (kind : Kind) :
    t.Outermost i kind (t.collectWhere i kind true t.isClear) := by
  have hall : ∀ c ∈ t.collect i kind true, c < t.size := fun c hc => h.lt_size_of_mem_collect hc
  have hmem := @Shows.mem_collect_iff_encloses t p d i s h hpre kind
  have hup : ∀ a c, c ∈ t.collect i kind true → (a ∈ t.ancestors c ↔ t.Encloses a c) := by
    intro a c hc
    obtain ⟨n, hn⟩ := IsPreorder.node_of_lt (hall c hc)
    exact hpre.mem_ancestors_iff hn
  rw [h.collectWhere_isClear hpre kind]
  refine ⟨fun c => ?_, ?_, fun a ha b hb => ?_, fun c hkind hbelow => ?_⟩
  · rw [hpre.mem_filter_isClear hall, hmem]
    exact and_congr_right fun _ => forall_congr' fun b => by rw [hmem, and_imp]
  · rw [Array.toList_filter]
    exact (h.collect_increasing kind).filter _
  · obtain ⟨hin, hclear⟩ := (hpre.mem_filter_isClear hall).mp hb
    rw [hup a b hin]
    exact hclear a (Array.mem_filter.mp ha).1
  · have hc := hmem.mpr ⟨hkind, hbelow⟩
    obtain ⟨a, ha, hac, hclear⟩ := hpre.exists_clear_above hall hc
    have hin := Array.mem_filter.mpr ⟨ha, hclear⟩
    by_cases hself : a = c
    · exact .inl (hself ▸ hin)
    · refine .inr ⟨a, ⟨hin, (hup a c hc).mpr ⟨hself, hac⟩⟩, ?_⟩
      rintro b ⟨hb, hbc⟩
      exact hpre.eq_of_isClear hall hb hin ((hup b c hc).mp hbc).2 hac

end Outermost

end Tree

/-- **Searches that look at what they found**, whatever the dump and the options. A search that
accepts while fewer than `n` were found finds the first `n` nodes of the kind. A deep search that
accepts what lies below nothing found before finds the outermost nodes of the kind. The filters of
these names are these searches. -/
theorem decode_filters {options : Options} {raw : Json} {u : TranslationUnit} {i : Nat}
    (h : decode options raw = .ok u) (hi : i < u.tree.size) (kind : Kind) :
    (∀ n recursive,
      u.tree.collectWhere i kind recursive (fun found _ => found.size < n) =
        (u.tree.collect i kind recursive).take n ∧
      u.tree.collectFiltered i kind recursive (.limit n) =
        (u.tree.collect i kind recursive).take n) ∧
    ∃ found, u.tree.Outermost i kind found ∧
      u.tree.collectWhere i kind true (fun before c =>
        (u.tree.ancestors c).all fun a => ¬ before.contains a) = found ∧
      u.tree.collectFiltered i kind true .outermost = found := by
  obtain ⟨tree, errors, -, rfl⟩ := decode_eq_ok_iff.mp h
  have hshown := tree.showsAll_unit options.target errors
  have hsize := tree.size_unit options.target errors
  obtain ⟨p, d, s, -, hs⟩ := hshown.exists_shows hsize hi
  refine ⟨fun n recursive => ⟨hs.collectWhere_limit kind recursive n, ?_⟩, _,
    hs.outermost (hshown.isPreorder hsize) kind, rfl, Tree.collectFiltered_eq rfl i kind true⟩
  rw [Tree.collectFiltered_eq rfl]
  exact hs.collectWhere_limit kind recursive n

/-- Below a compound statement stand a call with a call in it, an `if` with a call in it, and a
call. -/
theorem decode_filters_nested_calls :
    let call (rawId : String) : Json := .leaf rawId "CallExpr"
    let raw : Json := .branch "1" "CompoundStmt" [.branch "2" "CallExpr" [call "3"],
      .branch "4" "IfStmt" [call "5"], call "6"]
    ∃ u, decode Options.default raw = .ok u ∧ 0 < u.tree.size ∧
      u.tree.collect 0 .callExpr true = #[1, 2, 4, 5] ∧
      u.tree.collectFiltered 0 .callExpr true (.limit 2) = #[1, 2] ∧
      u.tree.Outermost 0 .callExpr #[1, 4, 5] := by
  intro call raw
  have hvalues : (decode Options.default raw).toOption.map (fun u =>
      (u.tree.size, u.tree.collect 0 .callExpr true,
        u.tree.collectFiltered 0 .callExpr true .outermost)) =
      some (6, #[1, 2, 4, 5], #[1, 4, 5]) := by decide +kernel
  obtain ⟨u, hu, hvalues⟩ := exists_decode_of_map hvalues
  simp only [Prod.mk.injEq] at hvalues
  obtain ⟨hsize, hcalls, houter⟩ := hvalues
  have hpos : 0 < u.tree.size := by omega
  obtain ⟨hlimit, found, hfound, -, hfilter⟩ := decode_filters hu hpos .callExpr
  have htwo := (hlimit 2 true).2
  rw [hcalls] at htwo
  rw [houter] at hfilter
  exact ⟨u, hu, hpos, hcalls, htwo, hfilter ▸ hfound⟩

end AstDump
