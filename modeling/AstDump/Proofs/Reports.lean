import AstDump.Proofs.Places
import AstDump.Proofs.Recursion
import Mathlib.Data.List.Forall2

/-!
# The errors of what is dropped

With recovery on, decoding a record keeps one error for each dropped value below it, in document
order; decoding that stops at the first error fails with the first of them.

* `Reports`                         : the errors are those of the dropped values, one by one;
* `RecordTree.reports_ofLevels`     : so it is for the errors of a record tree;
* `FirstFault`                      : the error of the first malformed value of a dump;
* `RecordTree.firstFault_of_strict` : strict decoding fails with it.
-/

namespace AstDump

/-- The place begins at a position or after it. -/
def BeginsFrom (start : Nat) : Place → Prop
  | [] => False
  | i :: _ => start ≤ i

/-- The dropped values below a record, from the item at position `start` on, in document order, and
the error of each. -/
structure Reports (options : Options) (path : Path) (depth : Nat) (raw : Json) (start : Nat)
    (errors : List DecodeError) (dropped : List (Place × Json)) : Prop where
  sorted : dropped.Pairwise fun a b => Before a.1 b.1
  mem_iff : ∀ place v, (place, v) ∈ dropped ↔
    Dropped options depth raw place v ∧ BeginsFrom start place
  faults : List.Forall₂
    (fun e d => Fault options (path ++ raw.pathTo options d.1) (depth + d.1.length) d.2 e)
    errors dropped

namespace Reports

variable {options : Options} {path : Path} {depth : Nat} {raw item : Json} {start : Nat}
  {errors : List DecodeError} {dropped : List (Place × Json)}

theorem mem_iff_dropped (h : Reports options path depth raw 0 errors dropped) (place : Place)
    (v : Json) : (place, v) ∈ dropped ↔ Dropped options depth raw place v := by
  rw [h.mem_iff]
  refine ⟨And.left, fun hdropped => ⟨hdropped, ?_⟩⟩
  cases place with
  | nil => exact Dropped.not_nil hdropped
  | cons i place => exact Nat.zero_le i

/-- Past the last item nothing is dropped. -/
theorem nil (h : (raw.childItems options).length ≤ start) :
    Reports options path depth raw start [] [] := by
  refine ⟨.nil, fun place v => ⟨fun h => absurd h List.not_mem_nil, ?_⟩, .nil⟩
  rintro ⟨hdropped, hbegins⟩
  cases place with
  | nil => exact absurd hdropped Dropped.not_nil
  | cons i place =>
    obtain ⟨-, item, at_i, -⟩ := Dropped.cons_iff.mp hdropped
    have hlt := (List.getElem?_eq_some_iff.mp at_i).1
    have hle : start ≤ i := hbegins
    omega

/-- From one position on it is what begins there, or lies further on. -/
theorem dropped_from_iff (start : Nat) {place : Place} {v : Json} :
    (Dropped options depth raw place v ∧ BeginsFrom start place) ↔
      (∃ rest, place = start :: rest ∧ Dropped options depth raw place v) ∨
        (Dropped options depth raw place v ∧ BeginsFrom (start + 1) place) := by
  cases place with
  | nil => simp [Dropped.not_nil]
  | cons i place =>
    constructor
    · rintro ⟨hdropped, hle⟩
      rcases Nat.lt_or_eq_of_le (show start ≤ i from hle) with hlt | rfl
      · exact .inr ⟨hdropped, hlt⟩
      · exact .inl ⟨place, rfl, hdropped⟩
    · rintro (⟨rest, heq, hdropped⟩ | ⟨hdropped, hlt⟩)
      · cases heq
        exact ⟨hdropped, Nat.le_refl start⟩
      · exact ⟨hdropped, Nat.le_of_succ_le hlt⟩

theorem placeholder (at_start : (raw.childItems options)[start]? = some item)
    (held : item.IsPlaceholder) (h : Reports options path depth raw (start + 1) errors dropped) :
    Reports options path depth raw start errors dropped := by
  refine ⟨h.sorted, fun place v => ?_, h.faults⟩
  rw [h.mem_iff, dropped_from_iff start]
  refine ⟨.inr, ?_⟩
  rintro (⟨rest, rfl, hdropped⟩ | h)
  · obtain ⟨-, item', at_i, hheld, -⟩ := Dropped.cons_iff.mp hdropped
    rw [at_start] at at_i
    cases at_i
    exact absurd held hheld
  · exact h

/-- A list for one item, then the list for the items after it. -/
theorem cons {own : List (Place × Json)} {ownErrors : List DecodeError}
    (hown : own.Pairwise fun a b => Before a.1 b.1)
    (hmem : ∀ place v, (start :: place, v) ∈ own ↔ Dropped options depth raw (start :: place) v)
    (hhead : ∀ d ∈ own, ∃ place, d.1 = start :: place)
    (hfaults : List.Forall₂
      (fun e d => Fault options (path ++ raw.pathTo options d.1) (depth + d.1.length) d.2 e)
      ownErrors own)
    (h : Reports options path depth raw (start + 1) errors dropped) :
    Reports options path depth raw start (ownErrors ++ errors) (own ++ dropped) := by
  refine ⟨?_, fun place v => ?_, ?_⟩
  · refine List.pairwise_append.mpr ⟨hown, h.sorted, ?_⟩
    rintro ⟨a, u⟩ ha ⟨b, v⟩ hb
    obtain ⟨rest, rfl⟩ := hhead _ ha
    obtain ⟨hdropped, hle⟩ := (h.mem_iff b v).mp hb
    cases b with
    | nil => exact absurd hdropped Dropped.not_nil
    | cons i b => exact Before.cons_iff.mpr (.inl hle)
  · rw [List.mem_append, h.mem_iff, dropped_from_iff start]
    refine or_congr ⟨fun hin => ?_, ?_⟩ Iff.rfl
    · obtain ⟨rest, rfl⟩ := hhead _ hin
      exact ⟨rest, rfl, (hmem rest v).mp hin⟩
    · rintro ⟨rest, rfl, hdropped⟩
      exact (hmem rest v).mpr hdropped
  · exact List.rel_append hfaults h.faults

theorem malformed {e : DecodeError} (record : WellFormed options depth raw)
    (at_start : (raw.childItems options)[start]? = some item) (held : ¬ item.IsPlaceholder)
    (fault : Fault options (path ++ raw.stepsTo options start) (depth + 1) item e)
    (h : Reports options path depth raw (start + 1) errors dropped) :
    Reports options path depth raw start (e :: errors) (([start], item) :: dropped) := by
  have hpath : raw.pathTo options [start] = raw.stepsTo options start := by
    rw [Json.pathTo_cons at_start, Json.pathTo, List.append_nil]
  show Reports options path depth raw start ([e] ++ errors) ([([start], item)] ++ dropped)
  refine cons (List.pairwise_singleton ..) (fun place v => ?_) ?_ ?_ h
  · rw [List.mem_singleton, Dropped.cons_iff_of_item record at_start held]
    have hnone : ¬ Dropped options (depth + 1) item place v :=
      fun hd => fault.not_wellFormed hd.record
    simp [hnone, fault.not_wellFormed]
  · rintro d hd
    cases List.mem_singleton.mp hd
    exact ⟨[], rfl⟩
  · refine .cons ?_ .nil
    rw [hpath]
    exact fault

theorem inside {inner : List (Place × Json)} {innerErrors : List DecodeError}
    (record : WellFormed options depth raw)
    (at_start : (raw.childItems options)[start]? = some item) (held : ¬ item.IsPlaceholder)
    (hitem : WellFormed options (depth + 1) item)
    (hinner : Reports options (path ++ raw.stepsTo options start) (depth + 1) item 0 innerErrors
      inner)
    (h : Reports options path depth raw (start + 1) errors dropped) :
    Reports options path depth raw start (innerErrors ++ errors)
      (inner.map (fun d => (start :: d.1, d.2)) ++ dropped) := by
  refine cons ?_ (fun place v => ?_) ?_ ?_ h
  · refine List.pairwise_map.mpr (hinner.sorted.imp fun hlt => ?_)
    exact Before.cons_iff.mpr (.inr ⟨rfl, hlt⟩)
  · rw [Dropped.cons_iff_of_item record at_start held]
    have hin : (start :: place, v) ∈ inner.map (fun d => (start :: d.1, d.2)) ↔
        (place, v) ∈ inner := by simp
    rw [hin, hinner.mem_iff_dropped]
    simp [hitem]
  · rintro d hd
    obtain ⟨d', -, rfl⟩ := List.mem_map.mp hd
    exact ⟨d'.1, rfl⟩
  · refine List.forall₂_map_right_iff.mpr (hinner.faults.imp fun e d hfault => ?_)
    rw [Json.pathTo_cons at_start, List.length_cons, ← List.append_assoc, Nat.add_comm _ 1,
      ← Nat.add_assoc]
    exact hfault

end Reports

namespace RecordTree

variable {options : Options} {path : Path} {depth levels : Nat} {raw : Json}

/-- The errors of the items from a position on, once those of the levels below are known. -/
theorem reports_ofItems {r : Record} {items : List Json}
    (hdepth : depth + levels = options.maxDepth)
    (hopen : Record.openAt options path depth raw = .ok (r, items))
    (hlower : ∀ path item found, ofLevels options.recovering levels path item = .ok found →
      ∃ dropped, Reports options path (depth + 1) item 0 found.2 dropped)
    (rest : List Json) : ∀ position found, items.drop position = rest →
      ofItems true (ofLevels options.recovering levels) (path ++ [.node r.kind r.rawId])
        (r.childrenField options) position rest = .ok found →
      ∃ dropped, Reports options path depth raw position found.2 dropped := by
  have hchild : raw.childItems options = items := Record.childItems_of_openAt hopen
  have hwf : WellFormed options depth raw := Record.wellFormed_of_openAt hopen
  have hdown : depth + 1 + levels = options.maxDepth + 1 := by omega
  induction rest with
  | nil =>
    intro position found hdrop h
    cases h
    refine ⟨[], .nil ?_⟩
    rw [hchild]
    exact List.drop_eq_nil_iff.mp hdrop
  | cons item rest ih =>
    intro position found hdrop h
    have hat : (raw.childItems options)[position]? = some item := by
      rw [hchild, ← List.head?_drop, hdrop]
      rfl
    have hrest : items.drop (position + 1) = rest := by
      rw [← List.drop_drop, hdrop]
      rfl
    have hpath := Record.append_stepsTo hopen position
    rcases ofItems_cons_cases h with
      ⟨hitem, hmore⟩ | ⟨more, hitem, hmore, ⟨tree, errors, htree, rfl⟩ | ⟨e, -, htree, rfl⟩⟩
    · obtain ⟨dropped, hdropped⟩ := ih _ _ hrest hmore
      exact ⟨dropped, hdropped.placeholder hat hitem⟩
    · rw [← hpath] at htree
      obtain ⟨dropped, hdropped⟩ := ih _ _ hrest hmore
      obtain ⟨inner, hinner⟩ := hlower _ _ _ htree
      have hwfItem := wellFormed_of_ofLevels htree hdown
      exact ⟨_, Reports.inside hwf hat hitem hwfItem hinner hdropped⟩
    · rw [← hpath] at htree
      obtain ⟨dropped, hdropped⟩ := ih _ _ hrest hmore
      exact ⟨_, hdropped.malformed hwf hat hitem (fault_of_ofLevels htree hdown)⟩

/-- **The errors of a record tree are those of what is dropped below the record**, in document
order. -/
theorem reports_ofLevels {found : RecordTree × List DecodeError}
    (hdepth : depth + levels = options.maxDepth + 1)
    (h : ofLevels options.recovering levels path raw = .ok found) :
    ∃ dropped, Reports options path depth raw 0 found.2 dropped := by
  induction levels generalizing depth path raw found with
  | zero => cases h
  | succ levels ih =>
    obtain ⟨r, items, lower, trees, hlevels, hopen, hitems, -⟩ := exists_openAt_of_ofLevels h hdepth
    obtain rfl : levels = lower := by omega
    exact reports_ofItems (show depth + levels = options.maxDepth by omega) hopen
      (fun path item found hfound => ih (by omega) hfound) items 0 _ rfl hitems

end RecordTree

/-! ## The first error -/

/-- The error of the first malformed value of a dump, in document order. -/
def FirstFault (options : Options) (raw : Json) (e : DecodeError) : Prop :=
  ∃ place v, raw.valueAt? options place = some v ∧
    Fault options (raw.pathTo options place) place.length v e ∧
    ∀ before u, Before before place → raw.valueAt? options before = some u →
      WellFormed options before.length u

/-- All values of a dump are node records. -/
def AllWellFormed (options : Options) (raw : Json) : Prop :=
  ∀ place v, raw.valueAt? options place = some v → WellFormed options place.length v

theorem FirstFault.not_allWellFormed {options : Options} {raw : Json} {e : DecodeError}
    (h : FirstFault options raw e) : ¬ AllWellFormed options raw := by
  obtain ⟨place, v, hv, hfault, -⟩ := h
  exact fun hall => hfault.not_wellFormed (hall place v hv)

/-- The first of the reported errors is that of the first malformed value: what is malformed before
it would lie inside of something dropped before it. -/
theorem Reports.firstFault {options : Options} {raw : Json} {e : DecodeError}
    {errors : List DecodeError} {dropped : List (Place × Json)} (hraw : WellFormed options 0 raw)
    (h : Reports options [] 0 raw 0 (e :: errors) dropped) : FirstFault options raw e := by
  have hmem := h.mem_iff_dropped
  obtain ⟨hsorted, -, hfaults⟩ := h
  cases hfaults with
  | @cons _ first _ rest hfault _ =>
    have hfirst : Dropped options 0 raw first.1 first.2 := (hmem _ _).mp List.mem_cons_self
    rw [Nat.zero_add, List.nil_append] at hfault
    refine ⟨first.1, first.2, hfirst.valueAt?, hfault, fun before u hbefore hu => ?_⟩
    by_contra hmalformed
    rw [← Nat.zero_add before.length] at hmalformed
    obtain ⟨top, w, hprefix, htop⟩ := exists_dropped_at_or_above hraw hu hmalformed
    have hnot : ¬ Before before top := Before.not_of_prefix hprefix
    rcases List.mem_cons.mp ((hmem top w).mpr htop) with heq | hrest
    · rw [← heq] at hbefore
      exact hnot hbefore
    · exact hnot (hbefore.trans ((List.pairwise_cons.mp hsorted).1 _ hrest))

theorem Reports.allWellFormed {options : Options} {raw : Json} {dropped : List (Place × Json)}
    (hraw : WellFormed options 0 raw) (h : Reports options [] 0 raw 0 [] dropped) :
    AllWellFormed options raw := by
  have hmem := h.mem_iff_dropped
  obtain ⟨-, -, hfaults⟩ := h
  cases hfaults
  intro place v hv
  by_contra hmalformed
  rw [← Nat.zero_add place.length] at hmalformed
  obtain ⟨top, w, -, htop⟩ := exists_dropped_at_or_above hraw hv hmalformed
  exact List.not_mem_nil ((hmem top w).mpr htop)

/-! ## The two modes -/

namespace RecordTree

variable {options : Options} {raw : Json}

/-- **With recovery on** a dump has a tree exactly if it is a node record itself, and its errors are
those of what is dropped. -/
theorem ofJson_recovering (options : Options) (raw : Json) :
    (∃ e, ofJson options.recovering raw = .error e ∧ Fault options [] 0 raw e) ∨
      ∃ tree errors dropped, ofJson options.recovering raw = .ok (tree, errors) ∧
        WellFormed options 0 raw ∧ Reports options [] 0 raw 0 errors dropped := by
  have hdepth : 0 + (options.maxDepth + 1) = options.maxDepth + 1 := Nat.zero_add _
  show (∃ e, ofLevels options.recovering (options.maxDepth + 1) [] raw = _ ∧ _) ∨
    ∃ _ _ _, ofLevels options.recovering (options.maxDepth + 1) [] raw = _ ∧ _
  cases hfound : ofLevels options.recovering (options.maxDepth + 1) [] raw with
  | error e => exact .inl ⟨e, rfl, fault_of_ofLevels hfound hdepth⟩
  | ok found =>
    obtain ⟨dropped, hreports⟩ := reports_ofLevels hdepth hfound
    have hraw := wellFormed_of_ofLevels hfound hdepth
    exact .inr ⟨found.1, found.2, dropped, rfl, hraw, hreports⟩

theorem ofJson_strict (hstrict : options.recoverMalformed = false) :
    ofJson options raw = stopAtFirst (ofJson options.recovering raw) :=
  ofLevels_strict hstrict [] raw (Nat.zero_add _)

/-- **Strict decoding fails with the error of the first malformed value.** -/
theorem firstFault_of_strict {e : DecodeError} (hstrict : options.recoverMalformed = false)
    (h : ofJson options raw = .error e) : FirstFault options raw e := by
  rw [ofJson_strict hstrict] at h
  rcases ofJson_recovering options raw with
    ⟨e', herror, hfault⟩ | ⟨tree, errors, dropped, hok, hraw, hreports⟩
  · rw [herror] at h
    cases h
    exact ⟨[], raw, rfl, hfault, fun before u hbefore _ => absurd hbefore Before.not_nil⟩
  · rw [hok] at h
    cases errors with
    | nil => cases h
    | cons first errors =>
      cases h
      exact hreports.firstFault hraw

/-- Strict decoding succeeds on dumps of node records only, and drops nothing. -/
theorem allWellFormed_of_strict {found : RecordTree × List DecodeError}
    (hstrict : options.recoverMalformed = false) (h : ofJson options raw = .ok found) :
    AllWellFormed options raw ∧ found.2 = [] := by
  rw [ofJson_strict hstrict] at h
  rcases ofJson_recovering options raw with
    ⟨e', herror, -⟩ | ⟨tree, errors, dropped, hok, hraw, hreports⟩
  · rw [herror] at h
    cases h
  · rw [hok] at h
    cases errors with
    | nil =>
      cases h
      exact ⟨hreports.allWellFormed hraw, rfl⟩
    | cons first errors => cases h

end RecordTree

end AstDump
