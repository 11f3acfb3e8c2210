import AstDump.Proofs.ReaderNesting

/-!
# A reader with fewer levels

The levels that a reader is given matter only if it asks for more, and the number of items that it
is given for a container only if the text is long enough to have so many.

* `Json.Capped`           : a run with fewer levels is the same until it runs out of them;
* `Json.readValue_capped` : so it is with the reader of values;
* `readCapped_scan_bound` : the scan counts enough levels for any text.
-/

namespace AstDump

open NestingScan

namespace Json

/-! ## Fewer levels -/

/-- A run that was not refused a container. -/
structure Admitted {α : Type} (result : Except Fault α) : Prop where
  ne : result ≠ .error .overNested

namespace Admitted

variable {α β : Type}

@[simp] theorem ok (a : α) : Admitted (.ok a : Except Fault α) := ⟨by simp⟩

@[simp] theorem unfinished : Admitted (.error .unfinished : Except Fault α) := ⟨by simp⟩

@[simp] theorem malformed : Admitted (.error .malformed : Except Fault α) := ⟨by simp⟩

theorem error {fault : Fault} (h : Admitted (.error fault : Except Fault α)) :
    Admitted (.error fault : Except Fault β) :=
  ⟨fun heq => h.ne (by cases heq; rfl)⟩

theorem bind {x : Except Fault α} {f : α → Except Fault β} (hx : Admitted x)
    (hf : ∀ a, Admitted (f a)) : Admitted (x >>= f) := by
  cases x with
  | error fault => exact hx.error
  | ok a => exact hf a

theorem map {x : Except Fault α} {f : α → β} (hx : Admitted x) : Admitted (x.map f) := by
  cases x with
  | error fault => exact hx.error
  | ok a => exact .ok _

end Admitted

/-- With fewer levels a run comes to the same as long as what it opens fits into them, and is
refused otherwise. -/
structure Capped {α : Type} (levels opened : Nat) (small large : Except Fault α) : Prop where
  same : opened ≤ levels → small = large ∧ Admitted small
  refused : levels < opened → small = .error .overNested

namespace Capped

variable {α β : Type} {levels d e : Nat} {small large : Except Fault α}

theorem refl {result : Except Fault α} (h : Admitted result) :
    Capped levels 0 result result :=
  ⟨fun _ => ⟨rfl, h⟩, fun hlt => absurd hlt (Nat.not_lt_zero _)⟩

theorem map {f : α → β} (h : Capped levels d small large) :
    Capped levels d (small.map f) (large.map f) := by
  refine ⟨fun hle => ?_, fun hlt => ?_⟩
  · obtain ⟨rfl, hadmitted⟩ := h.same hle
    exact ⟨rfl, hadmitted.map⟩
  · rw [h.refused hlt]
    rfl

/-- One level more for what opens one container more. -/
theorem succ (h : Capped levels d small large) : Capped (levels + 1) (d + 1) small large :=
  ⟨fun hle => h.same (Nat.le_of_succ_le_succ hle),
    fun hlt => h.refused (Nat.lt_of_succ_lt_succ hlt)⟩

/-- Without a level no container can be opened. -/
theorem refuse (bs : Bytes) {large : Except Fault (α × Bytes)} :
    Capped 0 (d + 1) (Json.refuse bs) large :=
  ⟨fun hle => absurd hle (Nat.not_succ_le_zero d), fun _ => rfl⟩

end Capped

/-! ### Scalars need no level -/

theorem nextItem_admitted (close : UInt8) (first : Bool) (bs : Bytes) :
    Admitted (nextItem close first bs) := by
  unfold nextItem
  repeat' split
  all_goals simp

theorem readLiteral_admitted {α : Type} (value : α) (name bs : Bytes) :
    Admitted (readLiteral value name bs) := by
  fun_induction readLiteral value name bs with
  | case3 _ _ _ ih => exact ih
  | _ => simp

theorem stringBody_admitted (acc bs : Bytes) : Admitted (stringBody acc bs) := by
  fun_induction stringBody acc bs with
  | case4 _ _ _ _ _ _ ih => exact ih
  | case8 _ _ _ _ _ _ _ _ _ _ _ _ _ _ ih => exact ih
  | case12 _ _ _ _ _ _ _ _ _ _ _ _ _ _ _ _ _ _ _ _ _ ih => exact ih
  | case17 _ _ _ _ _ _ _ _ _ _ _ ih => exact ih
  | _ => simp

theorem readString_admitted (bs : Bytes) : Admitted (readString bs) := by
  refine (stringBody_admitted [] bs).bind fun got => ?_
  obtain ⟨body, rest⟩ := got
  dsimp only
  split <;> simp

theorem memberStart_admitted (bs : Bytes) : Admitted (memberStart bs) := by
  refine Admitted.bind ?_ fun got => Admitted.bind ?_ fun after => .ok _
  · unfold readKey
    split
    · exact readString_admitted _
    · exact .malformed
  · unfold readColon
    repeat' split
    all_goals simp

theorem expectDigit_admitted (bs : Bytes) : Admitted (expectDigit bs) := by
  unfold expectDigit
  repeat' split
  all_goals simp

theorem doubleOf_admitted (negative : Bool) (significand : Nat) (tens : Int) :
    Admitted (doubleOf negative significand tens) := by
  unfold doubleOf
  split <;> simp

theorem readScaled_admitted (negative : Bool) (significand : Nat) (tens : Int) (bs : Bytes) :
    Admitted (readScaled negative significand tens bs) := by
  have hexponent : ∀ bs, Admitted (readExponent bs) := fun bs =>
    (expectDigit_admitted _).bind fun _ => .ok _
  refine Admitted.bind ?_ fun got => (doubleOf_admitted ..).bind fun _ => .ok _
  unfold readTens
  split
  · exact hexponent _
  · exact hexponent _
  · exact .ok _

theorem readAfterWhole_admitted (negative : Bool) (kept dropped : Nat) (bs : Bytes) :
    Admitted (readAfterWhole negative kept dropped bs) := by
  unfold readAfterWhole
  split
  · exact (expectDigit_admitted _).bind fun _ => readScaled_admitted ..
  · exact readScaled_admitted ..
  · exact readScaled_admitted ..
  · split
    · refine Admitted.bind ?_ fun _ => .ok _
      unfold wholeNumber
      repeat' split
      · exact .ok _
      · exact .ok _
      · exact doubleOf_admitted ..
    · exact readScaled_admitted ..

theorem readNumber_admitted (bs : Bytes) : Admitted (readNumber bs) := by
  have hunsigned : ∀ negative bs, Admitted (readUnsigned negative bs) := by
    intro negative bs
    refine (expectDigit_admitted bs).bind fun _ => Admitted.bind ?_ fun _ =>
      readAfterWhole_admitted ..
    unfold expectNoLeadingZero
    repeat' split
    all_goals simp
  unfold readNumber
  split
  · exact hunsigned ..
  · exact hunsigned ..

/-! ### Containers -/

/-- What goes on after an item. -/
theorem Capped.bind {α β : Type} {levels d : Nat} {small large : Except Fault α}
    {f g : α → Except Fault β} {after : α → Nat} (h : Capped levels d small large)
    (hafter : ∀ a, Capped levels (after a) (f a) (g a)) :
    Capped levels (max d (openedAfter after large)) (small >>= f) (large >>= g) := by
  refine ⟨fun hle => ?_, fun hlt => ?_⟩
  · obtain ⟨rfl, hadmitted⟩ := h.same (by omega)
    cases small with
    | error fault => exact ⟨rfl, hadmitted.error⟩
    | ok a => exact (hafter a).same (Nat.le_trans (Nat.le_max_right ..) hle)
  · by_cases hfits : d ≤ levels
    · obtain ⟨rfl, -⟩ := h.same hfits
      cases small with
      | error fault =>
        simp only [openedAfter] at hlt
        omega
      | ok a =>
        simp only [openedAfter] at hlt
        exact (hafter a).refused (by omega)
    · rw [h.refused (by omega)]
      rfl

theorem foldItems_capped {σ : Type} {close : UInt8} {small large : σ → Reader σ}
    {item : Bytes → Nat} {levels : Nat}
    (hstep : ∀ acc bs, Capped levels (item bs) (small acc bs) (large acc bs)) (n : Nat) :
    ∀ (first : Bool) (acc : σ) (bs : Bytes),
      Capped levels (openedByItems close large item n first acc bs)
        (foldItems close small n first acc bs) (foldItems close large n first acc bs) := by
  induction n with
  | zero => exact fun first acc bs => .refl .malformed
  | succ n ih =>
    intro first acc bs
    simp only [openedByItems, foldItems_succ]
    have hadmitted := nextItem_admitted close first bs
    cases hnext : nextItem close first bs with
    | error fault =>
      rw [hnext] at hadmitted
      exact .refl (hadmitted.error)
    | ok found =>
      cases found with
      | none => exact .refl (.ok _)
      | some start => exact (hstep acc start).bind fun got => ih false got.1 got.2

theorem readMember_capped {small large : Reader Json} {inner : Bytes → Nat} {levels : Nat}
    (hvalue : ∀ bs, Capped levels (inner bs) (small bs) (large bs)) (members : Members)
    (bs : Bytes) :
    Capped levels (openedByMember inner bs) (readMember small members bs)
      (readMember large members bs) := by
  rw [readMember_eq, readMember_eq]
  have hadmitted := memberStart_admitted bs
  unfold openedByMember
  cases hstart : memberStart bs with
  | error fault =>
    rw [hstart] at hadmitted
    exact .refl (hadmitted.error)
  | ok got => exact (hvalue got.2).map

theorem readValueWith_capped {smallList largeList smallObject largeObject : Reader Json}
    {inList inObject : Bytes → Nat} {levels : Nat}
    (hlist : ∀ bs, Capped levels (inList bs + 1) (smallList bs) (largeList bs))
    (hobject : ∀ bs, Capped levels (inObject bs + 1) (smallObject bs) (largeObject bs))
    (bs : Bytes) :
    Capped levels (openedWith inList inObject bs)
      (readValueWith keepScalars smallList smallObject bs)
      (readValueWith keepScalars largeList largeObject bs) := by
  unfold readValueWith openedWith
  cases skipBlanks bs with
  | nil => exact .refl .unfinished
  | cons b rest =>
    dsimp only
    split
    · exact hlist rest
    split
    · exact hobject rest
    apply Capped.refl
    repeat' split
    · exact (readString_admitted rest).bind fun _ => .ok _
    · exact readNumber_admitted (b :: rest)
    · exact readLiteral_admitted _ _ rest
    · exact readLiteral_admitted _ _ rest
    · exact readLiteral_admitted _ _ rest
    · exact .malformed

/-- **A reader with fewer levels** is the same as one with more until it runs out of them. -/
theorem readValue_capped (bound : Nat) {levels more : Nat} (h : levels ≤ more) (bs : Bytes) :
    Capped levels (openedByValue bound more bs) (readValue bound levels bs)
      (readValue bound more bs) := by
  induction levels generalizing more bs with
  | zero =>
    cases more with
    | zero => exact readValueWith_capped (fun rest => .refuse rest) (fun rest => .refuse rest) bs
    | succ more =>
      exact readValueWith_capped (fun rest => .refuse rest) (fun rest => .refuse rest) bs
  | succ levels ih =>
    cases more with
    | zero => omega
    | succ more =>
      have hle : levels ≤ more := by omega
      apply readValueWith_capped
      · intro rest
        rw [readList_eq, readList_eq]
        refine (foldItems_capped (fun items bs => ?_) bound true [] rest).map.succ
        rw [readItem_eq, readItem_eq]
        exact (ih hle bs).map
      · intro rest
        rw [readObject_eq, readObject_eq]
        exact (foldItems_capped (readMember_capped (ih hle)) bound true [] rest).map.succ

/-! ## Enough items -/

/-- A value takes at least a byte. -/
theorem readValue_length_lt {bound levels : Nat} {bs rest : Bytes} {v : Json}
    (h : readValue bound levels bs = .ok (v, rest)) : rest.length < bs.length := by
  obtain ⟨list, object, inList, inObject, hread, hopened⟩ :
      ∃ list object inList inObject,
        readValue bound levels = readValueWith keepScalars list object ∧
          openedByValue bound levels = openedWith inList inObject := by
    cases levels with
    | zero => exact ⟨_, _, _, _, rfl, rfl⟩
    | succ levels => exact ⟨_, _, _, _, rfl, rfl⟩
  obtain ⟨-, piece, heq, hpiece⟩ := (readValue_inStep bound levels bs).consumed v rest h
  have hblanks := (inertTo_skipBlanks bs).length_le
  -- A container is a balanced piece that goes a level down, and no such piece is empty.
  have hcontainer : ∀ d, openedByValue bound levels bs = d + 1 → rest.length < bs.length := by
    intro d hd
    rw [hd] at hpiece
    have hpos := List.length_pos_iff.2 hpiece.ne_nil
    rw [heq, List.nil_append, List.length_append]
    omega
  rw [hread] at h
  cases hstart : skipBlanks bs with
  | nil => simp [readValueWith, hstart] at h
  | cons b start =>
    obtain ⟨rfl, -⟩ | ⟨rfl, -⟩ | ⟨-, -, hscalar⟩ := readValueWith_cases hstart h
    · exact hcontainer _ ((congrFun hopened bs).trans (openedWith_list inList inObject hstart))
    · exact hcontainer _ ((congrFun hopened bs).trans (openedWith_object inList inObject hstart))
    · rw [hstart] at hblanks
      exact Nat.lt_of_lt_of_le hscalar.length_lt hblanks

theorem foldItems_bound {σ : Type} {close : UInt8} {step other : σ → Reader σ} {length : Nat}
    (hsame : ∀ acc bs, bs.length ≤ length → step acc bs = other acc bs)
    (hshorter : ∀ acc bs acc' rest, step acc bs = .ok (acc', rest) → rest.length < bs.length)
    (n : Nat) : ∀ (m : Nat) (first : Bool) (acc : σ) (bs : Bytes), bs.length ≤ length →
      bs.length < n → bs.length < m →
      foldItems close step n first acc bs = foldItems close other m first acc bs := by
  induction n with
  | zero =>
    intro m first acc bs _ hn _
    exact absurd hn (Nat.not_lt_zero _)
  | succ n ih =>
    intro m first acc bs hlength hn hm
    obtain ⟨m, rfl⟩ : ∃ k, m = k + 1 := ⟨m - 1, by omega⟩
    rw [foldItems_succ, foldItems_succ]
    cases hnext : nextItem close first bs with
    | error fault => rfl
    | ok found =>
      cases found with
      | none => rfl
      | some start =>
        have hstart := (nextItem_some hnext).length_le
        simp only [ok_bind]
        rw [← hsame acc start (by omega)]
        cases hread : step acc start with
        | error fault => rfl
        | ok got =>
          have hrest := hshorter acc start got.1 got.2 hread
          simp only [ok_bind]
          exact ih m false got.1 got.2 (by omega) (by omega) (by omega)

theorem readItem_length_lt {bound levels : Nat} {items got : List Json} {bs rest : Bytes}
    (h : readItem (readValue bound levels) items bs = .ok (got, rest)) :
    rest.length < bs.length := by
  rw [readItem_eq] at h
  obtain ⟨⟨v, after⟩, hvalue, heq⟩ := map_eq_ok.1 h
  cases heq
  exact readValue_length_lt hvalue

theorem readMember_length_lt {bound levels : Nat} {members got : Members} {bs rest : Bytes}
    (h : readMember (readValue bound levels) members bs = .ok (got, rest)) :
    rest.length < bs.length := by
  rw [readMember_eq] at h
  obtain ⟨⟨key, after⟩, hstart, h⟩ := bind_eq_ok.1 h
  obtain ⟨⟨v, beyond⟩, hvalue, heq⟩ := map_eq_ok.1 h
  obtain ⟨piece, rfl, -⟩ := memberStart_balanced hstart
  have hlt : beyond.length < after.length := readValue_length_lt hvalue
  cases heq
  rw [List.length_append]
  exact Nat.lt_of_lt_of_le hlt (Nat.le_add_left ..)

theorem readValueWith_congr {list list' object object' : Reader Json} {bs : Bytes}
    (hlist : ∀ rest : Bytes, rest.length < bs.length → list rest = list' rest)
    (hobject : ∀ rest : Bytes, rest.length < bs.length → object rest = object' rest) :
    readValueWith keepScalars list object bs = readValueWith keepScalars list' object' bs := by
  have hblanks := (inertTo_skipBlanks bs).length_le
  unfold readValueWith
  cases heq : skipBlanks bs with
  | nil => rfl
  | cons b rest =>
    rw [heq, List.length_cons] at hblanks
    dsimp only
    rw [hlist rest (by omega), hobject rest (by omega)]

/-- **The number of items that a container may have** does not matter if it exceeds the length of
the text. -/
theorem readValue_bound {bound other : Nat} (levels : Nat) {bs : Bytes}
    (hbound : bs.length < bound) (hother : bs.length < other) :
    readValue bound levels bs = readValue other levels bs := by
  induction levels generalizing bs with
  | zero => rfl
  | succ levels ih =>
    have hvalue : ∀ rest : Bytes, rest.length ≤ bs.length →
        readValue bound levels rest = readValue other levels rest :=
      fun rest hrest => ih (by omega) (by omega)
    apply readValueWith_congr
    · intro rest hrest
      rw [readList_eq, readList_eq]
      congr 1
      refine foldItems_bound (fun items after hafter => ?_) (fun _ _ _ _ => readItem_length_lt)
        bound other true [] rest (Nat.le_of_lt hrest) (by omega) (by omega)
      rw [readItem_eq, readItem_eq, hvalue after hafter]
    · intro rest hrest
      rw [readObject_eq, readObject_eq]
      congr 1
      refine foldItems_bound (fun members after hafter => ?_) (fun _ _ _ _ => readMember_length_lt)
        bound other true [] rest (Nat.le_of_lt hrest) (by omega) (by omega)
      rw [readMember_eq, readMember_eq]
      cases hstart : memberStart after with
      | error fault => rfl
      | ok got =>
        obtain ⟨piece, rfl, -⟩ := memberStart_balanced hstart
        rw [List.length_append] at hafter
        simp only [ok_bind]
        rw [hvalue got.2 (by omega)]

/-- With as many levels as the scan counts, more levels change nothing. -/
theorem readValue_eq_of_le (bound : Nat) {levels more : Nat} {text : Bytes}
    (hlevels : textNesting text ≤ levels) (hmore : textNesting text ≤ more) :
    readValue bound levels text = readValue bound more text := by
  have hopened : openedByValue bound (max levels more) text ≤ textNesting text :=
    openedByValue_le ..
  have hlow := readValue_capped bound (Nat.le_max_left levels more) text
  have hhigh := readValue_capped bound (Nat.le_max_right levels more) text
  exact (hlow.same (by omega)).1.trans (hhigh.same (by omega)).1.symm

theorem readValue_overNested_iff (text : Bytes) (levels : Nat) :
    readValue (text.length + 1) levels text = .error .overNested ↔ levels < opened text := by
  have hopened : opened text ≤ textNesting text := openedByValue_le ..
  have hlength := textNesting_le_length text
  refine ⟨fun h => ?_, fun hlt => ?_⟩
  · apply Decidable.byContradiction
    intro hle
    by_cases hmore : levels ≤ text.length
    · have hcapped := readValue_capped (text.length + 1) hmore text
      exact (hcapped.same (Nat.not_lt.1 hle)).2.ne h
    · have hself := readValue_capped (text.length + 1) (Nat.le_refl levels) text
      have hwithin := openedByValue_le (text.length + 1) levels text
      exact (hself.same (by omega)).2.ne h
  · exact (readValue_capped (text.length + 1) (by omega) text).refused hlt

theorem readCapped_eq_error_iff (text : Bytes) (levels : Nat) :
    readCapped levels text = .error .overNested ↔ levels < opened text := by
  rw [← readValue_overNested_iff]
  unfold readCapped
  cases readValue (text.length + 1) levels text with
  | error fault => simp
  | ok got =>
    have hend : expectEnd got.2 = .ok () ∨ expectEnd got.2 = .error .malformed := by
      unfold expectEnd
      split <;> simp
    obtain hend | hend := hend <;> simp [hend]

theorem nesting_le_of_read {text : Bytes} {levels : Nat} {v : Json}
    (h : readCapped levels text = .ok v) : v.nesting ≤ textNesting text := by
  simp only [readCapped, bind_eq_ok] at h
  obtain ⟨⟨w, rest⟩, hvalue, _, -, h⟩ := h
  cases h
  have hopened := openedByValue_le (text.length + 1) levels text
  have hweight := ((readValue_inStep (text.length + 1) levels text).consumed w rest hvalue).1
  rw [Nat.zero_max] at hweight
  exact Nat.le_trans hweight hopened

end Json

theorem nesting_le_of_parseDump {maxDepth : Nat} {text : Bytes} {v : Json}
    (h : parseDump maxDepth text = .ok v) : v.nesting ≤ nestingAllowance maxDepth := by
  unfold parseDump at h
  split at h
  · cases h
  · rename_i hfits
    cases hread : Json.read text with
    | error fault =>
      rw [hread] at h
      cases h
    | ok w =>
      rw [hread] at h
      cases h
      exact Nat.le_trans (Json.nesting_le_of_read hread) (Nat.not_lt.1 hfits)

/-- **The scan bounds the descent of the reader**, for every text. The most containers that are
open at once, up to the end or the first fault, are no more than the scan counted, and a reader is
refused a level exactly if it has fewer levels than that. So one that has as many as were counted
comes to the same as one without a bound, and the value of a dump's text is never deeper than was
allowed, which is no more than a dump within the depth limit can nest. -/
theorem readCapped_scan_bound (text : Bytes) :
    Json.opened text ≤ textNesting text ∧
      (∀ levels, Json.readCapped levels text = .error .overNested ↔ levels < Json.opened text) ∧
      (∀ levels, textNesting text ≤ levels → Json.readCapped levels text = Json.read text) ∧
      (∀ bound levels, text.length < bound →
        Json.readValue bound levels text = Json.readValue (text.length + 1) levels text) ∧
      ∀ maxDepth v, parseDump maxDepth text = .ok v →
        v.nesting ≤ nestingAllowance maxDepth ∧
          nestingAllowance maxDepth ≤ dumpNesting maxDepth := by
  refine ⟨Json.openedByValue_le .., Json.readCapped_eq_error_iff text, ?_, ?_, ?_⟩
  · intro levels hlevels
    unfold Json.read Json.readCapped
    rw [Json.readValue_eq_of_le _ hlevels (textNesting_le_length text)]
  · intro bound levels hbound
    exact Json.readValue_bound levels hbound (Nat.lt_succ_self _)
  · intro maxDepth v h
    exact ⟨nesting_le_of_parseDump h, nestingAllowance_le maxDepth⟩

/-- Brackets after a fault are counted and never opened, and those in a string are neither. -/
theorem readCapped_scan_bound_faulty :
    let text := bytesOf "[\"]\\\"[\", \x7bx[["
    Json.opened text = 2 ∧ textNesting text = 4 ∧
      Json.readCapped 1 text = .error .overNested ∧ Json.readCapped 4 text = Json.read text ∧
      Json.readValue 50 2 text = Json.readValue (text.length + 1) 2 text := by
  intro text
  have hopened : Json.opened text = 2 := by decide +kernel
  have hscan : textNesting text = 4 := by decide +kernel
  obtain ⟨-, hrefused, hsame, hbound, -⟩ := readCapped_scan_bound text
  refine ⟨hopened, hscan, (hrefused 1).2 ?_, hsame 4 (Nat.le_of_eq hscan),
    hbound 50 2 (by decide +kernel)⟩
  rw [hopened]
  decide

end AstDump
