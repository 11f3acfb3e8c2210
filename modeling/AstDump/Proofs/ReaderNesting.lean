import AstDump.Decode.Text
import AstDump.Proofs.Scan

/-!
# How deep the reader descends

The reader of a text descends into a container at each bracket and brace that it meets, until the
text is over or the first fault. How many it has open at once is bounded by the scan that counted
the brackets before, whatever the text is.

* `Json.opened`           : the most containers that are open at once while a text is read;
* `Json.InStep`           : what is read goes as deep as the scan went, and no deeper;
* `Json.readValue_inStep` : so it is with every value of a text;
* `Json.openedByValue_le` : the scan counts at least the containers that the reader opens.
-/

namespace AstDump

open NestingScan

namespace Json

/-! ## Containers open at once -/

/-- How many containers are open at once while a value is read, if the insides of lists and of
objects open so many. One that is refused was asked for and counts as well. -/
def openedWith (list object : Bytes → Nat) (bs : Bytes) : Nat :=
  match skipBlanks bs with
  | [] => 0
  | b :: rest =>
    if b = Byte.openBracket then list rest + 1
    else if b = Byte.openBrace then object rest + 1
    else 0

theorem openedWith_list (list object : Bytes → Nat) {bs start : Bytes}
    (h : skipBlanks bs = Byte.openBracket :: start) :
    openedWith list object bs = list start + 1 := by
  rw [openedWith, h]
  rfl

theorem openedWith_object (list object : Bytes → Nat) {bs start : Bytes}
    (h : skipBlanks bs = Byte.openBrace :: start) :
    openedWith list object bs = object start + 1 := by
  rw [openedWith, h]
  rfl

/-- The same for what follows after a run, of which there is nothing if the run fails. -/
def openedAfter {α : Type} (following : α → Nat) : Except Fault α → Nat
  | .ok a => following a
  | .error _ => 0

/-- How many are open at once while the items of a sequence are read, the last one or the one with
the fault included. -/
def openedByItems {σ : Type} (close : UInt8) (step : σ → Reader σ) (item : Bytes → Nat) :
    (bound : Nat) → (first : Bool) → σ → Bytes → Nat
  | 0, _, _, _ => 0
  | n + 1, first, acc, bs =>
    match nextItem close first bs with
    | .ok (some start) =>
      max (item start)
        (openedAfter (fun p => openedByItems close step item n false p.1 p.2) (step acc start))
    | _ => 0

/-- The key of a member and its colon. -/
def memberStart : Reader String := fun bs => do
  let (key, rest) ← readKey readString bs
  return (key, ← readColon rest)

/-- How many are open at once while a member is read: those of its value. -/
def openedByMember (value : Bytes → Nat) (bs : Bytes) : Nat :=
  openedAfter (fun p => value p.2) (memberStart bs)

/-- How many containers a reader with so many levels has open at once. -/
def openedByValue (bound : Nat) : (levels : Nat) → Bytes → Nat
  | 0 => openedWith (fun _ => 0) (fun _ => 0)
  | levels + 1 =>
    openedWith
      (openedByItems Byte.closeBracket (readItem (readValue bound levels))
        (openedByValue bound levels) bound true [])
      (openedByItems Byte.closeBrace (readMember (readValue bound levels))
        (openedByMember (openedByValue bound levels)) bound true [])

/-- The most containers that are open at once while a text is read, up to its end or its first
fault. -/
def opened (text : Bytes) : Nat := openedByValue (text.length + 1) text.length text

/-! ## The reader and the scan in step -/

theorem nextItem_none {close : UInt8} {first : Bool} {bs : Bytes}
    (h : nextItem close first bs = .ok none) : InertTo bs (close :: (skipBlanks bs).tail) := by
  have hblanks := inertTo_skipBlanks bs
  unfold nextItem at h
  split at h
  · cases h
  · rename_i b rest heq
    rw [heq] at hblanks ⊢
    split at h
    · rename_i hclose
      rw [← hclose]
      exact hblanks
    · repeat' split at h
      all_goals cases h

theorem nextItem_some {close : UInt8} {first : Bool} {bs item : Bytes}
    (h : nextItem close first bs = .ok (some item)) : InertTo bs item := by
  have hblanks := inertTo_skipBlanks bs
  unfold nextItem at h
  split at h
  · cases h
  rename_i b rest heq
  rw [heq] at hblanks
  split at h
  · cases h
  split at h
  · cases h
    exact hblanks
  split at h
  · rename_i hcomma
    rw [hcomma] at hblanks
    split at h
    · cases h
    rename_i c after hafter
    split at h
    · cases h
    · cases h
      rw [← hafter]
      exact hblanks.trans (.cons (by decide) (inertTo_skipBlanks rest))
  · cases h

theorem readColon_inertTo {bs rest : Bytes} (h : readColon bs = .ok rest) : InertTo bs rest := by
  have hblanks := inertTo_skipBlanks bs
  unfold readColon at h
  split at h
  · cases h
  rename_i b after heq
  rw [heq] at hblanks
  split at h
  · rename_i hcolon
    cases h
    rw [hcolon] at hblanks
    exact hblanks.trans (.cons (by decide) (.refl _))
  · cases h

theorem memberStart_balanced {key : String} {bs rest : Bytes}
    (h : memberStart bs = .ok (key, rest)) : ∃ piece, bs = piece ++ rest ∧ Balanced piece 0 := by
  simp only [memberStart, bind_eq_ok] at h
  obtain ⟨⟨name, after⟩, hkey, colon, hcolon, h⟩ := h
  cases h
  unfold readKey at hkey
  split at hkey
  · obtain ⟨piece, heq, hpiece, -⟩ := (readString_stringTo hkey).scalarTo
    obtain ⟨blanks, rfl, hblanks⟩ := (readColon_inertTo hcolon).balanced
    exact ⟨piece ++ blanks, heq.trans (List.append_assoc ..).symm, hpiece.append hblanks⟩
  · cases hkey

/-- A run of a reader on `bs` that is in step with the scan. Whatever it comes to, the scan goes as
deep as `d`. If it gets through, it leaves behind a piece that is balanced for the scan and goes
just that deep, and then the bytes `last`; and what it makes of them weighs no more than that, or
than what was there `before`. -/
structure InStep {α : Type} (last : Bytes) (weight : α → Nat) (before : Nat) (bs : Bytes) (d : Nat)
    (result : Except Fault (α × Bytes)) : Prop where
  reaches : Reaches bs d
  consumed : ∀ a rest, result = .ok (a, rest) →
    weight a ≤ max before d ∧ ∃ piece, bs = piece ++ (last ++ rest) ∧ Balanced piece d

namespace InStep

variable {α β : Type} {last : Bytes} {weight : α → Nat} {before d e : Nat} {bs start rest : Bytes}
  {result : Except Fault (α × Bytes)}

theorem of_error {fault : Fault} (h : Reaches bs d) :
    InStep last weight before bs d (.error fault) :=
  ⟨h, fun _ _ hok => by cases hok⟩

/-- A run is in step if it is from where it stands after a balanced piece. -/
theorem after {piece : Bytes} (hpiece : Balanced piece e)
    (h : InStep last weight before bs d result) :
    InStep last weight before (piece ++ bs) (max e d) result := by
  refine ⟨hpiece.reaches_append h.reaches, ?_⟩
  intro a rest hresult
  obtain ⟨hweight, further, rfl, hfurther⟩ := h.consumed a rest hresult
  refine ⟨by omega, piece ++ further, ?_, hpiece.append hfurther⟩
  rw [List.append_assoc]

theorem after_inert (hstart : InertTo bs start) (h : InStep last weight before start d result) :
    InStep last weight before bs d result := by
  obtain ⟨piece, rfl, hpiece⟩ := hstart.balanced
  have hafter := h.after hpiece
  rwa [Nat.zero_max] at hafter

/-- What follows after an item goes on from its weight. -/
theorem andThen {a : α} (hitem : InStep [] weight before bs d (.ok (a, rest)))
    (h : InStep last weight (weight a) rest e result) :
    InStep last weight before bs (max d e) result := by
  obtain ⟨hweight, piece, heq, hpiece⟩ := hitem.consumed a rest rfl
  rw [List.nil_append] at heq
  have hafter := h.after hpiece
  rw [← heq] at hafter
  refine ⟨hafter.reaches, ?_⟩
  intro b after hresult
  obtain ⟨hle, hpieces⟩ := hafter.consumed b after hresult
  exact ⟨by omega, hpieces⟩

theorem map {heavy : β → Nat} {upTo : Nat} (f : α → β)
    (hf : ∀ a, heavy (f a) ≤ max upTo (weight a)) (h : InStep last weight 0 bs d result) :
    InStep last heavy upTo bs d (result.map fun p => (f p.1, p.2)) := by
  refine ⟨h.reaches, ?_⟩
  intro b rest hresult
  obtain ⟨⟨a, after⟩, hok, heq⟩ := map_eq_ok.1 hresult
  cases heq
  obtain ⟨hweight, hpiece⟩ := h.consumed a after hok
  exact ⟨Nat.le_trans (hf a) (by omega), hpiece⟩

/-- A container is one level deeper than what is read inside of it. -/
theorem enclose {heavy : β → Nat} (f : α → β) (hf : ∀ a, heavy (f a) ≤ weight a + 1)
    {b c : UInt8} (hb : IsOpening b) (hc : IsClosing c)
    (h : InStep [c] weight 0 bs d result) :
    InStep [] heavy 0 (b :: bs) (d + 1) (result.map fun p => (f p.1, p.2)) := by
  refine ⟨h.reaches.opening hb, ?_⟩
  intro a' rest hresult
  obtain ⟨⟨a, after⟩, hok, heq⟩ := map_eq_ok.1 hresult
  cases heq
  obtain ⟨hweight, piece, rfl, hpiece⟩ := h.consumed a after hok
  refine ⟨Nat.le_trans (hf a) (by omega), b :: (piece ++ [c]), ?_, hpiece.enclose hb hc⟩
  simp

end InStep

theorem foldItems_succ {σ : Type} (close : UInt8) (step : σ → Reader σ) (n : Nat) (first : Bool)
    (acc : σ) (bs : Bytes) :
    foldItems close step (n + 1) first acc bs =
      nextItem close first bs >>= fun
        | none => .ok (acc, (skipBlanks bs).tail)
        | some start => step acc start >>= fun p => foldItems close step n false p.1 p.2 := rfl

/-- A sequence is in step if its items are. -/
theorem foldItems_inStep {σ : Type} {close : UInt8} {step : σ → Reader σ} {item : Bytes → Nat}
    {weight : σ → Nat}
    (hstep : ∀ acc bs, InStep [] weight (weight acc) bs (item bs) (step acc bs)) (n : Nat) :
    ∀ (first : Bool) (acc : σ) (bs : Bytes),
      InStep [close] weight (weight acc) bs (openedByItems close step item n first acc bs)
        (foldItems close step n first acc bs) := by
  induction n with
  | zero => exact fun first acc bs => .of_error (reaches_zero bs)
  | succ n ih =>
    intro first acc bs
    simp only [openedByItems, foldItems_succ]
    cases hnext : nextItem close first bs with
    | error fault => exact .of_error (reaches_zero bs)
    | ok found =>
      cases found with
      | none =>
        obtain ⟨blanks, heq, hblanks⟩ := (nextItem_none hnext).balanced
        refine ⟨reaches_zero bs, ?_⟩
        intro acc' rest h
        cases h
        exact ⟨Nat.le_max_left .., blanks, heq, hblanks⟩
      | some start =>
        have hitem := hstep acc start
        refine InStep.after_inert (nextItem_some hnext) ?_
        cases hread : step acc start with
        | error fault =>
          have hreaches := hitem.reaches
          rw [← Nat.max_zero (item start)] at hreaches
          simp only [hread, ok_bind, error_bind]
          exact .of_error hreaches
        | ok got =>
          obtain ⟨acc', rest⟩ := got
          rw [hread] at hitem
          simp only [hread, ok_bind]
          exact hitem.andThen (ih false acc' rest)

/-! ## Values in step -/

theorem readItem_eq {α : Type} (item : Reader α) (items : List α) (bs : Bytes) :
    readItem item items bs = (item bs).map fun p => (p.1 :: items, p.2) := by
  unfold readItem
  cases item bs <;> rfl

theorem readList_eq (bound : Nat) (value : Reader Json) (bs : Bytes) :
    readList bound value bs =
      (foldItems Byte.closeBracket (readItem value) bound true [] bs).map
        fun p => (arr p.1.reverse, p.2) := by
  unfold readList readItems foldSequence
  cases foldItems Byte.closeBracket (readItem value) bound true [] bs <;> rfl

theorem readObject_eq (bound : Nat) (value : Reader Json) (bs : Bytes) :
    readObject bound value bs =
      (foldItems Byte.closeBrace (readMember value) bound true [] bs).map
        fun p => (obj p.1, p.2) := by
  unfold readObject foldSequence
  cases foldItems Byte.closeBrace (readMember value) bound true [] bs <;> rfl

theorem readMember_eq (value : Reader Json) (members : Members) (bs : Bytes) :
    readMember value members bs =
      memberStart bs >>= fun p =>
        (value p.2).map fun q => (members.insert p.1 q.1, q.2) := by
  unfold readMember memberStart
  cases readKey readString bs with
  | error fault => rfl
  | ok got =>
    obtain ⟨key, rest⟩ := got
    cases hcolon : readColon rest with
    | error fault => simp only [ok_bind, hcolon, error_bind]
    | ok after =>
      simp only [ok_bind, hcolon, pure_eq_ok]
      cases value after <;> rfl

theorem nestingItems_reverse_le (vs : List Json) : nestingItems vs.reverse ≤ nestingItems vs := by
  rw [nestingItems_le_iff]
  intro v hv
  exact nestingItems_le_iff.1 (Nat.le_refl _) v (List.mem_reverse.1 hv)

theorem nestingMembers_insert_le (key : String) (v : Json) (members : Members) :
    nestingMembers (members.insert key v) ≤ max (nestingMembers members) v.nesting := by
  fun_induction Members.insert key v members with
  | case1 => simp [nestingMembers]
  | case2 w rest => simp only [nestingMembers]; omega
  | case3 k' w rest _ _ => simp only [nestingMembers]; omega
  | case4 k' w rest _ _ ih => simp only [nestingMembers]; omega

theorem readMember_inStep {value : Reader Json} {inner : Bytes → Nat}
    (hvalue : ∀ bs, InStep [] nesting 0 bs (inner bs) (value bs)) (members : Members) (bs : Bytes) :
    InStep [] nestingMembers (nestingMembers members) bs (openedByMember inner bs)
      (readMember value members bs) := by
  rw [readMember_eq]
  unfold openedByMember
  cases hstart : memberStart bs with
  | error fault => exact .of_error (reaches_zero bs)
  | ok got =>
    obtain ⟨key, rest⟩ := got
    obtain ⟨piece, rfl, hpiece⟩ := memberStart_balanced hstart
    have hafter := ((hvalue rest).map (fun v => members.insert key v)
      fun v => nestingMembers_insert_le key v members).after hpiece
    rwa [Nat.zero_max] at hafter

theorem readText_scalarTo {v : Json} {bs rest : Bytes}
    (h : keepScalars.string bs = .ok (v, rest)) :
    v.nesting = 0 ∧ ScalarTo (Byte.quote :: bs) rest := by
  simp only [keepScalars, bind_eq_ok] at h
  obtain ⟨⟨s, after⟩, hstring, h⟩ := h
  cases h
  exact ⟨rfl, (readString_stringTo hstring).scalarTo⟩

theorem readLiteral_scalarTo {value v : Json} {b : UInt8} {name bs rest : Bytes}
    (hname : ∀ c ∈ b :: name, Inert c) (hvalue : value.nesting = 0)
    (h : readLiteral value name bs = .ok (v, rest)) :
    v.nesting = 0 ∧ ScalarTo (b :: bs) rest := by
  obtain ⟨hb, hname⟩ := List.forall_mem_cons.1 hname
  obtain ⟨rfl, hrest⟩ := readLiteral_inertTo hname h
  exact ⟨hvalue, (hrest.cons hb).scalarTo (Nat.lt_succ_of_le hrest.length_le)⟩

/-- What is read is a list, an object or a scalar. -/
theorem readValueWith_cases {list object : Reader Json} {b : UInt8} {bs start rest : Bytes}
    {v : Json} (hstart : skipBlanks bs = b :: start)
    (h : readValueWith keepScalars list object bs = .ok (v, rest)) :
    (b = Byte.openBracket ∧ list start = .ok (v, rest)) ∨
      (b = Byte.openBrace ∧ object start = .ok (v, rest)) ∨
      (b ≠ Byte.openBracket ∧ b ≠ Byte.openBrace) ∧ v.nesting = 0 ∧ ScalarTo (b :: start) rest := by
  simp only [readValueWith, hstart] at h
  split at h
  · exact .inl ⟨‹_›, h⟩
  rename_i hbracket
  split at h
  · exact .inr (.inl ⟨‹_›, h⟩)
  rename_i hbrace
  refine .inr (.inr ⟨⟨hbracket, hbrace⟩, ?_⟩)
  split at h
  · rename_i hb
    rw [hb]
    exact readText_scalarTo h
  split at h
  · exact readNumber_scalarTo h
  split at h
  · rename_i hb
    rw [hb]
    exact readLiteral_scalarTo (by decide +kernel) rfl h
  split at h
  · rename_i hb
    rw [hb]
    exact readLiteral_scalarTo (by decide +kernel) rfl h
  split at h
  · rename_i hb
    rw [hb]
    exact readLiteral_scalarTo (by decide +kernel) rfl h
  · cases h

theorem readValueWith_inStep {list object : Reader Json} {inList inObject : Bytes → Nat}
    (hlist : ∀ bs, InStep [] nesting 0 (Byte.openBracket :: bs) (inList bs + 1) (list bs))
    (hobject : ∀ bs, InStep [] nesting 0 (Byte.openBrace :: bs) (inObject bs + 1) (object bs))
    (bs : Bytes) :
    InStep [] nesting 0 bs (openedWith inList inObject bs)
      (readValueWith keepScalars list object bs) := by
  have hblanks := inertTo_skipBlanks bs
  cases heq : skipBlanks bs with
  | nil =>
    simp only [readValueWith, openedWith, heq]
    exact .of_error (reaches_zero bs)
  | cons b start =>
    rw [heq] at hblanks
    refine InStep.after_inert hblanks ⟨?_, fun v rest h => ?_⟩
    · simp only [openedWith, heq]
      split
      · rename_i hb
        rw [hb]
        exact (hlist start).reaches
      split
      · rename_i hb
        rw [hb]
        exact (hobject start).reaches
      · exact reaches_zero _
    · simp only [openedWith, heq]
      obtain ⟨rfl, h⟩ | ⟨rfl, h⟩ | ⟨⟨hbracket, hbrace⟩, hflat, piece, hpiece, hbalanced, -⟩ :=
        readValueWith_cases heq h
      · exact (hlist start).consumed v rest h
      · exact (hobject start).consumed v rest h
      · simp only [hbracket, hbrace, if_false]
        exact ⟨by omega, piece, hpiece, hbalanced⟩

theorem refuse_inStep {bs : Bytes} {b : UInt8} (hb : IsOpening b) :
    InStep [] nesting 0 (b :: bs) (0 + 1) (refuse bs) :=
  .of_error ((reaches_zero bs).opening hb)

/-- **The reader is in step with the scan**, whatever it is given. -/
theorem readValue_inStep (bound levels : Nat) (bs : Bytes) :
    InStep [] nesting 0 bs (openedByValue bound levels bs) (readValue bound levels bs) := by
  induction levels generalizing bs with
  | zero =>
    apply readValueWith_inStep
    · exact fun rest => refuse_inStep (.inr rfl)
    · exact fun rest => refuse_inStep (.inl rfl)
  | succ levels ih =>
    have hitem : ∀ items bs, InStep [] nestingItems (nestingItems items) bs
        (openedByValue bound levels bs) (readItem (readValue bound levels) items bs) := by
      intro items bs
      rw [readItem_eq]
      refine (ih bs).map (fun v => v :: items) fun v => ?_
      simp only [nestingItems]
      omega
    have hreverse : ∀ items : List Json, (arr items.reverse).nesting ≤ nestingItems items + 1 :=
      fun items => Nat.succ_le_succ (nestingItems_reverse_le items)
    apply readValueWith_inStep
    · intro rest
      rw [readList_eq]
      exact (foldItems_inStep hitem bound true [] rest).enclose (fun items => arr items.reverse)
        hreverse (.inr rfl) (.inr rfl)
    · intro rest
      rw [readObject_eq]
      exact (foldItems_inStep (readMember_inStep ih) bound true [] rest).enclose obj
        (fun members => Nat.le_refl _) (.inl rfl) (.inl rfl)

/-- What the reader opens at most is what the scan counts. -/
theorem openedByValue_le (bound levels : Nat) (text : Bytes) :
    openedByValue bound levels text ≤ textNesting text :=
  le_textNesting_of_reaches (readValue_inStep bound levels text).reaches

end Json

end AstDump
