import AstDump.Proofs.Doubles
import AstDump.Proofs.ReaderNesting

/-!
# The text of a value is read back

Lists and objects are written and read alike, as sequences of items between brackets; a sequence is
read back if each of its items is. Members that are read in the order of their keys stand in that
order, so that an object is the same again.

* `Json.induct`                     : induction over the items and members of values;
* `Json.writeAll`                   : the inside of a list or an object, with its closing bracket;
* `Json.Closes.foldItems_writeAll`  : reading a sequence is going through its items;
* `Members.foldl_insert`            : members that come in order stay in order;
* `Json.readsBack`                  : a value without doubles is read back, whatever follows it.
-/

namespace AstDump

open NestingScan

namespace Json

/-- Induction over a value: a list from its items, an object from the values of its members. -/
@[elab_as_elim]
theorem induct {P : Json → Prop} (null : P null) (bool : ∀ b, P (bool b)) (int : ∀ n, P (int n))
    (float : ∀ x, P (float x)) (str : ∀ s, P (str s))
    (arr : ∀ items, (∀ v ∈ items, P v) → P (arr items))
    (obj : ∀ members : Members, (∀ m ∈ members, P m.2) → P (obj members)) (v : Json) : P v := by
  cases v with
  | null => exact null
  | bool b => exact bool b
  | int n => exact int n
  | float x => exact float x
  | str s => exact str s
  | arr items => exact arr items fun v _ => induct null bool int float str arr obj v
  | obj members => exact obj members fun m _ => induct null bool int float str arr obj m.2
termination_by sizeOf v
decreasing_by
  · rename_i hv
    have hlt := List.sizeOf_lt_of_mem hv
    simp only [Json.arr.sizeOf_spec]
    omega
  · rename_i hm
    have hlt := List.sizeOf_lt_of_mem hm
    have hvalue : sizeOf m = 1 + sizeOf m.1 + sizeOf m.2 := rfl
    simp only [Json.obj.sizeOf_spec]
    omega

/-! ## Writing sequences -/

/-- The further items of a sequence and its closing bracket, before `rest`. -/
def writeFurther {α : Type} (close : Char) (write : α → List Char → List Char) :
    List α → List Char → List Char
  | [], rest => close :: rest
  | x :: xs, rest => ',' :: write x (writeFurther close write xs rest)

/-- The items of a sequence and its closing bracket, before `rest`. -/
def writeAll {α : Type} (close : Char) (write : α → List Char → List Char) :
    List α → List Char → List Char
  | [], rest => close :: rest
  | x :: xs, rest => write x (writeFurther close write xs rest)

/-- A member, before `rest`. -/
def writeMember (m : String × Json) (rest : List Char) : List Char :=
  quoteOnto m.1 (':' :: m.2.writeOnto rest)

theorem writeItems_eq (vs : List Json) (rest : List Char) :
    writeItems vs rest = writeFurther ']' writeOnto vs rest := by
  induction vs with
  | nil => rfl
  | cons v vs ih => rw [writeItems, writeFurther, ih]

theorem writeMembers_eq (ms : Members) (rest : List Char) :
    writeMembers ms rest = writeFurther '\x7d' writeMember ms rest := by
  induction ms with
  | nil => rfl
  | cons m ms ih => rw [writeMembers, writeFurther, ih, writeMember]

theorem writeOnto_arr (vs : List Json) (rest : List Char) :
    (arr vs).writeOnto rest = '[' :: writeAll ']' writeOnto vs rest := by
  cases vs with
  | nil => rfl
  | cons v vs => rw [writeOnto, writeAll, writeItems_eq]

theorem writeOnto_obj (ms : Members) (rest : List Char) :
    (obj ms).writeOnto rest = '\x7b' :: writeAll '\x7d' writeMember ms rest := by
  cases ms with
  | nil => rfl
  | cons m ms => rw [writeOnto, writeAll, writeMembers_eq, writeMember]

/-! ## Reading values back -/

theorem skipBlanks_cons {b : UInt8} (h : Byte.isBlank b = false) (bs : Bytes) :
    skipBlanks (b :: bs) = b :: bs := by
  rw [skipBlanks, List.dropWhile_cons_of_neg (by simp [h])]

/-- Where an item of a sequence can start. -/
def ItemStart (close : UInt8) (bs : Bytes) : Prop :=
  ∃ b rest, bs = b :: rest ∧ Byte.isBlank b = false ∧ b ≠ close

theorem nextItem_start {close : UInt8} {bs : Bytes} (h : ItemStart close bs) :
    nextItem close true bs = .ok (some bs) := by
  obtain ⟨b, rest, rfl, hblank, hclose⟩ := h
  simp [nextItem, skipBlanks_cons hblank, hclose]

theorem nextItem_comma {close : UInt8} {bs : Bytes} (hclose : close ≠ Byte.comma)
    (h : ItemStart close bs) : nextItem close false (Byte.comma :: bs) = .ok (some bs) := by
  obtain ⟨b, rest, rfl, hblank, hne⟩ := h
  have hcomma : skipBlanks (Byte.comma :: b :: rest) = Byte.comma :: b :: rest := rfl
  simp [nextItem, hcomma, skipBlanks_cons hblank, hclose.symm, hne]

theorem nextItem_close {close : UInt8} (hclose : Byte.isBlank close = false) (first : Bool)
    (bs : Bytes) : nextItem close first (close :: bs) = .ok none := by
  simp [nextItem, skipBlanks_cons hclose]

/-- What closes a container, as a character and as a byte. -/
structure Closes (c : Char) (close : UInt8) : Prop where
  bytes : String.utf8EncodeChar c = [close]
  isClosing : IsClosing close

theorem closes_bracket : Closes ']' Byte.closeBracket := ⟨rfl, .inr rfl⟩

theorem closes_brace : Closes '\x7d' Byte.closeBrace := ⟨rfl, .inl rfl⟩

theorem numberEnd_of_cons {b : UInt8} (hb : Byte.isDigit b = false) (hpoint : b ≠ Byte.point)
    (hlower : b ≠ Byte.lowerE) (hupper : b ≠ Byte.upperE) (rest : Bytes) :
    NumberEnd (b :: rest) := by
  intro c hc
  cases hc
  exact ⟨hb, hpoint, hlower, hupper⟩

section Sequences

variable {σ α : Type} {c : Char} {close : UInt8} {write : α → List Char → List Char}
  (step : σ → Reader σ) (put : σ → α → Except Fault σ)

/-- No number goes on where an item of a sequence ends. -/
theorem Closes.numberEnd (hc : Closes c close) (xs : List α) (rest : List Char) :
    NumberEnd (charBytes (writeFurther c write xs rest)) := by
  cases xs with
  | nil =>
    rw [writeFurther, charBytes_cons, hc.bytes]
    obtain rfl | rfl := hc.isClosing
    · exact numberEnd_of_cons (by decide) (by decide) (by decide) (by decide) _
    · exact numberEnd_of_cons (by decide) (by decide) (by decide) (by decide) _
  | cons x xs => exact numberEnd_of_cons (by decide) (by decide) (by decide) (by decide) _

theorem Closes.foldItems_close (hc : Closes c close) {n : Nat} (hn : 0 < n) (first : Bool) (acc : σ)
    (rest : List Char) :
    foldItems close step n first acc (charBytes (c :: rest)) = .ok (acc, charBytes rest) := by
  obtain ⟨n, rfl⟩ : ∃ m, n = m + 1 := ⟨n - 1, by omega⟩
  have hblank : Byte.isBlank close = false := by
    obtain rfl | rfl := hc.isClosing <;> decide
  rw [charBytes_cons, hc.bytes, List.singleton_append, foldItems_succ, nextItem_close hblank,
    ok_bind]
  simp only [skipBlanks_cons hblank, List.tail_cons]

/-- The further items of a sequence, where `put` is what becomes of an item: what is already there
with the item added, or a fault that ends the reading. -/
theorem Closes.foldItems_writeFurther (hc : Closes c close) (rest : List Char) (xs : List α)
    (hstart : ∀ x ∈ xs, ∀ rest, ItemStart close (charBytes (write x rest)))
    (hitem : ∀ x ∈ xs, ∀ acc rest, NumberEnd (charBytes rest) →
      step acc (charBytes (write x rest)) = (put acc x).map fun acc => (acc, charBytes rest)) :
    ∀ n acc, xs.length < n →
      foldItems close step n false acc (charBytes (writeFurther c write xs rest)) =
        (xs.foldlM put acc).map fun acc => (acc, charBytes rest) := by
  induction xs with
  | nil =>
    intro n acc hn
    exact hc.foldItems_close step hn false acc rest
  | cons x xs ih =>
    intro n acc hn
    obtain ⟨n, rfl⟩ : ∃ m, n = m + 1 := ⟨n - 1, by omega⟩
    obtain ⟨hx, hxs⟩ := List.forall_mem_cons.1 hstart
    obtain ⟨hread, hreads⟩ := List.forall_mem_cons.1 hitem
    have hcomma : close ≠ Byte.comma := by
      obtain rfl | rfl := hc.isClosing <;> decide
    have hbytes : charBytes (writeFurther c write (x :: xs) rest) =
        Byte.comma :: charBytes (write x (writeFurther c write xs rest)) := rfl
    rw [hbytes, foldItems_succ, nextItem_comma hcomma (hx _), ok_bind, List.foldlM_cons]
    dsimp only
    rw [hread acc _ (hc.numberEnd xs rest)]
    cases put acc x with
    | error e => rfl
    | ok acc => exact ih hxs hreads n acc (by simpa using hn)

/-- **Reading a sequence is going through its items**, up to the first fault. -/
theorem Closes.foldItems_writeAll (hc : Closes c close) (rest : List Char) (xs : List α)
    (hstart : ∀ x ∈ xs, ∀ rest, ItemStart close (charBytes (write x rest)))
    (hitem : ∀ x ∈ xs, ∀ acc rest, NumberEnd (charBytes rest) →
      step acc (charBytes (write x rest)) = (put acc x).map fun acc => (acc, charBytes rest))
    {n : Nat} (acc : σ) (hn : xs.length < n) :
    foldItems close step n true acc (charBytes (writeAll c write xs rest)) =
      (xs.foldlM put acc).map fun acc => (acc, charBytes rest) := by
  cases xs with
  | nil => exact hc.foldItems_close step hn true acc rest
  | cons x xs =>
    obtain ⟨n, rfl⟩ : ∃ m, n = m + 1 := ⟨n - 1, by omega⟩
    obtain ⟨hx, hxs⟩ := List.forall_mem_cons.1 hstart
    obtain ⟨hread, hreads⟩ := List.forall_mem_cons.1 hitem
    rw [writeAll, foldItems_succ, nextItem_start (hx _), ok_bind, List.foldlM_cons]
    dsimp only
    rw [hread acc _ (hc.numberEnd xs rest)]
    cases put acc x with
    | error e => rfl
    | ok acc =>
      exact hc.foldItems_writeFurther step put rest xs hxs hreads n acc (by simpa using hn)

/-- A sequence is read back if its items are. -/
theorem Closes.foldItems_writeAll_ok (hc : Closes c close) (add : σ → α → σ) (rest : List Char)
    (xs : List α) (hstart : ∀ x ∈ xs, ∀ rest, ItemStart close (charBytes (write x rest)))
    (hitem : ∀ x ∈ xs, ∀ acc rest, NumberEnd (charBytes rest) →
      step acc (charBytes (write x rest)) = .ok (add acc x, charBytes rest))
    {n : Nat} (acc : σ) (hn : xs.length < n) :
    foldItems close step n true acc (charBytes (writeAll c write xs rest)) =
      .ok (xs.foldl add acc, charBytes rest) := by
  have hread := hc.foldItems_writeAll step (fun acc x => pure (add acc x)) rest xs hstart hitem
    acc hn
  rw [List.foldlM_pure] at hread
  exact hread

end Sequences

end Json

/-! ### Members in order -/

namespace Members

/-- A key behind all others is inserted at the end. -/
theorem insert_last {members : Members} {key : String} {v : Json}
    (h : ∀ k ∈ members.keys, k < key) : members.insert key v = members ++ [(key, v)] := by
  induction members with
  | nil => rfl
  | cons m members ih =>
    obtain ⟨hm, hmembers⟩ := List.forall_mem_cons.1 h
    have hne : m.1 ≠ key := fun heq => String.lt_irrefl key (heq ▸ hm)
    have hnot : ¬ key < m.1 := fun hlt => String.lt_asymm hm hlt
    rw [insert, if_neg hne, if_neg hnot, ih hmembers]
    rfl

/-- Members that are inserted in the order of their keys stand in that order. -/
theorem foldl_insert (ms : Members) : ∀ acc : Members, (keys (acc ++ ms)).Pairwise (· < ·) →
    ms.foldl (fun acc m => insert m.1 m.2 acc) acc = acc ++ ms := by
  induction ms with
  | nil =>
    intro acc _
    rw [List.foldl_nil, List.append_nil]
  | cons m ms ih =>
    intro acc hsorted
    have hbefore : ∀ k ∈ keys acc, k < m.1 := by
      rw [keys, List.map_append, List.map_cons, List.pairwise_append] at hsorted
      exact fun k hk => hsorted.2.2 k hk m.1 List.mem_cons_self
    rw [List.foldl_cons, insert_last hbefore, ih (acc ++ [m]), List.append_assoc]
    · rfl
    · rwa [List.append_assoc]

end Members

namespace Json

/-! ### Values -/

/-- A byte that a number starts with. -/
theorem numberStart_cases {b : UInt8} (h : b = Byte.minus ∨ Byte.isDigit b) :
    Byte.isBlank b = false ∧ Inert b := by
  obtain rfl | h := h
  · decide
  · refine ⟨?_, Byte.inert_of_isDigit b h⟩
    rw [← Bool.not_eq_true]
    intro hblank
    simp only [Byte.isBlank, Bool.or_eq_true, beq_iff_eq] at hblank
    obtain ((rfl | rfl) | rfl) | rfl := hblank <;> revert h <;> decide

/-- A value that starts as a number is read as one. -/
theorem readValueWith_number {α : Type} (scalars : ScalarReaders α) (list object : Reader α)
    {b : UInt8} (hb : b = Byte.minus ∨ Byte.isDigit b) (bs : Bytes) :
    readValueWith scalars list object (b :: bs) = scalars.number (b :: bs) := by
  obtain ⟨hblank, hquote, hbrace, hbracket, -, -⟩ := numberStart_cases hb
  unfold readValueWith
  rw [skipBlanks_cons hblank]
  dsimp only
  rw [if_neg hbracket, if_neg hbrace, if_neg hquote, if_pos hb]

/-- A value starts neither with a blank nor with a closing bracket. -/
theorem itemStart_writeOnto {close : UInt8} (hclose : IsClosing close) {v : Json}
    (h : v.Canonical) (rest : List Char) : ItemStart close (charBytes (v.writeOnto rest)) := by
  cases v with
  | null => exact ⟨Byte.lowerN, _, rfl, by decide, by obtain rfl | rfl := hclose <;> decide⟩
  | bool b =>
    cases b with
    | false => exact ⟨Byte.lowerF, _, rfl, by decide, by obtain rfl | rfl := hclose <;> decide⟩
    | true => exact ⟨Byte.lowerT, _, rfl, by decide, by obtain rfl | rfl := hclose <;> decide⟩
  | int n =>
    obtain ⟨b, bs, hbytes, hb⟩ := charBytes_intChars_eq_cons n
    obtain ⟨hblank, -, -, -, hbrace, hbracket⟩ := numberStart_cases hb
    rw [writeOnto, charBytes_append, hbytes]
    exact ⟨b, _, rfl, hblank, by obtain rfl | rfl := hclose <;> assumption⟩
  | float x =>
    obtain ⟨b, bs, hbytes, hb⟩ := Binary64.charBytes_chars_eq_cons h.1
    obtain ⟨hblank, -, -, -, hbrace, hbracket⟩ := numberStart_cases hb
    rw [writeOnto, charBytes_append, hbytes]
    exact ⟨b, _, rfl, hblank, by obtain rfl | rfl := hclose <;> assumption⟩
  | str s => exact ⟨Byte.quote, _, rfl, by decide, by obtain rfl | rfl := hclose <;> decide⟩
  | arr vs =>
    rw [writeOnto_arr]
    exact ⟨Byte.openBracket, _, rfl, by decide, by obtain rfl | rfl := hclose <;> decide⟩
  | obj ms =>
    rw [writeOnto_obj]
    exact ⟨Byte.openBrace, _, rfl, by decide, by obtain rfl | rfl := hclose <;> decide⟩

/-- A value is read back, whatever follows it, with levels enough for it and for fewer items than
the bound. -/
def ReadsBack (v : Json) : Prop :=
  ∀ bound levels rest, v.nesting ≤ levels → v.size < bound → NumberEnd (charBytes rest) →
    readValue bound levels (charBytes (v.writeOnto rest)) = .ok (v, charBytes rest)

theorem readValue_scalar (bound levels : Nat) :
    ∃ list object, readValue bound levels = readValueWith keepScalars list object := by
  cases levels with
  | zero => exact ⟨_, _, rfl⟩
  | succ levels => exact ⟨_, _, rfl⟩

theorem readsBack_null : ReadsBack null := by
  intro bound levels rest _ _ _
  obtain ⟨list, object, hread⟩ := readValue_scalar bound levels
  rw [hread]
  rfl

theorem readsBack_bool (b : Bool) : ReadsBack (bool b) := by
  intro bound levels rest _ _ _
  obtain ⟨list, object, hread⟩ := readValue_scalar bound levels
  rw [hread]
  cases b <;> rfl

theorem readsBack_str (s : String) : ReadsBack (str s) := by
  intro bound levels rest _ _ _
  obtain ⟨list, object, hread⟩ := readValue_scalar bound levels
  have hstring : keepScalars.string (charBytes (escapeOnto s.toList ('"' :: rest))) =
      .ok (str s, charBytes rest) := by
    simp only [keepScalars, readString_escapeOnto, ok_bind, pure_eq_ok]
  rw [hread]
  exact hstring

theorem readsBack_int {n : Int} (h : (int n).Canonical) : ReadsBack (int n) := by
  intro bound levels rest _ _ hend
  obtain ⟨list, object, hread⟩ := readValue_scalar bound levels
  obtain ⟨b, bs, hbytes, hb⟩ := charBytes_intChars_eq_cons n
  have hnumber := readNumber_intChars hend h.1 h.2
  rw [hread, writeOnto, charBytes_append]
  rw [hbytes, List.cons_append] at hnumber ⊢
  rw [readValueWith_number _ _ _ hb]
  exact hnumber

theorem readsBack_arr {vs : List Json} (hcanonical : ∀ v ∈ vs, v.Canonical)
    (h : ∀ v ∈ vs, ReadsBack v) : ReadsBack (arr vs) := by
  intro bound levels rest hlevels hbound hend
  obtain ⟨hlength, hbounds⟩ := sizeItems_bounds vs
  simp only [nesting] at hlevels
  simp only [size] at hbound
  obtain ⟨levels, rfl⟩ : ∃ l, levels = l + 1 := ⟨levels - 1, by omega⟩
  have hitem : ∀ v ∈ vs, ∀ items rest, NumberEnd (charBytes rest) →
      readItem (readValue bound levels) items (charBytes (v.writeOnto rest)) =
        .ok (v :: items, charBytes rest) := by
    intro v hv items rest hend
    have hbounds := hbounds v hv
    rw [readItem_eq, h v hv bound levels rest (by omega) (by omega) hend]
    rfl
  have hcount : vs.length < bound := by omega
  have hitems := closes_bracket.foldItems_writeAll_ok (readItem (readValue bound levels))
    (fun items v => v :: items) rest vs
    (fun v hv rest => itemStart_writeOnto (.inr rfl) (hcanonical v hv) rest) hitem [] hcount
  have hread : readValue bound (levels + 1) (charBytes ((arr vs).writeOnto rest)) =
      readList bound (readValue bound levels) (charBytes (writeAll ']' writeOnto vs rest)) := by
    rw [writeOnto_arr]
    rfl
  rw [hread, readList_eq, hitems]
  simp [Except.map]

theorem memberStart_quoteOnto (key : String) (rest : List Char) :
    memberStart (charBytes (quoteOnto key (':' :: rest))) = .ok (key, charBytes rest) := by
  have hkey : readKey readString (charBytes (quoteOnto key (':' :: rest))) =
      .ok (key, charBytes (':' :: rest)) := readString_escapeOnto key (':' :: rest)
  have hcolon : readColon (charBytes (':' :: rest)) = .ok (charBytes rest) := rfl
  simp only [memberStart, hkey, hcolon, ok_bind, pure_eq_ok]

theorem readsBack_obj {ms : Members} (hsorted : (Members.keys ms).Pairwise (· < ·))
    (h : ∀ m ∈ ms, ReadsBack m.2) : ReadsBack (obj ms) := by
  intro bound levels rest hlevels hbound hend
  obtain ⟨hlength, hbounds⟩ := sizeMembers_bounds ms
  simp only [nesting] at hlevels
  simp only [size] at hbound
  obtain ⟨levels, rfl⟩ : ∃ l, levels = l + 1 := ⟨levels - 1, by omega⟩
  have hmember : ∀ m ∈ ms, ∀ (members : Members) rest, NumberEnd (charBytes rest) →
      readMember (readValue bound levels) members (charBytes (writeMember m rest)) =
        .ok (members.insert m.1 m.2, charBytes rest) := by
    intro m hm members rest hend
    have hbounds := hbounds m hm
    rw [readMember_eq, writeMember, memberStart_quoteOnto, ok_bind,
      h m hm bound levels rest (by omega) (by omega) hend]
    rfl
  have hcount : List.length ms < bound := by omega
  have hmembers := closes_brace.foldItems_writeAll_ok (readMember (readValue bound levels))
    (fun members m => Members.insert m.1 m.2 members) rest ms
    (fun m _ rest => ⟨Byte.quote, _, rfl, by decide, by decide⟩) hmember [] hcount
  have hread : readValue bound (levels + 1) (charBytes ((obj ms).writeOnto rest)) =
      readObject bound (readValue bound levels)
        (charBytes (writeAll '\x7d' writeMember ms rest)) := by
    rw [writeOnto_obj]
    rfl
  rw [hread, readObject_eq, hmembers, Members.foldl_insert ms [] hsorted]
  rfl

/-- **A value without doubles is read back.** -/
theorem readsBack (v : Json) : v.Canonical → v.Whole → ReadsBack v := by
  induction v using Json.induct with
  | null => exact fun _ _ => readsBack_null
  | bool b => exact fun _ _ => readsBack_bool b
  | int n => exact fun hcanonical _ => readsBack_int hcanonical
  | float x => exact fun _ hwhole => hwhole.elim
  | str s => exact fun _ _ => readsBack_str s
  | arr vs ih =>
    intro hcanonical hwhole
    have hcanonical := canonicalItems_iff.1 hcanonical
    have hwhole := wholeItems_iff.1 hwhole
    exact readsBack_arr hcanonical fun v hv => ih v hv (hcanonical v hv) (hwhole v hv)
  | obj ms ih =>
    intro ⟨hsorted, hcanonical⟩ hwhole
    have hcanonical := canonicalMembers_iff.1 hcanonical
    have hwhole := wholeMembers_iff.1 hwhole
    exact readsBack_obj hsorted fun m hm => ih m hm (hcanonical m hm) (hwhole m hm)

end Json

end AstDump
