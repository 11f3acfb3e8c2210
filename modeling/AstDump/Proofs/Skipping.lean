import AstDump.Proofs.RoundTrip

/-!
# Values that are skipped

A value that nobody asked for is passed over by its form alone: strings up to their closing quote,
numbers by their digits and marks, containers item by item. What is written is passed over whole, so
that reading goes on right behind it.

* `Json.skipString_of_stringBody` : a string that can be read can be skipped;
* `Json.skipNumber_chars`         : so can a number, of any size;
* `Json.skips`                    : and the text of any value, whatever follows it;
* `Json.takesSpace`               : a text is as long as its value is large.
-/

namespace AstDump

namespace Json

/-! ## Strings -/

theorem skipString_plain {b : UInt8} (hquote : b ≠ Byte.quote) (hspace : ¬ b < Byte.space)
    (hbackslash : b ≠ Byte.backslash) (rest : Bytes) :
    skipString (b :: rest) = skipString rest := by
  rw [skipString.eq_def]
  simp [hquote, hspace, hbackslash]

theorem skipString_hexWord {w x y z : UInt8} {n : Nat} (h : hexWord? w x y z = some n)
    (rest : Bytes) :
    skipString (Byte.backslash :: Byte.lowerU :: w :: x :: y :: z :: rest) = skipString rest := by
  rw [skipString.eq_def]
  dsimp only
  rw [if_neg (by decide), if_neg (by decide), if_neg (by decide)]
  split
  · next heq => cases heq
  · next heq =>
    cases heq
    rw [h]
  · next hshort heq =>
    cases heq
    exact (hshort w x y z rest rfl).elim
  · next hne heq =>
    cases heq
    exact (hne rfl).elim

theorem skipString_escape {e c : UInt8} (h : shortEscape? e = some c) (rest : Bytes) :
    skipString (Byte.backslash :: e :: rest) = skipString rest := by
  have hne : e ≠ Byte.lowerU := by
    rintro rfl
    cases h
  rw [skipString.eq_def]
  dsimp only
  rw [if_neg (by decide), if_neg (by decide), if_neg (by decide)]
  simp [h, hne]

/-- **What can be read as a string can be skipped**, and ends at the same place. -/
theorem skipString_of_stringBody {acc bs body rest : Bytes}
    (h : stringBody acc bs = .ok (body, rest)) : skipString bs = .ok ((), rest) := by
  fun_induction stringBody acc bs with
  | case2 acc after =>
    cases h
    rw [skipString.eq_def]
    rfl
  | case4 acc b after hquote hspace hbackslash ih =>
    rw [skipString_plain hquote hspace hbackslash]
    exact ih h
  | case8 acc b _ _ hb w x y z after n hn _ _ ih =>
    obtain rfl : b = Byte.backslash := Decidable.not_not.1 hb
    exact (skipString_hexWord hn after).trans (ih h)
  | case12 acc b _ _ hb w x y z n hn _ _ w' x' y' z' after low hlow _ ih =>
    -- the two halves of a surrogate pair are skipped one by one
    obtain rfl : b = Byte.backslash := Decidable.not_not.1 hb
    exact ((skipString_hexWord hn _).trans (skipString_hexWord hlow after)).trans (ih h)
  | case17 acc b _ _ hb e after _ _ c hc ih =>
    obtain rfl : b = Byte.backslash := Decidable.not_not.1 hb
    exact (skipString_escape hc after).trans (ih h)
  | _ => cases h

theorem skipString_escapeOnto (s : String) (rest : List Char) :
    skipString (charBytes (escapeOnto s.toList ('"' :: rest))) = .ok ((), charBytes rest) :=
  skipString_of_stringBody (stringBody_escapeOnto s.toList rest [])

/-! ## Numbers -/

/-- No digit follows. -/
def DigitsEnd (rest : Bytes) : Prop := ∀ b ∈ rest.head?, Byte.isDigit b = false

theorem digitsEnd_cons {b : UInt8} (h : Byte.isDigit b = false) (rest : Bytes) :
    DigitsEnd (b :: rest) := by
  intro c hc
  cases hc
  exact h

theorem NumberEnd.digitsEnd {rest : Bytes} (h : NumberEnd rest) : DigitsEnd rest :=
  fun b hb => (h b hb).1

theorem DigitsEnd.dropWhile {rest : Bytes} (h : DigitsEnd rest) {ds : Bytes}
    (hds : ∀ d ∈ ds, Byte.isDigit d = true) : (ds ++ rest).dropWhile Byte.isDigit = rest := by
  rw [List.dropWhile_append_of_pos hds]
  cases rest with
  | nil => rfl
  | cons b rest => rw [List.dropWhile_cons_of_neg (by simp [h b rfl])]

theorem skipDigits_charBytes {ds : List Char} (hds : IsDigits ds) {rest : Bytes}
    (h : DigitsEnd rest) : skipDigits (charBytes ds ++ rest) = .ok rest := by
  obtain ⟨b, bs, hbytes, hdigits⟩ := hds.charBytes
  obtain ⟨hb, hbs⟩ := List.forall_mem_cons.1 hdigits
  rw [hbytes, List.cons_append, skipDigits, if_pos hb, h.dropWhile hbs]

/-- The digits before the point are skipped: if they start with a zero, there is no other. -/
theorem skipWhole_charBytes (t : NumberText) {rest : Bytes} (h : DigitsEnd rest) :
    skipWhole (charBytes t.whole ++ rest) = .ok rest := by
  by_cases hzero : t.whole.head? = some '0'
  · have hnone : rest.takeWhile Byte.isDigit = [] := by
      cases rest with
      | nil => rfl
      | cons b rest => rw [List.takeWhile_cons_of_neg (by simp [h b rfl])]
    have hskip : skipWhole (0x30 :: rest) =
        if (rest.takeWhile Byte.isDigit).isEmpty then .ok rest else .error .malformed := rfl
    rw [t.leading hzero]
    exact hskip.trans (by rw [hnone]; rfl)
  · obtain ⟨c, cs, hwhole⟩ := List.exists_cons_of_ne_nil t.isDigits_whole.ne_nil
    have hdigits := skipDigits_charBytes t.isDigits_whole h
    obtain ⟨b, hbytes, hb, -⟩ :=
      utf8EncodeChar_digit (t.isDigits_whole.isDigit c (hwhole ▸ List.mem_cons_self))
    unfold skipWhole
    split
    · next after hafter =>
      rw [hwhole, charBytes_cons, hbytes] at hafter
      obtain rfl := (List.cons.inj hafter).1
      rw [hwhole, List.head?_cons, Option.some.injEq] at hzero
      exact absurd (Char.toNat_inj.1 hb.symm) hzero
    · exact hdigits

theorem skipFraction_charBytes {fraction : Option (List Char)}
    (hfraction : ∀ ds ∈ fraction, IsDigits ds) {rest : Bytes} (h : DigitsEnd rest)
    (hpoint : rest.head? ≠ some Byte.point) :
    skipFraction (charBytes (NumberText.fractionChars fraction) ++ rest) = .ok rest := by
  cases fraction with
  | none =>
    unfold skipFraction
    split
    · next after hafter => exact absurd (congrArg List.head? hafter) hpoint
    · rfl
  | some ds => exact skipDigits_charBytes (hfraction ds rfl) h

theorem skipExponent_charBytes {exponent : Option (Char × List Char)}
    (hexponent : ∀ e ∈ exponent, (e.1 = '-' ∨ e.1 = '+') ∧ IsDigits e.2) {rest : Bytes}
    (h : NumberEnd rest) :
    skipExponent (charBytes (NumberText.exponentChars exponent) ++ rest) = .ok rest := by
  cases exponent with
  | none =>
    have hnone : charBytes (NumberText.exponentChars none) ++ rest = rest := rfl
    rw [hnone]
    unfold skipExponent
    split
    · exact absurd rfl (h _ rfl).2.2.1
    · exact absurd rfl (h _ rfl).2.2.2
    · rfl
  | some e =>
    obtain ⟨sign, ds⟩ := e
    obtain ⟨hsign, hds⟩ := hexponent _ rfl
    have hdigits := skipDigits_charBytes hds h.digitsEnd
    rcases hsign with rfl | rfl
    · exact hdigits
    · exact hdigits

/-- After the fraction of a number neither digits nor a point follow. -/
theorem fractionEnd_charBytes (exponent : Option (Char × List Char)) {rest : Bytes}
    (h : NumberEnd rest) :
    DigitsEnd (charBytes (NumberText.exponentChars exponent) ++ rest) ∧
      (charBytes (NumberText.exponentChars exponent) ++ rest).head? ≠ some Byte.point := by
  cases exponent with
  | none => exact ⟨h.digitsEnd, fun hpoint => (h _ hpoint).2.1 rfl⟩
  | some e => exact ⟨digitsEnd_cons (by decide) _, fun hpoint => by cases hpoint⟩

theorem wholeEnd_charBytes (fraction : Option (List Char)) {rest : Bytes} (h : DigitsEnd rest) :
    DigitsEnd (charBytes (NumberText.fractionChars fraction) ++ rest) := by
  cases fraction with
  | none => exact h
  | some ds => exact digitsEnd_cons (by decide) _

theorem skipMinus_chars (t : NumberText) (rest : Bytes) :
    skipMinus (charBytes t.chars ++ rest) = charBytes t.unsigned ++ rest := by
  unfold NumberText.chars
  split
  · rfl
  · obtain ⟨b, bs, hbytes, hdigits⟩ := t.isDigits_whole.charBytes
    rw [NumberText.unsigned, charBytes_append, hbytes, List.cons_append, List.cons_append]
    unfold skipMinus
    split
    · next after hafter =>
      obtain rfl := (List.cons.inj hafter).1
      exact absurd (hdigits _ List.mem_cons_self) (by decide)
    · rfl

/-- **A number as it is written is skipped.** -/
theorem skipNumber_chars (t : NumberText) {rest : Bytes} (h : NumberEnd rest) :
    skipNumber (charBytes t.chars ++ rest) = .ok ((), rest) := by
  obtain ⟨hdigits, hpoint⟩ := fractionEnd_charBytes t.exponent h
  have hwhole := skipWhole_charBytes t (wholeEnd_charBytes t.fraction hdigits)
  have hfraction := skipFraction_charBytes t.isDigits_fraction hdigits hpoint
  have hexponent := skipExponent_charBytes t.isDigits_exponent h
  have hunsigned : charBytes t.unsigned ++ rest = charBytes t.whole ++
      (charBytes (NumberText.fractionChars t.fraction) ++
        (charBytes (NumberText.exponentChars t.exponent) ++ rest)) := by
    simp [NumberText.unsigned]
  unfold skipNumber
  rw [skipMinus_chars, hunsigned, hwhole, ok_bind, hfraction, ok_bind, hexponent]
  rfl

/-! ## Values -/

/-- A value is skipped, whatever follows it, with levels enough for it and for fewer items than the
bound. -/
def Skips (v : Json) : Prop :=
  ∀ bound levels rest, v.nesting ≤ levels → v.size < bound → NumberEnd (charBytes rest) →
    skipValue bound levels (charBytes (v.writeOnto rest)) = .ok ((), charBytes rest)

theorem skipValue_scalar (bound levels : Nat) :
    ∃ list object, skipValue bound levels = readValueWith skipScalars list object := by
  cases levels with
  | zero => exact ⟨_, _, rfl⟩
  | succ levels => exact ⟨_, _, rfl⟩

theorem skips_null : Skips null := by
  intro bound levels rest _ _ _
  obtain ⟨list, object, hskip⟩ := skipValue_scalar bound levels
  rw [hskip]
  rfl

theorem skips_bool (b : Bool) : Skips (bool b) := by
  intro bound levels rest _ _ _
  obtain ⟨list, object, hskip⟩ := skipValue_scalar bound levels
  rw [hskip]
  cases b <;> rfl

theorem skips_str (s : String) : Skips (str s) := by
  intro bound levels rest _ _ _
  obtain ⟨list, object, hskip⟩ := skipValue_scalar bound levels
  rw [hskip]
  exact skipString_escapeOnto s rest

theorem skips_number {v : Json} {t : NumberText} (h : ∀ rest, v.writeOnto rest = t.chars ++ rest) :
    Skips v := by
  intro bound levels rest _ _ hend
  obtain ⟨list, object, hskip⟩ := skipValue_scalar bound levels
  obtain ⟨b, bs, hbytes, hb⟩ := t.start
  have hnumber := skipNumber_chars t hend
  rw [hskip, h, charBytes_append]
  rw [hbytes, List.cons_append] at hnumber ⊢
  rw [readValueWith_number _ _ _ hb]
  exact hnumber

theorem skips_arr {vs : List Json} (hcanonical : ∀ v ∈ vs, v.Canonical) (h : ∀ v ∈ vs, Skips v) :
    Skips (arr vs) := by
  intro bound levels rest hlevels hbound hend
  obtain ⟨hlength, hbounds⟩ := sizeItems_bounds vs
  simp only [nesting] at hlevels
  simp only [size] at hbound
  obtain ⟨levels, rfl⟩ : ∃ l, levels = l + 1 := ⟨levels - 1, by omega⟩
  have hcount : vs.length < bound := by omega
  have hitems := closes_bracket.foldItems_writeAll_ok (fun _ => skipValue bound levels)
    (fun acc _ => acc) rest vs
    (fun v hv rest => itemStart_writeOnto (.inr rfl) (hcanonical v hv) rest)
    (fun v hv _ rest hend => by
      have hbounds := hbounds v hv
      exact h v hv bound levels rest (by omega) (by omega) hend) () hcount
  rw [writeOnto_arr]
  exact hitems

theorem skips_obj {ms : Members} (h : ∀ m ∈ ms, Skips m.2) : Skips (obj ms) := by
  intro bound levels rest hlevels hbound hend
  obtain ⟨hlength, hbounds⟩ := sizeMembers_bounds ms
  simp only [nesting] at hlevels
  simp only [size] at hbound
  obtain ⟨levels, rfl⟩ : ∃ l, levels = l + 1 := ⟨levels - 1, by omega⟩
  have hmember : ∀ m ∈ ms, ∀ (_ : Unit) rest, NumberEnd (charBytes rest) →
      skipMember (skipValue bound levels) (charBytes (writeMember m rest)) =
        .ok ((), charBytes rest) := by
    intro m hm _ rest hend
    have hbounds := hbounds m hm
    have hkey : readKey skipString (charBytes (writeMember m rest)) =
        .ok ((), charBytes (':' :: m.2.writeOnto rest)) := skipString_escapeOnto m.1 _
    have hcolon : readColon (charBytes (':' :: m.2.writeOnto rest)) =
        .ok (charBytes (m.2.writeOnto rest)) := rfl
    simp only [skipMember, hkey, hcolon, ok_bind]
    exact h m hm bound levels rest (by omega) (by omega) hend
  have hcount : List.length ms < bound := by omega
  have hmembers := closes_brace.foldItems_writeAll_ok (fun _ => skipMember (skipValue bound levels))
    (fun acc _ => acc) rest ms (fun m _ rest => ⟨Byte.quote, _, rfl, by decide, by decide⟩) hmember
    () hcount
  rw [writeOnto_obj]
  exact hmembers

/-- **The text of a value is skipped**, whatever follows it. -/
theorem skips (v : Json) : v.Canonical → Skips v := by
  induction v using Json.induct with
  | null => exact fun _ => skips_null
  | bool b => exact fun _ => skips_bool b
  | int n =>
    obtain ⟨t, ht⟩ := exists_numberText n
    exact fun _ => skips_number fun rest => by rw [writeOnto, ht]
  | float x =>
    intro hcanonical
    obtain ⟨t, ht⟩ := Binary64.exists_numberText hcanonical.1
    exact skips_number fun rest => by rw [writeOnto, ht]
  | str s => exact fun _ => skips_str s
  | arr vs ih =>
    intro hcanonical
    have hcanonical := canonicalItems_iff.1 hcanonical
    exact skips_arr hcanonical fun v hv => ih v hv (hcanonical v hv)
  | obj ms ih =>
    rintro ⟨-, hcanonical⟩
    have hcanonical := canonicalMembers_iff.1 hcanonical
    exact skips_obj fun m hm => ih m hm (hcanonical m hm)

/-! ## The length of a text -/

/-- The text of a value has at least one byte for each value in it. -/
def TakesSpace (v : Json) : Prop :=
  ∀ rest, v.size + (charBytes rest).length ≤ (charBytes (v.writeOnto rest)).length

section Sequences

/-- What the items of a sequence weigh together. -/
def weightOf {α : Type} (weight : α → Nat) : List α → Nat
  | [] => 0
  | x :: xs => weight x + weightOf weight xs

variable {α : Type} {c : Char} {close : UInt8} {write : α → List Char → List Char}
  {weight : α → Nat} {xs : List α}

theorem Closes.length_writeFurther (hc : Closes c close)
    (h : ∀ x ∈ xs, ∀ rest,
      weight x + (charBytes rest).length ≤ (charBytes (write x rest)).length) (rest : List Char) :
    weightOf weight xs + (charBytes rest).length <
      (charBytes (writeFurther c write xs rest)).length := by
  induction xs with
  | nil =>
    rw [writeFurther, charBytes_cons, hc.bytes]
    simp [weightOf]
  | cons x xs ih =>
    obtain ⟨hx, hxs⟩ := List.forall_mem_cons.1 h
    have hcomma : (charBytes (writeFurther c write (x :: xs) rest)).length =
        (charBytes (write x (writeFurther c write xs rest))).length + 1 := rfl
    have hx := hx (writeFurther c write xs rest)
    have hxs := ih hxs
    rw [hcomma, weightOf]
    omega

theorem Closes.length_writeAll (hc : Closes c close)
    (h : ∀ x ∈ xs, ∀ rest,
      weight x + (charBytes rest).length ≤ (charBytes (write x rest)).length) (rest : List Char) :
    weightOf weight xs + (charBytes rest).length <
      (charBytes (writeAll c write xs rest)).length := by
  cases xs with
  | nil => exact hc.length_writeFurther h rest
  | cons x xs =>
    obtain ⟨hx, hxs⟩ := List.forall_mem_cons.1 h
    have hx := hx (writeFurther c write xs rest)
    have hxs := hc.length_writeFurther hxs rest
    rw [writeAll, weightOf]
    omega

end Sequences

theorem sizeItems_eq_weightOf (vs : List Json) : sizeItems vs = weightOf size vs := by
  induction vs with
  | nil => rfl
  | cons v vs ih => rw [sizeItems, weightOf, ih]

theorem sizeMembers_eq_weightOf (ms : Members) :
    sizeMembers ms = weightOf (fun m => m.2.size) ms := by
  induction ms with
  | nil => rfl
  | cons m ms ih => rw [sizeMembers, weightOf, ih]

theorem length_escapeOnto (cs rest : List Char) :
    (charBytes rest).length ≤ (charBytes (escapeOnto cs rest)).length := by
  induction cs with
  | nil => exact Nat.le_refl _
  | cons c cs ih =>
    have hcons : escapeOnto (c :: cs) rest = escapeChar c ++ escapeOnto cs rest := rfl
    rw [hcons, charBytes_append, List.length_append]
    omega

theorem takesSpace_scalar {v : Json} (hsize : v.size = 1)
    (h : ∀ rest, (charBytes rest).length < (charBytes (v.writeOnto rest)).length) :
    TakesSpace v := by
  intro rest
  have hlength := h rest
  omega

theorem takesSpace_bool (b : Bool) : TakesSpace (bool b) := by
  refine takesSpace_scalar rfl fun rest => ?_
  cases b with
  | false => exact Nat.lt_add_of_pos_right (k := 5) (by decide)
  | true => exact Nat.lt_add_of_pos_right (k := 4) (by decide)

theorem takesSpace_str (s : String) : TakesSpace (str s) := by
  refine takesSpace_scalar rfl fun rest => ?_
  have hinside := length_escapeOnto s.toList ('"' :: rest)
  have hquote : (charBytes ((str s).writeOnto rest)).length =
      (charBytes (escapeOnto s.toList ('"' :: rest))).length + 1 := rfl
  have hclose : (charBytes ('"' :: rest)).length = (charBytes rest).length + 1 := rfl
  omega

theorem takesSpace_number {v : Json} {t : NumberText} (hsize : v.size = 1)
    (h : ∀ rest, v.writeOnto rest = t.chars ++ rest) : TakesSpace v := by
  refine takesSpace_scalar hsize fun rest => ?_
  obtain ⟨b, bs, hbytes, -⟩ := t.start
  rw [h, charBytes_append, hbytes, List.length_append, List.length_cons]
  omega

theorem takesSpace_arr {vs : List Json} (h : ∀ v ∈ vs, TakesSpace v) : TakesSpace (arr vs) := by
  intro rest
  have hitems := closes_bracket.length_writeAll h rest
  have hopen : (charBytes ((arr vs).writeOnto rest)).length =
      (charBytes (writeAll ']' writeOnto vs rest)).length + 1 := by
    rw [writeOnto_arr]
    rfl
  rw [hopen, size, sizeItems_eq_weightOf]
  omega

theorem takesSpace_obj {ms : Members} (h : ∀ m ∈ ms, TakesSpace m.2) : TakesSpace (obj ms) := by
  intro rest
  have hmember : ∀ m ∈ ms, ∀ rest,
      m.2.size + (charBytes rest).length ≤ (charBytes (writeMember m rest)).length := by
    intro m hm rest
    have hvalue := h m hm rest
    have hkey := length_escapeOnto m.1.toList ('"' :: ':' :: m.2.writeOnto rest)
    have hquote : (charBytes (writeMember m rest)).length =
        (charBytes (escapeOnto m.1.toList ('"' :: ':' :: m.2.writeOnto rest))).length + 1 := rfl
    have hcolon : (charBytes ('"' :: ':' :: m.2.writeOnto rest)).length =
        (charBytes (m.2.writeOnto rest)).length + 2 := rfl
    omega
  have hmembers := closes_brace.length_writeAll hmember rest
  have hopen : (charBytes ((obj ms).writeOnto rest)).length =
      (charBytes (writeAll '\x7d' writeMember ms rest)).length + 1 := by
    rw [writeOnto_obj]
    rfl
  rw [hopen, size, sizeMembers_eq_weightOf]
  omega

/-- **A text is as long as its value is large.** -/
theorem takesSpace (v : Json) : v.Canonical → TakesSpace v := by
  induction v using Json.induct with
  | null =>
    exact fun _ => takesSpace_scalar rfl fun rest => Nat.lt_add_of_pos_right (k := 4) (by decide)
  | bool b => exact fun _ => takesSpace_bool b
  | int n =>
    obtain ⟨t, ht⟩ := exists_numberText n
    exact fun _ => takesSpace_number rfl fun rest => by rw [writeOnto, ht]
  | float x =>
    intro hcanonical
    obtain ⟨t, ht⟩ := Binary64.exists_numberText hcanonical.1
    exact takesSpace_number rfl fun rest => by rw [writeOnto, ht]
  | str s => exact fun _ => takesSpace_str s
  | arr vs ih =>
    intro hcanonical
    exact takesSpace_arr fun v hv => ih v hv (canonicalItems_iff.1 hcanonical v hv)
  | obj ms ih =>
    rintro ⟨-, hcanonical⟩
    exact takesSpace_obj fun m hm => ih m hm (canonicalMembers_iff.1 hcanonical m hm)

end Json

end AstDump
