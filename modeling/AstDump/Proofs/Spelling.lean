import AstDump.Json.Printer
import AstDump.Json.Reader
import AstDump.Proofs.Scan

/-!
# The spelling of strings and whole numbers

A string is written with escapes and in UTF-8, a whole number in decimal. Both are read back as
they were written, whatever follows them.

* `charBytes`                   : the bytes of characters;
* `Json.readString_escapeOnto`  : a string is read back;
* `Json.readNumber_intChars`    : a whole number in the range of 64-bit words is read back;
* `IsNumberChar`                : the characters of numbers, none of which is a bracket or a quote.
-/

namespace AstDump

open NestingScan

/-! ## Characters as bytes -/

/-- The bytes of characters, in UTF-8. -/
def charBytes (cs : List Char) : Bytes := cs.flatMap String.utf8EncodeChar

@[simp] theorem charBytes_nil : charBytes [] = [] := rfl

@[simp] theorem charBytes_cons (c : Char) (cs : List Char) :
    charBytes (c :: cs) = String.utf8EncodeChar c ++ charBytes cs := List.flatMap_cons

@[simp] theorem charBytes_append (cs ds : List Char) :
    charBytes (cs ++ ds) = charBytes cs ++ charBytes ds := List.flatMap_append

theorem bytesOf_ofList (cs : List Char) : bytesOf (String.ofList cs) = charBytes cs := by
  simp [bytesOf, charBytes, List.utf8Encode]

theorem decodeBytes?_charBytes (s : String) : Json.decodeBytes? (charBytes s.toList) = some s := by
  have harray : (⟨(charBytes s.toList).toArray⟩ : ByteArray) = s.toByteArray := by
    rw [← String.utf8Encode_toList]
    exact ByteArray.ext (by simp [charBytes, List.utf8Encode])
  unfold Json.decodeBytes? String.fromUTF8?
  rw [harray, dif_pos s.isValidUTF8]
  rfl

/-- A character below 128 is one byte. -/
theorem utf8EncodeChar_ascii {c : Char} (h : c.toNat < 128) :
    String.utf8EncodeChar c = [UInt8.ofNat c.toNat] := by
  have hle : c.val.toNat ≤ 0x7f := Nat.le_of_lt_succ h
  rw [String.utf8EncodeChar, if_pos hle]
  rfl

/-- The bytes of any other are 128 and more. -/
theorem le_of_mem_utf8EncodeChar {c : Char} (h : 128 ≤ c.toNat) :
    ∀ b ∈ String.utf8EncodeChar c, 128 ≤ b.toNat := by
  have hgt : ¬ c.val.toNat ≤ 0x7f := Nat.not_le.2 h
  rw [String.utf8EncodeChar, if_neg hgt]
  repeat' split
  all_goals
    simp only [List.mem_cons, List.not_mem_nil, or_false, forall_eq_or_imp, forall_eq,
      UInt8.toNat_ofNat']
    omega

namespace Json

/-! ## Strings -/

/-- Bytes that stand for themselves in a string. -/
theorem stringBody_plain {bs : Bytes}
    (h : ∀ b ∈ bs, b ≠ Byte.quote ∧ ¬ b < Byte.space ∧ b ≠ Byte.backslash) (acc rest : Bytes) :
    stringBody acc (bs ++ rest) = stringBody (bs.reverse ++ acc) rest := by
  induction bs generalizing acc with
  | nil => rfl
  | cons b bs ih =>
    obtain ⟨⟨hquote, hspace, hbackslash⟩, hbs⟩ := List.forall_mem_cons.1 h
    rw [List.cons_append, stringBody.eq_def]
    simp only [hquote, hspace, hbackslash, if_false, ne_eq, not_false_eq_true, if_true]
    rw [ih hbs, List.reverse_cons, List.append_assoc]
    rfl

theorem plain_of_mem_utf8EncodeChar {c : Char} (hquote : c ≠ '"') (hbackslash : c ≠ '\\')
    (hcontrol : ¬ c.toNat < 32) :
    ∀ b ∈ String.utf8EncodeChar c, b ≠ Byte.quote ∧ ¬ b < Byte.space ∧ b ≠ Byte.backslash := by
  have hne : ∀ d : Char, c ≠ d → c.toNat ≠ d.toNat := fun d hd h => hd (Char.toNat_inj.1 h)
  have hspell : ∀ b ∈ String.utf8EncodeChar c, b.toNat = c.toNat ∨ 128 ≤ b.toNat := by
    by_cases hascii : c.toNat < 128
    · rw [utf8EncodeChar_ascii hascii]
      simp only [List.mem_singleton, forall_eq, UInt8.toNat_ofNat']
      omega
    · intro b hb
      exact .inr (le_of_mem_utf8EncodeChar (Nat.not_lt.1 hascii) b hb)
  intro b hb
  have hb := hspell b hb
  have hquote : c.toNat ≠ 34 := hne '"' hquote
  have hbackslash : c.toNat ≠ 92 := hne '\\' hbackslash
  refine ⟨?_, ?_, ?_⟩
  · rintro rfl
    have hvalue : Byte.quote.toNat = 34 := rfl
    omega
  · intro hlt
    have hvalue : b.toNat < 32 := UInt8.lt_iff_toNat_lt.1 hlt
    omega
  · rintro rfl
    have hvalue : Byte.backslash.toNat = 92 := rfl
    omega

theorem utf8EncodeChar_hexDigit : ∀ n < 16,
    String.utf8EncodeChar (hexDigit n) = [UInt8.ofNat (hexDigit n).toNat] := by decide

theorem hexWord?_control : ∀ n < 32,
    hexWord? 0x30 0x30 (UInt8.ofNat (hexDigit (n / 16)).toNat)
      (UInt8.ofNat (hexDigit (n % 16)).toNat) = some n := by decide

theorem stringBody_hexWord {w x y z : UInt8} {n : Nat} (h : hexWord? w x y z = some n)
    (hlow : isLowSurrogate n = false) (hhigh : isHighSurrogate n = false) (acc rest : Bytes) :
    stringBody acc (Byte.backslash :: Byte.lowerU :: w :: x :: y :: z :: rest) =
      stringBody (pushPoint n acc) rest := by
  rw [stringBody.eq_def]
  dsimp only
  rw [if_neg (by decide), if_neg (by decide), if_neg (by decide)]
  split
  · rename_i heq
    cases heq
  · rename_i heq
    cases heq
    simp [h, hlow, hhigh]
  · rename_i tail hshort heq
    cases heq
    exact (hshort w x y z rest rfl).elim
  · rename_i e after _ hne heq
    cases heq
    exact (hne rfl).elim

/-- A control character without a short escape is read back from its number. -/
theorem stringBody_control {c : Char} (h : c.toNat < 32) (acc rest : Bytes) :
    stringBody acc (charBytes
        ['\\', 'u', '0', '0', hexDigit (c.toNat / 16), hexDigit (c.toNat % 16)] ++ rest) =
      stringBody ((String.utf8EncodeChar c).reverse ++ acc) rest := by
  have hbytes : charBytes ['\\', 'u', '0', '0', hexDigit (c.toNat / 16), hexDigit (c.toNat % 16)] =
      [Byte.backslash, Byte.lowerU, 0x30, 0x30, UInt8.ofNat (hexDigit (c.toNat / 16)).toNat,
        UInt8.ofNat (hexDigit (c.toNat % 16)).toNat] := by
    simp only [charBytes_cons, utf8EncodeChar_hexDigit (c.toNat / 16) (by omega),
      utf8EncodeChar_hexDigit (c.toNat % 16) (by omega)]
    rfl
  have hlow : isLowSurrogate c.toNat = false := by
    simp only [isLowSurrogate, Bool.and_eq_false_iff, decide_eq_false_iff_not]
    omega
  have hhigh : isHighSurrogate c.toNat = false := by
    simp only [isHighSurrogate, Bool.and_eq_false_iff, decide_eq_false_iff_not]
    omega
  have hpoint : pushPoint c.toNat acc = (String.utf8EncodeChar c).reverse ++ acc := by
    rw [pushPoint, Char.ofNat_toNat]
  rw [hbytes, ← hpoint]
  exact stringBody_hexWord (hexWord?_control c.toNat h) hlow hhigh acc rest

/-- The reader gets from the escape of a character to its bytes. -/
theorem stringBody_escapeChar (c : Char) (acc rest : Bytes) :
    stringBody acc (charBytes (escapeChar c) ++ rest) =
      stringBody ((String.utf8EncodeChar c).reverse ++ acc) rest := by
  unfold escapeChar
  split
  · subst_vars
    rfl
  rename_i hquote
  split
  · subst_vars
    rfl
  rename_i hbackslash
  split
  · subst_vars
    rfl
  split
  · subst_vars
    rfl
  split
  · subst_vars
    rfl
  split
  · rename_i h
    obtain rfl : c = Char.ofNat 8 := by rw [← h, Char.ofNat_toNat]
    rfl
  split
  · rename_i h
    obtain rfl : c = Char.ofNat 12 := by rw [← h, Char.ofNat_toNat]
    rfl
  split
  · rename_i h
    exact stringBody_control h acc rest
  · rename_i hcontrol
    rw [charBytes_cons, charBytes_nil, List.append_nil]
    exact stringBody_plain (plain_of_mem_utf8EncodeChar hquote hbackslash hcontrol) acc rest

theorem stringBody_escapeOnto (cs rest : List Char) (acc : Bytes) :
    stringBody acc (charBytes (escapeOnto cs ('"' :: rest))) =
      .ok (acc.reverse ++ charBytes cs, charBytes rest) := by
  induction cs generalizing acc with
  | nil =>
    have hnil : charBytes (escapeOnto [] ('"' :: rest)) = Byte.quote :: charBytes rest := rfl
    rw [hnil, charBytes_nil, List.append_nil, stringBody.eq_def]
    simp
  | cons c cs ih =>
    have hcons : escapeOnto (c :: cs) ('"' :: rest) =
        escapeChar c ++ escapeOnto cs ('"' :: rest) := rfl
    rw [hcons, charBytes_append, stringBody_escapeChar, ih, charBytes_cons]
    simp

/-- **A string is read back**, up to its closing quote. -/
theorem readString_escapeOnto (s : String) (rest : List Char) :
    readString (charBytes (escapeOnto s.toList ('"' :: rest))) = .ok (s, charBytes rest) := by
  have hbody := stringBody_escapeOnto s.toList rest []
  rw [List.reverse_nil, List.nil_append] at hbody
  simp only [readString, hbody, ok_bind, decodeBytes?_charBytes]

/-! ## Whole numbers -/

theorem toNat_of_isDigit {c : Char} (h : c.isDigit) : 48 ≤ c.toNat ∧ c.toNat ≤ 57 := by
  simp only [Char.isDigit, Bool.and_eq_true, decide_eq_true_eq, ge_iff_le,
    UInt32.le_iff_toNat_le] at h
  exact h

/-- A decimal digit is one byte and has the value of its character. -/
theorem utf8EncodeChar_digit {c : Char} (h : c.isDigit) :
    ∃ b, String.utf8EncodeChar c = [b] ∧ b.toNat = c.toNat ∧
      Byte.digit? b = some (c.toNat - '0'.toNat) := by
  obtain ⟨hlow, hhigh⟩ := toNat_of_isDigit h
  have hb : (UInt8.ofNat c.toNat).toNat = c.toNat := by
    rw [UInt8.toNat_ofNat']
    omega
  refine ⟨UInt8.ofNat c.toNat, utf8EncodeChar_ascii (by omega), hb, ?_⟩
  rw [Byte.digit?, if_pos, hb]
  · rfl
  · simp only [UInt8.le_iff_toNat_le, hb]
    exact ⟨hlow, hhigh⟩

theorem le_ofDigitChars (cs : List Char) (init : Nat) : init ≤ Nat.ofDigitChars 10 cs init := by
  induction cs generalizing init with
  | nil => simp
  | cons c cs ih =>
    rw [Nat.ofDigitChars_cons]
    exact Nat.le_trans (by omega) (ih _)

/-- What may follow a number. -/
def NumberEnd (rest : Bytes) : Prop :=
  ∀ b ∈ rest.head?, Byte.isDigit b = false ∧ b ≠ Byte.point ∧ b ≠ Byte.lowerE ∧ b ≠ Byte.upperE

theorem wholeDigits_charBytes {rest : Bytes} (hrest : NumberEnd rest) (cs : List Char) :
    ∀ kept, (∀ c ∈ cs, c.isDigit) → Nat.ofDigitChars 10 cs kept ≤ maxSignificand →
      wholeDigits kept (charBytes cs ++ rest) = (Nat.ofDigitChars 10 cs kept, 0, rest) := by
  induction cs with
  | nil =>
    intro kept _ _
    cases rest with
    | nil => rfl
    | cons b rest =>
      have hb := (hrest b rfl).1
      rw [Byte.isDigit, Option.isSome_eq_false_iff, Option.isNone_iff_eq_none] at hb
      simp [wholeDigits, hb]
  | cons c cs ih =>
    intro kept hdigits hfits
    obtain ⟨hc, hcs⟩ := List.forall_mem_cons.1 hdigits
    obtain ⟨b, hbytes, -, hvalue⟩ := utf8EncodeChar_digit hc
    rw [Nat.ofDigitChars_cons, Nat.mul_comm] at hfits
    have hkept := le_ofDigitChars cs (kept * 10 + (c.toNat - '0'.toNat))
    rw [charBytes_cons, hbytes, List.append_assoc, List.singleton_append, Nat.ofDigitChars_cons,
      Nat.mul_comm]
    simp only [wholeDigits, hvalue]
    rw [if_pos (Nat.le_trans hkept hfits)]
    exact ih _ hcs hfits

theorem isDigit_of_mem_toDigits {n : Nat} {c : Char} (h : c ∈ Nat.toDigits 10 n) : c.isDigit :=
  Nat.isDigit_of_mem_toDigits (by decide) (by decide) h

/-- A positive number does not start with a zero. -/
theorem head?_toDigits_ne {n : Nat} (h : 0 < n) : (Nat.toDigits 10 n).head? ≠ some '0' := by
  induction n using Nat.strongRecOn with
  | ind n ih =>
    rw [Nat.toDigits_eq_if (by decide)]
    split
    · rename_i hlt
      have hdigit : ∀ d < 10, 0 < d → [Nat.digitChar d].head? ≠ some '0' := by decide
      exact hdigit n hlt h
    · rename_i hge
      have hhead := ih (n / 10) (by omega) (by omega)
      cases hdigits : Nat.toDigits 10 (n / 10) with
      | nil => exact (Nat.toDigits_ne_nil hdigits).elim
      | cons c cs =>
        rw [hdigits] at hhead
        exact hhead

theorem expectNoLeadingZero_eq_ok {bs : Bytes}
    (h : ∀ b rest, bs = 0x30 :: b :: rest → Byte.isDigit b = false) :
    expectNoLeadingZero bs = .ok () := by
  unfold expectNoLeadingZero
  split
  · rw [h _ _ rfl]
    rfl
  · rfl

theorem readAfterWhole_end {rest : Bytes} (hrest : NumberEnd rest) (negative : Bool) (n : Nat) :
    readAfterWhole negative n 0 rest = (wholeNumber negative n).map fun v => (v, rest) := by
  unfold readAfterWhole
  split
  · exact ((hrest _ rfl).2.1 rfl).elim
  · exact ((hrest _ rfl).2.2.1 rfl).elim
  · exact ((hrest _ rfl).2.2.2 rfl).elim
  · rw [if_pos rfl]
    cases wholeNumber negative n <;> rfl

/-- The digits of a number are what a number has to start with. -/
theorem expectDigit_toDigits {rest : Bytes} (hrest : NumberEnd rest) (n : Nat) :
    expectDigit (charBytes (Nat.toDigits 10 n) ++ rest) = .ok () ∧
      expectNoLeadingZero (charBytes (Nat.toDigits 10 n) ++ rest) = .ok () := by
  cases hdigits : Nat.toDigits 10 n with
  | nil => exact (Nat.toDigits_ne_nil hdigits).elim
  | cons c cs =>
    have hc : c.isDigit := isDigit_of_mem_toDigits (by rw [hdigits]; exact List.mem_cons_self)
    obtain ⟨b, hbytes, hb, hvalue⟩ := utf8EncodeChar_digit hc
    rw [charBytes_cons, hbytes, List.append_assoc, List.singleton_append]
    refine ⟨?_, expectNoLeadingZero_eq_ok fun d after heq => ?_⟩
    · simp only [expectDigit, Byte.isDigit_of_digit? hvalue, if_true]
    · -- Only zero itself starts with a zero, and it has no second digit.
      obtain ⟨rfl, htail⟩ := List.cons.inj heq
      have hzero : c = '0' := Char.toNat_inj.1 hb.symm
      obtain rfl | hpos := Nat.eq_zero_or_pos n
      · rw [Nat.toDigits_zero] at hdigits
        cases hdigits
        rw [charBytes_nil, List.nil_append] at htail
        exact (hrest d (by rw [htail]; rfl)).1
      · exact (head?_toDigits_ne hpos (by rw [hdigits, hzero]; rfl)).elim

theorem readUnsigned_toDigits {rest : Bytes} (hrest : NumberEnd rest) (negative : Bool) {n : Nat}
    (h : n ≤ maxSignificand) :
    readUnsigned negative (charBytes (Nat.toDigits 10 n) ++ rest) =
      (wholeNumber negative n).map fun v => (v, rest) := by
  have hwhole : wholeDigits 0 (charBytes (Nat.toDigits 10 n) ++ rest) = (n, 0, rest) := by
    rw [wholeDigits_charBytes hrest _ 0 (fun c hc => isDigit_of_mem_toDigits hc),
      Nat.ofDigitChars_ten_toDigits]
    rwa [Nat.ofDigitChars_ten_toDigits]
  simp only [readUnsigned, expectDigit_toDigits hrest n, hwhole, ok_bind]
  exact readAfterWhole_end hrest negative n

theorem readNumber_eq_readUnsigned {bs : Bytes} (h : expectDigit bs = .ok ()) :
    readNumber bs = readUnsigned false bs := by
  unfold readNumber
  split
  · cases h
  · rfl

/-- **A whole number is read back**, if a signed or unsigned 64-bit word holds it. -/
theorem readNumber_intChars {rest : Bytes} (hrest : NumberEnd rest) {n : Int} (hmin : minInt ≤ n)
    (hmax : n ≤ maxInt) : readNumber (charBytes (intChars n) ++ rest) = .ok (int n, rest) := by
  unfold minInt at hmin
  unfold maxInt at hmax
  have hfits : n.natAbs ≤ maxSignificand := by
    unfold maxSignificand
    omega
  have hdigits := readUnsigned_toDigits hrest (decide (n < 0)) hfits
  unfold intChars
  split
  · rename_i hneg
    have hwhole : wholeNumber true n.natAbs = .ok (int n) := by
      rw [wholeNumber, if_neg (by decide), if_pos (by omega)]
      congr 2
      omega
    rw [decide_eq_true hneg, hwhole] at hdigits
    exact hdigits
  · rename_i hpos
    have hwhole : wholeNumber false n.natAbs = .ok (int n) := by
      rw [wholeNumber, if_pos (by decide)]
      congr 2
      omega
    rw [decide_eq_false hpos, hwhole] at hdigits
    rw [readNumber_eq_readUnsigned (expectDigit_toDigits hrest n.natAbs).1]
    exact hdigits

end Json

/-! ## Numbers under the scan -/

/-- The characters that numbers are written with. -/
def IsNumberChar (c : Char) : Prop := c.isDigit ∨ c ∈ ['-', '+', '.', 'e']

theorem inert_charBytes {cs : List Char} (h : ∀ c ∈ cs, IsNumberChar c) :
    ∀ b ∈ charBytes cs, Inert b := by
  intro b hb
  obtain ⟨c, hc, hb⟩ := List.mem_flatMap.1 hb
  obtain hdigit | hmark := h c hc
  · obtain ⟨d, hbytes, -, hvalue⟩ := Json.utf8EncodeChar_digit hdigit
    rw [hbytes, List.mem_singleton] at hb
    rw [hb]
    exact Byte.inert_of_isDigit d (Byte.isDigit_of_digit? hvalue)
  · simp only [List.mem_cons, List.not_mem_nil, or_false] at hmark
    obtain rfl | rfl | rfl | rfl := hmark
    all_goals
      rw [utf8EncodeChar_ascii (by decide), List.mem_singleton] at hb
      rw [hb]
      decide

theorem isNumberChar_of_mem_toDigits {n : Nat} {c : Char} (h : c ∈ Nat.toDigits 10 n) :
    IsNumberChar c :=
  .inl (Json.isDigit_of_mem_toDigits h)

theorem Json.isNumberChar_of_mem_intChars {n : Int} {c : Char} (h : c ∈ intChars n) :
    IsNumberChar c := by
  unfold intChars at h
  split at h
  · obtain rfl | h := List.mem_cons.1 h
    · exact .inr (by decide)
    · exact isNumberChar_of_mem_toDigits h
  · exact isNumberChar_of_mem_toDigits h

namespace Decimal

variable {x : Decimal} {c : Char}

theorem isNumberChar_of_mem_plain (hx : ∀ d ∈ x.digits, IsNumberChar d) (h : c ∈ x.plain) :
    IsNumberChar c := by
  have hzero : IsNumberChar '0' := .inl rfl
  have hpoint : IsNumberChar '.' := .inr (by decide)
  unfold plain at h
  split at h
  · simp only [List.mem_cons, List.mem_append, List.mem_replicate] at h
    obtain rfl | rfl | ⟨-, rfl⟩ | h := h
    · exact hzero
    · exact hpoint
    · exact hzero
    · exact hx c h
  · simp only [List.mem_cons, List.mem_append, List.mem_replicate] at h
    obtain (h | ⟨-, rfl⟩) | rfl | h := h
    · exact hx c (List.mem_of_mem_take h)
    · exact hzero
    · exact hpoint
    · split at h
      · rw [List.mem_singleton] at h
        rw [h]
        exact hzero
      · exact hx c (List.mem_of_mem_drop h)

theorem isNumberChar_of_mem_scientific (hx : ∀ d ∈ x.digits, IsNumberChar d)
    (h : c ∈ x.scientific) : IsNumberChar c := by
  have hexponent : ∀ {e : Int} {c : Char},
      c ∈ 'e' :: (if e < 0 then '-' else '+') :: Nat.toDigits 10 e.natAbs → IsNumberChar c := by
    intro e c h
    obtain rfl | h := List.mem_cons.1 h
    · exact .inr (by decide)
    obtain rfl | h := List.mem_cons.1 h
    · split <;> exact .inr (by decide)
    · exact isNumberChar_of_mem_toDigits h
  unfold scientific at h
  split at h
  · obtain rfl | h := List.mem_cons.1 h
    · exact .inl rfl
    · exact hexponent h
  · rename_i d heq
    obtain rfl | h := List.mem_cons.1 h
    · exact hx c (by rw [heq]; exact List.mem_cons_self)
    · exact hexponent h
  · rename_i d rest _ heq
    obtain rfl | h := List.mem_cons.1 h
    · exact hx c (by rw [heq]; exact List.mem_cons_self)
    obtain rfl | h := List.mem_cons.1 h
    · exact .inr (by decide)
    obtain h | h := List.mem_append.1 h
    · exact hx c (by rw [heq]; exact List.mem_cons_of_mem _ h)
    · exact hexponent h

end Decimal

theorem Binary64.isNumberChar_of_mem_shortest {x : Binary64} {c : Char}
    (h : c ∈ x.shortest.digits) : IsNumberChar c := by
  unfold shortest at h
  dsimp only at h
  split at h
  · unfold significantDigits at h
    rw [List.mem_reverse] at h
    exact isNumberChar_of_mem_toDigits (List.mem_reverse.1 (List.dropWhile_subset _ h))
  · cases h

/-- The text of a double is made of digits and the marks of numbers. -/
theorem Binary64.isNumberChar_of_mem_chars {x : Binary64} {c : Char} (h : c ∈ x.chars) :
    IsNumberChar c := by
  have hmagnitude : ∀ c ∈ (if x.mantissa = 0 then ['0', '.', '0'] else x.shortest.chars .json),
      IsNumberChar c := by
    intro c h
    split at h
    · simp only [List.mem_cons, List.not_mem_nil, or_false] at h
      obtain rfl | rfl | rfl := h
      · exact .inl rfl
      · exact .inr (by decide)
      · exact .inl rfl
    · unfold Decimal.chars at h
      dsimp only at h
      split at h
      · exact Decimal.isNumberChar_of_mem_plain (fun d => isNumberChar_of_mem_shortest) h
      · exact Decimal.isNumberChar_of_mem_scientific (fun d => isNumberChar_of_mem_shortest) h
  unfold chars at h
  dsimp only at h
  split at h
  · obtain rfl | h := List.mem_cons.1 h
    · exact .inr (by decide)
    · exact hmagnitude c h
  · exact hmagnitude c h

end AstDump
