import AstDump.Proofs.Words
import AstDump.Type.Unqualified
import AstDump.Type.Width

/-!
# Types without qualifiers

Two parts of the library look past qualifiers. Widths are told from a spelling without those in
front, which are cut off one by one, each with the space after it; summaries name types without any,
word by word. Dropping all of them never makes a width unknown that was known before.

* `TypeName.remainder?`                 : what is left of a word;
* `TypeName.words_unqualified`          : the words of an unqualified spelling, from those before;
* `TypeName.unqualifiedWords_stripQualifiers` : qualifiers that are cut off first are not missed;
* `TypeName.unqualified_of_integerWidth?` : the spelling of an integer type is left as it is;
* `unqualified_keeps_width`             : widths of types without qualifiers.
-/

namespace AstDump

namespace TypeName

/-! ## One word -/

/-- What is left of a word: nothing of a qualifier, and of any other word what stands before the
qualifier at the end of its stars. -/
def remainder? (w : List Char) : Option (List Char) :=
  if isQualifier w then none else some (dropPointerQualifier w)

theorem isQualifier_iff {w : List Char} :
    isQualifier w = true ↔ ∃ q ∈ qualifiers, w = q.toList := by
  rw [isQualifier, List.any_eq_true]
  refine exists_congr fun q => and_congr_right fun _ => ?_
  rw [beq_iff_eq, eq_comm]

theorem isWord_of_mem_qualifiers {q : String} (hq : q ∈ qualifiers) : Text.IsWord q.toList := by
  have hall : ∀ q ∈ qualifiers,
      q.toList ≠ [] ∧ q.toList.all (fun c => !Text.isBlank c) = true := by decide +kernel
  refine ⟨(hall q hq).1, fun c hc => ?_⟩
  simpa using List.all_eq_true.mp (hall q hq).2 c hc

theorem star_notMem_of_mem_qualifiers {q : String} (hq : q ∈ qualifiers) : '*' ∉ q.toList := by
  have hall : ∀ q ∈ qualifiers, '*' ∉ q.toList := by decide +kernel
  exact hall q hq

theorem isQualifier_star (w : List Char) : isQualifier ('*' :: w) = false := by
  refine Bool.eq_false_iff.mpr fun h => ?_
  obtain ⟨q, hq, hw⟩ := isQualifier_iff.mp h
  exact star_notMem_of_mem_qualifiers hq (hw ▸ List.mem_cons_self)

/-- **What a word loses**: it is left as it is, or it begins with a star and loses a qualifier at
its end, the star remaining. -/
theorem dropPointerQualifier_cases (w : List Char) :
    dropPointerQualifier w = w ∨
    ∃ q ∈ qualifiers, ∃ rest, dropPointerQualifier w = '*' :: rest ∧
      w = '*' :: rest ++ q.toList := by
  unfold dropPointerQualifier
  split
  · next stars =>
    cases hfound : qualifiers.findSome? fun q => Text.before? q.toList ('*' :: stars) with
    | none => exact .inl rfl
    | some front =>
      obtain ⟨q, hq, hbefore⟩ := List.exists_of_findSome?_eq_some hfound
      have hsplit := Text.before?_eq_some_iff.mp hbefore
      cases front with
      | nil =>
        -- the whole word would be the qualifier, which has no star
        have hmem : '*' ∈ [] ++ q.toList := hsplit ▸ List.mem_cons_self
        exact absurd hmem (star_notMem_of_mem_qualifiers hq)
      | cons c rest =>
        obtain ⟨rfl, -⟩ := List.cons.inj hsplit
        exact .inr ⟨q, hq, rest, rfl, hsplit⟩
  · exact .inl rfl

theorem isWord_dropPointerQualifier {w : List Char} (hw : Text.IsWord w) :
    Text.IsWord (dropPointerQualifier w) := by
  rcases dropPointerQualifier_cases w with hsame | ⟨q, -, rest, hrest, hsplit⟩
  · rwa [hsame]
  · rw [hrest]
    refine ⟨List.cons_ne_nil '*' rest, fun c hc => hw.not_blank c ?_⟩
    rw [hsplit]
    exact List.mem_append_left q.toList hc

/-- What is left of a word is a word again, and no qualifier. -/
theorem isWord_of_remainder? {w rest : List Char} (hw : Text.IsWord w)
    (h : remainder? w = some rest) : Text.IsWord rest ∧ isQualifier rest = false := by
  unfold remainder? at h
  split at h
  · cases h
  · next hkept =>
    cases h
    refine ⟨isWord_dropPointerQualifier hw, ?_⟩
    rcases dropPointerQualifier_cases w with hsame | ⟨q, -, rest, hrest, -⟩
    · rw [hsame]
      exact Bool.eq_false_iff.mpr hkept
    · rw [hrest]
      exact isQualifier_star rest

/-- No star is lost with a qualifier. -/
theorem star_mem_iff_remainder? (w : List Char) :
    '*' ∈ w ↔ ∃ rest, remainder? w = some rest ∧ '*' ∈ rest := by
  unfold remainder?
  split
  · next hqualifier =>
    obtain ⟨q, hq, rfl⟩ := isQualifier_iff.mp hqualifier
    simp [star_notMem_of_mem_qualifiers hq]
  · rcases dropPointerQualifier_cases w with hsame | ⟨q, -, rest, hrest, hsplit⟩
    · simp [hsame]
    · rw [hrest, hsplit]
      simp

/-! ## Spellings -/

theorem unqualifiedWords_eq (cs : List Char) :
    unqualifiedWords cs = (Text.words cs).filterMap remainder? := by
  unfold unqualifiedWords
  induction Text.words cs with
  | nil => rfl
  | cons w ws ih =>
    cases hw : isQualifier w with
    | false => simpa [remainder?, hw] using ih
    | true => simpa [remainder?, hw] using ih

theorem toList_unqualified (s : String) :
    (unqualified s).toList = [' '].intercalate (unqualifiedWords s.toList) := by
  have hwords : (String.toList ∘ String.ofList : List Char → List Char) = id := by
    funext w
    exact String.toList_ofList
  rw [unqualified, String.toList_intercalate, List.map_map, hwords, List.map_id]
  rfl

theorem isWord_of_mem_unqualifiedWords {cs w : List Char} (h : w ∈ unqualifiedWords cs) :
    Text.IsWord w ∧ isQualifier w = false := by
  rw [unqualifiedWords_eq] at h
  obtain ⟨v, hv, hrest⟩ := List.mem_filterMap.mp h
  exact isWord_of_remainder? (Text.isWord_of_mem_words hv) hrest

/-- **The words of an unqualified spelling** are what is left of the words of the spelling. -/
theorem words_unqualified (s : String) :
    Text.words (unqualified s).toList = (Text.words s.toList).filterMap remainder? := by
  rw [toList_unqualified, ← unqualifiedWords_eq]
  exact Text.words_intercalate _ fun w hw => (isWord_of_mem_unqualifiedWords hw).1

/-- A type is a pointer with its qualifiers exactly if it is one without them. -/
theorem star_mem_unqualified (s : String) : '*' ∈ (unqualified s).toList ↔ '*' ∈ s.toList := by
  have hstar : Text.isBlank '*' = false := by decide
  rw [Text.mem_iff_mem_words hstar, Text.mem_iff_mem_words hstar, words_unqualified]
  constructor
  · rintro ⟨rest, hrest, hmem⟩
    obtain ⟨w, hw, hleft⟩ := List.mem_filterMap.mp hrest
    exact ⟨w, hw, (star_mem_iff_remainder? w).mpr ⟨rest, hleft, hmem⟩⟩
  · rintro ⟨w, hw, hmem⟩
    obtain ⟨rest, hleft, hmem⟩ := (star_mem_iff_remainder? w).mp hmem
    exact ⟨rest, List.mem_filterMap.mpr ⟨w, hw, hleft⟩, hmem⟩

/-! ## Qualifiers in front -/

theorem exists_of_dropQualifier? {cs rest : List Char} (h : dropQualifier? cs = some rest) :
    ∃ q ∈ qualifiers, ∃ after, cs = q.toList ++ ' ' :: after ∧ rest = Text.trimStart after := by
  obtain ⟨after, hafter, rfl⟩ := Option.map_eq_some_iff.mp h
  obtain ⟨q, hq, hq'⟩ := List.exists_of_findSome?_eq_some hafter
  have hspaced : ∀ q ∈ leadingQualifiers, ∃ name ∈ qualifiers, q = name.toList ++ [' '] := by
    decide +kernel
  obtain ⟨name, hname, rfl⟩ := hspaced q hq
  refine ⟨name, hname, after, ?_, rfl⟩
  rw [Text.after?_eq_some_iff.mp hq', List.append_assoc]
  rfl

/-- One qualifier in front: it is a word of its own, and one that is dropped anyway. -/
theorem unqualifiedWords_of_dropQualifier? {cs rest : List Char}
    (h : dropQualifier? cs = some rest) : unqualifiedWords rest = unqualifiedWords cs := by
  obtain ⟨q, hq, after, rfl, rfl⟩ := exists_of_dropQualifier? h
  have hdropped : remainder? q.toList = none :=
    if_pos (isQualifier_iff.mpr ⟨q, hq, rfl⟩)
  rw [unqualifiedWords_eq, unqualifiedWords_eq, Text.words_trimStart,
    Text.words_append_cons (isWord_of_mem_qualifiers hq) (by decide),
    List.filterMap_cons_none hdropped]

theorem unqualifiedWords_dropQualifiers (n : Nat) (cs : List Char) :
    unqualifiedWords (dropQualifiers n cs) = unqualifiedWords cs := by
  induction n generalizing cs with
  | zero => rfl
  | succ n ih =>
    rw [dropQualifiers]
    cases hrest : dropQualifier? cs with
    | none => rfl
    | some rest => exact (ih rest).trans (unqualifiedWords_of_dropQualifier? hrest)

/-- **Qualifiers that are cut off first are not missed**: what is left has the same words without
qualifiers. -/
theorem unqualifiedWords_stripQualifiers (cs : List Char) :
    unqualifiedWords (stripQualifiers cs) = unqualifiedWords cs := by
  rw [stripQualifiers, unqualifiedWords_dropQualifiers, unqualifiedWords_eq, unqualifiedWords_eq,
    Text.words_trim]

/-! ## Integer types -/

/-- The names of the integer types have one space between words and no qualifiers. -/
theorem integerTypes_plain : ∀ row ∈ integerTypes, ∀ name ∈ row.2,
    [' '].intercalate (unqualifiedWords name.toList) = name.toList ∧
      stripQualifiers name.toList = name.toList := by decide +kernel

theorem exists_of_integerWidth? {cs : List Char} {n : Nat} (h : integerWidth? cs = some n) :
    ∃ row ∈ integerTypes, ∃ name ∈ row.2, cs = name.toList := by
  obtain ⟨row, hrow, -⟩ := Option.map_eq_some_iff.mp h
  have hlisted := List.find?_some hrow
  obtain ⟨name, hname, hcs⟩ := List.any_eq_true.mp hlisted
  exact ⟨row, List.mem_of_find?_eq_some hrow, name, hname, (eq_of_beq hcs).symm⟩

/-- **An integer type with qualifiers in front is named by its plain name** once all qualifiers are
gone, and nothing is to be cut off that name. -/
theorem unqualified_of_integerWidth? {s : String} {n : Nat}
    (h : integerWidth? (stripQualifiers s.toList) = some n) :
    (unqualified s).toList = stripQualifiers s.toList ∧
      stripQualifiers (unqualified s).toList = stripQualifiers s.toList := by
  obtain ⟨row, hrow, name, hname, hstrip⟩ := exists_of_integerWidth? h
  obtain ⟨hspaced, hplain⟩ := integerTypes_plain row hrow name hname
  have hsame : (unqualified s).toList = stripQualifiers s.toList := by
    rw [toList_unqualified, ← unqualifiedWords_stripQualifiers, hstrip, hspaced]
  refine ⟨hsame, ?_⟩
  rw [hsame, hstrip, hplain]

end TypeName

theorem Target.widthOf_eq_bytes_iff {target : Target} {s : String} {n : Nat} :
    target.widthOf s = .bytes n ↔
      ('*' ∈ s.toList ∧ n = target.pointerWidth) ∨
      ('*' ∉ s.toList ∧ TypeName.integerWidth? (TypeName.stripQualifiers s.toList) = some n) := by
  unfold widthOf TypeName.isPointer
  by_cases hstar : '*' ∈ s.toList
  · simp [hstar, eq_comm]
  · cases TypeName.integerWidth? (TypeName.stripQualifiers s.toList) <;> simp [hstar]

/-- **Widths of types without qualifiers**, for every spelling and pointer width: a pointer stays
one and nothing else becomes one, no word that is left is a qualifier, and a width that was known is
still known and the same. -/
theorem unqualified_keeps_width (target : Target) (s : String) :
    ('*' ∈ (TypeName.unqualified s).toList ↔ '*' ∈ s.toList) ∧
    (∀ w ∈ Text.words (TypeName.unqualified s).toList,
      String.ofList w ∉ ["const", "volatile", "__restrict", "restrict"]) ∧
    ∀ n, target.widthOf s = .bytes n → target.widthOf (TypeName.unqualified s) = .bytes n := by
  have hstar := TypeName.star_mem_unqualified s
  refine ⟨hstar, fun w hw hmem => ?_, fun n hn => ?_⟩
  · rw [TypeName.words_unqualified, ← TypeName.unqualifiedWords_eq] at hw
    have hkept := (TypeName.isWord_of_mem_unqualifiedWords hw).2
    have hqualifier : TypeName.isQualifier w = true :=
      TypeName.isQualifier_iff.mpr ⟨String.ofList w, hmem, String.toList_ofList.symm⟩
    rw [hkept] at hqualifier
    cases hqualifier
  · rw [Target.widthOf_eq_bytes_iff] at hn ⊢
    rcases hn with ⟨hpointer, hwidth⟩ | ⟨hplain, hwidth⟩
    · exact .inl ⟨hstar.mpr hpointer, hwidth⟩
    · refine .inr ⟨fun hpointer => hplain (hstar.mp hpointer), ?_⟩
      rw [(TypeName.unqualified_of_integerWidth? hwidth).2]
      exact hwidth

/-- Blanks of several sorts around two qualifiers, before a name of two words. -/
theorem unqualified_keeps_width_two_qualifiers :
    let s := "\tvolatile  const  unsigned long "
    (Target.mk 4).widthOf s = .bytes 8 ∧ TypeName.unqualified s = "unsigned long" ∧
      (Target.mk 4).widthOf (TypeName.unqualified s) = .bytes 8 := by
  intro s
  have hwidth : (Target.mk 4).widthOf s = .bytes 8 := by decide +kernel
  exact ⟨hwidth, by decide +kernel, (unqualified_keeps_width ⟨4⟩ s).2.2 8 hwidth⟩

end AstDump
