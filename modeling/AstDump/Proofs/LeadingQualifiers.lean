import AstDump.Proofs.Qualifiers
import Mathlib.Logic.Relation

/-!
# Qualifiers in front of a type

The width of a type is told once the qualifiers in front of its spelling are gone. They are dropped
one at a time, each with the space that ends it and the blanks after that, until none is left. What
stands around a spelling in this way makes no difference to its width, also where the spelling has
qualifiers of its own, or nothing else.

* `LeadingQualifier`                   : a qualifier, with a space and further blanks after it;
* `decorated`                          : a spelling with qualifiers and blanks around it;
* `TypeName.StripsTo`                  : qualifiers are dropped until none is left;
* `TypeName.stripsTo_stripQualifiers`  : this comes to an end, and what is left is found;
* `TypeName.stripQualifiers_decorated` : what is left of a decorated spelling that is not blank;
* `widthOf_decorated`                  : widths of decorated spellings.
-/

namespace AstDump

/-! ## Decorated spellings -/

/-- Some blanks. -/
structure Text.Blanks where
  chars : List Char
  isBlank : ∀ c ∈ chars, Text.isBlank c = true

/-- A qualifier in front of a spelling: after its word come a space and further blanks. -/
structure LeadingQualifier where
  word : String
  blanks : Text.Blanks
  word_mem : word ∈ ["const", "volatile"]

/-- The spelling with a qualifier in front of it. -/
def LeadingQualifier.onto (q : LeadingQualifier) (cs : List Char) : List Char :=
  q.word.toList ++ ' ' :: (q.blanks.chars ++ cs)

/-- The spelling with qualifiers in front of it. -/
def qualified (qs : List LeadingQualifier) (cs : List Char) : List Char :=
  qs.foldr LeadingQualifier.onto cs

/-- The spelling with qualifiers in front of it and blanks at both ends. -/
def decorated (front : Text.Blanks) (qs : List LeadingQualifier) (spelling : String)
    (back : Text.Blanks) : String :=
  String.ofList (front.chars ++ qualified qs spelling.toList ++ back.chars)

theorem LeadingQualifier.mem_qualifiers (q : LeadingQualifier) :
    q.word ∈ TypeName.qualifiers := by
  have hall : ∀ word ∈ ["const", "volatile"], word ∈ TypeName.qualifiers := by decide
  exact hall q.word q.word_mem

theorem words_qualified (qs : List LeadingQualifier) (cs : List Char) :
    Text.words (qualified qs cs) = qs.map (fun q => q.word.toList) ++ Text.words cs := by
  induction qs with
  | nil => rfl
  | cons q qs ih =>
    have hword := TypeName.isWord_of_mem_qualifiers q.mem_qualifiers
    have hcons : qualified (q :: qs) cs = q.onto (qualified qs cs) := rfl
    rw [hcons, LeadingQualifier.onto, Text.words_append_cons hword (by decide),
      Text.words_blanks_append q.blanks.isBlank, ih]
    rfl

/-- A decorated spelling has the words of its qualifiers, and then its own. -/
theorem words_decorated (front back : Text.Blanks) (qs : List LeadingQualifier) (s : String) :
    Text.words (decorated front qs s back).toList =
      qs.map (fun q => q.word.toList) ++ Text.words s.toList := by
  rw [decorated, String.toList_ofList, Text.words_append_blanks back.isBlank,
    Text.words_blanks_append front.isBlank, words_qualified]

/-! ## Dropping one qualifier after another -/

namespace TypeName

/-- One qualifier is dropped. -/
def Drops (cs rest : List Char) : Prop := dropQualifier? cs = some rest

/-- The qualifiers in front are dropped one by one, until none is left. -/
structure StripsTo (cs rest : List Char) : Prop where
  drops : Relation.ReflTransGen Drops (Text.trim cs) rest
  last : dropQualifier? rest = none

/-- A qualifier that is dropped makes the spelling shorter and leaves its end as it is. -/
theorem Drops.suffix {cs rest : List Char} (h : Drops cs rest) :
    rest <:+ cs ∧ rest.length < cs.length := by
  obtain ⟨q, -, after, rfl, rfl⟩ := exists_of_dropQualifier? h
  have hafter : Text.trimStart after <:+ after := List.dropWhile_suffix Text.isBlank
  have hlength := hafter.length_le
  refine ⟨hafter.trans ⟨q.toList ++ [' '], by simp⟩, ?_⟩
  simp only [List.length_append, List.length_cons]
  omega

/-- **No spelling loses qualifiers for ever.** -/
theorem wellFounded_drops : WellFounded fun rest cs => Drops cs rest :=
  Subrelation.wf (fun h => h.suffix.2) (measure List.length).wf

theorem Drops.trimmed {cs rest : List Char} (h : Drops cs rest) (hcs : Text.Trimmed cs) :
    Text.Trimmed rest := by
  refine ⟨?_, Text.trimEnd_of_back hcs.back h.suffix.1⟩
  obtain ⟨q, -, after, -, rfl⟩ := exists_of_dropQualifier? h
  exact List.dropWhile_idempotent Text.isBlank after

/-- With at least as many steps as characters, all qualifiers are dropped. -/
theorem dropQualifiers_stripsTo {n : Nat} {cs : List Char} (h : cs.length ≤ n) :
    Relation.ReflTransGen Drops cs (dropQualifiers n cs) ∧
      dropQualifier? (dropQualifiers n cs) = none := by
  induction n generalizing cs with
  | zero =>
    obtain rfl : cs = [] := List.eq_nil_of_length_eq_zero (Nat.le_zero.mp h)
    exact ⟨.refl, by decide⟩
  | succ n ih =>
    rw [dropQualifiers]
    cases hrest : dropQualifier? cs with
    | none => exact ⟨.refl, hrest⟩
    | some rest =>
      have hlt := Drops.suffix hrest
      obtain ⟨hdrops, hlast⟩ := @ih rest (by omega)
      exact ⟨.head hrest hdrops, hlast⟩

/-- **The qualifiers in front come to an end**, and what is left is found. -/
theorem stripsTo_stripQualifiers (cs : List Char) : StripsTo cs (stripQualifiers cs) :=
  let ⟨hdrops, hlast⟩ := dropQualifiers_stripsTo (Nat.le_refl (Text.trim cs).length)
  ⟨hdrops, hlast⟩

/-- At most one thing is left. -/
theorem eq_of_drops {cs a b : List Char} (ha : Relation.ReflTransGen Drops cs a)
    (hb : Relation.ReflTransGen Drops cs b) (hlasta : dropQualifier? a = none)
    (hlastb : dropQualifier? b = none) : a = b := by
  induction ha using Relation.ReflTransGen.head_induction_on with
  | refl =>
    rcases hb.cases_head with rfl | ⟨rest, hrest, -⟩
    · rfl
    · cases hlasta.symm.trans hrest
  | head hrest _ ih =>
    rcases hb.cases_head with rfl | ⟨rest, hrest', hb'⟩
    · cases hlastb.symm.trans hrest
    · obtain rfl := Option.some.inj (hrest.symm.trans hrest')
      exact ih hb'

theorem StripsTo.eq_stripQualifiers {cs rest : List Char} (h : StripsTo cs rest) :
    rest = stripQualifiers cs :=
  eq_of_drops h.drops (stripsTo_stripQualifiers cs).drops h.last (stripsTo_stripQualifiers cs).last

theorem StripsTo.trimmed {cs rest : List Char} (h : StripsTo cs rest) : Text.Trimmed rest := by
  obtain ⟨hdrops, -⟩ := h
  induction hdrops with
  | refl => exact Text.trimmed_trim cs
  | tail _ hdrop ih => exact hdrop.trimmed ih

/-- **What is left has nothing to be dropped.** -/
theorem stripQualifiers_stripQualifiers (cs : List Char) :
    stripQualifiers (stripQualifiers cs) = stripQualifiers cs := by
  have hstrips := stripsTo_stripQualifiers cs
  refine (StripsTo.eq_stripQualifiers ⟨?_, hstrips.last⟩).symm
  rw [hstrips.trimmed.trim_eq]

/-! ## Decorated spellings without their qualifiers -/

/-- The qualifier in front is the one that is dropped. -/
theorem drops_onto (q : LeadingQualifier) (cs : List Char) :
    Drops (q.onto cs) (Text.trimStart cs) := by
  have hword : q.word = "const" ∨ q.word = "volatile" := by simpa using q.word_mem
  have hdrop : Drops (q.onto cs) (Text.trimStart (q.blanks.chars ++ cs)) := by
    unfold LeadingQualifier.onto
    rcases hword with hword | hword
    · rw [hword]
      rfl
    · rw [hword]
      rfl
  rwa [Text.trimStart_append_blanks q.blanks.isBlank] at hdrop

theorem trimStart_onto (q : LeadingQualifier) (cs : List Char) :
    Text.trimStart (q.onto cs) = q.onto cs := by
  have hword : q.word = "const" ∨ q.word = "volatile" := by simpa using q.word_mem
  unfold LeadingQualifier.onto
  rcases hword with hword | hword
  · rw [hword]
    rfl
  · rw [hword]
    rfl

theorem drops_qualified (qs : List LeadingQualifier) (cs : List Char) :
    Relation.ReflTransGen Drops (Text.trimStart (qualified qs cs)) (Text.trimStart cs) := by
  induction qs with
  | nil => exact .refl
  | cons q qs ih =>
    have hcons : qualified (q :: qs) cs = q.onto (qualified qs cs) := rfl
    rw [hcons, trimStart_onto]
    exact .head (drops_onto q _) ih

theorem qualified_eq_append (qs : List LeadingQualifier) (cs : List Char) :
    qualified qs cs = qualified qs [] ++ cs := by
  induction qs with
  | nil => rfl
  | cons q qs ih =>
    have hcons : ∀ cs, qualified (q :: qs) cs = q.onto (qualified qs cs) := fun _ => rfl
    rw [hcons, hcons, ih]
    simp [LeadingQualifier.onto]

/-- **What is left of a decorated spelling** is what is left of the spelling, if that is not blank:
then its end stands where the end of the decorated one is. -/
theorem stripQualifiers_decorated (front back : Text.Blanks) (qs : List LeadingQualifier)
    {s : String} (h : Text.trimEnd s.toList ≠ []) :
    stripQualifiers (decorated front qs s back).toList = stripQualifiers s.toList := by
  have hend : Text.trimEnd (decorated front qs s back).toList =
      front.chars ++ qualified qs (Text.trimEnd s.toList) := by
    rw [decorated, String.toList_ofList, Text.trimEnd_append_blanks back.isBlank,
      qualified_eq_append, ← List.append_assoc, Text.trimEnd_append h, List.append_assoc,
      ← qualified_eq_append]
  have hstrips := stripsTo_stripQualifiers s.toList
  refine (StripsTo.eq_stripQualifiers ⟨?_, hstrips.last⟩).symm
  rw [Text.trim_eq_trimStart_trimEnd, hend, Text.trimStart_append_blanks front.isBlank]
  refine (drops_qualified qs _).trans ?_
  rw [← Text.trim_eq_trimStart_trimEnd]
  exact hstrips.drops

/-- Qualifiers alone are no integer type. -/
theorem integerWidth?_of_unqualifiedWords {s : String} (h : unqualifiedWords s.toList = []) :
    integerWidth? (stripQualifiers s.toList) = none := by
  cases hwidth : integerWidth? (stripQualifiers s.toList) with
  | none => rfl
  | some n =>
    have hempty : stripQualifiers s.toList = [] := by
      rw [← (unqualified_of_integerWidth? hwidth).1, toList_unqualified, h]
      rfl
    have hnone : integerWidth? [] = none := by decide +kernel
    rw [hempty] at hwidth
    cases hnone.symm.trans hwidth

theorem unqualifiedWords_decorated (front back : Text.Blanks) (qs : List LeadingQualifier)
    (s : String) :
    unqualifiedWords (decorated front qs s back).toList = unqualifiedWords s.toList := by
  have hdropped : (qs.map fun q => q.word.toList).filterMap remainder? = [] := by
    refine List.filterMap_eq_nil_iff.mpr fun w hw => ?_
    obtain ⟨q, -, rfl⟩ := List.mem_map.mp hw
    exact if_pos (isQualifier_iff.mpr ⟨q.word, q.mem_qualifiers, rfl⟩)
  rw [unqualifiedWords_eq, unqualifiedWords_eq, words_decorated, List.filterMap_append, hdropped,
    List.nil_append]

theorem integerWidth?_decorated (front back : Text.Blanks) (qs : List LeadingQualifier)
    (s : String) :
    integerWidth? (stripQualifiers (decorated front qs s back).toList) =
      integerWidth? (stripQualifiers s.toList) := by
  by_cases hblank : Text.trimEnd s.toList = []
  · -- the blanks at the end are trimmed first, and with them the space of the last qualifier
    have hwords : unqualifiedWords s.toList = [] := by
      rw [unqualifiedWords_eq, ← Text.words_trimEnd, hblank]
      rfl
    rw [integerWidth?_of_unqualifiedWords hwords,
      integerWidth?_of_unqualifiedWords ((unqualifiedWords_decorated front back qs s).trans hwords)]
  · rw [stripQualifiers_decorated front back qs hblank]

/-- No star comes from the decoration. -/
theorem star_mem_decorated (front back : Text.Blanks) (qs : List LeadingQualifier) (s : String) :
    '*' ∈ (decorated front qs s back).toList ↔ '*' ∈ s.toList := by
  have hstar : Text.isBlank '*' = false := by decide
  have hqualifiers : ¬ ∃ w ∈ qs.map (fun q => q.word.toList), '*' ∈ w := by
    rintro ⟨w, hw, hmem⟩
    obtain ⟨q, -, rfl⟩ := List.mem_map.mp hw
    exact star_notMem_of_mem_qualifiers q.mem_qualifiers hmem
  rw [Text.mem_iff_mem_words hstar, Text.mem_iff_mem_words hstar, words_decorated]
  simp only [List.mem_append, or_and_right, exists_or, hqualifiers, false_or]

end TypeName

/-- **Widths of decorated spellings**, for every spelling, pointer width, qualifiers in front and
blanks around: the width is that of the spelling. Dropping qualifiers comes to an end on every text,
with what is left of the text, and what is left loses nothing more. -/
theorem widthOf_decorated (target : Target) (front back : Text.Blanks)
    (qs : List LeadingQualifier) (s : String) :
    target.widthOf (decorated front qs s back) = target.widthOf s ∧
    (WellFounded fun rest cs => TypeName.Drops cs rest) ∧
    ∀ cs : List Char, TypeName.StripsTo cs (TypeName.stripQualifiers cs) ∧
      TypeName.stripQualifiers (TypeName.stripQualifiers cs) = TypeName.stripQualifiers cs := by
  refine ⟨?_, TypeName.wellFounded_drops, fun cs => ⟨TypeName.stripsTo_stripQualifiers cs,
    TypeName.stripQualifiers_stripQualifiers cs⟩⟩
  have hpointer : TypeName.isPointer (decorated front qs s back) = TypeName.isPointer s := by
    unfold TypeName.isPointer
    rw [Bool.eq_iff_iff, List.contains_iff_mem, List.contains_iff_mem]
    exact TypeName.star_mem_decorated front back qs s
  unfold Target.widthOf
  rw [hpointer, TypeName.integerWidth?_decorated]

/-- Two qualifiers, a space and a no-break space after the first, between blanks of other kinds. -/
theorem widthOf_decorated_wide_blanks :
    let front : Text.Blanks := ⟨['\t', '\u2003'], List.all_eq_true.mp rfl⟩
    let back : Text.Blanks := ⟨['\u3000'], List.all_eq_true.mp rfl⟩
    let first : LeadingQualifier := ⟨"volatile", ⟨['\u00a0'], List.all_eq_true.mp rfl⟩, by decide⟩
    let second : LeadingQualifier := ⟨"const", ⟨[], List.all_eq_true.mp rfl⟩, by decide⟩
    decorated front [first, second] "unsigned int" back =
        "\t\u2003volatile \u00a0const unsigned int\u3000" ∧
      (Target.mk 8).widthOf "\t\u2003volatile \u00a0const unsigned int\u3000" = .bytes 4 := by
  intro front back first second
  have hspelling : decorated front [first, second] "unsigned int" back =
      "\t\u2003volatile \u00a0const unsigned int\u3000" := by decide +kernel
  have hwidth : (Target.mk 8).widthOf "unsigned int" = .bytes 4 := by decide +kernel
  refine ⟨hspelling, ?_⟩
  rw [← hspelling, (widthOf_decorated (Target.mk 8) front back [first, second] _).1, hwidth]

end AstDump
