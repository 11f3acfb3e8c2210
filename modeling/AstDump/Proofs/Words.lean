import AstDump.Text.Blank
import Mathlib.Data.List.DropRight

/-!
# The words of a text

The words of a text are found by a scan that carries the word it is in. What they are can be said
without the scan: a word ends at the first blank after it, blanks before a word are passed over, and
nothing but blanks is lost.

* `Text.IsWord`                 : not empty and without blanks;
* `Text.isWord_of_mem_words`    : the words of a text are such;
* `Text.words_append_cons`      : the first word of a text, and those after it;
* `Text.flatten_words`          : the words together are the text without its blanks;
* `Text.words_intercalate`      : words with a space between them are read back;
* `Text.words_trim`             : blanks at the ends make no difference;
* `Text.trimmed_trim`           : trimming leaves no blanks at the ends;
* `Text.after?_eq_some_iff`, `Text.before?_eq_some_iff` : beginnings and endings of a text.
-/

namespace AstDump

namespace Text

/-- A word is not empty and has no blanks. -/
structure IsWord (w : List Char) : Prop where
  ne_nil : w ≠ []
  not_blank : ∀ c ∈ w, isBlank c = false

/-! ## The scan -/

section Scan

variable {word w cs : List Char} {c : Char}

theorem wordsFrom_cons_blank (hc : isBlank c = true) :
    wordsFrom word (c :: cs) = if word = [] then words cs else word.reverse :: words cs := by
  rw [wordsFrom, if_pos hc]
  cases word <;> rfl

theorem wordsFrom_cons_of_not_blank (hc : isBlank c = false) :
    wordsFrom word (c :: cs) = wordsFrom (c :: word) cs := by
  rw [wordsFrom, hc, if_neg Bool.false_ne_true]

/-- Inside of a word the scan only adds to the word that it carries. -/
theorem wordsFrom_append (hw : ∀ c ∈ w, isBlank c = false) (word cs : List Char) :
    wordsFrom word (w ++ cs) = wordsFrom (w.reverse ++ word) cs := by
  induction w generalizing word with
  | nil => rfl
  | cons c w ih =>
    rw [List.cons_append, wordsFrom_cons_of_not_blank (hw c List.mem_cons_self),
      ih (fun d hd => hw d (List.mem_cons_of_mem c hd))]
    simp

/-- Every word that the scan gives is one, if what it carries has no blanks. -/
theorem isWord_of_mem_wordsFrom (cs : List Char) : ∀ {word w : List Char},
    (∀ c ∈ word, isBlank c = false) → w ∈ wordsFrom word cs → IsWord w := by
  have hcarried : ∀ {word : List Char}, (∀ c ∈ word, isBlank c = false) → word ≠ [] →
      IsWord word.reverse := by
    intro word hword hne
    exact ⟨by simpa using hne, fun c hc => hword c (List.mem_reverse.mp hc)⟩
  induction cs with
  | nil =>
    intro word w hword hw
    cases word with
    | nil => simp [wordsFrom] at hw
    | cons c word =>
      obtain rfl : w = (c :: word).reverse := by simpa [wordsFrom] using hw
      exact hcarried hword (List.cons_ne_nil c word)
  | cons c cs ih =>
    intro word w hword hw
    cases hc : isBlank c with
    | false =>
      rw [wordsFrom_cons_of_not_blank hc] at hw
      refine ih (fun d hd => ?_) hw
      rcases List.mem_cons.mp hd with rfl | hd
      · exact hc
      · exact hword d hd
    | true =>
      rw [wordsFrom_cons_blank hc] at hw
      split at hw
      · exact ih (by simp) hw
      · next hne =>
        rcases List.mem_cons.mp hw with rfl | hw
        · exact hcarried hword hne
        · exact ih (by simp) hw

/-- The scan loses nothing but blanks. -/
theorem flatten_wordsFrom (cs : List Char) : ∀ word : List Char,
    (wordsFrom word cs).flatten = word.reverse ++ cs.filter fun c => !isBlank c := by
  induction cs with
  | nil => intro word; cases word <;> simp [wordsFrom]
  | cons c cs ih =>
    intro word
    cases hc : isBlank c with
    | false => simp [wordsFrom_cons_of_not_blank hc, ih, hc]
    | true =>
      rw [wordsFrom_cons_blank hc]
      split
      · next hword => simp [words, ih, hc, hword]
      · simp [words, ih, hc]

theorem words_of_blanks {blanks : List Char} (h : ∀ c ∈ blanks, isBlank c = true) :
    words blanks = [] := by
  induction blanks with
  | nil => rfl
  | cons c blanks ih =>
    rw [words, wordsFrom_cons_blank (h c List.mem_cons_self), if_pos rfl]
    exact ih fun d hd => h d (List.mem_cons_of_mem c hd)

/-- Blanks at the end add no word. -/
theorem wordsFrom_append_blanks {blanks : List Char} (h : ∀ c ∈ blanks, isBlank c = true)
    (cs : List Char) : ∀ word : List Char, wordsFrom word (cs ++ blanks) = wordsFrom word cs := by
  induction cs with
  | nil =>
    intro word
    cases blanks with
    | nil => rfl
    | cons c blanks =>
      rw [List.nil_append, wordsFrom_cons_blank (h c List.mem_cons_self),
        words_of_blanks fun d hd => h d (List.mem_cons_of_mem c hd)]
      cases word <;> rfl
  | cons c cs ih =>
    intro word
    cases hc : isBlank c with
    | false =>
      rw [List.cons_append, wordsFrom_cons_of_not_blank hc, wordsFrom_cons_of_not_blank hc, ih]
    | true =>
      rw [List.cons_append, wordsFrom_cons_blank hc, wordsFrom_cons_blank hc, words, ih, words]

end Scan

/-! ## Words -/

section Words

variable {w cs : List Char} {c : Char}

theorem isWord_of_mem_words (h : w ∈ words cs) : IsWord w := isWord_of_mem_wordsFrom cs (by simp) h

/-- **The words of a text together are the text without its blanks.** -/
theorem flatten_words (cs : List Char) : (words cs).flatten = cs.filter fun c => !isBlank c :=
  flatten_wordsFrom cs []

/-- A character that is not blank stands in one of the words. -/
theorem mem_iff_mem_words (hc : isBlank c = false) : c ∈ cs ↔ ∃ w ∈ words cs, c ∈ w := by
  rw [← List.mem_flatten, flatten_words, List.mem_filter, hc]
  simp

@[simp] theorem words_cons_blank (hc : isBlank c = true) : words (c :: cs) = words cs := by
  rw [words, wordsFrom_cons_blank hc, if_pos rfl]

/-- A text that is a word. -/
theorem IsWord.words (hw : IsWord w) : Text.words w = [w] := by
  have hscan := wordsFrom_append hw.not_blank [] []
  rw [List.append_nil, List.append_nil] at hscan
  rw [Text.words, hscan, wordsFrom, if_neg (by simpa using hw.ne_nil), List.reverse_reverse]

/-- **The first word of a text ends at a blank**, and after the blank come the other words. -/
theorem words_append_cons (hw : IsWord w) (hc : isBlank c = true) (cs : List Char) :
    words (w ++ c :: cs) = w :: words cs := by
  rw [words, wordsFrom_append hw.not_blank, List.append_nil, wordsFrom_cons_blank hc,
    if_neg (by simpa using hw.ne_nil), List.reverse_reverse]

/-- **Words with a space between them are read back.** -/
theorem words_intercalate (ws : List (List Char)) (h : ∀ w ∈ ws, IsWord w) :
    words ([' '].intercalate ws) = ws := by
  induction ws with
  | nil => rfl
  | cons w ws ih =>
    have hw := h w List.mem_cons_self
    cases ws with
    | nil => rw [List.intercalate_singleton, hw.words]
    | cons v ws =>
      rw [List.intercalate_cons_cons, List.append_assoc, List.singleton_append,
        words_append_cons hw rfl, ih fun v hv => h v (List.mem_cons_of_mem w hv)]

end Words

/-! ## Blanks at the ends -/

@[simp] theorem words_trimStart (cs : List Char) : words (trimStart cs) = words cs := by
  induction cs with
  | nil => rfl
  | cons c cs ih =>
    cases hc : isBlank c with
    | false => rw [trimStart, List.dropWhile_cons_of_neg (by simp [hc])]
    | true => rw [trimStart, List.dropWhile_cons_of_pos hc, words_cons_blank hc, ← ih, trimStart]

/-- A text is what is left of it without the blanks at its end, and these blanks. -/
theorem exists_trimEnd (cs : List Char) :
    ∃ blanks, cs = trimEnd cs ++ blanks ∧ ∀ c ∈ blanks, isBlank c = true := by
  refine ⟨(cs.reverse.takeWhile isBlank).reverse, ?_, fun c hc => ?_⟩
  · rw [trimEnd, ← List.reverse_append, List.takeWhile_append_dropWhile, List.reverse_reverse]
  · have hall : (cs.reverse.takeWhile isBlank).all isBlank = true := List.all_takeWhile
    exact List.all_eq_true.mp hall c (List.mem_reverse.mp hc)

@[simp] theorem words_trimEnd (cs : List Char) : words (trimEnd cs) = words cs := by
  obtain ⟨blanks, hcs, hblanks⟩ := exists_trimEnd cs
  have hsame : words (trimEnd cs ++ blanks) = words (trimEnd cs) :=
    wordsFrom_append_blanks hblanks (trimEnd cs) []
  rw [← hsame, ← hcs]

/-- **Blanks at the ends of a text make no difference to its words.** -/
@[simp] theorem words_trim (cs : List Char) : words (trim cs) = words cs := by
  rw [trim, words_trimEnd, words_trimStart]

section Ends

variable {blanks : List Char} (h : ∀ c ∈ blanks, isBlank c = true) (cs : List Char)
include h

theorem trimStart_append_blanks : trimStart (blanks ++ cs) = trimStart cs :=
  List.dropWhile_append_of_pos h

theorem trimEnd_append_blanks : trimEnd (cs ++ blanks) = trimEnd cs := by
  rw [trimEnd, List.reverse_append, List.dropWhile_append_of_pos fun c hc =>
    h c (List.mem_reverse.mp hc), ← trimEnd]

theorem words_append_blanks : words (cs ++ blanks) = words cs := wordsFrom_append_blanks h cs []

theorem words_blanks_append : words (blanks ++ cs) = words cs := by
  rw [← words_trimStart, trimStart_append_blanks h, words_trimStart]

end Ends

/-- What stands before a text that is not all blank keeps its blanks. -/
theorem trimEnd_append {cs : List Char} (h : trimEnd cs ≠ []) (front : List Char) :
    trimEnd (front ++ cs) = front ++ trimEnd cs := by
  have hne : cs.reverse.dropWhile isBlank ≠ [] := by simpa [trimEnd] using h
  rw [trimEnd, List.reverse_append, List.dropWhile_append, if_neg (by simpa using hne),
    List.reverse_append, List.reverse_reverse, ← trimEnd]

/-- A text without blanks at its ends. -/
structure Trimmed (cs : List Char) : Prop where
  front : trimStart cs = cs
  back : trimEnd cs = cs

theorem Trimmed.trim_eq {cs : List Char} (h : Trimmed cs) : trim cs = cs := by
  rw [trim, h.front, h.back]

theorem trimStart_of_front {cs front : List Char} (hcs : trimStart cs = cs) (h : front <+: cs) :
    trimStart front = front := by
  refine List.dropWhile_eq_self_iff.mpr fun hlength => ?_
  have hhead := List.dropWhile_eq_self_iff.mp hcs (Nat.lt_of_lt_of_le hlength h.length_le)
  rwa [← h.getElem hlength] at hhead

theorem trimEnd_of_back {cs back : List Char} (hcs : trimEnd cs = cs) (h : back <:+ cs) :
    trimEnd back = back := by
  refine List.rdropWhile_eq_self_iff.mpr fun hne => ?_
  have hlast := List.rdropWhile_eq_self_iff.mp hcs (h.ne_nil hne)
  rwa [h.getLast hne]

/-- **Trimming leaves no blanks at the ends.** -/
theorem trimmed_trim (cs : List Char) : Trimmed (trim cs) := by
  have hfront : trim cs <+: trimStart cs := List.rdropWhile_prefix isBlank _
  refine ⟨trimStart_of_front ?_ hfront, ?_⟩
  · exact List.dropWhile_idempotent isBlank cs
  · exact List.rdropWhile_idempotent isBlank _

/-- The ends may be trimmed in either order. -/
theorem trim_eq_trimStart_trimEnd (cs : List Char) : trim cs = trimStart (trimEnd cs) := by
  have hsplit : cs.takeWhile isBlank ++ trimStart cs = cs := List.takeWhile_append_dropWhile
  have hblank : ∀ c ∈ cs.takeWhile isBlank, isBlank c = true := fun _ => List.mem_takeWhile_imp
  by_cases hall : trimEnd (trimStart cs) = []
  · have hend : trimEnd cs = [] := by
      refine List.rdropWhile_eq_nil_iff.mpr fun c hc => ?_
      rw [← hsplit, List.mem_append] at hc
      exact hc.elim (hblank c) (List.rdropWhile_eq_nil_iff.mp hall c)
    rw [trim, hall, hend]
    rfl
  · have hend : trimEnd cs = cs.takeWhile isBlank ++ trim cs := by
      rw [trim, ← trimEnd_append hall, hsplit]
    rw [hend, trimStart_append_blanks hblank, (trimmed_trim cs).front]

/-! ## Beginnings and endings -/

theorem after?_eq_some_iff {front cs rest : List Char} :
    after? front cs = some rest ↔ cs = front ++ rest := by
  induction front generalizing cs with
  | nil => simp [after?]
  | cons f front ih =>
    cases cs with
    | nil => simp [after?]
    | cons c cs =>
      rw [after?, List.cons_append, List.cons.injEq]
      by_cases hc : c = f
      · simp [hc, ih]
      · simp [hc]

theorem before?_eq_some_iff {back cs front : List Char} :
    before? back cs = some front ↔ cs = front ++ back := by
  rw [before?, Option.map_eq_some_iff]
  constructor
  · rintro ⟨rest, hrest, rfl⟩
    have hcs := congrArg List.reverse (after?_eq_some_iff.mp hrest)
    simpa using hcs
  · rintro rfl
    exact ⟨front.reverse, after?_eq_some_iff.mpr (by simp), List.reverse_reverse front⟩

end Text

end AstDump
