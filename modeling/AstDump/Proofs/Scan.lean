import AstDump.Json.Nesting

/-!
# Scalars under the scan of brackets

The scan for brackets knows two things about a text: where its strings are, and which brackets stand
outside of them. What is read as a scalar leaves it outside of strings and as deep as before.

* `NestingScan.Balanced` : a piece of text that closes what it opens, and how deep it goes;
* `NestingScan.Reaches`  : how deep a text goes at least, whether or not it closes anything;
* `InertTo`              : one text is the rest of another after bytes that mean nothing here;
* `ScalarTo`             : one text is the rest of another after a scalar;
* `StringTo.scalarTo`    : a string is over for the scan where it is over for the reader;
* `readNumber_scalarTo`  : a number has no brackets and no quotes.
-/

namespace AstDump

@[simp] theorem pure_eq_ok {ε α : Type} (a : α) : (pure a : Except ε α) = .ok a := rfl

@[simp] theorem ok_bind {ε α β : Type} (a : α) (f : α → Except ε β) :
    (Except.ok a : Except ε α) >>= f = f a := rfl

@[simp] theorem error_bind {ε α β : Type} (e : ε) (f : α → Except ε β) :
    (Except.error e : Except ε α) >>= f = .error e := rfl

theorem bind_eq_ok {ε α β : Type} {x : Except ε α} {f : α → Except ε β} {b : β} :
    x >>= f = .ok b ↔ ∃ a, x = .ok a ∧ f a = .ok b := by
  cases x with
  | error e => simp
  | ok a => simp

theorem map_eq_ok {ε α β : Type} {x : Except ε α} {f : α → β} {b : β} :
    x.map f = .ok b ↔ ∃ a, x = .ok a ∧ f a = b := by
  cases x with
  | error e => simp [Except.map]
  | ok a => simp [Except.map]

namespace NestingScan

/-! ## Pieces of text -/

/-- The scan over a piece of text. -/
def run (s : NestingScan) (bs : Bytes) : NestingScan := bs.foldl step s

@[simp] theorem run_nil (s : NestingScan) : s.run [] = s := rfl

@[simp] theorem run_cons (s : NestingScan) (b : UInt8) (bs : Bytes) :
    s.run (b :: bs) = (s.step b).run bs := rfl

@[simp] theorem run_append (s : NestingScan) (as bs : Bytes) :
    s.run (as ++ bs) = (s.run as).run bs := List.foldl_append

/-- A byte that means nothing to the scan, outside of strings. -/
def Inert (b : UInt8) : Prop :=
  b ≠ Byte.quote ∧ b ≠ Byte.openBrace ∧ b ≠ Byte.openBracket ∧ b ≠ Byte.closeBrace ∧
    b ≠ Byte.closeBracket

instance (b : UInt8) : Decidable (Inert b) := by unfold Inert; infer_instance

theorem step_inert {b : UInt8} (h : Inert b) (k m : Nat) :
    step ⟨.outside, k, m⟩ b = ⟨.outside, k, m⟩ := by
  obtain ⟨hquote, hbrace, hbracket, hcloseBrace, hcloseBracket⟩ := h
  simp [step, hquote, hbrace, hbracket, hcloseBrace, hcloseBracket]

/-- The bytes that open a container. -/
def IsOpening (b : UInt8) : Prop := b = Byte.openBrace ∨ b = Byte.openBracket

/-- The bytes that close a container. -/
def IsClosing (b : UInt8) : Prop := b = Byte.closeBrace ∨ b = Byte.closeBracket

theorem step_opening {b : UInt8} (h : IsOpening b) (k m : Nat) :
    step ⟨.outside, k, m⟩ b = ⟨.outside, k + 1, max m (k + 1)⟩ := by
  obtain rfl | rfl := h <;> rfl

theorem step_closing {b : UInt8} (h : IsClosing b) (k m : Nat) :
    step ⟨.outside, k, m⟩ b = ⟨.outside, k - 1, m⟩ := by
  obtain rfl | rfl := h <;> rfl

/-- A byte opens a container, or the scan is no deeper after it. -/
theorem step_cases (s : NestingScan) (b : UInt8) :
    (s.step b).depth ≤ s.depth ∧ (s.step b).deepest = s.deepest ∨
      (s.step b).depth = s.depth + 1 ∧ (s.step b).deepest = max s.deepest (s.depth + 1) := by
  unfold step
  repeat' split
  all_goals simp

theorem deepest_le_run (s : NestingScan) (bs : Bytes) : s.deepest ≤ (s.run bs).deepest := by
  induction bs generalizing s with
  | nil => exact Nat.le_refl _
  | cons b bs ih =>
    have hstep := step_cases s b
    have hrest := ih (s.step b)
    rw [run_cons]
    omega

theorem deepest_run_le (s : NestingScan) (bs : Bytes) :
    (s.run bs).deepest ≤ max s.deepest (s.depth + bs.length) := by
  induction bs generalizing s with
  | nil =>
    rw [run_nil]
    exact Nat.le_max_left ..
  | cons b bs ih =>
    have hstep := step_cases s b
    have hrest := ih (s.step b)
    rw [run_cons, List.length_cons]
    omega

/-- The piece closes what it opens and ends outside of strings: the scan leaves it as deep as it
came, and was `d` levels deeper in between. -/
def Balanced (piece : Bytes) (d : Nat) : Prop :=
  ∀ k m, k ≤ m → run ⟨.outside, k, m⟩ piece = ⟨.outside, k, max m (k + d)⟩

/-- Somewhere in the text at least `d` containers more are open than at its start. -/
def Reaches (text : Bytes) (d : Nat) : Prop :=
  ∀ k m, k ≤ m → k + d ≤ (run ⟨.outside, k, m⟩ text).deepest

theorem Balanced.append {as bs : Bytes} {d e : Nat} (ha : Balanced as d) (hb : Balanced bs e) :
    Balanced (as ++ bs) (max d e) := by
  intro k m hkm
  rw [run_append, ha k m hkm, hb k _ (by omega)]
  congr 1
  omega

theorem balanced_inert {piece : Bytes} (h : ∀ b ∈ piece, Inert b) : Balanced piece 0 := by
  intro k m hkm
  induction piece with
  | nil => simp only [run_nil]; congr 1; omega
  | cons b piece ih =>
    rw [run_cons, step_inert (h b (by simp))]
    exact ih fun c hc => h c (by simp [hc])

/-- A container is one level deeper than its inside. -/
theorem Balanced.enclose {piece : Bytes} {d : Nat} (h : Balanced piece d) {b c : UInt8}
    (hb : IsOpening b) (hc : IsClosing c) : Balanced (b :: (piece ++ [c])) (d + 1) := by
  intro k m hkm
  rw [run_cons, step_opening hb, run_append, h (k + 1) _ (by omega), run_cons, step_closing hc]
  simp only [run_nil, Nat.add_sub_cancel]
  congr 1
  omega

theorem Balanced.ne_nil {piece : Bytes} {d : Nat} (h : Balanced piece (d + 1)) : piece ≠ [] := by
  rintro rfl
  have hstart := congrArg deepest (h 0 0 (Nat.le_refl 0))
  simp only [run_nil] at hstart
  omega

theorem reaches_zero (text : Bytes) : Reaches text 0 := by
  intro k m hkm
  exact Nat.le_trans hkm (deepest_le_run ⟨.outside, k, m⟩ text)

/-- What a text reaches it reaches after its first piece, or in it. -/
theorem Balanced.reaches_append {piece rest : Bytes} {d e : Nat} (hpiece : Balanced piece d)
    (hrest : Reaches rest e) : Reaches (piece ++ rest) (max d e) := by
  intro k m hkm
  rw [run_append, hpiece k m hkm]
  have hdeepest := deepest_le_run ⟨.outside, k, max m (k + d)⟩ rest
  have hfurther := hrest k (max m (k + d)) (by omega)
  simp only at hdeepest
  omega

theorem Reaches.opening {rest : Bytes} {d : Nat} (h : Reaches rest d) {b : UInt8}
    (hb : IsOpening b) : Reaches (b :: rest) (d + 1) := by
  intro k m hkm
  rw [run_cons, step_opening hb]
  have hinside := h (k + 1) (max m (k + 1)) (by omega)
  omega

end NestingScan

open NestingScan

/-- What a text reaches at least is at most its nesting. -/
theorem le_textNesting_of_reaches {text : Bytes} {d : Nat} (h : Reaches text d) :
    d ≤ textNesting text := by
  have hstart := h 0 0 (Nat.le_refl 0)
  rwa [Nat.zero_add] at hstart

theorem textNesting_of_balanced {text : Bytes} {d : Nat} (h : Balanced text d) :
    textNesting text = d := by
  have hstart := h 0 0 (Nat.le_refl 0)
  rw [show textNesting text = (run ⟨.outside, 0, 0⟩ text).deepest from rfl, hstart]
  simp only
  omega

theorem textNesting_le_length (text : Bytes) : textNesting text ≤ text.length := by
  have hbound := deepest_run_le NestingScan.start text
  simp only [NestingScan.start, Nat.zero_add, Nat.zero_max] at hbound
  exact hbound

/-! ## Bytes without a meaning to the scan -/

/-- `rest` is what follows in `bs` after inert bytes. -/
def InertTo (bs rest : Bytes) : Prop := ∃ piece, bs = piece ++ rest ∧ ∀ b ∈ piece, Inert b

namespace InertTo

theorem refl (bs : Bytes) : InertTo bs bs := ⟨[], rfl, by simp⟩

theorem trans {as bs cs : Bytes} (hab : InertTo as bs) (hbc : InertTo bs cs) : InertTo as cs := by
  obtain ⟨p, rfl, hp⟩ := hab
  obtain ⟨q, rfl, hq⟩ := hbc
  refine ⟨p ++ q, (List.append_assoc ..).symm, ?_⟩
  intro b hb
  obtain hb | hb := List.mem_append.1 hb
  · exact hp b hb
  · exact hq b hb

theorem cons {b : UInt8} {bs rest : Bytes} (hb : Inert b) (h : InertTo bs rest) :
    InertTo (b :: bs) rest := by
  obtain ⟨piece, rfl, hpiece⟩ := h
  exact ⟨b :: piece, rfl, List.forall_mem_cons.2 ⟨hb, hpiece⟩⟩

theorem dropWhile {p : UInt8 → Bool} (hp : ∀ b, p b → Inert b) (bs : Bytes) :
    InertTo bs (bs.dropWhile p) := by
  refine ⟨bs.takeWhile p, List.takeWhile_append_dropWhile.symm, ?_⟩
  intro b hb
  exact hp b (List.all_eq_true.1 List.all_takeWhile b hb)

theorem length_le {bs rest : Bytes} (h : InertTo bs rest) : rest.length ≤ bs.length := by
  obtain ⟨piece, rfl, -⟩ := h
  rw [List.length_append]
  omega

theorem balanced {bs rest : Bytes} (h : InertTo bs rest) :
    ∃ piece, bs = piece ++ rest ∧ Balanced piece 0 := by
  obtain ⟨piece, heq, hpiece⟩ := h
  exact ⟨piece, heq, balanced_inert hpiece⟩

end InertTo

/-- `rest` is what follows in `bs` after at least one byte, and for the scan nothing is open after
those that was not before. -/
def ScalarTo (bs rest : Bytes) : Prop :=
  ∃ piece, bs = piece ++ rest ∧ Balanced piece 0 ∧ piece ≠ []

theorem ScalarTo.length_lt {bs rest : Bytes} (h : ScalarTo bs rest) : rest.length < bs.length := by
  obtain ⟨piece, rfl, -, hne⟩ := h
  have hpos := List.length_pos_iff.2 hne
  rw [List.length_append]
  omega

theorem InertTo.scalarTo {bs rest : Bytes} (h : InertTo bs rest) (hlt : rest.length < bs.length) :
    ScalarTo bs rest := by
  obtain ⟨piece, rfl, hpiece⟩ := h
  refine ⟨piece, rfl, balanced_inert hpiece, ?_⟩
  rintro rfl
  exact Nat.lt_irrefl _ hlt

namespace Byte

theorem inert_of_isBlank (b : UInt8) (h : isBlank b) : Inert b := by
  simp only [isBlank, Bool.or_eq_true, beq_iff_eq] at h
  obtain ((rfl | rfl) | rfl) | rfl := h <;> decide

theorem isDigit_iff (b : UInt8) : isDigit b ↔ 0x30 ≤ b ∧ b ≤ 0x39 := by
  unfold isDigit digit?
  split <;> simp_all

theorem inert_of_isDigit (b : UInt8) (h : isDigit b) : Inert b := by
  rw [isDigit_iff] at h
  refine ⟨?_, ?_, ?_, ?_, ?_⟩ <;> rintro rfl <;> revert h <;> decide

theorem isDigit_of_digit? {b : UInt8} {d : Nat} (h : digit? b = some d) : isDigit b := by
  rw [isDigit, h, Option.isSome_some]

end Byte

namespace Json

theorem inertTo_skipBlanks (bs : Bytes) : InertTo bs (skipBlanks bs) :=
  InertTo.dropWhile Byte.inert_of_isBlank bs

theorem readLiteral_inertTo {α : Type} {value a : α} {name bs rest : Bytes}
    (hname : ∀ c ∈ name, Inert c) (h : readLiteral value name bs = .ok (a, rest)) :
    a = value ∧ InertTo bs rest := by
  fun_induction readLiteral value name bs with
  | case1 bs =>
    cases h
    exact ⟨rfl, .refl _⟩
  | case2 c cs => cases h
  | case3 cs c bs ih =>
    obtain ⟨hc, hcs⟩ := List.forall_mem_cons.1 hname
    obtain ⟨hvalue, hrest⟩ := ih hcs h
    exact ⟨hvalue, .cons hc hrest⟩
  | case4 c cs b bs hne => cases h

/-! ## Numbers -/

theorem wholeDigits_inertTo (kept : Nat) (bs : Bytes) :
    InertTo bs (wholeDigits kept bs).2.2 := by
  fun_induction wholeDigits kept bs with
  | case1 kept => exact .refl _
  | case2 kept b rest hb => exact .refl _
  | case3 kept b rest d hb hfits ih =>
    exact .cons (Byte.inert_of_isDigit b (Byte.isDigit_of_digit? hb)) ih
  | case4 kept b rest d hb hfull => exact .dropWhile Byte.inert_of_isDigit _

theorem wholeDigits_length_lt (kept : Nat) {b : UInt8} (hb : Byte.isDigit b) (bs : Bytes) :
    (wholeDigits kept (b :: bs)).2.2.length < (b :: bs).length := by
  rw [List.length_cons, Nat.lt_succ_iff]
  obtain ⟨d, hd⟩ := Option.isSome_iff_exists.1 hb
  simp only [wholeDigits, hd]
  split
  · exact (wholeDigits_inertTo (kept * 10 + d) bs).length_le
  · rw [List.dropWhile_cons_of_pos hb]
    exact (InertTo.dropWhile Byte.inert_of_isDigit bs).length_le

theorem fractionDigits_inertTo (kept places : Nat) (bs : Bytes) :
    InertTo bs (fractionDigits kept places bs).2.2 := by
  fun_induction fractionDigits kept places bs with
  | case1 kept places => exact .refl _
  | case2 kept places b rest hb => exact .refl _
  | case3 kept places b rest d hb hfits ih =>
    exact .cons (Byte.inert_of_isDigit b (Byte.isDigit_of_digit? hb)) ih
  | case4 kept places b rest d hb hfull => exact .dropWhile Byte.inert_of_isDigit _

theorem exponentSign_inertTo (bs : Bytes) : InertTo bs (exponentSign bs).2 := by
  unfold exponentSign
  split
  · exact .cons (by decide) (.refl _)
  · exact .cons (by decide) (.refl _)
  · exact .refl _

theorem readExponent_inertTo {e : Int} {bs rest : Bytes} (h : readExponent bs = .ok (e, rest)) :
    InertTo bs rest := by
  simp only [readExponent, bind_eq_ok] at h
  obtain ⟨_, -, h⟩ := h
  cases h
  exact (exponentSign_inertTo bs).trans (.dropWhile Byte.inert_of_isDigit _)

theorem readTens_inertTo {e : Int} {bs rest : Bytes} (h : readTens bs = .ok (e, rest)) :
    InertTo bs rest := by
  unfold readTens at h
  split at h
  · exact .cons (by decide) (readExponent_inertTo h)
  · exact .cons (by decide) (readExponent_inertTo h)
  · cases h
    exact .refl _

theorem doubleOf_nesting {negative : Bool} {significand : Nat} {tens : Int} {v : Json}
    (h : doubleOf negative significand tens = .ok v) : v.nesting = 0 := by
  unfold doubleOf at h
  split at h
  · cases h
    rfl
  · cases h

theorem wholeNumber_nesting {negative : Bool} {n : Nat} {v : Json}
    (h : wholeNumber negative n = .ok v) : v.nesting = 0 := by
  unfold wholeNumber at h
  split at h
  · cases h
    rfl
  split at h
  · cases h
    rfl
  · exact doubleOf_nesting h

theorem readScaled_inertTo {negative : Bool} {significand : Nat} {tens : Int} {v : Json}
    {bs rest : Bytes} (h : readScaled negative significand tens bs = .ok (v, rest)) :
    v.nesting = 0 ∧ InertTo bs rest := by
  simp only [readScaled, bind_eq_ok] at h
  obtain ⟨⟨e, after⟩, htens, w, hdouble, h⟩ := h
  cases h
  exact ⟨doubleOf_nesting hdouble, readTens_inertTo htens⟩

theorem readAfterWhole_inertTo {negative : Bool} {kept dropped : Nat} {v : Json} {bs rest : Bytes}
    (h : readAfterWhole negative kept dropped bs = .ok (v, rest)) :
    v.nesting = 0 ∧ InertTo bs rest := by
  unfold readAfterWhole at h
  split at h
  · rename_i fraction
    simp only [bind_eq_ok] at h
    obtain ⟨_, -, h⟩ := h
    obtain ⟨hflat, hscaled⟩ := readScaled_inertTo h
    exact ⟨hflat, .cons (by decide) ((fractionDigits_inertTo kept 0 fraction).trans hscaled)⟩
  · exact readScaled_inertTo h
  · exact readScaled_inertTo h
  · split at h
    · simp only [bind_eq_ok] at h
      obtain ⟨w, hwhole, h⟩ := h
      cases h
      exact ⟨wholeNumber_nesting hwhole, .refl _⟩
    · exact readScaled_inertTo h

theorem readUnsigned_scalarTo {negative : Bool} {v : Json} {bs rest : Bytes}
    (h : readUnsigned negative bs = .ok (v, rest)) :
    v.nesting = 0 ∧ InertTo bs rest ∧ rest.length < bs.length := by
  simp only [readUnsigned, bind_eq_ok] at h
  obtain ⟨_, hdigit, _, -, h⟩ := h
  obtain ⟨hflat, hafter⟩ := readAfterWhole_inertTo h
  refine ⟨hflat, (wholeDigits_inertTo 0 bs).trans hafter, ?_⟩
  cases bs with
  | nil => cases hdigit
  | cons b bs =>
    have hb : Byte.isDigit b := by
      simp only [expectDigit] at hdigit
      split at hdigit
      · assumption
      · cases hdigit
    exact Nat.lt_of_le_of_lt hafter.length_le (wholeDigits_length_lt 0 hb bs)

/-- **A number has no brackets and no quotes.** -/
theorem readNumber_scalarTo {v : Json} {bs rest : Bytes} (h : readNumber bs = .ok (v, rest)) :
    v.nesting = 0 ∧ ScalarTo bs rest := by
  unfold readNumber at h
  split at h
  · obtain ⟨hflat, hinert, hlt⟩ := readUnsigned_scalarTo h
    exact ⟨hflat, (hinert.cons (by decide)).scalarTo (Nat.lt_succ_of_lt hlt)⟩
  · obtain ⟨hflat, hinert, hlt⟩ := readUnsigned_scalarTo h
    exact ⟨hflat, hinert.scalarTo hlt⟩

/-! ## Strings -/

/-- Inside a string the scan goes over an escaped byte whatever it is. -/
theorem run_escape (k m : Nat) (e : UInt8) (bs : Bytes) :
    run ⟨.inString, k, m⟩ (Byte.backslash :: e :: bs) = run ⟨.inString, k, m⟩ bs := rfl

theorem run_plain {b : UInt8} (hquote : b ≠ Byte.quote) (hbackslash : b ≠ Byte.backslash)
    (k m : Nat) (bs : Bytes) :
    run ⟨.inString, k, m⟩ (b :: bs) = run ⟨.inString, k, m⟩ bs := by
  rw [run_cons]
  simp only [step, hquote, hbackslash, if_false]

theorem ne_of_hexDigit? {b : UInt8} {n : Nat} (h : Byte.hexDigit? b = some n) :
    b ≠ Byte.quote ∧ b ≠ Byte.backslash := by
  constructor
  · rintro rfl
    cases h
  · rintro rfl
    cases h

theorem run_hexWord {w x y z : UInt8} {n : Nat} (h : hexWord? w x y z = some n) (k m : Nat)
    (bs : Bytes) :
    run ⟨.inString, k, m⟩ (w :: x :: y :: z :: bs) = run ⟨.inString, k, m⟩ bs := by
  simp only [hexWord?, Option.bind_eq_bind, Option.bind_eq_some_iff] at h
  obtain ⟨_, hw, _, hx, _, hy, _, hz, -⟩ := h
  rw [run_plain (ne_of_hexDigit? hw).1 (ne_of_hexDigit? hw).2,
    run_plain (ne_of_hexDigit? hx).1 (ne_of_hexDigit? hx).2,
    run_plain (ne_of_hexDigit? hy).1 (ne_of_hexDigit? hy).2,
    run_plain (ne_of_hexDigit? hz).1 (ne_of_hexDigit? hz).2]

/-- `rest` is what follows in `bs` after the end of a string that the scan is in. -/
def StringTo (bs rest : Bytes) : Prop :=
  ∃ piece, bs = piece ++ rest ∧ ∀ k m, run ⟨.inString, k, m⟩ piece = ⟨.outside, k, m⟩

theorem StringTo.extend {bs rest : Bytes} (h : StringTo bs rest) (front : Bytes)
    (hfront : ∀ k m piece,
      run ⟨.inString, k, m⟩ (front ++ piece) = run ⟨.inString, k, m⟩ piece) :
    StringTo (front ++ bs) rest := by
  obtain ⟨piece, rfl, hpiece⟩ := h
  refine ⟨front ++ piece, (List.append_assoc ..).symm, ?_⟩
  intro k m
  rw [hfront, hpiece]

theorem stringBody_stringTo {acc body bs rest : Bytes}
    (h : stringBody acc bs = .ok (body, rest)) : StringTo bs rest := by
  fun_induction stringBody acc bs with
  | case2 acc after =>
    cases h
    exact ⟨[Byte.quote], rfl, fun _ _ => rfl⟩
  | case4 acc b after hquote _ hbackslash ih =>
    exact (ih h).extend [b] fun k m piece => run_plain hquote hbackslash k m piece
  | case8 acc b _ _ hb w x y z after n hn _ _ ih =>
    obtain rfl : b = Byte.backslash := Decidable.not_not.1 hb
    exact (ih h).extend [Byte.backslash, Byte.lowerU, w, x, y, z] fun k m piece =>
      run_hexWord hn k m piece
  | case12 acc b _ _ hb w x y z n hn _ _ w' x' y' z' after low hlow _ ih =>
    obtain rfl : b = Byte.backslash := Decidable.not_not.1 hb
    refine (ih h).extend
      [Byte.backslash, Byte.lowerU, w, x, y, z, Byte.backslash, Byte.lowerU, w', x', y', z']
      fun k m piece => ?_
    exact (run_hexWord hn k m _).trans (run_hexWord hlow k m piece)
  | case17 acc b _ _ hb e after _ _ c hc ih =>
    obtain rfl : b = Byte.backslash := Decidable.not_not.1 hb
    exact (ih h).extend [Byte.backslash, e] fun k m piece => run_escape k m e piece
  | _ => cases h

theorem readString_stringTo {s : String} {bs rest : Bytes} (h : readString bs = .ok (s, rest)) :
    StringTo bs rest := by
  simp only [readString, bind_eq_ok] at h
  obtain ⟨⟨body, after⟩, hbody, h⟩ := h
  split at h
  · cases h
    exact stringBody_stringTo hbody
  · cases h

/-- **A string is over for the scan where it is over for the reader.** -/
theorem StringTo.scalarTo {bs rest : Bytes} (h : StringTo bs rest) :
    ScalarTo (Byte.quote :: bs) rest := by
  obtain ⟨piece, rfl, hpiece⟩ := h
  refine ⟨Byte.quote :: piece, rfl, ?_, List.cons_ne_nil _ _⟩
  intro k m hkm
  have hstep : step ⟨.outside, k, m⟩ Byte.quote = ⟨.inString, k, m⟩ := rfl
  rw [run_cons, hstep, hpiece]
  congr 1
  omega

end Json
end AstDump
