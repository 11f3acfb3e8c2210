import AstDump.Proofs.ReaderLevels
import AstDump.Proofs.RoundTrip

/-!
# Decoding the text of a value

The scan for brackets counts in the text of a value just the containers of the value. So it makes no
difference whether a dump is decoded from its text or from its value, except that a text may be
refused before it is read.

* `Json.Scans`               : what is written is balanced for the scan, and how deep it goes;
* `Json.textNesting_compact` : the text of a value nests as deep as the value;
* `Json.read_compact`        : the text of a value is read back;
* `decodeText_compact`       : decoding the text of a value is decoding the value.
-/

namespace AstDump

open NestingScan

namespace Json

/-! ## The scan of a value's text -/

/-- What is written is balanced for the scan and goes `d` levels deep, whatever follows it. -/
def Scans (write : List Char → List Char) (d : Nat) : Prop :=
  ∀ rest k m, k ≤ m →
    run ⟨.outside, k, m⟩ (charBytes (write rest)) =
      run ⟨.outside, k, max m (k + d)⟩ (charBytes rest)

theorem scans_inert (cs : List Char) (h : ∀ b ∈ charBytes cs, Inert b) : Scans (cs ++ ·) 0 := by
  intro rest k m hkm
  rw [charBytes_append, run_append, balanced_inert h k m hkm]

theorem scans_quoteOnto (s : String) : Scans (quoteOnto s) 0 := by
  intro rest k m hkm
  obtain ⟨piece, hpiece, hbalanced, -⟩ :=
    (readString_stringTo (readString_escapeOnto s rest)).scalarTo
  have hbytes : charBytes (quoteOnto s rest) = piece ++ charBytes rest := hpiece
  rw [hbytes, run_append, hbalanced k m hkm]

theorem Scans.comp {outer inner : List Char → List Char} {d e : Nat} (houter : Scans outer d)
    (hinner : Scans inner e) : Scans (fun rest => outer (inner rest)) (max d e) := by
  intro rest k m hkm
  rw [houter _ k m hkm, hinner rest k _ (by omega)]
  congr 2
  omega

/-- The greatest of the depths of some items. -/
def deepestOf {α : Type} (depth : α → Nat) : List α → Nat
  | [] => 0
  | x :: xs => max (depth x) (deepestOf depth xs)

section Sequences

variable {α : Type} {c : Char} {close : UInt8} {write : α → List Char → List Char}
  {depth : α → Nat}

theorem Closes.run_close (hc : Closes c close) (rest : List Char) (k m : Nat) :
    run ⟨.outside, k + 1, m⟩ (charBytes (c :: rest)) = run ⟨.outside, k, m⟩ (charBytes rest) := by
  rw [charBytes_cons, hc.bytes, List.singleton_append, run_cons, step_closing hc.isClosing,
    Nat.add_sub_cancel]

theorem Closes.run_writeFurther (hc : Closes c close) (rest : List Char) (xs : List α)
    (h : ∀ x ∈ xs, Scans (write x) (depth x)) : ∀ k m, k + 1 ≤ m →
      run ⟨.outside, k + 1, m⟩ (charBytes (writeFurther c write xs rest)) =
        run ⟨.outside, k, max m (k + 1 + deepestOf depth xs)⟩ (charBytes rest) := by
  induction xs with
  | nil =>
    intro k m hkm
    rw [writeFurther, hc.run_close, deepestOf]
    congr 2
    omega
  | cons x xs ih =>
    intro k m hkm
    obtain ⟨hx, hxs⟩ := List.forall_mem_cons.1 h
    have hcomma : run ⟨.outside, k + 1, m⟩ (charBytes (writeFurther c write (x :: xs) rest)) =
        run ⟨.outside, k + 1, m⟩ (charBytes (write x (writeFurther c write xs rest))) := rfl
    rw [hcomma, hx _ (k + 1) m hkm, ih hxs k _ (by omega), deepestOf]
    congr 2
    omega

theorem Closes.run_writeAll (hc : Closes c close) (rest : List Char) (xs : List α)
    (h : ∀ x ∈ xs, Scans (write x) (depth x)) {k m : Nat} (hkm : k + 1 ≤ m) :
    run ⟨.outside, k + 1, m⟩ (charBytes (writeAll c write xs rest)) =
      run ⟨.outside, k, max m (k + 1 + deepestOf depth xs)⟩ (charBytes rest) := by
  cases xs with
  | nil => exact hc.run_writeFurther rest [] h k m hkm
  | cons x xs =>
    obtain ⟨hx, hxs⟩ := List.forall_mem_cons.1 h
    rw [writeAll, hx _ (k + 1) m hkm, hc.run_writeFurther rest xs hxs k _ (by omega), deepestOf]
    congr 2
    omega

/-- A container is one level deeper than its deepest item. -/
theorem Closes.scans (hc : Closes c close) (o : Char) {b : UInt8}
    (ho : String.utf8EncodeChar o = [b]) (hb : IsOpening b) (xs : List α)
    (h : ∀ x ∈ xs, Scans (write x) (depth x)) :
    Scans (fun rest => o :: writeAll c write xs rest) (deepestOf depth xs + 1) := by
  intro rest k m hkm
  rw [charBytes_cons, ho, List.singleton_append, run_cons, step_opening hb,
    hc.run_writeAll rest xs h (by omega)]
  congr 2
  omega

end Sequences

theorem nestingItems_eq_deepestOf (vs : List Json) : nestingItems vs = deepestOf nesting vs := by
  induction vs with
  | nil => rfl
  | cons v vs ih => rw [nestingItems, deepestOf, ih]

theorem nestingMembers_eq_deepestOf (ms : Members) :
    nestingMembers ms = deepestOf (fun m => m.2.nesting) ms := by
  induction ms with
  | nil => rfl
  | cons m ms ih => rw [nestingMembers, deepestOf, ih]

/-- **The scan goes over the text of a value** as deep as the value is. -/
theorem scans_writeOnto (v : Json) : Scans v.writeOnto v.nesting := by
  induction v using Json.induct with
  | null => exact scans_inert ['n', 'u', 'l', 'l'] (by decide +kernel)
  | bool b =>
    cases b with
    | false => exact scans_inert ['f', 'a', 'l', 's', 'e'] (by decide +kernel)
    | true => exact scans_inert ['t', 'r', 'u', 'e'] (by decide +kernel)
  | int n => exact scans_inert _ (inert_charBytes fun c => isNumberChar_of_mem_intChars)
  | float x => exact scans_inert _ (inert_charBytes fun c => Binary64.isNumberChar_of_mem_chars)
  | str s => exact scans_quoteOnto s
  | arr vs ih =>
    intro rest k m hkm
    rw [writeOnto_arr, nesting, nestingItems_eq_deepestOf]
    exact closes_bracket.scans '[' rfl (.inr rfl) vs ih rest k m hkm
  | obj ms ih =>
    have hmember : ∀ m ∈ ms, Scans (writeMember m) m.2.nesting := by
      intro m hm
      have hcolon := (scans_inert [':'] (by decide +kernel)).comp (ih m hm)
      have hquoted := (scans_quoteOnto m.1).comp hcolon
      rwa [Nat.zero_max, Nat.zero_max] at hquoted
    intro rest k m hkm
    rw [writeOnto_obj, nesting, nestingMembers_eq_deepestOf]
    exact closes_brace.scans '\x7b' rfl (.inl rfl) ms hmember rest k m hkm

/-- **The scan of a value's text** counts the containers of the value. -/
theorem textNesting_compact (v : Json) : textNesting (bytesOf v.compact) = v.nesting := by
  rw [compact, bytesOf_ofList]
  apply textNesting_of_balanced
  intro k m hkm
  exact scans_writeOnto v [] k m hkm

/-- **The compact text of a value is read back** as that value. -/
theorem read_compact {v : Json} (hcanonical : v.Canonical) (hwhole : v.Whole) :
    read (bytesOf v.compact) = .ok v := by
  have hnesting := textNesting_le_length (bytesOf v.compact)
  rw [textNesting_compact] at hnesting
  have hvalue : readValue ((bytesOf v.compact).length + 1) (bytesOf v.compact).length
      (bytesOf v.compact) = .ok (v, []) := by
    have hend : NumberEnd (charBytes []) := fun b hb => by cases hb
    have hback := readsBack v hcanonical hwhole ((bytesOf v.compact).length + v.size + 1)
      (bytesOf v.compact).length [] hnesting (by omega) hend
    rw [← bytesOf_ofList] at hback
    exact (readValue_bound _ (by omega) (by omega)).trans hback
  simp only [read, readCapped, hvalue, ok_bind]
  rfl

end Json

/-- **Decoding from text** is decoding the value, unless the text is refused before it is read:
with the path of the root and the limit, exactly if the value nests deeper than is allowed. If a
word can tell how deep a dump within the limit can nest, that much is allowed. -/
theorem decodeText_compact (options : Options) {v : Json} (hcanonical : v.Canonical)
    (hwhole : v.Whole) :
    decodeText options v.compact =
      (if nestingAllowance options.maxDepth < v.nesting then
        .error (.tooDeep [] options.maxDepth)
      else decode options v) ∧
    (dumpNesting options.maxDepth < Json.words64 →
      nestingAllowance options.maxDepth = dumpNesting options.maxDepth) ∧
    Path.text [] = "<root>" := by
  refine ⟨?_, nestingAllowance_of_lt, rfl⟩
  unfold decodeText parseDump
  rw [Json.textNesting_compact, Json.read_compact hcanonical hwhole]
  split <;> rfl

/-- Quotes, backslashes, brackets and other characters in a key and in strings, and side data of
which a text is refused one level down. -/
theorem decodeText_compact_escapes :
    let v : Json := .obj [("\\[\"", .arr [.arr [.arr [.arr [.arr [.arr [.arr [.arr [.arr [.arr [
        .int (-9223372036854775808)]]]]]]]]]]), ("id", .str "\x07\n\x7dé€😀"), ("kind", .str "\x7b")]
    v.compact = "\x7b\"\\\\[\\\"\":[[[[[[[[[[-9223372036854775808]]]]]]]]]]," ++
        "\"id\":\"\\u0007\\n\x7dé€😀\",\"kind\":\"\x7b\"\x7d" ∧
      decodeText { Options.default with maxDepth := 0 } v.compact = .error (.tooDeep [] 0) ∧
      decodeText Options.default v.compact = decode Options.default v := by
  intro v
  have hcanonical : v.Canonical := by
    simp only [v, Json.Canonical, Json.CanonicalMembers, Json.CanonicalItems]
    decide
  have hwhole : v.Whole := by
    simp only [v, Json.Whole, Json.WholeMembers, Json.WholeItems]
    decide
  refine ⟨by decide +kernel, ?_, ?_⟩
  · rw [(decodeText_compact _ hcanonical hwhole).1, if_pos (by decide)]
  · rw [(decodeText_compact _ hcanonical hwhole).1, if_neg (by decide)]

end AstDump
