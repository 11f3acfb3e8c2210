import AstDump.Proofs.Ancestors
import AstDump.Tree.Variable

/-!
# The values that variables start with

The value of a variable is looked for at its first expression. As long as an expression is a cast or
a parenthesis without a value of its own, the search goes on at its first operand. Operands stand
after what they belong to, so that the search comes to an end, and at every node there is at most
one way on.

* `Tree.IsInitializer`        : the first expression among the children of a node;
* `Tree.GoesOn`               : one step of the search;
* `Tree.Chain`                : the nodes that the search goes along;
* `Tree.IsPreorder.exists_chain` : it stops somewhere;
* `Tree.Chain.writtenValue?`  : what it answers is the value there;
* `decode_initialValue`       : the values of the variables of a decoded unit.
-/

namespace AstDump

namespace Kind

theorem isTransparent_iff (k : Kind) :
    k.isTransparent = true ↔ k ∈ [implicitCastExpr, parenExpr, cStyleCastExpr] := by
  cases k <;> simp [isTransparent]

theorem isExpression_iff (k : Kind) : k.isExpression = true ↔
    ∃ ending ∈ ["Expr", "Literal", "Operator"], ending.toList <:+ k.tag.toList := by
  simp only [isExpression, expressionEndings, List.any_eq_true, List.isSuffixOf_iff_suffix]

end Kind

namespace Tree

/-- The value of a node as text. -/
def valueText? (t : Tree) (i : Nat) : Option String := (t.node? i).bind Node.valueText?

/-- The tag of the node's kind ends like those of expressions. -/
def IsExpression (t : Tree) (c : Nat) : Prop :=
  ∃ kind, t.kind? c = some kind ∧
    ∃ ending ∈ ["Expr", "Literal", "Operator"], ending.toList <:+ kind.tag.toList

/-- The node is a cast or a parenthesis. -/
def IsCast (t : Tree) (e : Nat) : Prop :=
  ∃ kind ∈ [Kind.implicitCastExpr, Kind.parenExpr, Kind.cStyleCastExpr], t.kind? e = some kind

/-- The first expression among the children of a node. -/
def IsInitializer (t : Tree) (v e : Nat) : Prop :=
  t.IsExpression e ∧ ∃ before after, (t.childIds v).toList = before ++ e :: after ∧
    ∀ c ∈ before, ¬ t.IsExpression c

/-- The search for a value goes on from a node to its first child. -/
structure GoesOn (t : Tree) (e c : Nat) : Prop where
  cast : t.IsCast e
  noValue : t.valueText? e = none
  first : (t.childIds e)[0]? = some c

/-- The search for a value goes no further than this node. -/
def Stops (t : Tree) (e : Nat) : Prop := ∀ c, ¬ t.GoesOn e c

/-- The nodes that the search goes along, from one node to another. -/
inductive Chain (t : Tree) : (e : Nat) → (along : List NodeId) → (last : Nat) → Prop
  | here {e : Nat} : Chain t e [e] e
  | step {e c last : Nat} {along : List NodeId} (on : t.GoesOn e c) (rest : Chain t c along last) :
      Chain t e (e :: along) last

/-- The chain leads from the first expression of a node to a node with this value. -/
def Spells (t : Tree) (v : Nat) (along : List NodeId) (text : String) : Prop :=
  ∃ e last, t.IsInitializer v e ∧ t.Chain e along last ∧ t.valueText? last = some text

/-! ## The first expression -/

theorem any_isExpression_iff {t : Tree} {c : Nat} :
    (t.kind? c).any Kind.isExpression = true ↔ t.IsExpression c := by
  unfold IsExpression
  cases t.kind? c with
  | none => simp
  | some kind => simp [Kind.isExpression_iff]

theorem initializer?_eq_some_iff {t : Tree} {v e : Nat} :
    t.initializer? v = some e ↔ t.IsInitializer v e := by
  rw [initializer?, ← Array.find?_toList, List.find?_eq_some_iff_append]
  simp only [any_isExpression_iff, IsInitializer, Bool.not_eq_true', Bool.eq_false_iff, ne_eq]

theorem initializer?_eq_none_iff {t : Tree} {v : Nat} :
    t.initializer? v = none ↔ ∀ c, t.IsChild v c → ¬ t.IsExpression c := by
  rw [initializer?, ← Array.find?_toList, List.find?_eq_none]
  simp only [any_isExpression_iff, IsChild]

theorem IsInitializer.isChild {t : Tree} {v e : Nat} (h : t.IsInitializer v e) : t.IsChild v e := by
  obtain ⟨-, before, after, hids, -⟩ := h
  rw [IsChild, hids]
  simp

/-! ## One step -/

theorem GoesOn.unique {t : Tree} {e c c' : Nat} (h : t.GoesOn e c) (h' : t.GoesOn e c') :
    c = c' := Option.some.inj (h.first.symm.trans h'.first)

theorem GoesOn.isChild {t : Tree} {e c : Nat} (h : t.GoesOn e c) : t.IsChild e c :=
  Array.mem_toList_iff.mpr (Array.mem_of_getElem? h.first)

/-- The search stops at a value, at anything that is no cast, and at a cast without operands. -/
theorem stops_iff {t : Tree} {e : Nat} :
    t.Stops e ↔ (t.valueText? e).isSome ∨ ¬ t.IsCast e ∨ t.childIds e = #[] := by
  constructor
  · intro h
    by_contra hnot
    push Not at hnot
    obtain ⟨hvalue, hcast, hne⟩ := hnot
    have hpos : 0 < (t.childIds e).size := Array.size_pos_iff.mpr hne
    exact h _ ⟨hcast, Option.not_isSome_iff_eq_none.mp hvalue, Array.getElem?_eq_getElem hpos⟩
  · rintro (hvalue | hcast | hempty) c hon
    · rw [hon.noValue] at hvalue
      cases hvalue
    · exact hcast hon.cast
    · have hfirst := hon.first
      rw [hempty] at hfirst
      cases hfirst

theorem writtenValue?_succ {t : Tree} {e : Nat} (n : Nat) : t.writtenValue? (n + 1) e =
    (t.valueText? e).or
      (if (t.kind? e).any Kind.isTransparent then (t.childIds e)[0]?.bind (t.writtenValue? n)
        else none) := by
  rw [writtenValue?, valueText?, kind?, childIds]
  cases t.node? e with
  | none => rfl
  | some node => cases hvalue : node.valueText? <;> simp [hvalue]

theorem any_isTransparent_iff {t : Tree} {e : Nat} :
    (t.kind? e).any Kind.isTransparent = true ↔ t.IsCast e := by
  unfold IsCast
  cases t.kind? e with
  | none => simp
  | some kind => simp only [Option.any_some, Kind.isTransparent_iff, Option.some.injEq,
      exists_eq_right']

theorem writtenValue?_of_goesOn {t : Tree} {e c : Nat} (h : t.GoesOn e c) (n : Nat) :
    t.writtenValue? (n + 1) e = t.writtenValue? n c := by
  rw [writtenValue?_succ, h.noValue, if_pos (any_isTransparent_iff.mpr h.cast), h.first]
  rfl

theorem writtenValue?_of_stops {t : Tree} {e : Nat} (h : t.Stops e) (n : Nat) :
    t.writtenValue? (n + 1) e = t.valueText? e := by
  rw [writtenValue?_succ]
  cases hvalue : t.valueText? e with
  | some text => rfl
  | none =>
    rw [Option.none_or]
    split
    · next hcast =>
      cases hfirst : (t.childIds e)[0]? with
      | none => rfl
      | some c => exact absurd ⟨any_isTransparent_iff.mp hcast, hvalue, hfirst⟩ (h c)
    · rfl

/-! ## The whole search -/

namespace Chain

variable {t : Tree} {e last : Nat} {along : List NodeId}

/-- **The answer of the search is the value where it stops**, if its bound is not reached before. -/
theorem writtenValue? (h : t.Chain e along last) (hstops : t.Stops last) : ∀ n, along.length ≤ n →
    t.writtenValue? n e = t.valueText? last := by
  induction h with
  | here =>
    intro n hn
    obtain ⟨n, rfl⟩ : ∃ lower, n = lower + 1 := ⟨n - 1, by rw [List.length_singleton] at hn; omega⟩
    exact writtenValue?_of_stops hstops n
  | step on _ ih =>
    intro n hn
    rw [List.length_cons] at hn
    obtain ⟨n, rfl⟩ : ∃ lower, n = lower + 1 := ⟨n - 1, by omega⟩
    rw [writtenValue?_of_goesOn on]
    exact ih hstops n (by omega)

/-- There is only one way for the search, and one node where it stops. -/
theorem unique {last' : Nat} {along' : List NodeId} (h : t.Chain e along last)
    (h' : t.Chain e along' last') (hstops : t.Stops last) (hstops' : t.Stops last') :
    along = along' ∧ last = last' := by
  induction h generalizing along' with
  | here =>
    cases h' with
    | here => exact ⟨rfl, rfl⟩
    | step on _ => exact absurd on (hstops _)
  | step on _ ih =>
    cases h' with
    | here => exact absurd on (hstops' _)
    | step on' rest' =>
      cases on.unique on'
      obtain ⟨rfl, rfl⟩ := ih rest' hstops
      exact ⟨rfl, rfl⟩

end Chain

/-- **The search stops**: with every step fewer nodes are left after the one it is at. -/
theorem IsPreorder.exists_chain {t : Tree} (h : t.IsPreorder) {e : Nat} (he : e < t.size) :
    ∃ along last, t.Chain e along last ∧ t.Stops last ∧ along.length ≤ t.size - e := by
  induction hleft : t.size - e using Nat.strongRecOn generalizing e with
  | ind left ih =>
    by_cases hstops : t.Stops e
    · exact ⟨[e], e, .here, hstops, by rw [List.length_singleton]; omega⟩
    · unfold Stops at hstops
      push Not at hstops
      obtain ⟨c, hon⟩ := hstops
      have hlt := h.lt_of_isChild hon.isChild
      have hc := h.child_lt_size hon.isChild
      obtain ⟨along, last, hchain, hlast, hlength⟩ := ih (t.size - c) (by omega) hc rfl
      exact ⟨e :: along, last, .step hon hchain, hlast, by rw [List.length_cons]; omega⟩

namespace IsPreorder

variable {t : Tree} {v e : Nat}

/-- The value that a node starts with is the value where the search from its first expression
stops, whatever bound is set that is no less than the number of nodes. -/
theorem exists_chain_of_isInitializer (h : t.IsPreorder) (he : t.IsInitializer v e) :
    ∃ along last, t.Chain e along last ∧ t.Stops last ∧ along.length ≤ t.size ∧
      ∀ n, t.size ≤ n → (t.initializer? v).bind (t.writtenValue? n) = t.valueText? last := by
  obtain ⟨along, last, hchain, hstops, hlength⟩ := h.exists_chain (h.child_lt_size he.isChild)
  refine ⟨along, last, hchain, hstops, by omega, fun n hn => ?_⟩
  rw [initializer?_eq_some_iff.mpr he]
  exact hchain.writtenValue? hstops n (by omega)

theorem initialValue?_eq_some_iff (h : t.IsPreorder) {text : String} :
    t.initialValue? v = some text ↔ ∃ along, t.Spells v along text := by
  constructor
  · intro hvalue
    obtain ⟨e, he, -⟩ := Option.bind_eq_some_iff.mp hvalue
    have he := initializer?_eq_some_iff.mp he
    obtain ⟨along, last, hchain, -, -, hlast⟩ := h.exists_chain_of_isInitializer he
    exact ⟨along, e, last, he, hchain, (hlast t.size (Nat.le_refl _)).symm.trans hvalue⟩
  · rintro ⟨along, e, last, he, hchain, htext⟩
    have hstops : t.Stops last := stops_iff.mpr (.inl (by rw [htext]; rfl))
    obtain ⟨along', last', hchain', hstops', -, hlast⟩ := h.exists_chain_of_isInitializer he
    obtain ⟨rfl, rfl⟩ := hchain.unique hchain' hstops hstops'
    exact (hlast t.size (Nat.le_refl _)).trans htext

/-- There is no value without an expression, and none where the search stops without one. -/
theorem initialValue?_eq_none_iff (h : t.IsPreorder) :
    t.initialValue? v = none ↔ (∀ c, t.IsChild v c → ¬ t.IsExpression c) ∨
      ∃ e along last, t.IsInitializer v e ∧ t.Chain e along last ∧ t.valueText? last = none ∧
        (¬ t.IsCast last ∨ t.childIds last = #[]) := by
  cases hinit : t.initializer? v with
  | none =>
    have hvalue : t.initialValue? v = none := by rw [initialValue?, hinit]; rfl
    simp only [hvalue, true_iff]
    exact .inl (initializer?_eq_none_iff.mp hinit)
  | some e =>
    have he := initializer?_eq_some_iff.mp hinit
    obtain ⟨along, last, hchain, hstops, -, hlast⟩ := h.exists_chain_of_isInitializer he
    have hvalue : t.initialValue? v = t.valueText? last := hlast t.size (Nat.le_refl _)
    rw [hvalue]
    constructor
    · intro hnone
      refine .inr ⟨e, along, last, he, hchain, hnone, (stops_iff.mp hstops).resolve_left ?_⟩
      rw [hnone]
      exact Bool.false_ne_true
    · rintro (hnot | ⟨e', along', last', he', hchain', hnone, hstuck⟩)
      · exact absurd he.1 (hnot e he.isChild)
      · have hsame := hinit.symm.trans (initializer?_eq_some_iff.mpr he')
        cases hsame
        obtain ⟨-, rfl⟩ := hchain.unique hchain' hstops (stops_iff.mpr (.inr hstuck))
        exact hnone

end IsPreorder

/-- The chain to a value is the only one, and so is the value. -/
theorem Spells.unique {t : Tree} {v : Nat} {along along' : List NodeId} {text text' : String}
    (h : t.Spells v along text) (h' : t.Spells v along' text') : along = along' ∧ text = text' := by
  obtain ⟨e, last, he, hchain, htext⟩ := h
  obtain ⟨e', last', he', hchain', htext'⟩ := h'
  have hsame := (initializer?_eq_some_iff.mpr he).symm.trans (initializer?_eq_some_iff.mpr he')
  cases hsame
  obtain ⟨rfl, rfl⟩ := hchain.unique hchain' (stops_iff.mpr (.inl (by rw [htext]; rfl)))
    (stops_iff.mpr (.inl (by rw [htext']; rfl)))
  exact ⟨rfl, Option.some.inj (htext.symm.trans htext')⟩

end Tree

/-- **The values that variables start with**, whatever the dump and the options, and said of any
node, the variables and parameters among them. There is a value exactly if a chain leads to it: from
the first expression below the node, through first operands of casts and parentheses without a
value, to a node with this value; chain and value are unique. There is none without an expression,
or if the chain stops at something without a value that is no cast, or has no operand. The search
stops at every node that it may start from, and its bound is not reached. -/
theorem decode_initialValue {options : Options} {raw : Json} {u : TranslationUnit}
    (h : decode options raw = .ok u) (v : Nat) :
    (∀ text, u.tree.initialValue? v = some text ↔ ∃ along, u.tree.Spells v along text) ∧
    (∀ along along' text text', u.tree.Spells v along text → u.tree.Spells v along' text' →
      along = along' ∧ text = text') ∧
    (u.tree.initialValue? v = none ↔
      (∀ c, u.tree.IsChild v c → ¬ u.tree.IsExpression c) ∨
      ∃ e along last, u.tree.IsInitializer v e ∧ u.tree.Chain e along last ∧
        u.tree.valueText? last = none ∧ (¬ u.tree.IsCast last ∨ u.tree.childIds last = #[])) ∧
    ∀ e, u.tree.IsInitializer v e →
      ∃ along last, u.tree.Chain e along last ∧ u.tree.Stops last ∧
        along.length ≤ u.tree.size ∧
        ∀ n, u.tree.size ≤ n → (u.tree.initializer? v).bind (u.tree.writtenValue? n) =
          u.tree.initialValue? v := by
  obtain ⟨tree, errors, -, rfl⟩ := decode_eq_ok_iff.mp h
  have hpre := (tree.showsAll_unit options.target errors).isPreorder (tree.size_unit ..)
  refine ⟨fun text => hpre.initialValue?_eq_some_iff,
    fun along along' text text' hspells hspells' => hspells.unique hspells',
    hpre.initialValue?_eq_none_iff, fun e he => ?_⟩
  obtain ⟨along, last, hchain, hstops, hlength, hlast⟩ := hpre.exists_chain_of_isInitializer he
  exact ⟨along, last, hchain, hstops, hlength,
    fun n hn => (hlast n hn).trans (hlast _ (Nat.le_refl _)).symm⟩

/-- A variable with a comment before its value, which stands in a parenthesis below a cast. -/
theorem decode_initialValue_through_cast :
    let raw : Json := .branch "v" "VarDecl" [.branch "d" "FullComment" [],
      .branch "c" "ImplicitCastExpr" [.branch "p" "ParenExpr" [
        .obj [("id", .str "l"), ("kind", .str "IntegerLiteral"), ("value", .str "7")]]]]
    ∃ u along, decode Options.default raw = .ok u ∧ u.tree.initialValue? 0 = some "7" ∧
      u.tree.Spells 0 along "7" ∧ ∀ along' text, u.tree.Spells 0 along' text → along' = along := by
  intro raw
  have hvalues : (decode Options.default raw).toOption.map (fun u => u.tree.initialValue? 0) =
      some (some "7") := by decide +kernel
  obtain ⟨u, hu, hvalue⟩ := exists_decode_of_map hvalues
  obtain ⟨hiff, hunique, -⟩ := decode_initialValue hu 0
  obtain ⟨along, hspells⟩ := (hiff "7").mp hvalue
  exact ⟨u, along, hu, hvalue, hspells,
    fun along' text hspells' => (hunique along' along text "7" hspells' hspells).1⟩

end AstDump
