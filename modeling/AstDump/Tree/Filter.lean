import AstDump.Tree.Search

/-!
# Filters for searches

The predicates that a search is usually given. Some look at the candidate alone, some at what was
found before it, and one counts how often it was asked.

* `Filter.accepts`      : what a filter says of a candidate;
* `Tree.collectFiltered`: the search with a filter.
-/

namespace AstDump

/-- A predicate of a search. -/
inductive Filter where
  /-- Fewer than so many were found before. -/
  | limit (count : Nat)
  /-- Every so many times that the filter is asked. -/
  | every (period : Nat)
  /-- The candidate has this name, or none. -/
  | named (name : Option String)
  /-- Nothing found before has the candidate's name; having none counts as a name. -/
  | distinctName
  /-- Nothing found before is above the candidate. -/
  | outermost
  /-- The candidate has so many children. -/
  | childCount (count : Nat)
  /-- The candidate is no deeper than this. -/
  | maxDepth (depth : Nat)
  /-- The candidate is a leaf. -/
  | leaf
  /-- The candidate has a child of this kind. -/
  | hasDirect (kind : Kind)
  deriving DecidableEq, Repr, Inhabited

namespace Filter

/-- The name of a node of a tree. -/
def nameOf? (t : Tree) (i : NodeId) : Option String := (t.node? i).bind Node.name?

/-- Whether a filter accepts a candidate, after the nodes that were found before it and the calls
that it has counted. -/
def accepts (t : Tree) (filter : Filter) (found : Array NodeId) (i : NodeId) : StateM Nat Bool := do
  match filter with
  | limit count => return found.size < count
  | every period =>
    modify (· + 1)
    return (← get) % period = 0
  | named name => return nameOf? t i = name
  | distinctName => return found.all fun j => nameOf? t j ≠ nameOf? t i
  | outermost => return (t.ancestors i).all fun a => ¬ found.contains a
  | childCount count => return (t.childIds i).size = count
  | maxDepth depth => return (t.node? i).any fun n => n.depth ≤ depth
  | leaf => return (t.node? i).any Node.isLeaf
  | hasDirect kind => return (t.collectFirst? i kind).isSome

end Filter

/-- The nodes of a kind that a filter accepts. -/
def Tree.collectFiltered (t : Tree) (start : NodeId) (kind : Kind) (recursive : Bool)
    (filter : Filter) : Array NodeId :=
  ((t.collectWhereM start kind recursive (filter.accepts t)).run 0).1

end AstDump
