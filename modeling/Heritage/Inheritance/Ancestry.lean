import Heritage.Symbols.Table

/-!
# Ancestry

The classes and their parents form a directed graph, in which cycles are
possible. Its transitive closure is computed once and kept: the ancestors of a
class are the classes reached from it by one or more steps to a parent, so a
class is its own ancestor exactly when it lies on a cycle.

The closure is built by letting paths pass through one more class at a time.
After the classes `0, …, k - 1` have been let through, a row holds what is
reached by paths whose inner classes are among them; when all have been let
through, it holds everything reached.
-/

namespace Heritage

/-- **The ancestors of every class**, in ascending order. -/
structure Ancestry where
  /-- For each class its ancestors. -/
  rows : List (List ClassId)
deriving DecidableEq, Inhabited

namespace Ancestry

/-- Let paths pass through one class: whoever reaches it reaches what it
reaches. -/
def passThrough (rows : List (List ClassId)) (k : ClassId) : List (List ClassId) :=
  rows.map fun row =>
    if row.contains k then row ++ (rows.getD k []).filter (fun a => !row.contains a) else row

/-- What each class reaches by one or more steps, given what it reaches by
one. -/
def closure (rows : List (List ClassId)) : List (List ClassId) :=
  (List.range rows.length).foldl passThrough rows

/-- The ancestry that a list of parents for each class gives. -/
def ofParents (parents : List (List ClassId)) : Ancestry where
  rows := (closure parents).map fun row =>
    (List.range parents.length).filter fun a => row.contains a

/-- The ancestry of the classes of a table, by their resolved parents. -/
def ofTable (t : SymbolTable) : Ancestry :=
  ofParents (t.classes.map (·.resolvedParents))

/-- The number of classes. -/
def classCount (g : Ancestry) : Nat :=
  g.rows.length

/-- The ancestors of a class, which is one of them if it lies on a cycle. -/
def ancestors (g : Ancestry) (c : ClassId) : List ClassId :=
  g.rows.getD c []

/-- Whether a class lies on a cycle. -/
def isCyclic (g : Ancestry) (c : ClassId) : Bool :=
  (g.ancestors c).contains c

/-- Whether a class inherits from another. -/
def isSubclassOf (g : Ancestry) (c a : ClassId) : Bool :=
  c != a && (g.ancestors c).contains a

/-- Whether two classes inherit from each other. -/
def areEntangled (g : Ancestry) (c d : ClassId) : Bool :=
  (g.ancestors c).contains d && (g.ancestors d).contains c

/-- The classes on a common cycle with a class, in ascending order. -/
def cycleOf (g : Ancestry) (c : ClassId) : List ClassId :=
  (List.range g.classCount).filter (g.areEntangled c)

/-- **The classes that inherit from themselves**, in groups that inherit from
each other. Each group is ascending, and the groups go by their first
members. -/
def cycles (g : Ancestry) : List (List ClassId) :=
  ((List.range g.classCount).filter fun c => (g.cycleOf c).head? == some c).map g.cycleOf

end Ancestry

end Heritage
