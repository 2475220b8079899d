import Heritage.Symbols.Table

/-!
# Parents before children

An order of classes in which each one stands behind its parents and otherwise
where it was declared: the classes are visited in order, and a class is placed
once its parents have been visited. A class that is met again while its own
parents are being visited lies on a cycle; it is placed once, where the cycle
was entered.
-/

namespace Heritage

namespace ParentsFirst

/-- The classes met and the classes placed. -/
structure Visit where
  /-- The classes met so far, placed or about to be. -/
  met : List ClassId := []
  /-- The classes placed so far, in order. -/
  placed : List ClassId := []
deriving DecidableEq, Inhabited

/-- Visit a class: its parents, then the class itself. Each level meets a class
that was not met before, so as many levels as there are classes suffice. -/
def visit (parents : ClassId → List ClassId) : Nat → Visit → ClassId → Visit
  | 0, v, _ => v
  | n + 1, v, c =>
    if v.met.contains c then v
    else
      let w := (parents c).foldl (visit parents n) { v with met := c :: v.met }
      { w with placed := w.placed ++ [c] }

/-- **The first so many classes, parents first.** -/
def order (parents : ClassId → List ClassId) (count : Nat) : List ClassId :=
  ((List.range count).foldl (visit parents count) {}).placed

end ParentsFirst

namespace SymbolTable

/-- The order in which the structs of the classes can be laid out, each one
behind the structs that it holds as parts. Fields of class type are pointers
and ask for no order. -/
def structOrder (t : SymbolTable) : List ClassId :=
  ParentsFirst.order (fun c => (t.classAt c).resolvedParents) t.classes.length

/-- The order in which classes are resolved. Below a broken class nothing is
looked at on its behalf. -/
def resolutionOrder (t : SymbolTable) : List ClassId :=
  ParentsFirst.order
    (fun c => if (t.classAt c).state.isBroken then [] else (t.classAt c).resolvedParents)
    t.classes.length

end SymbolTable

end Heritage
