import Heritage.Inheritance.ParentsFirst

/-!
# Linearization

The linearization of a class is the class, then the linearizations of its
parents from left to right, of which only first occurrences are kept. A class
whose ancestry is broken has nothing but itself.

Classes are linearized parents first, so the linearizations that one is made
of are finished before it. One that is already there is kept as it is.
-/

namespace Heritage

namespace SymbolTable

/-- The linearization of a class, given those of its parents. -/
def linearizationFromParents (t : SymbolTable) (c : ClassId) : List ClassId :=
  (c :: (t.classAt c).resolvedParents.flatMap t.linearization).eraseDups

/-- Linearize a class whose parents are linearized. -/
def linearizeClass (t : SymbolTable) (c : ClassId) : SymbolTable :=
  if !(t.linearization c).isEmpty then t
  else if (t.classAt c).state.isBroken then
    t.modifyClass c fun s => { s with linearization := [c] }
  else
    let order := t.linearizationFromParents c
    t.modifyClass c fun s => { s with linearization := order, state := .resolved }

/-- **Linearize every class.** -/
def linearize (t : SymbolTable) : SymbolTable :=
  t.resolutionOrder.foldl linearizeClass t

end SymbolTable

end Heritage
