import Heritage.Inheritance.Flatten
import Heritage.Inheritance.Linearize

/-!
# Resolving a table

Once all classes are known, written types and parents can be looked up. In
order:

1. the types of variables and the return types of methods,
2. the parents of each class, and whether one is missing,
3. the classes on a cycle,
4. the classes with a broken ancestor,
5. the linearization of each class,
6. its members.

Each step gives a new table and the issues it found. Looking up reads names,
and marking cycles reads parents, neither of which the step changes, so these
steps are maps over the symbols. The others go through the classes one after the
other and read what they have changed before: a class is marked for a broken
ancestor when that ancestor may itself have been marked a moment ago, and
linearization goes from parents to children.
-/

namespace Heritage

namespace SymbolTable

/-! ## Types -/

/-- The type of a variable, if it has one already or its written type is one a
variable can have. -/
def resolvedVarType (t : SymbolTable) (v : VarSymbol) : Option Ty :=
  v.type.or <|
    v.typeName.bind fun written =>
      (t.resolveType written.text).filter (· != .void)

/-- What is wrong with the written type of a variable. -/
def varTypeIssue? (t : SymbolTable) (v : VarSymbol) : Option Issue :=
  match v.type, v.typeName with
  | none, some written =>
    match t.resolveType written.text with
    | some .void => some (.mismatch (.voidVariable v.name) written.span)
    | some _ => none
    | none => some (.unknownType written.text written.span)
  | _, _ => none

/-- The return type of a method, if its written return type is one. -/
def resolvedReturnType (t : SymbolTable) (m : MethodSymbol) : Option Ty :=
  match m.returnTypeName with
  | some written => (t.resolveType written.text).or m.returnType
  | none => m.returnType

/-- What is wrong with the written return type of a method. -/
def returnTypeIssue? (t : SymbolTable) (m : MethodSymbol) : Option Issue :=
  match m.returnTypeName with
  | some written =>
    if (t.resolveType written.text).isNone then
      some (.unknownType written.text written.span)
    else none
  | none => none

/-- Look up the written types. -/
def resolveTypes (t : SymbolTable) : SymbolTable :=
  { t with
    vars := t.vars.map fun v => { v with type := t.resolvedVarType v }
    methods := t.methods.map fun m => { m with returnType := t.resolvedReturnType m } }

/-- What is wrong with the written types, those of variables first. -/
def typeIssues (t : SymbolTable) : List Issue :=
  t.vars.filterMap t.varTypeIssue? ++ t.methods.filterMap t.returnTypeIssue?

/-! ## Parents -/

/-- The written parents of a class that are classes, each once. -/
def knownParents (t : SymbolTable) (c : ClassSymbol) : List ClassId :=
  (c.parents.filterMap fun p => t.lookupClass p.text).eraseDups

/-- The written parents of a class that are none. -/
def missingParents (t : SymbolTable) (c : ClassSymbol) : List Ident :=
  c.parents.filter fun p => (t.lookupClass p.text).isNone

/-- Look up the written parents. -/
def resolveParents (t : SymbolTable) : SymbolTable :=
  { t with
    classes := t.classes.map fun c =>
      { c with
        resolvedParents := t.knownParents c
        state := if (t.missingParents c).isEmpty then c.state else .missingParent } }

/-- Every written parent that is no class. -/
def parentIssues (t : SymbolTable) : List Issue :=
  t.classes.flatMap fun c =>
    (t.missingParents c).map fun p => .unknownParent c.name p.text p.span

/-! ## Broken classes -/

/-- Mark the classes on a cycle. -/
def markCycles (t : SymbolTable) (g : Ancestry) : SymbolTable :=
  { t with
    classes := t.classes.mapIdx fun c s =>
      if g.isCyclic c then { s with state := .cyclic } else s }

/-- The classes on a cycle, as issues. -/
def cycleIssues (t : SymbolTable) (g : Ancestry) : List Issue :=
  (t.classIds.filter g.isCyclic).map fun c => .cyclic (t.classAt c).name (t.classAt c).span

/-- Whether a class is not broken itself and has a broken ancestor. -/
def isTainted (t : SymbolTable) (g : Ancestry) (c : ClassId) : Bool :=
  !(t.classAt c).state.isBroken &&
    (g.ancestors c).any fun a => (t.classAt a).state.isBroken

/-- Mark a class if it is tainted as the table stands, and report it. -/
def markIfTainted (g : Ancestry) (s : SymbolTable × List Issue) (c : ClassId) :
    SymbolTable × List Issue :=
  if s.1.isTainted g c then
    (s.1.modifyClass c fun k => { k with state := .unresolved },
      s.2 ++ [.unresolved (s.1.classAt c).name (s.1.classAt c).span])
  else s

/-- **Mark the classes with a broken ancestor**, one after the other in one
table. A class that was marked is broken for those that come behind it. -/
def markUnresolved (t : SymbolTable) (g : Ancestry) : SymbolTable × List Issue :=
  t.classIds.foldl (markIfTainted g) (t, [])

/-! ## All of it -/

/-- The number of classes whose ancestry is broken. -/
def brokenCount (t : SymbolTable) : Nat :=
  t.classes.countP fun c => c.state.isBroken

/-- The number of ambiguous method names over all classes. -/
def ambiguousCount (t : SymbolTable) : Nat :=
  (t.classes.flatMap fun c => c.members.ambiguous).length

end SymbolTable

/-- **A resolved table**, and what was found wrong on the way to it. -/
structure Resolved where
  /-- The table with everything looked up. -/
  table : SymbolTable
  /-- The issues found, in order. -/
  issues : List Issue
deriving DecidableEq, Inhabited

namespace Resolved

/-- The number of classes whose ancestry is broken. -/
def broken (r : Resolved) : Nat :=
  r.table.brokenCount

/-- The number of classes whose ancestry is known. -/
def resolved (r : Resolved) : Nat :=
  r.table.classes.length - r.broken

/-- The number of ambiguous method names over all classes. -/
def ambiguous (r : Resolved) : Nat :=
  r.table.ambiguousCount

end Resolved

namespace SymbolTable

/-- **Resolve a table.** -/
@[irreducible]
def resolve (t : SymbolTable) : Resolved :=
  let typed := t.resolveTypes
  let parented := typed.resolveParents
  let g := Ancestry.ofTable parented
  let cycled := parented.markCycles g
  let marked := cycled.markUnresolved g
  let flat := marked.1.linearize.flatten g
  { table := flat
    issues := t.typeIssues ++ typed.parentIssues ++ parented.cycleIssues g
      ++ marked.2 ++ flat.ambiguities g }

end SymbolTable

end Heritage
