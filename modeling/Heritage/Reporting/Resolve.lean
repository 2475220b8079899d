import Heritage.Inheritance.Resolve
import Heritage.Report

/-!
# Resolving a table in place

The steps of resolution, each a loop that changes one table and reports what it
meets on the way.
-/

namespace Heritage

/-- **Resolving a table**, which is changed in place, with a report at hand. -/
abbrev Resolving := StateT SymbolTable Reporting

namespace Resolving

/-! ## Types -/

/-- Look up the written type of a variable that has no type yet. -/
def resolveVar (v : VarId) : Resolving Unit := do
  let t ← get
  match (t.varAt v).type, (t.varAt v).typeName with
  | none, some written =>
    match t.resolveType written.text with
    | some .void => Reporting.report (.mismatch (.voidVariable (t.varAt v).name) written.span)
    | some type => set (t.modifyVar v fun s => { s with type := some type })
    | none => Reporting.report (.unknownType written.text written.span)
  | _, _ => pure ()

/-- Look up the written return type of a method. -/
def resolveMethod (m : MethodId) : Resolving Unit := do
  let t ← get
  match (t.methodAt m).returnTypeName with
  | none => pure ()
  | some written =>
    match t.resolveType written.text with
    | some type => set (t.modifyMethod m fun s => { s with returnType := some type })
    | none => Reporting.report (.unknownType written.text written.span)

/-- Look up the written types, those of variables first. -/
def resolveTypes : Resolving Unit := do
  let t ← get
  (List.range t.vars.length).forM resolveVar
  (List.range t.methods.length).forM resolveMethod

/-! ## Parents -/

/-- Look up the written parents of a class, given the classes found so far and
whether one is missing. A class that is found again is not listed again. -/
def lookupParents (t : SymbolTable) (c : ClassSymbol) :
    List Ident → List ClassId → Bool → Reporting (List ClassId × Bool)
  | [], found, missing => pure (found, missing)
  | p :: rest, found, missing =>
    match t.lookupClass p.text with
    | some a => lookupParents t c rest (if found.contains a then found else found ++ [a]) missing
    | none => do
      Reporting.report (.unknownParent c.name p.text p.span)
      lookupParents t c rest found true

/-- Look up the written parents of a class. -/
def resolveParentsOf (c : ClassId) : Resolving Unit := do
  let t ← get
  let (found, missing) ← lookupParents t (t.classAt c) (t.classAt c).parents [] false
  set (t.modifyClass c fun s =>
    { s with
      resolvedParents := found
      state := if missing then .missingParent else s.state })

/-- Look up the written parents of every class. -/
def resolveParents : Resolving Unit := do
  let t ← get
  t.classIds.forM resolveParentsOf

/-! ## Broken classes -/

/-- Mark a class that is on a cycle. -/
def markCyclic (c : ClassId) : Resolving Unit := do
  modify (·.modifyClass c fun s => { s with state := .cyclic })
  let t ← get
  Reporting.report (.cyclic (t.classAt c).name (t.classAt c).span)

/-- Mark the classes on a cycle. -/
def markCycles (g : Ancestry) : Resolving Unit := do
  let t ← get
  (t.classIds.filter g.isCyclic).forM markCyclic

/-- Mark a class if it is tainted as the table stands. -/
def markIfTainted (g : Ancestry) (c : ClassId) : Resolving Unit := do
  let t ← get
  if t.isTainted g c then
    set (t.modifyClass c fun s => { s with state := .unresolved })
    Reporting.report (.unresolved (t.classAt c).name (t.classAt c).span)

/-- Mark the classes with a broken ancestor. -/
def markUnresolved (g : Ancestry) : Resolving Unit := do
  let t ← get
  t.classIds.forM (markIfTainted g)

/-! ## Members -/

/-- Give a class its members. A name that is ambiguous in it is reported, unless it
is ambiguous in a parent as well. -/
def flattenClass (g : Ancestry) (c : ClassId) : Resolving Unit := do
  let t ← get
  let members := t.membersOf g c
  members.ambiguous.forM fun name =>
    if t.inheritsAmbiguity c name then pure ()
    else Reporting.report (t.ambiguity g c name)
  set (t.modifyClass c fun s => { s with members := members })

/-- Give every class its members, parents first. -/
def flatten (g : Ancestry) : Resolving Unit := do
  let t ← get
  t.resolutionOrder.forM (flattenClass g)

/-! ## All of it -/

/-- The steps, one after the other. -/
def steps : Resolving Unit := do
  resolveTypes
  resolveParents
  let t ← get
  let g := Ancestry.ofTable t
  markCycles g
  markUnresolved g
  modify SymbolTable.linearize
  flatten g

end Resolving

/-- **Resolve a table**, and report what is wrong with it. -/
def SymbolTable.resolving (t : SymbolTable) : Reporting SymbolTable := do
  let (_, t) ← Resolving.steps.run t
  return t

end Heritage
