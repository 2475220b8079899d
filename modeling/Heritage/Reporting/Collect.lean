import Heritage.Report
import Heritage.Symbols.Registry

/-!
# Collecting into a registry

One walk over the tree fills a registry, and what cannot be declared is reported
on the way. The inside of a class or a method that was refused is checked all the
same, in a registry of its own that is thrown away; the report is the same one.
-/

namespace Heritage

/-- **Collecting symbols**, with a registry to fill and a report at hand. -/
abbrev Collecting := StateT Registry Reporting

namespace Collecting

/-- Ask the registry for a declaration. -/
def request {α : Type} (f : Registry → Except Issue α × Registry) :
    Collecting (Except Issue α) :=
  modifyGet f

/-- Ask the registry for a declaration, and report why it is refused if it is. -/
def declare {α : Type} (f : Registry → Except Issue α × Registry) : Collecting (Option α) := do
  let answer ← request f
  Reporting.record answer

/-- Open a block inside a scope. -/
def openBlock (scope : ScopeId) : Collecting ScopeId :=
  modifyGet (·.openBlock scope)

/-- Collect into a registry of its own. -/
def detached (x : Collecting Unit) : Collecting Unit := do
  let _ ← (x.run Registry.empty : Reporting (Unit × Registry))

/-! ## Bodies -/

mutual
/-- Collect the locals and blocks of a statement that stands in a scope. -/
def collectStmt (scope : ScopeId) : Stmt → Collecting Unit
  | .declare type vars _ =>
    vars.forM fun v => do
      let _ ← declare (·.declareLocal scope v.name.text type v.name.span)
  | .ifThen _ body _ _ => do
    let block ← openBlock scope
    collectStmts block body
  | .ifElse _ body _ other _ _ => do
    let block ← openBlock scope
    collectStmts block body
    let block ← openBlock scope
    collectStmts block other
  | .loop _ body _ _ => do
    let block ← openBlock scope
    collectStmts block body
  | .ret _ _ => pure ()
  | .assign _ _ _ => pure ()
  | .eval _ _ => pure ()
/-- Collect the locals and blocks of a list of statements that stands in a
scope. -/
def collectStmts (scope : ScopeId) : List Stmt → Collecting Unit
  | [] => pure ()
  | s :: rest => do
    collectStmt scope s
    collectStmts scope rest
end

/-! ## Members -/

/-- Collect an explicit parameter, which must have a type. -/
def collectParam (method : MethodId) (methodName : String) (p : Param) : Collecting Unit :=
  match p.type with
  | none => Reporting.report (.malformed (.untypedParam p.name.text methodName) p.span)
  | some type => do
    let _ ← declare (·.declareParam method p.name.text type p.span)

/-- Collect what is inside a method that was declared. -/
def collectMethodBody (method : MethodId) (receiver : Param) (params : List Param)
    (decl : MethodDecl) : Collecting Unit := do
  let _ ← declare (·.declareReceiver method receiver.name.text receiver.span)
  params.forM (collectParam method decl.name.text)
  let r ← get
  collectStmts (r.methodAt method).symbol.scope decl.body

/-- Collect a method on its own, in a class of which nothing but the name and the
place is kept. A registry without classes refuses neither. -/
def collectDetachedMethod (cls : ClassSymbol) (index : Nat) (receiver : Param)
    (params : List Param) (decl : MethodDecl) : Collecting Unit :=
  detached do
    let copy ← declare (·.declareClass cls.name [] 0 cls.span)
    match copy with
    | none => pure ()
    | some copy =>
      let method ← declare
        (·.declareMethod copy decl.name.text decl.returnType index decl.name.span)
      match method with
      | none => pure ()
      | some method => collectMethodBody method receiver params decl

/-- Collect a method, which must have a receiver without a type. -/
def collectMethod (cls : ClassId) (index : Nat) (decl : MethodDecl) : Collecting Unit :=
  match decl.params with
  | [] => Reporting.report (.malformed (.noReceiver decl.name.text) decl.span)
  | receiver :: params =>
    if receiver.type.isSome then
      Reporting.report (.malformed (.typedReceiver decl.name.text) receiver.span)
    else do
      let method ← request
        (·.declareMethod cls decl.name.text decl.returnType index decl.name.span)
      match method with
      | .ok method => collectMethodBody method receiver params decl
      | .error i =>
        Reporting.report i
        let r ← get
        collectDetachedMethod (r.classAt cls).symbol index receiver params decl

/-- Collect the fields of a declaration. -/
def collectField (cls : ClassId) (decl : FieldDecl) : Collecting Unit :=
  decl.names.forM fun name => do
    let _ ← declare (·.declareField cls name.text decl.type name.span)

/-- Collect a member, given with its position in the class. -/
def collectMember (cls : ClassId) (m : Member × Nat) : Collecting Unit :=
  match m with
  | (.field decl, _) => collectField cls decl
  | (.method decl, index) => collectMethod cls index decl

/-! ## Classes -/

/-- Collect the members of a class that was declared. -/
def collectMembers (cls : ClassId) (decl : ClassDecl) : Collecting Unit :=
  decl.members.zipIdx.forM (collectMember cls)

/-- Collect a class on its own. A registry without classes does not refuse it. -/
def collectDetachedClass (d : ClassDecl × Nat) : Collecting Unit :=
  detached do
    let cls ← declare (·.declareClass d.1.name.text d.1.parents d.2 d.1.name.span)
    match cls with
    | none => pure ()
    | some cls => collectMembers cls d.1

/-- Collect a class, given with its position in the program. -/
def collectClass (d : ClassDecl × Nat) : Collecting Unit := do
  let cls ← request (·.declareClass d.1.name.text d.1.parents d.2 d.1.name.span)
  match cls with
  | .ok cls => collectMembers cls d.1
  | .error i =>
    Reporting.report i
    collectDetachedClass d

end Collecting

/-- **Collect the symbols of a program into a registry.** -/
def Registry.ofProgram (p : Program) : Reporting Registry := do
  let (_, r) ← (p.classes.zipIdx.forM Collecting.collectClass).run Registry.empty
  return r

end Heritage
