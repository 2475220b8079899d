import Heritage.Symbols.Declare

/-!
# Collecting the symbols of a program

One walk over the tree, in order, declares every class, member, parameter and
local, and opens a scope for every method and block. Nothing is resolved:
parents and types are kept as they were written, so that they may be declared
later in the program.

What cannot be declared is reported and its inside is checked all the same,
against a table that is then thrown away: a class whose name is taken as the
only class of a table, a method whose name is taken as the only method of a
copy of its class. So each declaration is checked exactly once, and the ones
that were refused leave no trace.
-/

namespace Heritage

/-- A table, and what was found wrong on the way to it. -/
structure Collected where
  /-- The symbols declared. -/
  table : SymbolTable
  /-- The issues found, in order. -/
  issues : List Issue := []
deriving DecidableEq, Inhabited

namespace Collected

/-- Go on from a table. -/
def andThen (c : Collected) (f : SymbolTable → Collected) : Collected :=
  let d := f c.table
  { table := d.table, issues := c.issues ++ d.issues }

/-- Go through a list in order. -/
def each {α : Type} (f : α → SymbolTable → Collected) : List α → SymbolTable → Collected
  | [], t => { table := t }
  | a :: rest, t => (f a t).andThen (each f rest)

/-- The table after a declaration, or the table before it with the reason it
was refused. -/
def ofDeclare {α : Type} (t : SymbolTable) : Except Issue (α × SymbolTable) → Collected
  | .ok (_, t') => { table := t' }
  | .error i => { table := t, issues := [i] }

end Collected

namespace SymbolTable

/-! ## Bodies -/

mutual
/-- Collect the locals and blocks of a statement that stands in a scope. -/
def collectStmt (scope : ScopeId) : Stmt → SymbolTable → Collected
  | .declare type vars _, t =>
    Collected.each
      (fun v t => Collected.ofDeclare t (t.declareLocal scope v.name.text type v.name.span)) vars t
  | .ifThen _ body _ _, t =>
    let (block, t) := t.openBlock scope
    collectStmts block body t
  | .ifElse _ body _ other _ _, t =>
    let (block, t) := t.openBlock scope
    (collectStmts block body t).andThen fun t =>
      let (block, t) := t.openBlock scope
      collectStmts block other t
  | .loop _ body _ _, t =>
    let (block, t) := t.openBlock scope
    collectStmts block body t
  | .ret _ _, t => { table := t }
  | .assign _ _ _, t => { table := t }
  | .eval _ _, t => { table := t }
/-- Collect the locals and blocks of a list of statements that stands in a
scope. -/
def collectStmts (scope : ScopeId) : List Stmt → SymbolTable → Collected
  | [], t => { table := t }
  | s :: rest, t => (collectStmt scope s t).andThen (collectStmts scope rest)
end

/-! ## Members -/

/-- Collect an explicit parameter, which must have a type. -/
def collectParam (method : MethodId) (methodName : String) (p : Param) (t : SymbolTable) :
    Collected :=
  match p.type with
  | none =>
    { table := t, issues := [.malformed (.untypedParam p.name.text methodName) p.span] }
  | some type => Collected.ofDeclare t (t.declareParam method p.name.text type p.span)

/-- Collect what is inside a method that was declared. -/
def collectMethodBody (method : MethodId) (receiver : Param) (params : List Param)
    (decl : MethodDecl) (t : SymbolTable) : Collected :=
  (Collected.ofDeclare t (t.declareReceiver method receiver.name.text receiver.span)).andThen
    fun t =>
      (Collected.each (collectParam method decl.name.text) params t).andThen fun t =>
        collectStmts (t.methodAt method).scope decl.body t

/-- What is found inside a method on its own, in a class of which nothing but
the name and the place is kept. -/
def detachedMethodIssues (cls : ClassSymbol) (index : Nat) (receiver : Param)
    (params : List Param) (decl : MethodDecl) : List Issue :=
  let t := (empty.addClass cls.name [] 0 cls.span).addMethod 0 decl.name.text decl.returnType index
    decl.name.span
  (collectMethodBody 0 receiver params decl t).issues

/-- Collect a method, which must have a receiver without a type. -/
def collectMethod (cls : ClassId) (index : Nat) (decl : MethodDecl) (t : SymbolTable) :
    Collected :=
  match decl.params with
  | [] => { table := t, issues := [.malformed (.noReceiver decl.name.text) decl.span] }
  | receiver :: params =>
    if receiver.type.isSome then
      { table := t, issues := [.malformed (.typedReceiver decl.name.text) receiver.span] }
    else
      match t.declareMethod cls decl.name.text decl.returnType index decl.name.span with
      | .ok (method, t) => collectMethodBody method receiver params decl t
      | .error i =>
        { table := t
          issues := i :: detachedMethodIssues (t.classAt cls) index receiver params decl }

/-- Collect the fields of a declaration. -/
def collectField (cls : ClassId) (decl : FieldDecl) (t : SymbolTable) : Collected :=
  Collected.each
    (fun name t => Collected.ofDeclare t (t.declareField cls name.text decl.type name.span))
    decl.names t

/-- Collect a member, given with its position in the class. -/
def collectMember (cls : ClassId) (m : Member × Nat) (t : SymbolTable) : Collected :=
  match m with
  | (.field decl, _) => collectField cls decl t
  | (.method decl, index) => collectMethod cls index decl t

/-! ## Classes -/

/-- Collect the members of a class that was declared. -/
def collectMembers (cls : ClassId) (decl : ClassDecl) (t : SymbolTable) : Collected :=
  Collected.each (collectMember cls) decl.members.zipIdx t

/-- What is found inside a class that is the only one. -/
def detachedClassIssues (decl : ClassDecl) (index : Nat) : List Issue :=
  (collectMembers 0 decl
    (empty.addClass decl.name.text decl.parents index decl.name.span)).issues

/-- Collect a class, given with its position in the program. -/
def collectClass (d : ClassDecl × Nat) (t : SymbolTable) : Collected :=
  match t.declareClass d.1.name.text d.1.parents d.2 d.1.name.span with
  | .ok (cls, t) => collectMembers cls d.1 t
  | .error i => { table := t, issues := i :: detachedClassIssues d.1 d.2 }

/-- **Collect the symbols of a program.** -/
def collect (p : Program) : Collected :=
  Collected.each collectClass p.classes.zipIdx empty

end SymbolTable

end Heritage
