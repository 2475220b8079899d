import Heritage.Symbols.Declare

/-!
# Registries

While symbols are collected they are kept in a registry. It holds what a symbol
table holds, and keeps at hand what a table would have to look for: each symbol
has its own position, a class lists its methods and its fields, a method its
parameters, and a scope the scopes and the variables inside it. A map finds the
class with a name, and each scope has a map for its variables.

Every operation has to keep all of these in step. It may change the registry
also when it refuses, so what it gives back is its answer together with the
registry after it.
-/

namespace Heritage

/-! ## Entries -/

/-- **A class in a registry.** -/
structure ClassEntry where
  /-- Its position. -/
  id : ClassId
  /-- The class. -/
  symbol : ClassSymbol
  /-- The methods it declares, in order. -/
  methods : List MethodId := []
  /-- The fields it declares, in order. -/
  fields : List VarId := []
deriving DecidableEq, Inhabited

/-- **A method in a registry.** -/
structure MethodEntry where
  /-- Its position. -/
  id : MethodId
  /-- The method. -/
  symbol : MethodSymbol
  /-- Its parameters, in order, with the receiver first. -/
  params : List VarId := []
deriving DecidableEq, Inhabited

/-- **A variable in a registry.** -/
structure VarEntry where
  /-- Its position. -/
  id : VarId
  /-- The variable. -/
  symbol : VarSymbol
deriving DecidableEq, Inhabited

/-- **A scope in a registry.** -/
structure ScopeEntry where
  /-- Its position. -/
  id : ScopeId
  /-- The scope. -/
  symbol : Scope
  /-- The scopes directly inside it, in the order in which they were opened. -/
  children : List ScopeId := []
  /-- The variables declared in it, in order. -/
  vars : List VarId := []
  /-- The variable each name stands for, the newest name first. -/
  names : List (String × VarId) := []
deriving DecidableEq, Inhabited

namespace ScopeEntry

/-- The variable with a name. -/
def lookup (s : ScopeEntry) (name : String) : Option VarId :=
  s.names.lookup name

/-- Let a name stand for a variable, unless it stands for one already. -/
def insert (s : ScopeEntry) (name : String) (v : VarId) : Except VarId Unit × ScopeEntry :=
  match s.lookup name with
  | some first => (.error first, s)
  | none =>
    (.ok (), { s with names := (name, v) :: s.names, vars := s.vars ++ [v] })

end ScopeEntry

/-- **A registry.** -/
@[ext]
structure Registry where
  /-- The classes. -/
  classes : List ClassEntry
  /-- The methods of all classes. -/
  methods : List MethodEntry
  /-- The variables of all scopes. -/
  vars : List VarEntry
  /-- The scopes. -/
  scopes : List ScopeEntry
  /-- The class each name stands for, the newest name first. -/
  classNames : List (String × ClassId)
deriving DecidableEq, Inhabited

namespace Registry

/-- The registry of a program without classes. -/
def empty : Registry where
  classes := []
  methods := []
  vars := []
  scopes :=
    [{ id := SymbolTable.rootScope, symbol := { kind := .program, parent := none, cls := none } }]
  classNames := []

/-- The table of the symbols in a registry. -/
def table (r : Registry) : SymbolTable where
  classes := r.classes.map ClassEntry.symbol
  methods := r.methods.map MethodEntry.symbol
  vars := r.vars.map VarEntry.symbol
  scopes := r.scopes.map ScopeEntry.symbol

/-! ## Entries by position -/

/-- The class at a position. -/
def classAt (r : Registry) (c : ClassId) : ClassEntry :=
  r.classes.getD c default

/-- The method at a position. -/
def methodAt (r : Registry) (m : MethodId) : MethodEntry :=
  r.methods.getD m default

/-- The variable at a position. -/
def varAt (r : Registry) (v : VarId) : VarEntry :=
  r.vars.getD v default

/-- The scope at a position. -/
def scopeAt (r : Registry) (s : ScopeId) : ScopeEntry :=
  r.scopes.getD s default

/-- List a method in its class. -/
def listMethod (r : Registry) (c : ClassId) (m : MethodId) : Registry :=
  { r with classes := r.classes.modify c fun e => { e with methods := e.methods ++ [m] } }

/-- List a field in its class. -/
def listField (r : Registry) (c : ClassId) (v : VarId) : Registry :=
  { r with classes := r.classes.modify c fun e => { e with fields := e.fields ++ [v] } }

/-- List a parameter in its method. -/
def listParam (r : Registry) (m : MethodId) (v : VarId) : Registry :=
  { r with methods := r.methods.modify m fun e => { e with params := e.params ++ [v] } }

/-! ## Looking names up -/

/-- The class with a name. -/
def lookupClass (r : Registry) (name : String) : Option ClassId :=
  r.classNames.lookup name

/-- The variable with a name in a scope, enclosing scopes left aside. -/
def lookupIn (r : Registry) (s : ScopeId) (name : String) : Option VarId :=
  (r.scopeAt s).lookup name

/-- The method with a name that a class declares, ancestors left aside. -/
def declaredMethod (r : Registry) (c : ClassId) (name : String) : Option MethodId :=
  (r.classAt c).methods.find? fun m => (r.methodAt m).symbol.name == name

/-- The field with a name that a class declares, ancestors left aside. -/
def declaredField (r : Registry) (c : ClassId) (name : String) : Option VarId :=
  r.lookupIn (r.classAt c).symbol.scope name

/-- The class that declares a field. -/
def fieldOwner (r : Registry) (v : VarId) : Option ClassId :=
  if (r.varAt v).symbol.kind = .field then
    (r.scopeAt (r.varAt v).symbol.scope).symbol.cls
  else none

/-- Where the member of a class with a name is declared, ancestors left
aside. -/
def memberSpan? (r : Registry) (c : ClassId) (name : String) : Option Span :=
  match r.declaredField c name with
  | some v => some (r.varAt v).symbol.span
  | none => (r.declaredMethod c name).map fun m => (r.methodAt m).symbol.span

/-! ## Declaring -/

/-- Open a scope inside another. -/
def openScope (r : Registry) (kind : ScopeKind) (around : ScopeId) (cls : Option ClassId) :
    ScopeId × Registry :=
  let id := r.scopes.length
  let opened : ScopeEntry :=
    { id := id, symbol := { kind := kind, parent := some around, cls := cls } }
  (id, { r with
    scopes := (r.scopes ++ [opened]).modify around fun e =>
      { e with children := e.children ++ [id] } })

/-- Declare a class. Its name must be new. -/
def declareClass (r : Registry) (name : String) (parents : List Ident) (declIndex : Nat)
    (span : Span) : Except Issue ClassId × Registry :=
  match r.lookupClass name with
  | some c => (.error (.duplicate "class" name (r.classAt c).symbol.span span), r)
  | none =>
    let id := r.classes.length
    let opened := r.openScope .cls SymbolTable.rootScope (some id)
    let symbol : ClassSymbol :=
      { name := name, parents := parents, scope := opened.1, declIndex := declIndex, span := span }
    (.ok id, { opened.2 with
      classes := r.classes ++ [{ id := id, symbol := symbol }]
      classNames := (name, id) :: r.classNames })

/-- Declare a method. Its name must be new among the members of its class. -/
def declareMethod (r : Registry) (owner : ClassId) (name : String) (returnType : Option Ident)
    (declIndex : Nat) (span : Span) : Except Issue MethodId × Registry :=
  match r.memberSpan? owner name with
  | some first => (.error (.duplicate "member" name first span), r)
  | none =>
    let id := r.methods.length
    let opened := r.openScope .method (r.classAt owner).symbol.scope (some owner)
    let symbol : MethodSymbol :=
      { owner := owner, name := name, returnTypeName := returnType,
        returnType := if returnType.isSome then none else some .void,
        scope := opened.1, declIndex := declIndex, span := span }
    let added : Registry :=
      { opened.2 with methods := r.methods ++ [{ id := id, symbol := symbol }] }
    (.ok id, added.listMethod owner id)

/-- Declare a variable. Its name must be new in its scope, which takes it up before there is an
entry for it. -/
def declareVar (r : Registry) (v : VarSymbol) : Except Issue VarId × Registry :=
  let id := r.vars.length
  let inserted := (r.scopeAt v.scope).insert v.name id
  let r := { r with scopes := r.scopes.set v.scope inserted.2 }
  match inserted.1 with
  | .error first =>
    (.error (.duplicate v.kind.what v.name (r.varAt first).symbol.span v.span), r)
  | .ok () => (.ok id, { r with vars := r.vars ++ [{ id := id, symbol := v }] })

/-- Go on with the position that was handed out, unless the declaration was refused. -/
def andList (d : Except Issue VarId × Registry) (list : Registry → VarId → Registry) :
    Except Issue VarId × Registry :=
  match d with
  | (.ok v, r) => (.ok v, list r v)
  | (.error issue, r) => (.error issue, r)

/-- Declare a field. Its name must be new among the members of its class. -/
def declareField (r : Registry) (owner : ClassId) (name : String) (type : Ident) (span : Span) :
    Except Issue VarId × Registry :=
  match r.memberSpan? owner name with
  | some first => (.error (.duplicate "member" name first span), r)
  | none =>
    andList
      (r.declareVar
        { name := name, typeName := some type, type := none,
          scope := (r.classAt owner).symbol.scope, kind := .field, span := span })
      fun r v => r.listField owner v

/-- Declare the receiver of a method, whose type is the class of the method. -/
def declareReceiver (r : Registry) (method : MethodId) (name : String) (span : Span) :
    Except Issue VarId × Registry :=
  andList
    (r.declareVar
      { name := name, typeName := none, type := some (.cls (r.methodAt method).symbol.owner),
        scope := (r.methodAt method).symbol.scope, kind := .receiver, span := span })
    fun r v => r.listParam method v

/-- Declare an explicit parameter of a method. -/
def declareParam (r : Registry) (method : MethodId) (name : String) (type : Ident) (span : Span) :
    Except Issue VarId × Registry :=
  andList
    (r.declareVar
      { name := name, typeName := some type, type := none,
        scope := (r.methodAt method).symbol.scope, kind := .parameter, span := span })
    fun r v => r.listParam method v

/-- Declare a local in a scope. -/
def declareLocal (r : Registry) (scope : ScopeId) (name : String) (type : Ident) (span : Span) :
    Except Issue VarId × Registry :=
  r.declareVar
    { name := name, typeName := some type, type := none, scope := scope, kind := .localVar,
      span := span }

/-- Open a block inside a scope. -/
def openBlock (r : Registry) (scope : ScopeId) : ScopeId × Registry :=
  r.openScope .block scope (r.scopeAt scope).symbol.cls

end Registry

end Heritage
