import Heritage.Issue
import Heritage.Symbols.Table

/-!
# Declaring symbols

The operations that add to a table. Each one first asks whether the name is
free where names are unique – among the classes, among the members of a class,
in one scope – and refuses with the place of the first declaration if it is
not. Fields and methods of a class share one namespace.

What is added is added at the end, so the position of a new symbol is the
number of those before it, and no earlier position changes its meaning.
-/

namespace Heritage

/-- What a variable is called when its name is taken. -/
def VarKind.what : VarKind → String
  | .field => "field"
  | .parameter => "parameter"
  | .receiver => "parameter"
  | .localVar => "variable"

namespace SymbolTable

/-! ## Adding without asking -/

/-- Add a scope. -/
def addScope (t : SymbolTable) (s : Scope) : SymbolTable :=
  { t with scopes := t.scopes ++ [s] }

/-- Add a class and its scope. -/
def addClass (t : SymbolTable) (name : String) (parents : List Ident) (declIndex : Nat)
    (span : Span) : SymbolTable :=
  { t with
    classes := t.classes ++
      [{ name := name, parents := parents, scope := t.scopes.length, declIndex := declIndex,
         span := span }]
    scopes := t.scopes ++
      [{ kind := .cls, parent := some rootScope, cls := some t.classes.length }] }

/-- Add a method and its scope. A method without a written return type returns
nothing, which needs no resolution. -/
def addMethod (t : SymbolTable) (owner : ClassId) (name : String) (returnType : Option Ident)
    (declIndex : Nat) (span : Span) : SymbolTable :=
  { t with
    methods := t.methods ++
      [{ owner := owner, name := name, returnTypeName := returnType,
         returnType := if returnType.isSome then none else some .void,
         scope := t.scopes.length, declIndex := declIndex, span := span }]
    scopes := t.scopes ++
      [{ kind := .method, parent := some (t.classAt owner).scope, cls := some owner }] }

/-- Add a variable. -/
def addVar (t : SymbolTable) (v : VarSymbol) : SymbolTable :=
  { t with vars := t.vars ++ [v] }

/-! ## Declaring -/

/-- Declare a class. Its name must be new. -/
def declareClass (t : SymbolTable) (name : String) (parents : List Ident) (declIndex : Nat)
    (span : Span) : Except Issue (ClassId × SymbolTable) :=
  match t.lookupClass name with
  | some c => .error (.duplicate "class" name (t.classAt c).span span)
  | none => .ok (t.classes.length, t.addClass name parents declIndex span)

/-- Where the member of a class with a name is declared, ancestors left
aside. -/
def memberSpan? (t : SymbolTable) (c : ClassId) (name : String) : Option Span :=
  match t.declaredField c name with
  | some v => some (t.varAt v).span
  | none => (t.declaredMethod c name).map fun m => (t.methodAt m).span

/-- Declare a method. Its name must be new among the members of its class. -/
def declareMethod (t : SymbolTable) (owner : ClassId) (name : String)
    (returnType : Option Ident) (declIndex : Nat) (span : Span) :
    Except Issue (MethodId × SymbolTable) :=
  match t.memberSpan? owner name with
  | some first => .error (.duplicate "member" name first span)
  | none => .ok (t.methods.length, t.addMethod owner name returnType declIndex span)

/-- Declare a variable. Its name must be new in its scope. -/
def declareVar (t : SymbolTable) (v : VarSymbol) : Except Issue (VarId × SymbolTable) :=
  match t.lookupIn v.scope v.name with
  | some w => .error (.duplicate v.kind.what v.name (t.varAt w).span v.span)
  | none => .ok (t.vars.length, t.addVar v)

/-- Declare a field. Its name must be new among the members of its class. -/
def declareField (t : SymbolTable) (owner : ClassId) (name : String) (type : Ident)
    (span : Span) : Except Issue (VarId × SymbolTable) :=
  match t.memberSpan? owner name with
  | some first => .error (.duplicate "member" name first span)
  | none =>
    t.declareVar
      { name := name, typeName := some type, type := none, scope := (t.classAt owner).scope,
        kind := .field, span := span }

/-- Declare the receiver of a method, whose type is the class of the
method. -/
def declareReceiver (t : SymbolTable) (method : MethodId) (name : String) (span : Span) :
    Except Issue (VarId × SymbolTable) :=
  t.declareVar
    { name := name, typeName := none, type := some (.cls (t.methodAt method).owner),
      scope := (t.methodAt method).scope, kind := .receiver, span := span }

/-- Declare an explicit parameter of a method. -/
def declareParam (t : SymbolTable) (method : MethodId) (name : String) (type : Ident)
    (span : Span) : Except Issue (VarId × SymbolTable) :=
  t.declareVar
    { name := name, typeName := some type, type := none, scope := (t.methodAt method).scope,
      kind := .parameter, span := span }

/-- Declare a local in a scope. -/
def declareLocal (t : SymbolTable) (scope : ScopeId) (name : String) (type : Ident)
    (span : Span) : Except Issue (VarId × SymbolTable) :=
  t.declareVar
    { name := name, typeName := some type, type := none, scope := scope, kind := .localVar,
      span := span }

/-- Open a block inside a scope. -/
def openBlock (t : SymbolTable) (scope : ScopeId) : ScopeId × SymbolTable :=
  (t.scopes.length,
    t.addScope { kind := .block, parent := some scope, cls := (t.scopeAt scope).cls })

end SymbolTable

end Heritage
