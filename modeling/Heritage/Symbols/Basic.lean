import Heritage.Ty

/-!
# Symbols

The records of a symbol table. Each holds what was declared, and what
resolution found out about it: the type a written type name stands for, the
parents of a class, its linearization and its members.

A symbol does not hold its own position, and a class does not list its
methods, nor a scope its variables. Those are read off the table, which keeps
every fact once.
-/

namespace Heritage

/-- The name that makes a method a constructor. -/
def constructorName : String := "__init__"

/-- What a variable is. -/
inductive VarKind where
  /-- A field of a class. -/
  | field
  /-- An explicit parameter of a method. -/
  | parameter
  /-- The first parameter of a method. -/
  | receiver
  /-- A local of a body or a block. -/
  | localVar
deriving DecidableEq, Inhabited

/-- Whether a variable gets its value from a call. -/
def VarKind.isParam : VarKind → Bool
  | .field => false
  | .parameter => true
  | .receiver => true
  | .localVar => false

/-- **A variable.** -/
structure VarSymbol where
  /-- The variable's name. -/
  name : String
  /-- The written type. A receiver has none, since its type is its class. -/
  typeName : Option Ident
  /-- The type it stands for, once it is known to be one a variable can have. -/
  type : Option Ty
  /-- The scope it is declared in. -/
  scope : ScopeId
  /-- What it is. -/
  kind : VarKind
  /-- Where it was declared. -/
  span : Span
deriving DecidableEq, Inhabited

/-- **A method.** -/
structure MethodSymbol where
  /-- The class that declares it. -/
  owner : ClassId
  /-- The method's name. -/
  name : String
  /-- The written return type. -/
  returnTypeName : Option Ident
  /-- The type it stands for, once known. No written type stands for `void`. -/
  returnType : Option Ty
  /-- The scope of the parameters and of the locals of the body. -/
  scope : ScopeId
  /-- The position of the declaration among the members of its class. -/
  declIndex : Nat
  /-- Where it was declared. -/
  span : Span
deriving DecidableEq, Inhabited

/-- Whether a method is a constructor. -/
def MethodSymbol.isConstructor (m : MethodSymbol) : Bool :=
  m.name == constructorName

/-- **How far the ancestry of a class is known.** -/
inductive ClassState where
  /-- Not looked at yet. -/
  | pending
  /-- Linearized. -/
  | resolved
  /-- A written parent is no class. -/
  | missingParent
  /-- The class inherits from itself. -/
  | cyclic
  /-- An ancestor is broken. -/
  | unresolved
deriving DecidableEq, Inhabited

/-- Whether the ancestry of a class cannot be known. -/
def ClassState.isBroken : ClassState → Bool
  | .pending => false
  | .resolved => false
  | .missingParent => true
  | .cyclic => true
  | .unresolved => true

/-- **The members of a class with inheritance compiled away**: what each name
denotes, and the method names that denote nothing because unrelated ancestors
disagree about them. -/
structure Members where
  /-- The method each method name denotes. -/
  methods : List (String × MethodId) := []
  /-- The field each field name denotes. -/
  fields : List (String × VarId) := []
  /-- The ambiguous method names. -/
  ambiguous : List String := []
deriving DecidableEq, Inhabited

namespace Members

/-- Bind a name in a list of bindings, in place of what it was bound to. -/
def bind {α : Type} (name : String) (a : α) (bs : List (String × α)) : List (String × α) :=
  bs.filter (fun b => b.1 != name) ++ [(name, a)]

/-- The method a name denotes. -/
def method? (m : Members) (name : String) : Option MethodId :=
  m.methods.lookup name

/-- The field a name denotes. -/
def field? (m : Members) (name : String) : Option VarId :=
  m.fields.lookup name

/-- Whether a method name is ambiguous. -/
def isAmbiguous (m : Members) (name : String) : Bool :=
  m.ambiguous.contains name

/-- Let a method name denote a method. -/
def bindMethod (m : Members) (name : String) (id : MethodId) : Members :=
  { m with methods := bind name id m.methods }

/-- Let a field name denote a field. -/
def bindField (m : Members) (name : String) (id : VarId) : Members :=
  { m with fields := bind name id m.fields }

/-- Make a method name ambiguous. -/
def markAmbiguous (m : Members) (name : String) : Members :=
  if m.isAmbiguous name then m else { m with ambiguous := m.ambiguous ++ [name] }

end Members

/-- **A class.** -/
structure ClassSymbol where
  /-- The class's name. -/
  name : String
  /-- The written parents, in order. -/
  parents : List Ident
  /-- The scope of its fields. -/
  scope : ScopeId
  /-- The position of the declaration in the program. -/
  declIndex : Nat
  /-- Where it was declared. -/
  span : Span
  /-- The written parents that are classes, each once, in order. -/
  resolvedParents : List ClassId := []
  /-- How far the ancestry is known. -/
  state : ClassState := .pending
  /-- The class, then its ancestors, the more derived first. -/
  linearization : List ClassId := []
  /-- The members, inherited ones included. -/
  members : Members := {}
deriving DecidableEq, Inhabited

/-- What a scope is the scope of. -/
inductive ScopeKind where
  | program | cls | method | block
deriving DecidableEq, Inhabited

/-- **A scope.** Scopes form a tree under that of the program. -/
structure Scope where
  /-- What it is the scope of. -/
  kind : ScopeKind
  /-- The scope around it. Only that of the program has none. -/
  parent : Option ScopeId
  /-- The class it stands in. -/
  cls : Option ClassId
deriving DecidableEq, Inhabited

end Heritage
