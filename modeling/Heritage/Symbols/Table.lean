import Heritage.Symbols.Basic

/-!
# Symbol tables

A table is four lists, to which symbols are only ever added; a symbol is named
by its position. Everything else about the table is a view of these lists: the
methods of a class are the methods it owns, the parameters of a method are the
parameters declared in its scope, the blocks of a scope are the scopes whose
parent it is, and looking a name up is looking for a symbol that has it.

Positions come from the table. One that does not belong to it reads as a
symbol without content.
-/

namespace Heritage

/-- **The positions of the elements that pass a test**, in ascending order. -/
def positions {α : Type} (p : α → Bool) (xs : List α) : List Nat :=
  xs.zipIdx.filterMap fun x => if p x.1 then some x.2 else none

/-- **A symbol table.** -/
structure SymbolTable where
  /-- The classes. -/
  classes : List ClassSymbol
  /-- The methods of all classes. -/
  methods : List MethodSymbol
  /-- The variables of all scopes. -/
  vars : List VarSymbol
  /-- The scopes. -/
  scopes : List Scope
deriving DecidableEq, Inhabited

namespace SymbolTable

/-- The scope of the program, which every table has. -/
def rootScope : ScopeId := 0

/-- The table of a program without classes. -/
def empty : SymbolTable where
  classes := []
  methods := []
  vars := []
  scopes := [{ kind := .program, parent := none, cls := none }]

/-! ## Symbols by position -/

/-- The class at a position. -/
def classAt (t : SymbolTable) (c : ClassId) : ClassSymbol :=
  t.classes.getD c default

/-- The method at a position. -/
def methodAt (t : SymbolTable) (m : MethodId) : MethodSymbol :=
  t.methods.getD m default

/-- The variable at a position. -/
def varAt (t : SymbolTable) (v : VarId) : VarSymbol :=
  t.vars.getD v default

/-- The scope at a position. -/
def scopeAt (t : SymbolTable) (s : ScopeId) : Scope :=
  t.scopes.getD s default

/-- Every class, in order of declaration. -/
def classIds (t : SymbolTable) : List ClassId :=
  List.range t.classes.length

/-- Change the class at a position. -/
def modifyClass (t : SymbolTable) (c : ClassId) (f : ClassSymbol → ClassSymbol) : SymbolTable :=
  { t with classes := t.classes.modify c f }

/-- Change the method at a position. -/
def modifyMethod (t : SymbolTable) (m : MethodId) (f : MethodSymbol → MethodSymbol) :
    SymbolTable :=
  { t with methods := t.methods.modify m f }

/-- Change the variable at a position. -/
def modifyVar (t : SymbolTable) (v : VarId) (f : VarSymbol → VarSymbol) : SymbolTable :=
  { t with vars := t.vars.modify v f }

/-! ## What belongs to a class, a method or a scope -/

/-- The methods a class declares, in order. -/
def methodsOf (t : SymbolTable) (c : ClassId) : List MethodId :=
  positions (fun m => m.owner == c) t.methods

/-- The variables declared in a scope, in order. -/
def varsIn (t : SymbolTable) (s : ScopeId) : List VarId :=
  positions (fun v => v.scope == s) t.vars

/-- The fields a class declares, in order. -/
def fieldsOf (t : SymbolTable) (c : ClassId) : List VarId :=
  positions (fun v => v.scope == (t.classAt c).scope && v.kind == .field) t.vars

/-- The parameters of a method, in order, with the receiver first. -/
def paramsOf (t : SymbolTable) (m : MethodId) : List VarId :=
  positions (fun v => v.scope == (t.methodAt m).scope && v.kind.isParam) t.vars

/-- The parameters of a method that a call passes arguments for. -/
def explicitParams (t : SymbolTable) (m : MethodId) : List VarId :=
  (t.paramsOf m).drop 1

/-- The number of arguments a call of a method passes. -/
def arity (t : SymbolTable) (m : MethodId) : Nat :=
  (t.explicitParams m).length

/-- The receiver of a method. -/
def receiver? (t : SymbolTable) (m : MethodId) : Option VarId :=
  (t.paramsOf m).head?

/-- The scopes directly inside a scope, in order. -/
def childrenOf (t : SymbolTable) (s : ScopeId) : List ScopeId :=
  positions (fun k => k.parent == some s) t.scopes

/-! ## Looking names up -/

/-- The class with a name. -/
def lookupClass (t : SymbolTable) (name : String) : Option ClassId :=
  t.classes.findIdx? fun c => c.name == name

/-- The variable with a name in a scope, enclosing scopes left aside. -/
def lookupIn (t : SymbolTable) (s : ScopeId) (name : String) : Option VarId :=
  t.vars.findIdx? fun v => v.scope == s && v.name == name

/-- The method with a name that a class declares, ancestors left aside. -/
def declaredMethod (t : SymbolTable) (c : ClassId) (name : String) : Option MethodId :=
  t.methods.findIdx? fun m => m.owner == c && m.name == name

/-- The field with a name that a class declares, ancestors left aside. -/
def declaredField (t : SymbolTable) (c : ClassId) (name : String) : Option VarId :=
  t.lookupIn (t.classAt c).scope name

/-- The method a name denotes in a class, inherited ones included. -/
def findMethod (t : SymbolTable) (c : ClassId) (name : String) : Option MethodId :=
  (t.classAt c).members.method? name

/-- The field a name denotes in a class, inherited ones included. -/
def findField (t : SymbolTable) (c : ClassId) (name : String) : Option VarId :=
  (t.classAt c).members.field? name

/-- The class that declares a field. -/
def fieldOwner (t : SymbolTable) (v : VarId) : Option ClassId :=
  if (t.varAt v).kind = .field then (t.scopeAt (t.varAt v).scope).cls else none

/-- The type a written word stands for. The words for the primitive types
stand for them whatever classes there are. -/
def resolveType (t : SymbolTable) (name : String) : Option Ty :=
  (Ty.ofKeyword? name).or ((t.lookupClass name).map .cls)

/-- The source spelling of a type. -/
def typeName (t : SymbolTable) : Ty → String
  | .int => "int"
  | .void => "void"
  | .cls c => (t.classAt c).name

/-- A method as messages name it, `Class.method`. -/
def qualifiedName (t : SymbolTable) (m : MethodId) : String :=
  (t.classAt (t.methodAt m).owner).name ++ "." ++ (t.methodAt m).name

/-! ## Ancestors -/

/-- The class, then its ancestors, the more derived first. -/
def linearization (t : SymbolTable) (c : ClassId) : List ClassId :=
  (t.classAt c).linearization

/-- The parent through which an ancestor is reached: the first whose
linearization holds it. -/
def parentToward (t : SymbolTable) (c ancestor : ClassId) : Option ClassId :=
  (t.classAt c).resolvedParents.find? fun p => (t.linearization p).contains ancestor

/-- The path to an ancestor in at most the given number of steps. -/
def pathWithin (t : SymbolTable) (ancestor : ClassId) : Nat → ClassId → Option (List ClassId)
  | 0, c => if c = ancestor then some [] else none
  | n + 1, c =>
    if c = ancestor then some []
    else
      match t.parentToward c ancestor with
      | none => none
      | some p => (t.pathWithin ancestor n p).map (p :: ·)

/-- **The path from a class to an ancestor**, as the parents passed on the
way. The next step depends on the class alone, so a path that passes a class
twice would never arrive, and one that arrives has at most as many steps as
there are classes. -/
def basePath (t : SymbolTable) (c ancestor : ClassId) : Option (List ClassId) :=
  t.pathWithin ancestor t.classes.length c

/-- **Whether a value of one type can be stored where another is expected**:
they are the same, or classes of which the second is an ancestor of the
first. -/
def isCompatible (t : SymbolTable) (source target : Ty) : Bool :=
  source == target ||
    match source, target with
    | .cls c, .cls a => (t.linearization c).contains a
    | _, _ => false

/-- The types of the explicit parameters of a method. -/
def paramTypes (t : SymbolTable) (m : MethodId) : List (Option Ty) :=
  (t.explicitParams m).map fun v => (t.varAt v).type

/-- Whether two methods take and return the same types. -/
def sameSignature (t : SymbolTable) (a b : MethodId) : Bool :=
  (t.methodAt a).returnType == (t.methodAt b).returnType && t.paramTypes a == t.paramTypes b

end SymbolTable

end Heritage
