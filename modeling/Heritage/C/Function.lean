import Heritage.C.Stmt
import Heritage.C.Struct

/-!
# Functions

The function for a method: its receiver, a pointer to the struct of the class
that declares the method, comes first and is called the same in every
function; the explicit parameters follow. A function is declared before all
definitions, so that methods may call each other in any order.
-/

namespace Heritage.C

/-- The C declaration of the receiver. -/
def receiverDeclaration (t : SymbolTable) (owner : ClassId) : String :=
  ident (t.classAt owner).name ++ " *" ++ receiver

/-- The C declarations of the parameters of a function, with the receiver
first. -/
def paramDeclarations (t : SymbolTable) (m : MethodId) : List String :=
  receiverDeclaration t (t.methodAt m).owner :: (t.explicitParams m).map (varDeclaration t)

/-- **The signature of the function for a method.** -/
def signature (t : SymbolTable) (m : MethodId) : String :=
  let symbol := t.methodAt m
  declaration (memberTypeText t symbol.returnType symbol.returnTypeName)
    (functionName (t.classAt symbol.owner).name symbol.name
      ++ "(" ++ ", ".intercalate (paramDeclarations t m) ++ ")")

/-- The prototype of the function for a method. -/
def prototypeStep (t : SymbolTable) (m : MethodId) : Step :=
  .line (signature t m ++ ";")

/-- What is written for the definition of the function for a method. -/
def definitionSteps (t : SymbolTable) (m : MethodId) (body : List Stmt) : List Step :=
  .opening (signature t m)
    :: ({ table := t, method := m : Body }.bodySteps body ++ [.closing "\x7d"])

end Heritage.C
