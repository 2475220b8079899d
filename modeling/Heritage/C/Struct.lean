import Heritage.C.Layout
import Heritage.C.Name

/-!
# Structs

The struct of a class: a part for each parent, which is the parent's struct
itself and not a pointer to it, then the fields the class declares. A field
that hides an inherited one is a member beside the part that holds the hidden
one, where the methods of the ancestor find it.
-/

namespace Heritage.C

/-- The C text of the type of a field, a parameter or a result, or of the word
that was written for it if it is none. -/
def memberTypeText (t : SymbolTable) (type : Option Ty) (written : Option Ident) : String :=
  match type, written with
  | some type, _ => typeText t type
  | none, some written => ident written.text
  | none, none => "void"

/-- The C declaration of a field or a parameter. -/
def varDeclaration (t : SymbolTable) (v : VarId) : String :=
  let symbol := t.varAt v
  declaration (memberTypeText t symbol.type symbol.typeName) (ident symbol.name)

/-- **A member of the struct of a class.** -/
inductive StructMember where
  /-- The part of a parent. -/
  | part (parent : ClassId)
  /-- A field of the class. -/
  | field (v : VarId)
  /-- The only member of a struct that has no other, since C has no empty
  structs. -/
  | unused
deriving DecidableEq, Inhabited

namespace StructMember

/-- The C name of a member. -/
def name (t : SymbolTable) : StructMember → String
  | .part parent => partName (t.classAt parent).name
  | .field v => C.ident (t.varAt v).name
  | .unused => "unused_"

/-- The C declaration of a member. -/
def text (t : SymbolTable) : StructMember → String
  | .part parent => C.ident (t.classAt parent).name ++ " " ++ partName (t.classAt parent).name
  | .field v => varDeclaration t v
  | .unused => "char unused_"

end StructMember

/-- The parts and fields of a class. -/
def partsAndFields (t : SymbolTable) (c : ClassId) : List StructMember :=
  (t.classAt c).resolvedParents.map .part ++ (t.fieldsOf c).map .field

/-- **The members of the struct of a class.** -/
def structMembers (t : SymbolTable) (c : ClassId) : List StructMember :=
  if (partsAndFields t c).isEmpty then [.unused] else partsAndFields t c

/-- The forward declaration of a struct. -/
def typedefStep (c : ClassSymbol) : Step :=
  .line ("typedef struct " ++ ident c.name ++ " " ++ ident c.name ++ ";")

/-- What is written for the struct of a class. -/
def structSteps (t : SymbolTable) (c : ClassId) : List Step :=
  .opening ("struct " ++ ident (t.classAt c).name)
    :: (structMembers t c).map (fun m => .line (m.text t ++ ";"))
    ++ [.closing "\x7d;"]

end Heritage.C
