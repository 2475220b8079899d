import Heritage.C.Function
import Heritage.Inheritance.ParentsFirst
import Heritage.Options

/-!
# C files

The C file of a program, for a table that has its symbols and a tree that has
its bodies. It has five sections: a comment, forward declarations, structs,
prototypes, definitions. The structs stand in an order in which each one is
behind its parts; everything else is in the order of declaration. Sections,
structs and definitions are set apart by one blank line each, and a section
with nothing in it is left out.

The tree need not be the one the symbols were collected from. A class or
method that it does not hold is an issue and has no definition.
-/

namespace Heritage.C

/-! ## Methods and the tree they come from -/

/-- The declaration of a method in the declaration of its class. -/
def methodDecl (t : SymbolTable) (c : ClassSymbol) (decl : ClassDecl) (m : MethodId) :
    Except Issue (MethodId × MethodDecl) :=
  match decl.members[(t.methodAt m).declIndex]? with
  | some (.method d) => .ok (m, d)
  | _ => .error (.malformed (.noMethod c.name (t.methodAt m).name) (t.methodAt m).span)

/-- The methods of a class with their declarations, or what a tree does not
hold of them. -/
def classMethods (t : SymbolTable) (p : Program) (c : ClassId) :
    List (Except Issue (MethodId × MethodDecl)) :=
  let symbol := t.classAt c
  match p.classes[symbol.declIndex]? with
  | none => [.error (.malformed (.noClass symbol.name) symbol.span)]
  | some decl => (t.methodsOf c).map (methodDecl t symbol decl)

/-- The methods of a table with their declarations, or what a tree does not
hold of them. -/
def methodsInTree (t : SymbolTable) (p : Program) : List (Except Issue (MethodId × MethodDecl)) :=
  t.classIds.flatMap (classMethods t p)

/-- The methods whose declarations a tree holds. -/
def heldMethods (t : SymbolTable) (p : Program) : List (MethodId × MethodDecl) :=
  (methodsInTree t p).filterMap Except.toOption

/-- What is wrong with a method, or with its absence from the tree. -/
def methodIssues (t : SymbolTable) : Except Issue (MethodId × MethodDecl) → List Issue
  | .error i => [i]
  | .ok (m, decl) => { table := t, method := m : Body }.bodyIssues decl.body

/-! ## Files -/

/-- **A C file**, as the lines of its sections, and what was found wrong while
it was written. -/
structure File where
  /-- The forward declarations. -/
  typedefs : List Line
  /-- The structs. -/
  structs : List Line
  /-- The prototypes. -/
  prototypes : List Line
  /-- The definitions. -/
  definitions : List Line
  /-- How many structs there are. -/
  structCount : Nat
  /-- How many functions there are. -/
  functionCount : Nat
  /-- The issues found, in order. -/
  issues : List Issue
deriving DecidableEq, Inhabited

/-- Blocks of steps with a blank line between them. -/
def separated (blocks : List (List Step)) : List Step :=
  [Step.blank].intercalate blocks

/-- The lines of steps. -/
def linesOf (steps : List Step) : List Line :=
  (Layout.run steps).lines

/-- **The C file of a program.** -/
def File.ofTable (t : SymbolTable) (p : Program) : File where
  typedefs := linesOf (t.classes.map typedefStep)
  structs := linesOf (separated (t.structOrder.map (structSteps t)))
  prototypes := linesOf ((heldMethods t p).map fun m => prototypeStep t m.1)
  definitions :=
    linesOf (separated ((heldMethods t p).map fun m => definitionSteps t m.1 m.2.body))
  structCount := t.structOrder.length
  functionCount := (heldMethods t p).length
  issues := (methodsInTree t p).flatMap (methodIssues t)

/-! ## Text -/

/-- The comment that says where a file is from. -/
def bannerLine (unitName : String) : String :=
  "/* generated by cobalt from " ++ unitName ++ " */"

/-- The comment of a file, if it is to have one. -/
def bannerSection (o : Options) : List Line :=
  if o.banner then [{ depth := 0, text := bannerLine o.unitName }] else []

/-- The sections of a file after its comment. -/
def File.sections (f : File) : List (List Line) :=
  [f.typedefs, f.structs, f.prototypes, f.definitions]

/-- The text of a section. -/
def sectionText (width : Nat) (lines : List Line) : String :=
  "\n".intercalate (lines.map (Line.render width))

/-- **The text of a file with given sections after its comment.** Those with
nothing in them are left out, and a file with nothing in it is empty. -/
def fileText (o : Options) (sections : List (List Line)) : String :=
  match (bannerSection o :: sections).filter (fun lines => !lines.isEmpty) with
  | [] => ""
  | sections => "\n\n".intercalate (sections.map (sectionText o.indentWidth)) ++ "\n"

/-- **The text of a file.** -/
def File.text (o : Options) (f : File) : String :=
  fileText o f.sections

end Heritage.C
