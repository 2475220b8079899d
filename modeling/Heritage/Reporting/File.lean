import Heritage.C.File
import Heritage.Outcome
import Heritage.Reporting.Stmt

/-!
# C files, in one walk

The functions of a file are written method by method, with the report at hand.
Everything else in the file needs no check and is put around them at the end.
-/

namespace Heritage.C

/-- **The functions written so far.** -/
structure Functions where
  /-- Their prototypes. -/
  prototypes : List Step := []
  /-- Their definitions. -/
  definitions : List (List Step) := []
  /-- How many there are. -/
  count : Nat := 0

namespace Functions

/-- One more function. -/
def add (f : Functions) (prototype : Step) (definition : List Step) : Functions where
  prototypes := f.prototypes ++ [prototype]
  definitions := f.definitions ++ [definition]
  count := f.count + 1

end Functions

/-- Check and write the function for a method. -/
def writeFunction (t : SymbolTable) (m : MethodId) (decl : MethodDecl) :
    StateT Functions Reporting Unit := do
  let b : Body := { table := t, method := m }
  let (_, steps) ← (b.compileBody decl.body).run [.opening (signature t m)]
  modify fun f => f.add (prototypeStep t m) (steps ++ [.closing "\x7d"])

/-- Check and write the functions for the methods of a class, as far as the tree
has them. -/
def writeClass (t : SymbolTable) (p : Program) (c : ClassId) : StateT Functions Reporting Unit :=
  let symbol := t.classAt c
  match p.classes[symbol.declIndex]? with
  | none => Reporting.report (.malformed (.noClass symbol.name) symbol.span)
  | some decl =>
    (t.methodsOf c).forM fun m =>
      match methodDecl t symbol decl m with
      | .ok (m, d) => writeFunction t m d
      | .error i => Reporting.report i

/-- **Check and write the file of a program.** -/
def writeFile (o : Options) (t : SymbolTable) (p : Program) : Reporting Output := do
  let (_, functions) ← (t.classIds.forM (writeClass t p)).run {}
  let sections :=
    [linesOf (t.classes.map typedefStep),
      linesOf (separated (t.structOrder.map (structSteps t))),
      linesOf functions.prototypes,
      linesOf (separated functions.definitions)]
  return { text := fileText o sections
           classCount := t.structOrder.length
           functionCount := functions.count }

end Heritage.C
