import Heritage.Symbols.Table

/-!
# C spellings

How the words of a program are spelled in C. A word that C keeps for itself,
and the word that every function has for its receiver, get an underscore;
every other word is kept. Objects are handled through pointers, so the C type
of a class is a pointer to its struct.
-/

namespace Heritage.C

/-- The name of the receiver in every function. -/
def receiver : String := "self"

/-- The words C keeps for itself. -/
def keywords : List String :=
  ["auto", "break", "case", "char", "const", "continue", "default", "do", "double", "else",
    "enum", "extern", "float", "for", "goto", "if", "inline", "int", "long", "register",
    "restrict", "return", "short", "signed", "sizeof", "static", "struct", "switch", "typedef",
    "union", "unsigned", "void", "volatile", "while", "_Bool", "_Complex", "_Imaginary"]

/-- **A word of the program as a C word.** -/
def ident (name : String) : String :=
  if name = receiver ∨ name ∈ keywords then name ++ "_" else name

/-- The function for a method, `Class_method`. -/
def functionName (cls method : String) : String :=
  ident cls ++ "_" ++ method

/-- The member of a struct that holds the part of a parent. -/
def partName (parent : String) : String :=
  ident parent ++ "_part"

/-- The last character of a text. -/
def lastChar? (s : String) : Option Char :=
  s.toList.getLast?

/-- The declaration of a name with a C type. The star of a pointer stands with
the name. -/
def declaration (type name : String) : String :=
  if lastChar? type = some '*' then type ++ name else type ++ " " ++ name

/-- **The C type of a type.** -/
def typeText (t : SymbolTable) : Ty → String
  | .int => "int"
  | .void => "void"
  | .cls c => ident (t.classAt c).name ++ " *"

end Heritage.C
