import Heritage.Span

/-!
# Programs

The tree of a program: classes with any number of parents, whose members are
fields and methods, whose bodies are statements over integer and object
expressions.

Two constructions that are written alike and mean different things are kept
apart in the types. A call without a receiver may construct an object or call
a method of the receiver of the body it stands in, and is an `Expr.call`; a
call on a receiver is an `Expr.send`. A conditional with an else branch, even
an empty one, is a `Stmt.ifElse`; without one it is a `Stmt.ifThen`.

Blocks are held as the list of their statements beside the span of the block,
so that recursion over a body is recursion over lists of statements.
-/

namespace Heritage

/-- The binary operators. All of them take integers and give an integer. -/
inductive BinOp where
  | add | sub | mul | div | rem
  | less | lessEq | greater | greaterEq | equal | notEqual
  | and | or
deriving DecidableEq, Inhabited

/-- The operator as it is written, in the source and in C alike. -/
def BinOp.symbol : BinOp → String
  | .add => "+"
  | .sub => "-"
  | .mul => "*"
  | .div => "/"
  | .rem => "%"
  | .less => "<"
  | .lessEq => "<="
  | .greater => ">"
  | .greaterEq => ">="
  | .equal => "=="
  | .notEqual => "!="
  | .and => "&&"
  | .or => "||"

/-- Every operator once. -/
def BinOp.all : List BinOp :=
  [.add, .sub, .mul, .div, .rem, .less, .lessEq, .greater, .greaterEq, .equal, .notEqual, .and, .or]

/-- The operator with a given spelling. -/
def BinOp.ofSymbol? (s : String) : Option BinOp :=
  BinOp.all.find? fun op => op.symbol == s

/-- **An expression.** -/
inductive Expr where
  /-- An integer literal. -/
  | int (value : Int) (span : Span)
  /-- A bare name: a local, a parameter, the receiver or a field. -/
  | name (ident : Ident)
  /-- The receiver of the method. -/
  | self (span : Span)
  /-- A binary operation. -/
  | binary (op : BinOp) (left right : Expr) (span : Span)
  /-- A call without a receiver: a construction when the callee names a class,
  a call on the receiver of the body otherwise. -/
  | call (callee : Ident) (args : List Expr) (span : Span)
  /-- A call on the value of an expression. -/
  | send (receiver : Expr) (callee : Ident) (args : List Expr) (span : Span)

/-- Where an expression stands. A name stands where its word does. -/
def Expr.span : Expr → Span
  | .int _ span => span
  | .name ident => ident.span
  | .self span => span
  | .binary _ _ _ span => span
  | .call _ _ span => span
  | .send _ _ _ span => span

/-- One variable of a local declaration. -/
structure Declarator where
  /-- The variable declared. -/
  name : Ident
  /-- Its initial value, evaluated before the variable comes into scope. -/
  init : Option Expr
  /-- Where the declarator stands. -/
  span : Span

/-- **A statement.** -/
inductive Stmt where
  /-- Locals of one written type. -/
  | declare (type : Ident) (vars : List Declarator) (span : Span)
  /-- A conditional without an else branch. -/
  | ifThen (cond : Expr) (body : List Stmt) (bodySpan : Span) (span : Span)
  /-- A conditional with an else branch, which may be empty. -/
  | ifElse (cond : Expr) (body : List Stmt) (bodySpan : Span) (other : List Stmt) (otherSpan : Span)
      (span : Span)
  /-- A loop, run while its condition is not zero. -/
  | loop (cond : Expr) (body : List Stmt) (bodySpan : Span) (span : Span)
  /-- A return, with or without a value. -/
  | ret (value : Option Expr) (span : Span)
  /-- An assignment to a variable or a field. -/
  | assign (target : Ident) (value : Expr) (span : Span)
  /-- An expression evaluated for its effect. -/
  | eval (expr : Expr) (span : Span)

/-- Where a statement stands. -/
def Stmt.span : Stmt → Span
  | .declare _ _ span => span
  | .ifThen _ _ _ span => span
  | .ifElse _ _ _ _ _ span => span
  | .loop _ _ _ span => span
  | .ret _ span => span
  | .assign _ _ span => span
  | .eval _ span => span

/-- A parameter of a method. The receiver is the one written without a type. -/
structure Param where
  /-- The parameter's name. -/
  name : Ident
  /-- Its written type. -/
  type : Option Ident
  /-- Where the parameter stands. -/
  span : Span

/-- Fields of one written type. -/
structure FieldDecl where
  /-- The type of every one of them. -/
  type : Ident
  /-- The fields declared. -/
  names : List Ident
  /-- Where the declaration stands. -/
  span : Span

/-- A method with its body. -/
structure MethodDecl where
  /-- The method's name. -/
  name : Ident
  /-- Its parameters, of which the first is to be the untyped receiver. -/
  params : List Param
  /-- The written return type. None is written for a method that returns nothing. -/
  returnType : Option Ident
  /-- The statements of the body. -/
  body : List Stmt
  /-- Where the body stands. -/
  bodySpan : Span
  /-- Where the declaration stands. -/
  span : Span

/-- A member of a class. -/
inductive Member where
  | field (decl : FieldDecl)
  | method (decl : MethodDecl)

/-- A class. -/
structure ClassDecl where
  /-- The class's name. -/
  name : Ident
  /-- The written parents, in order. -/
  parents : List Ident
  /-- Fields and methods, in order. -/
  members : List Member
  /-- Where the declaration stands. -/
  span : Span

/-- The methods of a class, each with its position among the members. -/
def ClassDecl.methods (c : ClassDecl) : List (Nat × MethodDecl) :=
  c.members.zipIdx.filterMap fun
    | (.method decl, i) => some (i, decl)
    | (.field _, _) => none

/-- **A program**: its classes in order. -/
structure Program where
  /-- The classes declared. -/
  classes : List ClassDecl
  /-- Where the program stands. -/
  span : Span

end Heritage
