import Heritage.Tree

/-!
# Writing trees by hand

A `Cursor` is a position in an imagined source. Each of its operations makes
one node of a tree out of finished parts, and places what it makes at the
cursor: words get the length of their text, a compound node the length of
what a reader would point at – its operator, its keyword or its name – and
lists and blocks get none. Nothing moves the cursor but its owner, so two
nodes made at one position stand at one place.
-/

namespace Heritage

/-- **A position at which nodes are made.** -/
structure Cursor where
  /-- The current line. -/
  line : Nat := 1
  /-- The current column. -/
  col : Nat := 1
deriving DecidableEq, Inhabited

namespace Cursor

/-- A span of a given length at the cursor. -/
def span (p : Cursor) (len : Nat) : Span :=
  { line := p.line, col := p.col, len := len }

/-- The span of a word at the cursor, as long as the word has bytes. -/
def wordSpan (p : Cursor) (text : String) : Span :=
  p.span text.utf8ByteSize

/-- A word at the cursor. -/
def ident (p : Cursor) (text : String) : Ident :=
  { text := text, span := p.wordSpan text }

/-! ## Expressions -/

/-- An integer literal. -/
def int (p : Cursor) (value : Int) : Expr :=
  .int value (p.span 0)

/-- A bare name. -/
def name (p : Cursor) (text : String) : Expr :=
  .name (p.ident text)

/-- The receiver. -/
def self (p : Cursor) : Expr :=
  .self (p.span 4)

/-- A binary operation, as long as its operator. -/
def binary (p : Cursor) (op : BinOp) (left right : Expr) : Expr :=
  .binary op left right (p.wordSpan op.symbol)

/-- A call, on a receiver or without one, as long as the name it calls. -/
def call (p : Cursor) (receiver : Option Expr) (callee : String) (args : List Expr) : Expr :=
  match receiver with
  | none => .call (p.ident callee) args (p.wordSpan callee)
  | some r => .send r (p.ident callee) args (p.wordSpan callee)

/-- The construction of an object. -/
def construct (p : Cursor) (cls : String) : Expr :=
  p.call none cls []

/-! ## Statements -/

/-- Locals of one type without initial values. -/
def locals (p : Cursor) (type : String) (names : List String) : Stmt :=
  .declare (p.ident type)
    (names.map fun n => { name := p.ident n, init := none, span := p.wordSpan n }) (p.span 0)

/-- A local with an initial value. -/
def localInit (p : Cursor) (type name : String) (init : Expr) : Stmt :=
  .declare (p.ident type)
    [{ name := p.ident name, init := some init, span := p.wordSpan name }] (p.span 0)

/-- A conditional, with an else branch or without one. -/
def cond (p : Cursor) (test : Expr) (body : List Stmt) (other : Option (List Stmt)) : Stmt :=
  match other with
  | none => .ifThen test body (p.span 0) (p.span 2)
  | some other => .ifElse test body (p.span 0) other (p.span 0) (p.span 2)

/-- A loop. -/
def loop (p : Cursor) (test : Expr) (body : List Stmt) : Stmt :=
  .loop test body (p.span 0) (p.span 5)

/-- A return. -/
def ret (p : Cursor) (value : Option Expr) : Stmt :=
  .ret value (p.span 6)

/-- An assignment. -/
def assign (p : Cursor) (target : String) (value : Expr) : Stmt :=
  .assign (p.ident target) value (p.span 0)

/-- An expression evaluated for its effect. -/
def eval (p : Cursor) (expr : Expr) : Stmt :=
  .eval expr (p.span 0)

/-! ## Declarations -/

/-- A receiver or, with a type, an explicit parameter. -/
def param (p : Cursor) (name : String) (type : Option String) : Param :=
  { name := p.ident name, type := type.map p.ident, span := p.wordSpan name }

/-- Fields of one type. -/
def field (p : Cursor) (type : String) (names : List String) : Member :=
  .field { type := p.ident type, names := names.map p.ident, span := p.span 0 }

/-- A method, as long as its name. -/
def method (p : Cursor) (name : String) (params : List Param) (returnType : Option String)
    (body : List Stmt) : Member :=
  .method
    { name := p.ident name, params := params, returnType := returnType.map p.ident,
      body := body, bodySpan := p.span 0, span := p.wordSpan name }

/-- A class, as long as its name. -/
def classDecl (p : Cursor) (name : String) (parents : List String) (members : List Member) :
    ClassDecl :=
  { name := p.ident name, parents := parents.map p.ident, members := members,
    span := p.wordSpan name }

end Cursor

/-- A program, which starts where every source does, wherever the cursor
stands. -/
def Program.ofClasses (classes : List ClassDecl) : Program :=
  { classes := classes, span := { line := 1, col := 1, len := 0 } }

end Heritage
