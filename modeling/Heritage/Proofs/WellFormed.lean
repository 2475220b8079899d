import Heritage.Tree
import Heritage.Typing.Rules
import Mathlib.Logic.Relation

/-!
# Well-formed programs

The rules of the language, said of the tree alone: which names must differ,
which words are types, what may inherit from what, and when a statement is
typable. No table, no scope number and no order of checking occurs in them.
Classes are named by their names, and what is in scope at a point of a body is
the list of the blocks around it, each with what was declared in it so far.
-/

namespace Heritage

/-! ## Names -/

/-- The names a member declares in its class. -/
def Member.names : Member → List String
  | .field decl => decl.names.map (·.text)
  | .method decl => [decl.name.text]

/-- The names a statement declares in the block it stands in. -/
def Stmt.locals : Stmt → List String
  | .declare _ vars _ => vars.map (·.name.text)
  | .ifThen .. => []
  | .ifElse .. => []
  | .loop .. => []
  | .ret .. => []
  | .assign .. => []
  | .eval .. => []

/-- The names declared directly in a block. -/
def localsOf (body : List Stmt) : List String :=
  body.flatMap Stmt.locals

mutual
/-- In each block inside a statement, the names declared directly in it differ. -/
def Stmt.Distinct : Stmt → Prop
  | .declare .. => True
  | .ifThen _ body _ _ => (localsOf body).Nodup ∧ BlocksDistinct body
  | .ifElse _ body _ other _ _ =>
    ((localsOf body).Nodup ∧ BlocksDistinct body) ∧ (localsOf other).Nodup ∧ BlocksDistinct other
  | .loop _ body _ _ => (localsOf body).Nodup ∧ BlocksDistinct body
  | .ret .. => True
  | .assign .. => True
  | .eval .. => True
/-- In each block inside a list of statements, the names declared directly in it
differ. -/
def BlocksDistinct : List Stmt → Prop
  | [] => True
  | s :: rest => s.Distinct ∧ BlocksDistinct rest
end

/-- **The names of a method are in order**: it has a receiver without a type and
then only parameters with one, and its parameters and the locals of its body
differ, as do those of each block inside. -/
structure MethodDecl.NamesOk (m : MethodDecl) : Prop where
  /-- The first parameter is an untyped receiver, and the others have types. -/
  params : ∃ receiver rest, m.params = receiver :: rest ∧ receiver.type = none
    ∧ ∀ q ∈ rest, q.type ≠ none
  /-- Parameters and the locals of the body differ. -/
  distinct : (m.params.map (·.name.text) ++ localsOf m.body).Nodup
  /-- So do the locals of each block. -/
  blocks : BlocksDistinct m.body

/-! ## Types -/

/-- **A type, with classes named by their names.** -/
inductive SourceTy where
  | int
  | void
  | object (cls : String)
deriving DecidableEq

/-- The type that a word is written for. The words for the primitive types
stand for them whatever classes there are. -/
def SourceTy.ofWord (w : String) : SourceTy :=
  if w = "int" then .int else if w = "void" then .void else .object w

/-- The types of the parameters a call of a method passes arguments for. -/
def MethodDecl.argTypes (m : MethodDecl) : List SourceTy :=
  m.params.tail.filterMap fun q => q.type.map fun w => .ofWord w.text

/-- The type that a method returns, which is `void` if none is written. -/
def MethodDecl.result (m : MethodDecl) : SourceTy :=
  match m.returnType with
  | none => .void
  | some w => .ofWord w.text

mutual
/-- The written types of the locals of a statement, those inside its blocks
included. -/
def Stmt.typeWords : Stmt → List Ident
  | .declare type vars _ => vars.map fun _ => type
  | .ifThen _ body _ _ => typeWordsOf body
  | .ifElse _ body _ other _ _ => typeWordsOf body ++ typeWordsOf other
  | .loop _ body _ _ => typeWordsOf body
  | .ret .. => []
  | .assign .. => []
  | .eval .. => []
/-- The written types of the locals of a list of statements, those inside its
blocks included. -/
def typeWordsOf : List Stmt → List Ident
  | [] => []
  | s :: rest => s.typeWords ++ typeWordsOf rest
end

/-- The written types of the variables of a member: its fields, or its
parameters and locals. -/
def Member.typeWords : Member → List Ident
  | .field decl => decl.names.map fun _ => decl.type
  | .method decl => decl.params.filterMap (·.type) ++ typeWordsOf decl.body

namespace Program

variable (p : Program)

/-- A class of this name is declared. -/
def HasClass (name : String) : Prop :=
  ∃ d ∈ p.classes, d.name.text = name

/-- A word is a type that a field, a parameter or a local can have. -/
def IsValueType (w : String) : Prop :=
  w = "int" ∨ w ≠ "int" ∧ w ≠ "void" ∧ p.HasClass w

/-- A word is a type that a method can return. -/
def IsReturnType (w : String) : Prop :=
  w = "void" ∨ w = "int" ∨ p.HasClass w

/-! ## Inheritance -/

/-- A class is written with a parent. -/
def Parent (c a : String) : Prop :=
  ∃ d ∈ p.classes, d.name.text = c ∧ ∃ q ∈ d.parents, q.text = a

/-- A class derives from another. -/
def Ancestor : String → String → Prop :=
  Relation.TransGen p.Parent

/-- A class declares a method. -/
def DeclaresMethod (c : String) (m : MethodDecl) : Prop :=
  ∃ d ∈ p.classes, d.name.text = c ∧ Member.method m ∈ d.members

/-- A class declares a field, with a written type. -/
def DeclaresField (c name type : String) : Prop :=
  ∃ d ∈ p.classes, d.name.text = c ∧ ∃ f, Member.field f ∈ d.members
    ∧ f.type.text = type ∧ ∃ i ∈ f.names, i.text = name

/-- A class declares a method of a name. -/
def HasMethod (name c : String) : Prop :=
  ∃ m, p.DeclaresMethod c m ∧ m.name.text = name

/-- A class declares a field of a name. -/
def HasField (name c : String) : Prop :=
  ∃ type, p.DeclaresField c name type

/-- **An ancestor that declares something, and that no other ancestor that does
derives from.** -/
def MostDerived (declares : String → Prop) (c a : String) : Prop :=
  p.Ancestor c a ∧ declares a ∧ ∀ b, p.Ancestor c b → declares b → b ≠ a → ¬ p.Ancestor b a

/-- **The listing of a class and its ancestors**, depth first and from left to
right: the class, then the listing of each parent. A class that is reached on
several ways is listed once for each. -/
inductive Listing : String → List String → Prop where
  | node {d : ClassDecl} (declared : d ∈ p.classes) (listing : String → List String)
      (parents : ∀ q ∈ d.parents, Listing q.text (listing q.text)) :
      Listing d.name.text (d.name.text :: d.parents.flatMap fun q => listing q.text)

/-- **The type of the field that a name denotes in a class**: that of the class's
own field, or else of the field of the first ancestor in the listing that is
among the most derived ones. -/
inductive FieldType (c name : String) : SourceTy → Prop where
  | own {type : String} (declared : p.DeclaresField c name type) :
      FieldType c name (.ofWord type)
  | inherited {type a : String} {before behind : List String} (fresh : ¬ p.HasField name c)
      (listing : p.Listing c (before ++ a :: behind))
      (first : p.MostDerived (p.HasField name) c a)
      (earlier : ∀ b ∈ before, ¬ p.MostDerived (p.HasField name) c b)
      (declared : p.DeclaresField a name type) : FieldType c name (.ofWord type)

/-- **A method that a name denotes in a class**: the class's own, or else that of
one of the most derived ancestors. Of these there may be several, which take and
return the same types. -/
inductive Method (c name : String) : MethodDecl → Prop where
  | own {m : MethodDecl} (declared : p.DeclaresMethod c m) (named : m.name.text = name) :
      Method c name m
  | inherited {a : String} {m : MethodDecl} (fresh : ¬ p.HasMethod name c)
      (most : p.MostDerived (p.HasMethod name) c a) (declared : p.DeclaresMethod a m)
      (named : m.name.text = name) : Method c name m

/-- A value of one type can be stored where another is expected: they are the
same, or classes of which the first derives from the second. -/
def Stores (source target : SourceTy) : Prop :=
  source = target ∨ ∃ c a, source = .object c ∧ target = .object a ∧ p.Ancestor c a

end Program

/-! ## Bodies -/

/-- A variable in scope. -/
structure Binding where
  /-- Its name. -/
  name : String
  /-- Its type. -/
  type : SourceTy
  /-- Whether it is the receiver, to which nothing can be assigned. -/
  fixed : Bool

/-- **What is in scope**: the blocks around a point, inner ones first, each with
the variables declared in it so far. -/
abbrev Context := List (List Binding)

/-- The innermost variable of a name. -/
def Context.find (Γ : Context) (name : String) : Option Binding :=
  Γ.findSome? fun block => block.find? fun b => b.name == name

section Bodies

variable (p : Program) (cls : String)

mutual
/-- **An expression has a type**, in a body of a class. -/
inductive HasType (Γ : Context) : Expr → SourceTy → Prop where
  | int {value : Int} {span : Span} (fits : -2147483648 ≤ value ∧ value ≤ 2147483647) :
      HasType Γ (.int value span) .int
  | var {x : Ident} {b : Binding} (found : Γ.find x.text = some b) :
      HasType Γ (.name x) b.type
  | field {x : Ident} {type : SourceTy} (free : Γ.find x.text = none)
      (found : p.FieldType cls x.text type) : HasType Γ (.name x) type
  | self {span : Span} : HasType Γ (.self span) (.object cls)
  | binary {op : BinOp} {left right : Expr} {span : Span} (leftInt : HasType Γ left .int)
      (rightInt : HasType Γ right .int) : HasType Γ (.binary op left right span) .int
  | construct {callee : Ident} {span : Span} (isClass : p.HasClass callee.text) :
      HasType Γ (.call callee [] span) (.object callee.text)
  | call {callee : Ident} {args : List Expr} {span : Span} {m : MethodDecl}
      (noClass : ¬ p.HasClass callee.text) (found : p.Method cls callee.text m)
      (passed : ArgsFit Γ args m.argTypes) : HasType Γ (.call callee args span) m.result
  | send {receiver : Expr} {c : String} {callee : Ident} {args : List Expr} {span : Span}
      {m : MethodDecl} (on : HasType Γ receiver (.object c)) (found : p.Method c callee.text m)
      (passed : ArgsFit Γ args m.argTypes) : HasType Γ (.send receiver callee args span) m.result
/-- The arguments of a call have values that can be stored in its parameters. -/
inductive ArgsFit (Γ : Context) : List Expr → List SourceTy → Prop where
  | nil : ArgsFit Γ [] []
  | cons {e : Expr} {rest : List Expr} {type target : SourceTy} {targets : List SourceTy}
      (typed : HasType Γ e type) (value : type ≠ .void) (stores : p.Stores type target)
      (tail : ArgsFit Γ rest targets) : ArgsFit Γ (e :: rest) (target :: targets)
end

/-- An expression has a value that can be stored where a type is expected. -/
def HasValueFor (Γ : Context) (e : Expr) (target : SourceTy) : Prop :=
  ∃ type, HasType p cls Γ e type ∧ type ≠ .void ∧ p.Stores type target

/-- Declarators of a type, one after the other. The initial value of a variable
is evaluated before the variable is in scope. -/
inductive DeclaratorsOk (type : SourceTy) : Context → List Declarator → Context → Prop where
  | nil {Γ : Context} : DeclaratorsOk type Γ [] Γ
  | cons {block : List Binding} {Γ Γ' : Context} {v : Declarator} {rest : List Declarator}
      (init : ∀ e, v.init = some e → HasValueFor p cls (block :: Γ) e type)
      (tail : DeclaratorsOk type ((⟨v.name.text, type, false⟩ :: block) :: Γ) rest Γ') :
      DeclaratorsOk type (block :: Γ) (v :: rest) Γ'

/-- **The statements of a block are typable**, in a body of a method that returns
a type. -/
inductive StmtsOk (result : SourceTy) : Context → List Stmt → Prop where
  | nil {Γ : Context} : StmtsOk result Γ []
  | declare {Γ Γ' : Context} {type : Ident} {vars : List Declarator} {span : Span}
      {rest : List Stmt} (declared : DeclaratorsOk p cls (.ofWord type.text) Γ vars Γ')
      (tail : StmtsOk result Γ' rest) : StmtsOk result Γ (.declare type vars span :: rest)
  | ifThen {Γ : Context} {cond : Expr} {body : List Stmt} {bodySpan span : Span}
      {rest : List Stmt} (condInt : HasType p cls Γ cond .int)
      (inside : StmtsOk result ([] :: Γ) body) (tail : StmtsOk result Γ rest) :
      StmtsOk result Γ (.ifThen cond body bodySpan span :: rest)
  | ifElse {Γ : Context} {cond : Expr} {body other : List Stmt}
      {bodySpan otherSpan span : Span} {rest : List Stmt} (condInt : HasType p cls Γ cond .int)
      (inside : StmtsOk result ([] :: Γ) body) (inside' : StmtsOk result ([] :: Γ) other)
      (tail : StmtsOk result Γ rest) :
      StmtsOk result Γ (.ifElse cond body bodySpan other otherSpan span :: rest)
  | loop {Γ : Context} {cond : Expr} {body : List Stmt} {bodySpan span : Span}
      {rest : List Stmt} (condInt : HasType p cls Γ cond .int)
      (inside : StmtsOk result ([] :: Γ) body) (tail : StmtsOk result Γ rest) :
      StmtsOk result Γ (.loop cond body bodySpan span :: rest)
  | retNone {Γ : Context} {span : Span} {rest : List Stmt} (noResult : result = .void)
      (tail : StmtsOk result Γ rest) : StmtsOk result Γ (.ret none span :: rest)
  | retSome {Γ : Context} {e : Expr} {span : Span} {rest : List Stmt}
      (hasResult : result ≠ .void) (value : HasValueFor p cls Γ e result)
      (tail : StmtsOk result Γ rest) : StmtsOk result Γ (.ret (some e) span :: rest)
  | assign {Γ : Context} {target : Ident} {b : Binding} {e : Expr} {span : Span}
      {rest : List Stmt} (found : Γ.find target.text = some b) (free : b.fixed = false)
      (value : HasValueFor p cls Γ e b.type) (tail : StmtsOk result Γ rest) :
      StmtsOk result Γ (.assign target e span :: rest)
  | assignField {Γ : Context} {target : Ident} {type : SourceTy} {e : Expr} {span : Span}
      {rest : List Stmt} (noLocal : Γ.find target.text = none)
      (found : p.FieldType cls target.text type) (value : HasValueFor p cls Γ e type)
      (tail : StmtsOk result Γ rest) : StmtsOk result Γ (.assign target e span :: rest)
  | eval {Γ : Context} {e : Expr} {type : SourceTy} {span : Span} {rest : List Stmt}
      (typed : HasType p cls Γ e type) (tail : StmtsOk result Γ rest) :
      StmtsOk result Γ (.eval e span :: rest)

end Bodies

/-- The variables in scope at the start of a method of a class: its receiver,
which is an object of the class, and its other parameters. -/
def MethodDecl.bindings (m : MethodDecl) (cls : String) : List Binding :=
  match m.params with
  | [] => []
  | receiver :: rest =>
    ⟨receiver.name.text, .object cls, true⟩
      :: rest.filterMap fun q => q.type.map fun w => ⟨q.name.text, .ofWord w.text, false⟩

/-! ## Programs -/

namespace Program

/-- **The names of a program are in order.** -/
structure NamesOk (p : Program) : Prop where
  /-- Class names differ. -/
  classes : (p.classes.map (·.name.text)).Nodup
  /-- Within a class, the names of fields and methods differ. -/
  members : ∀ d ∈ p.classes, (d.members.flatMap Member.names).Nodup
  /-- Those of every method are in order. -/
  methods : ∀ d ∈ p.classes, ∀ m, Member.method m ∈ d.members → m.NamesOk

/-- **The written types of a program are types.** -/
structure TypesOk (p : Program) : Prop where
  /-- Every type of a field, a parameter or a local is one. -/
  values : ∀ d ∈ p.classes, ∀ m ∈ d.members, ∀ w ∈ m.typeWords, p.IsValueType w.text
  /-- Every return type is one. -/
  results : ∀ d ∈ p.classes, ∀ m, Member.method m ∈ d.members → ∀ w, m.returnType = some w →
    p.IsReturnType w.text

/-- **The ancestry of every class is known.** -/
structure AncestryOk (p : Program) : Prop where
  /-- Every written parent is a class. -/
  parents : ∀ d ∈ p.classes, ∀ q ∈ d.parents, p.HasClass q.text
  /-- No class derives from itself. -/
  acyclic : ∀ c, ¬ p.Ancestor c c

/-- **No inherited method is ambiguous**: the most derived declarations of a
method that a class does not declare itself take and return the same types. -/
def Unambiguous (p : Program) : Prop :=
  ∀ c name, p.HasClass c → ¬ p.HasMethod name c → ∀ a b m n,
    p.MostDerived (p.HasMethod name) c a → p.MostDerived (p.HasMethod name) c b →
    p.DeclaresMethod a m → m.name.text = name → p.DeclaresMethod b n → n.name.text = name →
    m.argTypes = n.argTypes ∧ m.result = n.result

/-- **Every body is typable.** -/
def BodiesOk (p : Program) : Prop :=
  ∀ d ∈ p.classes, ∀ m, Member.method m ∈ d.members →
    StmtsOk p d.name.text m.result [m.bindings d.name.text] m.body

/-- **A well-formed program.** -/
structure WellFormed (p : Program) : Prop where
  /-- Its names are in order. -/
  names : p.NamesOk
  /-- Its types are types. -/
  types : p.TypesOk
  /-- Every class has its ancestors. -/
  ancestry : p.AncestryOk
  /-- Every inherited method is one. -/
  unambiguous : p.Unambiguous
  /-- Its bodies are typable. -/
  bodies : p.BodiesOk

end Program

end Heritage
