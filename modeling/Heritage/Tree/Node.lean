import Heritage.Tree

/-!
# The nodes of a program

A uniform view of the tree: classes, members, statements and expressions are
all nodes, each with a kind, a span and an ordered list of children. Blocks,
parameters and declarators are not nodes; what hangs below them is a child of
the node that holds them.

`Node.size` counts a node and what hangs below it by recursion over the typed
tree, `nodeCount` by a worklist over the uniform view, and `Node.walk` lists
the nodes of the view in order. The size of a node exceeds that of its
children together (`Node.size_children`), which is why the last two end.
-/

namespace Heritage

/-! ## Sizes by recursion over the typed tree -/

mutual
/-- The number of expressions in an expression, itself included. -/
def Expr.size : Expr → Nat
  | .int _ _ => 1
  | .name _ => 1
  | .self _ => 1
  | .binary _ left right _ => 1 + left.size + right.size
  | .call _ args _ => 1 + Expr.sizes args
  | .send receiver _ args _ => 1 + receiver.size + Expr.sizes args
/-- The number of expressions in a list of expressions. -/
def Expr.sizes : List Expr → Nat
  | [] => 0
  | e :: rest => e.size + Expr.sizes rest
end

/-- The number of expressions in an expression that may be absent. -/
def Expr.optSize : Option Expr → Nat
  | none => 0
  | some e => e.size

mutual
/-- The number of statements and expressions in a statement, itself
included. -/
def Stmt.size : Stmt → Nat
  | .declare _ vars _ => 1 + Expr.sizes (vars.filterMap (·.init))
  | .ifThen cond body _ _ => 1 + cond.size + Stmt.sizes body
  | .ifElse cond body _ other _ _ => 1 + cond.size + Stmt.sizes body + Stmt.sizes other
  | .loop cond body _ _ => 1 + cond.size + Stmt.sizes body
  | .ret value _ => 1 + Expr.optSize value
  | .assign _ value _ => 1 + value.size
  | .eval expr _ => 1 + expr.size
/-- The number of statements and expressions in a list of statements. -/
def Stmt.sizes : List Stmt → Nat
  | [] => 0
  | s :: rest => s.size + Stmt.sizes rest
end

/-- The number of nodes in a member, itself included. -/
def Member.size : Member → Nat
  | .field _ => 1
  | .method decl => 1 + Stmt.sizes decl.body

/-- The number of nodes in a list of members. -/
def Member.sizes : List Member → Nat
  | [] => 0
  | m :: rest => m.size + Member.sizes rest

/-- The number of nodes in a class, itself included. -/
def ClassDecl.size (c : ClassDecl) : Nat :=
  1 + Member.sizes c.members

/-- The number of nodes in a list of classes. -/
def ClassDecl.sizes : List ClassDecl → Nat
  | [] => 0
  | c :: rest => c.size + ClassDecl.sizes rest

/-- The number of nodes in a program. The program itself is not one. -/
def Program.size (p : Program) : Nat :=
  ClassDecl.sizes p.classes

/-! ## The uniform view -/

/-- **A node of a program.** -/
inductive Node where
  | ofClass (c : ClassDecl)
  | ofMember (m : Member)
  | ofStmt (s : Stmt)
  | ofExpr (e : Expr)

namespace Node

/-- The name of the kind of a node. -/
def kind : Node → String
  | .ofClass _ => "ClassDecl"
  | .ofMember (.method _) => "MethodDecl"
  | .ofMember (.field _) => "FieldDecl"
  | .ofStmt (.declare ..) => "LocalDecl"
  | .ofStmt (.ifThen ..) => "IfStmt"
  | .ofStmt (.ifElse ..) => "IfStmt"
  | .ofStmt (.loop ..) => "WhileStmt"
  | .ofStmt (.ret ..) => "ReturnStmt"
  | .ofStmt (.assign ..) => "AssignStmt"
  | .ofStmt (.eval ..) => "ExprStmt"
  | .ofExpr (.call ..) => "CallExpr"
  | .ofExpr (.send ..) => "CallExpr"
  | .ofExpr (.binary ..) => "BinaryExpr"
  | .ofExpr (.int ..) => "LiteralExpr"
  | .ofExpr (.name _) => "IdentifierExpr"
  | .ofExpr (.self _) => "SelfExpr"

/-- Where a node stands. -/
def span : Node → Span
  | .ofClass c => c.span
  | .ofMember (.method decl) => decl.span
  | .ofMember (.field decl) => decl.span
  | .ofStmt s => s.span
  | .ofExpr e => e.span

/-- **The children of a node**, in source order. -/
def children : Node → List Node
  | .ofClass c => c.members.map .ofMember
  | .ofMember (.method decl) => decl.body.map .ofStmt
  | .ofMember (.field _) => []
  | .ofStmt (.declare _ vars _) => (vars.filterMap (·.init)).map .ofExpr
  | .ofStmt (.ifThen cond body _ _) => .ofExpr cond :: body.map .ofStmt
  | .ofStmt (.ifElse cond body _ other _ _) =>
    .ofExpr cond :: (body.map .ofStmt ++ other.map .ofStmt)
  | .ofStmt (.loop cond body _ _) => .ofExpr cond :: body.map .ofStmt
  | .ofStmt (.ret value _) => value.toList.map .ofExpr
  | .ofStmt (.assign _ value _) => [.ofExpr value]
  | .ofStmt (.eval expr _) => [.ofExpr expr]
  | .ofExpr (.call _ args _) => args.map .ofExpr
  | .ofExpr (.send receiver _ args _) => .ofExpr receiver :: args.map .ofExpr
  | .ofExpr (.binary _ left right _) => [.ofExpr left, .ofExpr right]
  | .ofExpr (.int ..) => []
  | .ofExpr (.name _) => []
  | .ofExpr (.self _) => []

/-- The number of nodes at and below a node. -/
def size : Node → Nat
  | .ofClass c => c.size
  | .ofMember m => m.size
  | .ofStmt s => s.size
  | .ofExpr e => e.size

/-- The number of nodes at and below the nodes of a list. -/
def sizes : List Node → Nat
  | [] => 0
  | n :: rest => n.size + sizes rest

/-! ## A node is larger than its children together -/

theorem sizes_append (ns ms : List Node) : sizes (ns ++ ms) = sizes ns + sizes ms := by
  induction ns with
  | nil => simp [sizes]
  | cons n rest ih => simp [sizes, ih, Nat.add_assoc]

theorem sizes_exprs (es : List Expr) : sizes (es.map Node.ofExpr) = Expr.sizes es := by
  induction es with
  | nil => simp [sizes, Expr.sizes]
  | cons e rest ih => simp_all [sizes, Expr.sizes, size]

theorem sizes_stmts (ss : List Stmt) : sizes (ss.map Node.ofStmt) = Stmt.sizes ss := by
  induction ss with
  | nil => simp [sizes, Stmt.sizes]
  | cons s rest ih => simp_all [sizes, Stmt.sizes, size]

theorem sizes_members (ms : List Member) : sizes (ms.map Node.ofMember) = Member.sizes ms := by
  induction ms with
  | nil => rfl
  | cons m rest ih => simp_all [sizes, Member.sizes, size]

/-- **Every node below a node is counted once**: a node is its children and
one more. -/
theorem size_children (n : Node) : n.size = 1 + sizes n.children := by
  cases n with
  | ofClass c => simp only [size, children, ClassDecl.size, sizes_members]
  | ofMember m =>
    cases m with
    | field _ => simp [size, sizes, children, Member.size]
    | method decl => simp only [size, children, Member.size, sizes_stmts]
  | ofStmt s =>
    cases s with
    | declare _ vars _ => simp only [size, children, Stmt.size, sizes_exprs]
    | ifThen cond body _ _ =>
      simp only [size, sizes, children, Stmt.size, sizes_stmts, Nat.add_assoc]
    | ifElse cond body _ other _ _ =>
      simp only [size, sizes, children, Stmt.size, sizes_append, sizes_stmts, Nat.add_assoc]
    | loop cond body _ _ =>
      simp only [size, sizes, children, Stmt.size, sizes_stmts, Nat.add_assoc]
    | ret value _ => cases value <;> simp [size, sizes, children, Stmt.size, Expr.optSize]
    | assign _ value _ => simp [size, sizes, children, Stmt.size]
    | eval expr _ => simp [size, sizes, children, Stmt.size]
  | ofExpr e =>
    cases e with
    | int _ _ => simp [size, sizes, children, Expr.size]
    | name _ => simp [size, sizes, children, Expr.size]
    | self _ => simp [size, sizes, children, Expr.size]
    | binary _ left right _ => simp [size, sizes, children, Expr.size, Nat.add_assoc]
    | call _ args _ => simp only [size, children, Expr.size, sizes_exprs]
    | send receiver _ args _ =>
      simp only [size, sizes, children, Expr.size, sizes_exprs, Nat.add_assoc]

theorem size_le_sizes {n : Node} {ns : List Node} (h : n ∈ ns) : n.size ≤ sizes ns := by
  induction ns with
  | nil => simp at h
  | cons m rest ih =>
    unfold sizes
    rcases List.mem_cons.1 h with rfl | h
    · exact Nat.le_add_right _ _
    · exact Nat.le_add_left_of_le (ih h)

/-- A child is smaller than its parent. -/
theorem size_lt_of_mem_children {c n : Node} (h : c ∈ n.children) : c.size < n.size := by
  have := size_le_sizes h
  have := size_children n
  omega

/-! ## Walking the view -/

/-- **The nodes at and below a node, in source order**, each with its depth. -/
def walk (depth : Nat) (n : Node) : List (Nat × Node) :=
  (depth, n) :: n.children.attach.flatMap fun ⟨c, _⟩ => c.walk (depth + 1)
termination_by n.size
decreasing_by exact size_lt_of_mem_children (by assumption)

/-- Count the nodes at and below those of a worklist. The children of a node
go to the front of the list in its place. -/
def countFrom : List Node → Nat
  | [] => 0
  | n :: rest => 1 + countFrom (n.children ++ rest)
termination_by ns => sizes ns
decreasing_by
  have := size_children n
  rw [sizes_append, sizes]
  omega

end Node

/-- The classes of a program as nodes. -/
def Program.roots (p : Program) : List Node :=
  p.classes.map .ofClass

/-- **The number of nodes of a program**, by a worklist that starts with its
classes. -/
def Program.nodeCount (p : Program) : Nat :=
  Node.countFrom p.roots

/-- The nodes of a program in source order, each with its depth. Classes have
depth zero. -/
def Program.walk (p : Program) : List (Nat × Node) :=
  p.roots.flatMap (Node.walk 0)

end Heritage
