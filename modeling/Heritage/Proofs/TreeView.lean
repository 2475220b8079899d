import Heritage.Tree.Node
import Mathlib.Data.List.Basic

/-!
# The uniform view misses and repeats nothing

A tree has two sides. On its typed side a class has members, a method a body, a
statement conditions, values and blocks, a call a receiver and arguments, and
some of these may be absent. In the uniform view all of them are nodes, and a
node has children. `Program.nodes` lists the nodes of the typed side by
recursion over the types, in the order in which they are written, and
`Program.walk` lists those of the view by recursion over the children. The lists
are equal, each node with its depth.

A count need not go in any order. A worklist gives up some node, wherever it
stands, and takes in the children of that node, wherever it puts them
(`Node.Takes`): the last one first as from a stack, the first one first as from a
queue, or otherwise. It always gets empty, and it has then given up every node
once, since what stands below its nodes stays the same but for the node given up
(`Node.Takes.subtree_perm`).
-/

namespace Heritage

/-! ## The nodes of a typed tree -/

mutual
/-- **The expressions of an expression in source order**, each with its depth:
itself, then those of its operands, or of its receiver and its arguments. -/
def Expr.nodes (depth : Nat) : Expr → List (Nat × Node)
  | .int value span => [(depth, .ofExpr (.int value span))]
  | .name ident => [(depth, .ofExpr (.name ident))]
  | .self span => [(depth, .ofExpr (.self span))]
  | .binary op left right span =>
    (depth, .ofExpr (.binary op left right span))
      :: (left.nodes (depth + 1) ++ right.nodes (depth + 1))
  | .call callee args span =>
    (depth, .ofExpr (.call callee args span)) :: Expr.nodesAll (depth + 1) args
  | .send receiver callee args span =>
    (depth, .ofExpr (.send receiver callee args span))
      :: (receiver.nodes (depth + 1) ++ Expr.nodesAll (depth + 1) args)
/-- The expressions of a list of expressions in source order. -/
def Expr.nodesAll (depth : Nat) : List Expr → List (Nat × Node)
  | [] => []
  | e :: rest => e.nodes depth ++ Expr.nodesAll depth rest
end

/-- The expressions of declarators in source order: those of the initial values
that are there. -/
def Declarator.nodesAll (depth : Nat) : List Declarator → List (Nat × Node)
  | [] => []
  | v :: rest =>
    match v.init with
    | none => Declarator.nodesAll depth rest
    | some e => e.nodes depth ++ Declarator.nodesAll depth rest

mutual
/-- **The statements and expressions of a statement in source order**, each with
its depth: itself, its condition or value, then its blocks. -/
def Stmt.nodes (depth : Nat) : Stmt → List (Nat × Node)
  | .declare type vars span =>
    (depth, .ofStmt (.declare type vars span)) :: Declarator.nodesAll (depth + 1) vars
  | .ifThen cond body bodySpan span =>
    (depth, .ofStmt (.ifThen cond body bodySpan span))
      :: (cond.nodes (depth + 1) ++ Stmt.nodesAll (depth + 1) body)
  | .ifElse cond body bodySpan other otherSpan span =>
    (depth, .ofStmt (.ifElse cond body bodySpan other otherSpan span))
      :: (cond.nodes (depth + 1) ++ Stmt.nodesAll (depth + 1) body
        ++ Stmt.nodesAll (depth + 1) other)
  | .loop cond body bodySpan span =>
    (depth, .ofStmt (.loop cond body bodySpan span))
      :: (cond.nodes (depth + 1) ++ Stmt.nodesAll (depth + 1) body)
  | .ret none span => [(depth, .ofStmt (.ret none span))]
  | .ret (some value) span =>
    (depth, .ofStmt (.ret (some value) span)) :: value.nodes (depth + 1)
  | .assign target value span =>
    (depth, .ofStmt (.assign target value span)) :: value.nodes (depth + 1)
  | .eval expr span => (depth, .ofStmt (.eval expr span)) :: expr.nodes (depth + 1)
/-- The statements and expressions of a list of statements in source order. -/
def Stmt.nodesAll (depth : Nat) : List Stmt → List (Nat × Node)
  | [] => []
  | s :: rest => s.nodes depth ++ Stmt.nodesAll depth rest
end

/-- The nodes of a member in source order. -/
def Member.nodes (depth : Nat) : Member → List (Nat × Node)
  | .field decl => [(depth, .ofMember (.field decl))]
  | .method decl => (depth, .ofMember (.method decl)) :: Stmt.nodesAll (depth + 1) decl.body

/-- The nodes of a class in source order. -/
def ClassDecl.nodes (depth : Nat) (c : ClassDecl) : List (Nat × Node) :=
  (depth, .ofClass c) :: c.members.flatMap (Member.nodes (depth + 1))

/-- **The nodes of a program in source order**, each with its depth. -/
def Program.nodes (p : Program) : List (Nat × Node) :=
  p.classes.flatMap (ClassDecl.nodes 0)

/-! ## The view of a typed tree -/

namespace Node

/-- A node is listed before what stands below it. -/
theorem walk_eq (depth : Nat) (n : Node) :
    n.walk depth = (depth, n) :: n.children.flatMap (Node.walk (depth + 1)) := by
  rw [walk]
  refine congrArg _ ?_
  rw [List.flatMap_subtype (g := Node.walk (depth + 1)) fun _ _ => rfl, List.unattach_attach]

theorem walk_leaf {n : Node} (h : n.children = []) (depth : Nat) :
    n.walk depth = [(depth, n)] := by
  rw [walk_eq, h, List.flatMap_nil]

end Node

mutual
/-- **In the view an expression is listed like on the typed side.** -/
theorem Expr.walk_eq_nodes (depth : Nat) : (e : Expr) →
    (Node.ofExpr e).walk depth = e.nodes depth
  | .int _ _ => Node.walk_leaf rfl depth
  | .name _ => Node.walk_leaf rfl depth
  | .self _ => Node.walk_leaf rfl depth
  | .binary _ left right _ => by
    rw [Node.walk_eq, nodes, Node.children, List.flatMap_cons, List.flatMap_singleton,
      left.walk_eq_nodes, right.walk_eq_nodes]
  | .call _ args _ => by
    rw [Node.walk_eq, nodes, Node.children, Expr.flatMap_walk_eq_nodesAll _ args]
  | .send receiver _ args _ => by
    rw [Node.walk_eq, nodes, Node.children, List.flatMap_cons, receiver.walk_eq_nodes,
      Expr.flatMap_walk_eq_nodesAll _ args]
theorem Expr.flatMap_walk_eq_nodesAll (depth : Nat) : (es : List Expr) →
    (es.map Node.ofExpr).flatMap (Node.walk depth) = Expr.nodesAll depth es
  | [] => rfl
  | e :: rest => by
    rw [List.map_cons, List.flatMap_cons, e.walk_eq_nodes, Expr.flatMap_walk_eq_nodesAll _ rest,
      nodesAll]
end

/-- The declarators without an initial value are not seen in the view. -/
theorem Declarator.flatMap_walk_eq_nodesAll (depth : Nat) (vars : List Declarator) :
    ((vars.filterMap (·.init)).map Node.ofExpr).flatMap (Node.walk depth)
      = Declarator.nodesAll depth vars := by
  induction vars with
  | nil => rfl
  | cons v rest ih =>
    unfold nodesAll
    cases h : v.init with
    | none => rw [List.filterMap_cons_none h, ih]
    | some e =>
      rw [List.filterMap_cons_some h, List.map_cons, List.flatMap_cons, ih, e.walk_eq_nodes]

mutual
/-- **In the view a statement is listed like on the typed side.** -/
theorem Stmt.walk_eq_nodes (depth : Nat) : (s : Stmt) →
    (Node.ofStmt s).walk depth = s.nodes depth
  | .declare _ vars _ => by
    rw [Node.walk_eq, nodes, Node.children, Declarator.flatMap_walk_eq_nodesAll]
  | .ifThen cond body _ _ => by
    rw [Node.walk_eq, nodes, Node.children, List.flatMap_cons, cond.walk_eq_nodes,
      Stmt.flatMap_walk_eq_nodesAll _ body]
  | .ifElse cond body _ other _ _ => by
    rw [Node.walk_eq, nodes, Node.children, List.flatMap_cons, List.flatMap_append,
      cond.walk_eq_nodes, Stmt.flatMap_walk_eq_nodesAll _ body,
      Stmt.flatMap_walk_eq_nodesAll _ other, List.append_assoc]
  | .loop cond body _ _ => by
    rw [Node.walk_eq, nodes, Node.children, List.flatMap_cons, cond.walk_eq_nodes,
      Stmt.flatMap_walk_eq_nodesAll _ body]
  | .ret none _ => Node.walk_leaf rfl depth
  | .ret (some value) _ => by
    rw [Node.walk_eq, nodes, ← value.walk_eq_nodes, ← List.flatMap_singleton (Node.walk _)]
    rfl
  | .assign _ value _ => by
    rw [Node.walk_eq, nodes, Node.children, List.flatMap_singleton, value.walk_eq_nodes]
  | .eval expr _ => by
    rw [Node.walk_eq, nodes, Node.children, List.flatMap_singleton, expr.walk_eq_nodes]
theorem Stmt.flatMap_walk_eq_nodesAll (depth : Nat) : (ss : List Stmt) →
    (ss.map Node.ofStmt).flatMap (Node.walk depth) = Stmt.nodesAll depth ss
  | [] => rfl
  | s :: rest => by
    rw [List.map_cons, List.flatMap_cons, s.walk_eq_nodes, Stmt.flatMap_walk_eq_nodesAll _ rest,
      nodesAll]
end

theorem Member.walk_eq_nodes (depth : Nat) (m : Member) :
    (Node.ofMember m).walk depth = m.nodes depth := by
  cases m with
  | field decl => exact Node.walk_leaf rfl depth
  | method decl =>
    rw [Node.walk_eq, nodes, Node.children, Stmt.flatMap_walk_eq_nodesAll]

theorem ClassDecl.walk_eq_nodes (depth : Nat) (c : ClassDecl) :
    (Node.ofClass c).walk depth = c.nodes depth := by
  rw [Node.walk_eq, nodes, Node.children, List.flatMap_map,
    funext (Member.walk_eq_nodes (depth + 1))]

/-- **The view lists the nodes of a program in source order.** -/
theorem Program.walk_eq_nodes (p : Program) : p.walk = p.nodes := by
  rw [walk, roots, nodes, List.flatMap_map, funext (ClassDecl.walk_eq_nodes 0)]

/-! ## Worklists -/

namespace Node

/-- The nodes at and below a node, in source order. -/
def subtree (n : Node) : List Node :=
  (n.walk 0).map (·.2)

/-- Which nodes are listed does not depend on the depth at which the list begins. -/
theorem map_snd_walk (n : Node) (depth : Nat) : (n.walk depth).map (·.2) = n.subtree := by
  induction hsize : n.size using Nat.strongRecOn generalizing n depth with
  | ind size ih =>
    subst hsize
    rw [subtree, walk_eq, walk_eq 0, List.map_cons, List.map_cons, List.map_flatMap,
      List.map_flatMap]
    refine congrArg _ (List.flatMap_congr fun c hc => ?_)
    have hlt := size_lt_of_mem_children hc
    rw [ih _ hlt c _ rfl, ih _ hlt c _ rfl]

theorem subtree_eq (n : Node) : n.subtree = n :: n.children.flatMap subtree := by
  rw [subtree, walk_eq, List.map_cons, List.map_flatMap]
  exact congrArg _ (List.flatMap_congr fun c _ => c.map_snd_walk _)

/-- The nodes below a worklist are the first of them and those below what is left when it has
given up that one. -/
theorem flatMap_subtree_cons (n : Node) (rest : List Node) :
    (n :: rest).flatMap subtree = n :: (n.children ++ rest).flatMap subtree := by
  rw [List.flatMap_cons, subtree_eq, List.flatMap_append, List.cons_append]

/-- **A worklist gives up a node**, whichever it likes, and takes in its children, wherever it
likes. -/
def Takes (ns : List Node) (n : Node) (ns' : List Node) : Prop :=
  ∃ rest, ns.Perm (n :: rest) ∧ ns'.Perm (n.children ++ rest)

/-- **A worklist is worked off**: it gives up nodes until it is empty, these in this order. -/
inductive WorksOff : List Node → List Node → Prop where
  | done : WorksOff [] []
  | take {ns ns' taken : List Node} {n : Node} (turn : Takes ns n ns') (tail : WorksOff ns' taken) :
      WorksOff ns (n :: taken)

/-- **One turn** changes what stands below a worklist by the node given up, and by no other. -/
theorem Takes.subtree_perm {ns ns' : List Node} {n : Node} (h : Takes ns n ns') :
    (ns.flatMap subtree).Perm (n :: ns'.flatMap subtree) := by
  obtain ⟨rest, hout, hback⟩ := h
  have hfirst := hout.flatMap_right subtree
  rw [flatMap_subtree_cons] at hfirst
  exact hfirst.trans ((hback.flatMap_right subtree).symm.cons n)

/-- No worklist goes on for ever. -/
theorem takes_wellFounded : WellFounded fun ns' ns => ∃ n, Takes ns n ns' := by
  refine Subrelation.wf ?_ (measure fun ns => (ns.flatMap subtree).length).wf
  rintro ns' ns ⟨n, hturn⟩
  show (ns'.flatMap subtree).length < (ns.flatMap subtree).length
  rw [hturn.subtree_perm.length_eq, List.length_cons]
  exact Nat.lt_succ_self _

/-- **A worklist that is worked off gives up every node at and below its own once.** -/
theorem WorksOff.perm {ns taken : List Node} (h : WorksOff ns taken) :
    taken.Perm (ns.flatMap subtree) := by
  induction h with
  | done => exact .refl _
  | take turn _ ih => exact (ih.cons _).trans turn.subtree_perm.symm

/-- Worklists that give up their first node and put its children in its place are worked off. -/
theorem worksOff_flatMap_subtree (ns : List Node) : WorksOff ns (ns.flatMap subtree) := by
  fun_induction countFrom ns with
  | case1 => exact .done
  | case2 n rest ih =>
    rw [flatMap_subtree_cons]
    exact .take ⟨rest, .refl _, .refl _⟩ ih

theorem countFrom_eq_length (ns : List Node) : countFrom ns = (ns.flatMap subtree).length := by
  fun_induction countFrom ns with
  | case1 => rfl
  | case2 n rest ih => rw [ih, flatMap_subtree_cons, List.length_cons, Nat.add_comm]

theorem countFrom_eq_sizes (ns : List Node) : countFrom ns = sizes ns := by
  fun_induction countFrom ns with
  | case1 => rfl
  | case2 n rest ih => rw [ih, sizes_append, sizes, size_children, Nat.add_assoc]

theorem sizes_classes (cs : List ClassDecl) : sizes (cs.map Node.ofClass) = ClassDecl.sizes cs := by
  induction cs with
  | nil => rfl
  | cons c rest ih => rw [List.map_cons, sizes, ClassDecl.sizes, ih, size]

end Node

theorem Program.flatMap_subtree (p : Program) :
    p.roots.flatMap Node.subtree = p.nodes.map (·.2) := by
  rw [← p.walk_eq_nodes, walk, List.map_flatMap]
  rfl

theorem Program.nodeCount_eq_size (p : Program) : p.nodeCount = p.size :=
  (Node.countFrom_eq_sizes p.roots).trans (Node.sizes_classes p.classes)

/-- **The uniform view of a program misses and repeats nothing.** Its walk lists the nodes of the
typed tree in source order, each with its depth; there are as many as recursion over the types
counts, and the worklist counts as many.

Every order of the worklist ends, none ends before it has given up each of these nodes once, and
so each counts the same. -/
theorem view_misses_and_repeats_nothing (p : Program) :
    p.walk = p.nodes ∧ p.nodes.length = p.size ∧ p.nodeCount = p.size
      ∧ (WellFounded fun ns' ns => ∃ n, Node.Takes ns n ns')
      ∧ (∃ taken, Node.WorksOff p.roots taken)
      ∧ ∀ taken, Node.WorksOff p.roots taken →
        taken.Perm (p.nodes.map (·.2)) ∧ taken.length = p.nodeCount := by
  have hlength : (p.nodes.map (·.2)).length = p.nodeCount := by
    rw [← p.flatMap_subtree, ← Node.countFrom_eq_length]
    rfl
  refine ⟨p.walk_eq_nodes, ?_, p.nodeCount_eq_size, Node.takes_wellFounded,
    ⟨_, Node.worksOff_flatMap_subtree p.roots⟩, fun taken htaken => ?_⟩
  · rw [← p.nodeCount_eq_size, ← hlength, List.length_map]
  · have hperm := htaken.perm
    rw [p.flatMap_subtree] at hperm
    exact ⟨hperm, hperm.length_eq.trans hlength⟩

end Heritage
