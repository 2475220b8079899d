import Heritage.Compilation
import Heritage.Proofs.Declared
import Heritage.Proofs.IssueKinds
import Heritage.Proofs.Registered
import Heritage.Proofs.Rows

/-!
# The symbols of a program fit its tree

The C file of a program is written from two things that need not belong
together: a table, and a tree that is followed again with what the table says.
For the table of the program itself they do. Every class and method is found
where its symbol says it was declared, every block of a body is entered with the
scope that was opened for it, and what is found wrong on the way is wrong with
the program and never with the tree. This holds of every program, whatever was
reported about its declarations.
-/

namespace Heritage

open SymbolTable

/-! ## Declarations are found in the tree -/

namespace C

/-- The declaration of a method, looked for in the declaration of its class. -/
def declarationOf (t : SymbolTable) (p : Program) (m : MethodId) :
    Except Issue (MethodId × MethodDecl) :=
  let symbol := t.classAt (t.methodAt m).owner
  match p.classes[symbol.declIndex]? with
  | none => .error (.malformed (.noClass symbol.name) symbol.span)
  | some decl => methodDecl t symbol decl m

/-- In a tree that holds every class, looking through the classes is looking
through their methods. -/
theorem methodsInTree_eq {t : SymbolTable} {p : Program}
    (h : ∀ c < t.classes.length, p.classes[(t.classAt c).declIndex]? ≠ none) :
    methodsInTree t p = (t.classIds.flatMap t.methodsOf).map (declarationOf t p) := by
  unfold methodsInTree
  rw [List.map_flatMap]
  refine List.flatMap_congr (fun c hc => ?_)
  unfold classMethods
  dsimp only
  split
  · rename_i hnone
    exact absurd hnone (h c (List.mem_range.mp hc))
  · rename_i decl hdecl
    refine List.map_congr_left (fun m hm => ?_)
    unfold declarationOf
    rw [(mem_methodsOf.mp hm).2]
    dsimp only
    rw [hdecl]

end C

variable {p : Program} {r : Registered}

/-- **The declaration of a registered method is found where its symbol says.** -/
theorem declarationOf_registered (h : r ∈ registered p) {u : SymbolTable}
    (hu : u.declared = (collect p).table.declared) :
    C.declarationOf u p r.method = .ok (r.method, r.decl) := by
  obtain ⟨t, c, decl, index, v⟩ := visited p h
  have hat := v.methodAt.2
  have hm := methodAt_of_declared hu r.method
  rw [hat] at hm
  have howner : (u.methodAt r.method).owner = c := congrArg MethodSymbol.owner hm
  have hindex : (u.methodAt r.method).declIndex = index := congrArg MethodSymbol.declIndex hm
  have hcls : (u.classAt c).declIndex = (t.classAt c).declIndex := by
    obtain ⟨hm₁, -, hg⟩ := v.grows
    have hat := classAt_of_declared hu c
    rw [hg.classAt_eq (show c < (t.addMethod ..).classes.length from v.hasClass.2)] at hat
    exact show (u.classAt c).declared.declIndex = (t.classAt c).declared.declIndex from hat ▸ rfl
  unfold C.declarationOf C.methodDecl
  dsimp only
  rw [howner, hcls, v.inProgram, hindex]
  dsimp only
  rw [v.inClass]

/-- A registered method has the name of its declaration, and its place. -/
theorem methodAt_registered (h : r ∈ registered p) {u : SymbolTable}
    (hu : u.declared = (collect p).table.declared) :
    (u.methodAt r.method).name = r.decl.name.text
      ∧ (u.methodAt r.method).span = r.decl.name.span := by
  obtain ⟨_, _, _, _, v⟩ := visited p h
  have hat := methodAt_of_declared hu r.method
  rw [v.methodAt.2] at hat
  exact ⟨congrArg MethodSymbol.name hat, congrArg MethodSymbol.span hat⟩

/-- **The tree of a program holds exactly its registered methods.** -/
theorem methodsInTree_registered (p : Program) {u : SymbolTable}
    (hu : u.declared = (collect p).table.declared) :
    C.methodsInTree u p = (registered p).map fun r => .ok (r.method, r.decl) := by
  rw [C.methodsInTree_eq fun c hc => ?_]
  · rw [classIds_of_declared hu, funext (methodsOf_of_declared hu), methodsOf_registered,
      List.map_map]
    exact List.map_congr_left (fun r hr => declarationOf_registered hr hu)
  · rw [classes_length_of_declared hu] at hc
    obtain ⟨decl, hdecl, -⟩ := class_declared p (List.mem_of_getElem? (getElem?_eq_getD hc default))
    have hindex := congrArg ClassSymbol.declIndex (classAt_of_declared hu c)
    rw [show (u.classAt c).declIndex = ((collect p).table.classAt c).declIndex from hindex]
    exact hdecl ▸ Option.some_ne_none decl

theorem heldMethods_registered (p : Program) {u : SymbolTable}
    (hu : u.declared = (collect p).table.declared) :
    C.heldMethods u p = (registered p).map fun r => (r.method, r.decl) := by
  unfold C.heldMethods
  rw [methodsInTree_registered p hu, List.filterMap_map]
  exact congrFun List.filterMap_eq_map _

theorem lt_of_mem_heldMethods {u : SymbolTable} (hu : u.declared = (collect p).table.declared)
    {m : MethodId × MethodDecl} (hm : m ∈ C.heldMethods u p) : m.1 < u.methods.length := by
  rw [heldMethods_registered p hu] at hm
  obtain ⟨r, hr, rfl⟩ := List.mem_map.mp hm
  have hmem : r.method ∈ (registered p).map (·.method) := List.mem_map_of_mem hr
  rw [registered_methods, List.mem_range] at hmem
  rw [methods_length_of_declared hu]
  exact hmem

theorem exists_mem_heldMethods {u : SymbolTable} (hu : u.declared = (collect p).table.declared)
    {m : MethodId} (hm : m < u.methods.length) : ∃ decl, (m, decl) ∈ C.heldMethods u p := by
  have hmem : m ∈ (registered p).map (·.method) := by
    rw [registered_methods, List.mem_range, ← methods_length_of_declared hu]
    exact hm
  obtain ⟨r, hr, rfl⟩ := List.mem_map.mp hmem
  rw [heldMethods_registered p hu]
  exact ⟨r.decl, List.mem_map_of_mem hr⟩

/-! ## Bodies are followed to their end -/

/-- **The body of a registered method is followed to its end**, through the
scopes that were opened for it. -/
theorem follows_registered (h : r ∈ registered p) {u : SymbolTable}
    (hu : u.declared = (collect p).table.declared) :
    ∃ env, Body.Follows ⟨u, r.method⟩ (Held (collect p).table ((collect p).issues = []))
      r.decl.body (Body.start ⟨u, r.method⟩) env r.opened := by
  obtain ⟨t, c, decl, index, v⟩ := visited p h
  have hm := methodAt_of_declared hu r.method
  rw [v.methodAt.2] at hm
  have hscope : (u.methodAt r.method).scope = t.scopes.length := congrArg MethodSymbol.scope hm
  refine Body.follows_of_mirrors (b := ⟨u, r.method⟩) (fun s type d hd => ?_)
    (v.mirrors.transfer (childrenOf_of_declared hu) fun _ _ _ => id) hscope ?_
  · obtain ⟨id, -, hid, -⟩ := hd
    rw [lookupIn_of_declared hu, hid]
    rfl
  · show (u.childrenOf (u.methodAt r.method).scope).drop 0 = _
    rw [hscope, childrenOf_of_declared hu]
    rfl

/-- What is found wrong while the file of a program is written. -/
theorem file_issues_registered (p : Program) {u : SymbolTable}
    (hu : u.declared = (collect p).table.declared) :
    (C.File.ofTable u p).issues
      = (registered p).flatMap fun r =>
        Body.issuesAll ⟨u, r.method⟩ r.decl.body (Body.start ⟨u, r.method⟩) := by
  show (C.methodsInTree u p).flatMap (C.methodIssues u) = _
  rw [methodsInTree_registered p hu, List.flatMap_map]
  refine List.flatMap_congr (fun r hr => ?_)
  obtain ⟨env, hf⟩ := follows_registered hr hu
  show Body.bodyIssues _ _ = _
  unfold Body.bodyIssues
  rw [hf.stopIssues_eq, List.append_nil]

/-! ## The whole program -/

/-- **Every registered method gets one prototype and one definition.** -/
theorem file_functions_registered (p : Program) {u : SymbolTable}
    (hu : u.declared = (collect p).table.declared) :
    (C.File.ofTable u p).prototypes
        = C.linesOf ((registered p).map fun r => C.prototypeStep u r.method)
      ∧ (C.File.ofTable u p).definitions
        = C.linesOf (C.separated
            ((registered p).map fun r => C.definitionSteps u r.method r.decl.body))
      ∧ (C.File.ofTable u p).functionCount = (collect p).table.methods.length := by
  have hlen := congrArg List.length (registered_methods p)
  rw [List.length_map, List.length_range] at hlen
  unfold C.File.ofTable
  rw [heldMethods_registered p hu, List.map_map, List.map_map, List.length_map]
  exact ⟨rfl, rfl, hlen⟩

namespace C

/-- The body of a registered method is followed to its end, so nothing in it is left open. -/
theorem leftOpenBy_registered (h : r ∈ registered p) {u : SymbolTable}
    (hu : u.declared = (collect p).table.declared) :
    leftOpenBy u r.method r.decl.body = 0 := by
  obtain ⟨env, hfollows⟩ := follows_registered h hu
  exact Body.leftOpenAll_eq_zero _ hfollows.afterAll_eq

/-- The definition of a method ends where it began. -/
theorem definitionSteps_level (h : r ∈ registered p) {u : SymbolTable}
    (hu : u.declared = (collect p).table.declared) :
    Level (definitionSteps u r.method r.decl.body) := by
  have hlays := lays_definition u r.method r.decl.body
  rw [leftOpenBy_registered h hu] at hlays
  exact hlays.level

/-- **Lines that define a function**: the first one opens a block with the signature, the last one
closes it, and those between them stand inside. -/
def Defines (signature : String) (lines : List Line) : Prop :=
  ∃ inside, lines = { depth := 0, text := signature ++ " \x7b" } :: inside
      ++ [{ depth := 0, text := "\x7d" }]
    ∧ ∀ l ∈ inside, 0 < l.depth

/-- The lines of the definition of a registered method define its function. -/
theorem defines_registered (h : r ∈ registered p) {u : SymbolTable}
    (hu : u.declared = (collect p).table.declared) :
    Defines (signature u r.method) (linesOf (definitionSteps u r.method r.decl.body)) := by
  refine ⟨((Body.rowsAll ⟨u, r.method⟩ r.decl.body (Body.start ⟨u, r.method⟩)).map
    (Row.line ⟨u, r.method⟩)).map (.shift 1), ?_, fun l hl => ?_⟩
  · rw [(lays_definition u r.method r.decl.body).linesOf_eq, definitionLines,
      leftOpenBy_registered h hu]
  · obtain ⟨l', -, rfl⟩ := List.mem_map.mp hl
    exact Nat.lt_of_lt_of_le Nat.zero_lt_one (Nat.le_add_right 1 _)

end C

/-- **The lines of the functions of a program**: a line for each prototype, and for each definition
lines that define it, with an empty line between two definitions. -/
theorem file_lines_registered (p : Program) {u : SymbolTable}
    (hu : u.declared = (collect p).table.declared) :
    (C.File.ofTable u p).prototypes
        = (registered p).map (fun r => { depth := 0, text := C.signature u r.method ++ ";" })
      ∧ ∃ blocks, (C.File.ofTable u p).definitions = C.spaced blocks
        ∧ List.Forall₂ (fun r block => C.Defines (C.signature u r.method) block) (registered p)
          blocks := by
  obtain ⟨hprototypes, hdefinitions, -⟩ := file_functions_registered p hu
  refine ⟨hprototypes.trans (C.linesOf_map_line _ _), _, hdefinitions.trans (C.linesOf_separated
    (List.forall_mem_map.mpr fun r hr => C.definitionSteps_level hr hu)), ?_⟩
  rw [List.map_map, List.forall₂_map_right_iff, List.forall₂_same]
  exact fun r hr => C.defines_registered hr hu

/-- What is found wrong while the file of a program is written is of a kind that
a body can have. -/
theorem file_issues_kinds (p : Program) {u : SymbolTable}
    (hu : u.declared = (collect p).table.declared) :
    BodyIssues u (C.File.ofTable u p).issues := by
  intro i hi
  rw [file_issues_registered p hu] at hi
  obtain ⟨r, -, hi⟩ := List.mem_flatMap.mp hi
  exact Body.issuesAll_kinds _ _ _ i hi

/-- **The walk that writes a program agrees with the one that collected it.**
Whatever was reported about the declarations: each registered method is held by
the tree under its name and gets one prototype and one definition, in the order
of registration, of which the definition opens its block with the signature and
ends by closing it; while its body is written, each block is entered with the scope
that was opened for it; and what is found wrong is of a kind that a body can
have, so never that the tree is malformed. -/
theorem writing_agrees_with_collecting (o : Options) (p : Program) :
    let c := Compilation.run o p
    let t := c.resolved.table
    (∀ i ∈ c.file.issues, i.kind ≠ .malformedTree ∧
        (i.kind = .undeclaredIdentifier ∨ i.kind = .typeMismatch ∨ i.kind = .arityMismatch
          ∨ i.kind = .unresolvedClass ∧ ∃ k ∈ t.classes, k.state.isBroken = true))
      ∧ (∀ r ∈ registered p, (t.methodAt r.method).name = r.decl.name.text
          ∧ (t.methodAt r.method).span = r.decl.name.span
          ∧ Body.enteredAll ⟨t, r.method⟩ r.decl.body (Body.start ⟨t, r.method⟩) = r.opened)
      ∧ (registered p).map (·.method) = List.range c.collected.table.methods.length
      ∧ c.file.prototypes
        = C.linesOf ((registered p).map fun r => C.prototypeStep t r.method)
      ∧ c.file.definitions
        = C.linesOf (C.separated
            ((registered p).map fun r => C.definitionSteps t r.method r.decl.body))
      ∧ c.file.functionCount = c.collected.table.methods.length
      ∧ c.file.prototypes
        = (registered p).map (fun r => { depth := 0, text := C.signature t r.method ++ ";" })
      ∧ ∃ blocks, c.file.definitions = C.spaced blocks
        ∧ List.Forall₂ (fun r block => C.Defines (C.signature t r.method) block) (registered p)
          blocks := by
  intro c t
  have hu : t.declared = (collect p).table.declared := resolve_declared (collect p).table
  obtain ⟨hprototypes, hdefinitions, hcount⟩ := file_functions_registered p hu
  refine ⟨fun i hi => ?_, fun r hr => ?_, registered_methods p, hprototypes, hdefinitions, hcount,
    file_lines_registered p hu⟩
  · have hk := file_issues_kinds p hu i hi
    refine ⟨hk.ne_malformed, ?_⟩
    generalize i.kind = k at hk
    cases hk with
    | undeclared => exact Or.inl rfl
    | mismatch => exact Or.inr (Or.inl rfl)
    | arity => exact Or.inr (Or.inr (Or.inl rfl))
    | unresolved broken => exact Or.inr (Or.inr (Or.inr ⟨rfl, broken⟩))
  · obtain ⟨env, hf⟩ := follows_registered hr hu
    have hsymbol := methodAt_registered hr hu
    exact ⟨hsymbol.1, hsymbol.2, hf.enteredAll_eq⟩

end Heritage
