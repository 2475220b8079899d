import Heritage.Proofs.Collection
import Heritage.Proofs.Declared

/-!
# Where symbols come from

Collecting the symbols of a program makes nothing up: a class, method or
variable of the table has a name and a written type that the program declares
it with (`collect_drawnFrom`). Whatever was refused on the way is left out, and
resolving the table changes none of this (`DrawnFrom.of_declared`).
-/

namespace Heritage

/-! ## What a program declares -/

/-- **A variable as it is declared**: what it is, its name, and its written type. -/
structure VarDecl where
  kind : VarKind
  name : String
  type : Option Ident

/-- How a variable of a table was declared. -/
def VarSymbol.varDecl (v : VarSymbol) : VarDecl :=
  ⟨v.kind, v.name, v.typeName⟩

mutual
/-- The locals that a statement declares, those inside its blocks included. -/
def Stmt.varDecls : Stmt → List VarDecl
  | .declare type vars _ => vars.map fun v => ⟨.localVar, v.name.text, some type⟩
  | .ifThen _ body _ _ => varDeclsOf body
  | .ifElse _ body _ other _ _ => varDeclsOf body ++ varDeclsOf other
  | .loop _ body _ _ => varDeclsOf body
  | .ret .. => []
  | .assign .. => []
  | .eval .. => []
/-- The locals that a list of statements declares, those inside its blocks included. -/
def varDeclsOf : List Stmt → List VarDecl
  | [] => []
  | s :: rest => s.varDecls ++ varDeclsOf rest
end

/-- The explicit parameter that is declared, if it has a type. -/
def Param.varDecl? (q : Param) : Option VarDecl :=
  q.type.map fun type => ⟨.parameter, q.name.text, some type⟩

/-- The variables of a method: its receiver, its explicit parameters and its locals. -/
def MethodDecl.varDecls (m : MethodDecl) : List VarDecl :=
  (m.params.take 1).map (fun q => ⟨.receiver, q.name.text, none⟩)
    ++ m.params.tail.filterMap Param.varDecl? ++ varDeclsOf m.body

/-- The variables that a member declares. -/
def Member.varDecls : Member → List VarDecl
  | .field decl => decl.names.map fun name => ⟨.field, name.text, some decl.type⟩
  | .method decl => decl.varDecls

namespace Program

/-- The members of the classes of a program. -/
def members (p : Program) : List Member :=
  p.classes.flatMap ClassDecl.members

/-- The variables that a program declares. -/
def varDecls (p : Program) : List VarDecl :=
  p.members.flatMap Member.varDecls

end Program

open SymbolTable

/-- What every element keeps, the whole list keeps. -/
theorem Collected.each_keeps {α : Type} {f : α → SymbolTable → Collected} {I : SymbolTable → Prop}
    {xs : List α} (one : ∀ a ∈ xs, ∀ t, I t → I (f a t).table) {t : SymbolTable} (h : I t) :
    I (each f xs t).table := by
  induction xs generalizing t with
  | nil => exact h
  | cons a rest ih =>
    exact ih (fun b hb => one b (List.mem_cons_of_mem a hb)) (one a List.mem_cons_self t h)

namespace SymbolTable

/-! ## What a table holds -/

/-- **A table whose symbols a program declares.** -/
structure DrawnFrom (p : Program) (t : SymbolTable) : Prop where
  classes : ∀ c ∈ t.classes, ∃ d ∈ p.classes, c.name = d.name.text
  methods : ∀ m ∈ t.methods, ∃ decl, .method decl ∈ p.members
    ∧ m.name = decl.name.text ∧ m.returnTypeName = decl.returnType
  vars : ∀ v ∈ t.vars, v.varDecl ∈ p.varDecls

variable {p : Program} {t : SymbolTable}

/-- A table without symbols is drawn from any program. -/
theorem drawnFrom_empty (p : Program) : DrawnFrom p empty :=
  ⟨List.forall_mem_nil _, List.forall_mem_nil _, List.forall_mem_nil _⟩

namespace DrawnFrom

theorem addClass (h : DrawnFrom p t) {d : ClassDecl} (hd : d ∈ p.classes) (parents : List Ident)
    (index : Nat) (span : Span) : DrawnFrom p (t.addClass d.name.text parents index span) :=
  ⟨List.forall_mem_append.mpr ⟨h.classes, List.forall_mem_singleton.mpr ⟨d, hd, rfl⟩⟩,
    h.methods, h.vars⟩

/-- A method that is added is one that the program declares. -/
theorem addMethod (h : DrawnFrom p t) {decl : MethodDecl} (hdecl : .method decl ∈ p.members)
    (c : ClassId) (index : Nat) (span : Span) :
    DrawnFrom p (t.addMethod c decl.name.text decl.returnType index span) :=
  ⟨h.classes,
    List.forall_mem_append.mpr ⟨h.methods, List.forall_mem_singleton.mpr ⟨decl, hdecl, rfl, rfl⟩⟩,
    h.vars⟩

/-- A variable is added with its declaration, or refused. -/
theorem declareVar (h : DrawnFrom p t) {v : VarSymbol} (hv : v.varDecl ∈ p.varDecls) :
    DrawnFrom p (Collected.ofDeclare t (t.declareVar v)).table := by
  unfold SymbolTable.declareVar
  split
  · exact h
  · exact ⟨h.classes, h.methods,
      List.forall_mem_append.mpr ⟨h.vars, List.forall_mem_singleton.mpr hv⟩⟩

theorem openBlock (h : DrawnFrom p t) (s : ScopeId) : DrawnFrom p (t.openBlock s).2 :=
  ⟨h.classes, h.methods, h.vars⟩

mutual
/-- **A statement is collected by its own declarations**, those in its blocks among them. -/
theorem collectStmt (s : ScopeId) : (stmt : Stmt) → {t : SymbolTable} →
    stmt.varDecls ⊆ p.varDecls → DrawnFrom p t → DrawnFrom p (collectStmt s stmt t).table
  | .declare type vars _, _, hvars, h => by
    unfold SymbolTable.collectStmt
    unfold Stmt.varDecls at hvars
    exact Collected.each_keeps (fun v hv _ hu => hu.declareVar
      (v := localSymbol s v.name.text type v.name.span)
      (hvars (List.mem_map.mpr ⟨v, hv, rfl⟩))) h
  | .ifThen _ body _ _, _, hvars, h => by
    unfold SymbolTable.collectStmt
    unfold Stmt.varDecls at hvars
    exact collectStmts _ body hvars (h.openBlock s)
  | .ifElse _ body _ other _ _, _, hvars, h => by
    unfold SymbolTable.collectStmt
    unfold Stmt.varDecls at hvars
    obtain ⟨hbody, hother⟩ := List.append_subset.mp hvars
    exact collectStmts _ other hother ((collectStmts _ body hbody (h.openBlock s)).openBlock s)
  | .loop _ body _ _, _, hvars, h => by
    unfold SymbolTable.collectStmt
    unfold Stmt.varDecls at hvars
    exact collectStmts _ body hvars (h.openBlock s)
  | .ret _ _, _, _, h => h
  | .assign _ _ _, _, _, h => h
  | .eval _ _, _, _, h => h
theorem collectStmts (s : ScopeId) : (body : List Stmt) → {t : SymbolTable} →
    varDeclsOf body ⊆ p.varDecls → DrawnFrom p t → DrawnFrom p (collectStmts s body t).table
  | [], _, _, h => h
  | stmt :: rest, _, hvars, h => by
    unfold varDeclsOf at hvars
    obtain ⟨hstmt, hrest⟩ := List.append_subset.mp hvars
    exact collectStmts s rest hrest (collectStmt s stmt hstmt h)
end

/-- The receiver, the parameters and the body of a method are collected by its own declarations. -/
theorem collectMethodBody (h : DrawnFrom p t) (m : MethodId) {receiver : Param}
    {params : List Param} {decl : MethodDecl} (hparams : decl.params = receiver :: params)
    (hvars : decl.varDecls ⊆ p.varDecls) :
    DrawnFrom p (collectMethodBody m receiver params decl t).table := by
  unfold MethodDecl.varDecls at hvars
  rw [hparams] at hvars
  obtain ⟨hvars, hbody⟩ := List.append_subset.mp hvars
  obtain ⟨hreceiver, hparams⟩ := List.append_subset.mp hvars
  have hfirst := h.declareVar (v := receiverSymbol (t.methodAt m).scope receiver.name.text
    (t.methodAt m).owner receiver.span) (hreceiver List.mem_cons_self)
  refine DrawnFrom.collectStmts _ decl.body hbody
    (Collected.each_keeps (fun q hq u hu => ?_) hfirst)
  unfold collectParam
  split
  · exact hu
  · rename_i type htype
    refine hu.declareVar (v := paramSymbol (u.methodAt m).scope q.name.text type q.span)
      (hparams (List.mem_filterMap.mpr ⟨q, hq, ?_⟩))
    unfold Param.varDecl?
    rw [htype]
    rfl

/-- A method that is refused adds nothing. -/
theorem collectMethod (h : DrawnFrom p t) (c : ClassId) (index : Nat) {decl : MethodDecl}
    (hdecl : .method decl ∈ p.members) : DrawnFrom p (collectMethod c index decl t).table := by
  have hvars : decl.varDecls ⊆ p.varDecls :=
    fun v hv => List.mem_flatMap.mpr ⟨.method decl, hdecl, hv⟩
  unfold SymbolTable.collectMethod
  split
  · exact h
  · rename_i receiver params hparams
    split
    · exact h
    · split
      · rename_i m t' hok
        obtain ⟨-, -, rfl⟩ := declareMethod_eq_ok hok
        exact (h.addMethod hdecl c index decl.name.span).collectMethodBody m hparams hvars
      · exact h

theorem collectMember (h : DrawnFrom p t) (c : ClassId) {m : Member × Nat}
    (hm : m.1 ∈ p.members) : DrawnFrom p (collectMember c m t).table := by
  obtain ⟨member, index⟩ := m
  cases member with
  | field decl =>
    refine Collected.each_keeps (fun name hname u hu => ?_) h
    unfold declareField
    split
    · exact hu
    · exact hu.declareVar (v := fieldSymbol (u.classAt c).scope name.text decl.type name.span)
        (List.mem_flatMap.mpr ⟨.field decl, hm, List.mem_map.mpr ⟨name, hname, rfl⟩⟩)
  | method decl => exact h.collectMethod c index hm

theorem collectClass (h : DrawnFrom p t) {d : ClassDecl × Nat} (hd : d.1 ∈ p.classes) :
    DrawnFrom p (collectClass d t).table := by
  unfold SymbolTable.collectClass
  split
  · rename_i c t' hok
    obtain ⟨-, -, rfl⟩ := declareClass_eq_ok hok
    refine Collected.each_keeps (fun m hm u hu => hu.collectMember _ ?_)
      (h.addClass hd d.1.parents d.2 d.1.name.span)
    exact List.mem_flatMap.mpr ⟨d.1, hd, List.fst_mem_of_mem_zipIdx hm⟩
  · exact h

end DrawnFrom

/-- **The symbols of a program are those that it declares.** -/
theorem collect_drawnFrom (p : Program) : DrawnFrom p (collect p).table :=
  Collected.each_keeps (fun _ hd _ hu => hu.collectClass (List.fst_mem_of_mem_zipIdx hd))
    (drawnFrom_empty p)

theorem drawnFrom_declared : DrawnFrom p t.declared ↔ DrawnFrom p t := by
  constructor
  · intro h
    exact ⟨fun c hc => h.classes c.declared (List.mem_map_of_mem hc),
      fun m hm => h.methods m.declared (List.mem_map_of_mem hm),
      fun v hv => h.vars v.declared (List.mem_map_of_mem hv)⟩
  · intro h
    exact ⟨List.forall_mem_map.mpr h.classes, List.forall_mem_map.mpr h.methods,
      List.forall_mem_map.mpr h.vars⟩

/-- **Resolution makes nothing up either**: it leaves what is declared as it is. -/
theorem DrawnFrom.of_declared {u : SymbolTable} (h : DrawnFrom p t)
    (hu : u.declared = t.declared) : DrawnFrom p u :=
  drawnFrom_declared.mp (hu ▸ drawnFrom_declared.mpr h)

end SymbolTable

end Heritage
