import Heritage.Proofs.Registry
import Heritage.Proofs.Reporting
import Heritage.Reporting.Collect

/-!
# Collecting into a registry is collecting into a table

A registry is filled with the report at hand, and a table is built with its issues beside it. They
come to the same: the registry is that of the table, and what is reported are the issues of the
table, whatever was reported before.
-/

namespace Heritage

open Reporting (Finds)

variable {t : SymbolTable}

/-- **A walk that fills the registry of a table** as a walk over the table fills the table, and
that reports what the other one finds. -/
def Collects (x : Collecting Unit) (t : SymbolTable) (c : Collected) : Prop :=
  Finds (x.run t.registry) ((), c.table.registry) c.issues

namespace Collects

theorem nothing (t : SymbolTable) : Collects (pure ()) t { table := t } :=
  Finds.pure _

theorem report (t : SymbolTable) (i : Issue) :
    Collects (Reporting.report i) t { table := t, issues := [i] } :=
  (Finds.report i).run_lift _

theorem andThen {x y : Collecting Unit} {c : Collected} {f : SymbolTable → Collected}
    (hx : Collects x t c) (hy : Collects y c.table (f c.table)) :
    Collects (x >>= fun _ => y) t (c.andThen f) :=
  hx.run_bind hy

theorem finds_request {f : Registry → Except Issue Nat × Registry}
    {d : Except Issue (Nat × SymbolTable)} (hf : f t.registry = t.answered d) :
    Finds ((Collecting.request f).run t.registry) (t.answered d) [] :=
  hf ▸ Finds.pure _

theorem finds_declare_ok {f : Registry → Except Issue Nat × Registry} {i : Nat}
    {t' : SymbolTable} (hf : f t.registry = t.answered (.ok (i, t'))) :
    Finds ((Collecting.declare f).run t.registry) (some i, t'.registry) [] :=
  (finds_request hf).run_after ((Finds.record_ok i).run_lift _)

/-- The first class of a registry is never refused. -/
theorem finds_declare_first (name : String) (parents : List Ident) (index : Nat) (span : Span) :
    Finds ((Collecting.declare (·.declareClass name parents index span)).run Registry.empty)
      (some 0, (SymbolTable.empty.addClass name parents index span).registry) [] :=
  finds_declare_ok (t := SymbolTable.empty)
    (SymbolTable.declareClass_registry SymbolTable.formed_empty name parents index span)

/-- A declaration that the table refuses is reported, and one that it accepts is in the
registry. -/
theorem finds_declare {f : Registry → Except Issue Nat × Registry}
    {d : Except Issue (Nat × SymbolTable)} (hf : f t.registry = t.answered d) :
    ∃ id?, Finds ((Collecting.declare f).run t.registry)
      (id?, (Collected.ofDeclare t d).table.registry) (Collected.ofDeclare t d).issues := by
  cases d with
  | ok d => exact ⟨some d.1, finds_declare_ok hf⟩
  | error i => exact ⟨none, (finds_request hf).run_after ((Finds.record_error i).run_lift _)⟩

theorem declare {f : Registry → Except Issue Nat × Registry}
    {d : Except Issue (Nat × SymbolTable)} (hf : f t.registry = t.answered d) :
    Collects (Collecting.declare f >>= fun _ => pure ()) t (Collected.ofDeclare t d) := by
  obtain ⟨_, hdeclare⟩ := finds_declare hf
  exact hdeclare.run_andThen (Finds.pure _)

theorem declare_andThen {f : Registry → Except Issue Nat × Registry} {y : Collecting Unit}
    {d : Except Issue (Nat × SymbolTable)} {g : SymbolTable → Collected}
    (hf : f t.registry = t.answered d)
    (hy : Collects y (Collected.ofDeclare t d).table (g (Collected.ofDeclare t d).table)) :
    Collects (Collecting.declare f >>= fun _ => y) t ((Collected.ofDeclare t d).andThen g) := by
  obtain ⟨_, hdeclare⟩ := finds_declare hf
  exact hdeclare.run_bind hy

/-- What was filled in a registry of its own is thrown away, and what was found is reported. -/
theorem detached {x : Collecting Unit} {c : Collected} (hx : Collects x SymbolTable.empty c) :
    Collects (Collecting.detached x) t { table := t, issues := c.issues } := by
  have hrun : Finds (x.run Registry.empty) ((), c.table.registry) c.issues := hx
  exact (hrun.run_lift t.registry).run_andThen (Finds.pure _)

/-- A walk along a list, as long as the table stays one that the steps are for. -/
theorem each {α : Type} {f : α → Collecting Unit} {g : α → SymbolTable → Collected}
    (I : SymbolTable → Prop) (step : ∀ a u, I u → Collects (f a) u (g a u) ∧ I (g a u).table)
    (xs : List α) (h : I t) : Collects (xs.forM f) t (Collected.each g xs t) := by
  induction xs generalizing t with
  | nil => exact nothing t
  | cons a rest ih => exact (step a t h).1.andThen (ih (step a t h).2)

/-- A block that is opened, and what stands in it. -/
theorem block {scope : ScopeId} {x : ScopeId → Collecting Unit} {c : Collected} (hf : t.Formed)
    (hscope : scope < t.scopes.length)
    (hx : Collects (x (t.openBlock scope).1) (t.openBlock scope).2 c) :
    Collects (Collecting.openBlock scope >>= x) t c := by
  have hopen : Finds ((Collecting.openBlock scope).run t.registry)
      ((t.openBlock scope).1, (t.openBlock scope).2.registry) [] :=
    SymbolTable.openBlock_registry hf hscope ▸ Finds.pure _
  exact hopen.run_after hx

end Collects

namespace Collecting

open SymbolTable (BodyScope Formed HasClass HasMethod)

/-! ## Bodies -/

mutual
theorem collects_stmt (s : ScopeId) : (stmt : Stmt) → (t : SymbolTable) → Formed t →
    BodyScope t s → Collects (collectStmt s stmt) t (SymbolTable.collectStmt s stmt t)
  | .declare type vars _, t, hf, hs => by
    unfold collectStmt SymbolTable.collectStmt
    refine Collects.each (fun u => Formed u ∧ BodyScope u s) (fun v u hu => ⟨?_, ?_⟩) vars ⟨hf, hs⟩
    · exact Collects.declare (SymbolTable.declareLocal_registry hu.1 hu.2.1 _ _ _)
    · have hgrows := SymbolTable.declareVar_grows
        (SymbolTable.localSymbol s v.name.text type v.name.span) hu.2.1 hu.2.2
        fun _ htype => nomatch htype
      exact ⟨hu.1.grows hgrows, hu.2.grows hgrows⟩
  | .ifThen _ body _ _, t, hf, hs => by
    unfold collectStmt SymbolTable.collectStmt
    exact Collects.block hf hs.1 (collects_block s body t hf hs)
  | .ifElse _ body _ other _ _, t, hf, hs => by
    unfold collectStmt SymbolTable.collectStmt
    have hbody := collects_block s body t hf hs
    have hgrows := SymbolTable.openBlock_trans hs
      (SymbolTable.collectStmts_grows _ body _ (SymbolTable.bodyScope_openBlock t s))
    have hf' := hf.grows hgrows
    have hs' := hs.grows hgrows
    exact Collects.block hf hs.1
      (hbody.andThen (Collects.block hf' hs'.1 (collects_block s other _ hf' hs')))
  | .loop _ body _ _, t, hf, hs => by
    unfold collectStmt SymbolTable.collectStmt
    exact Collects.block hf hs.1 (collects_block s body t hf hs)
  | .ret _ _, t, _, _ => Collects.nothing t
  | .assign _ _ _, t, _, _ => Collects.nothing t
  | .eval _ _, t, _, _ => Collects.nothing t
/-- What stands in a block that was opened a moment ago. -/
theorem collects_block (s : ScopeId) (body : List Stmt) (t : SymbolTable) (hf : Formed t)
    (hs : BodyScope t s) : Collects (collectStmts (t.openBlock s).1 body) (t.openBlock s).2
      (SymbolTable.collectStmts (t.openBlock s).1 body (t.openBlock s).2) :=
  collects_stmts _ body _ (hf.grows (SymbolTable.openBlock_grows hs))
    (SymbolTable.bodyScope_openBlock t s)
theorem collects_stmts (s : ScopeId) : (body : List Stmt) → (t : SymbolTable) → Formed t →
    BodyScope t s → Collects (collectStmts s body) t (SymbolTable.collectStmts s body t)
  | [], t, _, _ => Collects.nothing t
  | stmt :: rest, t, hf, hs => by
    have hgrows := SymbolTable.collectStmt_grows s stmt t hs
    exact (collects_stmt s stmt t hf hs).andThen
      (collects_stmts s rest _ (hf.grows hgrows) (hs.grows hgrows))
end

/-! ## Members -/

theorem collects_param {m : MethodId} (h : HasMethod t m) (methodName : String) (p : Param) :
    Collects (collectParam m methodName p) t (SymbolTable.collectParam m methodName p t) := by
  unfold collectParam SymbolTable.collectParam
  cases p.type with
  | none => exact Collects.report t _
  | some type => exact Collects.declare (SymbolTable.declareParam_registry h.1 h.2 _ _ _)

theorem collects_methodBody {m : MethodId} (h : HasMethod t m) (receiver : Param)
    (params : List Param) (decl : MethodDecl) :
    Collects (collectMethodBody m receiver params decl) t
      (SymbolTable.collectMethodBody m receiver params decl t) := by
  have hreceiver := SymbolTable.declareReceiver_registry h.1 h.2 receiver.name.text receiver.span
  have h' := h.grows (SymbolTable.declareReceiver_grows h receiver.name.text receiver.span)
  have hparams := Collects.each (HasMethod · m)
    (fun p u hu => ⟨collects_param hu decl.name.text p,
      hu.grows (SymbolTable.collectParam_grows hu decl.name.text p)⟩) params h'
  have h'' := h.grows (SymbolTable.withParams_grows h receiver params decl)
  have hbody := collects_stmts _ decl.body _ h''.1 h''.bodyScope
  refine Collects.declare_andThen hreceiver (hparams.andThen ?_)
  refine Finds.run_after (Finds.pure _) ?_
  rw [SymbolTable.registry_methodAt_symbol]
  exact hbody

/-- A method on its own is collected as the only one of a copy of its class: neither can be
refused. -/
theorem collects_detachedMethod (cls : ClassSymbol) (index : Nat) (receiver : Param)
    (params : List Param) (decl : MethodDecl) :
    Collects (collectDetachedMethod cls index receiver params decl) t
      { table := t
        issues := SymbolTable.detachedMethodIssues cls index receiver params decl } := by
  have hcls : HasClass (SymbolTable.empty.addClass cls.name [] 0 cls.span) 0 :=
    SymbolTable.hasClass_addClass SymbolTable.formed_empty [] 0 cls.span rfl
  have hmethod : HasMethod ((SymbolTable.empty.addClass cls.name [] 0 cls.span).addMethod 0
      decl.name.text decl.returnType index decl.name.span) 0 :=
    SymbolTable.hasMethod_addMethod hcls decl.returnType index decl.name.span rfl
  refine Collects.detached ((Collects.finds_declare_first cls.name [] 0 cls.span).run_after ?_)
  refine Finds.run_after (Collects.finds_declare_ok (SymbolTable.declareMethod_registry hcls.1
    hcls.2 decl.name.text decl.returnType index decl.name.span)) ?_
  exact collects_methodBody hmethod receiver params decl

theorem collects_method {c : ClassId} (h : HasClass t c) (index : Nat) (decl : MethodDecl) :
    Collects (collectMethod c index decl) t (SymbolTable.collectMethod c index decl t) := by
  unfold collectMethod SymbolTable.collectMethod
  cases decl.params with
  | nil => exact Collects.report t _
  | cons receiver params =>
    dsimp only
    split
    · exact Collects.report t _
    · refine Finds.run_after (Collects.finds_request (SymbolTable.declareMethod_registry h.1 h.2
        decl.name.text decl.returnType index decl.name.span)) ?_
      cases hdeclare : t.declareMethod c decl.name.text decl.returnType index decl.name.span with
      | ok d =>
        obtain ⟨hfree, hid, htable⟩ := SymbolTable.declareMethod_eq_ok hdeclare
        have hmethod := SymbolTable.hasMethod_addMethod h decl.returnType index decl.name.span hfree
        rw [← hid, ← htable] at hmethod
        exact collects_methodBody hmethod receiver params decl
      | error i =>
        refine (Collects.report t i).run_bind (Finds.run_after (Finds.pure _) ?_)
        rw [SymbolTable.registry_classAt_symbol]
        exact collects_detachedMethod (t.classAt c) index receiver params decl

theorem collects_member {c : ClassId} (h : HasClass t c) (m : Member × Nat) :
    Collects (collectMember c m) t (SymbolTable.collectMember c m t) := by
  match m with
  | (.field decl, _) =>
    refine Collects.each (HasClass · c) (fun name u hu => ⟨?_, ?_⟩) decl.names h
    · exact Collects.declare (SymbolTable.declareField_registry hu.1 hu.2 _ _ _)
    · exact hu.grows (SymbolTable.declareField_grows hu.1 hu.2 name.text decl.type name.span)
  | (.method decl, index) => exact collects_method h index decl

/-! ## Classes -/

theorem collects_members {c : ClassId} (h : HasClass t c) (decl : ClassDecl) :
    Collects (collectMembers c decl) t (SymbolTable.collectMembers c decl t) :=
  Collects.each (HasClass · c)
    (fun m _ hu => ⟨collects_member hu m, hu.grows (SymbolTable.collectMember_grows hu m)⟩)
    decl.members.zipIdx h

theorem collects_detachedClass (d : ClassDecl × Nat) :
    Collects (collectDetachedClass d) t
      { table := t, issues := SymbolTable.detachedClassIssues d.1 d.2 } := by
  have hcls : HasClass (SymbolTable.empty.addClass d.1.name.text d.1.parents d.2 d.1.name.span) 0 :=
    SymbolTable.hasClass_addClass SymbolTable.formed_empty d.1.parents d.2 d.1.name.span rfl
  have hfirst := Collects.finds_declare_first d.1.name.text d.1.parents d.2 d.1.name.span
  exact Collects.detached (hfirst.run_after (collects_members hcls d.1))

theorem collects_class (h : Formed t) (d : ClassDecl × Nat) :
    Collects (collectClass d) t (SymbolTable.collectClass d t) := by
  unfold collectClass SymbolTable.collectClass
  refine Finds.run_after (Collects.finds_request (SymbolTable.declareClass_registry h
    d.1.name.text d.1.parents d.2 d.1.name.span)) ?_
  cases hdeclare : t.declareClass d.1.name.text d.1.parents d.2 d.1.name.span with
  | ok c =>
    obtain ⟨hfree, hid, htable⟩ := SymbolTable.declareClass_eq_ok hdeclare
    have hcls := SymbolTable.hasClass_addClass h d.1.parents d.2 d.1.name.span hfree
    rw [← hid, ← htable] at hcls
    exact collects_members hcls d.1
  | error i => exact (Collects.report t i).run_bind (collects_detachedClass d)

end Collecting

open Collecting in
/-- **Collecting the symbols of a program into a registry** gives the registry of its table, and
reports what is wrong with the declarations of the program. -/
theorem Registry.finds_ofProgram (p : Program) :
    Finds (Registry.ofProgram p) (SymbolTable.collect p).table.registry
      (SymbolTable.collect p).issues := by
  have hclasses : Collects (p.classes.zipIdx.forM collectClass) SymbolTable.empty
      (SymbolTable.collect p) :=
    Collects.each SymbolTable.Formed
      (fun d _ hu => ⟨collects_class hu d, hu.grows (SymbolTable.collectClass_grows hu d)⟩)
      p.classes.zipIdx SymbolTable.formed_empty
  exact Finds.andThen hclasses (Finds.pure _)

end Heritage
