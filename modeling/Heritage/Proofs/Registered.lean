import Heritage.Proofs.ScopeTree

/-!
# The methods that were registered

Not every method of a program gets into the table: one without a proper
receiver, one whose name is taken, one of a class whose name is taken is
checked and left out. `registered` lists the ones that do, in order, each with
its declaration and with the scopes that were opened for the blocks of its
body. It is the walk of the collection with what it registers kept.

`Visit` is what is known of a registered method at the end: the point of the
walk at which it was collected, and that what came after did not touch it.
-/

namespace Heritage

open SymbolTable

namespace Collected

/-- What a walk through a list sees, element by element. -/
def trace {α β : Type} (f : α → SymbolTable → Collected) (g : α → SymbolTable → List β) :
    List α → SymbolTable → List β
  | [], _ => []
  | a :: rest, t => g a t ++ trace f g rest (f a t).table

theorem andThen_assoc (c : Collected) (f g : SymbolTable → Collected) :
    (c.andThen f).andThen g = c.andThen fun t => (f t).andThen g := by
  unfold andThen
  exact congrArg _ (List.append_assoc _ _ _)

theorem each_append {α : Type} (f : α → SymbolTable → Collected) (xs ys : List α)
    (t : SymbolTable) : each f (xs ++ ys) t = (each f xs t).andThen (each f ys) := by
  induction xs generalizing t with
  | nil => rfl
  | cons a rest ih =>
    show (f a t).andThen (each f (rest ++ ys)) = ((f a t).andThen (each f rest)).andThen _
    rw [andThen_assoc]
    exact congrArg _ (funext ih)

theorem trace_append {α β : Type} (f : α → SymbolTable → Collected)
    (g : α → SymbolTable → List β) (xs ys : List α) (t : SymbolTable) :
    trace f g (xs ++ ys) t = trace f g xs t ++ trace f g ys (each f xs t).table := by
  induction xs generalizing t with
  | nil => rfl
  | cons a rest ih =>
    show g a t ++ trace f g (rest ++ ys) (f a t).table = _
    rw [ih, ← List.append_assoc]
    rfl

/-- What was seen was seen at an element, in the table that the elements before
it led to. -/
theorem mem_trace {α β : Type} {f : α → SymbolTable → Collected}
    {g : α → SymbolTable → List β} {xs : List α} {t : SymbolTable} {b : β}
    (h : b ∈ trace f g xs t) :
    ∃ before a behind, xs = before ++ a :: behind ∧ b ∈ g a (each f before t).table := by
  induction xs generalizing t with
  | nil => cases h
  | cons a rest ih =>
    rcases List.mem_append.mp h with h | h
    · exact ⟨[], a, rest, rfl, h⟩
    · obtain ⟨before, a', behind, rfl, hb⟩ := ih h
      exact ⟨a :: before, a', behind, rfl, hb⟩

end Collected

/-- **A method that was registered.** -/
structure Registered where
  /-- Its position in the table. -/
  method : MethodId
  /-- Its declaration. -/
  decl : MethodDecl
  /-- The blocks of its body with the scopes opened for them, in order. -/
  opened : List BlockScope

namespace SymbolTable

/-- The blocks of the body of a method with the scopes opened for them. -/
def bodyOpened (method : MethodId) (receiver : Param) (params : List Param) (decl : MethodDecl)
    (t : SymbolTable) : List BlockScope :=
  let t := withParams method receiver params decl t
  openedStmts (t.methodAt method).scope decl.body t

/-- What a method registers. -/
def registeredMethod (cls : ClassId) (index : Nat) (decl : MethodDecl) (t : SymbolTable) :
    List Registered :=
  match decl.params with
  | [] => []
  | receiver :: params =>
    if receiver.type.isSome then []
    else
      match t.declareMethod cls decl.name.text decl.returnType index decl.name.span with
      | .ok (method, t) => [⟨method, decl, bodyOpened method receiver params decl t⟩]
      | .error _ => []

/-- What a member registers. -/
def registeredMember (cls : ClassId) (m : Member × Nat) (t : SymbolTable) : List Registered :=
  match m with
  | (.field _, _) => []
  | (.method decl, index) => registeredMethod cls index decl t

/-- What a class registers. -/
def registeredClass (d : ClassDecl × Nat) (t : SymbolTable) : List Registered :=
  match t.declareClass d.1.name.text d.1.parents d.2 d.1.name.span with
  | .ok (cls, t) => Collected.trace (collectMember cls) (registeredMember cls) d.1.members.zipIdx t
  | .error _ => []

/-- **The methods that a program registers**, in order. -/
def registered (p : Program) : List Registered :=
  Collected.trace collectClass registeredClass p.classes.zipIdx empty

variable {A : ScopeId → Prop} {t t' : SymbolTable}

/-! ## The methods of a class -/

/-- Away from the scope of the program, no class is added. -/
theorem Grows.classes_eq (h : Grows A t t') (hf : Formed t) (hA : ¬ A rootScope) :
    t'.classes = t.classes := by
  refine h.keeps (·.classes = t.classes) (fun u u' ih hst => ?_) rfl
  cases hst with
  | cls _ _ _ _ _ attached =>
    exact absurd hf.scopes_pos (attached.elim (absurd · hA) Nat.not_lt.mpr)
  | method => exact ih
  | var => exact ih
  | block => exact ih

/-- **The methods of a finished class stay the same.** -/
theorem Grows.methodsOf_eq (h : Grows A t t') (hf : Formed t) {c : ClassId}
    (hc : c < t.classes.length) (hA : ¬ A (t.classAt c).scope) :
    t'.methodsOf c = t.methodsOf c := by
  have hlt := hf.classAt_scope_lt hc
  refine (h.keeps (fun u => t.classes <+: u.classes ∧ u.methodsOf c = t.methodsOf c)
    (fun u u' ih hst => ⟨ih.1.trans hst.classes_isPrefix, ?_⟩) ⟨List.prefix_rfl, rfl⟩).2
  cases hst with
  | cls => exact ih.2
  | method owner _ _ _ _ _ _ _ attached =>
    have hat : u.classAt c = t.classAt c := getD_of_isPrefix ih.1 hc _
    have hne : owner ≠ c := by
      rintro rfl
      rw [hat] at attached
      exact attached.elim hA (Nat.not_le.mpr hlt)
    refine Eq.trans ?_ ih.2
    show positions _ (u.methods ++ [_]) = _
    rw [positions_concat, beq_eq_false_iff_ne.mpr hne]
    exact List.append_nil _
  | var => exact ih.2
  | block => exact ih.2

theorem methodsOf_addMethod (t : SymbolTable) (c : ClassId) (name : String)
    (returnType : Option Ident) (index : Nat) (span : Span) :
    (t.addMethod c name returnType index span).methodsOf c
      = t.methodsOf c ++ [t.methods.length] := by
  show positions _ (t.methods ++ [_]) = _
  rw [positions_concat, beq_self_eq_true]
  rfl

/-- A class that was just added has no methods. -/
theorem methodsOf_addClass (h : Formed t) (name : String) (parents : List Ident) (index : Nat)
    (span : Span) : (t.addClass name parents index span).methodsOf t.classes.length = [] := by
  refine positions_eq_nil (fun m hm => ?_)
  rw [beq_eq_false_iff_ne]
  exact Nat.ne_of_lt (h.method_owner m hm)

/-- The scope of a method that was just added is not that of its class. -/
theorem classAt_scope_ne (h : Formed t) {c : ClassId} (hc : c < t.classes.length) :
    (t.classAt c).scope ≠ t.scopes.length :=
  Nat.ne_of_lt (h.classAt_scope_lt hc)

/-- The three ways in which a method is collected: it has no proper receiver, its
name is taken, or it is registered. -/
theorem collectMethod_cases (c : ClassId) (index : Nat) (decl : MethodDecl) (t : SymbolTable) :
    ((collectMethod c index decl t).table = t ∧ registeredMethod c index decl t = []
        ∧ (collectMethod c index decl t).issues ≠ [])
      ∨ ∃ receiver params, decl.params = receiver :: params ∧ receiver.type = none
        ∧ t.memberSpan? c decl.name.text = none
        ∧ collectMethod c index decl t
          = collectMethodBody t.methods.length receiver params decl
            (t.addMethod c decl.name.text decl.returnType index decl.name.span)
        ∧ registeredMethod c index decl t
          = [⟨t.methods.length, decl,
              bodyOpened t.methods.length receiver params decl
                (t.addMethod c decl.name.text decl.returnType index decl.name.span)⟩] := by
  unfold collectMethod registeredMethod
  cases hp : decl.params with
  | nil => exact Or.inl ⟨rfl, rfl, List.cons_ne_nil _ _⟩
  | cons receiver params =>
    by_cases htype : receiver.type.isSome = true
    · refine Or.inl ?_
      dsimp only
      rw [if_pos htype, if_pos htype]
      exact ⟨rfl, rfl, List.cons_ne_nil _ _⟩
    · dsimp only
      rw [if_neg htype, if_neg htype]
      unfold declareMethod
      cases hfree : t.memberSpan? c decl.name.text with
      | some first => exact Or.inl ⟨rfl, rfl, List.cons_ne_nil _ _⟩
      | none =>
        refine Or.inr ⟨receiver, params, rfl, ?_, rfl, rfl, rfl⟩
        rwa [Option.not_isSome_iff_eq_none] at htype

theorem collectMethod_methodsOf {c : ClassId} (h : HasClass t c) (index : Nat)
    (decl : MethodDecl) :
    (collectMethod c index decl t).table.methodsOf c
      = t.methodsOf c ++ (registeredMethod c index decl t).map (·.method) := by
  rcases collectMethod_cases c index decl t with ⟨htable, hreg, -⟩ | ⟨r, ps, -, -, hfree, hc, hreg⟩
  · rw [htable, hreg]
    exact (List.append_nil _).symm
  · have hm := hasMethod_addMethod h decl.returnType index decl.name.span hfree
    have body := collectMethodBody_grows hm r ps decl
    rw [methodAt_addMethod] at body
    rw [hc, hreg, body.methodsOf_eq hm.1 h.2 (classAt_scope_ne h.1 h.2), methodsOf_addMethod]
    rfl

theorem collectField_methods {c : ClassId} (decl : FieldDecl) :
    (collectField c decl t).table.methods = t.methods := by
  unfold collectField
  induction decl.names generalizing t with
  | nil => rfl
  | cons name rest ih =>
    unfold Collected.each
    rw [Collected.andThen_table, ih]
    unfold declareField declareVar
    split
    · rfl
    · split
      · rfl
      · rfl

theorem collectField_methodsOf {c : ClassId} (decl : FieldDecl) :
    (collectField c decl t).table.methodsOf c = t.methodsOf c := by
  unfold methodsOf
  rw [collectField_methods]

theorem collectMember_methodsOf {c : ClassId} (h : HasClass t c) (m : Member × Nat) :
    (collectMember c m t).table.methodsOf c
      = t.methodsOf c ++ (registeredMember c m t).map (·.method) := by
  unfold collectMember registeredMember
  split
  · rw [collectField_methodsOf]
    exact (List.append_nil _).symm
  · exact collectMethod_methodsOf h _ _

theorem each_member_methodsOf {c : ClassId} (ms : List (Member × Nat)) (h : HasClass t c) :
    (Collected.each (collectMember c) ms t).table.methodsOf c
      = t.methodsOf c
        ++ (Collected.trace (collectMember c) (registeredMember c) ms t).map (·.method) := by
  induction ms generalizing t with
  | nil => exact (List.append_nil _).symm
  | cons m rest ih =>
    unfold Collected.each Collected.trace
    rw [Collected.andThen_table, ih (h.grows (collectMember_grows h m)),
      collectMember_methodsOf h m, List.map_append, List.append_assoc]

/-- The two ways in which a class is collected: its name is taken, or it is
declared and its members are collected. -/
theorem collectClass_cases (d : ClassDecl × Nat) (t : SymbolTable) :
    ((collectClass d t).table = t ∧ registeredClass d t = [] ∧ (collectClass d t).issues ≠ [])
      ∨ t.lookupClass d.1.name.text = none
        ∧ collectClass d t = collectMembers t.classes.length d.1
          (t.addClass d.1.name.text d.1.parents d.2 d.1.name.span)
        ∧ registeredClass d t
          = Collected.trace (collectMember t.classes.length) (registeredMember t.classes.length)
            d.1.members.zipIdx (t.addClass d.1.name.text d.1.parents d.2 d.1.name.span) := by
  unfold collectClass registeredClass declareClass
  cases hfree : t.lookupClass d.1.name.text with
  | some c => exact Or.inl ⟨rfl, rfl, List.cons_ne_nil _ _⟩
  | none => exact Or.inr ⟨rfl, rfl, rfl⟩

/-- The members of a class that was just declared add no class. -/
theorem collectMembers_classes (h : Formed t) {decl : ClassDecl} (index : Nat)
    (hfree : t.lookupClass decl.name.text = none) :
    (collectMembers t.classes.length decl
        (t.addClass decl.name.text decl.parents index decl.name.span)).table.classes
      = (t.addClass decl.name.text decl.parents index decl.name.span).classes := by
  have hc := hasClass_addClass h decl.parents index decl.name.span hfree
  refine (collectMembers_grows hc decl).classes_eq hc.1 ?_
  rw [classAt_addClass]
  exact Nat.ne_of_lt h.scopes_pos

/-- The class that a declaration at a position of the program adds to a table. -/
def classSymbol (d : ClassDecl × Nat) (scope : ScopeId) : ClassSymbol where
  name := d.1.name.text
  parents := d.1.parents
  scope := scope
  declIndex := d.2
  span := d.1.name.span

theorem collectClass_classes (h : Formed t) (d : ClassDecl × Nat)
    (hfree : t.lookupClass d.1.name.text = none) :
    (collectClass d t).table.classes = t.classes ++ [classSymbol d t.scopes.length] := by
  unfold collectClass declareClass
  rw [hfree]
  exact collectMembers_classes h d.2 hfree

/-- **Every class of the table was declared in the program**, at the position
that it names. -/
theorem each_class_declared (ds : List (ClassDecl × Nat)) (h : Formed t)
    {k : ClassSymbol} (hk : k ∈ (Collected.each collectClass ds t).table.classes) :
    k ∈ t.classes ∨ ∃ d ∈ ds, k = classSymbol d k.scope := by
  induction ds generalizing t with
  | nil => exact Or.inl hk
  | cons d rest ih =>
    unfold Collected.each at hk
    rw [Collected.andThen_table] at hk
    rcases ih (h.grows (collectClass_grows h d)) hk with hk | ⟨d', hd', hk⟩
    · cases hfree : t.lookupClass d.1.name.text with
      | some c =>
        unfold collectClass declareClass at hk
        rw [hfree] at hk
        exact Or.inl hk
      | none =>
        rw [collectClass_classes h d hfree] at hk
        rcases List.mem_append.mp hk with hk | hk
        · exact Or.inl hk
        · obtain rfl := List.mem_singleton.mp hk
          exact Or.inr ⟨d, List.mem_cons_self, rfl⟩
    · exact Or.inr ⟨d', List.mem_cons_of_mem d hd', hk⟩

theorem class_declared (p : Program) {k : ClassSymbol} (hk : k ∈ (collect p).table.classes) :
    ∃ decl, p.classes[k.declIndex]? = some decl ∧ k = classSymbol (decl, k.declIndex) k.scope := by
  rcases each_class_declared p.classes.zipIdx formed_empty hk with hk | ⟨d, hd, hk⟩
  · cases hk
  · have hindex := congrArg ClassSymbol.declIndex hk
    refine ⟨d.1, ?_, ?_⟩
    · rw [hindex]
      exact List.mk_mem_zipIdx_iff_getElem?.mp hd
    · rw [hindex]
      exact hk

/-! ## All methods -/

/-- **The methods of the classes of a program are the registered ones**, class
by class. -/
theorem each_class_methodsOf {T : SymbolTable} (ds : List (ClassDecl × Nat)) (h : Formed t)
    (hg : Grows (· = rootScope) (Collected.each collectClass ds t).table T) :
    ∃ k, (Collected.each collectClass ds t).table.classes.length = t.classes.length + k
      ∧ (List.range' t.classes.length k).flatMap T.methodsOf
        = (Collected.trace collectClass registeredClass ds t).map (·.method) := by
  induction ds generalizing t with
  | nil => exact ⟨0, rfl, rfl⟩
  | cons d rest ih =>
    unfold Collected.each Collected.trace
    unfold Collected.each at hg
    rw [Collected.andThen_table] at hg ⊢
    have first := collectClass_grows h d
    obtain ⟨k, hk, hmap⟩ := ih (h.grows first) hg
    have later := (each_class_grows rest (h.grows first)).trans hg (fun _ => Or.inl)
    rcases collectClass_cases d t with ⟨htable, hreg, -⟩ | ⟨hfree, hc, hreg⟩
    · rw [htable] at hk hmap ⊢
      rw [hreg]
      exact ⟨k, hk, hmap⟩
    · have hcls := hasClass_addClass h d.1.parents d.2 d.1.name.span hfree
      have members := collectMembers_grows hcls d.1
      have hclasses := collectMembers_classes h d.2 hfree
      have hlen : (collectClass d t).table.classes.length = t.classes.length + 1 := by
        rw [hc, hclasses]
        exact List.length_append
      have hscope : ((collectClass d t).table.classAt t.classes.length).scope ≠ rootScope := by
        rw [hc, members.classAt_eq hcls.2, classAt_addClass]
        exact Nat.ne_of_gt h.scopes_pos
      have hown : T.methodsOf t.classes.length = (registeredClass d t).map (·.method) := by
        rw [later.methodsOf_eq (h.grows first) (hlen ▸ Nat.lt_succ_self _) hscope, hc, hreg]
        refine (each_member_methodsOf _ hcls).trans ?_
        rw [methodsOf_addClass h, List.nil_append]
      refine ⟨k + 1, ?_, ?_⟩
      · rw [hk, hlen, Nat.add_assoc, Nat.add_comm 1]
      · rw [List.range'_succ, List.flatMap_cons, hown, List.map_append, ← hmap, hlen]

theorem methodsOf_registered (p : Program) :
    (collect p).table.classIds.flatMap (collect p).table.methodsOf
      = (registered p).map (·.method) := by
  obtain ⟨k, hk, hmap⟩ := each_class_methodsOf p.classes.zipIdx formed_empty
    (Grows.refl _ (collect p).table)
  have hk : (collect p).table.classes.length = k := hk.trans (Nat.zero_add k)
  rw [classIds, hk, List.range_eq_range']
  exact hmap

/-! ## Methods are numbered as they are registered -/

/-- Away from the scopes of the classes and of the program, no method is
added. -/
theorem Grows.methods_eq (h : Grows A t t') (hf : Formed t) (hroot : ¬ A rootScope)
    (hA : ∀ c < t.classes.length, ¬ A (t.classAt c).scope) : t'.methods = t.methods := by
  refine (h.keeps (fun u => u.classes = t.classes ∧ u.methods = t.methods)
    (fun u u' ih hst => ?_) ⟨rfl, rfl⟩).2
  cases hst with
  | cls _ _ _ _ _ attached =>
    exact absurd hf.scopes_pos (attached.elim (absurd · hroot) Nat.not_lt.mpr)
  | method owner _ _ _ _ owned _ _ attached =>
    rw [ih.1] at owned
    have hat : u.classAt owner = t.classAt owner := by
      unfold classAt
      rw [ih.1]
    rw [hat] at attached
    exact absurd (hf.classAt_scope_lt owned)
      (attached.elim (absurd · (hA owner owned)) Nat.not_lt.mpr)
  | var => exact ih
  | block => exact ih

/-- The body of a method adds no method. -/
theorem collectMethodBody_methods {m : MethodId} (h : HasMethod t m) (receiver : Param)
    (params : List Param) (decl : MethodDecl) :
    (collectMethodBody m receiver params decl t).table.methods = t.methods := by
  have hm := h.1.methodAt_scope h.2
  refine (collectMethodBody_grows h receiver params decl).methods_eq h.1 (fun hroot => ?_)
    (fun c hc hcls => ?_)
  · rw [← hroot, h.1.root] at hm
    cases hm
  · rw [← hcls, h.1.classAt_scope hc] at hm
    cases hm

/-- **Methods are numbered as they are registered**, by a part of the walk that
may begin with any number of them. -/
def Numbers (t t' : SymbolTable) (rs : List Registered) : Prop :=
  t'.methods.length = t.methods.length + rs.length
    ∧ rs.map (·.method) = List.range' t.methods.length rs.length

theorem numbers_nil (h : t'.methods = t.methods) : Numbers t t' [] :=
  ⟨congrArg List.length h, rfl⟩

theorem Numbers.append {t'' : SymbolTable} {rs rs' : List Registered} (h : Numbers t t' rs)
    (h' : Numbers t' t'' rs') : Numbers t t'' (rs ++ rs') := by
  refine ⟨?_, ?_⟩
  · rw [h'.1, h.1, List.length_append, Nat.add_assoc]
  · rw [List.map_append, h.2, h'.2, h.1, List.length_append, List.range'_append_1]

theorem trace_numbers {α : Type} {f : α → SymbolTable → Collected}
    {g : α → SymbolTable → List Registered} {I : SymbolTable → Prop}
    (stable : ∀ a t, I t → I (f a t).table)
    (one : ∀ a t, I t → Numbers t (f a t).table (g a t)) (xs : List α) (h : I t) :
    Numbers t (Collected.each f xs t).table (Collected.trace f g xs t) := by
  induction xs generalizing t with
  | nil => exact numbers_nil rfl
  | cons a rest ih => exact (one a t h).append (ih (stable a t h))

theorem collectMethod_numbers {c : ClassId} (h : HasClass t c) (index : Nat)
    (decl : MethodDecl) :
    Numbers t (collectMethod c index decl t).table (registeredMethod c index decl t) := by
  rcases collectMethod_cases c index decl t with ⟨htable, hreg, -⟩ | ⟨r, ps, -, -, hfree, hc, hreg⟩
  · rw [htable, hreg]
    exact numbers_nil rfl
  · have hm := hasMethod_addMethod h decl.returnType index decl.name.span hfree
    rw [hc, hreg]
    refine ⟨?_, rfl⟩
    rw [collectMethodBody_methods hm r ps decl, addMethod_methods_length]
    rfl

theorem collectMember_numbers {c : ClassId} (h : HasClass t c) (m : Member × Nat) :
    Numbers t (collectMember c m t).table (registeredMember c m t) := by
  unfold collectMember registeredMember
  split
  · exact numbers_nil (collectField_methods _)
  · exact collectMethod_numbers h _ _

theorem collectClass_numbers (h : Formed t) (d : ClassDecl × Nat) :
    Numbers t (collectClass d t).table (registeredClass d t) := by
  rcases collectClass_cases d t with ⟨htable, hreg, -⟩ | ⟨hfree, hc, hreg⟩
  · rw [htable, hreg]
    exact numbers_nil rfl
  · have hcls := hasClass_addClass h d.1.parents d.2 d.1.name.span hfree
    rw [hc, hreg]
    exact trace_numbers (fun m u hu => hu.grows (collectMember_grows hu m))
      (fun m u hu => collectMember_numbers hu m) _ hcls

/-- **The registered methods are all the methods of the table**, in order. -/
theorem registered_methods (p : Program) :
    (registered p).map (·.method) = List.range (collect p).table.methods.length := by
  obtain ⟨hlen, hmap⟩ := trace_numbers (fun d u hu => Formed.grows hu (collectClass_grows hu d))
    (fun d u hu => collectClass_numbers hu d) p.classes.zipIdx formed_empty
  have hlen : (collect p).table.methods.length = (registered p).length :=
    hlen.trans (Nat.zero_add _)
  rw [hlen, List.range_eq_range']
  exact hmap

/-! ## The point at which a method was registered -/

/-- **The point of the walk at which a method was collected**: the table there,
the class, the declaration of the class and the position of the method in it.
What is collected later leaves the method alone. -/
structure Visited (p : Program) (r : Registered) (t : SymbolTable) (c : ClassId)
    (decl : ClassDecl) (index : Nat) : Prop where
  /-- The class is declared. -/
  hasClass : HasClass t c
  /-- The program has the declaration of the class. -/
  inProgram : p.classes[(t.classAt c).declIndex]? = some decl
  /-- The class has the declaration of the method. -/
  inClass : decl.members[index]? = some (.method r.decl)
  /-- The method is registered here. -/
  registers : r ∈ registeredMethod c index r.decl t
  /-- What follows is attached to the class or to the program. -/
  later : Grows (fun s => s = (t.classAt c).scope ∨ s = rootScope)
    (collectMethod c index r.decl t).table (collect p).table
  /-- What is wrong with the method is wrong with the program. -/
  issues : (collect p).issues = [] → (collectMethod c index r.decl t).issues = []

/-- What a walk through a list adds and finds from one of its elements on. -/
theorem each_split {α : Type} {f : α → SymbolTable → Collected} {xs before behind : List α}
    {a : α} (h : xs = before ++ a :: behind) (t : SymbolTable) :
    (Collected.each f xs t).table
        = (Collected.each f behind (f a (Collected.each f before t).table).table).table
      ∧ ((Collected.each f xs t).issues = [] →
        (f a (Collected.each f before t).table).issues = []) := by
  subst h
  rw [Collected.each_append]
  refine ⟨rfl, fun hi => ?_⟩
  rw [Collected.andThen_issues, List.append_eq_nil_iff] at hi
  exact (List.append_eq_nil_iff.mp hi.2).1

theorem mem_registeredMethod {c : ClassId} {index : Nat} {decl : MethodDecl} {r : Registered}
    (h : r ∈ registeredMethod c index decl t) : r.decl = decl := by
  rcases collectMethod_cases c index decl t with ⟨-, hreg, -⟩ | ⟨_, _, -, -, -, -, hreg⟩
  · rw [hreg] at h
    cases h
  · rw [hreg] at h
    rw [List.mem_singleton.mp h]

theorem mem_registeredMember {c : ClassId} {m : Member × Nat} {r : Registered}
    (h : r ∈ registeredMember c m t) :
    m.1 = .method r.decl ∧ r ∈ registeredMethod c m.2 r.decl t
      ∧ collectMember c m t = collectMethod c m.2 r.decl t := by
  unfold registeredMember at h
  split at h
  · cases h
  · obtain rfl := mem_registeredMethod h
    exact ⟨rfl, h, rfl⟩

/-- The point at which a method was collected among the members of its class. -/
theorem visited_member {c : ClassId} {ms : List (Member × Nat)} (h : HasClass t c)
    {r : Registered}
    (hr : r ∈ Collected.trace (collectMember c) (registeredMember c) ms t) :
    ∃ u index, HasClass u c ∧ u.classAt c = t.classAt c ∧ (Member.method r.decl, index) ∈ ms
      ∧ r ∈ registeredMethod c index r.decl u
      ∧ Grows (· = (t.classAt c).scope) (collectMethod c index r.decl u).table
        (Collected.each (collectMember c) ms t).table
      ∧ ((Collected.each (collectMember c) ms t).issues = [] →
        (collectMethod c index r.decl u).issues = []) := by
  obtain ⟨before, m, behind, hms, hr⟩ := Collected.mem_trace hr
  have hsplit := each_split (f := collectMember c) hms t
  have hgrow : Grows (· = (t.classAt c).scope) t
      (Collected.each (collectMember c) before t).table :=
    each_member_grows (fun m _ _ hu => collectMember_grows hu m) h
  generalize (Collected.each (collectMember c) before t).table = u at *
  have hu := h.grows hgrow
  have hat := hgrow.classAt_eq h.2
  have one := collectMember_grows hu m
  have after := each_member_grows
    (fun m (_ : m ∈ behind) _ hu => collectMember_grows hu m) (hu.grows one)
  obtain ⟨hm, hreg, hcollect⟩ := mem_registeredMember hr
  refine ⟨u, m.2, hu, hat, ?_, hreg, ?_, ?_⟩
  · rw [hms, ← hm]
    exact List.mem_append_right _ List.mem_cons_self
  · rw [one.classAt_eq hu.2, hat] at after
    rw [hsplit.1, ← hcollect]
    exact after
  · rw [← hcollect]
    exact hsplit.2

/-- **Every registered method was visited.** -/
theorem visited (p : Program) {r : Registered} (h : r ∈ registered p) :
    ∃ t c decl index, Visited p r t c decl index := by
  obtain ⟨before, d, behind, hds, hr⟩ := Collected.mem_trace h
  have hf := formed_empty.grows (each_class_grows before formed_empty)
  have hsplit := each_split (f := collectClass) hds empty
  generalize (Collected.each collectClass before empty).table = t₀ at *
  have after := each_class_grows behind (hf.grows (collectClass_grows hf d))
  rcases collectClass_cases d t₀ with ⟨-, hreg, -⟩ | ⟨hfree, hc, hreg⟩
  · rw [hreg] at hr
    cases hr
  · rw [hreg] at hr
    rw [hc] at after hsplit
    have hcls := hasClass_addClass hf d.1.parents d.2 d.1.name.span hfree
    obtain ⟨t, index, ht, hat, hmem, hreg', hgrow, hissues⟩ := visited_member hcls hr
    refine ⟨t, t₀.classes.length, d.1, index, ht, ?_, ?_, hreg', ?_, fun hi => hissues ?_⟩
    · rw [hat, classAt_addClass]
      refine List.mk_mem_zipIdx_iff_getElem?.mp ?_
      rw [hds]
      exact List.mem_append_right _ List.mem_cons_self
    · exact List.mk_mem_zipIdx_iff_getElem?.mp hmem
    · rw [hat]
      refine (hgrow.mono fun _ hs => Or.inl (Or.inl hs)).trans ?_ (fun _ hs => Or.inl (Or.inr hs))
      exact (show (collect p).table = _ from hsplit.1) ▸ after
    · exact hsplit.2 hi

/-! ## The body of a registered method -/

theorem declareReceiver_scopes (t : SymbolTable) (m : MethodId) (name : String) (span : Span) :
    (Collected.ofDeclare t (t.declareReceiver m name span)).table.scopes = t.scopes :=
  declareVar_scopes t _

theorem collectParam_scopes (m : MethodId) (methodName : String) (p : Param) (t : SymbolTable) :
    (collectParam m methodName p t).table.scopes = t.scopes := by
  unfold collectParam
  split
  · rfl
  · exact declareVar_scopes t _

theorem collectParams_scopes (m : MethodId) (methodName : String) (ps : List Param)
    (t : SymbolTable) :
    (Collected.each (collectParam m methodName) ps t).table.scopes = t.scopes := by
  induction ps generalizing t with
  | nil => rfl
  | cons p rest ih =>
    unfold Collected.each
    rw [Collected.andThen_table, ih, collectParam_scopes]

/-- Parameters open no scope. -/
theorem withParams_scopes (m : MethodId) (receiver : Param) (params : List Param)
    (decl : MethodDecl) (t : SymbolTable) :
    (withParams m receiver params decl t).scopes = t.scopes := by
  unfold withParams
  rw [collectParams_scopes, declareReceiver_scopes]

section Visited

variable {p : Program} {r : Registered} {c : ClassId} {decl : ClassDecl} {index : Nat}

/-- Where a method was registered, its declaration has a receiver and its name
was free. -/
theorem Visited.collected (v : Visited p r t c decl index) :
    ∃ receiver params, r.decl.params = receiver :: params ∧ receiver.type = none
      ∧ t.memberSpan? c r.decl.name.text = none
      ∧ collectMethod c index r.decl t
        = collectMethodBody t.methods.length receiver params r.decl
          (t.addMethod c r.decl.name.text r.decl.returnType index r.decl.name.span)
      ∧ r = ⟨t.methods.length, r.decl,
          bodyOpened t.methods.length receiver params r.decl
            (t.addMethod c r.decl.name.text r.decl.returnType index r.decl.name.span)⟩ := by
  have hr := v.registers
  rcases collectMethod_cases c index r.decl t with
    ⟨-, hreg, -⟩ | ⟨receiver, params, hp, htype, hfree, hc, hreg⟩
  · rw [hreg] at hr
    cases hr
  · rw [hreg] at hr
    exact ⟨receiver, params, hp, htype, hfree, hc, List.mem_singleton.mp hr⟩

/-- The table grew from the one in which the method was added. -/
theorem Visited.grows (v : Visited p r t c decl index) :
    HasMethod (t.addMethod c r.decl.name.text r.decl.returnType index r.decl.name.span)
        t.methods.length
      ∧ r.method = t.methods.length
      ∧ Grows (fun s => s = t.scopes.length ∨ s = (t.classAt c).scope ∨ s = rootScope)
        (t.addMethod c r.decl.name.text r.decl.returnType index r.decl.name.span)
        (collect p).table := by
  obtain ⟨receiver, params, -, -, hfree, hc, hr⟩ := v.collected
  have hm := hasMethod_addMethod v.hasClass r.decl.returnType index r.decl.name.span hfree
  have body := collectMethodBody_grows hm receiver params r.decl
  have later := v.later
  rw [methodAt_addMethod] at body
  rw [hc] at later
  exact ⟨hm, congrArg Registered.method hr,
    (body.mono fun _ hs => Or.inl (Or.inl hs)).trans later (fun _ hs => Or.inl (Or.inr hs))⟩

/-- **A registered method stands in the table as it was declared.** -/
theorem Visited.methodAt (v : Visited p r t c decl index) :
    r.method < (collect p).table.methods.length
      ∧ (collect p).table.methodAt r.method
        = { owner := c, name := r.decl.name.text, returnTypeName := r.decl.returnType,
            returnType := if r.decl.returnType.isSome then none else some .void,
            scope := t.scopes.length, declIndex := index, span := r.decl.name.span } := by
  obtain ⟨hm, hr, hg⟩ := v.grows
  rw [hr, hg.methodAt_eq hm.2, methodAt_addMethod]
  exact ⟨Nat.lt_of_lt_of_le hm.2 hg.methods_isPrefix.length_le, rfl⟩

/-- The table in which the body of a registered method is collected has its
parameters, and its scope is the last one. -/
theorem Visited.body (v : Visited p r t c decl index) :
    ∃ t₁, Formed t₁ ∧ BodyScope t₁ t.scopes.length ∧ t₁.scopes.length = t.scopes.length + 1
      ∧ r.opened = openedStmts t.scopes.length r.decl.body t₁
      ∧ Grows (fun s => s = (t.classAt c).scope ∨ s = rootScope)
        (collectStmts t.scopes.length r.decl.body t₁).table (collect p).table
      ∧ ((collect p).issues = [] →
        (collectStmts t.scopes.length r.decl.body t₁).issues = []) := by
  obtain ⟨receiver, params, -, -, hfree, hc, hr⟩ := v.collected
  have hm := hasMethod_addMethod v.hasClass r.decl.returnType index r.decl.name.span hfree
  have hlater := v.later
  have hissues := v.issues
  have hopened := congrArg Registered.opened hr
  have hparams := withParams_grows hm receiver params r.decl
  have hat := (hparams.methodAt_eq hm.2).trans (methodAt_addMethod ..)
  have hbody := (hm.grows hparams).bodyScope
  rw [hc] at hlater hissues
  rw [collectMethodBody_table hm, methodAt_addMethod] at hlater
  rw [hat] at hbody
  refine ⟨_, hm.1.grows hparams, hbody, ?_, ?_, hlater, fun hi => ?_⟩
  · rw [withParams_scopes]
    exact List.length_append
  · rw [hopened, bodyOpened, hat]
  · have hi := (List.append_eq_nil_iff.mp (List.append_eq_nil_iff.mp (hissues hi)).2).2
    change (collectStmts ((withParams _ receiver params r.decl _).methodAt _).scope _ _).issues = []
      at hi
    rwa [hat] at hi

/-- **The scopes of a registered method mirror its body.** -/
theorem Visited.mirrors (v : Visited p r t c decl index) :
    Mirrors (collect p).table (Held (collect p).table ((collect p).issues = []))
      t.scopes.length r.decl.body ((collect p).table.childrenOf t.scopes.length) r.opened := by
  obtain ⟨t₁, hf, hbody, hlen, hopened, hlater, hissues⟩ := v.body
  have hcls := v.hasClass.1.classAt_scope_lt v.hasClass.2
  have hpos := v.hasClass.1.scopes_pos
  have hgrow := collectStmts_grows t.scopes.length r.decl.body t₁ hbody
  have hA : ∀ s, t.scopes.length ≤ s → ¬ (s = (t.classAt c).scope ∨ s = rootScope) := by
    rintro s hs (rfl | rfl)
    · exact Nat.not_lt.mpr hs hcls
    · exact Nat.not_lt.mpr hs hpos
  obtain ⟨blocks, hblocks, hmir⟩ := collectStmts_mirrors t.scopes.length r.decl.body t₁ hf hbody
    _ ⟨hlater, fun s hs _ => hA s (Nat.le_trans (hlen ▸ Nat.le_succ _) hs)⟩ hissues
  rw [childrenOf_last hf (Nat.le_of_eq hlen), List.nil_append] at hblocks
  rw [hlater.childrenOf_eq (hA _ (Nat.le_refl _))
    (Nat.lt_of_lt_of_le hbody.1 hgrow.scopes_isPrefix.length_le), hblocks, hopened]
  exact hmir

end Visited

end SymbolTable

end Heritage
