import Heritage.Proofs.Assembly
import Heritage.Proofs.Declared
import Heritage.Proofs.Independence

/-!
# Refused declarations are checked and leave no trace

A class whose name is taken, and a method whose name is taken among the members
of its class, are reported and checked all the same, on their own. So what is
found in a program can be read off its classes one by one: for each of them the
clash with an earlier one, if there is any, and then what is found in the class
alone; and likewise off the members of a class. The table is that of the program
without the declarations that were refused, apart from the places of the
declarations that it notes.

All three walks – over the classes, over the members of a class, over the names
of a field declaration – have an invariant indexed by what went before
(`each_reports`): the table remembers the names that were declared so far, and
where (`Remembers`).
-/

namespace Heritage

open SymbolTable Collected

/-! ## What is found, read off the program -/

/-- Each element of a list, with those before it. -/
def withEarlier {α : Type} : List α → List α → List (List α × α)
  | _, [] => []
  | before, a :: rest => (before, a) :: withEarlier (before ++ [a]) rest

/-- Where a name was written first. -/
def firstSpan (names : List Ident) (name : String) : Option Span :=
  (names.find? fun n => n.text == name).map (·.span)

/-- The issue of a name that was declared before. -/
def clash (what : String) (names : List Ident) (n : Ident) : Option Issue :=
  (firstSpan names n.text).map fun first => .duplicate what n.text first n.span

/-- Whether a method begins with a receiver, which has no type. -/
def MethodDecl.hasReceiver (decl : MethodDecl) : Bool :=
  match decl.params with
  | [] => false
  | receiver :: _ => receiver.type.isNone

/-- The names a member takes in its class. A method without a receiver is not
declared, so it takes none. -/
def Member.taken : Member → List Ident
  | .field decl => decl.names
  | .method decl => if decl.hasReceiver then [decl.name] else []

/-- The issues of a class alone. -/
def ClassDecl.issues (d : ClassDecl) : List Issue :=
  (collect { classes := [d], span := {} }).issues

/-- **What is found at a class**, given those before it. -/
def ClassDecl.report (before : List ClassDecl) (d : ClassDecl) : List Issue :=
  (clash "class" (before.map (·.name)) d.name).toList ++ d.issues

/-- **What is found at a member of a class**, given those before it. -/
def ClassDecl.memberReport (d : ClassDecl) (before : List Member) : Member → List Issue
  | .field decl =>
    (withEarlier [] decl.names).flatMap fun n =>
      (clash "member" (before.flatMap Member.taken ++ n.1) n.2).toList
  | .method decl =>
    (if decl.hasReceiver then clash "member" (before.flatMap Member.taken) decl.name
      else none).toList
      ++ ClassDecl.issues { d with members := [.method decl] }

/-! ## What is kept -/

/-- Whether a member is a method with a receiver whose name is taken. -/
def Member.refused (before : List Member) : Member → Bool
  | .field _ => false
  | .method decl =>
    decl.hasReceiver && decl.name.text ∈ (before.flatMap Member.taken).map (·.text)

/-- A class without the methods whose names are taken. -/
def ClassDecl.pruned (d : ClassDecl) : ClassDecl :=
  { d with
    members := (withEarlier [] d.members).filterMap fun m =>
      if m.2.refused m.1 then none else some m.2 }

/-- **A program without the classes and the methods whose names are taken.** -/
def Program.pruned (p : Program) : Program :=
  { p with
    classes := (withEarlier [] p.classes).filterMap fun d =>
      if d.2.name.text ∈ d.1.map (·.name.text) then none else some d.2.pruned }

/-- A class without its place in the program. -/
def ClassSymbol.unindexed (c : ClassSymbol) : ClassSymbol :=
  { c with declIndex := 0 }

/-- A method without its place in its class. -/
def MethodSymbol.unindexed (m : MethodSymbol) : MethodSymbol :=
  { m with declIndex := 0 }

/-- **A table without the indices of its declarations.** -/
def SymbolTable.unindexed (t : SymbolTable) : SymbolTable :=
  { t with
    classes := t.classes.map ClassSymbol.unindexed
    methods := t.methods.map MethodSymbol.unindexed }

/-! ## Names written first -/

theorem firstSpan_append (xs ys : List Ident) (name : String) :
    firstSpan (xs ++ ys) name = (firstSpan xs name).or (firstSpan ys name) := by
  unfold firstSpan
  rw [List.find?_append, Option.map_or]

theorem firstSpan_singleton (n : Ident) (name : String) :
    firstSpan [n] name = if name = n.text then some n.span else none := by
  unfold firstSpan
  by_cases h : name = n.text
  · simp [h]
  · simp [h, Ne.symm h]

theorem firstSpan_eq_none_iff {names : List Ident} {name : String} :
    firstSpan names name = none ↔ name ∉ names.map (·.text) := by
  unfold firstSpan
  rw [Option.map_eq_none_iff, List.find?_eq_none, List.mem_map]
  simp

/-- **A table remembers names** and where each was declared first. -/
def Remembers (spanOf : SymbolTable → String → Option Span) (names : List Ident)
    (t : SymbolTable) : Prop :=
  ∀ name, spanOf t name = firstSpan names name

section Remembers

variable {spanOf : SymbolTable → String → Option Span} {names : List Ident} {t t' : SymbolTable}
  {n : Ident}

/-- A name that was declared is remembered. -/
theorem Remembers.declared (h : Remembers spanOf names t)
    (hnew : ∀ name, spanOf t' name
      = if name = n.text then some n.span else spanOf t name)
    (hfree : spanOf t n.text = none) : Remembers spanOf (names ++ [n]) t' := by
  intro name
  rw [hnew, firstSpan_append, firstSpan_singleton, ← h name]
  by_cases hname : name = n.text
  · rw [if_pos hname, if_pos hname, hname, hfree, Option.none_or]
  · rw [if_neg hname, if_neg hname, Option.or_none]

/-- A name that was refused was remembered before. -/
theorem Remembers.refused (h : Remembers spanOf names t) (htaken : spanOf t n.text ≠ none) :
    Remembers spanOf (names ++ [n]) t := by
  intro name
  rw [firstSpan_append, firstSpan_singleton, ← h name]
  by_cases hname : name = n.text
  · obtain ⟨first, hfirst⟩ := Option.ne_none_iff_exists'.mp htaken
    rw [hname, hfirst, Option.some_or]
  · rw [if_neg hname, Option.or_none]

end Remembers

/-! ## Walks with an invariant indexed by what went before -/

/-- **What is found on a walk** is what is found at each element, given those
before it. -/
theorem each_reports {α β : Type} {f : β → SymbolTable → Collected} {e : β → α}
    {H : List α → SymbolTable → Prop} {R : List α → α → List Issue}
    (one : ∀ before b t, H before t →
      (f b t).issues = R before (e b) ∧ H (before ++ [e b]) (f b t).table)
    (bs : List β) (before : List α) {t : SymbolTable} (h : H before t) :
    (each f bs t).issues = (withEarlier before (bs.map e)).flatMap (fun a => R a.1 a.2)
      ∧ H (before ++ bs.map e) (each f bs t).table := by
  induction bs generalizing before t with
  | nil => exact ⟨rfl, (List.append_nil before).symm ▸ h⟩
  | cons b rest ih =>
    obtain ⟨hfound, hnext⟩ := one before b t h
    obtain ⟨hrest, hlast⟩ := ih (before ++ [e b]) hnext
    refine ⟨congrArg₂ (· ++ ·) hfound hrest, ?_⟩
    rw [List.map_cons, List.append_cons]
    exact hlast

/-- **A walk leaves the table that the walk over what is kept leaves**, whatever
the places of the elements are. -/
theorem each_unindexed {α : Type} {f : α × Nat → SymbolTable → Collected}
    {H : List α → SymbolTable → Prop} {K : List α → α → Option α}
    (next : ∀ before a t, H before t → H (before ++ [a.1]) (f a t).table)
    (kept : ∀ before a b k k' t t', H before t → K before a = some b →
      t.unindexed = t'.unindexed → (f (a, k) t).table.unindexed = (f (b, k') t').table.unindexed)
    (dropped : ∀ before a k t, H before t → K before a = none → (f (a, k) t).table = t)
    (xs : List α) (before : List α) (k k' : Nat) {t t' : SymbolTable} (h : H before t)
    (heq : t.unindexed = t'.unindexed) :
    (each f (xs.zipIdx k) t).table.unindexed
      = (each f (((withEarlier before xs).filterMap fun a => K a.1 a.2).zipIdx k')
          t').table.unindexed := by
  induction xs generalizing before k k' t t' with
  | nil => exact heq
  | cons a rest ih =>
    have hnext := next before (a, k) t h
    rw [withEarlier, List.filterMap_cons]
    show (each f (rest.zipIdx (k + 1)) (f (a, k) t).table).table.unindexed = _
    -- What is dropped still counts in the one walk, so the places drift apart.
    cases hkeep : K before a with
    | none =>
      refine ih (before ++ [a]) (k + 1) k' hnext ?_
      rw [dropped before a k t h hkeep, heq]
    | some b =>
      exact ih (before ++ [a]) (k + 1) (k' + 1) hnext (kept before a b k k' t t' h hkeep heq)

/-! ## Classes -/

namespace SymbolTable

variable {t t' : SymbolTable} {c : ClassId}

/-- Where the class with a name was declared. -/
def classSpan? (t : SymbolTable) (name : String) : Option Span :=
  (t.lookupClass name).map fun c => (t.classAt c).span

/-- A class is checked in the same way wherever it is written. -/
theorem detachedClassIssues_eq (d : ClassDecl) (index : Nat) :
    detachedClassIssues d index = (collectAlone d).issues := by
  unfold detachedClassIssues
  rw [addClass_eq_attach closed_empty]
  have h : collectMembers 0 d
        (empty.attach index (empty.addClass d.name.text d.parents 0 d.name.span))
      = (collectAlone d).behind empty index :=
    collectMembers_behind closed_empty (hasClass_alone d) d
  rw [h]
  rfl

theorem issues_eq_collectAlone (d : ClassDecl) : d.issues = (collectAlone d).issues := by
  unfold ClassDecl.issues collect
  show (collectClass (d, 0) empty).issues ++ [] = _
  rw [List.append_nil, collectClass_eq closed_empty (d, 0) rfl]
  rfl

theorem classSpan?_collectClass (h : Formed t) (d : ClassDecl × Nat)
    (hfree : t.lookupClass d.1.name.text = none) (name : String) :
    (collectClass d t).table.classSpan? name
      = if name = d.1.name.text then some d.1.name.span else t.classSpan? name := by
  have hclasses := collectClass_classes h d hfree
  have hlook : (collectClass d t).table.lookupClass name
      = if name = d.1.name.text then some t.classes.length else t.lookupClass name := by
    unfold lookupClass at hfree ⊢
    rw [hclasses, List.findIdx?_append]
    by_cases hname : name = d.1.name.text
    · rw [if_pos hname, hname, hfree]
      simp [classSymbol]
    · rw [if_neg hname]
      simp [classSymbol, Ne.symm hname]
  unfold classSpan? classAt
  rw [hlook, hclasses]
  by_cases hname : name = d.1.name.text
  · rw [if_pos hname, if_pos hname]
    exact congrArg (fun k => some (ClassSymbol.span k))
      (getD_of_eq_some List.getElem?_concat_length _)
  · rw [if_neg hname, if_neg hname]
    refine Option.map_congr fun c hc => congrArg ClassSymbol.span ?_
    exact getD_of_isPrefix (List.prefix_append t.classes _)
      (List.findIdx?_eq_some_iff_findIdx_eq.mp hc).1 _

/-- **The classes so far**: the table remembers their names. -/
structure ClassesSoFar (before : List ClassDecl) (t : SymbolTable) : Prop where
  /-- The table is well-formed. -/
  formed : Formed t
  /-- It refers to nothing outside. -/
  closed : Closed t
  /-- It remembers the names of the classes. -/
  names : Remembers classSpan? (before.map (·.name)) t

theorem ClassesSoFar.lookupClass_eq_none_iff {before : List ClassDecl} (h : ClassesSoFar before t)
    {name : String} : t.lookupClass name = none ↔ name ∉ before.map (·.name.text) := by
  have hspan : t.classSpan? name = none ↔ t.lookupClass name = none := Option.map_eq_none_iff
  rw [← hspan, h.names name, firstSpan_eq_none_iff, List.map_map]
  rfl

theorem collectClass_table_of_taken {d : ClassDecl × Nat}
    (htaken : t.lookupClass d.1.name.text ≠ none) : (collectClass d t).table = t := by
  obtain ⟨c, hc⟩ := Option.ne_none_iff_exists'.mp htaken
  unfold collectClass declareClass
  rw [hc]

theorem collectClass_reports (before : List ClassDecl) (d : ClassDecl × Nat) (t : SymbolTable)
    (h : ClassesSoFar before t) :
    (collectClass d t).issues = d.1.report before
      ∧ ClassesSoFar (before ++ [d.1]) (collectClass d t).table := by
  have hgrows := collectClass_grows h.formed d
  have hfirst := h.names d.1.name.text
  unfold ClassDecl.report clash
  rw [issues_eq_collectAlone, ← hfirst]
  cases hfree : t.lookupClass d.1.name.text with
  | some c =>
    have hspan : t.classSpan? d.1.name.text = some (t.classAt c).span := by
      rw [classSpan?, hfree]
      rfl
    refine ⟨?_, h.formed.grows hgrows, h.closed.grows hgrows, ?_⟩
    · -- A class that is refused is collected into a table of its own, which is thrown away.
      rw [hspan, ← detachedClassIssues_eq d.1 d.2]
      unfold collectClass declareClass
      rw [hfree]
      rfl
    · rw [collectClass_table_of_taken (hfree ▸ Option.some_ne_none c), List.map_append]
      exact h.names.refused (hspan ▸ Option.some_ne_none _)
  | none =>
    have hspan : t.classSpan? d.1.name.text = none := by
      rw [classSpan?, hfree]
      rfl
    refine ⟨?_, h.formed.grows hgrows, h.closed.grows hgrows, ?_⟩
    · rw [hspan, collectClass_eq h.closed d hfree]
      rfl
    · rw [List.map_append]
      exact h.names.declared (classSpan?_collectClass h.formed d hfree) hspan

/-! ## Members -/

theorem memberSpan?_eq (t : SymbolTable) (c : ClassId) (name : String) :
    t.memberSpan? c name = (t.spanIn (t.classAt c).scope name).or
      ((t.declaredMethod c name).map fun m => (t.methodAt m).span) := by
  unfold memberSpan? spanIn declaredField
  cases t.lookupIn (t.classAt c).scope name <;> rfl

theorem memberSpan?_addVar {name : String} (type : Ident) (span : Span)
    (hfree : t.memberSpan? c name = none) (n : String) :
    (t.addVar (fieldSymbol (t.classAt c).scope name type span)).memberSpan? c n
      = if n = name then some span else t.memberSpan? c n := by
  have hvar : t.lookupIn (t.classAt c).scope name = none := (memberSpan?_eq_none_iff.mp hfree).1
  rw [memberSpan?_eq, memberSpan?_eq]
  have hspan := spanIn_addVar (v := fieldSymbol (t.classAt c).scope name type span) hvar n
  by_cases hname : n = name
  · rw [if_pos hname]
    rw [if_pos (show n = (fieldSymbol _ name type span).name from hname)] at hspan
    exact congrArg (Option.or · _) hspan
  · rw [if_neg hname]
    rw [if_neg (show ¬ n = (fieldSymbol _ name type span).name from hname)] at hspan
    exact congrArg (Option.or · _) hspan

theorem memberSpan?_addMethod {name : String} (returnType : Option Ident) (index : Nat)
    (span : Span) (hfree : t.memberSpan? c name = none) (n : String) :
    (t.addMethod c name returnType index span).memberSpan? c n
      = if n = name then some span else t.memberSpan? c n := by
  have hold : t.declaredMethod c name = none := (memberSpan?_eq_none_iff.mp hfree).2
  have hfield : t.spanIn (t.classAt c).scope name = none := by
    rw [spanIn, show t.lookupIn _ name = none from (memberSpan?_eq_none_iff.mp hfree).1]
    rfl
  have hmethod : (t.addMethod c name returnType index span).declaredMethod c n
      = if n = name then some t.methods.length else t.declaredMethod c n := by
    unfold declaredMethod at hold ⊢
    show (t.methods ++ [_]).findIdx? _ = _
    rw [List.findIdx?_append]
    by_cases hname : n = name
    · rw [if_pos hname, hname, hold]
      simp
    · rw [if_neg hname]
      simp [Ne.symm hname]
  rw [memberSpan?_eq, memberSpan?_eq, hmethod]
  show (t.spanIn (t.classAt c).scope n).or _ = _
  by_cases hname : n = name
  · rw [if_pos hname, if_pos hname, hname, hfield, Option.none_or, Option.map_some,
      methodAt_addMethod]
  · rw [if_neg hname, if_neg hname]
    refine congrArg _ (Option.map_congr fun m hm => congrArg MethodSymbol.span ?_)
    exact getD_of_isPrefix (List.prefix_append t.methods _)
      (List.findIdx?_eq_some_iff_findIdx_eq.mp hm).1 _

/-- What is collected inside a method that was added leaves the members of its
class alone. -/
theorem memberSpan?_collectMethodBody (h : HasClass t c) {name : String}
    (returnType : Option Ident) (index : Nat) (span : Span)
    (hfree : t.memberSpan? c name = none) (receiver : Param) (params : List Param)
    (decl : MethodDecl) (n : String) :
    (collectMethodBody t.methods.length receiver params decl
        (t.addMethod c name returnType index span)).table.memberSpan? c n
      = (t.addMethod c name returnType index span).memberSpan? c n := by
  have hm := hasMethod_addMethod h returnType index span hfree
  have hadd := addMethod_grows h returnType index span hfree
  have hg := collectMethodBody_grows hm receiver params decl
  rw [methodAt_addMethod] at hg
  have hspan := hg.spanIn_eq (s := (t.classAt c).scope) (classAt_scope_ne h.1 h.2)
    (Nat.lt_of_lt_of_le (h.1.classAt_scope_lt h.2) hadd.scopes_isPrefix.length_le) n
  rw [memberSpan?_eq, memberSpan?_eq, hg.classAt_eq h.2]
  unfold declaredMethod methodAt
  rw [collectMethodBody_methods hm]
  exact congrArg (Option.or · _) hspan

/-- **What is found inside a method** depends neither on the table nor on the
place. -/
theorem collectMethodBody_issues_eq (h : HasClass t c) {c' : ClassId} (h' : HasClass t' c')
    (index index' : Nat) (receiver : Param) (params : List Param) (decl : MethodDecl)
    (hfree : t.memberSpan? c decl.name.text = none)
    (hfree' : t'.memberSpan? c' decl.name.text = none) :
    (collectMethodBody t.methods.length receiver params decl
        (t.addMethod c decl.name.text decl.returnType index decl.name.span)).issues
      = (collectMethodBody t'.methods.length receiver params decl
          (t'.addMethod c' decl.name.text decl.returnType index' decl.name.span)).issues := by
  refine collectMethodBody_alike (hasMethod_addMethod h _ _ _ hfree)
    (hasMethod_addMethod h' _ _ _ hfree') (fun name => ?_) receiver params decl
  rw [methodAt_addMethod, methodAt_addMethod]
  exact (h.1.spanIn_eq_none (Nat.le_refl _) name).trans
    (h'.1.spanIn_eq_none (Nat.le_refl _) name).symm

/-- A method without a receiver is reported, and not looked into. -/
theorem exists_collectMethod_eq {decl : MethodDecl} (h : decl.hasReceiver = false) :
    ∃ i, ∀ (c : ClassId) (index : Nat) (t : SymbolTable),
      collectMethod c index decl t = { table := t, issues := [i] } := by
  unfold MethodDecl.hasReceiver at h
  unfold collectMethod
  cases hp : decl.params with
  | nil => exact ⟨_, fun _ _ _ => rfl⟩
  | cons receiver params =>
    rw [hp] at h
    refine ⟨.malformed (.typedReceiver decl.name.text) receiver.span, fun c index t => if_pos ?_⟩
    rw [← Option.not_isNone, show receiver.type.isNone = false from h]
    rfl

/-- A method with a receiver is collected if its name is free, and checked on its
own otherwise. -/
theorem exists_receiver {decl : MethodDecl} (h : decl.hasReceiver = true) :
    ∃ receiver params, ∀ (c : ClassId) (index : Nat) (t : SymbolTable),
      collectMethod c index decl t
        = match t.memberSpan? c decl.name.text with
          | some first =>
            { table := t
              issues := .duplicate "member" decl.name.text first decl.name.span
                :: detachedMethodIssues (t.classAt c) index receiver params decl }
          | none =>
            collectMethodBody t.methods.length receiver params decl
              (t.addMethod c decl.name.text decl.returnType index decl.name.span) := by
  unfold MethodDecl.hasReceiver at h
  unfold collectMethod declareMethod
  cases hp : decl.params with
  | nil =>
    rw [hp] at h
    cases h
  | cons receiver params =>
    rw [hp] at h
    refine ⟨receiver, params, fun c index t => ?_⟩
    have htype : receiver.type.isSome = false := by
      rw [Option.isNone_iff_eq_none.mp h]
      rfl
    dsimp only
    rw [if_neg (by rw [htype]; exact Bool.false_ne_true)]
    cases t.memberSpan? c decl.name.text <;> rfl

theorem memberSpan?_empty (name : String) (parents : List Ident) (span : Span) (n : String) :
    (empty.addClass name parents 0 span).memberSpan? 0 n = none :=
  not_not.mp (not_takenMember_addClass formed_empty name parents 0 span n)

/-- **What is found at a method**: the clash, if there is any, and then what is
found in a class where its name is free. -/
theorem collectMethod_issues (h : HasClass t c) {c' : ClassId} (h' : HasClass t' c')
    (index index' : Nat) (decl : MethodDecl) (hfree' : t'.memberSpan? c' decl.name.text = none) :
    (collectMethod c index decl t).issues
      = (if decl.hasReceiver then
          (t.memberSpan? c decl.name.text).map fun first =>
            .duplicate "member" decl.name.text first decl.name.span
        else none).toList ++ (collectMethod c' index' decl t').issues := by
  cases hr : decl.hasReceiver with
  | false =>
    obtain ⟨i, hi⟩ := exists_collectMethod_eq hr
    rw [hi, hi]
    rfl
  | true =>
    obtain ⟨receiver, params, hcollect⟩ := exists_receiver hr
    rw [hcollect, hcollect, hfree', if_pos rfl]
    cases hfree : t.memberSpan? c decl.name.text with
    | some first =>
      -- A method that is refused is checked in a copy of its class that has no members.
      have hcopy : HasClass (empty.addClass (t.classAt c).name [] 0 (t.classAt c).span) 0 :=
        hasClass_addClass formed_empty [] 0 (t.classAt c).span rfl
      exact congrArg (_ :: ·) (collectMethodBody_issues_eq hcopy h' index index' receiver params
        decl (memberSpan?_empty _ _ _ _) hfree')
    | none => exact collectMethodBody_issues_eq h h' index index' receiver params decl hfree hfree'

/-- What is found in a method that is the only member of its class. -/
theorem issues_singleton (d : ClassDecl) (decl : MethodDecl) :
    ClassDecl.issues { d with members := [.method decl] }
      = (collectMethod 0 0 decl (empty.addClass d.name.text d.parents 0 d.name.span)).issues := by
  rw [issues_eq_collectAlone]
  exact List.append_nil _

/-- **The members so far**: the table remembers their names. -/
structure MembersSoFar (c : ClassId) (before : List Ident) (t : SymbolTable) : Prop where
  /-- The class is in the table. -/
  cls : HasClass t c
  /-- The table remembers the names of the members. -/
  names : Remembers (memberSpan? · c) before t

/-- A field is declared if its name is free. -/
theorem ofDeclare_declareField (t : SymbolTable) (c : ClassId) (name : String) (type : Ident)
    (span : Span) :
    ofDeclare t (t.declareField c name type span)
      = match t.memberSpan? c name with
        | some first => { table := t, issues := [.duplicate "member" name first span] }
        | none => { table := t.addVar (fieldSymbol (t.classAt c).scope name type span) } := by
  unfold declareField
  cases hfree : t.memberSpan? c name with
  | some first => rfl
  | none =>
    have hvar : t.lookupIn (t.classAt c).scope name = none := (memberSpan?_eq_none_iff.mp hfree).1
    unfold declareVar
    dsimp only
    rw [hvar]
    rfl

theorem declareField_reports (names : List Ident) (type n : Ident) (t : SymbolTable)
    (h : MembersSoFar c names t) :
    (ofDeclare t (t.declareField c n.text type n.span)).issues = (clash "member" names n).toList
      ∧ MembersSoFar c (names ++ [n])
        (ofDeclare t (t.declareField c n.text type n.span)).table := by
  have hgrows := declareField_grows h.cls.1 h.cls.2 n.text type n.span
  have hfirst : t.memberSpan? c n.text = firstSpan names n.text := h.names n.text
  unfold clash
  rw [← hfirst]
  rw [ofDeclare_declareField] at hgrows ⊢
  cases hfree : t.memberSpan? c n.text with
  | some first =>
    exact ⟨rfl, h.cls, h.names.refused (hfree ▸ Option.some_ne_none first)⟩
  | none =>
    rw [hfree] at hgrows
    exact ⟨rfl, h.cls.grows hgrows, h.names.declared (memberSpan?_addVar type n.span hfree) hfree⟩

theorem collectMethod_names {names : List Ident} (h : MembersSoFar c names t) (index : Nat)
    (decl : MethodDecl) :
    MembersSoFar c (names ++ (Member.method decl).taken) (collectMethod c index decl t).table := by
  refine ⟨h.cls.grows (collectMethod_grows h.cls index decl), ?_⟩
  rw [show (Member.method decl).taken = if decl.hasReceiver then [decl.name] else [] from rfl]
  cases hr : decl.hasReceiver with
  | false =>
    obtain ⟨i, hi⟩ := exists_collectMethod_eq hr
    rw [hi, if_neg Bool.false_ne_true, List.append_nil]
    exact h.names
  | true =>
    obtain ⟨receiver, params, hcollect⟩ := exists_receiver hr
    rw [hcollect, if_pos rfl]
    cases hfree : t.memberSpan? c decl.name.text with
    | some first => exact h.names.refused (hfree ▸ Option.some_ne_none first)
    | none =>
      refine h.names.declared (fun name => ?_) hfree
      show memberSpan? _ c name = _
      rw [memberSpan?_collectMethodBody h.cls _ _ _ hfree, memberSpan?_addMethod _ _ _ hfree]

theorem collectMember_reports (d : ClassDecl) (before : List Member) (m : Member × Nat)
    (t : SymbolTable) (h : MembersSoFar c (before.flatMap Member.taken) t) :
    (collectMember c m t).issues = d.memberReport before m.1
      ∧ MembersSoFar c ((before ++ [m.1]).flatMap Member.taken) (collectMember c m t).table := by
  obtain ⟨m, index⟩ := m
  rw [List.flatMap_append, List.flatMap_singleton]
  cases m with
  | field decl =>
    -- The walk over the names of the declaration goes on from the names before it.
    have start : MembersSoFar c (before.flatMap Member.taken ++ []) t := by rwa [List.append_nil]
    have hfields := each_reports (e := id)
      (H := fun earlier => MembersSoFar c (before.flatMap Member.taken ++ earlier))
      (R := fun earlier n => (clash "member" (before.flatMap Member.taken ++ earlier) n).toList)
      (fun earlier n u hu => by
        rw [← List.append_assoc]
        exact declareField_reports _ decl.type n u hu) decl.names [] start
    rw [List.map_id, List.nil_append] at hfields
    exact hfields
  | method decl =>
    have halone := hasClass_alone { d with members := [.method decl] }
    refine ⟨?_, collectMethod_names h index decl⟩
    dsimp only [ClassDecl.memberReport, clash]
    rw [issues_singleton, ← h.names decl.name.text]
    exact collectMethod_issues h.cls halone index 0 decl (memberSpan?_empty _ _ _ _)

/-! ## Tables without places -/

theorem unindexed_classAt (t : SymbolTable) (c : ClassId) :
    t.unindexed.classAt c = (t.classAt c).unindexed :=
  getD_map_of_default _ _ _ rfl

theorem unindexed_methodAt (t : SymbolTable) (m : MethodId) :
    t.unindexed.methodAt m = (t.methodAt m).unindexed :=
  getD_map_of_default _ _ _ rfl

theorem unindexed_classes_length (t : SymbolTable) :
    t.unindexed.classes.length = t.classes.length :=
  List.length_map ..

theorem unindexed_methods_length (t : SymbolTable) :
    t.unindexed.methods.length = t.methods.length :=
  List.length_map ..

theorem unindexed_lookupClass (t : SymbolTable) (name : String) :
    t.unindexed.lookupClass name = t.lookupClass name :=
  List.findIdx?_map

theorem unindexed_memberSpan? (t : SymbolTable) (c : ClassId) (name : String) :
    t.unindexed.memberSpan? c name = t.memberSpan? c name := by
  have hmethod : t.unindexed.declaredMethod c name = t.declaredMethod c name :=
    List.findIdx?_map
  rw [memberSpan?_eq, memberSpan?_eq, unindexed_classAt, hmethod]
  simp only [unindexed_methodAt]
  rfl

theorem unindexed_addMethod (t : SymbolTable) (c : ClassId) (name : String)
    (returnType : Option Ident) (index : Nat) (span : Span) :
    (t.addMethod c name returnType index span).unindexed
      = t.unindexed.addMethod c name returnType 0 span := by
  unfold addMethod
  rw [unindexed_classAt]
  exact congrArg (SymbolTable.mk _ · _ _) List.map_append

theorem unindexed_addClass (t : SymbolTable) (name : String) (parents : List Ident) (index : Nat)
    (span : Span) :
    (t.addClass name parents index span).unindexed = t.unindexed.addClass name parents 0 span := by
  unfold addClass
  rw [unindexed_classes_length]
  exact congrArg (SymbolTable.mk · _ _ _) List.map_append

end SymbolTable

/-- What was collected, without the places. -/
def Collected.unindexed (r : Collected) : Collected :=
  { r with table := r.table.unindexed }

namespace SymbolTable

variable {t t' : SymbolTable} {c : ClassId}

theorem unindexed_andThen {r : Collected} {f g : SymbolTable → Collected}
    (h : g r.table.unindexed = (f r.table).unindexed) :
    r.unindexed.andThen g = (r.andThen f).unindexed := by
  unfold andThen
  rw [show r.unindexed.table = r.table.unindexed from rfl, h]
  rfl

theorem unindexed_each {α : Type} {f g : α → SymbolTable → Collected} (xs : List α)
    (one : ∀ a ∈ xs, ∀ t, g a t.unindexed = (f a t).unindexed) (t : SymbolTable) :
    each g xs t.unindexed = (each f xs t).unindexed := by
  induction xs generalizing t with
  | nil => rfl
  | cons a rest ih =>
    show (g a t.unindexed).andThen (each g rest) = _
    rw [one a List.mem_cons_self t]
    exact unindexed_andThen (ih (fun b hb => one b (List.mem_cons_of_mem a hb)) _)

theorem unindexed_declareVar (t : SymbolTable) (v : VarSymbol) :
    ofDeclare t.unindexed (t.unindexed.declareVar v)
      = (ofDeclare t (t.declareVar v)).unindexed := by
  unfold declareVar
  rw [show t.unindexed.lookupIn v.scope v.name = t.lookupIn v.scope v.name from rfl]
  cases t.lookupIn v.scope v.name <;> rfl

mutual
theorem unindexed_collectStmt (s : ScopeId) : (stmt : Stmt) → (t : SymbolTable) →
    collectStmt s stmt t.unindexed = (collectStmt s stmt t).unindexed
  | .declare type vars _, t =>
    unindexed_each vars (fun v _ u =>
      unindexed_declareVar u (localSymbol s v.name.text type v.name.span)) t
  | .ifThen _ body _ _, t => unindexed_collectStmts _ body (t.openBlock s).2
  | .ifElse _ body _ other _ _, t => by
    unfold collectStmt
    show (collectStmts _ body (t.openBlock s).2.unindexed).andThen _ = _
    rw [unindexed_collectStmts _ body (t.openBlock s).2]
    exact unindexed_andThen (unindexed_collectStmts _ other (SymbolTable.openBlock _ s).2)
  | .loop _ body _ _, t => unindexed_collectStmts _ body (t.openBlock s).2
  | .ret _ _, _ => rfl
  | .assign _ _ _, _ => rfl
  | .eval _ _, _ => rfl
theorem unindexed_collectStmts (s : ScopeId) : (body : List Stmt) → (t : SymbolTable) →
    collectStmts s body t.unindexed = (collectStmts s body t).unindexed
  | [], _ => rfl
  | stmt :: rest, t => by
    unfold collectStmts
    rw [unindexed_collectStmt s stmt t]
    exact unindexed_andThen (unindexed_collectStmts s rest _)
end

theorem unindexed_collectParam (m : MethodId) (methodName : String) (q : Param) (t : SymbolTable) :
    collectParam m methodName q t.unindexed = (collectParam m methodName q t).unindexed := by
  unfold collectParam declareParam
  cases q.type with
  | none => rfl
  | some type =>
    rw [unindexed_methodAt]
    exact unindexed_declareVar t (paramSymbol (t.methodAt m).scope q.name.text type q.span)

theorem unindexed_collectMethodBody (m : MethodId) (receiver : Param) (params : List Param)
    (decl : MethodDecl) (t : SymbolTable) :
    collectMethodBody m receiver params decl t.unindexed
      = (collectMethodBody m receiver params decl t).unindexed := by
  unfold collectMethodBody declareReceiver
  rw [unindexed_methodAt]
  show (ofDeclare t.unindexed (t.unindexed.declareVar (receiverSymbol (t.methodAt m).scope
    receiver.name.text (t.methodAt m).owner receiver.span))).andThen _ = _
  rw [unindexed_declareVar]
  refine unindexed_andThen ?_
  rw [unindexed_each params fun q _ u => unindexed_collectParam m decl.name.text q u]
  refine unindexed_andThen ?_
  rw [unindexed_methodAt]
  exact unindexed_collectStmts _ decl.body _

/-- **A member leaves the same behind wherever it stands**, apart from the place. -/
theorem collectMember_unindexed (m : Member) (k k' : Nat) (heq : t.unindexed = t'.unindexed) :
    (collectMember c (m, k) t).table.unindexed = (collectMember c (m, k') t').table.unindexed := by
  have one : ∀ k t, (collectMember c (m, k) t).table.unindexed
      = (collectMember c (m, 0) t.unindexed).table := by
    intro k t
    cases m with
    | field decl =>
      refine (congrArg Collected.table (unindexed_each decl.names (fun n _ u => ?_) t)).symm
      rw [ofDeclare_declareField, ofDeclare_declareField, unindexed_memberSpan?, unindexed_classAt]
      cases u.memberSpan? c n.text <;> rfl
    | method decl =>
      show (collectMethod c k decl t).table.unindexed = (collectMethod c 0 decl t.unindexed).table
      cases hr : decl.hasReceiver with
      | false =>
        obtain ⟨i, hi⟩ := exists_collectMethod_eq hr
        rw [hi, hi]
      | true =>
        obtain ⟨receiver, params, hcollect⟩ := exists_receiver hr
        rw [hcollect, hcollect, unindexed_memberSpan?, unindexed_methods_length,
          ← unindexed_addMethod t c decl.name.text decl.returnType k, unindexed_collectMethodBody]
        cases t.memberSpan? c decl.name.text <;> rfl
  rw [one, one, heq]

theorem collectMember_refused {before : List Member} {m : Member} (k : Nat)
    (h : MembersSoFar c (before.flatMap Member.taken) t) (href : m.refused before = true) :
    (collectMember c (m, k) t).table = t := by
  cases m with
  | field decl => cases href
  | method decl =>
    obtain ⟨hr, htaken⟩ := Bool.and_eq_true_iff.mp href
    obtain ⟨receiver, params, hcollect⟩ := exists_receiver hr
    have hspan : t.memberSpan? c decl.name.text ≠ none := by
      have hnames : t.memberSpan? c decl.name.text = _ := h.names decl.name.text
      rw [hnames, ne_eq, firstSpan_eq_none_iff, not_not]
      exact of_decide_eq_true htaken
    obtain ⟨first, hfirst⟩ := Option.ne_none_iff_exists'.mp hspan
    show (collectMethod c k decl t).table = t
    rw [hcollect, hfirst]

/-- **A class leaves behind what it leaves without the methods that are refused.** -/
theorem collectMembers_pruned (h : MembersSoFar c [] t) (heq : t.unindexed = t'.unindexed)
    (d : ClassDecl) :
    (collectMembers c d t).table.unindexed = (collectMembers c d.pruned t').table.unindexed := by
  refine each_unindexed (H := fun before => MembersSoFar c (before.flatMap Member.taken))
    (K := fun before m => if m.refused before then none else some m)
    (fun before m u hu => (collectMember_reports d before m u hu).2)
    (fun before m m' k k' u u' hu hkeep hu' => ?_) (fun before m k u hu hkeep => ?_)
    d.members [] 0 0 h heq
  · split at hkeep
    · cases hkeep
    · rw [← Option.some.inj hkeep]
      exact collectMember_unindexed m k k' hu'
  · split at hkeep
    · rename_i href
      exact collectMember_refused k hu href
    · cases hkeep

/-- A class with a new name leaves behind what it leaves without the methods that
are refused. -/
theorem collectClass_pruned (h : Formed t) (heq : t.unindexed = t'.unindexed) (d : ClassDecl)
    (k k' : Nat) (hfree : t.lookupClass d.name.text = none) :
    (collectClass (d, k) t).table.unindexed = (collectClass (d.pruned, k') t').table.unindexed := by
  have hfree' : t'.lookupClass d.name.text = none := by
    rw [← unindexed_lookupClass, ← heq, unindexed_lookupClass, hfree]
  have hlength : t.classes.length = t'.classes.length := by
    rw [← unindexed_classes_length, heq, unindexed_classes_length]
  have hnew : MembersSoFar t.classes.length []
      (t.addClass d.name.text d.parents k d.name.span) :=
    ⟨hasClass_addClass h d.parents k d.name.span hfree,
      fun n => not_not.mp (not_takenMember_addClass h _ _ _ _ n)⟩
  unfold collectClass declareClass
  rw [hfree, show t'.lookupClass (d.pruned, k').1.name.text = none from hfree']
  dsimp only
  rw [← hlength]
  refine collectMembers_pruned hnew ?_ d
  rw [unindexed_addClass, unindexed_addClass, heq]
  rfl

end SymbolTable

/-- **Declarations that are refused are checked, and leave no trace.** What is
found in a program is found at its classes in order: at each the clash with the
first class of its name, if there is one before it, and then exactly what is found
in the class alone. What is found in a class is found at its members in order: at
each name of a field the clash with an earlier member; at a method with a receiver
likewise the clash, and then exactly what is found in the method as the only
member of its class. The table is that of the program without the classes and the
methods that were refused, apart from the places of the declarations. -/
theorem refused_declarations_leave_no_trace (p : Program) :
    (collect p).issues = (withEarlier [] p.classes).flatMap (fun d => d.2.report d.1)
      ∧ (∀ d : ClassDecl,
          d.issues = (withEarlier [] d.members).flatMap fun m => d.memberReport m.1 m.2)
      ∧ (collect p).table.unindexed = (collect p.pruned).table.unindexed := by
  have start : ClassesSoFar [] empty := ⟨formed_empty, closed_empty, fun _ => rfl⟩
  refine ⟨?_, fun d => ?_, ?_⟩
  · have hall := (each_reports collectClass_reports p.classes.zipIdx [] start).1
    rwa [List.zipIdx_map_fst] at hall
  · have hnew : MembersSoFar 0 [] (empty.addClass d.name.text d.parents 0 d.name.span) :=
      ⟨hasClass_alone d, memberSpan?_empty d.name.text d.parents d.name.span⟩
    have hall := (each_reports (H := fun before => MembersSoFar 0 (before.flatMap Member.taken))
      (collectMember_reports d) d.members.zipIdx [] hnew).1
    rw [List.zipIdx_map_fst] at hall
    rw [issues_eq_collectAlone]
    exact hall
  · refine each_unindexed
      (K := fun before d => if d.name.text ∈ before.map (·.name.text) then none else some d.pruned)
      (fun before d u hu => (collectClass_reports before d u hu).2)
      (fun before d d' k k' u u' hu hkeep heq => ?_) (fun before d k u hu hkeep => ?_)
      p.classes [] 0 0 start rfl
    · split at hkeep
      · cases hkeep
      · rename_i hnew
        rw [← Option.some.inj hkeep]
        exact collectClass_pruned hu.formed heq d k k' (hu.lookupClass_eq_none_iff.mpr hnew)
    · split at hkeep
      · rename_i htaken
        exact collectClass_table_of_taken fun hfree => hu.lookupClass_eq_none_iff.mp hfree htaken
      · cases hkeep

end Heritage
