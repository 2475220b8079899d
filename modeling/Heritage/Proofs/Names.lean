import Heritage.Proofs.Registered
import Heritage.Proofs.WellFormed

/-!
# Collecting finds nothing exactly if names are in order

Each part of the walk declares some names in one place – the classes of the
program, the members of a class, the variables of a scope – and finds nothing
wrong exactly if these names differ, none of them is taken there before, and
what stands inside is in order. `Declares` says so of one part, together with
what is taken afterwards, and parts in a row compose.
-/

namespace Heritage

open SymbolTable

namespace Collected

/-- Names that can be declared one after the other: they differ, and none is
taken. -/
def Free (taken : String → Prop) (names : List String) : Prop :=
  names.Nodup ∧ ∀ n ∈ names, ¬ taken n

theorem free_append {taken : String → Prop} {xs ys : List String} :
    Free taken (xs ++ ys) ↔ Free taken xs ∧ Free (fun n => n ∈ xs ∨ taken n) ys := by
  unfold Free
  rw [List.nodup_append']
  constructor
  · rintro ⟨⟨hx, hy, hxy⟩, hfree⟩
    refine ⟨⟨hx, fun n hn => hfree n (List.mem_append_left ys hn)⟩, hy, fun n hn hc => ?_⟩
    rcases hc with hc | hc
    · exact hxy hc hn
    · exact hfree n (List.mem_append_right xs hn) hc
  · rintro ⟨⟨hx, hfx⟩, hy, hfy⟩
    refine ⟨⟨hx, hy, fun n hnx hny => hfy n hny (Or.inl hnx)⟩, fun n hn => ?_⟩
    rcases List.mem_append.mp hn with hn | hn
    · exact hfx n hn
    · exact fun hc => hfy n hn (Or.inr hc)

theorem free_congr {taken taken' : String → Prop} (h : ∀ n, taken n ↔ taken' n)
    (names : List String) : Free taken names ↔ Free taken' names := by
  unfold Free
  simp only [h]

theorem free_singleton {taken : String → Prop} {name : String} :
    Free taken [name] ↔ ¬ taken name := by
  simp [Free]

/-- **What a part of the walk declares**: it finds nothing exactly if the names
are free and the rest is in order, and then the names are taken behind it. -/
structure Declares (taken : SymbolTable → String → Prop) (t : SymbolTable) (names : List String)
    (ok : Prop) (r : Collected) : Prop where
  /-- When nothing is found. -/
  clean : r.issues = [] ↔ Free (taken t) names ∧ ok
  /-- What is taken then. -/
  taken : r.issues = [] → ∀ n, taken r.table n ↔ n ∈ names ∨ taken t n

variable {taken : SymbolTable → String → Prop} {t : SymbolTable} {names names' : List String}
  {ok ok' : Prop} {r : Collected}

theorem declares_nil (taken : SymbolTable → String → Prop) (t : SymbolTable) :
    Declares taken t [] True { table := t } where
  clean := by simp [Free]
  taken _ n := by simp

/-- A part that always finds something is never in order. -/
theorem declares_of_ne_nil (h : r.issues ≠ []) (hok : Free (taken t) names → ¬ ok) :
    Declares taken t names ok r where
  clean := ⟨fun hr => (h hr).elim, fun hf => (hok hf.1 hf.2).elim⟩
  taken hr := (h hr).elim

theorem Declares.congr (h : Declares taken t names ok r) (hnames : names = names')
    (hok : ok ↔ ok') : Declares taken t names' ok' r where
  clean := by rw [h.clean, hok, hnames]
  taken := hnames ▸ h.taken

/-- **Parts in a row** declare the names of both. -/
theorem Declares.andThen (h : Declares taken t names ok r) {f : SymbolTable → Collected}
    (h' : r.issues = [] → Declares taken r.table names' ok' (f r.table)) :
    Declares taken t (names ++ names') (ok ∧ ok') (r.andThen f) where
  clean := by
    rw [andThen_issues, List.append_eq_nil_iff, free_append]
    constructor
    · rintro ⟨hr, hf⟩
      obtain ⟨hnames, hok⟩ := h.clean.mp hr
      obtain ⟨hnames', hok'⟩ := (h' hr).clean.mp hf
      exact ⟨⟨hnames, (free_congr (h.taken hr) _).mp hnames'⟩, hok, hok'⟩
    · rintro ⟨⟨hnames, hnames'⟩, hok, hok'⟩
      have hr := h.clean.mpr ⟨hnames, hok⟩
      exact ⟨hr, (h' hr).clean.mpr ⟨(free_congr (h.taken hr) _).mpr hnames', hok'⟩⟩
  taken hi n := by
    obtain ⟨hr, hf⟩ := List.append_eq_nil_iff.mp hi
    rw [andThen_table, (h' hr).taken hf n, h.taken hr n, List.mem_append, ← or_assoc]
    exact or_congr_left or_comm

/-- **A list of parts** declares the names of all. -/
theorem declares_each {α : Type} {f : α → SymbolTable → Collected} {I : SymbolTable → Prop}
    (names : α → List String) (ok : α → Prop) {xs : List α}
    (stable : ∀ a ∈ xs, ∀ t, I t → I (f a t).table)
    (one : ∀ a ∈ xs, ∀ t, I t → Declares taken t (names a) (ok a) (f a t)) (h : I t) :
    Declares taken t (xs.flatMap names) (∀ a ∈ xs, ok a) (each f xs t) := by
  induction xs generalizing t with
  | nil => exact (declares_nil taken t).congr rfl (by simp)
  | cons a rest ih =>
    have first := one a List.mem_cons_self t h
    have more := ih (fun b hb => stable b (List.mem_cons_of_mem a hb))
      (fun b hb => one b (List.mem_cons_of_mem a hb)) (stable a List.mem_cons_self t h)
    exact (first.andThen fun _ => more).congr rfl List.forall_mem_cons.symm

end Collected

open Collected

namespace SymbolTable

variable {t : SymbolTable}

/-! ## Variables -/

/-- A name of a scope is taken. -/
def TakenIn (s : ScopeId) (t : SymbolTable) (name : String) : Prop :=
  t.lookupIn s name ≠ none

theorem lookupIn_addVar_eq_none_iff {v : VarSymbol} {s : ScopeId} {name : String} :
    (t.addVar v).lookupIn s name = none
      ↔ ¬ (v.scope = s ∧ v.name = name) ∧ t.lookupIn s name = none := by
  rw [lookupIn_eq_none_iff, lookupIn_eq_none_iff]
  show _ ∉ (t.vars ++ [v]).map _ ↔ _
  simp only [List.map_append, List.mem_append, List.map_cons, List.map_nil, List.mem_singleton,
    Prod.mk.injEq, not_or]
  rw [and_comm, eq_comm, @eq_comm _ name]

theorem declareVar_declares (v : VarSymbol) :
    Declares (TakenIn v.scope) t [v.name] True (ofDeclare t (t.declareVar v)) := by
  unfold declareVar
  cases hfree : t.lookupIn v.scope v.name with
  | some w =>
    exact declares_of_ne_nil (List.cons_ne_nil _ _) (by simp [free_singleton, TakenIn, hfree])
  | none =>
    refine ⟨by simp [ofDeclare, free_singleton, TakenIn, hfree], fun _ n => ?_⟩
    show (t.addVar v).lookupIn v.scope n ≠ none ↔ n ∈ [v.name] ∨ t.lookupIn v.scope n ≠ none
    rw [ne_eq, lookupIn_addVar_eq_none_iff, not_and_or, not_not, List.mem_singleton]
    exact or_congr_left ⟨fun hn => hn.2.symm, fun hn => ⟨rfl, hn.symm⟩⟩

/-! ## Bodies -/

/-- A scope of a well-formed table in which statements stand. -/
def HasScope (t : SymbolTable) (s : ScopeId) : Prop :=
  Formed t ∧ BodyScope t s

theorem HasScope.grows {A : ScopeId → Prop} {t' : SymbolTable} {s : ScopeId}
    (h : HasScope t s) (hg : Grows A t t') : HasScope t' s :=
  ⟨h.1.grows hg, h.2.grows hg⟩

/-- In a scope that is not there yet, nothing is taken. -/
theorem Formed.not_takenIn (h : Formed t) {s : ScopeId} (hs : t.scopes.length ≤ s)
    (name : String) : ¬ TakenIn s t name := by
  rw [TakenIn, not_not, lookupIn_eq_none_iff, List.mem_map]
  rintro ⟨v, hv, heq⟩
  obtain ⟨k, hk, -⟩ := h.var_scope v hv
  rw [(Prod.mk.inj heq).1] at hk
  exact Nat.not_lt.mpr hs (List.getElem?_eq_some_iff.mp hk).1

/-- **A block declares nothing around it**, and its own names are free if they
differ. -/
theorem declares_block {s : ScopeId} (h : HasScope t s) {body : List Stmt}
    (inside : Declares (TakenIn t.scopes.length) (t.openBlock s).2 (localsOf body)
      (BlocksDistinct body) (collectStmts t.scopes.length body (t.openBlock s).2)) :
    Declares (TakenIn s) t [] ((localsOf body).Nodup ∧ BlocksDistinct body)
      (collectStmts t.scopes.length body (t.openBlock s).2) where
  clean := by
    have hnone : ∀ n, ¬ TakenIn t.scopes.length (t.openBlock s).2 n :=
      fun n => h.1.not_takenIn (Nat.le_refl _) n
    rw [inside.clean]
    simp [Free, hnone]
  taken _ n := by
    have hself := (collectStmts_grows _ body _ (bodyScope_openBlock t s)).lookupIn_eq
      (Nat.ne_of_lt h.2.1)
      (Nat.lt_of_lt_of_le h.2.1 (openBlock_grows h.2).scopes_isPrefix.length_le) n
    rw [TakenIn, hself]
    simp [TakenIn, lookupIn, openBlock, addScope]

mutual
theorem collectStmt_declares (s : ScopeId) : (stmt : Stmt) → (t : SymbolTable) → HasScope t s →
    Declares (TakenIn s) t stmt.locals stmt.Distinct (collectStmt s stmt t)
  | .declare type vars _, t, _ => by
    unfold collectStmt Stmt.locals Stmt.Distinct
    refine (declares_each (I := fun _ => True) (fun v : Declarator => [v.name.text])
      (fun _ => True) (fun _ _ _ _ => trivial) (fun v _ u _ => ?_) trivial).congr
      (List.map_eq_flatMap).symm (by simp)
    exact declareVar_declares (localSymbol s v.name.text type v.name.span)
  | .ifThen _ body _ _, t, h => by
    unfold collectStmt Stmt.locals Stmt.Distinct
    exact declares_block h
      (collectStmts_declares _ body _ ⟨h.1.openBlock h.2.1, bodyScope_openBlock t s⟩)
  | .ifElse _ body _ other _ _, t, h => by
    unfold collectStmt Stmt.locals Stmt.Distinct
    have first := openBlock_trans h.2 (collectStmts_grows _ body _ (bodyScope_openBlock t s))
    have h' := h.grows first
    refine (declares_block h (collectStmts_declares _ body _
      ⟨h.1.openBlock h.2.1, bodyScope_openBlock t s⟩)).andThen fun _ => ?_
    exact declares_block h' (collectStmts_declares _ other _
      ⟨h'.1.openBlock h'.2.1, bodyScope_openBlock _ s⟩)
  | .loop _ body _ _, t, h => by
    unfold collectStmt Stmt.locals Stmt.Distinct
    exact declares_block h
      (collectStmts_declares _ body _ ⟨h.1.openBlock h.2.1, bodyScope_openBlock t s⟩)
  | .ret _ _, t, _ => declares_nil _ t
  | .assign _ _ _, t, _ => declares_nil _ t
  | .eval _ _, t, _ => declares_nil _ t
/-- **The statements of a block declare its locals.** -/
theorem collectStmts_declares (s : ScopeId) : (body : List Stmt) → (t : SymbolTable) →
    HasScope t s →
    Declares (TakenIn s) t (localsOf body) (BlocksDistinct body) (collectStmts s body t)
  | [], t, _ => declares_nil _ t
  | stmt :: rest, t, h => by
    have first := collectStmt_declares s stmt t h
    have more := collectStmts_declares s rest _ (h.grows (collectStmt_grows s stmt t h.2))
    exact first.andThen fun _ => more
end

/-! ## Methods -/

theorem collectParam_declares {m : MethodId} (methodName : String) (q : Param) :
    Declares (TakenIn (t.methodAt m).scope) t [q.name.text] (q.type ≠ none)
      (collectParam m methodName q t) := by
  unfold collectParam
  cases hq : q.type with
  | none => exact declares_of_ne_nil (List.cons_ne_nil _ _) (fun _ => by simp)
  | some type =>
    exact (declareVar_declares
      (paramSymbol (t.methodAt m).scope q.name.text type q.span)).congr rfl (by simp)

theorem collectParams_declares {m : MethodId} (h : HasMethod t m) (methodName : String)
    (params : List Param) :
    Declares (TakenIn (t.methodAt m).scope) t (params.map (·.name.text))
      (∀ q ∈ params, q.type ≠ none) (each (collectParam m methodName) params t) := by
  rw [List.map_eq_flatMap]
  refine declares_each (I := fun u => HasMethod u m ∧ u.methodAt m = t.methodAt m)
    (fun q : Param => [q.name.text]) (fun q => q.type ≠ none) (fun q _ u hu => ?_)
    (fun q _ u hu => hu.2 ▸ collectParam_declares methodName q) ⟨h, rfl⟩
  have hg := collectParam_grows hu.1 methodName q
  exact ⟨hu.1.grows hg, (hg.methodAt_eq hu.1.2).trans hu.2⟩

/-- **A method declares its parameters and the locals of its body.** -/
theorem collectMethodBody_declares {m : MethodId} (h : HasMethod t m) (receiver : Param)
    (params : List Param) (decl : MethodDecl) :
    Declares (TakenIn (t.methodAt m).scope) t
      ((receiver :: params).map (·.name.text) ++ localsOf decl.body)
      ((∀ q ∈ params, q.type ≠ none) ∧ BlocksDistinct decl.body)
      (collectMethodBody m receiver params decl t) := by
  have hrecv := declareReceiver_grows h receiver.name.text receiver.span
  have hparams := withParams_grows h receiver params decl
  have first : Declares (TakenIn (t.methodAt m).scope) t [receiver.name.text] True
      (ofDeclare t (t.declareReceiver m receiver.name.text receiver.span)) :=
    declareVar_declares
      (receiverSymbol (t.methodAt m).scope receiver.name.text (t.methodAt m).owner receiver.span)
  have more := collectParams_declares (h.grows hrecv) decl.name.text params
  rw [hrecv.methodAt_eq h.2] at more
  have inside : Declares (TakenIn (t.methodAt m).scope) (withParams m receiver params decl t)
      (localsOf decl.body) (BlocksDistinct decl.body)
      (collectStmts ((withParams m receiver params decl t).methodAt m).scope decl.body
        (withParams m receiver params decl t)) := by
    rw [← hparams.methodAt_eq h.2]
    exact collectStmts_declares _ decl.body _ ⟨h.1.grows hparams, (h.grows hparams).bodyScope⟩
  have both := more.andThen (f := fun u => collectStmts (u.methodAt m).scope decl.body u)
    fun _ => inside
  exact (first.andThen fun _ => both).congr rfl (by simp)

/-- A member of a class has a name. -/
def TakenMember (c : ClassId) (t : SymbolTable) (name : String) : Prop :=
  t.memberSpan? c name ≠ none

theorem takenMember_iff {c : ClassId} {name : String} :
    TakenMember c t name ↔ t.declaredField c name ≠ none ∨ t.declaredMethod c name ≠ none := by
  rw [TakenMember, ne_eq, memberSpan?_eq_none_iff, not_and_or]

theorem declaredMethod_addMethod_eq_none_iff {c d : ClassId} {name name' : String}
    {returnType : Option Ident} {index : Nat} {span : Span} :
    (t.addMethod c name returnType index span).declaredMethod d name' = none
      ↔ ¬ (c = d ∧ name = name') ∧ t.declaredMethod d name' = none := by
  rw [declaredMethod_eq_none_iff, declaredMethod_eq_none_iff]
  show _ ∉ (t.methods ++ [_]).map _ ↔ _
  simp only [List.map_append, List.mem_append, List.map_cons, List.map_nil, List.mem_singleton,
    Prod.mk.injEq, not_or]
  rw [and_comm, eq_comm, @eq_comm _ name]

/-- What is collected inside a method that was added leaves the other members of
its class alone. -/
theorem takenMember_collectMethodBody {c : ClassId} (h : HasClass t c) {name : String}
    (returnType : Option Ident) (index : Nat) (span : Span)
    (hfree : t.memberSpan? c name = none) (receiver : Param) (params : List Param)
    (decl : MethodDecl) (n : String) :
    TakenMember c (collectMethodBody t.methods.length receiver params decl
        (t.addMethod c name returnType index span)).table n
      ↔ n = name ∨ TakenMember c t n := by
  have hm := hasMethod_addMethod h returnType index span hfree
  have hg := collectMethodBody_grows hm receiver params decl
  rw [methodAt_addMethod] at hg
  have hfield : (collectMethodBody t.methods.length receiver params decl
      (t.addMethod c name returnType index span)).table.declaredField c n
        = t.declaredField c n := by
    unfold declaredField
    rw [hg.classAt_eq h.2]
    refine hg.lookupIn_eq (classAt_scope_ne h.1 h.2) ?_ n
    exact Nat.lt_of_lt_of_le (h.1.classAt_scope_lt h.2)
      (addMethod_grows h returnType index span hfree).scopes_isPrefix.length_le
  have hmethod : (collectMethodBody t.methods.length receiver params decl
      (t.addMethod c name returnType index span)).table.declaredMethod c n
        = (t.addMethod c name returnType index span).declaredMethod c n := by
    unfold declaredMethod
    rw [collectMethodBody_methods hm]
  have hadd : (t.addMethod c name returnType index span).declaredMethod c n ≠ none
      ↔ n = name ∨ t.declaredMethod c n ≠ none := by
    rw [ne_eq, declaredMethod_addMethod_eq_none_iff, not_and_or, not_not]
    exact or_congr_left ⟨fun hn => hn.2.symm, fun hn => ⟨rfl, hn.symm⟩⟩
  rw [takenMember_iff, takenMember_iff, hfield, hmethod, hadd]
  exact or_left_comm

/-- Names are in order exactly if there is a receiver and what it says of the
method holds. -/
theorem namesOk_iff {decl : MethodDecl} {receiver : Param} {params : List Param}
    (hp : decl.params = receiver :: params) (htype : receiver.type = none) :
    decl.NamesOk ↔ Free (fun _ => False) ((receiver :: params).map (·.name.text)
        ++ localsOf decl.body)
      ∧ (∀ q ∈ params, q.type ≠ none) ∧ BlocksDistinct decl.body := by
  unfold Free
  rw [← hp]
  constructor
  · intro h
    obtain ⟨receiver', params', hp', -, htypes⟩ := h.params
    rw [hp] at hp'
    obtain ⟨rfl, rfl⟩ := List.cons.inj hp'
    exact ⟨⟨h.distinct, by simp⟩, htypes, h.blocks⟩
  · rintro ⟨⟨hdistinct, -⟩, htypes, hblocks⟩
    exact ⟨⟨receiver, params, hp, htype, htypes⟩, hdistinct, hblocks⟩

/-- **A method declares its name among the members of its class.** -/
theorem collectMethod_declares {c : ClassId} (h : HasClass t c) (index : Nat)
    (decl : MethodDecl) :
    Declares (TakenMember c) t [decl.name.text] decl.NamesOk (collectMethod c index decl t) := by
  cases hp : decl.params with
  | nil =>
    refine declares_of_ne_nil ?_ (fun _ hok => ?_)
    · unfold collectMethod
      rw [hp]
      exact List.cons_ne_nil _ _
    · obtain ⟨_, _, hcons, -⟩ := hok.params
      rw [hp] at hcons
      cases hcons
  | cons receiver params =>
    by_cases htype : receiver.type = none
    · unfold collectMethod declareMethod
      rw [hp]
      dsimp only
      rw [htype, if_neg (by simp)]
      cases hfree : t.memberSpan? c decl.name.text with
      | some first =>
        refine declares_of_ne_nil (List.cons_ne_nil _ _) (fun hf _ => ?_)
        rw [free_singleton, TakenMember, hfree] at hf
        exact hf (Option.some_ne_none first)
      | none =>
        have hm := hasMethod_addMethod h decl.returnType index decl.name.span hfree
        have body := collectMethodBody_declares hm receiver params decl
        rw [methodAt_addMethod] at body
        refine ⟨?_, fun _ n => ?_⟩
        · have hnone : ∀ n, TakenIn t.scopes.length
              (t.addMethod c decl.name.text decl.returnType index decl.name.span) n ↔ False :=
            fun n => iff_false_intro (h.1.not_takenIn (Nat.le_refl _) n)
          rw [body.clean, namesOk_iff hp htype, free_singleton, free_congr hnone]
          exact ⟨fun hok => ⟨not_not.mpr hfree, hok⟩, fun hok => hok.2⟩
        · rw [List.mem_singleton]
          exact takenMember_collectMethodBody h _ _ _ hfree receiver params decl n
    · refine declares_of_ne_nil ?_ (fun _ hok => ?_)
      · unfold collectMethod
        rw [hp]
        dsimp only
        rw [if_pos (Option.isSome_iff_ne_none.mpr htype)]
        exact List.cons_ne_nil _ _
      · obtain ⟨_, _, hcons, hnone, -⟩ := hok.params
        rw [hp] at hcons
        exact htype ((List.cons.inj hcons).1 ▸ hnone)

/-! ## Classes -/

theorem declareField_declares {c : ClassId} (name : String) (type : Ident) (span : Span) :
    Declares (TakenMember c) t [name] True (ofDeclare t (t.declareField c name type span)) := by
  unfold declareField
  cases hfree : t.memberSpan? c name with
  | some first =>
    refine declares_of_ne_nil (List.cons_ne_nil _ _) (fun hf _ => ?_)
    rw [free_singleton, TakenMember, hfree] at hf
    exact hf (Option.some_ne_none first)
  | none =>
    have hvar : t.lookupIn (t.classAt c).scope name = none := (memberSpan?_eq_none_iff.mp hfree).1
    unfold declareVar
    dsimp only
    rw [hvar]
    refine ⟨by simp [ofDeclare, free_singleton, TakenMember, hfree], fun _ n => ?_⟩
    show TakenMember c (t.addVar (fieldSymbol (t.classAt c).scope name type span)) n ↔ _
    have hadd : (t.addVar (fieldSymbol (t.classAt c).scope name type span)).declaredField c n ≠ none
        ↔ n = name ∨ t.declaredField c n ≠ none := by
      rw [ne_eq, declaredField, lookupIn_addVar_eq_none_iff, not_and_or, not_not]
      exact or_congr_left ⟨fun hn => hn.2.symm, fun hn => ⟨rfl, hn.symm⟩⟩
    rw [takenMember_iff, takenMember_iff, hadd, List.mem_singleton, or_assoc]
    rfl

/-- What a member must be in itself. -/
def MemberOk : Member → Prop
  | .field _ => True
  | .method decl => decl.NamesOk

theorem collectMember_declares {c : ClassId} (h : HasClass t c) (m : Member × Nat) :
    Declares (TakenMember c) t m.1.names (MemberOk m.1) (collectMember c m t) := by
  obtain ⟨m, index⟩ := m
  cases m with
  | field decl =>
    refine (declares_each (I := fun _ => True) (fun name : Ident => [name.text])
      (fun _ => True) (fun _ _ _ _ => trivial) (fun name _ u _ => ?_) trivial).congr
      (List.map_eq_flatMap).symm (by simp [MemberOk])
    exact declareField_declares name.text decl.type name.span
  | method decl => exact collectMethod_declares h index decl

/-- A class has a name. -/
def TakenClass (t : SymbolTable) (name : String) : Prop :=
  t.lookupClass name ≠ none

/-- What a class must be in itself. -/
def ClassOk (d : ClassDecl) : Prop :=
  (d.members.flatMap Member.names).Nodup ∧ ∀ m ∈ d.members, MemberOk m

theorem collectMembers_declares {c : ClassId} (h : HasClass t c) (d : ClassDecl) :
    Declares (TakenMember c) t (d.members.flatMap Member.names) (∀ m ∈ d.members, MemberOk m)
      (collectMembers c d t) := by
  refine (declares_each (I := (HasClass · c)) (fun m : Member × Nat => m.1.names)
    (fun m => MemberOk m.1) (fun m _ u hu => hu.grows (collectMember_grows hu m))
    (fun m _ u hu => collectMember_declares hu m) h).congr ?_ ?_
  · conv_rhs => rw [← List.zipIdx_map_fst 0 d.members, List.flatMap_map]
  · conv_rhs => rw [← List.zipIdx_map_fst 0 d.members, List.forall_mem_map]

/-- A class that was just added has no members. -/
theorem not_takenMember_addClass (h : Formed t) (name : String) (parents : List Ident)
    (index : Nat) (span : Span) (n : String) :
    ¬ TakenMember t.classes.length (t.addClass name parents index span) n := by
  rw [takenMember_iff, not_or, not_not, not_not, declaredField, classAt_addClass]
  refine ⟨not_not.mp (h.not_takenIn (Nat.le_refl _) n), declaredMethod_eq_none_iff.mpr ?_⟩
  intro hmem
  obtain ⟨m, hm, heq⟩ := List.mem_map.mp hmem
  exact Nat.ne_of_lt (h.method_owner m hm) (Prod.mk.inj heq).1

/-- **A class declares its name.** -/
theorem collectClass_declares (h : Formed t) (d : ClassDecl × Nat) :
    Declares TakenClass t [d.1.name.text] (ClassOk d.1) (collectClass d t) := by
  unfold collectClass declareClass
  cases hfree : t.lookupClass d.1.name.text with
  | some c =>
    refine declares_of_ne_nil (List.cons_ne_nil _ _) (fun hf _ => ?_)
    rw [free_singleton, TakenClass, hfree] at hf
    exact hf (Option.some_ne_none c)
  | none =>
    have hcls := hasClass_addClass h d.1.parents d.2 d.1.name.span hfree
    refine ⟨?_, fun _ n => ?_⟩
    · show (collectMembers _ _ _).issues = [] ↔ _
      rw [(collectMembers_declares hcls d.1).clean, free_singleton,
        free_congr fun n => iff_false_intro (not_takenMember_addClass h _ _ _ _ n)]
      unfold ClassOk Free
      exact ⟨fun hok => ⟨not_not.mpr hfree, hok.1.1, hok.2⟩,
        fun hok => ⟨⟨hok.2.1, fun _ _ => not_false⟩, hok.2.2⟩⟩
    · show (collectMembers _ _ _).table.lookupClass n ≠ none ↔ _
      rw [ne_eq, lookupClass_eq_none_iff, collectMembers_classes h d.2 hfree, not_not, TakenClass,
        ne_eq, lookupClass_eq_none_iff, not_not]
      simp only [addClass, List.map_append, List.map_cons, List.map_nil, List.mem_append,
        List.mem_singleton]
      exact or_comm

/-- **Collecting finds nothing exactly if the names of the program are in
order.** -/
theorem collect_issues_eq_nil_iff (p : Program) : (collect p).issues = [] ↔ p.NamesOk := by
  have hall := declares_each (I := Formed) (fun d : ClassDecl × Nat => [d.1.name.text])
    (fun d => ClassOk d.1)
    (fun d (_ : d ∈ p.classes.zipIdx) u hu => hu.grows (collectClass_grows hu d))
    (fun d _ u hu => collectClass_declares hu d) formed_empty
  rw [collect, hall.clean]
  have hnames : (p.classes.zipIdx.flatMap fun d => [d.1.name.text])
      = p.classes.map (·.name.text) := by
    conv_rhs => rw [← List.zipIdx_map_fst 0 p.classes, List.map_map, List.map_eq_flatMap]
    rfl
  have hok : (∀ d ∈ p.classes.zipIdx, ClassOk d.1) ↔ ∀ d ∈ p.classes, ClassOk d := by
    conv_rhs => rw [← List.zipIdx_map_fst 0 p.classes, List.forall_mem_map]
  rw [hnames, hok]
  constructor
  · rintro ⟨⟨hclasses, -⟩, hin⟩
    exact ⟨hclasses, fun d hd => (hin d hd).1, fun d hd m hm => (hin d hd).2 (.method m) hm⟩
  · intro h
    refine ⟨⟨h.classes, fun _ _ => not_not.mpr rfl⟩, fun d hd => ⟨h.members d hd, fun m hm => ?_⟩⟩
    cases m with
    | field decl => exact trivial
    | method decl => exact h.methods d hd decl hm

end SymbolTable

end Heritage
