import Heritage.Proofs.Collection

/-!
# The tree of scopes mirrors the tree of statements

Collecting a body opens one scope for each of its blocks, in the order in which
the blocks stand, and the scopes that stand directly in a scope are those of
the blocks that stand directly in its statements. `Mirrors` says so for a
table in which the collection is long over; whoever follows the same body again
can then find the scope of each block by counting.

`openedStmts` lists the blocks of a body in the order of the text, each with the
scope that the collection opens for it: it is the walk of the collection with
the positions it was given kept.
-/

namespace Heritage

namespace SymbolTable

/-! ## The scopes that are opened -/

/-- **A block and its scope.** -/
abbrev BlockScope := List Stmt × ScopeId

mutual
/-- The blocks of a statement with the scopes opened for them, outer ones
first. -/
def openedStmt (scope : ScopeId) : Stmt → SymbolTable → List BlockScope
  | .declare _ _ _, _ => []
  | .ifThen _ body _ _, t =>
    let (block, t) := t.openBlock scope
    (body, block) :: openedStmts block body t
  | .ifElse _ body _ other _ _, t =>
    let (block, t) := t.openBlock scope
    let (block', t') := (collectStmts block body t).table.openBlock scope
    (body, block) :: openedStmts block body t ++ (other, block') :: openedStmts block' other t'
  | .loop _ body _ _, t =>
    let (block, t) := t.openBlock scope
    (body, block) :: openedStmts block body t
  | .ret _ _, _ => []
  | .assign _ _ _, _ => []
  | .eval _ _, _ => []
/-- **The blocks of a list of statements with the scopes opened for them**, in
the order of the text. -/
def openedStmts (scope : ScopeId) : List Stmt → SymbolTable → List BlockScope
  | [], _ => []
  | s :: rest, t => openedStmt scope s t ++ openedStmts scope rest (collectStmt scope s t).table
end

/-! ## Mirroring -/

/-- **The scopes below a scope mirror its statements.** `blocks` are the scopes
of the blocks that stand directly in the statements, `opened` all their blocks
with their scopes; `D` is what is known of each variable they declare. -/
inductive Mirrors (t : SymbolTable) (D : ScopeId → Ident → Declarator → Prop) :
    ScopeId → List Stmt → List ScopeId → List BlockScope → Prop where
  | nil {s : ScopeId} : Mirrors t D s [] [] []
  | declare {s : ScopeId} {type : Ident} {vars : List Declarator} {span : Span}
      {rest : List Stmt} {blocks : List ScopeId} {opened : List BlockScope}
      (held : ∀ v ∈ vars, D s type v) (tail : Mirrors t D s rest blocks opened) :
      Mirrors t D s (.declare type vars span :: rest) blocks opened
  | ifThen {s b : ScopeId} {cond : Expr} {body : List Stmt} {bodySpan span : Span}
      {rest : List Stmt} {blocks : List ScopeId} {opened inner : List BlockScope}
      (inside : Mirrors t D b body (t.childrenOf b) inner)
      (tail : Mirrors t D s rest blocks opened) :
      Mirrors t D s (.ifThen cond body bodySpan span :: rest) (b :: blocks)
        ((body, b) :: inner ++ opened)
  | ifElse {s b b' : ScopeId} {cond : Expr} {body other : List Stmt}
      {bodySpan otherSpan span : Span} {rest : List Stmt}
      {blocks : List ScopeId} {opened inner inner' : List BlockScope}
      (inside : Mirrors t D b body (t.childrenOf b) inner)
      (inside' : Mirrors t D b' other (t.childrenOf b') inner')
      (tail : Mirrors t D s rest blocks opened) :
      Mirrors t D s (.ifElse cond body bodySpan other otherSpan span :: rest)
        (b :: b' :: blocks) (((body, b) :: inner ++ (other, b') :: inner') ++ opened)
  | loop {s b : ScopeId} {cond : Expr} {body : List Stmt} {bodySpan span : Span}
      {rest : List Stmt} {blocks : List ScopeId} {opened inner : List BlockScope}
      (inside : Mirrors t D b body (t.childrenOf b) inner)
      (tail : Mirrors t D s rest blocks opened) :
      Mirrors t D s (.loop cond body bodySpan span :: rest) (b :: blocks)
        ((body, b) :: inner ++ opened)
  | ret {s : ScopeId} {value : Option Expr} {span : Span} {rest : List Stmt}
      {blocks : List ScopeId} {opened : List BlockScope} (tail : Mirrors t D s rest blocks opened) :
      Mirrors t D s (.ret value span :: rest) blocks opened
  | assign {s : ScopeId} {target : Ident} {value : Expr} {span : Span} {rest : List Stmt}
      {blocks : List ScopeId} {opened : List BlockScope} (tail : Mirrors t D s rest blocks opened) :
      Mirrors t D s (.assign target value span :: rest) blocks opened
  | eval {s : ScopeId} {expr : Expr} {span : Span} {rest : List Stmt}
      {blocks : List ScopeId} {opened : List BlockScope} (tail : Mirrors t D s rest blocks opened) :
      Mirrors t D s (.eval expr span :: rest) blocks opened

/-- What mirrors the statements in one table mirrors them in every table with
the same blocks in every scope. -/
theorem Mirrors.transfer {t t' : SymbolTable} {D D' : ScopeId → Ident → Declarator → Prop}
    (children : ∀ s, t'.childrenOf s = t.childrenOf s)
    (known : ∀ s type v, D s type v → D' s type v)
    {s : ScopeId} {body : List Stmt} {blocks : List ScopeId} {opened : List BlockScope}
    (h : Mirrors t D s body blocks opened) : Mirrors t' D' s body blocks opened := by
  induction h with
  | nil => exact .nil
  | declare held _ ih => exact .declare (fun v hv => known _ _ _ (held v hv)) ih
  | ifThen _ _ ihIn ih => exact .ifThen (children _ ▸ ihIn) ih
  | ifElse _ _ _ ihIn ihIn' ih => exact .ifElse (children _ ▸ ihIn) (children _ ▸ ihIn') ih
  | loop _ _ ihIn ih => exact .loop (children _ ▸ ihIn) ih
  | ret _ ih => exact .ret ih
  | assign _ ih => exact .assign ih
  | eval _ ih => exact .eval ih

/-! ## Declaring locals -/

/-- What is known of a variable after its declaration was collected: its scope
has a variable of that name, and if nothing was wrong it is this one. -/
def Held (t : SymbolTable) (clean : Prop) (s : ScopeId) (type : Ident) (v : Declarator) : Prop :=
  ∃ id < t.vars.length, t.lookupIn s v.name.text = some id
    ∧ (clean → t.varAt id = localSymbol s v.name.text type v.name.span)

theorem lookupIn_lt {t : SymbolTable} {s : ScopeId} {name : String} {id : VarId}
    (h : t.lookupIn s name = some id) : id < t.vars.length := by
  rw [lookupIn, findIdx?_eq_head?] at h
  exact lt_of_mem_positions (List.mem_of_mem_head? h)

theorem lookupIn_addVar {t : SymbolTable} {v : VarSymbol}
    (free : t.lookupIn v.scope v.name = none) :
    (t.addVar v).lookupIn v.scope v.name = some t.vars.length := by
  show (t.vars ++ [v]).findIdx? _ = _
  rw [lookupIn] at free
  rw [List.findIdx?_append, free]
  simp

theorem declareLocal_held {t : SymbolTable} {clean : Prop} (s : ScopeId) (type : Ident)
    (v : Declarator) (hclean : clean → (Collected.ofDeclare t
      (t.declareLocal s v.name.text type v.name.span)).issues = []) :
    Held (Collected.ofDeclare t (t.declareLocal s v.name.text type v.name.span)).table
      clean s type v := by
  unfold declareLocal declareVar at *
  dsimp only at *
  cases hfree : t.lookupIn s v.name.text with
  | none =>
    refine ⟨t.vars.length, ?_, lookupIn_addVar hfree, fun _ => ?_⟩
    · show t.vars.length < (t.vars ++ [_]).length
      rw [List.length_append]
      exact Nat.lt_succ_self _
    · exact getD_of_eq_some List.getElem?_concat_length _
  | some w =>
    rw [hfree] at hclean
    refine ⟨w, lookupIn_lt hfree, hfree, fun hc => ?_⟩
    cases hclean hc

theorem Held.grows {A : ScopeId → Prop} {t t' : SymbolTable} {clean : Prop} {s : ScopeId}
    {type : Ident} {v : Declarator} (h : Held t clean s type v) (hg : Grows A t t') :
    Held t' clean s type v := by
  obtain ⟨id, hid, hlook, hat⟩ := h
  refine ⟨id, Nat.lt_of_lt_of_le hid hg.vars_isPrefix.length_le, hg.lookupIn_eq_some hlook, ?_⟩
  intro hc
  rw [hg.varAt_eq hid, hat hc]

/-- Every variable of a declaration is held once all of them are declared. -/
theorem declareLocals_held {A : ScopeId → Prop} {T : SymbolTable} {clean : Prop} (s : ScopeId)
    (type : Ident) (span : Span) (vars : List Declarator) {t : SymbolTable} (h : BodyScope t s)
    (hg : Grows A (collectStmt s (.declare type vars span) t).table T)
    (hclean : clean → (collectStmt s (.declare type vars span) t).issues = []) :
    ∀ v ∈ vars, Held T clean s type v := by
  induction vars generalizing t with
  | nil => exact fun v hv => (List.not_mem_nil hv).elim
  | cons w rest ih =>
    unfold collectStmt Collected.each at hg hclean
    rw [Collected.andThen_table] at hg
    rw [Collected.andThen_issues] at hclean
    have one : Grows (· = s) t
        (Collected.ofDeclare t (t.declareLocal s w.name.text type w.name.span)).table :=
      declareVar_grows (localSymbol s w.name.text type w.name.span) h.1 h.2
        fun _ htype => by cases htype
    have more := collectStmt_grows s (.declare type rest span) _ (h.grows one)
    intro v hv
    rcases List.mem_cons.mp hv with rfl | hv
    · refine ((declareLocal_held s type v ?_).grows more).grows hg
      exact fun hc => (List.append_eq_nil_iff.mp (hclean hc)).1
    · refine ih (h.grows one) hg (fun hc => ?_) v hv
      exact (List.append_eq_nil_iff.mp (hclean hc)).2

theorem declareVar_scopes (t : SymbolTable) (v : VarSymbol) :
    (Collected.ofDeclare t (t.declareVar v)).table.scopes = t.scopes := by
  unfold declareVar
  split
  · rfl
  · rfl

/-- Declaring locals opens no scope. -/
theorem declareLocals_scopes (s : ScopeId) (type : Ident) (span : Span) (vars : List Declarator)
    (t : SymbolTable) : (collectStmt s (.declare type vars span) t).table.scopes = t.scopes := by
  unfold collectStmt
  induction vars generalizing t with
  | nil => rfl
  | cons v rest ih =>
    unfold Collected.each
    rw [Collected.andThen_table, ih]
    exact declareVar_scopes t _

/-! ## Collecting makes scopes that mirror the statements -/

/-- A block that was just opened stands last in its scope. -/
theorem childrenOf_openBlock (t : SymbolTable) (s : ScopeId) :
    (t.openBlock s).2.childrenOf s = t.childrenOf s ++ [t.scopes.length] := by
  rw [childrenOf, openBlock_scopes, positions_concat, beq_self_eq_true, if_pos rfl]
  rfl

/-- A scope that was just added has no blocks in it. -/
theorem childrenOf_last {t : SymbolTable} (h : Formed t) {s : ScopeId}
    (hs : t.scopes.length ≤ s + 1) : t.childrenOf s = [] := by
  refine positions_eq_nil (fun k hk => ?_)
  rw [beq_eq_false_iff_ne]
  intro hp
  obtain ⟨i, hi⟩ := List.getElem?_of_mem hk
  have hlt := h.parent_lt hi hp
  have hbound := (List.getElem?_eq_some_iff.mp hi).1
  exact absurd (Nat.lt_of_lt_of_le hbound hs) (Nat.not_lt.mpr hlt)

section Mirroring

variable {clean : Prop} {T : SymbolTable}

/-- A table that grew, by what is attached to `A`, from one in which the scopes
from `t` on are finished. -/
def Settles (A : ScopeId → Prop) (t t' T : SymbolTable) : Prop :=
  Grows A t' T ∧ ∀ s, t.scopes.length ≤ s → s < t'.scopes.length → ¬ A s

/-- **The scope of a block mirrors its statements**, if its statements do in the
scope that was opened for them. -/
theorem block_mirrors {A : ScopeId → Prop} {t : SymbolTable} (h : Formed t) {s : ScopeId}
    (hs : BodyScope t s) (body : List Stmt)
    (set : Settles A t (collectStmts t.scopes.length body (t.openBlock s).2).table T)
    (mirrors : ∃ blocks,
      (collectStmts t.scopes.length body (t.openBlock s).2).table.childrenOf t.scopes.length
          = (t.openBlock s).2.childrenOf t.scopes.length ++ blocks
        ∧ Mirrors T (Held T clean) t.scopes.length body blocks
          (openedStmts t.scopes.length body (t.openBlock s).2)) :
    (collectStmts t.scopes.length body (t.openBlock s).2).table.childrenOf s
        = t.childrenOf s ++ [t.scopes.length]
      ∧ Mirrors T (Held T clean) t.scopes.length body (T.childrenOf t.scopes.length)
        (openedStmts t.scopes.length body (t.openBlock s).2) := by
  have hg := collectStmts_grows _ body _ (bodyScope_openBlock t s)
  have hlt := hg.scopes_isPrefix.length_le
  rw [openBlock_scopes_length] at hlt
  obtain ⟨blocks, hblocks, hmir⟩ := mirrors
  constructor
  · rw [hg.childrenOf_eq (Nat.ne_of_lt hs.1), childrenOf_openBlock]
    rw [openBlock_scopes_length]
    exact Nat.lt_succ_of_lt hs.1
  · rw [childrenOf_last (h.openBlock hs.1) (Nat.le_of_eq (openBlock_scopes_length t s)),
      List.nil_append] at hblocks
    rw [set.1.childrenOf_eq (set.2 _ (Nat.le_refl _) hlt) hlt, hblocks]
    exact hmir

/-- What the rest of a list of statements adds leaves the scopes of the first
statement finished. -/
theorem Settles.of_rest {A : ScopeId → Prop} {t t₁ t₂ : SymbolTable} {s : ScopeId}
    (hs : s < t.scopes.length) (hg : Grows (· = s) t₁ t₂) (set : Settles A t t₂ T) :
    Settles (fun x => x = s ∨ A x) t t₁ T := by
  refine ⟨(hg.mono fun _ hx => Or.inl (Or.inl hx)).trans set.1 (fun _ hx => Or.inl (Or.inr hx)), ?_⟩
  intro x hx hlt hc
  rcases hc with rfl | hc
  · exact Nat.not_le.mpr hs hx
  · exact set.2 x hx (Nat.lt_of_lt_of_le hlt hg.scopes_isPrefix.length_le) hc

/-- What is settled since a table is settled since a later one. -/
theorem Settles.later {A : ScopeId → Prop} {t t₁ t₂ : SymbolTable}
    (hle : t.scopes.length ≤ t₁.scopes.length) (set : Settles A t t₂ T) : Settles A t₁ t₂ T :=
  ⟨set.1, fun s hs hlt => set.2 s (Nat.le_trans hle hs) hlt⟩

mutual
theorem collectStmt_mirrors (s : ScopeId) : (stmt : Stmt) → (t : SymbolTable) → Formed t →
    BodyScope t s → (A : ScopeId → Prop) → Settles A t (collectStmt s stmt t).table T →
    (clean → (collectStmt s stmt t).issues = []) →
    ∃ blocks, (collectStmt s stmt t).table.childrenOf s = t.childrenOf s ++ blocks
      ∧ ∀ rest blocks' opened', Mirrors T (Held T clean) s rest blocks' opened' →
        Mirrors T (Held T clean) s (stmt :: rest) (blocks ++ blocks')
          (openedStmt s stmt t ++ opened')
  | .declare type vars span, t, h, hs, A, set, hclean => by
    refine ⟨[], ?_, fun rest blocks' opened' tail => ?_⟩
    · rw [childrenOf, declareLocals_scopes, List.append_nil]
      rfl
    · exact .declare (declareLocals_held s type span vars hs set.1 hclean) tail
  | .ifThen _ body _ _, t, h, hs, A, set, hclean => by
    unfold collectStmt at set hclean
    obtain ⟨hblocks, inside⟩ := block_mirrors h hs body set
      (collectStmts_mirrors _ body _ (h.openBlock hs.1) (bodyScope_openBlock t s) A
        (set.later (openBlock_grows hs).scopes_isPrefix.length_le) hclean)
    refine ⟨[t.scopes.length], ?_, fun rest blocks' opened' tail => ?_⟩
    · unfold collectStmt
      exact hblocks
    · unfold openedStmt
      exact .ifThen inside tail
  | .ifElse _ body _ other _ _, t, h, hs, A, set, hclean => by
    unfold collectStmt at set hclean
    have first := openBlock_trans hs (collectStmts_grows _ body _ (bodyScope_openBlock t s))
    have second := openBlock_trans (hs.grows first)
      (collectStmts_grows _ other _ (bodyScope_openBlock _ s))
    have set₁ := Settles.of_rest hs.1 second set
    have set₂ := set.later first.scopes_isPrefix.length_le
    obtain ⟨hblocks, inside⟩ := block_mirrors h hs body set₁
      (collectStmts_mirrors _ body _ (h.openBlock hs.1) (bodyScope_openBlock t s) _
        (set₁.later (openBlock_grows hs).scopes_isPrefix.length_le)
        (fun hc => (List.append_eq_nil_iff.mp (hclean hc)).1))
    have hs' := hs.grows first
    obtain ⟨hblocks', inside'⟩ := block_mirrors (h.grows first) hs' other set₂
      (collectStmts_mirrors _ other _ ((h.grows first).openBlock hs'.1)
        (bodyScope_openBlock _ s) A
        (set₂.later (openBlock_grows hs').scopes_isPrefix.length_le)
        (fun hc => (List.append_eq_nil_iff.mp (hclean hc)).2))
    refine ⟨[t.scopes.length,
      (collectStmts t.scopes.length body (t.openBlock s).2).table.scopes.length], ?_,
      fun rest blocks' opened' tail => ?_⟩
    · unfold collectStmt
      refine hblocks'.trans ?_
      rw [hblocks, List.append_assoc]
      rfl
    · unfold openedStmt
      exact .ifElse inside inside' tail
  | .loop _ body _ _, t, h, hs, A, set, hclean => by
    unfold collectStmt at set hclean
    obtain ⟨hblocks, inside⟩ := block_mirrors h hs body set
      (collectStmts_mirrors _ body _ (h.openBlock hs.1) (bodyScope_openBlock t s) A
        (set.later (openBlock_grows hs).scopes_isPrefix.length_le) hclean)
    refine ⟨[t.scopes.length], ?_, fun rest blocks' opened' tail => ?_⟩
    · unfold collectStmt
      exact hblocks
    · unfold openedStmt
      exact .loop inside tail
  | .ret _ _, t, _, _, _, _, _ => ⟨[], (List.append_nil _).symm, fun _ _ _ => .ret⟩
  | .assign _ _ _, t, _, _, _, _, _ => ⟨[], (List.append_nil _).symm, fun _ _ _ => .assign⟩
  | .eval _ _, t, _, _, _, _, _ => ⟨[], (List.append_nil _).symm, fun _ _ _ => .eval⟩
/-- **Once a body is collected and finished, its scopes mirror it.** -/
theorem collectStmts_mirrors (s : ScopeId) : (body : List Stmt) → (t : SymbolTable) → Formed t →
    BodyScope t s → (A : ScopeId → Prop) → Settles A t (collectStmts s body t).table T →
    (clean → (collectStmts s body t).issues = []) →
    ∃ blocks, (collectStmts s body t).table.childrenOf s = t.childrenOf s ++ blocks
      ∧ Mirrors T (Held T clean) s body blocks (openedStmts s body t)
  | [], t, _, _, _, _, _ => ⟨[], (List.append_nil _).symm, .nil⟩
  | stmt :: rest, t, h, hs, A, set, hclean => by
    have first := collectStmt_grows s stmt t hs
    have more := collectStmts_grows s rest _ (hs.grows first)
    obtain ⟨blocks, hblocks, cons⟩ := collectStmt_mirrors s stmt t h hs _
      (Settles.of_rest hs.1 more set) (fun hc => (List.append_eq_nil_iff.mp (hclean hc)).1)
    obtain ⟨blocks', hblocks', tail⟩ := collectStmts_mirrors s rest _ (h.grows first)
      (hs.grows first) A (set.later first.scopes_isPrefix.length_le)
      (fun hc => (List.append_eq_nil_iff.mp (hclean hc)).2)
    refine ⟨blocks ++ blocks', ?_, cons rest blocks' _ tail⟩
    show (collectStmts s rest (collectStmt s stmt t).table).table.childrenOf s = _
    rw [hblocks', hblocks, List.append_assoc]
end

end Mirroring

end SymbolTable

end Heritage
