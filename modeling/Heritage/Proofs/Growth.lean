import Heritage.Proofs.Positions
import Heritage.Symbols.Declare
import Mathlib.Logic.Relation

/-!
# How a table grows

A table is only ever added to, one symbol at a time. `Step` says what an
addition can be and what holds when it is made: the name is free, the positions
it mentions are positions of the table, and the scope it is attached to is one
of the scopes `A`. Everything that is kept by collecting symbols is kept by a
step.

`Grows A t t'` says that steps lead from `t` to `t'`, and that whatever is new
is attached to a scope of `A` or to a scope that is new itself. A scope outside
`A` is therefore finished in `t`: its variables and its blocks are the same in
`t'`. This is how a part of a program that was collected early is known to be
unharmed at the end.
-/

namespace Heritage

namespace SymbolTable

/-- Where a variable of its kind can be added: a field in the scope of a class
that has no method of that name, a parameter in the scope of a method, a local
in the scope of a method or a block. -/
def Fits (t : SymbolTable) (v : VarSymbol) : Prop :=
  match v.kind with
  | .field => ∃ c < t.classes.length, v.scope = (t.classAt c).scope
      ∧ t.declaredMethod c v.name = none
  | .parameter => ∃ m < t.methods.length, v.scope = (t.methodAt m).scope
  | .receiver => ∃ m < t.methods.length, v.scope = (t.methodAt m).scope
  | .localVar => (t.scopeAt v.scope).kind = .method ∨ (t.scopeAt v.scope).kind = .block

/-- **One symbol is added to a table**, attached to a scope of `A`. -/
inductive Step (A : ScopeId → Prop) (t : SymbolTable) : SymbolTable → Prop where
  /-- A class is added, under the scope of the program. -/
  | cls (name : String) (parents : List Ident) (declIndex : Nat) (span : Span)
      (free : t.lookupClass name = none) (attached : A rootScope) :
      Step A t (t.addClass name parents declIndex span)
  /-- A method is added, under the scope of its class. -/
  | method (owner : ClassId) (name : String) (returnType : Option Ident) (declIndex : Nat)
      (span : Span) (owned : owner < t.classes.length)
      (freeField : t.declaredField owner name = none)
      (freeMethod : t.declaredMethod owner name = none)
      (attached : A (t.classAt owner).scope) :
      Step A t (t.addMethod owner name returnType declIndex span)
  /-- A variable is added to a scope. -/
  | var (v : VarSymbol) (inside : v.scope < t.scopes.length) (fits : t.Fits v)
      (free : t.lookupIn v.scope v.name = none) (attached : A v.scope)
      (typed : ∀ c, v.type = some (.cls c) → c < t.classes.length) :
      Step A t (t.addVar v)
  /-- A block is opened in the scope of a method or in a block. -/
  | block (s : ScopeId) (inside : s < t.scopes.length)
      (fits : (t.scopeAt s).kind = .method ∨ (t.scopeAt s).kind = .block) (attached : A s) :
      Step A t (t.openBlock s).2

/-- **A table that grew from another**, with everything new attached to a scope
of `A` or to a new scope. -/
def Grows (A : ScopeId → Prop) (t t' : SymbolTable) : Prop :=
  Relation.ReflTransGen (Step fun s => A s ∨ t.scopes.length ≤ s) t t'

variable {A B : ScopeId → Prop} {t t' t'' : SymbolTable}

/-- A step that may change some scopes may change more. -/
theorem Step.mono (h : Step A t t') (hAB : ∀ s, A s → B s) : Step B t t' := by
  cases h with
  | cls name parents declIndex span free attached =>
    exact .cls name parents declIndex span free (hAB _ attached)
  | method owner name returnType declIndex span owned freeField freeMethod attached =>
    exact .method owner name returnType declIndex span owned freeField freeMethod
      (hAB _ attached)
  | var v inside fits free attached typed =>
    exact .var v inside fits free (hAB _ attached) typed
  | block s inside fits attached => exact .block s inside fits (hAB _ attached)

/-! ## What was there stays -/

theorem Step.classes_isPrefix (h : Step A t t') : t.classes <+: t'.classes := by
  cases h with
  | cls => exact List.prefix_append _ _
  | method => exact List.prefix_rfl
  | var => exact List.prefix_rfl
  | block => exact List.prefix_rfl

theorem Step.methods_isPrefix (h : Step A t t') : t.methods <+: t'.methods := by
  cases h with
  | cls => exact List.prefix_rfl
  | method => exact List.prefix_append _ _
  | var => exact List.prefix_rfl
  | block => exact List.prefix_rfl

theorem Step.vars_isPrefix (h : Step A t t') : t.vars <+: t'.vars := by
  cases h with
  | cls => exact List.prefix_rfl
  | method => exact List.prefix_rfl
  | var => exact List.prefix_append _ _
  | block => exact List.prefix_rfl

theorem Step.scopes_isPrefix (h : Step A t t') : t.scopes <+: t'.scopes := by
  cases h with
  | cls => exact List.prefix_append _ _
  | method => exact List.prefix_append _ _
  | var => exact List.prefix_rfl
  | block => exact List.prefix_append _ _

theorem Grows.refl (A : ScopeId → Prop) (t : SymbolTable) : Grows A t t :=
  Relation.ReflTransGen.refl

theorem Grows.step (h : Step A t t') : Grows A t t' :=
  Relation.ReflTransGen.single (h.mono fun _ => Or.inl)

/-- **What every step keeps, growth keeps.** -/
theorem Grows.keeps (P : SymbolTable → Prop) (h : Grows A t t')
    (step : ∀ u u', P u → Step (fun s => A s ∨ t.scopes.length ≤ s) u u' → P u')
    (start : P t) : P t' := by
  induction h with
  | refl => exact start
  | tail _ hs ih => exact step _ _ ih hs

theorem Grows.classes_isPrefix (h : Grows A t t') : t.classes <+: t'.classes :=
  h.keeps (t.classes <+: ·.classes) (fun _ _ ih hs => ih.trans hs.classes_isPrefix) List.prefix_rfl

theorem Grows.methods_isPrefix (h : Grows A t t') : t.methods <+: t'.methods :=
  h.keeps (t.methods <+: ·.methods) (fun _ _ ih hs => ih.trans hs.methods_isPrefix) List.prefix_rfl

theorem Grows.vars_isPrefix (h : Grows A t t') : t.vars <+: t'.vars :=
  h.keeps (t.vars <+: ·.vars) (fun _ _ ih hs => ih.trans hs.vars_isPrefix) List.prefix_rfl

theorem Grows.scopes_isPrefix (h : Grows A t t') : t.scopes <+: t'.scopes :=
  h.keeps (t.scopes <+: ·.scopes) (fun _ _ ih hs => ih.trans hs.scopes_isPrefix) List.prefix_rfl

theorem Grows.mono (h : Grows A t t') (hAB : ∀ s, A s → B s ∨ t.scopes.length ≤ s) :
    Grows B t t' := by
  refine Relation.ReflTransGen.mono (fun u u' hst => hst.mono (fun s hs => ?_)) _ _ h
  rcases hs with hs | hs
  · exact hAB s hs
  · exact Or.inr hs

/-- **Growth follows growth**, if the second changes no scope of the start that the first may not.
-/
theorem Grows.trans (h : Grows A t t') (h' : Grows B t' t'')
    (hBA : ∀ s, B s → A s ∨ t.scopes.length ≤ s) : Grows A t t'' := by
  refine Relation.ReflTransGen.trans h
    (Relation.ReflTransGen.mono (fun u u' hst => hst.mono (fun s hs => ?_)) _ _ h')
  rcases hs with hs | hs
  · exact hBA s hs
  · exact Or.inr (Nat.le_trans h.scopes_isPrefix.length_le hs)

/-! ## Symbols by position -/

theorem getD_of_isPrefix {α : Type} {xs ys : List α} (h : xs <+: ys) {i : Nat}
    (hi : i < xs.length) (d : α) : ys.getD i d = xs.getD i d := by
  obtain ⟨zs, rfl⟩ := h
  rw [List.getD_eq_getElem?_getD, List.getD_eq_getElem?_getD, List.getElem?_append_left hi]

/-- What stands at a position stays there. -/
theorem Grows.classAt_eq (h : Grows A t t') {c : ClassId} (hc : c < t.classes.length) :
    t'.classAt c = t.classAt c :=
  getD_of_isPrefix h.classes_isPrefix hc _

theorem Grows.methodAt_eq (h : Grows A t t') {m : MethodId} (hm : m < t.methods.length) :
    t'.methodAt m = t.methodAt m :=
  getD_of_isPrefix h.methods_isPrefix hm _

theorem Grows.varAt_eq (h : Grows A t t') {v : VarId} (hv : v < t.vars.length) :
    t'.varAt v = t.varAt v :=
  getD_of_isPrefix h.vars_isPrefix hv _

theorem Grows.scopeAt_eq (h : Grows A t t') {s : ScopeId} (hs : s < t.scopes.length) :
    t'.scopeAt s = t.scopeAt s :=
  getD_of_isPrefix h.scopes_isPrefix hs _

/-! ## A scope to which nothing is attached -/

/-- A variable that was found is still found: it comes before all new ones. -/
theorem Grows.lookupIn_eq_some (h : Grows A t t') {s : ScopeId} {name : String} {v : VarId}
    (hv : t.lookupIn s name = some v) : t'.lookupIn s name = some v := by
  obtain ⟨new, hnew⟩ := h.vars_isPrefix
  rw [lookupIn, ← hnew, List.findIdx?_append]
  rw [lookupIn] at hv
  rw [hv]
  rfl

/-- A step attaches no block to a scope outside `A`. -/
theorem Step.childrenOf_eq (h : Step A t t') {s : ScopeId} (hs : ¬ A s) :
    t'.childrenOf s = t.childrenOf s := by
  have added : ∀ (k : Scope) (p : ScopeId), k.parent = some p → A p →
      positions (fun k => k.parent == some s) (t.scopes ++ [k])
        = positions (fun k => k.parent == some s) t.scopes := by
    intro k p hk hp
    have hne : (k.parent == some s) = false := by
      rw [hk, beq_eq_false_iff_ne]
      intro hps
      exact hs (Option.some.inj hps ▸ hp)
    rw [positions_concat, hne]
    exact List.append_nil _
  cases h with
  | cls _ _ _ _ _ attached => exact added _ _ rfl attached
  | method _ _ _ _ _ _ _ _ attached => exact added _ _ rfl attached
  | var => rfl
  | block _ _ _ attached => exact added _ _ rfl attached

/-- A step attaches no variable to a scope outside `A`. -/
theorem Step.vars_eq (h : Step A t t') {s : ScopeId} (hs : ¬ A s) (q : VarSymbol → Bool) :
    positions (fun v => v.scope == s && q v) t'.vars
      = positions (fun v => v.scope == s && q v) t.vars := by
  cases h with
  | cls => rfl
  | method => rfl
  | var v inside fits free attached =>
    have hne : (v.scope == s) = false := by
      rw [beq_eq_false_iff_ne]
      intro hvs
      exact hs (hvs ▸ attached)
    show positions _ (t.vars ++ [v]) = _
    rw [positions_concat, hne]
    exact List.append_nil _
  | block => rfl

/-- **The blocks of a finished scope stay the same.** -/
theorem Grows.childrenOf_eq (h : Grows A t t') {s : ScopeId} (hs : ¬ A s)
    (hlt : s < t.scopes.length) : t'.childrenOf s = t.childrenOf s := by
  refine h.keeps (·.childrenOf s = t.childrenOf s) (fun u u' ih hst => ?_) rfl
  rw [hst.childrenOf_eq (fun hc => hc.elim hs (Nat.not_le.mpr hlt)), ih]

/-- **The variables of a finished scope stay the same.** -/
theorem Grows.vars_eq (h : Grows A t t') {s : ScopeId} (hs : ¬ A s)
    (hlt : s < t.scopes.length) (q : VarSymbol → Bool) :
    positions (fun v => v.scope == s && q v) t'.vars
      = positions (fun v => v.scope == s && q v) t.vars := by
  refine h.keeps
    (fun u => positions (fun v => v.scope == s && q v) u.vars
      = positions (fun v => v.scope == s && q v) t.vars) (fun u u' ih hst => ?_) rfl
  rw [hst.vars_eq (fun hc => hc.elim hs (Nat.not_le.mpr hlt)), ih]

theorem Grows.lookupIn_eq (h : Grows A t t') {s : ScopeId} (hs : ¬ A s)
    (hlt : s < t.scopes.length) (name : String) : t'.lookupIn s name = t.lookupIn s name := by
  rw [lookupIn, lookupIn, findIdx?_eq_head?, findIdx?_eq_head?,
    h.vars_eq hs hlt (fun v => v.name == name)]

end SymbolTable

end Heritage
