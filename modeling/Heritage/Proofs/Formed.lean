import Heritage.Proofs.Growth
import Heritage.Proofs.InPlace
import Mathlib.Data.List.Nodup

/-!
# Well-formed tables

What can be relied on in every table that was filled by adding symbols: the
scopes form a tree in which a scope comes after the one around it, every class
and every method has a scope of its own, a variable stands in a scope that can
hold its kind, and names are unique where they have to be.
-/

namespace Heritage

/-- Whether a scope can hold a variable. -/
def VarKind.suits : VarKind → ScopeKind → Bool
  | .field, .cls => true
  | .parameter, .method => true
  | .receiver, .method => true
  | .localVar, .method => true
  | .localVar, .block => true
  | _, _ => false

namespace SymbolTable

/-- The scope of a class. -/
def classScopeRecord (c : ClassId) : Scope :=
  { kind := .cls, parent := some rootScope, cls := some c }

/-- The scope of a method of a class, given the scope of the class. -/
def methodScopeRecord (around : ScopeId) (owner : ClassId) : Scope :=
  { kind := .method, parent := some around, cls := some owner }

/-- **A well-formed table.** -/
structure Formed (t : SymbolTable) : Prop where
  /-- The scope of the program comes first. -/
  root : t.scopes[rootScope]? = some { kind := .program, parent := none, cls := none }
  /-- A scope comes after the one around it. -/
  parent_lt : ∀ {s : ScopeId} {k : Scope} {p : ScopeId},
    t.scopes[s]? = some k → k.parent = some p → p < s
  /-- A class has a scope of its own. -/
  class_scope : ∀ {c : ClassId} {k : ClassSymbol},
    t.classes[c]? = some k → t.scopes[k.scope]? = some (classScopeRecord c)
  /-- A method belongs to a class. -/
  method_owner : ∀ k ∈ t.methods, k.owner < t.classes.length
  /-- A method has a scope, inside that of its class. -/
  method_scope : ∀ k ∈ t.methods,
    t.scopes[k.scope]? = some (methodScopeRecord (t.classAt k.owner).scope k.owner)
  /-- No two methods share a scope. -/
  method_scopes : (t.methods.map (·.scope)).Nodup
  /-- A variable stands in a scope that can hold it. -/
  var_scope : ∀ v ∈ t.vars, ∃ k, t.scopes[v.scope]? = some k ∧ v.kind.suits k.kind = true
  /-- No two classes share a name. -/
  class_names : (t.classes.map (·.name)).Nodup
  /-- No two variables of a scope share a name. -/
  var_names : (t.vars.map fun v => (v.scope, v.name)).Nodup
  /-- No two methods of a class share a name. -/
  method_names : (t.methods.map fun m => (m.owner, m.name)).Nodup
  /-- No method shares its name with a field of its class. -/
  member_names : ∀ m ∈ t.methods, ∀ v ∈ t.vars,
    v.scope = (t.classAt m.owner).scope → v.name ≠ m.name

theorem formed_empty : Formed empty where
  root := rfl
  parent_lt := by
    intro s k p hk hp
    cases s with
    | zero =>
      obtain rfl : _ = k := Option.some.inj hk
      cases hp
    | succ s => cases hk
  class_scope := by
    intro c k hk
    cases hk
  method_owner := by
    intro k hk
    cases hk
  method_scope := by
    intro k hk
    cases hk
  method_scopes := List.nodup_nil
  var_scope := by
    intro v hv
    cases hv
  class_names := List.nodup_nil
  var_names := List.nodup_nil
  method_names := List.nodup_nil
  member_names := by
    intro m hm
    cases hm

/-! ## Names that are free -/

/-- **A search by a key** finds nothing exactly if nothing has the key. A key may be a pair: two
pairs are equal if both of their parts are. -/
theorem findIdx?_key_eq_none_iff {α κ : Type} [BEq κ] [LawfulBEq κ] {xs : List α} {key : α → κ}
    {k : κ} : xs.findIdx? (fun a => key a == k) = none ↔ k ∉ xs.map key := by
  rw [List.findIdx?_eq_none_iff, List.mem_map]
  constructor
  · rintro h ⟨a, ha, rfl⟩
    exact Bool.false_ne_true ((h a ha).symm.trans (beq_self_eq_true _))
  · intro h a ha
    rw [beq_eq_false_iff_ne]
    exact fun hk => h ⟨a, ha, hk⟩

theorem lookupClass_eq_none_iff {t : SymbolTable} {name : String} :
    t.lookupClass name = none ↔ name ∉ t.classes.map (·.name) :=
  findIdx?_key_eq_none_iff

theorem lookupIn_eq_findIdx? (t : SymbolTable) (s : ScopeId) (name : String) :
    t.lookupIn s name = t.vars.findIdx? fun v => (v.scope, v.name) == (s, name) :=
  rfl

theorem declaredMethod_eq_findIdx? (t : SymbolTable) (c : ClassId) (name : String) :
    t.declaredMethod c name = t.methods.findIdx? fun m => (m.owner, m.name) == (c, name) :=
  rfl

theorem lookupIn_eq_none_iff {t : SymbolTable} {s : ScopeId} {name : String} :
    t.lookupIn s name = none ↔ (s, name) ∉ t.vars.map fun v => (v.scope, v.name) := by
  rw [lookupIn_eq_findIdx?]
  exact findIdx?_key_eq_none_iff

theorem declaredMethod_eq_none_iff {t : SymbolTable} {c : ClassId} {name : String} :
    t.declaredMethod c name = none ↔ (c, name) ∉ t.methods.map fun m => (m.owner, m.name) := by
  rw [declaredMethod_eq_findIdx?]
  exact findIdx?_key_eq_none_iff

theorem nodup_concat {α : Type} {xs : List α} {a : α} (h : xs.Nodup) (ha : a ∉ xs) :
    (xs ++ [a]).Nodup :=
  List.nodup_append.mpr ⟨h, List.nodup_singleton a, by
    rintro x hx y hy rfl
    exact ha (List.mem_singleton.mp hy ▸ hx)⟩

theorem getElem?_append_of_eq_some {α : Type} {xs ys : List α} {i : Nat} {a : α}
    (h : xs[i]? = some a) : (xs ++ ys)[i]? = some a := by
  rw [List.getElem?_append_left (List.getElem?_eq_some_iff.mp h).1, h]

theorem getElem?_concat_eq_some {α : Type} {xs : List α} {x a : α} {i : Nat}
    (h : (xs ++ [x])[i]? = some a) : xs[i]? = some a ∨ (i = xs.length ∧ x = a) := by
  rw [List.getElem?_append] at h
  split at h
  · exact Or.inl h
  · refine Or.inr ?_
    obtain ⟨hi, ha⟩ := List.getElem?_eq_some_iff.mp h
    have h0 : i - xs.length = 0 := Nat.lt_one_iff.mp hi
    refine ⟨by omega, ?_⟩
    rw [h0] at h
    exact Option.some.inj h

/-! ## Every addition keeps a table well-formed -/

section Additions

variable {t : SymbolTable} (h : Formed t)
include h

theorem Formed.scopes_pos : rootScope < t.scopes.length :=
  (List.getElem?_eq_some_iff.mp h.root).1

theorem Formed.classAt_scope {c : ClassId} (hc : c < t.classes.length) :
    t.scopes[(t.classAt c).scope]? = some (classScopeRecord c) :=
  h.class_scope (getElem?_eq_getD hc _)

theorem Formed.methodAt_scope {m : MethodId} (hm : m < t.methods.length) :
    t.scopes[(t.methodAt m).scope]?
      = some (methodScopeRecord (t.classAt (t.methodAt m).owner).scope (t.methodAt m).owner) :=
  h.method_scope _ (List.mem_of_getElem? (getElem?_eq_getD hm _))

/-- The scope of the program is that of nothing else. -/
theorem Formed.ne_rootScope {s : ScopeId} {k : Scope} (hs : t.scopes[s]? = some k)
    (hk : k.kind ≠ .program) : s ≠ rootScope := by
  rintro rfl
  obtain rfl := Option.some.inj (hs.symm.trans h.root)
  exact hk rfl

theorem Formed.classAt_scope_ne {c : ClassId} (hc : c < t.classes.length) :
    (t.classAt c).scope ≠ rootScope :=
  h.ne_rootScope (h.classAt_scope hc) (fun hk => nomatch hk)

theorem Formed.methodAt_scope_ne {m : MethodId} (hm : m < t.methods.length) :
    (t.methodAt m).scope ≠ rootScope :=
  h.ne_rootScope (h.methodAt_scope hm) (fun hk => nomatch hk)

theorem Formed.var_scope_ne {v : VarSymbol} (hv : v ∈ t.vars) : v.scope ≠ rootScope := by
  obtain ⟨k, hk, hsuits⟩ := h.var_scope v hv
  refine h.ne_rootScope hk fun hprogram => ?_
  rw [hprogram] at hsuits
  cases hkind : v.kind <;> rw [hkind] at hsuits <;> cases hsuits

/-- The scope of a class holds nothing but fields. -/
theorem Formed.kind_eq_field {v : VarSymbol} (hv : v ∈ t.vars) {c : ClassId}
    (hc : c < t.classes.length) (hs : v.scope = (t.classAt c).scope) : v.kind = .field := by
  obtain ⟨k, hk, hsuits⟩ := h.var_scope v hv
  rw [hs, h.classAt_scope hc] at hk
  obtain rfl := Option.some.inj hk
  cases hkind : v.kind with
  | field => rfl
  | parameter => rw [hkind] at hsuits; cases hsuits
  | receiver => rw [hkind] at hsuits; cases hsuits
  | localVar => rw [hkind] at hsuits; cases hsuits

/-- No two classes share a scope. -/
theorem Formed.class_of_scope {c d : ClassId} (hc : c < t.classes.length)
    (hd : d < t.classes.length) (hcd : (t.classAt c).scope = (t.classAt d).scope) : c = d := by
  have hk := h.classAt_scope hc
  rw [hcd, h.classAt_scope hd] at hk
  exact (Option.some.inj (congrArg Scope.cls (Option.some.inj hk))).symm

/-- No two methods share a scope. -/
theorem Formed.method_of_scope {m n : MethodId} (hm : m < t.methods.length)
    (hn : n < t.methods.length) (hmn : (t.methodAt m).scope = (t.methodAt n).scope) : m = n := by
  have hm' : m < (t.methods.map MethodSymbol.scope).length := by rwa [List.length_map]
  have hn' : n < (t.methods.map MethodSymbol.scope).length := by rwa [List.length_map]
  have hget : (t.methods.map MethodSymbol.scope)[m] = (t.methods.map MethodSymbol.scope)[n] := by
    rw [List.getElem_map, List.getElem_map, ← List.getD_eq_getElem _ default hm,
      ← List.getD_eq_getElem _ default hn]
    exact hmn
  exact h.method_scopes.getElem_inj_iff.mp hget

/-- Where a variable fits, the scope can hold it. -/
theorem Formed.suits_of_fits {v : VarSymbol} (hs : v.scope < t.scopes.length)
    (fits : t.Fits v) : ∃ k, t.scopes[v.scope]? = some k ∧ v.kind.suits k.kind = true := by
  unfold Fits at fits
  split at fits
  · rename_i hk
    obtain ⟨c, hc, hvc, -⟩ := fits
    exact ⟨_, hvc ▸ h.classAt_scope hc, hk ▸ rfl⟩
  · rename_i hk
    obtain ⟨m, hm, hvm⟩ := fits
    exact ⟨_, hvm ▸ h.methodAt_scope hm, hk ▸ rfl⟩
  · rename_i hk
    obtain ⟨m, hm, hvm⟩ := fits
    exact ⟨_, hvm ▸ h.methodAt_scope hm, hk ▸ rfl⟩
  · rename_i hk
    refine ⟨_, getElem?_eq_getD hs default, ?_⟩
    rcases fits with fits | fits
    · exact (congrArg₂ VarKind.suits hk fits).trans rfl
    · exact (congrArg₂ VarKind.suits hk fits).trans rfl

/-- A variable that fits into the scope of a class is a field of it, and none of
the methods of the class has its name. -/
theorem Formed.declaredMethod_of_fits {v : VarSymbol} (hs : v.scope < t.scopes.length)
    (fits : t.Fits v) {c : ClassId} (hc : c < t.classes.length)
    (hvc : v.scope = (t.classAt c).scope) : t.declaredMethod c v.name = none := by
  obtain ⟨k, hk, hsuits⟩ := h.suits_of_fits hs fits
  rw [hvc, h.classAt_scope hc] at hk
  obtain rfl := Option.some.inj hk
  unfold Fits at fits
  split at fits
  · obtain ⟨d, hd, hvd, hfree⟩ := fits
    rwa [h.class_of_scope hc hd (hvc.symm.trans hvd)]
  all_goals
    rename_i hkind
    rw [hkind] at hsuits
    cases hsuits

/-- A scope that is added after the one around it keeps the tree of scopes. -/
theorem Formed.parent_lt_concat {k : Scope} {around : ScopeId} (hk : k.parent = some around)
    (hlt : around < t.scopes.length) {s : ScopeId} {k' : Scope} {p : ScopeId}
    (hs : (t.scopes ++ [k])[s]? = some k') (hp : k'.parent = some p) : p < s := by
  rcases getElem?_concat_eq_some hs with hs | ⟨rfl, rfl⟩
  · exact h.parent_lt hs hp
  · rw [hk] at hp
    exact Option.some.inj hp ▸ hlt

theorem Formed.openBlock {s : ScopeId} (hs : s < t.scopes.length) :
    Formed (t.openBlock s).2 where
  root := getElem?_append_of_eq_some h.root
  parent_lt := h.parent_lt_concat rfl hs
  class_scope hk := getElem?_append_of_eq_some (h.class_scope hk)
  method_owner := h.method_owner
  method_scope k hk := getElem?_append_of_eq_some (h.method_scope k hk)
  method_scopes := h.method_scopes
  var_scope v hv := by
    obtain ⟨k, hk, hs⟩ := h.var_scope v hv
    exact ⟨k, getElem?_append_of_eq_some hk, hs⟩
  class_names := h.class_names
  var_names := h.var_names
  method_names := h.method_names
  member_names := h.member_names

theorem Formed.addVar {v : VarSymbol} (hs : v.scope < t.scopes.length) (fits : t.Fits v)
    (free : t.lookupIn v.scope v.name = none) : Formed (t.addVar v) where
  root := h.root
  parent_lt := h.parent_lt
  class_scope := h.class_scope
  method_owner := h.method_owner
  method_scope := h.method_scope
  method_scopes := h.method_scopes
  var_scope w hw := by
    rcases List.mem_append.mp hw with hw | hw
    · exact h.var_scope w hw
    · obtain rfl := List.mem_singleton.mp hw
      exact h.suits_of_fits hs fits
  class_names := h.class_names
  var_names := by
    show ((t.vars ++ [v]).map _).Nodup
    rw [List.map_append]
    exact nodup_concat h.var_names (lookupIn_eq_none_iff.mp free)
  method_names := h.method_names
  member_names m hm w hw hmw := by
    rcases List.mem_append.mp hw with hw | hw
    · exact h.member_names m hm w hw hmw
    · obtain rfl := List.mem_singleton.mp hw
      have hfree := h.declaredMethod_of_fits hs fits (h.method_owner m hm) hmw
      intro hn
      refine declaredMethod_eq_none_iff.mp hfree (List.mem_map.mpr ⟨m, hm, ?_⟩)
      rw [hn]

theorem Formed.addClass {name : String} (parents : List Ident) (declIndex : Nat) (span : Span)
    (free : t.lookupClass name = none) : Formed (t.addClass name parents declIndex span) where
  root := getElem?_append_of_eq_some h.root
  parent_lt := h.parent_lt_concat rfl h.scopes_pos
  class_scope hk := by
    rcases getElem?_concat_eq_some hk with hk | ⟨rfl, rfl⟩
    · exact getElem?_append_of_eq_some (h.class_scope hk)
    · exact List.getElem?_concat_length
  method_owner k hk := by
    have hlt := h.method_owner k hk
    show k.owner < (t.classes ++ [_]).length
    rw [List.length_append]
    exact Nat.lt_add_right _ hlt
  method_scope k hk := by
    have hat : (t.addClass name parents declIndex span).classAt k.owner = t.classAt k.owner :=
      getD_of_isPrefix (List.prefix_append _ _) (h.method_owner k hk) _
    rw [hat]
    exact getElem?_append_of_eq_some (h.method_scope k hk)
  method_scopes := h.method_scopes
  var_scope v hv := by
    obtain ⟨k, hk, hs⟩ := h.var_scope v hv
    exact ⟨k, getElem?_append_of_eq_some hk, hs⟩
  class_names := by
    show ((t.classes ++ [_]).map _).Nodup
    rw [List.map_append]
    exact nodup_concat h.class_names (lookupClass_eq_none_iff.mp free)
  var_names := h.var_names
  method_names := h.method_names
  member_names m hm v hv hmv := by
    have hat : (t.addClass name parents declIndex span).classAt m.owner = t.classAt m.owner :=
      getD_of_isPrefix (List.prefix_append _ _) (h.method_owner m hm) _
    rw [hat] at hmv
    exact h.member_names m hm v hv hmv

theorem Formed.addMethod {owner : ClassId} {name : String} (returnType : Option Ident)
    (declIndex : Nat) (span : Span) (owned : owner < t.classes.length)
    (freeField : t.declaredField owner name = none)
    (freeMethod : t.declaredMethod owner name = none) :
    Formed (t.addMethod owner name returnType declIndex span) where
  root := getElem?_append_of_eq_some h.root
  parent_lt := h.parent_lt_concat rfl (List.getElem?_eq_some_iff.mp (h.classAt_scope owned)).1
  class_scope hk := getElem?_append_of_eq_some (h.class_scope hk)
  method_owner k hk := by
    rcases List.mem_append.mp hk with hk | hk
    · exact h.method_owner k hk
    · obtain rfl := List.mem_singleton.mp hk
      exact owned
  method_scope k hk := by
    rcases List.mem_append.mp hk with hk | hk
    · exact getElem?_append_of_eq_some (h.method_scope k hk)
    · obtain rfl := List.mem_singleton.mp hk
      exact List.getElem?_concat_length
  method_scopes := by
    show ((t.methods ++ [_]).map _).Nodup
    rw [List.map_append]
    refine nodup_concat h.method_scopes (fun hmem => ?_)
    obtain ⟨k, hk, hks⟩ := List.mem_map.mp hmem
    have hlt := (List.getElem?_eq_some_iff.mp (h.method_scope k hk)).1
    exact Nat.ne_of_lt hlt hks
  var_scope v hv := by
    obtain ⟨k, hk, hs⟩ := h.var_scope v hv
    exact ⟨k, getElem?_append_of_eq_some hk, hs⟩
  class_names := h.class_names
  var_names := h.var_names
  method_names := by
    show ((t.methods ++ [_]).map _).Nodup
    rw [List.map_append]
    exact nodup_concat h.method_names (declaredMethod_eq_none_iff.mp freeMethod)
  member_names m hm v hv hmv := by
    rcases List.mem_append.mp hm with hm | hm
    · exact h.member_names m hm v hv hmv
    · obtain rfl := List.mem_singleton.mp hm
      intro hn
      refine lookupIn_eq_none_iff.mp freeField (List.mem_map.mpr ⟨v, hv, ?_⟩)
      exact Prod.ext hmv hn

/-- **A step keeps a table well-formed.** -/
theorem Formed.step {A : ScopeId → Prop} {t' : SymbolTable} (hst : Step A t t') : Formed t' := by
  cases hst with
  | cls name parents declIndex span free _ => exact h.addClass parents declIndex span free
  | method owner name returnType declIndex span owned freeField freeMethod _ =>
    exact h.addMethod returnType declIndex span owned freeField freeMethod
  | var v inside fits free _ _ => exact h.addVar inside fits free
  | block s inside _ _ => exact h.openBlock inside

/-- **Growth keeps a table well-formed.** -/
theorem Formed.grows {A : ScopeId → Prop} {t' : SymbolTable} (hg : Grows A t t') : Formed t' :=
  hg.keeps Formed (fun _ _ ih hst => ih.step hst) h

end Additions

end SymbolTable

end Heritage
