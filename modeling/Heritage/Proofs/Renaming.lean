import Heritage.Proofs.Formed
import Heritage.Proofs.Rearranged

/-!
# Renamed tables

The symbols of a table are named by their positions, and the same program gives
them other positions when its classes are written in another order. A
`Renaming` says how positions change. Two tables are `Renamed` into each other
if their symbols are the same up to this change, and if what belongs to one
class, method or scope stands in the same order in both. Then whatever is read
off the two tables is the same up to the renaming: the methods of a class, the
parameters of a method, the blocks of a scope, and what a name is declared as.

For this the second table may also have more, if what is more does not belong to
a class or a scope of the first: then the first is `Embedded` in it.
-/

namespace Heritage

open SymbolTable

/-- **A change of positions.** The scope of the program stays. -/
structure Renaming where
  /-- Where classes go. -/
  cls : ClassId → ClassId
  /-- Where methods go. -/
  method : MethodId → MethodId
  /-- Where variables go. -/
  var : VarId → VarId
  /-- Where scopes go. -/
  scope : ScopeId → ScopeId
  cls_injective : Function.Injective cls
  method_injective : Function.Injective method
  var_injective : Function.Injective var
  scope_injective : Function.Injective scope
  scope_root : scope rootScope = rootScope

namespace Renaming

/-- No change. -/
def refl : Renaming where
  cls := id
  method := id
  var := id
  scope := id
  cls_injective := Function.injective_id
  method_injective := Function.injective_id
  var_injective := Function.injective_id
  scope_injective := Function.injective_id
  scope_root := rfl

/-- One change after another. -/
def trans (σ τ : Renaming) : Renaming where
  cls := τ.cls ∘ σ.cls
  method := τ.method ∘ σ.method
  var := τ.var ∘ σ.var
  scope := τ.scope ∘ σ.scope
  cls_injective := τ.cls_injective.comp σ.cls_injective
  method_injective := τ.method_injective.comp σ.method_injective
  var_injective := τ.var_injective.comp σ.var_injective
  scope_injective := τ.scope_injective.comp σ.scope_injective
  scope_root := by
    show τ.scope (σ.scope rootScope) = rootScope
    rw [σ.scope_root, τ.scope_root]

variable (σ τ : Renaming)

/-- A type. -/
def ty : Ty → Ty
  | .int => .int
  | .void => .void
  | .cls c => .cls (σ.cls c)

/-- A variable. -/
def varSymbol (v : VarSymbol) : VarSymbol :=
  { v with type := v.type.map σ.ty, scope := σ.scope v.scope }

/-- A method. -/
def methodSymbol (m : MethodSymbol) : MethodSymbol :=
  { m with owner := σ.cls m.owner, returnType := m.returnType.map σ.ty, scope := σ.scope m.scope }

/-- A scope. -/
def scopeRecord (k : Scope) : Scope :=
  { k with parent := k.parent.map σ.scope, cls := k.cls.map σ.cls }

/-- A class as it was declared, apart from its place in the program. -/
def SameClass (k k' : ClassSymbol) : Prop :=
  k'.name = k.name ∧ k'.parents = k.parents ∧ k'.span = k.span ∧ k'.scope = σ.scope k.scope

/-- Types are told apart after a renaming if they were before. -/
theorem ty_injective : Function.Injective σ.ty := by
  intro a b h
  cases a <;> cases b <;> simp_all [ty, σ.cls_injective.eq_iff]

theorem refl_ty : refl.ty = id := by
  funext a
  cases a <;> rfl

theorem trans_ty : (σ.trans τ).ty = τ.ty ∘ σ.ty := by
  funext a
  cases a <;> rfl

theorem refl_varSymbol (v : VarSymbol) : refl.varSymbol v = v := by
  unfold varSymbol
  rw [refl_ty, Option.map_id]
  rfl

theorem refl_methodSymbol (m : MethodSymbol) : refl.methodSymbol m = m := by
  unfold methodSymbol
  rw [refl_ty, Option.map_id]
  rfl

theorem refl_scopeRecord (k : Scope) : refl.scopeRecord k = k := by
  unfold scopeRecord
  rw [show refl.scope = id from rfl, show refl.cls = id from rfl, Option.map_id]
  rfl

theorem trans_varSymbol (v : VarSymbol) :
    (σ.trans τ).varSymbol v = τ.varSymbol (σ.varSymbol v) := by
  unfold varSymbol
  rw [Option.map_map, trans_ty]
  rfl

theorem trans_methodSymbol (m : MethodSymbol) :
    (σ.trans τ).methodSymbol m = τ.methodSymbol (σ.methodSymbol m) := by
  unfold methodSymbol
  rw [Option.map_map, trans_ty]
  rfl

theorem trans_scopeRecord (k : Scope) :
    (σ.trans τ).scopeRecord k = τ.scopeRecord (σ.scopeRecord k) := by
  unfold scopeRecord
  rw [Option.map_map, Option.map_map]
  rfl

theorem ty_eq_iff {a b : Ty} : σ.ty a = σ.ty b ↔ a = b :=
  σ.ty_injective.eq_iff

end Renaming

namespace SymbolTable

/-- **Two tables with the same symbols at other positions.** The methods of a
class, the variables of a scope and the blocks of a scope stand in one order. -/
structure Renamed (σ : Renaming) (t t' : SymbolTable) : Prop where
  /-- The classes. -/
  classes : Rearranged σ.cls σ.SameClass (fun _ _ => False) t.classes t'.classes
  /-- The methods. -/
  methods : Rearranged σ.method (fun m m' => m' = σ.methodSymbol m)
    (fun a b => a.owner = b.owner) t.methods t'.methods
  /-- The variables. -/
  vars : Rearranged σ.var (fun v v' => v' = σ.varSymbol v)
    (fun a b => a.scope = b.scope) t.vars t'.vars
  /-- The scopes. -/
  scopes : Rearranged σ.scope (fun k k' => k' = σ.scopeRecord k)
    (fun a b => ∃ s ≠ rootScope, a.parent = some s ∧ b.parent = some s) t.scopes t'.scopes

namespace Renamed

/-- A table is renamed into itself by leaving every position as it is. -/
theorem refl (t : SymbolTable) : Renamed Renaming.refl t t where
  classes := Rearranged.refl fun _ _ => ⟨rfl, rfl, rfl, rfl⟩
  methods := Rearranged.refl fun m _ => (Renaming.refl_methodSymbol m).symm
  vars := Rearranged.refl fun v _ => (Renaming.refl_varSymbol v).symm
  scopes := Rearranged.refl fun k _ => (Renaming.refl_scopeRecord k).symm

/-- **Renamings follow one another.** -/
theorem trans {σ τ : Renaming} {t t' t'' : SymbolTable} (h : Renamed σ t t')
    (h' : Renamed τ t' t'') : Renamed (σ.trans τ) t t'' where
  classes := h.classes.trans h'.classes
    (fun ha hb => ⟨hb.1.trans ha.1, hb.2.1.trans ha.2.1, hb.2.2.1.trans ha.2.2.1,
      hb.2.2.2.trans (congrArg τ.scope ha.2.2.2)⟩) fun _ _ => id
  methods := by
    refine h.methods.trans h'.methods ?_ ?_
    · rintro a _ _ rfl rfl
      exact (Renaming.trans_methodSymbol σ τ a).symm
    · rintro a _ b _ rfl rfl hab
      exact congrArg σ.cls hab
  vars := by
    refine h.vars.trans h'.vars ?_ ?_
    · rintro a _ _ rfl rfl
      exact (Renaming.trans_varSymbol σ τ a).symm
    · rintro a _ b _ rfl rfl hab
      exact congrArg σ.scope hab
  scopes := by
    refine h.scopes.trans h'.scopes ?_ ?_
    · rintro a _ _ rfl rfl
      exact (Renaming.trans_scopeRecord σ τ a).symm
    · rintro a _ b _ rfl rfl ⟨s, hs, ha, hb⟩
      refine ⟨σ.scope s, fun heq => ?_, congrArg (Option.map σ.scope) ha,
        congrArg (Option.map σ.scope) hb⟩
      exact hs (σ.scope_injective (heq.trans σ.scope_root.symm))

/-- **A class is found under its name**, of which no other has it. -/
theorem lookupClass {σ : Renaming} {t t' : SymbolTable} (h : Renamed σ t t') (hf : Formed t)
    (name : String) : t'.lookupClass name = (t.lookupClass name).map σ.cls := by
  refine (h.classes.embeds σ.cls_injective fun _ => False).findIdx?_eq (fun hk => by rw [hk.1])
    (fun _ => False.elim) ?_
  intro i j a b hlt ha hb hpa hpb
  have hj : j < (t.classes.map (·.name)).length := by
    rw [List.length_map]
    exact (List.getElem?_eq_some_iff.mp hb).1
  refine absurd ?_ (List.nodup_iff_getElem?_ne_getElem?.mp hf.class_names i j hlt hj)
  rw [List.getElem?_map, List.getElem?_map, ha, hb, Option.map_some, Option.map_some,
    beq_iff_eq.mp hpa, beq_iff_eq.mp hpb]

end Renamed

/-! ## Tables in larger ones -/

/-- **A table whose symbols are among those of another**, at other positions. The other may
have more, which belong to classes and scopes of its own. -/
structure Embedded (σ : Renaming) (t t' : SymbolTable) : Prop where
  /-- The classes. -/
  classes : Embeds σ.cls σ.SameClass (fun _ _ => False) (fun _ => True) t.classes t'.classes
  /-- The methods. -/
  methods : Embeds σ.method (fun m m' => m' = σ.methodSymbol m) (fun a b => a.owner = b.owner)
    (fun m' => ∀ c, m'.owner ≠ σ.cls c) t.methods t'.methods
  /-- The variables. -/
  vars : Embeds σ.var (fun v v' => v' = σ.varSymbol v) (fun a b => a.scope = b.scope)
    (fun v' => ∀ s, v'.scope ≠ σ.scope s) t.vars t'.vars
  /-- The scopes. -/
  scopes : Embeds σ.scope (fun k k' => k' = σ.scopeRecord k)
    (fun a b => ∃ s ≠ rootScope, a.parent = some s ∧ b.parent = some s)
    (fun k' => ∀ s ≠ rootScope, k'.parent ≠ some (σ.scope s)) t.scopes t'.scopes

/-- A renamed table has nothing more, so the first one is embedded in it. -/
theorem Renamed.embedded {σ : Renaming} {t t' : SymbolTable} (h : Renamed σ t t') :
    Embedded σ t t' where
  classes := h.classes.embeds σ.cls_injective _
  methods := h.methods.embeds σ.method_injective _
  vars := h.vars.embeds σ.var_injective _
  scopes := h.scopes.embeds σ.scope_injective _

namespace Embedded

variable {σ : Renaming} {t t' : SymbolTable} (h : Embedded σ t t')
include h

/-! ## Symbols by position -/

/-- A class is found at its new position, with the same declaration. -/
theorem classAt (c : ClassId) : σ.SameClass (t.classAt c) (t'.classAt (σ.cls c)) :=
  h.classes.getD ⟨rfl, rfl, rfl, σ.scope_root.symm⟩ c

/-- A method is found at its new position, with its class and scope renamed. -/
theorem methodAt_of_lt {m : MethodId} (hm : m < t.methods.length) :
    t'.methodAt (σ.method m) = σ.methodSymbol (t.methodAt m) := by
  obtain ⟨b, hb, rfl⟩ := h.methods.related (getElem?_eq_getD hm default)
  exact getD_of_eq_some hb _

/-- A method, apart from the class that declares it. -/
theorem methodAt (m : MethodId) :
    t'.methodAt (σ.method m)
      = { σ.methodSymbol (t.methodAt m) with owner := (t'.methodAt (σ.method m)).owner } := by
  by_cases hm : m < t.methods.length
  · rw [h.methodAt_of_lt hm]
  · have hle := Nat.le_of_not_lt hm
    have hm : t.methodAt m = default := by
      unfold SymbolTable.methodAt
      rw [List.getD_eq_getElem?_getD, List.getElem?_eq_none hle]
      rfl
    have hm' : t'.methodAt (σ.method m) = default := by
      unfold SymbolTable.methodAt
      rw [List.getD_eq_getElem?_getD, List.getElem?_eq_none (h.methods.behind m hle)]
      rfl
    rw [hm, hm']
    exact congrArg (fun s => { (default : MethodSymbol) with scope := s }) σ.scope_root.symm

theorem methodAt_scope (m : MethodId) :
    (t'.methodAt (σ.method m)).scope = σ.scope (t.methodAt m).scope :=
  congrArg MethodSymbol.scope (h.methodAt m)

theorem methodAt_name (m : MethodId) : (t'.methodAt (σ.method m)).name = (t.methodAt m).name :=
  (congrArg MethodSymbol.name (h.methodAt m)).trans rfl

theorem methodAt_returnType (m : MethodId) :
    (t'.methodAt (σ.method m)).returnType = (t.methodAt m).returnType.map σ.ty :=
  congrArg MethodSymbol.returnType (h.methodAt m)

/-- A variable is found at its new position, with its scope and type renamed. -/
theorem varAt (v : VarId) : t'.varAt (σ.var v) = σ.varSymbol (t.varAt v) :=
  h.vars.getD (congrArg (fun s => { (default : VarSymbol) with scope := s }) σ.scope_root.symm) v

theorem varAt_name (v : VarId) : (t'.varAt (σ.var v)).name = (t.varAt v).name :=
  (congrArg VarSymbol.name (h.varAt v)).trans rfl

theorem varAt_type (v : VarId) : (t'.varAt (σ.var v)).type = (t.varAt v).type.map σ.ty :=
  congrArg VarSymbol.type (h.varAt v)

theorem scopeAt (s : ScopeId) : t'.scopeAt (σ.scope s) = σ.scopeRecord (t.scopeAt s) :=
  h.scopes.getD (a := default) (b := default) rfl s

/-! ## Views -/

/-- **The methods of a class are the renamed ones, in the same order.** What more there is belongs
to other classes. -/
theorem methodsOf (c : ClassId) : t'.methodsOf (σ.cls c) = (t.methodsOf c).map σ.method := by
  refine h.methods.positions_eq ?_ (fun m hm => beq_eq_false_iff_ne.mpr (hm c)) ?_
  · rintro m _ rfl
    exact Bool.eq_iff_iff.mpr (beq_iff_eq.trans (σ.cls_injective.eq_iff.trans beq_iff_eq.symm))
  · intro i j a b hlt ha hb hpa hpb
    exact h.methods.mono hlt ha hb ((beq_iff_eq.mp hpa).trans (beq_iff_eq.mp hpb).symm)

/-- A name is declared as the renamed method in a class. -/
theorem declaredMethod (c : ClassId) (name : String) :
    t'.declaredMethod (σ.cls c) name = (t.declaredMethod c name).map σ.method := by
  refine h.methods.findIdx?_eq ?_
    (fun m hm => by rw [beq_eq_false_iff_ne.mpr (hm c), Bool.false_and]) ?_
  · rintro m _ rfl
    refine congrArg (· && m.name == name) ?_
    exact Bool.eq_iff_iff.mpr (beq_iff_eq.trans (σ.cls_injective.eq_iff.trans beq_iff_eq.symm))
  · intro i j a b hlt ha hb hpa hpb
    exact h.methods.mono hlt ha hb ((beq_iff_eq.mp (Bool.and_eq_true_iff.mp hpa).1).trans
      (beq_iff_eq.mp (Bool.and_eq_true_iff.mp hpb).1).symm)

/-- The variables of a scope that pass a test. -/
theorem varsOf (s : ScopeId) {q : VarSymbol → Bool} (hq : ∀ v, q (σ.varSymbol v) = q v) :
    positions (fun v => v.scope == σ.scope s && q v) t'.vars
      = (positions (fun v => v.scope == s && q v) t.vars).map σ.var := by
  refine h.vars.positions_eq ?_
    (fun v hv => by rw [beq_eq_false_iff_ne.mpr (hv s), Bool.false_and]) ?_
  · rintro v _ rfl
    refine congrArg₂ (· && ·) ?_ (hq v)
    exact Bool.eq_iff_iff.mpr (beq_iff_eq.trans (σ.scope_injective.eq_iff.trans beq_iff_eq.symm))
  · intro i j a b hlt ha hb hpa hpb
    exact h.vars.mono hlt ha hb ((beq_iff_eq.mp (Bool.and_eq_true_iff.mp hpa).1).trans
      (beq_iff_eq.mp (Bool.and_eq_true_iff.mp hpb).1).symm)

/-- A name is declared as the renamed variable in a scope. -/
theorem lookupIn (s : ScopeId) (name : String) :
    t'.lookupIn (σ.scope s) name = (t.lookupIn s name).map σ.var := by
  unfold SymbolTable.lookupIn
  rw [findIdx?_eq_head?, findIdx?_eq_head?, h.varsOf s (q := fun v => v.name == name)
    fun _ => rfl, List.head?_map]

theorem declaredField (c : ClassId) (name : String) :
    t'.declaredField (σ.cls c) name = (t.declaredField c name).map σ.var := by
  unfold SymbolTable.declaredField
  rw [(h.classAt c).2.2.2, h.lookupIn]

/-- The fields of a class are the renamed ones, in the same order. -/
theorem fieldsOf (c : ClassId) : t'.fieldsOf (σ.cls c) = (t.fieldsOf c).map σ.var := by
  unfold SymbolTable.fieldsOf
  rw [(h.classAt c).2.2.2]
  exact h.varsOf _ fun _ => rfl

/-- The parameters of a method are the renamed ones, in the same order. -/
theorem paramsOf (m : MethodId) : t'.paramsOf (σ.method m) = (t.paramsOf m).map σ.var := by
  unfold SymbolTable.paramsOf
  rw [h.methodAt_scope]
  exact h.varsOf _ fun _ => rfl

/-- The blocks of a scope other than that of the program. -/
theorem childrenOf {s : ScopeId} (hs : s ≠ rootScope) :
    t'.childrenOf (σ.scope s) = (t.childrenOf s).map σ.scope := by
  refine h.scopes.positions_eq ?_ (fun k hk => beq_eq_false_iff_ne.mpr (hk s hs)) ?_
  · rintro k _ rfl
    refine Bool.eq_iff_iff.mpr (beq_iff_eq.trans (Iff.trans ?_ beq_iff_eq.symm))
    exact (Option.map_injective σ.scope_injective).eq_iff (b := some s)
  · intro i j a b hlt ha hb hpa hpb
    exact h.scopes.mono hlt ha hb ⟨s, hs, beq_iff_eq.mp hpa, beq_iff_eq.mp hpb⟩

end Embedded

end SymbolTable

end Heritage
