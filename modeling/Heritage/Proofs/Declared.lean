import Heritage.Inheritance.Resolve
import Heritage.Proofs.Positions

/-!
# What resolution leaves alone

Resolving a table fills in what was left open: the types that words stand for,
and of each class its parents, its state, its linearization and its members.
`SymbolTable.declared` takes all of that away again and keeps what was
declared. Resolution keeps it, and whatever is read off a table through it – the
methods of a class, the blocks of a scope, what a name is declared as – is the
same before and after.
-/

namespace Heritage

/-- A class as it was declared. -/
def ClassSymbol.declared (c : ClassSymbol) : ClassSymbol where
  name := c.name
  parents := c.parents
  scope := c.scope
  declIndex := c.declIndex
  span := c.span

/-- A method as it was declared. -/
def MethodSymbol.declared (m : MethodSymbol) : MethodSymbol :=
  { m with returnType := none }

/-- A variable as it was declared. -/
def VarSymbol.declared (v : VarSymbol) : VarSymbol :=
  { v with type := none }

/-- What is declared of a class: its name, the names of its parents, its scope and its place. -/
theorem ClassSymbol.of_declared_eq {c d : ClassSymbol} (h : c.declared = d.declared) :
    c.name = d.name ∧ c.parents = d.parents ∧ c.scope = d.scope ∧ c.declIndex = d.declIndex
      ∧ c.span = d.span := by
  simp only [ClassSymbol.declared, ClassSymbol.mk.injEq] at h
  exact ⟨h.1, h.2.1, h.2.2.1, h.2.2.2.1, h.2.2.2.2.1⟩

/-- What is declared of a method: its class and name, what it is written to return, its scope and
its place. -/
theorem MethodSymbol.of_declared_eq {m n : MethodSymbol} (h : m.declared = n.declared) :
    m.owner = n.owner ∧ m.name = n.name ∧ m.returnTypeName = n.returnTypeName
      ∧ m.scope = n.scope ∧ m.declIndex = n.declIndex ∧ m.span = n.span := by
  simp only [MethodSymbol.declared, MethodSymbol.mk.injEq] at h
  exact ⟨h.1, h.2.1, h.2.2.1, h.2.2.2.2.1, h.2.2.2.2.2.1, h.2.2.2.2.2.2⟩

/-- What is declared of a variable: its name and written type, its scope, its kind and its place. -/
theorem VarSymbol.of_declared_eq {v w : VarSymbol} (h : v.declared = w.declared) :
    v.name = w.name ∧ v.typeName = w.typeName ∧ v.scope = w.scope ∧ v.kind = w.kind
      ∧ v.span = w.span := by
  simp only [VarSymbol.declared, VarSymbol.mk.injEq] at h
  exact ⟨h.1, h.2.1, h.2.2.2.1, h.2.2.2.2.1, h.2.2.2.2.2⟩

namespace SymbolTable

/-- **A table as it was declared.** -/
def declared (t : SymbolTable) : SymbolTable where
  classes := t.classes.map ClassSymbol.declared
  methods := t.methods.map MethodSymbol.declared
  vars := t.vars.map VarSymbol.declared
  scopes := t.scopes

theorem getD_map_of_default {α β : Type} (f : α → β) (xs : List α) (i : Nat) {a : α} {b : β}
    (h : f a = b) : (xs.map f).getD i b = f (xs.getD i a) := by
  rw [List.getD_eq_getElem?_getD, List.getD_eq_getElem?_getD, List.getElem?_map, ← h]
  cases xs[i]? with
  | none => rfl
  | some x => rfl

/-! ## What is read through it -/

/-- A position holds what is declared of the symbol there, and past the end a symbol of which
nothing is. -/
theorem declared_classAt (t : SymbolTable) (c : ClassId) :
    t.declared.classAt c = (t.classAt c).declared :=
  getD_map_of_default _ _ _ rfl

theorem declared_methodAt (t : SymbolTable) (m : MethodId) :
    t.declared.methodAt m = (t.methodAt m).declared :=
  getD_map_of_default _ _ _ rfl

theorem declared_varAt (t : SymbolTable) (v : VarId) :
    t.declared.varAt v = (t.varAt v).declared :=
  getD_map_of_default _ _ _ rfl

theorem declared_classIds (t : SymbolTable) : t.declared.classIds = t.classIds :=
  congrArg List.range (List.length_map _)

theorem declared_methodsOf (t : SymbolTable) (c : ClassId) :
    t.declared.methodsOf c = t.methodsOf c :=
  positions_map _ _ _

theorem declared_paramsOf (t : SymbolTable) (m : MethodId) :
    t.declared.paramsOf m = t.paramsOf m := by
  unfold paramsOf
  rw [declared_methodAt]
  exact positions_map _ _ _

theorem declared_lookupClass (t : SymbolTable) (name : String) :
    t.declared.lookupClass name = t.lookupClass name :=
  List.findIdx?_map

/-- A name is looked up among what is declared. -/
theorem declared_lookupIn (t : SymbolTable) (s : ScopeId) (name : String) :
    t.declared.lookupIn s name = t.lookupIn s name :=
  List.findIdx?_map

theorem declared_declaredMethod (t : SymbolTable) (c : ClassId) (name : String) :
    t.declared.declaredMethod c name = t.declaredMethod c name :=
  List.findIdx?_map

theorem declared_declaredField (t : SymbolTable) (c : ClassId) (name : String) :
    t.declared.declaredField c name = t.declaredField c name := by
  unfold declaredField
  rw [declared_classAt, declared_lookupIn]
  rfl

/-! ## Tables that were declared alike -/

section Alike

variable {t u : SymbolTable} (h : u.declared = t.declared)
include h

theorem classes_length_of_declared : u.classes.length = t.classes.length := by
  have hl := congrArg (fun x => x.classes.length) h
  simpa only [declared, List.length_map] using hl

theorem methods_length_of_declared : u.methods.length = t.methods.length := by
  have hl := congrArg (fun x => x.methods.length) h
  simpa only [declared, List.length_map] using hl

theorem scopes_of_declared : u.scopes = t.scopes :=
  show u.declared.scopes = t.declared.scopes from congrArg _ h

/-- Tables with the same declarations have the same declarations at each position. -/
theorem classAt_of_declared (c : ClassId) : (u.classAt c).declared = (t.classAt c).declared := by
  rw [← declared_classAt, h, declared_classAt]

theorem classAt_name_of_declared (c : ClassId) : (u.classAt c).name = (t.classAt c).name :=
  show (u.classAt c).declared.name = (t.classAt c).declared.name by rw [classAt_of_declared h]

theorem classAt_span_of_declared (c : ClassId) : (u.classAt c).span = (t.classAt c).span :=
  show (u.classAt c).declared.span = (t.classAt c).declared.span by rw [classAt_of_declared h]

theorem methodAt_of_declared (m : MethodId) :
    (u.methodAt m).declared = (t.methodAt m).declared := by
  rw [← declared_methodAt, h, declared_methodAt]

theorem varAt_of_declared (v : VarId) : (u.varAt v).declared = (t.varAt v).declared := by
  rw [← declared_varAt, h, declared_varAt]

theorem classIds_of_declared : u.classIds = t.classIds := by
  rw [← declared_classIds, h, declared_classIds]

/-- The methods of a class are a view of the declarations. -/
theorem methodsOf_of_declared (c : ClassId) : u.methodsOf c = t.methodsOf c := by
  rw [← declared_methodsOf, h, declared_methodsOf]

theorem paramsOf_of_declared (m : MethodId) : u.paramsOf m = t.paramsOf m := by
  rw [← declared_paramsOf, h, declared_paramsOf]

/-- The blocks of a scope are a view of the declarations. -/
theorem childrenOf_of_declared (s : ScopeId) : u.childrenOf s = t.childrenOf s := by
  rw [childrenOf, scopes_of_declared h, childrenOf]

theorem lookupClass_of_declared (name : String) : u.lookupClass name = t.lookupClass name := by
  rw [← declared_lookupClass, h, declared_lookupClass]

/-- **A name is declared as the same variable** before and after resolution. -/
theorem lookupIn_of_declared (s : ScopeId) (name : String) :
    u.lookupIn s name = t.lookupIn s name := by
  rw [← declared_lookupIn, h, declared_lookupIn]

/-- **A class declares the same methods** before and after resolution. -/
theorem declaredMethod_of_declared (c : ClassId) (name : String) :
    u.declaredMethod c name = t.declaredMethod c name := by
  rw [← declared_declaredMethod, h, declared_declaredMethod]

theorem declaredField_of_declared (c : ClassId) (name : String) :
    u.declaredField c name = t.declaredField c name := by
  rw [← declared_declaredField, h, declared_declaredField]

end Alike

/-! ## Resolution -/

/-- Looking up types fills in types only. -/
theorem resolveTypes_declared (t : SymbolTable) : t.resolveTypes.declared = t.declared := by
  unfold resolveTypes declared
  simp only [List.map_map]
  rfl

/-- Looking up parents fills in parents and states only. -/
theorem resolveParents_declared (t : SymbolTable) : t.resolveParents.declared = t.declared := by
  unfold resolveParents declared
  simp only [List.map_map]
  rfl

/-- Classes that were declared alike, position by position. -/
theorem map_declared_congr {cs ds : List ClassSymbol}
    (h : ∀ c : ClassId, cs[c]?.map ClassSymbol.declared = ds[c]?.map ClassSymbol.declared) :
    cs.map ClassSymbol.declared = ds.map ClassSymbol.declared := by
  refine List.ext_getElem? (fun c => ?_)
  rw [List.getElem?_map, List.getElem?_map, h c]

theorem mapIdx_declared (f : ClassId → ClassSymbol → ClassSymbol) (cs : List ClassSymbol)
    (h : ∀ c k, (f c k).declared = k.declared) :
    (cs.mapIdx f).map ClassSymbol.declared = cs.map ClassSymbol.declared := by
  refine map_declared_congr (fun c => ?_)
  rw [List.getElem?_mapIdx, Option.map_map]
  exact Option.map_congr (fun k _ => h c k)

/-- Marking cycles changes states only. -/
theorem markCycles_declared (t : SymbolTable) (g : Ancestry) :
    (t.markCycles g).declared = t.declared := by
  unfold markCycles declared
  rw [mapIdx_declared _ _ fun c k => ?_]
  split
  · rfl
  · rfl

/-- A change of one class keeps what is declared if it does so in every class. -/
theorem modifyClass_declared (t : SymbolTable) (c : ClassId) (f : ClassSymbol → ClassSymbol)
    (h : ∀ k, (f k).declared = k.declared) : (t.modifyClass c f).declared = t.declared := by
  unfold modifyClass declared
  rw [@map_declared_congr _ t.classes (fun d => ?_)]
  rw [List.getElem?_modify, Option.map_eq_map, Option.map_map]
  refine Option.map_congr (fun k _ => ?_)
  show (if c = d then f k else k).declared = k.declared
  split
  · exact h k
  · rfl

theorem markIfTainted_declared (g : Ancestry) (s : SymbolTable × List Issue) (c : ClassId) :
    (markIfTainted g s c).1.declared = s.1.declared := by
  unfold markIfTainted
  split
  · exact modifyClass_declared s.1 c _ (fun _ => rfl)
  · rfl

/-- Marking the classes below broken ones changes states only, turn by turn. -/
theorem markUnresolved_declared (t : SymbolTable) (g : Ancestry) :
    (t.markUnresolved g).1.declared = t.declared :=
  List.foldlRecOn t.classIds (markIfTainted g) (motive := fun s => s.1.declared = t.declared) rfl
    fun s hs c _ => (markIfTainted_declared g s c).trans hs

theorem linearizeClass_declared (t : SymbolTable) (c : ClassId) :
    (t.linearizeClass c).declared = t.declared := by
  unfold linearizeClass
  split
  · rfl
  · split
    · exact modifyClass_declared t c _ (fun _ => rfl)
    · exact modifyClass_declared t c _ (fun _ => rfl)

/-- Linearizing fills in linearizations and states, class by class. -/
theorem linearize_declared (t : SymbolTable) : t.linearize.declared = t.declared := by
  unfold linearize
  generalize t.resolutionOrder = order
  induction order generalizing t with
  | nil => rfl
  | cons c rest ih => rw [List.foldl_cons, ih, linearizeClass_declared]

/-- Flattening fills in members only. -/
theorem flatten_declared (t : SymbolTable) (g : Ancestry) :
    (t.flatten g).declared = t.declared := by
  unfold flatten declared
  rw [mapIdx_declared (fun c k => { k with members := t.membersOf g c }) _ fun c k => rfl]

/-- **Resolution keeps what was declared.** -/
theorem resolve_declared (t : SymbolTable) : t.resolve.table.declared = t.declared := by
  unfold resolve
  rw [flatten_declared, linearize_declared, markUnresolved_declared, markCycles_declared,
    resolveParents_declared, resolveTypes_declared]

/-! ## The types that resolution fills in -/

theorem linearizeClass_symbols (t : SymbolTable) (c : ClassId) :
    (t.linearizeClass c).vars = t.vars ∧ (t.linearizeClass c).methods = t.methods := by
  unfold linearizeClass
  split
  · exact ⟨rfl, rfl⟩
  · split
    · exact ⟨rfl, rfl⟩
    · exact ⟨rfl, rfl⟩

theorem linearize_symbols (t : SymbolTable) :
    t.linearize.vars = t.vars ∧ t.linearize.methods = t.methods := by
  unfold linearize
  generalize t.resolutionOrder = order
  induction order generalizing t with
  | nil => exact ⟨rfl, rfl⟩
  | cons c rest ih =>
    rw [List.foldl_cons]
    exact ⟨(ih _).1.trans (linearizeClass_symbols t c).1,
      (ih _).2.trans (linearizeClass_symbols t c).2⟩

theorem markUnresolved_symbols (t : SymbolTable) (g : Ancestry) :
    (t.markUnresolved g).1.vars = t.vars ∧ (t.markUnresolved g).1.methods = t.methods := by
  have step : ∀ (s : SymbolTable × List Issue) (c : ClassId),
      (markIfTainted g s c).1.vars = s.1.vars ∧ (markIfTainted g s c).1.methods = s.1.methods := by
    intro s c
    unfold markIfTainted
    split
    · exact ⟨rfl, rfl⟩
    · exact ⟨rfl, rfl⟩
  exact List.foldlRecOn t.classIds (markIfTainted g) (b := (t, []))
    (motive := fun s => s.1.vars = t.vars ∧ s.1.methods = t.methods) ⟨rfl, rfl⟩
    fun s hs c _ => ⟨(step s c).1.trans hs.1, (step s c).2.trans hs.2⟩

/-- **What resolution does to variables**: each is given the type that its word stands for. -/
theorem resolve_vars (t : SymbolTable) :
    t.resolve.table.vars = t.vars.map fun v => { v with type := t.resolvedVarType v } := by
  unfold resolve
  exact (linearize_symbols _).1.trans (markUnresolved_symbols _ _).1

/-- **What resolution does to methods**: each is given the type that it is written to return. -/
theorem resolve_methods (t : SymbolTable) :
    t.resolve.table.methods
      = t.methods.map fun m => { m with returnType := t.resolvedReturnType m } := by
  unfold resolve
  exact (linearize_symbols _).2.trans (markUnresolved_symbols _ _).2

/-- **The type of a variable in a resolved table.** -/
theorem resolve_varAt (t : SymbolTable) (v : VarId) :
    t.resolve.table.varAt v = { t.varAt v with type := t.resolvedVarType (t.varAt v) } := by
  rw [varAt, resolve_vars]
  exact getD_map_of_default _ _ _ rfl

/-- **The return type of a method in a resolved table.** -/
theorem resolve_methodAt (t : SymbolTable) (m : MethodId) :
    t.resolve.table.methodAt m
      = { t.methodAt m with returnType := t.resolvedReturnType (t.methodAt m) } := by
  rw [methodAt, resolve_methods]
  exact getD_map_of_default _ _ _ rfl

end SymbolTable

end Heritage
