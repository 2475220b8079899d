import Heritage.Proofs.Contents
import Heritage.Proofs.Members

/-!
# The table of a program in which every name is in order

`Represents` says how such a table and the program it was collected from belong
together: classes by position, the fields of a class in its scope, and for each
method of the table a declaration in the program and the other way round. The
relations of the program, which speak of names, are then the relations of the
table, which speak of positions.
-/

namespace Heritage

open SymbolTable Collected

namespace SymbolTable

variable {t : SymbolTable}

/-! ## Symbols and positions -/

theorem map_paramsOf (t : SymbolTable) (m : MethodId) :
    (t.paramsOf m).map t.varAt
      = (t.symbolsIn (t.methodAt m).scope).filter (·.kind.isParam) := by
  refine (map_positions _ default t.vars).trans ?_
  unfold symbolsIn
  rw [List.filter_filter]
  refine List.filter_congr (fun v _ => ?_)
  exact Bool.and_comm _ _

/-- **A search by a key that no two elements share** finds the element that has it. -/
theorem findIdx?_key_eq_some_iff {α κ : Type} [Inhabited α] [BEq κ] [LawfulBEq κ] {xs : List α}
    {key : α → κ} (h : (xs.map key).Nodup) {k : κ} {i : Nat} :
    xs.findIdx? (fun a => key a == k) = some i
      ↔ i < xs.length ∧ key (xs.getD i default) = k := by
  rw [List.findIdx?_eq_some_iff_getElem]
  constructor
  · rintro ⟨hi, hk, -⟩
    rw [List.getD_eq_getElem _ _ hi]
    exact ⟨hi, eq_of_beq hk⟩
  · rintro ⟨hi, hk⟩
    rw [List.getD_eq_getElem _ _ hi] at hk
    refine ⟨hi, beq_iff_eq.mpr hk, fun j hji hkj => ?_⟩
    have hj : j < xs.length := Nat.lt_trans hji hi
    have hne := List.pairwise_iff_getElem.mp (List.pairwise_map.mp h) j i hj hi hji
    exact hne ((eq_of_beq hkj).trans hk.symm)

theorem lookupClass_eq_some_iff (h : Formed t) {name : String} {c : ClassId} :
    t.lookupClass name = some c ↔ c < t.classes.length ∧ (t.classAt c).name = name :=
  findIdx?_key_eq_some_iff h.class_names

theorem lookupIn_eq_some_iff (h : Formed t) {s : ScopeId} {name : String} {v : VarId} :
    t.lookupIn s name = some v
      ↔ v < t.vars.length ∧ (t.varAt v).scope = s ∧ (t.varAt v).name = name := by
  rw [lookupIn_eq_findIdx?, findIdx?_key_eq_some_iff h.var_names, Prod.mk.injEq]
  rfl

theorem declaredMethod_eq_some_iff (h : Formed t) {c : ClassId} {name : String} {m : MethodId} :
    t.declaredMethod c name = some m
      ↔ m < t.methods.length ∧ (t.methodAt m).owner = c ∧ (t.methodAt m).name = name := by
  rw [declaredMethod_eq_findIdx?, findIdx?_key_eq_some_iff h.method_names, Prod.mk.injEq]
  rfl

theorem Formed.class_eq_of_name (h : Formed t) {c a : ClassId} (hc : c < t.classes.length)
    (ha : a < t.classes.length) (hname : (t.classAt c).name = (t.classAt a).name) : c = a := by
  have hlook := (lookupClass_eq_some_iff h).mpr ⟨hc, hname⟩
  exact Option.some.inj (hlook.symm.trans ((lookupClass_eq_some_iff h).mpr ⟨ha, rfl⟩))

/-- A method is known by the names of its class and of itself. -/
theorem Formed.method_eq_of_names (h : Formed t) {m n : MethodId} (hm : m < t.methods.length)
    (hn : n < t.methods.length)
    (hcls : (t.classAt (t.methodAt m).owner).name = (t.classAt (t.methodAt n).owner).name)
    (hname : (t.methodAt m).name = (t.methodAt n).name) : m = n := by
  have howner := h.class_eq_of_name (h.methodAt_owner_lt hm) (h.methodAt_owner_lt hn) hcls
  have hlook := (declaredMethod_eq_some_iff h).mpr ⟨hm, howner, hname⟩
  exact Option.some.inj (hlook.symm.trans ((declaredMethod_eq_some_iff h).mpr ⟨hn, rfl, rfl⟩))

/-- The classes of a table, by position. -/
theorem map_classAt (t : SymbolTable) : t.classIds.map t.classAt = t.classes := by
  refine List.ext_getElem? fun c => ?_
  rw [List.getElem?_map, classIds]
  by_cases hc : c < t.classes.length
  · rw [List.getElem?_range hc, getElem?_eq_getD hc default]
    rfl
  · have hc := Nat.le_of_not_lt hc
    rw [List.getElem?_eq_none hc, List.getElem?_eq_none (by rwa [List.length_range])]
    rfl

/-- Tables with the same classes, position by position. -/
theorem classes_eq_of_classAt {u : SymbolTable} (hlen : u.classes.length = t.classes.length)
    (h : ∀ c < t.classes.length, u.classAt c = t.classAt c) : u.classes = t.classes := by
  rw [← map_classAt u, ← map_classAt t]
  unfold classIds
  rw [hlen]
  exact List.map_congr_left fun c hc => h c (List.mem_range.mp hc)

/-- The names of the classes of a table. -/
def classNames (t : SymbolTable) : List String :=
  t.classes.map (·.name)

/-- The methods of a table, each with the names of its class and of itself. -/
def methodsByName (t : SymbolTable) : List (String × String) :=
  (List.range t.methods.length).map fun m =>
    ((t.classAt (t.methodAt m).owner).name, (t.methodAt m).name)

theorem Formed.methodsByName_nodup (h : Formed t) : t.methodsByName.Nodup :=
  List.nodup_range.map_on fun _ hm _ hn hname =>
    h.method_eq_of_names (List.mem_range.mp hm) (List.mem_range.mp hn)
      (congrArg Prod.fst hname) (congrArg Prod.snd hname)

theorem classNames_of_declared {u : SymbolTable} (h : u.declared = t.declared) :
    u.classNames = t.classNames := by
  have hnames := congrArg (fun v => v.classes.map (·.name)) h
  dsimp only [declared] at hnames
  rwa [List.map_map, List.map_map] at hnames

theorem methodsByName_of_declared {u : SymbolTable} (h : u.declared = t.declared) :
    u.methodsByName = t.methodsByName := by
  unfold methodsByName
  rw [methods_length_of_declared h]
  refine List.map_congr_left fun m _ => ?_
  obtain ⟨howner, hname, -⟩ := MethodSymbol.of_declared_eq (methodAt_of_declared h m)
  rw [howner, hname, classAt_name_of_declared h]

/-- **A variable of a scope is found by its name**, and what is found is a
variable of the scope. -/
theorem mem_symbolsIn_iff (h : Formed t) {s : ScopeId} {k : VarSymbol} :
    k ∈ t.symbolsIn s ↔ ∃ v, t.lookupIn s k.name = some v ∧ t.varAt v = k := by
  unfold symbolsIn
  rw [List.mem_filter, beq_iff_eq]
  constructor
  · rintro ⟨hk, rfl⟩
    obtain ⟨v, hv⟩ := List.getElem?_of_mem hk
    have hat : t.varAt v = k := getD_of_eq_some hv _
    refine ⟨v, (lookupIn_eq_some_iff h).mpr ⟨(List.getElem?_eq_some_iff.mp hv).1, ?_, ?_⟩, hat⟩
    · rw [hat]
    · rw [hat]
  · rintro ⟨v, hv, rfl⟩
    obtain ⟨hlt, hs, -⟩ := (lookupIn_eq_some_iff h).mp hv
    exact ⟨List.mem_of_getElem? (getElem?_eq_getD hlt default), hs⟩

end SymbolTable

/-- **A method of a table and its declaration in a program.** -/
structure HoldsMethod (p : Program) (t : SymbolTable) (m : MethodId) (c : ClassId)
    (decl : MethodDecl) : Prop where
  /-- The program declares it. -/
  declared : ∃ d, p.classes[c]? = some d ∧ Member.method decl ∈ d.members
  /-- It is a method of the table. -/
  inside : m < t.methods.length
  /-- It belongs to its class. -/
  owner : (t.methodAt m).owner = c
  /-- It has its name. -/
  name : (t.methodAt m).name = decl.name.text
  /-- It has its return type, still to be looked up. -/
  returns : (t.methodAt m).returnTypeName = decl.returnType
    ∧ (t.methodAt m).returnType = if decl.returnType.isSome then none else some .void
  /-- It has its parameters. -/
  params : ∃ receiver params, decl.params = receiver :: params ∧ receiver.type = none
    ∧ (t.paramsOf m).map t.varAt
      = receiverSymbol (t.methodAt m).scope receiver.name.text c receiver.span
        :: paramSymbols (t.methodAt m).scope params

/-- **A table that holds what a program declares.** -/
structure Represents (p : Program) (t : SymbolTable) : Prop where
  /-- The table is well-formed. -/
  formed : Formed t
  /-- Nothing is resolved in it. -/
  fresh : t.Fresh
  /-- It has the classes of the program. -/
  length : t.classes.length = p.classes.length
  /-- At its position, a class has its name and its parents. -/
  classAt : ∀ {c d}, p.classes[c]? = some d →
    (t.classAt c).name = d.name.text ∧ (t.classAt c).parents = d.parents
  /-- The scope of a class holds its fields. -/
  fields : ∀ {c d}, p.classes[c]? = some d →
    t.symbolsIn (t.classAt c).scope = d.members.flatMap (fieldSymbols (t.classAt c).scope)
  /-- The types to be looked up are those of the fields, parameters and locals. -/
  words : t.openWords = p.classes.flatMap fun d => d.members.flatMap Member.typeWords
  /-- Every method is declared in the program. -/
  declared : ∀ m < t.methods.length, ∃ c decl, HoldsMethod p t m c decl
  /-- Every method of the program is in the table. -/
  holds : ∀ {c d decl}, p.classes[c]? = some d → Member.method decl ∈ d.members →
    ∃ m, HoldsMethod p t m c decl

theorem collect_fresh (p : Program) : (collect p).table.Fresh := by
  intro c
  by_cases hc : c < (collect p).table.classes.length
  · have hmem : (collect p).table.classAt c ∈ (collect p).table.classes :=
      List.mem_of_getElem? (getElem?_eq_getD hc default)
    obtain ⟨decl, -, hk⟩ := class_declared p hmem
    rw [hk]
    rfl
  · rw [classAt_of_le (Nat.le_of_not_lt hc)]
    rfl

theorem filter_isParam (s : ScopeId) (receiver : VarSymbol) (hr : receiver.kind = .receiver)
    (params : List Param) (body : List Stmt) :
    (receiver :: (paramSymbols s params ++ body.flatMap (localSymbols s))).filter (·.kind.isParam)
      = receiver :: paramSymbols s params := by
  have hlocal : ∀ v ∈ body.flatMap (localSymbols s), ¬ v.kind.isParam = true := by
    intro v hv
    obtain ⟨stmt, -, hv⟩ := List.mem_flatMap.mp hv
    cases stmt with
    | declare type vars span =>
      obtain ⟨w, -, rfl⟩ := List.mem_map.mp hv
      exact Bool.false_ne_true
    | _ => cases hv
  have hparam : ∀ v ∈ paramSymbols s params, v.kind.isParam = true := by
    intro v hv
    obtain ⟨q, -, hq⟩ := List.mem_filterMap.mp hv
    obtain ⟨w, -, rfl⟩ := Option.map_eq_some_iff.mp hq
    rfl
  rw [List.filter_cons, hr, List.filter_append, List.filter_eq_nil_iff.mpr hlocal,
    List.filter_eq_self.mpr hparam, List.append_nil]
  rfl

/-- A registered method is held as it was declared. -/
theorem registered_holds {p : Program} (clean : (collect p).issues = []) {r : Registered}
    (hr : r ∈ registered p) :
    HoldsMethod p (collect p).table r.method ((collect p).table.methodAt r.method).owner
      r.decl := by
  obtain ⟨receiver, params, s, hp, htype, hs, hsymbols⟩ := registered_symbolsIn clean hr
  obtain ⟨t, c, decl, index, v⟩ := visited p hr
  refine ⟨mem_of_registered clean hr, v.methodAt.1, rfl, ?_, ?_, receiver, params, hp, htype, ?_⟩
  · rw [v.methodAt.2]
  · rw [v.methodAt.2]
    exact ⟨rfl, rfl⟩
  · rw [map_paramsOf, hs, hsymbols, filter_isParam s _ rfl]

/-- **If nothing was found, the table holds what the program declares.** -/
theorem represents_collect {p : Program} (clean : (collect p).issues = []) :
    Represents p (collect p).table where
  formed := collect_formed p
  fresh := collect_fresh p
  length := collect_classes_length clean
  classAt hd := by
    rw [(collect_classAt clean hd).2]
    exact ⟨rfl, rfl⟩
  fields hd := class_symbolsIn clean hd
  words := collect_openWords clean
  declared m hm := by
    have hmem : m ∈ (registered p).map (·.method) := by
      rw [registered_methods]
      exact List.mem_range.mpr hm
    obtain ⟨r, hr, rfl⟩ := List.mem_map.mp hmem
    exact ⟨_, r.decl, registered_holds clean hr⟩
  holds hd hdecl := by
    obtain ⟨r, hr, rfl, rfl⟩ := registered_of_mem clean hd hdecl
    exact ⟨r.method, registered_holds clean hr⟩

/-! ## Names for positions -/

namespace Represents

variable {p : Program} {t : SymbolTable} (h : Represents p t)
include h

theorem decl_of_lt {c : ClassId} (hc : c < t.classes.length) : ∃ d, p.classes[c]? = some d :=
  ⟨_, List.getElem?_eq_getElem (h.length ▸ hc)⟩

theorem lt_of_decl {c : ClassId} {d : ClassDecl} (hd : p.classes[c]? = some d) :
    c < t.classes.length :=
  h.length ▸ (List.getElem?_eq_some_iff.mp hd).1

/-- Classes with the same name are the same. -/
theorem name_inj {c a : ClassId} (hc : c < t.classes.length) (ha : a < t.classes.length)
    (hname : (t.classAt c).name = (t.classAt a).name) : c = a :=
  h.formed.class_eq_of_name hc ha hname

/-- **The declaration of a class by its name** is the one at its position. -/
theorem decl_of_name {c : ClassId} (hc : c < t.classes.length) {d : ClassDecl} :
    (d ∈ p.classes ∧ d.name.text = (t.classAt c).name) ↔ p.classes[c]? = some d := by
  constructor
  · rintro ⟨hd, hname⟩
    obtain ⟨a, ha⟩ := List.getElem?_of_mem hd
    rwa [h.name_inj hc (h.lt_of_decl ha) (hname.symm.trans (h.classAt ha).1.symm)]
  · intro hd
    exact ⟨List.mem_of_getElem? hd, (h.classAt hd).1.symm⟩

/-- **A name is that of a class** if it is found. -/
theorem hasClass_iff {w : String} : p.HasClass w ↔ ∃ c, t.lookupClass w = some c := by
  constructor
  · rintro ⟨d, hd, rfl⟩
    obtain ⟨c, hc⟩ := List.getElem?_of_mem hd
    exact ⟨c, (lookupClass_eq_some_iff h.formed).mpr ⟨h.lt_of_decl hc, (h.classAt hc).1⟩⟩
  · rintro ⟨c, hc⟩
    obtain ⟨hlt, rfl⟩ := (lookupClass_eq_some_iff h.formed).mp hc
    obtain ⟨d, hd⟩ := h.decl_of_lt hlt
    exact ⟨d, List.mem_of_getElem? hd, (h.classAt hd).1.symm⟩

theorem hasClass_name {c : ClassId} (hc : c < t.classes.length) : p.HasClass (t.classAt c).name :=
  h.hasClass_iff.mpr ⟨c, (lookupClass_eq_some_iff h.formed).mpr ⟨hc, rfl⟩⟩

/-! ## Inheritance -/

theorem parent_iff {c : ClassId} (hc : c < t.classes.length) {w : String} :
    p.Parent (t.classAt c).name w ↔ ∃ q ∈ (t.classAt c).parents, q.text = w := by
  unfold Program.Parent
  constructor
  · rintro ⟨d, hd, hname, hq⟩
    rwa [(h.classAt ((h.decl_of_name hc).mp ⟨hd, hname⟩)).2]
  · intro hq
    obtain ⟨d, hd⟩ := h.decl_of_lt hc
    rw [(h.classAt hd).2] at hq
    exact ⟨d, List.mem_of_getElem? hd, (h.classAt hd).1.symm, hq⟩

theorem parent_name_iff {c a : ClassId} (hc : c < t.classes.length) (ha : a < t.classes.length) :
    p.Parent (t.classAt c).name (t.classAt a).name ↔ t.resolve.table.Parent c a := by
  rw [h.parent_iff hc, h.fresh.resolve_parent_iff]
  refine exists_congr (fun q => and_congr_right fun _ => ?_)
  rw [lookupClass_eq_some_iff h.formed, eq_comm]
  exact (and_iff_right ha).symm

/-- What has a parent is a class. -/
theorem exists_of_parent {x y : String} (hp : p.Parent x y) :
    ∃ c < t.classes.length, (t.classAt c).name = x := by
  obtain ⟨d, hd, hname, -⟩ := hp
  obtain ⟨c, hc⟩ := (h.hasClass_iff).mp ⟨d, hd, hname⟩
  exact ⟨c, (lookupClass_eq_some_iff h.formed).mp hc⟩

/-- **Deriving by names is deriving by positions.** -/
theorem ancestor_iff {c a : ClassId} (hc : c < t.classes.length) (ha : a < t.classes.length) :
    p.Ancestor (t.classAt c).name (t.classAt a).name ↔ t.resolve.table.Ancestor c a := by
  constructor
  · intro hanc
    suffices ∀ x y, Relation.TransGen p.Parent x y → ∀ c < t.classes.length,
        (t.classAt c).name = x → ∀ a < t.classes.length, (t.classAt a).name = y →
        t.resolve.table.Ancestor c a from this _ _ hanc c hc rfl a ha rfl
    intro x y hxy
    induction hxy with
    | single hp =>
      rintro c hc rfl a ha rfl
      exact .single ((h.parent_name_iff hc ha).mp hp)
    | tail _ hp ih =>
      rintro c hc rfl a ha rfl
      obtain ⟨b, hb, rfl⟩ := h.exists_of_parent hp
      exact .tail (ih c hc rfl b hb rfl) ((h.parent_name_iff hb ha).mp hp)
  · intro hanc
    induction hanc with
    | single hp => exact .single ((h.parent_name_iff hc ha).mpr hp)
    | @tail b a hcb hp ih =>
      have hb : b < t.classes.length := t.resolve_length ▸ lt_of_parent hp
      exact .tail (ih hb) ((h.parent_name_iff hb ha).mpr hp)

/-- An ancestor of a class whose parents are all classes is one. -/
theorem exists_of_ancestor (known : ∀ d ∈ p.classes, ∀ q ∈ d.parents, p.HasClass q.text)
    {x y : String} (hxy : p.Ancestor x y) : ∃ a < t.classes.length, (t.classAt a).name = y := by
  cases hxy with
  | single hp =>
    obtain ⟨d, hd, -, q, hq, rfl⟩ := hp
    obtain ⟨c, hc⟩ := h.hasClass_iff.mp (known d hd q hq)
    exact ⟨c, (lookupClass_eq_some_iff h.formed).mp hc⟩
  | tail _ hp =>
    obtain ⟨d, hd, -, q, hq, rfl⟩ := hp
    obtain ⟨c, hc⟩ := h.hasClass_iff.mp (known d hd q hq)
    exact ⟨c, (lookupClass_eq_some_iff h.formed).mp hc⟩

/-! ## Members -/

theorem holdsMethod_lt {m : MethodId} {c : ClassId} {decl : MethodDecl}
    (hm : HoldsMethod p t m c decl) : c < t.classes.length := by
  obtain ⟨d, hd, -⟩ := hm.declared
  exact h.lt_of_decl hd

/-- **What a class declares as a method.** -/
theorem declaresMethod_iff {c : ClassId} (hc : c < t.classes.length) {decl : MethodDecl} :
    p.DeclaresMethod (t.classAt c).name decl ↔ ∃ m, HoldsMethod p t m c decl := by
  constructor
  · rintro ⟨d, hd, hname, hmem⟩
    exact h.holds ((h.decl_of_name hc).mp ⟨hd, hname⟩) hmem
  · rintro ⟨m, hm⟩
    obtain ⟨d, hd, hmem⟩ := hm.declared
    exact ⟨d, List.mem_of_getElem? hd, (h.classAt hd).1.symm, hmem⟩

/-- The method of a class with a name is found. -/
theorem declaredMethod_of_holds {m : MethodId} {c : ClassId} {decl : MethodDecl}
    (hm : HoldsMethod p t m c decl) : t.declaredMethod c decl.name.text = some m :=
  (declaredMethod_eq_some_iff h.formed).mpr ⟨hm.inside, hm.owner, hm.name⟩

/-- What is found as a method of a class was declared as one. -/
theorem holds_of_declaredMethod {m : MethodId} {c : ClassId} {name : String}
    (hm : t.declaredMethod c name = some m) :
    ∃ decl, HoldsMethod p t m c decl ∧ decl.name.text = name := by
  obtain ⟨hlt, hc, hname⟩ := (declaredMethod_eq_some_iff h.formed).mp hm
  obtain ⟨c', decl, hd⟩ := h.declared m hlt
  obtain rfl : c' = c := hd.owner.symm.trans hc
  exact ⟨decl, hd, hd.name.symm.trans hname⟩

theorem hasMethod_iff {c : ClassId} (hc : c < t.classes.length) {name : String} :
    p.HasMethod name (t.classAt c).name ↔ t.declaredMethod c name ≠ none := by
  constructor
  · rintro ⟨decl, hd, rfl⟩
    obtain ⟨m, hm⟩ := (h.declaresMethod_iff hc).mp hd
    rw [h.declaredMethod_of_holds hm]
    exact Option.some_ne_none m
  · intro hne
    obtain ⟨m, hm⟩ := Option.ne_none_iff_exists'.mp hne
    obtain ⟨decl, hd, hname⟩ := h.holds_of_declaredMethod hm
    exact ⟨decl, (h.declaresMethod_iff hc).mpr ⟨m, hd⟩, hname⟩

theorem mem_classNames_iff {c : String} : c ∈ t.classNames ↔ p.HasClass c := by
  constructor
  · intro hc
    obtain ⟨k, hk, rfl⟩ := List.mem_map.mp hc
    obtain ⟨i, hi⟩ := List.getElem?_of_mem hk
    have hname := h.hasClass_name (List.getElem?_eq_some_iff.mp hi).1
    rwa [SymbolTable.classAt, getD_of_eq_some hi] at hname
  · rintro ⟨d, hd, rfl⟩
    obtain ⟨i, hi⟩ := List.getElem?_of_mem hd
    rw [← (h.classAt hi).1]
    exact List.mem_map_of_mem (List.mem_of_getElem? (getElem?_eq_getD (h.lt_of_decl hi) _))

theorem mem_methodsByName_iff {c name : String} :
    (c, name) ∈ t.methodsByName ↔ p.HasMethod name c := by
  constructor
  · intro hmem
    obtain ⟨m, hm, heq⟩ := List.mem_map.mp hmem
    obtain ⟨rfl, rfl⟩ := Prod.mk.inj heq
    have hm := List.mem_range.mp hm
    have hlook := (declaredMethod_eq_some_iff h.formed).mpr ⟨hm, rfl, rfl⟩
    exact (h.hasMethod_iff (h.formed.methodAt_owner_lt hm)).mpr (hlook ▸ Option.some_ne_none m)
  · rintro ⟨decl, ⟨d, hd, rfl, hdecl⟩, rfl⟩
    obtain ⟨c, hc⟩ := List.getElem?_of_mem hd
    obtain ⟨m, hm⟩ := h.holds hc hdecl
    refine List.mem_map.mpr ⟨m, List.mem_range.mpr hm.inside, ?_⟩
    rw [hm.owner, hm.name, (h.classAt hc).1]

/-- What is found as a field of a class was declared as one. -/
theorem declaredField_symbol {c : ClassId} (hc : c < t.classes.length) {name : String} {v : VarId}
    (hv : t.declaredField c name = some v) :
    ∃ d f x, p.classes[c]? = some d ∧ Member.field f ∈ d.members ∧ x ∈ f.names ∧ x.text = name
      ∧ t.varAt v = fieldSymbol (t.classAt c).scope x.text f.type x.span := by
  obtain ⟨-, -, hn⟩ := (lookupIn_eq_some_iff h.formed).mp hv
  obtain ⟨d, hd⟩ := h.decl_of_lt hc
  have hsym : t.varAt v ∈ t.symbolsIn (t.classAt c).scope :=
    (mem_symbolsIn_iff h.formed).mpr ⟨v, by rw [hn]; exact hv, rfl⟩
  rw [h.fields hd] at hsym
  obtain ⟨m, hm, hsym⟩ := List.mem_flatMap.mp hsym
  cases m with
  | method decl => cases hsym
  | field f =>
    obtain ⟨x, hx, hat⟩ := List.mem_map.mp hsym
    rw [← hat] at hn
    exact ⟨d, f, x, hd, hm, hx, hn, hat.symm⟩

/-- **What a class declares as a field.** -/
theorem declaresField_iff {c : ClassId} (hc : c < t.classes.length) {name type : String} :
    p.DeclaresField (t.classAt c).name name type
      ↔ ∃ v w, t.declaredField c name = some v ∧ (t.varAt v).typeName = some w
        ∧ w.text = type := by
  constructor
  · rintro ⟨d, hd, hname, f, hf, rfl, x, hx, rfl⟩
    have hsym : fieldSymbol (t.classAt c).scope x.text f.type x.span
        ∈ t.symbolsIn (t.classAt c).scope := by
      rw [h.fields ((h.decl_of_name hc).mp ⟨hd, hname⟩)]
      exact List.mem_flatMap.mpr ⟨_, hf, List.mem_map.mpr ⟨x, hx, rfl⟩⟩
    obtain ⟨v, hv, hat⟩ := (mem_symbolsIn_iff h.formed).mp hsym
    exact ⟨v, f.type, hv, by rw [hat]; rfl, rfl⟩
  · rintro ⟨v, w, hv, hw, rfl⟩
    obtain ⟨d, f, x, hd, hf, hx, hn, hat⟩ := h.declaredField_symbol hc hv
    rw [hat] at hw
    refine ⟨d, List.mem_of_getElem? hd, (h.classAt hd).1.symm, f, hf, ?_, x, hx, hn⟩
    exact congrArg Ident.text (Option.some.inj hw)

theorem hasField_iff {c : ClassId} (hc : c < t.classes.length) {name : String} :
    p.HasField name (t.classAt c).name ↔ t.declaredField c name ≠ none := by
  constructor
  · rintro ⟨type, hd⟩
    obtain ⟨v, -, hv, -⟩ := (h.declaresField_iff hc).mp hd
    rw [hv]
    exact Option.some_ne_none v
  · intro hne
    obtain ⟨v, hv⟩ := Option.ne_none_iff_exists'.mp hne
    obtain ⟨_, f, _, -, -, -, -, hat⟩ := h.declaredField_symbol hc hv
    exact ⟨f.type.text, (h.declaresField_iff hc).mpr ⟨v, f.type, hv, by rw [hat]; rfl, rfl⟩⟩

end Represents

/-! ## Types -/

namespace SymbolTable

/-- A type with classes named by their names. -/
def sourceTy (t : SymbolTable) : Ty → SourceTy
  | .int => .int
  | .void => .void
  | .cls c => .object (t.classAt c).name

/-- A type over the classes of a table. -/
def Known (t : SymbolTable) : Ty → Prop
  | .int => True
  | .void => True
  | .cls c => c < t.classes.length

end SymbolTable

namespace Represents

variable {p : Program} {t : SymbolTable} (h : Represents p t)
include h

/-- Types that are named alike are the same. -/
theorem sourceTy_inj {τ σ : Ty} (hτ : t.Known τ) (hσ : t.Known σ) :
    t.sourceTy τ = t.sourceTy σ ↔ τ = σ := by
  refine ⟨fun heq => ?_, fun heq => heq ▸ rfl⟩
  cases τ <;> cases σ <;> simp only [sourceTy, SourceTy.object.injEq, reduceCtorEq] at heq ⊢
  rw [h.name_inj hτ hσ heq]

/-- **A word that is looked up is the type it is written for.** -/
theorem resolveType_eq_some {w : String} {τ : Ty} (hτ : t.resolveType w = some τ) :
    t.Known τ ∧ t.sourceTy τ = .ofWord w := by
  unfold resolveType Ty.ofKeyword? at hτ
  unfold SourceTy.ofWord
  by_cases hint : w = "int"
  · rw [if_pos hint] at hτ ⊢
    obtain rfl := Option.some.inj hτ
    exact ⟨trivial, rfl⟩
  · rw [if_neg hint] at hτ ⊢
    by_cases hvoid : w = "void"
    · rw [if_pos hvoid] at hτ ⊢
      obtain rfl := Option.some.inj hτ
      exact ⟨trivial, rfl⟩
    · rw [if_neg hvoid] at hτ ⊢
      obtain ⟨c, hc, rfl⟩ := Option.map_eq_some_iff.mp hτ
      obtain ⟨hlt, rfl⟩ := (lookupClass_eq_some_iff h.formed).mp hc
      exact ⟨hlt, rfl⟩

theorem isReturnType_iff {w : String} : p.IsReturnType w ↔ ∃ τ, t.resolveType w = some τ := by
  unfold Program.IsReturnType resolveType Ty.ofKeyword?
  rw [h.hasClass_iff]
  by_cases hint : w = "int"
  · simp [hint]
  · by_cases hvoid : w = "void"
    · simp [hvoid]
    · simp [hint, hvoid, Option.map_eq_some_iff]

theorem isValueType_iff {w : String} :
    p.IsValueType w ↔ ∃ τ, t.resolveType w = some τ ∧ τ ≠ .void := by
  unfold Program.IsValueType resolveType Ty.ofKeyword?
  rw [h.hasClass_iff]
  by_cases hint : w = "int"
  · simp [hint]
  · by_cases hvoid : w = "void"
    · simp [hvoid]
    · simp [hint, hvoid, Option.map_eq_some_iff]

end Represents

end Heritage
