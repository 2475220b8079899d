import Heritage.Proofs.InPlace
import Heritage.Proofs.Reporting
import Heritage.Proofs.Turns
import Heritage.Reporting.Resolve

/-!
# Resolving a table in place is resolving it step by step

Resolution can be read as a chain of tables, each with the issues found on the way to the next. The
loops that change one table with the report at hand come to the same. A loop over variables,
methods or classes reads, in the table that it is changing, only what it does not change or has
finished: written names, and parents that had their turn.
-/

namespace Heritage

open Reporting (Finds)

variable {t : SymbolTable}

/-! ## Loops -/

/-- **A loop that changes a list in place**, and finds what it would find in the list as it was.
The list is part of a state, which `put` gives back when the list has changed. -/
theorem Reporting.Finds.forM_inPlace {α σ : Type} {f : Nat → StateT σ Reporting Unit}
    (put : List α → σ) {change : Nat → α → α} {found : Nat → List Issue} {xs : List α}
    (turn : ∀ k x, xs[k]? = some x → Finds ((f k).run (put (mapBelow change k xs)))
      ((), put ((mapBelow change k xs).set k (change k x))) (found k)) :
    Finds (((List.range xs.length).forM f).run (put xs)) ((), put (xs.mapIdx change))
      ((List.range xs.length).flatMap found) := by
  have hloop : Finds (((List.range xs.length).forM f).run (put (mapBelow change 0 xs)))
      ((), put (mapBelow change (List.range xs.length).length xs))
      ((List.range xs.length).flatMap found) := by
    refine Finds.forM_states _ (fun k => put (mapBelow change k xs)) fun k i hi => ?_
    obtain ⟨hk, rfl⟩ := List.getElem?_eq_some_iff.mp hi
    rw [List.getElem_range]
    rw [List.length_range] at hk
    have hx : xs[k]? = some xs[k] := List.getElem?_eq_getElem hk
    exact set_mapBelow hx ▸ turn k xs[k] hx
  rwa [mapBelow_zero, List.length_range, mapBelow_all] at hloop

theorem flatMap_range_getD {α β : Type} (xs : List α) (d : α) (f : α → List β) :
    (List.range xs.length).flatMap (fun k => f (xs.getD k d)) = xs.flatMap f := by
  conv_rhs => rw [← map_getD_range xs d]
  rw [List.flatMap_map]

theorem flatMap_if_singleton {α β : Type} (xs : List α) (p : α → Bool) (f : α → β) :
    xs.flatMap (fun x => if p x then [f x] else []) = (xs.filter p).map f := by
  induction xs with
  | nil => rfl
  | cons x rest ih =>
    rw [List.flatMap_cons, List.filter_cons, ih]
    cases p x with
    | true => rfl
    | false => rfl

theorem mapIdx_const {α β : Type} (xs : List α) (f : α → β) :
    xs.mapIdx (fun _ => f) = xs.map f :=
  List.ext_getElem? fun i => by rw [List.getElem?_mapIdx, List.getElem?_map]

/-- A class with its parents looked up. -/
def SymbolTable.parentedClass (t : SymbolTable) (c : ClassSymbol) : ClassSymbol :=
  { c with
    resolvedParents := t.knownParents c
    state := if (t.missingParents c).isEmpty then c.state else .missingParent }

namespace Resolving

/-! ## Types -/

/-- A variable has its turn: it is put back with its type looked up. -/
theorem finds_resolveVar (t : SymbolTable) (k : VarId) {v : VarSymbol} (hv : t.varAt k = v) :
    Finds ((resolveVar k).run t)
      ((), { t with vars := t.vars.set k { v with type := t.resolvedVarType v } })
      (t.varTypeIssue? v).toList := by
  -- Without a type to set, the variable is put back as it was.
  have hkeep {x : Resolving Unit} {found : List Issue} (hx : Finds (x.run t) ((), t) found) :
      Finds (x.run t) ((), { t with vars := t.vars.set k v }) found := by
    rwa [← hv, t.set_varAt k]
  have hset (type : Ty) :
      Finds ((set (t.modifyVar k fun s => { s with type := some type }) : Resolving Unit).run t)
        ((), { t with vars := t.vars.set k { v with type := some type } }) [] := by
    rw [t.modifyVar_eq_set, hv]
    exact Finds.pure _
  refine Finds.run_after (Finds.pure _) ?_
  unfold SymbolTable.resolvedVarType SymbolTable.varTypeIssue?
  rw [hv]
  obtain ⟨name, typeName, type, scope, kind, span⟩ := v
  match type, typeName with
  | some _, _ => exact hkeep (Finds.pure _)
  | none, none => exact hkeep (Finds.pure _)
  | none, some written =>
    dsimp only [Option.none_or, Option.bind_some]
    match t.resolveType written.text with
    | none => exact hkeep ((Finds.report _).run_lift _)
    | some .void => exact hkeep ((Finds.report _).run_lift _)
    | some .int => exact hset .int
    | some (.cls c) => exact hset (.cls c)

theorem finds_resolveVars (t : SymbolTable) :
    Finds (((List.range t.vars.length).forM resolveVar).run t)
      ((), { t with vars := t.vars.map fun v => { v with type := t.resolvedVarType v } })
      (t.vars.filterMap t.varTypeIssue?) := by
  rw [List.filterMap_eq_flatMap_toList, ← mapIdx_const, ← flatMap_range_getD t.vars default]
  refine Finds.forM_inPlace (fun vs => { t with vars := vs }) fun k v hv => ?_
  rw [getD_of_eq_some hv]
  exact finds_resolveVar _ k ((getD_mapBelow default).trans (getD_of_eq_some hv default))

/-- A method has its turn: it is put back with its return type looked up. -/
theorem finds_resolveMethod (t : SymbolTable) (k : MethodId) {m : MethodSymbol}
    (hm : t.methodAt k = m) :
    Finds ((resolveMethod k).run t)
      ((), { t with methods := t.methods.set k { m with returnType := t.resolvedReturnType m } })
      (t.returnTypeIssue? m).toList := by
  have hkeep {x : Resolving Unit} {found : List Issue} (hx : Finds (x.run t) ((), t) found) :
      Finds (x.run t) ((), { t with methods := t.methods.set k m }) found := by
    rwa [← hm, t.set_methodAt k]
  have hset (type : Ty) :
      Finds ((set (t.modifyMethod k fun s => { s with returnType := some type }) :
          Resolving Unit).run t)
        ((), { t with methods := t.methods.set k { m with returnType := some type } }) [] := by
    rw [t.modifyMethod_eq_set, hm]
    exact Finds.pure _
  refine Finds.run_after (Finds.pure _) ?_
  unfold SymbolTable.resolvedReturnType SymbolTable.returnTypeIssue?
  rw [hm]
  obtain ⟨owner, name, returnTypeName, returnType, scope, declIndex, span⟩ := m
  match returnTypeName with
  | none => exact hkeep (Finds.pure _)
  | some written =>
    dsimp only
    match t.resolveType written.text with
    | none => exact hkeep ((Finds.report _).run_lift _)
    | some type => exact hset type

theorem finds_resolveMethods (t : SymbolTable) :
    Finds (((List.range t.methods.length).forM resolveMethod).run t)
      ((), { t with
        methods := t.methods.map fun m => { m with returnType := t.resolvedReturnType m } })
      (t.methods.filterMap t.returnTypeIssue?) := by
  rw [List.filterMap_eq_flatMap_toList, ← mapIdx_const, ← flatMap_range_getD t.methods default]
  refine Finds.forM_inPlace (fun ms => { t with methods := ms }) fun k m hm => ?_
  rw [getD_of_eq_some hm]
  exact finds_resolveMethod _ k ((getD_mapBelow default).trans (getD_of_eq_some hm default))

/-- **The types**, looked up in place. -/
theorem finds_resolveTypes (t : SymbolTable) :
    Finds (resolveTypes.run t) ((), t.resolveTypes) t.typeIssues :=
  Finds.run_after (Finds.pure _) ((finds_resolveVars t).run_bind (finds_resolveMethods
    { t with vars := t.vars.map fun v => { v with type := t.resolvedVarType v } }))

/-! ## Parents -/

/-- **Looking up parents** goes on from the classes found before, `earlier`, and lists each once. -/
theorem finds_lookupParents (t : SymbolTable) (c : ClassSymbol) (ps : List Ident)
    (earlier : List ClassId) (missing : Bool) :
    Finds (lookupParents t c ps earlier.eraseDups missing)
      ((earlier ++ ps.filterMap fun p => t.lookupClass p.text).eraseDups,
        missing || !(ps.filter fun p => (t.lookupClass p.text).isNone).isEmpty)
      ((ps.filter fun p => (t.lookupClass p.text).isNone).map
        fun p => .unknownParent c.name p.text p.span) := by
  induction ps generalizing earlier missing with
  | nil =>
    rw [List.filterMap_nil, List.append_nil, List.filter_nil, List.isEmpty_nil, Bool.not_true,
      Bool.or_false]
    exact Finds.pure _
  | cons p rest ih =>
    unfold lookupParents
    cases hp : t.lookupClass p.text with
    | some a =>
      have hnext : (if earlier.eraseDups.contains a then earlier.eraseDups
          else earlier.eraseDups ++ [a]) = (earlier ++ [a]).eraseDups := by
        rw [List.eraseDups_append, List.removeAll, List.filter_singleton]
        by_cases ha : a ∈ earlier
        · rw [if_pos (List.contains_iff_mem.mpr (List.mem_eraseDups.mpr ha)),
            List.elem_eq_true_of_mem ha]
          exact (List.append_nil _).symm
        · rw [if_neg (mt List.contains_iff_mem.mp (mt List.mem_eraseDups.mp ha)),
            Bool.eq_false_iff.mpr (mt List.mem_of_elem_eq_true ha)]
          rfl
      have hrest := ih (earlier ++ [a]) missing
      rw [List.append_assoc] at hrest
      dsimp only
      rw [hnext, List.filterMap_cons, List.filter_cons, hp]
      exact hrest
    | none =>
      rw [List.filterMap_cons, List.filter_cons, hp]
      refine (Finds.report _).bind ((ih earlier true).of_eq ?_ rfl)
      exact Prod.ext rfl (Bool.or_true missing).symm

/-- A class has its turn in a table whose classes are those of `t` as they were declared: it is put
back with its parents looked up. -/
theorem finds_resolveParentsOf {u : SymbolTable} (hu : u.declared = t.declared) (k : ClassId)
    {c : ClassSymbol} (hc : u.classAt k = c) :
    Finds ((resolveParentsOf k).run u)
      ((), { u with classes := u.classes.set k (t.parentedClass c) })
      ((t.missingParents c).map fun p => .unknownParent c.name p.text p.span) := by
  have hlookup := funext (SymbolTable.lookupClass_of_declared hu)
  unfold SymbolTable.parentedClass SymbolTable.knownParents SymbolTable.missingParents
  rw [← hlookup]
  refine Finds.run_after (Finds.pure _) ?_
  rw [hc]
  refine Finds.run_andThen ((finds_lookupParents u c c.parents [] false).run_lift u) ?_
  dsimp only
  rw [u.modifyClass_eq_set, hc]
  refine (Finds.pure _).of_eq ?_ rfl
  cases (c.parents.filter fun p => (u.lookupClass p.text).isNone).isEmpty with
  | true => rfl
  | false => rfl

/-- **The parents**, looked up in place. -/
theorem finds_resolveParents (t : SymbolTable) :
    Finds (resolveParents.run t) ((), t.resolveParents) t.parentIssues := by
  refine Finds.run_after (Finds.pure _) ?_
  have hparents : t.resolveParents = { t with classes := t.classes.map t.parentedClass } := rfl
  unfold SymbolTable.parentIssues
  rw [hparents, ← mapIdx_const, ← flatMap_range_getD t.classes default]
  refine Finds.forM_inPlace (fun cs => { t with classes := cs }) fun k c hc => ?_
  rw [getD_of_eq_some hc]
  refine finds_resolveParentsOf ?_ k ((getD_mapBelow default).trans (getD_of_eq_some hc default))
  exact congrArg (fun cs => ({ t.declared with classes := cs } : SymbolTable))
    (map_mapBelow fun _ _ => rfl)

/-! ## Broken classes -/

theorem finds_markCyclic (t : SymbolTable) (k : ClassId) {c : ClassSymbol} (hc : t.classAt k = c)
    (hk : k < t.classes.length) :
    Finds ((markCyclic k).run t)
      ((), { t with classes := t.classes.set k { c with state := .cyclic } })
      [.cyclic c.name c.span] := by
  have hmarked := SymbolTable.modifyClass_classAt_self hk fun s => { s with state := .cyclic }
  refine Finds.run_after (Finds.pure _) (Finds.run_after (Finds.pure _) ?_)
  dsimp only
  rw [hmarked, SymbolTable.modifyClass_eq_set, hc]
  exact (Finds.report _).run_lift _

/-- **The classes on a cycle**, marked in place. -/
theorem finds_markCycles (t : SymbolTable) (g : Ancestry) :
    Finds ((markCycles g).run t) ((), t.markCycles g) (t.cycleIssues g) := by
  refine Finds.run_after (Finds.pure _) ?_
  unfold SymbolTable.cycleIssues
  rw [Finds.forM_filter, ← flatMap_if_singleton]
  refine Finds.forM_inPlace (fun cs => { t with classes := cs }) fun k c hc => ?_
  have hk := (List.getElem?_eq_some_iff.mp hc).1
  have hclass : t.classAt k = c := getD_of_eq_some hc default
  rw [hclass]
  cases g.isCyclic k with
  | true =>
    exact finds_markCyclic _ k ((getD_mapBelow default).trans hclass) (length_mapBelow.symm ▸ hk)
  | false =>
    have hkeep := SymbolTable.set_classAt
      { t with
        classes := mapBelow (fun c s => if g.isCyclic c then { s with state := .cyclic } else s) k
          t.classes } k
    have hnext : SymbolTable.classAt
        { t with
          classes := mapBelow (fun c s => if g.isCyclic c then { s with state := .cyclic } else s)
            k t.classes } k = c :=
      (getD_mapBelow default).trans hclass
    rw [hnext] at hkeep
    exact (Finds.pure _).of_eq (Prod.ext rfl hkeep.symm) rfl

theorem finds_markIfTainted (g : Ancestry) (t : SymbolTable) (c : ClassId) :
    Finds ((markIfTainted g c).run t) ((), (SymbolTable.markIfTainted g (t, []) c).1)
      (SymbolTable.markIfTainted g (t, []) c).2 := by
  refine Finds.run_after (Finds.pure _) ?_
  unfold SymbolTable.markIfTainted
  cases t.isTainted g c with
  | true => exact Finds.run_after (Finds.pure _) ((Finds.report _).run_lift _)
  | false => exact Finds.pure _

/-- **The classes with a broken ancestor**, marked in place. -/
theorem finds_markUnresolved (t : SymbolTable) (g : Ancestry) :
    Finds ((markUnresolved g).run t) ((), (t.markUnresolved g).1) (t.markUnresolved g).2 := by
  have hturn : (fun (s : SymbolTable × List Issue) c =>
      ((SymbolTable.markIfTainted g (s.1, []) c).1,
        s.2 ++ (SymbolTable.markIfTainted g (s.1, []) c).2)) = SymbolTable.markIfTainted g := by
    funext s c
    rw [SymbolTable.markIfTainted_eq, SymbolTable.markIfTainted_eq s.1 g s.2]
    rfl
  have hloop := Finds.forM_foldl (finds_markIfTainted g) t.classIds t
  rw [hturn] at hloop
  exact Finds.run_after (Finds.pure _) hloop

/-! ## Members -/

theorem finds_flattenClass (g : Ancestry) (t : SymbolTable) (c : ClassId) :
    Finds ((flattenClass g c).run t) ((), t.flattenClass g c)
      (((t.membersOf g c).ambiguous.filter fun name => !t.inheritsAmbiguity c name).map
        (t.ambiguity g c)) := by
  have hreports : Finds (((t.membersOf g c).ambiguous.forM fun name =>
      if t.inheritsAmbiguity c name then (pure () : Resolving Unit)
      else Reporting.report (t.ambiguity g c name)).run t) ((), t)
      (((t.membersOf g c).ambiguous.filter fun name => !t.inheritsAmbiguity c name).map
        (t.ambiguity g c)) := by
    rw [← flatMap_if_singleton]
    refine Finds.forM_states _ (fun _ => t) fun _ name _ => ?_
    cases t.inheritsAmbiguity c name with
    | true => exact Finds.pure _
    | false => exact (Finds.report _).run_lift _
  exact Finds.run_after (Finds.pure _) (hreports.run_andThen (Finds.pure _))

/-- **The members**, filled in place once the classes are linearized. -/
theorem finds_flatten (h : t.Fresh) :
    Finds ((flatten t.ancestry).run t.tainted.linearize) ((), t.resolve.table)
      (t.resolve.table.ambiguities t.ancestry) := by
  have hbare := t.linearize_bare
  -- The order is known before any class has its members.
  have horder : t.tainted.linearize.resolutionOrder = t.resolve.table.resolutionOrder := by
    show ParentsFirst.order t.tainted.linearize.orderParents _
      = ParentsFirst.order t.resolve.table.orderParents _
    rw [SymbolTable.orderParents_of_bare hbare, SymbolTable.length_of_bare hbare]
  have hloop := Finds.forM_foldl (finds_flattenClass t.ancestry)
    t.resolve.table.resolutionOrder t.tainted.linearize
  have hfold := h.foldl_flattenTurn hbare
  refine Finds.run_after (Finds.pure _) ?_
  rw [horder]
  exact hloop.of_eq (congrArg (fun s => ((), s.1)) hfold) (congrArg Prod.snd hfold)

/-! ## All of it -/

end Resolving

open Resolving in
/-- **Resolving a table in place** gives the resolved table, and reports what is wrong with it. -/
theorem SymbolTable.Fresh.finds_resolving (h : t.Fresh) :
    Finds t.resolving t.resolve.table t.resolve.issues := by
  have hfound : (t.cycled.markUnresolved t.ancestry).2 = t.cycled.taintIssues t.ancestry :=
    congrArg Prod.snd t.cycled_markUnresolved
  have hsteps : Finds (steps.run t) ((), t.resolve.table) t.resolve.issues := by
    rw [t.resolve_issues, ← hfound]
    simp only [List.append_assoc]
    refine (finds_resolveTypes t).run_bind ((finds_resolveParents t.resolveTypes).run_bind ?_)
    refine Finds.run_after (Finds.pure _) ?_
    refine (finds_markCycles t.parented t.ancestry).run_bind ?_
    refine (finds_markUnresolved t.cycled t.ancestry).run_bind ?_
    exact Finds.run_after (Finds.pure _) (finds_flatten h)
  exact hsteps.andThen (Finds.pure _)

end Heritage
