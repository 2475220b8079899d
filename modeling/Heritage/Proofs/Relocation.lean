import Heritage.Proofs.Collection
import Heritage.Proofs.Renaming

/-!
# Collecting a class anywhere

The symbols of a class are the same whatever classes were collected before it,
up to their positions: a class that is collected behind a table is the class
collected on its own, attached to the table with its positions moved behind
those of the table. Nothing that is collected for a class looks at the symbols
of another.
-/

namespace Heritage

open SymbolTable

/-! ## Tables that mention no positions but their own -/

namespace SymbolTable

/-- **A table whose symbols mention positions of the table only.** -/
structure Closed (t : SymbolTable) : Prop where
  /-- There is a scope for the program. -/
  scopes_pos : rootScope < t.scopes.length
  /-- Classes have scopes. -/
  cls : ∀ k ∈ t.classes, k.scope < t.scopes.length
  /-- Methods have owners, scopes and results. -/
  method : ∀ m ∈ t.methods, m.owner < t.classes.length ∧ m.scope < t.scopes.length
    ∧ ∀ c, m.returnType = some (.cls c) → c < t.classes.length
  /-- Variables have scopes and types. -/
  var : ∀ v ∈ t.vars, v.scope < t.scopes.length
    ∧ ∀ c, v.type = some (.cls c) → c < t.classes.length
  /-- Scopes stand in scopes and in classes. -/
  scope : ∀ k ∈ t.scopes, (∀ s, k.parent = some s → s < t.scopes.length)
    ∧ ∀ c, k.cls = some c → c < t.classes.length

/-- The empty table mentions nothing. -/
theorem closed_empty : Closed empty where
  scopes_pos := Nat.zero_lt_one
  cls := List.forall_mem_nil _
  method := List.forall_mem_nil _
  var := List.forall_mem_nil _
  scope := by
    intro k hk
    obtain rfl := List.mem_singleton.mp hk
    exact ⟨fun _ h => (nomatch h), fun _ h => (nomatch h)⟩

variable {A : ScopeId → Prop} {t t' : SymbolTable}

/-- A larger table is closed if what was added is. -/
theorem Closed.extend (h : Closed t) (cs : List ClassSymbol) (ms : List MethodSymbol)
    (vs : List VarSymbol) (ks : List Scope) (hclasses : t'.classes = t.classes ++ cs)
    (hmethods : t'.methods = t.methods ++ ms) (hvars : t'.vars = t.vars ++ vs)
    (hscopes : t'.scopes = t.scopes ++ ks)
    (hcs : ∀ k ∈ cs, k.scope < t'.scopes.length)
    (hms : ∀ m ∈ ms, m.owner < t'.classes.length ∧ m.scope < t'.scopes.length
      ∧ ∀ c, m.returnType = some (.cls c) → c < t'.classes.length)
    (hvs : ∀ v ∈ vs, v.scope < t'.scopes.length
      ∧ ∀ c, v.type = some (.cls c) → c < t'.classes.length)
    (hks : ∀ k ∈ ks, (∀ s, k.parent = some s → s < t'.scopes.length)
      ∧ ∀ c, k.cls = some c → c < t'.classes.length) : Closed t' := by
  have hc : t.classes.length ≤ t'.classes.length := by
    rw [hclasses, List.length_append]
    exact Nat.le_add_right _ _
  have hs : t.scopes.length ≤ t'.scopes.length := by
    rw [hscopes, List.length_append]
    exact Nat.le_add_right _ _
  refine ⟨Nat.lt_of_lt_of_le h.scopes_pos hs, ?_, ?_, ?_, ?_⟩
  · rw [hclasses]
    exact List.forall_mem_append.mpr ⟨fun k hk => Nat.lt_of_lt_of_le (h.cls k hk) hs, hcs⟩
  · rw [hmethods]
    refine List.forall_mem_append.mpr ⟨fun m hm => ?_, hms⟩
    obtain ⟨howner, hscope, htype⟩ := h.method m hm
    exact ⟨Nat.lt_of_lt_of_le howner hc, Nat.lt_of_lt_of_le hscope hs,
      fun c hm => Nat.lt_of_lt_of_le (htype c hm) hc⟩
  · rw [hvars]
    refine List.forall_mem_append.mpr ⟨fun v hv => ?_, hvs⟩
    obtain ⟨hscope, htype⟩ := h.var v hv
    exact ⟨Nat.lt_of_lt_of_le hscope hs, fun c hv => Nat.lt_of_lt_of_le (htype c hv) hc⟩
  · rw [hscopes] at hks ⊢
    refine List.forall_mem_append.mpr ⟨fun k hk => ?_, hks⟩
    obtain ⟨hparent, hcls⟩ := h.scope k hk
    exact ⟨fun s hk => hscopes ▸ Nat.lt_of_lt_of_le (hparent s hk) hs,
      fun c hk => Nat.lt_of_lt_of_le (hcls c hk) hc⟩

/-- A step keeps a table closed. -/
theorem Closed.step (h : Closed t) (hst : Step A t t') : Closed t' := by
  cases hst with
  | cls name parents declIndex span free attached =>
    refine h.extend [_] [] [] [_] rfl (List.append_nil _).symm (List.append_nil _).symm rfl ?_
      (List.forall_mem_nil _) (List.forall_mem_nil _) ?_
    · refine List.forall_mem_singleton.mpr ?_
      show t.scopes.length < (t.scopes ++ [_]).length
      rw [List.length_append]
      exact Nat.lt_succ_self _
    · refine List.forall_mem_singleton.mpr ⟨fun s hs => ?_, fun c hc => ?_⟩
      · obtain rfl := Option.some.inj hs
        show rootScope < (t.scopes ++ [_]).length
        rw [List.length_append]
        exact Nat.lt_succ_of_lt h.scopes_pos
      · obtain rfl := Option.some.inj hc
        show t.classes.length < (t.classes ++ [_]).length
        rw [List.length_append]
        exact Nat.lt_succ_self _
  | method owner name returnType declIndex span owned freeField freeMethod attached =>
    have hcls : (t.classAt owner).scope < t.scopes.length :=
      h.cls _ (List.mem_of_getElem? (getElem?_eq_getD owned default))
    refine h.extend [] [_] [] [_] (List.append_nil _).symm rfl (List.append_nil _).symm rfl
      (List.forall_mem_nil _) ?_ (List.forall_mem_nil _) ?_
    · refine List.forall_mem_singleton.mpr ⟨owned, ?_, fun c hc => ?_⟩
      · show t.scopes.length < (t.scopes ++ [_]).length
        rw [List.length_append]
        exact Nat.lt_succ_self _
      · dsimp only at hc
        split at hc
        · cases hc
        · cases hc
    · refine List.forall_mem_singleton.mpr ⟨fun s hs => ?_, fun c hc => ?_⟩
      · obtain rfl := Option.some.inj hs
        show (t.classAt owner).scope < (t.scopes ++ [_]).length
        rw [List.length_append]
        exact Nat.lt_succ_of_lt hcls
      · obtain rfl := Option.some.inj hc
        exact owned
  | var v inside fits free attached typed =>
    exact h.extend [] [] [v] [] (List.append_nil _).symm (List.append_nil _).symm rfl
      (List.append_nil _).symm (List.forall_mem_nil _) (List.forall_mem_nil _)
      (List.forall_mem_singleton.mpr ⟨inside, typed⟩) (List.forall_mem_nil _)
  | block s inside fits attached =>
    have hscope := h.scope _ (List.mem_of_getElem? (getElem?_eq_getD inside default))
    refine h.extend [] [] [] [_] (List.append_nil _).symm (List.append_nil _).symm
      (List.append_nil _).symm rfl (List.forall_mem_nil _) (List.forall_mem_nil _)
      (List.forall_mem_nil _) (List.forall_mem_singleton.mpr ⟨fun s' hs => ?_, hscope.2⟩)
    obtain rfl := Option.some.inj hs
    rw [openBlock_scopes_length]
    exact Nat.lt_succ_of_lt inside

theorem Closed.grows (h : Closed t) (hg : Grows A t t') : Closed t' :=
  hg.keeps Closed (fun _ _ ih hst => ih.step hst) h

/-- **The symbols of a program mention positions of its table only.** -/
theorem collect_closed (p : Program) : Closed (collect p).table :=
  closed_empty.grows (each_class_grows p.classes.zipIdx formed_empty)

end SymbolTable

/-! ## Attaching a table behind another -/

/-- A position behind `n` others, of which the first is shared. -/
def shiftBehind (n s : Nat) : Nat :=
  if s = 0 then 0 else n - 1 + s

/-- No two scopes are moved to one place. -/
theorem shiftBehind_injective (n : Nat) : Function.Injective (shiftBehind n) := by
  intro a b h
  unfold shiftBehind at h
  split_ifs at h <;> omega

theorem shiftBehind_of_ne {n s : Nat} (hs : s ≠ 0) : shiftBehind n s = n - 1 + s :=
  if_neg hs

theorem le_shiftBehind {n s : Nat} (hn : 0 < n) (hs : s ≠ 0) : n ≤ shiftBehind n s := by
  rw [shiftBehind_of_ne hs]
  omega

theorem shiftBehind_lt_add {n k s : Nat} (hn : 0 < n) (hs : s < k + 1) :
    shiftBehind n s < n + k := by
  unfold shiftBehind
  split_ifs <;> omega

theorem shiftBehind_lt {k s : Nat} (n : Nat) (hs : s < k) :
    shiftBehind n s < shiftBehind n k := by
  unfold shiftBehind
  split_ifs <;> omega

/-- Searching behind a list in which nothing passes. -/
theorem findIdx?_behind {α β : Type} {f : α → β} {p : α → Bool} {q : β → Bool} {xs : List β}
    {ys : List α} (hxs : ∀ b ∈ xs, q b = false) (hys : ∀ a ∈ ys, q (f a) = p a) :
    (xs ++ ys.map f).findIdx? q = (ys.findIdx? p).map (xs.length + ·) := by
  have hmap : positions q (ys.map f) = positions p ys :=
    (positions_map q f ys).trans (positions_congr hys)
  rw [findIdx?_eq_head?, findIdx?_eq_head?, positions_append, positions_eq_nil hxs, hmap,
    List.nil_append, List.head?_map]

/-- **A search by a place and a name** behind a list in which nothing has the place, which is
another one there. -/
theorem findIdx?_pair_behind {α β : Type} {f : α → β} {place : α → Nat} {place' : β → Nat}
    {text : α → String} {text' : β → String} {move : Nat → Nat} {k : Nat} {name : String}
    {xs : List β} {ys : List α} (hmove : move.Injective) (hxs : ∀ b ∈ xs, place' b < move k)
    (hplace : ∀ a, place' (f a) = move (place a)) (htext : ∀ a, text' (f a) = text a) :
    (xs ++ ys.map f).findIdx? (fun b => place' b == move k && text' b == name)
      = (ys.findIdx? fun a => place a == k && text a == name).map (xs.length + ·) := by
  refine findIdx?_behind (fun b hb => ?_) fun a _ => ?_
  · rw [beq_eq_false_iff_ne.mpr (Nat.ne_of_lt (hxs b hb)), Bool.false_and]
  · rw [hplace, htext, hmove.beq_eq]

theorem getD_behind {α β : Type} {f : α → β} (xs : List β) {ys : List α} {i : Nat}
    (hi : i < ys.length) (a : α) (b : β) :
    (xs ++ ys.map f).getD (xs.length + i) b = f (ys.getD i a) := by
  refine getD_of_eq_some ?_ _
  rw [List.getElem?_append_right (Nat.le_add_right _ _), Nat.add_sub_cancel_left,
    List.getElem?_map, getElem?_eq_getD hi a]
  rfl

/-- The positions behind a table. The scope of the program is shared. -/
def Renaming.behind (t : SymbolTable) : Renaming where
  cls c := t.classes.length + c
  method m := t.methods.length + m
  var v := t.vars.length + v
  scope := shiftBehind t.scopes.length
  cls_injective _ _ h := Nat.add_left_cancel h
  method_injective _ _ h := Nat.add_left_cancel h
  var_injective _ _ h := Nat.add_left_cancel h
  scope_injective := shiftBehind_injective t.scopes.length
  scope_root := rfl

/-- A class as it was declared, at a place in the program. -/
def Renaming.classSymbol (σ : Renaming) (index : Nat) (k : ClassSymbol) : ClassSymbol where
  name := k.name
  parents := k.parents
  scope := σ.scope k.scope
  declIndex := index
  span := k.span

/-- **A table with another one attached behind it**, whose classes stand at the
given place in the program. -/
def SymbolTable.attach (t : SymbolTable) (index : Nat) (u : SymbolTable) : SymbolTable where
  classes := t.classes ++ u.classes.map ((Renaming.behind t).classSymbol index)
  methods := t.methods ++ u.methods.map (Renaming.behind t).methodSymbol
  vars := t.vars ++ u.vars.map (Renaming.behind t).varSymbol
  scopes := t.scopes ++ u.scopes.tail.map (Renaming.behind t).scopeRecord

namespace SymbolTable

variable {t u : SymbolTable} {index : Nat}

section Attached

variable (ht : Closed t)
include ht

theorem attach_scopes_length (hu : rootScope < u.scopes.length) :
    (t.attach index u).scopes.length = (Renaming.behind t).scope u.scopes.length := by
  have hpos : 0 < t.scopes.length := ht.scopes_pos
  have hu' : 0 < u.scopes.length := hu
  show (t.scopes ++ u.scopes.tail.map _).length = shiftBehind _ _
  rw [shiftBehind_of_ne (Nat.ne_of_gt hu'), List.length_append, List.length_map, List.length_tail]
  omega

/-- **A name is looked up behind a table as on its own**, but in the scope of the program, which the
table shares. -/
theorem attach_lookupIn {s : ScopeId} (hs : s ≠ rootScope) (name : String) :
    (t.attach index u).lookupIn ((Renaming.behind t).scope s) name
      = (u.lookupIn s name).map (Renaming.behind t).var := by
  refine findIdx?_pair_behind (Renaming.behind t).scope_injective (fun v hv => ?_) (fun _ => rfl)
    fun _ => rfl
  exact Nat.lt_of_lt_of_le (ht.var v hv).1 (le_shiftBehind ht.scopes_pos hs)

/-- A method is looked up behind a table as on its own: no method there has the class for its owner.
-/
theorem attach_declaredMethod (c : ClassId) (name : String) :
    (t.attach index u).declaredMethod ((Renaming.behind t).cls c) name
      = (u.declaredMethod c name).map (Renaming.behind t).method := by
  refine findIdx?_pair_behind (Renaming.behind t).cls_injective (fun m hm => ?_) (fun _ => rfl)
    fun _ => rfl
  exact Nat.lt_of_lt_of_le (ht.method m hm).1 (Nat.le_add_right _ c)

omit ht in
theorem attach_varAt {v : VarId} (hv : v < u.vars.length) :
    (t.attach index u).varAt ((Renaming.behind t).var v)
      = (Renaming.behind t).varSymbol (u.varAt v) :=
  getD_behind t.vars hv _ _

omit ht in
theorem attach_methodAt {m : MethodId} (hm : m < u.methods.length) :
    (t.attach index u).methodAt ((Renaming.behind t).method m)
      = (Renaming.behind t).methodSymbol (u.methodAt m) :=
  getD_behind t.methods hm _ _

omit ht in
/-- A class is found behind the table, with its place in the program. -/
theorem attach_classAt {c : ClassId} (hc : c < u.classes.length) :
    (t.attach index u).classAt ((Renaming.behind t).cls c)
      = (Renaming.behind t).classSymbol index (u.classAt c) :=
  getD_behind t.classes hc _ _

theorem attach_scopeAt {s : ScopeId} (hs : s ≠ rootScope) (hlt : s < u.scopes.length) :
    (t.attach index u).scopeAt ((Renaming.behind t).scope s)
      = (Renaming.behind t).scopeRecord (u.scopeAt s) := by
  obtain ⟨k, rfl⟩ := Nat.exists_eq_succ_of_ne_zero hs
  have hpos : 0 < t.scopes.length := ht.scopes_pos
  have hk : k < u.scopes.tail.length := by
    rw [List.length_tail]
    exact Nat.lt_sub_of_add_lt hlt
  have hindex : (Renaming.behind t).scope (k + 1) = t.scopes.length + k := by
    refine (shiftBehind_of_ne (Nat.succ_ne_zero k)).trans ?_
    omega
  have hat : u.scopes.tail.getD k default = u.scopeAt (k + 1) := by
    unfold scopeAt
    cases u.scopes with
    | nil => rfl
    | cons root rest => rfl
  rw [hindex, ← hat]
  exact getD_behind t.scopes hk _ _

/-! ## Adding to an attached table -/

omit ht in
/-- A variable that is added is added behind. -/
theorem attach_addVar (v : VarSymbol) :
    (t.attach index u).addVar ((Renaming.behind t).varSymbol v) = t.attach index (u.addVar v) := by
  unfold addVar attach
  rw [List.map_append, List.append_assoc]
  rfl

omit ht in
theorem attach_addScope (hu : rootScope < u.scopes.length) (k : Scope) :
    (t.attach index u).addScope ((Renaming.behind t).scopeRecord k)
      = t.attach index (u.addScope k) := by
  unfold addScope attach
  rw [List.tail_append_of_ne_nil (List.ne_nil_of_length_pos hu), List.map_append,
    List.append_assoc]
  rfl

/-- A block that is opened is opened behind. -/
theorem attach_openBlock {s : ScopeId} (hs : s ≠ rootScope) (hlt : s < u.scopes.length) :
    (t.attach index u).openBlock ((Renaming.behind t).scope s)
      = Prod.map (Renaming.behind t).scope (t.attach index) (u.openBlock s) := by
  have hu : rootScope < u.scopes.length := Nat.zero_lt_of_lt hlt
  unfold openBlock
  rw [attach_scopes_length ht hu, attach_scopeAt ht hs hlt]
  exact congrArg (Prod.mk _) (attach_addScope hu
    { kind := .block, parent := some s, cls := (u.scopeAt s).cls })

omit ht in
theorem attach_concat_method (m : MethodSymbol) :
    { t.attach index u with
      methods := (t.attach index u).methods ++ [(Renaming.behind t).methodSymbol m] }
      = t.attach index { u with methods := u.methods ++ [m] } := by
  unfold attach
  dsimp only
  rw [List.map_append, List.append_assoc]
  rfl

theorem attach_addMethod {c : ClassId} (hc : c < u.classes.length)
    (hu : rootScope < u.scopes.length) (name : String) (returnType : Option Ident)
    (declIndex : Nat) (span : Span) :
    (t.attach index u).addMethod ((Renaming.behind t).cls c) name returnType declIndex span
      = t.attach index (u.addMethod c name returnType declIndex span) := by
  have hadd : ∀ m : MethodSymbol, ∀ k : Scope,
      addScope { t.attach index u with
        methods := (t.attach index u).methods ++ [(Renaming.behind t).methodSymbol m] }
        ((Renaming.behind t).scopeRecord k)
      = t.attach index (addScope { u with methods := u.methods ++ [m] } k) := by
    intro m k
    rw [attach_concat_method]
    exact attach_addScope (u := { u with methods := u.methods ++ [m] }) hu k
  refine Eq.trans ?_ (hadd
    { owner := c, name := name, returnTypeName := returnType,
      returnType := if returnType.isSome then none else some .void, scope := u.scopes.length,
      declIndex := declIndex, span := span } (methodScopeRecord (u.classAt c).scope c))
  unfold addMethod
  rw [attach_scopes_length ht hu, attach_classAt hc]
  cases returnType <;> rfl

/-! ## Declaring behind a table -/

/-- **A variable is declared behind a table as on its own**, or refused because of the same one. -/
theorem attach_declareVar {v : VarSymbol} (hs : v.scope ≠ rootScope) :
    (t.attach index u).declareVar ((Renaming.behind t).varSymbol v)
      = (u.declareVar v).map (Prod.map (Renaming.behind t).var (t.attach index)) := by
  have hlookup : (t.attach index u).lookupIn ((Renaming.behind t).varSymbol v).scope
      ((Renaming.behind t).varSymbol v).name = (u.lookupIn v.scope v.name).map _ :=
    attach_lookupIn ht hs v.name
  unfold declareVar
  rw [hlookup]
  cases hw : u.lookupIn v.scope v.name with
  | none =>
    refine congrArg Except.ok (Prod.ext ?_ (attach_addVar v))
    show (t.vars ++ u.vars.map _).length = t.vars.length + u.vars.length
    rw [List.length_append, List.length_map]
  | some w =>
    refine congrArg Except.error ?_
    rw [attach_varAt (List.findIdx?_eq_some_iff_getElem.mp hw).1]
    rfl

theorem attach_memberSpan? (hu : Formed u) {c : ClassId} (hc : c < u.classes.length)
    (name : String) :
    (t.attach index u).memberSpan? ((Renaming.behind t).cls c) name = u.memberSpan? c name := by
  have hfield : (t.attach index u).declaredField ((Renaming.behind t).cls c) name
      = (u.declaredField c name).map (Renaming.behind t).var := by
    unfold declaredField
    rw [attach_classAt hc]
    exact attach_lookupIn ht (hu.classAt_scope_ne hc) name
  unfold memberSpan?
  rw [hfield, attach_declaredMethod ht]
  cases hv : u.declaredField c name with
  | none =>
    cases hm : u.declaredMethod c name with
    | none => rfl
    | some m =>
      exact congrArg (some ·.span) (attach_methodAt (List.findIdx?_eq_some_iff_getElem.mp hm).1)
  | some v =>
    exact congrArg (some ·.span) (attach_varAt (List.findIdx?_eq_some_iff_getElem.mp hv).1)

/-- **A method is declared behind a table as on its own**, or refused because of the same member. -/
theorem attach_declareMethod (hu : Formed u) {c : ClassId} (hc : c < u.classes.length)
    (name : String) (returnType : Option Ident) (declIndex : Nat) (span : Span) :
    (t.attach index u).declareMethod ((Renaming.behind t).cls c) name returnType declIndex span
      = (u.declareMethod c name returnType declIndex span).map
          (Prod.map (Renaming.behind t).method (t.attach index)) := by
  unfold declareMethod
  rw [attach_memberSpan? ht hu hc]
  cases u.memberSpan? c name with
  | none =>
    refine congrArg Except.ok
      (Prod.ext ?_ (attach_addMethod ht hc hu.scopes_pos name returnType declIndex span))
    show (t.methods ++ u.methods.map _).length = t.methods.length + u.methods.length
    rw [List.length_append, List.length_map]
  | some first => rfl

/-- A field is declared behind a table as on its own, or refused because of the same member. -/
theorem attach_declareField (hu : Formed u) {c : ClassId} (hc : c < u.classes.length)
    (name : String) (type : Ident) (span : Span) :
    (t.attach index u).declareField ((Renaming.behind t).cls c) name type span
      = (u.declareField c name type span).map
          (Prod.map (Renaming.behind t).var (t.attach index)) := by
  unfold declareField
  rw [attach_memberSpan? ht hu hc, attach_classAt hc]
  cases u.memberSpan? c name with
  | none =>
    exact attach_declareVar ht (v := fieldSymbol (u.classAt c).scope name type span)
      (hu.classAt_scope_ne hc)
  | some first => rfl

theorem attach_declareReceiver {m : MethodId} (hu : HasMethod u m) (name : String) (span : Span) :
    (t.attach index u).declareReceiver ((Renaming.behind t).method m) name span
      = (u.declareReceiver m name span).map
          (Prod.map (Renaming.behind t).var (t.attach index)) := by
  unfold declareReceiver
  rw [attach_methodAt hu.2]
  exact attach_declareVar ht
    (v := receiverSymbol (u.methodAt m).scope name (u.methodAt m).owner span)
    (hu.1.methodAt_scope_ne hu.2)

theorem attach_declareParam {m : MethodId} (hu : HasMethod u m) (name : String) (type : Ident)
    (span : Span) :
    (t.attach index u).declareParam ((Renaming.behind t).method m) name type span
      = (u.declareParam m name type span).map
          (Prod.map (Renaming.behind t).var (t.attach index)) := by
  unfold declareParam
  rw [attach_methodAt hu.2]
  exact attach_declareVar ht (v := paramSymbol (u.methodAt m).scope name type span)
    (hu.1.methodAt_scope_ne hu.2)

end Attached

end SymbolTable

/-! ## Collecting behind a table -/

namespace Collected

/-- What was collected, attached to a table. -/
def behind (t : SymbolTable) (index : Nat) (c : Collected) : Collected where
  table := t.attach index c.table
  issues := c.issues

variable {t u : SymbolTable} {index : Nat}

theorem ofDeclare_behind {α : Type} (f : α → α) (r : Except Issue (α × SymbolTable)) :
    ofDeclare (t.attach index u) (r.map (Prod.map f (t.attach index)))
      = (ofDeclare u r).behind t index := by
  cases r <;> rfl

theorem andThen_behind {c : Collected} {f g : SymbolTable → Collected}
    (h : g (t.attach index c.table) = (f c.table).behind t index) :
    (c.behind t index).andThen g = (c.andThen f).behind t index := by
  unfold andThen
  dsimp only
  rw [show (c.behind t index).table = t.attach index c.table from rfl, h]
  rfl

/-- What every element does behind a table, the whole list does. -/
theorem each_behind {α : Type} {f g : α → SymbolTable → Collected} {A : ScopeId → Prop}
    {I : SymbolTable → Prop} (stable : ∀ u u', I u → Grows A u u' → I u') {xs : List α}
    (grows : ∀ a ∈ xs, ∀ u, I u → Grows A u (f a u).table)
    (one : ∀ a ∈ xs, ∀ u, I u → g a (t.attach index u) = (f a u).behind t index) (h : I u) :
    each g xs (t.attach index u) = (each f xs u).behind t index := by
  induction xs generalizing u with
  | nil => rfl
  | cons a rest ih =>
    have first := stable u _ h (grows a List.mem_cons_self u h)
    show (g a (t.attach index u)).andThen (each g rest) = _
    rw [one a List.mem_cons_self u h]
    exact andThen_behind (ih (fun b hb => grows b (List.mem_cons_of_mem a hb))
      (fun b hb => one b (List.mem_cons_of_mem a hb)) first)

end Collected

namespace SymbolTable

variable {t : SymbolTable} {index : Nat}

mutual
/-- **A statement is collected behind a table as on its own.** A block is opened behind the table
too, so what is inside it is collected there. -/
theorem collectStmt_behind (ht : Closed t) (s : ScopeId) (hs : s ≠ rootScope) : (stmt : Stmt) →
    (u : SymbolTable) → BodyScope u s →
    collectStmt ((Renaming.behind t).scope s) stmt (t.attach index u)
      = (collectStmt s stmt u).behind t index
  | .declare type vars _, u, h => by
    unfold collectStmt
    refine Collected.each_behind (fun _ _ => BodyScope.grows) (A := (· = s)) (fun v _ u hu => ?_)
      (fun v _ u hu => ?_) h
    · exact declareVar_grows (localSymbol s v.name.text type v.name.span) hu.1 hu.2
        fun _ htype => nomatch htype
    · rw [← Collected.ofDeclare_behind (Renaming.behind t).var]
      exact congrArg _ (attach_declareVar ht (v := localSymbol s v.name.text type v.name.span) hs)
  | .ifThen _ body _ _, u, h => by
    unfold collectStmt
    rw [attach_openBlock ht hs h.1]
    exact collectStmts_behind ht _ (Nat.ne_of_gt (Nat.zero_lt_of_lt h.1)) body _
      (bodyScope_openBlock u s)
  | .ifElse _ body _ other _ _, u, h => by
    unfold collectStmt
    rw [attach_openBlock ht hs h.1]
    have first := openBlock_trans h (collectStmts_grows _ body _ (bodyScope_openBlock u s))
    have hinner := collectStmts_behind ht _ (Nat.ne_of_gt (Nat.zero_lt_of_lt h.1)) body _
      (bodyScope_openBlock u s)
    have h' := h.grows first
    refine (congrArg (Collected.andThen · _) hinner).trans (Collected.andThen_behind ?_)
    dsimp only
    rw [attach_openBlock ht hs h'.1]
    exact collectStmts_behind ht _ (Nat.ne_of_gt (Nat.zero_lt_of_lt h'.1)) other _
      (bodyScope_openBlock _ s)
  | .loop _ body _ _, u, h => by
    unfold collectStmt
    rw [attach_openBlock ht hs h.1]
    exact collectStmts_behind ht _ (Nat.ne_of_gt (Nat.zero_lt_of_lt h.1)) body _
      (bodyScope_openBlock u s)
  | .ret _ _, u, _ => by
    unfold collectStmt
    rfl
  | .assign _ _ _, u, _ => by
    unfold collectStmt
    rfl
  | .eval _ _, u, _ => by
    unfold collectStmt
    rfl
theorem collectStmts_behind (ht : Closed t) (s : ScopeId) (hs : s ≠ rootScope) :
    (body : List Stmt) → (u : SymbolTable) → BodyScope u s →
    collectStmts ((Renaming.behind t).scope s) body (t.attach index u)
      = (collectStmts s body u).behind t index
  | [], u, _ => by
    unfold collectStmts
    rfl
  | stmt :: rest, u, h => by
    have first := collectStmt_grows s stmt u h
    unfold collectStmts
    rw [collectStmt_behind ht s hs stmt u h]
    exact Collected.andThen_behind (collectStmts_behind ht s hs rest _ (h.grows first))
end

variable (ht : Closed t)
include ht

theorem collectParam_behind {u : SymbolTable} {m : MethodId} (hu : HasMethod u m)
    (methodName : String) (p : Param) :
    collectParam ((Renaming.behind t).method m) methodName p (t.attach index u)
      = (collectParam m methodName p u).behind t index := by
  unfold collectParam
  cases p.type with
  | none => rfl
  | some type =>
    refine Eq.trans ?_ (Collected.ofDeclare_behind (Renaming.behind t).var _)
    exact congrArg (Collected.ofDeclare _) (attach_declareParam ht hu p.name.text type p.span)

/-- What is inside a method is collected in its scope, wherever that is. -/
theorem collectMethodBody_behind {u : SymbolTable} {m : MethodId} (hu : HasMethod u m)
    (receiver : Param) (params : List Param) (decl : MethodDecl) :
    collectMethodBody ((Renaming.behind t).method m) receiver params decl (t.attach index u)
      = (collectMethodBody m receiver params decl u).behind t index := by
  have first := declareReceiver_grows hu receiver.name.text receiver.span
  have hbody := hu.grows (withParams_grows hu receiver params decl)
  unfold collectMethodBody
  rw [attach_declareReceiver ht hu, Collected.ofDeclare_behind]
  refine Collected.andThen_behind ?_
  refine (congrArg (Collected.andThen · _) (Collected.each_behind (I := (HasMethod · m))
    (fun _ _ => HasMethod.grows) (A := fun _ => True)
    (fun p _ v hv => (collectParam_grows hv decl.name.text p).mono fun _ _ => Or.inl trivial)
    (fun p _ v hv => collectParam_behind ht hv decl.name.text p) (hu.grows first))).trans ?_
  refine Collected.andThen_behind ?_
  show collectStmts ((t.attach index (withParams m receiver params decl u)).methodAt _).scope _
    (t.attach index (withParams m receiver params decl u)) = _
  rw [attach_methodAt hbody.2]
  exact collectStmts_behind ht _ (hbody.1.methodAt_scope_ne hbody.2) decl.body _ hbody.bodyScope

/-- A method is collected behind a table as on its own. One that is refused is collected in a table
of its own in both cases. -/
theorem collectMethod_behind {u : SymbolTable} {c : ClassId} (hu : HasClass u c) (position : Nat)
    (decl : MethodDecl) :
    collectMethod ((Renaming.behind t).cls c) position decl (t.attach index u)
      = (collectMethod c position decl u).behind t index := by
  unfold collectMethod
  cases decl.params with
  | nil => rfl
  | cons receiver params =>
    dsimp only
    split
    · rfl
    · rw [attach_declareMethod ht hu.1 hu.2]
      cases hok : u.declareMethod c decl.name.text decl.returnType position decl.name.span with
      | ok r =>
        obtain ⟨m, u'⟩ := r
        obtain ⟨hfree, rfl, rfl⟩ := declareMethod_eq_ok hok
        exact collectMethodBody_behind ht
          (hasMethod_addMethod hu decl.returnType position decl.name.span hfree) receiver params
          decl
      | error i =>
        show Collected.mk _ (i :: detachedMethodIssues _ _ _ _ _) = _
        rw [attach_classAt hu.2]
        rfl

/-- **The members of a class are collected behind a table as on their own.** -/
theorem collectMembers_behind {u : SymbolTable} {c : ClassId} (hu : HasClass u c)
    (decl : ClassDecl) :
    collectMembers ((Renaming.behind t).cls c) decl (t.attach index u)
      = (collectMembers c decl u).behind t index := by
  refine Collected.each_behind (I := (HasClass · c)) (fun _ _ => HasClass.grows)
    (A := fun _ => True) (fun m _ v hv => ?_) (fun m _ v hv => ?_) hu
  · exact (collectMember_grows hv m).mono fun _ _ => Or.inl trivial
  · obtain ⟨member, position⟩ := m
    cases member with
    | method decl => exact collectMethod_behind ht hv position decl
    | field decl =>
      refine Collected.each_behind (I := (HasClass · c)) (fun _ _ => HasClass.grows)
        (A := fun _ => True) (fun name _ w hw => ?_) (fun name _ w hw => ?_) hv
      · exact (declareField_grows hw.1 hw.2 name.text decl.type name.span).mono
          fun _ _ => Or.inl trivial
      · rw [← Collected.ofDeclare_behind (Renaming.behind t).var]
        exact congrArg _ (attach_declareField ht hw.1 hw.2 name.text decl.type name.span)

end SymbolTable

end Heritage
