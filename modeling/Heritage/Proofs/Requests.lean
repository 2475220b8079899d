import Heritage.Proofs.Nesting
import Heritage.Proofs.Registry

/-!
# Any history of requests leaves a coherent registry

A registry is filled by requests: to declare a class, a member, a parameter or a
local, or to open a block. A request names classes, methods and scopes by the
positions that the registry handed out for them before. Its answer is a new
position, or an issue if the name is taken, and in either case the registry
afterwards.

`Coherent` says that what the registry keeps of a symbol in several places is the
same in all of them, and that the scopes are one tree in which each kind of scope
stands where it can. Whatever the requests were and in whatever order they came,
this holds after them: a registry always is that of a table (`submit_registry`),
and tables that grow by requests stay well-formed.
-/

namespace Heritage

open SymbolTable

/-! ## Requests -/

/-- **A request.** -/
inductive Request where
  /-- Declare a class. -/
  | cls (name : String) (parents : List Ident) (declIndex : Nat) (span : Span)
  /-- Declare a method of a class. -/
  | method (owner : ClassId) (name : String) (returnType : Option Ident) (declIndex : Nat)
      (span : Span)
  /-- Declare a field of a class. -/
  | field (owner : ClassId) (name : String) (type : Ident) (span : Span)
  /-- Declare the receiver of a method. -/
  | receiver (method : MethodId) (name : String) (span : Span)
  /-- Declare a parameter of a method. -/
  | param (method : MethodId) (name : String) (type : Ident) (span : Span)
  /-- Declare a local in a scope. -/
  | localVar (scope : ScopeId) (name : String) (type : Ident) (span : Span)
  /-- Open a block in a scope. -/
  | block (scope : ScopeId)

namespace Request

/-- What a table answers: the position of what is new, and the table that has it,
or why there is none. -/
def answer (t : SymbolTable) : Request → Except Issue (Nat × SymbolTable)
  | .cls name parents declIndex span => t.declareClass name parents declIndex span
  | .method owner name returnType declIndex span =>
    t.declareMethod owner name returnType declIndex span
  | .field owner name type span => t.declareField owner name type span
  | .receiver m name span => t.declareReceiver m name span
  | .param m name type span => t.declareParam m name type span
  | .localVar scope name type span => t.declareLocal scope name type span
  | .block scope => .ok (t.openBlock scope)

/-- What a registry answers: the position of what is new, or why there is none, and the registry
afterwards. -/
def submit (r : Registry) : Request → Except Issue Nat × Registry
  | .cls name parents declIndex span => r.declareClass name parents declIndex span
  | .method owner name returnType declIndex span =>
    r.declareMethod owner name returnType declIndex span
  | .field owner name type span => r.declareField owner name type span
  | .receiver m name span => r.declareReceiver m name span
  | .param m name type span => r.declareParam m name type span
  | .localVar scope name type span => r.declareLocal scope name type span
  | .block scope => (.ok (r.openBlock scope).1, (r.openBlock scope).2)

/-- A request whose positions were handed out by the table. Locals and blocks stand
in methods and in other blocks. -/
def Allowed (t : SymbolTable) : Request → Prop
  | .cls .. => True
  | .method owner .. => owner < t.classes.length
  | .field owner .. => owner < t.classes.length
  | .receiver m .. => m < t.methods.length
  | .param m .. => m < t.methods.length
  | .localVar scope .. => BodyScope t scope
  | .block scope => BodyScope t scope

instance (t : SymbolTable) : (q : Request) → Decidable (q.Allowed t)
  | .cls .. => inferInstanceAs (Decidable True)
  | .method owner .. => inferInstanceAs (Decidable (owner < t.classes.length))
  | .field owner .. => inferInstanceAs (Decidable (owner < t.classes.length))
  | .receiver m .. => inferInstanceAs (Decidable (m < t.methods.length))
  | .param m .. => inferInstanceAs (Decidable (m < t.methods.length))
  | .localVar .. => inferInstanceAs (Decidable (_ ∧ (_ ∨ _)))
  | .block _ => inferInstanceAs (Decidable (_ ∧ (_ ∨ _)))

/-- The name that a request asks for is free where it has to be. -/
def Free (r : Registry) : Request → Prop
  | .cls name .. => r.lookupClass name = none
  | .method owner name .. => r.declaredField owner name = none ∧ r.declaredMethod owner name = none
  | .field owner name .. => r.declaredField owner name = none ∧ r.declaredMethod owner name = none
  | .receiver m name _ => r.lookupIn (r.methodAt m).symbol.scope name = none
  | .param m name .. => r.lookupIn (r.methodAt m).symbol.scope name = none
  | .localVar scope name .. => r.lookupIn scope name = none
  | .block _ => True

/-- The position that is handed out next to a request of its kind. -/
def next (r : Registry) : Request → Nat
  | .cls .. => r.classes.length
  | .method .. => r.methods.length
  | .field .. => r.vars.length
  | .receiver .. => r.vars.length
  | .param .. => r.vars.length
  | .localVar .. => r.vars.length
  | .block _ => r.scopes.length

/-- What was asked for is at a position: it is listed last where it belongs, and
found by its name. -/
def Stored (r r' : Registry) (i : Nat) : Request → Prop
  | .cls name .. => r'.lookupClass name = some i ∧ r'.classes.length = r.classes.length + 1
  | .method owner name .. =>
    r'.declaredMethod owner name = some i
      ∧ (r'.classAt owner).methods = (r.classAt owner).methods ++ [i]
  | .field owner name .. =>
    r'.declaredField owner name = some i
      ∧ (r'.classAt owner).fields = (r.classAt owner).fields ++ [i]
  | .receiver m name _ =>
    r'.lookupIn (r.methodAt m).symbol.scope name = some i
      ∧ (r'.methodAt m).params = (r.methodAt m).params ++ [i]
  | .param m name .. =>
    r'.lookupIn (r.methodAt m).symbol.scope name = some i
      ∧ (r'.methodAt m).params = (r.methodAt m).params ++ [i]
  | .localVar scope name .. =>
    r'.lookupIn scope name = some i ∧ (r'.scopeAt scope).vars = (r.scopeAt scope).vars ++ [i]
  | .block scope => (r'.scopeAt scope).children = (r.scopeAt scope).children ++ [i]

end Request

namespace Registry

/-- The registry after a list of requests. -/
def submitAll (r : Registry) (requests : List Request) : Registry :=
  requests.foldl (fun r q => (q.submit r).2) r

/-- **A history of a registry**: each request is allowed when its turn comes. -/
def History (r : Registry) : List Request → Prop
  | [] => True
  | q :: rest => q.Allowed r.table ∧ History (q.submit r).2 rest

instance decidableHistory (r : Registry) : (requests : List Request) →
    Decidable (History r requests)
  | [] => inferInstanceAs (Decidable True)
  | q :: rest =>
    have := decidableHistory (q.submit r).2 rest
    inferInstanceAs (Decidable (_ ∧ _))

end Registry

namespace SymbolTable

/-- The table after a request. One that is refused changes nothing. -/
def serve (t : SymbolTable) (q : Request) : SymbolTable :=
  match q.answer t with
  | .ok (_, t') => t'
  | .error _ => t

/-- The table after a list of requests. -/
def serveAll (t : SymbolTable) (requests : List Request) : SymbolTable :=
  requests.foldl serve t

/-! ## Every addition keeps scopes in their places -/

/-- **What a scope is for**, which says where it stands: the program, a class, a
method, or a block in one of the last two. -/
inductive Serves (t : SymbolTable) : ScopeId → Scope → Prop where
  | program : Serves t rootScope { kind := .program, parent := none, cls := none }
  | cls {c : ClassId} (inside : c < t.classes.length) :
      Serves t (t.classAt c).scope
        { kind := .cls, parent := some rootScope, cls := some c }
  | method {m : MethodId} (inside : m < t.methods.length) :
      Serves t (t.methodAt m).scope
        { kind := .method, parent := some (t.classAt (t.methodAt m).owner).scope,
          cls := some (t.methodAt m).owner }
  | block {s around : ScopeId} (inside : BodyScope t around) :
      Serves t s { kind := .block, parent := some around, cls := (t.scopeAt around).cls }

variable {A : ScopeId → Prop} {t t' : SymbolTable}

/-- Every scope of a table is for something. -/
def Placed (t : SymbolTable) : Prop :=
  ∀ s k, t.scopes[s]? = some k → t.Serves s k

theorem placed_empty : Placed empty := by
  intro s k hk
  cases s with
  | zero =>
    obtain rfl := Option.some.inj hk
    exact .program
  | succ s => cases hk

/-- What a scope is for stays when the table grows. -/
theorem Serves.step {s : ScopeId} {k : Scope} (h : t.Serves s k) (hf : Formed t)
    (hst : Step A t t') : t'.Serves s k := by
  have hg : Grows A t t' := Grows.step hst
  cases h with
  | program => exact .program
  | @cls c inside =>
    rw [← hg.classAt_eq inside]
    exact .cls (Nat.lt_of_lt_of_le inside hg.classes_isPrefix.length_le)
  | @method m inside =>
    have howner := hf.methodAt_owner_lt inside
    rw [← hg.classAt_eq howner, ← hg.methodAt_eq inside]
    exact .method (Nat.lt_of_lt_of_le inside hg.methods_isPrefix.length_le)
  | @block s around inside =>
    rw [← hg.scopeAt_eq inside.1]
    exact .block (inside.grows hg)

/-- Behind the scopes that were there, a step adds one that is for what it adds. -/
theorem Placed.step (h : Placed t) (hf : Formed t) (hst : Step A t t') : Placed t' := by
  have hg : Grows A t t' := Grows.step hst
  -- Whatever is added, the only scope to look at is the new one.
  have hnew : ∀ k₀, t'.scopes = t.scopes ++ [k₀] → t'.Serves t.scopes.length k₀ → Placed t' := by
    intro k₀ hscopes hserves s k hk
    rw [hscopes] at hk
    rcases getElem?_concat_eq_some hk with hold | ⟨rfl, rfl⟩
    · exact (h s k hold).step hf hst
    · exact hserves
  cases hst with
  | cls name parents declIndex span free attached =>
    refine hnew _ rfl ?_
    have hcls := hasClass_addClass hf parents declIndex span free
    have hserves := Serves.cls hcls.2
    rwa [classAt_addClass] at hserves
  | method owner name returnType declIndex span owned freeField freeMethod attached =>
    refine hnew _ rfl ?_
    have hmethod := hasMethod_addMethod ⟨hf, owned⟩ returnType declIndex span
      (memberSpan?_eq_none_iff.mpr ⟨freeField, freeMethod⟩)
    have hserves := Serves.method hmethod.2
    rw [methodAt_addMethod] at hserves
    exact hserves
  | var v inside fits free attached typed =>
    intro s k hk
    exact (h s k hk).step hf (.var v inside fits free attached typed)
  | block s inside fits attached =>
    refine hnew _ rfl ?_
    rw [← hg.scopeAt_eq inside]
    exact .block (BodyScope.grows ⟨inside, fits⟩ hg)

/-- **What the requests keep**: a well-formed table with every scope in its
place. -/
theorem Placed.grows (h : Placed t) (hf : Formed t) (hg : Grows A t t') : Placed t' :=
  (hg.keeps (fun u => Formed u ∧ Placed u) (fun _ _ ih hst => ⟨ih.1.step hst, ih.2.step ih.1 hst⟩)
    ⟨hf, h⟩).2

/-! ## One request -/

/-- A declaration as what it does to the table: what is collected on the way is
what the request leaves. -/
theorem serve_eq_ofDeclare {q : Request} {d : Except Issue (Nat × SymbolTable)}
    (hd : q.answer t = d) : t.serve q = (Collected.ofDeclare t d).table := by
  unfold serve Collected.ofDeclare
  rw [hd]
  cases d with
  | ok answer => rfl
  | error issue => rfl

/-- **A request that is allowed adds to the table or changes nothing.** -/
theorem serve_grows (hf : Formed t) {q : Request} (h : q.Allowed t) :
    Grows (fun _ => True) t (t.serve q) := by
  cases q with
  | cls name parents declIndex span =>
    rw [serve_eq_ofDeclare rfl]
    show Grows _ t (Collected.ofDeclare t (t.declareClass name parents declIndex span)).table
    unfold declareClass
    cases hfree : t.lookupClass name with
    | some c => exact Grows.refl _ t
    | none => exact (addClass_grows parents declIndex span hfree).mono fun _ _ => Or.inl trivial
  | method owner name returnType declIndex span =>
    rw [serve_eq_ofDeclare rfl]
    show Grows _ t (Collected.ofDeclare t
      (t.declareMethod owner name returnType declIndex span)).table
    unfold declareMethod
    cases hfree : t.memberSpan? owner name with
    | some first => exact Grows.refl _ t
    | none =>
      exact (addMethod_grows ⟨hf, h⟩ returnType declIndex span hfree).mono
        fun _ _ => Or.inl trivial
  | field owner name type span =>
    rw [serve_eq_ofDeclare rfl]
    exact (declareField_grows hf h name type span).mono fun _ _ => Or.inl trivial
  | receiver method name span =>
    rw [serve_eq_ofDeclare rfl]
    exact (declareReceiver_grows ⟨hf, h⟩ name span).mono fun _ _ => Or.inl trivial
  | param method name type span =>
    rw [serve_eq_ofDeclare rfl]
    exact (declareVar_grows (paramSymbol (t.methodAt method).scope name type span)
      (hf.methodAt_scope_lt h) ⟨method, h, rfl⟩ fun _ htype => nomatch htype).mono
      fun _ _ => Or.inl trivial
  | localVar scope name type span =>
    rw [serve_eq_ofDeclare rfl]
    exact (declareVar_grows (localSymbol scope name type span) h.1 h.2
      fun _ htype => nomatch htype).mono fun _ _ => Or.inl trivial
  | block scope => exact (openBlock_grows h).mono fun _ _ => Or.inl trivial

/-- **A registry answers as the table does.** -/
theorem submit_registry (hf : Formed t) {q : Request} (h : q.Allowed t) :
    q.submit t.registry = t.answered (q.answer t) := by
  cases q with
  | cls name parents declIndex span => exact declareClass_registry hf name parents declIndex span
  | method owner name returnType declIndex span =>
    exact declareMethod_registry hf h name returnType declIndex span
  | field owner name type span => exact declareField_registry hf h name type span
  | receiver method name span => exact declareReceiver_registry hf h name span
  | param method name type span => exact declareParam_registry hf h name type span
  | localVar scope name type span => exact declareLocal_registry hf h.1 name type span
  | block scope =>
    show (Except.ok (t.registry.openBlock scope).1, (t.registry.openBlock scope).2) = _
    rw [openBlock_registry hf h.1]
    rfl

/-- So the registry afterwards is that of the table afterwards. -/
theorem submit_registry_snd (hf : Formed t) {q : Request} (h : q.Allowed t) :
    (q.submit t.registry).2 = (t.serve q).registry := by
  rw [submit_registry hf h]
  unfold serve
  cases q.answer t with
  | ok answer => rfl
  | error issue => rfl

/-- A variable that is declared under a free name is the next one, and is found in its scope. -/
theorem declareVar_stored (hf : Formed t) {v : VarSymbol} (hs : v.scope < t.scopes.length)
    (fits : t.Fits v) (hfree : t.lookupIn v.scope v.name = none) :
    t.answered (t.declareVar v) = (.ok t.registry.vars.length, (t.addVar v).registry)
      ∧ (t.addVar v).registry.lookupIn v.scope v.name = some t.registry.vars.length := by
  rw [registry_vars_length]
  constructor
  · unfold declareVar
    rw [hfree]
    rfl
  · rw [registry_lookupIn (hf.addVar hs fits hfree) hs]
    exact lookupIn_addVar hfree

/-- A parameter is listed in its method besides. -/
theorem declareParam_stored (hf : Formed t) {m : MethodId} (hm : m < t.methods.length)
    {v : VarSymbol} (hv : v.scope = (t.methodAt m).scope) (hkind : v.kind.isParam = true)
    (fits : t.Fits v)
    (h : t.registry.lookupIn (t.registry.methodAt m).symbol.scope v.name = none) :
    t.answered (t.declareVar v) = (.ok t.registry.vars.length, (t.addVar v).registry)
      ∧ (t.addVar v).registry.lookupIn (t.registry.methodAt m).symbol.scope v.name
          = some t.registry.vars.length
      ∧ ((t.addVar v).registry.methodAt m).params
          = (t.registry.methodAt m).params ++ [t.registry.vars.length] := by
  have hs : v.scope < t.scopes.length := hv ▸ hf.methodAt_scope_lt hm
  have hentry := registry_methodAt (t := t.addVar v) hm
  rw [registry_methodAt_symbol, ← hv] at h ⊢
  rw [registry_lookupIn hf hs] at h
  obtain ⟨hanswer, hfound⟩ := declareVar_stored hf hs fits h
  refine ⟨hanswer, hfound, ?_⟩
  rw [registry_methodAt hm, hentry, registry_vars_length]
  show (t.addVar v).paramsOf m = t.paramsOf m ++ _
  rw [paramsOf_addVar, if_pos ⟨hv, hkind⟩]

theorem memberSpan?_of_free (hf : Formed t) {owner : ClassId} (ha : owner < t.classes.length)
    {name : String} (h : t.registry.declaredField owner name = none
      ∧ t.registry.declaredMethod owner name = none) : t.memberSpan? owner name = none := by
  rw [registry_declaredField hf ha, registry_declaredMethod ha] at h
  exact memberSpan?_eq_none_iff.mpr h

/-- **A request under a free name gets the next position**, and what it asked for is there. -/
theorem submit_of_free (hf : Formed t) {q : Request} (ha : q.Allowed t) (h : q.Free t.registry) :
    ∃ r', q.submit t.registry = (.ok (q.next t.registry), r')
      ∧ q.Stored t.registry r' (q.next t.registry) := by
  rw [submit_registry hf ha]
  cases q with
  | cls name parents declIndex span =>
    have hfree : t.lookupClass name = none := (registry_lookupClass hf name).symm.trans h
    have hcls := hasClass_addClass hf parents declIndex span hfree
    refine ⟨(t.addClass name parents declIndex span).registry, ?_, ?_, ?_⟩
    · show t.answered (t.declareClass name parents declIndex span)
        = (.ok t.registry.classes.length, _)
      unfold declareClass
      rw [hfree, registry_classes_length]
      rfl
    · show Registry.lookupClass _ name = some t.registry.classes.length
      rw [registry_lookupClass hcls.1, registry_classes_length]
      refine (lookupClass_eq_some_iff hcls.1).mpr ⟨hcls.2, ?_⟩
      exact congrArg ClassSymbol.name (classAt_addClass t name parents declIndex span)
    · rw [registry_classes_length, registry_classes_length]
      exact List.length_append
  | method owner name returnType declIndex span =>
    have hspan := memberSpan?_of_free hf ha h
    have hmethod := hasMethod_addMethod ⟨hf, ha⟩ returnType declIndex span hspan
    have hat := methodAt_addMethod t owner name returnType declIndex span
    have hentry := registry_classAt (t := t.addMethod owner name returnType declIndex span) ha
    refine ⟨(t.addMethod owner name returnType declIndex span).registry, ?_, ?_, ?_⟩
    · show t.answered (t.declareMethod owner name returnType declIndex span)
        = (.ok t.registry.methods.length, _)
      unfold declareMethod
      rw [hspan, registry_methods_length]
      rfl
    · show Registry.declaredMethod _ owner name = some t.registry.methods.length
      rw [registry_declaredMethod (t := t.addMethod owner name returnType declIndex span) ha,
        registry_methods_length]
      exact (declaredMethod_eq_some_iff hmethod.1).mpr
        ⟨hmethod.2, congrArg MethodSymbol.owner hat, congrArg MethodSymbol.name hat⟩
    · rw [registry_classAt ha, hentry]
      show _ = _ ++ [t.registry.methods.length]
      rw [registry_methods_length]
      exact methodsOf_addMethod t owner name returnType declIndex span
  | field owner name type span =>
    let v := fieldSymbol (t.classAt owner).scope name type span
    have hscope := hf.classAt_scope_lt ha
    have hspan := memberSpan?_of_free hf ha h
    have hentry := registry_classAt (t := t.addVar v) ha
    obtain ⟨hfield, hmethod⟩ := memberSpan?_eq_none_iff.mp hspan
    obtain ⟨hanswer, hfound⟩ :=
      declareVar_stored hf (v := v) hscope ⟨owner, ha, rfl, hmethod⟩ hfield
    refine ⟨(t.addVar v).registry, ?_, ?_, ?_⟩
    · show t.answered (t.declareField owner name type span) = _
      unfold declareField
      rw [hspan]
      exact hanswer
    · show Registry.lookupIn _ (Registry.classAt _ owner).symbol.scope name = _
      rw [registry_classAt_symbol]
      exact hfound
    · rw [registry_classAt ha, hentry]
      show (t.addVar v).fieldsOf owner = t.fieldsOf owner ++ [t.registry.vars.length]
      rw [fieldsOf_addVar, if_pos ⟨rfl, rfl⟩, registry_vars_length]
  | receiver m name span =>
    exact ⟨_, declareParam_stored hf ha
      (v := receiverSymbol (t.methodAt m).scope name (t.methodAt m).owner span) rfl rfl
      ⟨m, ha, rfl⟩ h⟩
  | param m name type span =>
    exact ⟨_, declareParam_stored hf ha (v := paramSymbol (t.methodAt m).scope name type span) rfl
      rfl ⟨m, ha, rfl⟩ h⟩
  | localVar scope name type span =>
    let v := localSymbol scope name type span
    have hentry := registry_scopeAt (t := t.addVar v) ha.1
    obtain ⟨hanswer, hfound⟩ := declareVar_stored hf (v := v) ha.1 ha.2
      ((registry_lookupIn hf ha.1 name).symm.trans h)
    refine ⟨_, hanswer, hfound, ?_⟩
    rw [registry_scopeAt ha.1, hentry]
    show (t.addVar v).varsIn scope = t.varsIn scope ++ [t.registry.vars.length]
    rw [varsIn_addVar, if_pos (show v.scope = scope from rfl), registry_vars_length]
  | block scope =>
    have hlt : scope < (t.openBlock scope).2.scopes.length := by
      rw [openBlock_scopes_length]
      exact Nat.lt_succ_of_lt ha.1
    refine ⟨(t.openBlock scope).2.registry, ?_, ?_⟩
    · show (Except.ok t.scopes.length, _) = (Except.ok t.registry.scopes.length, _)
      rw [registry_scopes_length]
      rfl
    · show (Registry.scopeAt _ scope).children = _ ++ [t.registry.scopes.length]
      rw [registry_scopeAt ha.1, registry_scopeAt hlt, registry_scopes_length]
      exact childrenOf_openBlock t scope

/-- **A request under a name that is taken is refused**, and the registry stays as it was. -/
theorem submit_of_not_free (hf : Formed t) {q : Request} (ha : q.Allowed t)
    (h : ¬ q.Free t.registry) : ∃ issue, q.submit t.registry = (.error issue, t.registry) := by
  have hvar : ∀ {v : VarSymbol}, t.lookupIn v.scope v.name ≠ none →
      ∃ issue, t.answered (t.declareVar v) = (.error issue, t.registry) := by
    intro v hv
    obtain ⟨w, hw⟩ := Option.ne_none_iff_exists'.mp hv
    unfold declareVar
    rw [hw]
    exact ⟨_, rfl⟩
  have hmember : ∀ {owner : ClassId} {name : String}, owner < t.classes.length →
      ¬ (t.registry.declaredField owner name = none ∧ t.registry.declaredMethod owner name = none) →
      ∃ first, t.memberSpan? owner name = some first := by
    intro owner name howner hn
    refine Option.ne_none_iff_exists'.mp fun hc => hn ?_
    rw [registry_declaredField hf howner, registry_declaredMethod howner]
    exact memberSpan?_eq_none_iff.mp hc
  have hparam : ∀ {m : MethodId} {name : String}, m < t.methods.length →
      ¬ t.registry.lookupIn (t.registry.methodAt m).symbol.scope name = none →
      t.lookupIn (t.methodAt m).scope name ≠ none := by
    intro m name hm hn
    rwa [registry_methodAt_symbol, registry_lookupIn hf (hf.methodAt_scope_lt hm)] at hn
  rw [submit_registry hf ha]
  cases q with
  | cls name parents declIndex span =>
    have htaken : t.lookupClass name ≠ none := fun hc => h ((registry_lookupClass hf name).trans hc)
    obtain ⟨c, hc⟩ := Option.ne_none_iff_exists'.mp htaken
    show ∃ issue, t.answered (t.declareClass name parents declIndex span) = _
    unfold declareClass
    rw [hc]
    exact ⟨_, rfl⟩
  | method owner name returnType declIndex span =>
    obtain ⟨first, hfirst⟩ := hmember ha h
    show ∃ issue, t.answered (t.declareMethod owner name returnType declIndex span) = _
    unfold declareMethod
    rw [hfirst]
    exact ⟨_, rfl⟩
  | field owner name type span =>
    obtain ⟨first, hfirst⟩ := hmember ha h
    show ∃ issue, t.answered (t.declareField owner name type span) = _
    unfold declareField
    rw [hfirst]
    exact ⟨_, rfl⟩
  | receiver m name span => exact hvar (v := receiverSymbol _ name _ span) (hparam ha h)
  | param m name type span => exact hvar (v := paramSymbol _ name type span) (hparam ha h)
  | localVar scope name type span =>
    exact hvar (v := localSymbol scope name type span)
      fun hc => h ((registry_lookupIn hf ha.1 name).trans hc)
  | block scope => exact absurd trivial h

/-- Only the scope of the program stands in no other. -/
theorem Serves.eq_rootScope {s : ScopeId} {k : Scope} (h : t.Serves s k)
    (hk : k.parent = none) : s = rootScope := by
  cases h with
  | program => rfl
  | cls inside => cases hk
  | method inside => cases hk
  | block inside => cases hk

/-! ## Members and scopes of a well-formed table -/

section Members

variable (hf : Formed t)
include hf

/-- The fields of a class are the variables of its scope. -/
theorem Formed.mem_fieldsOf_iff {c : ClassId} (hc : c < t.classes.length) {v : VarId} :
    v ∈ t.fieldsOf c ↔ v < t.vars.length ∧ (t.varAt v).scope = (t.classAt c).scope := by
  refine mem_fieldsOf.trans (and_congr_right fun hv => and_iff_left_of_imp fun hscope => ?_)
  exact hf.kind_eq_field (List.mem_of_getElem? (getElem?_eq_getD hv _)) hc hscope

theorem Formed.declaredField_iff {c : ClassId} (hc : c < t.classes.length) {name : String}
    {v : VarId} :
    t.declaredField c name = some v ↔ v ∈ t.fieldsOf c ∧ (t.varAt v).name = name := by
  rw [declaredField, lookupIn_eq_some_iff hf, hf.mem_fieldsOf_iff hc, and_assoc]

theorem Formed.declaredMethod_iff {c : ClassId} {name : String} {m : MethodId} :
    t.declaredMethod c name = some m ↔ m ∈ t.methodsOf c ∧ (t.methodAt m).name = name := by
  rw [declaredMethod_eq_some_iff hf, mem_methodsOf, and_assoc]

/-- The names of the members of a class differ. -/
theorem Formed.member_names_nodup {c : ClassId} (hc : c < t.classes.length) :
    (((t.fieldsOf c).map fun v => (t.varAt v).name)
      ++ (t.methodsOf c).map fun m => (t.methodAt m).name).Nodup := by
  refine List.nodup_append'.mpr ⟨?_, ?_, ?_⟩
  · exact nodup_map_name (positions_pairwise _ _) (t.declaredField c)
      fun v hv => (hf.declaredField_iff hc).mpr ⟨hv, rfl⟩
  · exact nodup_map_name (positions_pairwise _ _) (t.declaredMethod c)
      fun m hm => hf.declaredMethod_iff.mpr ⟨hm, rfl⟩
  · intro name hfield hmethod
    obtain ⟨v, hv, rfl⟩ := List.mem_map.mp hfield
    obtain ⟨m, hm, hname⟩ := List.mem_map.mp hmethod
    obtain ⟨hvlt, hscope⟩ := (hf.mem_fieldsOf_iff hc).mp hv
    obtain ⟨hmlt, rfl⟩ := mem_methodsOf.mp hm
    exact hf.member_names _ (List.mem_of_getElem? (getElem?_eq_getD hmlt _)) _
      (List.mem_of_getElem? (getElem?_eq_getD hvlt _)) hscope hname.symm

/-- **The owner of a field is the class that lists it.** -/
theorem Formed.fieldOwner_iff (hp : Placed t) {v : VarId} {c : ClassId} :
    t.fieldOwner v = some c ↔ c < t.classes.length ∧ v ∈ t.fieldsOf c := by
  constructor
  · intro howner
    obtain ⟨hkind, hcls⟩ : (t.varAt v).kind = .field
        ∧ (t.scopeAt (t.varAt v).scope).cls = some c := by
      unfold fieldOwner at howner
      split at howner
      · exact ⟨by assumption, howner⟩
      · cases howner
    by_cases hv : v < t.vars.length
    · obtain ⟨k, hk, hsuits⟩ :=
        hf.var_scope (t.varAt v) (List.mem_of_getElem? (getElem?_eq_getD hv _))
      rw [scopeAt, getD_of_eq_some hk] at hcls
      rw [hkind] at hsuits
      have hserves := hp _ k hk
      generalize hs : (t.varAt v).scope = s at hserves
      cases hserves with
      | program => cases hsuits
      | cls inside =>
        obtain rfl := Option.some.inj hcls
        exact ⟨inside, (hf.mem_fieldsOf_iff inside).mpr ⟨hv, hs⟩⟩
      | method inside => cases hsuits
      | block inside => cases hsuits
    · -- A position outside the table reads as a variable of the program.
      have hscope : (t.varAt v).scope = rootScope := by
        rw [varAt, List.getD_eq_getElem?_getD, List.getElem?_eq_none (Nat.le_of_not_lt hv)]
        rfl
      rw [hscope, scopeAt, getD_of_eq_some hf.root] at hcls
      cases hcls
  · rintro ⟨hc, hv⟩
    exact hf.fieldOwner_eq hc ((hf.declaredField_iff hc).mpr ⟨hv, rfl⟩)

/-- **Every scope is reached from that of the program**, by going from a scope to
one of those it lists. -/
theorem Formed.reachable (hp : Placed t) {s : ScopeId} (hs : s < t.scopes.length) :
    Relation.ReflTransGen (fun around s => s ∈ t.childrenOf around) rootScope s := by
  -- A scope comes after the one around it, which is reached already.
  induction s using Nat.strongRecOn with
  | ind s ih =>
    cases hparent : (t.scopeAt s).parent with
    | none =>
      rw [(hp s _ (getElem?_eq_getD hs default)).eq_rootScope hparent]
    | some around =>
      have hlt : around < s := hf.parent_lt (getElem?_eq_getD hs default) hparent
      exact (ih around hlt (Nat.lt_trans hlt hs)).tail (mem_childrenOf.mpr ⟨hs, hparent⟩)

end Members

end SymbolTable

/-! ## Coherent registries -/

/-- **A coherent registry.** -/
structure Registry.Coherent (r : Registry) : Prop where
  /-- Every entry stands at the position it names: classes, -/
  class_id : ∀ {c : ClassId}, c < r.classes.length → (r.classAt c).id = c
  /-- methods, -/
  method_id : ∀ {m : MethodId}, m < r.methods.length → (r.methodAt m).id = m
  /-- variables -/
  var_id : ∀ {v : VarId}, v < r.vars.length → (r.varAt v).id = v
  /-- and scopes. -/
  scope_id : ∀ {s : ScopeId}, s < r.scopes.length → (r.scopeAt s).id = s
  /-- A class is found by its name and by no other. -/
  lookupClass_iff : ∀ {name : String} {c : ClassId},
    r.lookupClass name = some c ↔ c < r.classes.length ∧ (r.classAt c).symbol.name = name
  /-- Every scope is for something. -/
  serves : ∀ {s : ScopeId}, s < r.scopes.length → r.table.Serves s (r.scopeAt s).symbol
  /-- Every class has a scope. -/
  class_scope : ∀ {c : ClassId}, c < r.classes.length →
    (r.classAt c).symbol.scope < r.scopes.length
      ∧ (r.scopeAt (r.classAt c).symbol.scope).symbol.kind = .cls
  /-- Every method has a scope. -/
  method_scope : ∀ {m : MethodId}, m < r.methods.length →
    (r.methodAt m).symbol.scope < r.scopes.length
      ∧ (r.scopeAt (r.methodAt m).symbol.scope).symbol.kind = .method
  /-- The scope of the program is the only one that stands in no other. -/
  parent_eq_none_iff : ∀ {s : ScopeId}, s < r.scopes.length →
    ((r.scopeAt s).symbol.parent = none ↔ s = rootScope)
  /-- A scope comes after the one it stands in. -/
  parent_lt : ∀ {s around : ScopeId}, s < r.scopes.length →
    (r.scopeAt s).symbol.parent = some around → around < s
  /-- A scope lists those that stand in it, once and in order. -/
  children : ∀ {around : ScopeId}, around < r.scopes.length →
    (r.scopeAt around).children.Pairwise (· < ·)
      ∧ ∀ {s : ScopeId}, s ∈ (r.scopeAt around).children
          ↔ s < r.scopes.length ∧ (r.scopeAt s).symbol.parent = some around
  /-- Every scope stands, directly or not, in that of the program. -/
  reachable : ∀ {s : ScopeId}, s < r.scopes.length →
    Relation.ReflTransGen (fun around s => s ∈ (r.scopeAt around).children) rootScope s
  /-- A variable stands in a scope. -/
  var_scope : ∀ {v : VarId}, v < r.vars.length → (r.varAt v).symbol.scope < r.scopes.length
  /-- A scope lists the variables that stand in it, once and in order. -/
  vars : ∀ {s : ScopeId}, s < r.scopes.length →
    (r.scopeAt s).vars.Pairwise (· < ·)
      ∧ ∀ {v : VarId}, v ∈ (r.scopeAt s).vars
          ↔ v < r.vars.length ∧ (r.varAt v).symbol.scope = s
  /-- Looking a name up in a scope finds the variable with this name in its list. -/
  lookupIn_iff : ∀ {s : ScopeId}, s < r.scopes.length → ∀ {name : String} {v : VarId},
    r.lookupIn s name = some v ↔ v ∈ (r.scopeAt s).vars ∧ (r.varAt v).symbol.name = name
  /-- The names of a scope differ. -/
  var_names : ∀ {s : ScopeId}, s < r.scopes.length →
    ((r.scopeAt s).vars.map fun v => (r.varAt v).symbol.name).Nodup
  /-- A class lists its methods, once and in order. -/
  methods : ∀ {c : ClassId}, c < r.classes.length →
    (r.classAt c).methods.Pairwise (· < ·)
      ∧ ∀ {m : MethodId}, m ∈ (r.classAt c).methods
          ↔ m < r.methods.length ∧ (r.methodAt m).symbol.owner = c
  /-- Every method has a class. -/
  method_owner : ∀ {m : MethodId}, m < r.methods.length →
    (r.methodAt m).symbol.owner < r.classes.length
  /-- A class lists its fields, once and in order. They are the variables of its scope. -/
  fields : ∀ {c : ClassId}, c < r.classes.length →
    (r.classAt c).fields.Pairwise (· < ·)
      ∧ ∀ {v : VarId}, v ∈ (r.classAt c).fields
          ↔ v < r.vars.length ∧ (r.varAt v).symbol.scope = (r.classAt c).symbol.scope
  /-- A method lists its parameters, once and in order. -/
  params : ∀ {m : MethodId}, m < r.methods.length →
    (r.methodAt m).params.Pairwise (· < ·)
      ∧ ∀ {v : VarId}, v ∈ (r.methodAt m).params
          ↔ v < r.vars.length ∧ (r.varAt v).symbol.scope = (r.methodAt m).symbol.scope
            ∧ (r.varAt v).symbol.kind.isParam = true
  /-- Looking for a field of a class finds the one with this name in its list. -/
  declaredField_iff : ∀ {c : ClassId}, c < r.classes.length → ∀ {name : String} {v : VarId},
    r.declaredField c name = some v
      ↔ v ∈ (r.classAt c).fields ∧ (r.varAt v).symbol.name = name
  /-- So does looking for a method. -/
  declaredMethod_iff : ∀ {c : ClassId}, c < r.classes.length → ∀ {name : String} {m : MethodId},
    r.declaredMethod c name = some m
      ↔ m ∈ (r.classAt c).methods ∧ (r.methodAt m).symbol.name = name
  /-- The names of the fields and the methods of a class all differ. -/
  member_names : ∀ {c : ClassId}, c < r.classes.length →
    (((r.classAt c).fields.map fun v => (r.varAt v).symbol.name)
      ++ (r.classAt c).methods.map fun m => (r.methodAt m).symbol.name).Nodup
  /-- The owner of a field is the class that lists it. -/
  fieldOwner_iff : ∀ {v : VarId}, v < r.vars.length → ∀ {c : ClassId},
    r.fieldOwner v = some c ↔ c < r.classes.length ∧ v ∈ (r.classAt c).fields

namespace SymbolTable

variable {t : SymbolTable}

/-- **The registry of a well-formed table with every scope in its place is coherent.** -/
theorem Formed.registry_coherent (hf : Formed t) (hp : Placed t) : t.registry.Coherent := by
  have hclass {c : ClassId} : c < t.registry.classes.length → c < t.classes.length :=
    fun h => by rwa [registry_classes_length] at h
  have hmethod {m : MethodId} : m < t.registry.methods.length → m < t.methods.length :=
    fun h => by rwa [registry_methods_length] at h
  have hscope {s : ScopeId} : s < t.registry.scopes.length → s < t.scopes.length :=
    fun h => by rwa [registry_scopes_length] at h
  have hchild {around s : ScopeId} (h : s ∈ t.childrenOf around) :
      s ∈ (t.registry.scopeAt around).children := by
    obtain ⟨hs, hparent⟩ := mem_childrenOf.mp h
    have hlt := hf.parent_lt (getElem?_eq_getD hs default) hparent
    rwa [registry_scopeAt (Nat.lt_trans hlt hs)]
  constructor
  case class_id =>
    intro c hc
    rw [registry_classAt (hclass hc)]
    rfl
  case method_id =>
    intro m hm
    rw [registry_methodAt (hmethod hm)]
    rfl
  case var_id =>
    intro v hv
    rw [registry_varAt (by rwa [registry_vars_length] at hv)]
    rfl
  case scope_id =>
    intro s hs
    rw [registry_scopeAt (hscope hs)]
    rfl
  case lookupClass_iff =>
    intro name c
    rw [registry_lookupClass hf, registry_classes_length, registry_classAt_symbol]
    exact lookupClass_eq_some_iff hf
  case serves =>
    intro s hs
    rw [table_registry, registry_scopeAt_symbol]
    exact hp _ _ (getElem?_eq_getD (hscope hs) default)
  case class_scope =>
    intro c hc
    rw [registry_classAt_symbol, registry_scopeAt_symbol, registry_scopes_length, scopeAt,
      getD_of_eq_some (hf.classAt_scope (hclass hc))]
    exact ⟨hf.classAt_scope_lt (hclass hc), rfl⟩
  case method_scope =>
    intro m hm
    rw [registry_methodAt_symbol, registry_scopeAt_symbol, registry_scopes_length, scopeAt,
      getD_of_eq_some (hf.methodAt_scope (hmethod hm))]
    exact ⟨hf.methodAt_scope_lt (hmethod hm), rfl⟩
  case parent_eq_none_iff =>
    intro s hs
    rw [registry_scopeAt_symbol]
    refine ⟨(hp _ _ (getElem?_eq_getD (hscope hs) default)).eq_rootScope, ?_⟩
    rintro rfl
    rw [scopeAt, getD_of_eq_some hf.root]
  case parent_lt =>
    intro s around hs hparent
    rw [registry_scopeAt_symbol] at hparent
    exact hf.parent_lt (getElem?_eq_getD (hscope hs) default) hparent
  case children =>
    intro around haround
    simp only [registry_scopeAt (hscope haround), registry_scopes_length,
      registry_scopeAt_symbol, scopeEntry]
    exact ⟨positions_pairwise _ _, mem_childrenOf⟩
  case reachable =>
    intro s hs
    exact Relation.ReflTransGen.mono (fun _ _ => hchild) _ _ (hf.reachable hp (hscope hs))
  case var_scope =>
    intro v hv
    rw [registry_vars_length] at hv
    rw [registry_varAt_symbol, registry_scopes_length]
    obtain ⟨k, hk, -⟩ := hf.var_scope _ (List.mem_of_getElem? (getElem?_eq_getD hv default))
    exact (List.getElem?_eq_some_iff.mp hk).1
  case vars =>
    intro s hs
    simp only [registry_scopeAt (hscope hs), registry_vars_length, registry_varAt_symbol,
      scopeEntry]
    exact ⟨positions_pairwise _ _, mem_varsIn⟩
  case lookupIn_iff =>
    intro s hs name v
    rw [registry_lookupIn hf (hscope hs), registry_scopeAt (hscope hs), registry_varAt_symbol]
    exact hf.lookupIn_iff
  case var_names =>
    intro s hs
    simp only [registry_scopeAt (hscope hs), registry_varAt_symbol]
    exact hf.var_names_nodup s
  case methods =>
    intro c hc
    simp only [registry_classAt (hclass hc), registry_methods_length, registry_methodAt_symbol,
      classEntry]
    exact ⟨positions_pairwise _ _, mem_methodsOf⟩
  case method_owner =>
    intro m hm
    rw [registry_methodAt_symbol, registry_classes_length]
    exact hf.methodAt_owner_lt (hmethod hm)
  case fields =>
    intro c hc
    simp only [registry_classAt (hclass hc), registry_vars_length, registry_varAt_symbol,
      classEntry]
    exact ⟨positions_pairwise _ _, hf.mem_fieldsOf_iff (hclass hc)⟩
  case params =>
    intro m hm
    simp only [registry_methodAt (hmethod hm), registry_vars_length, registry_varAt_symbol,
      methodEntry]
    exact ⟨positions_pairwise _ _, mem_paramsOf⟩
  case declaredField_iff =>
    intro c hc name v
    rw [registry_declaredField hf (hclass hc), registry_classAt (hclass hc), registry_varAt_symbol]
    exact hf.declaredField_iff (hclass hc)
  case declaredMethod_iff =>
    intro c hc name m
    rw [registry_declaredMethod (hclass hc), registry_classAt (hclass hc), registry_methodAt_symbol]
    exact hf.declaredMethod_iff
  case member_names =>
    intro c hc
    simp only [registry_classAt (hclass hc), registry_varAt_symbol, registry_methodAt_symbol]
    exact hf.member_names_nodup (hclass hc)
  case fieldOwner_iff =>
    intro v _ c
    have howner : t.registry.fieldOwner v = t.fieldOwner v := by
      unfold Registry.fieldOwner fieldOwner
      rw [registry_varAt_symbol, registry_scopeAt_symbol]
    rw [howner, hf.fieldOwner_iff hp, registry_classes_length]
    refine and_congr_right fun hc => ?_
    rw [registry_classAt hc]
    rfl

/-! ## Any history -/

/-- **What every request keeps, a history keeps.** -/
theorem submitAll_registry (hf : Formed t) {requests : List Request}
    (h : Registry.History t.registry requests) :
    t.registry.submitAll requests = (t.serveAll requests).registry
      ∧ Grows (fun _ => True) t (t.serveAll requests) := by
  induction requests generalizing t with
  | nil => exact ⟨rfl, Grows.refl _ t⟩
  | cons q rest ih =>
    obtain ⟨hallowed, hrest⟩ := h
    rw [table_registry] at hallowed
    rw [submit_registry_snd hf hallowed] at hrest
    have first := serve_grows hf hallowed
    obtain ⟨hregistry, hgrows⟩ := ih (hf.grows first) hrest
    refine ⟨?_, first.trans hgrows fun _ => Or.inl⟩
    show Registry.submitAll (q.submit t.registry).2 rest = _
    rw [submit_registry_snd hf hallowed]
    exact hregistry

/-- **Any history leaves a coherent registry**, which is the registry of the table that answers
the same requests. The next request is then answered by the registry: under a free name with the
next position, where what was asked for is listed and found, and under a name that is taken with an
issue, which leaves the registry as it was. -/
theorem history_coherent (requests : List Request)
    (h : Registry.History Registry.empty requests) :
    let r := Registry.empty.submitAll requests
    r = (empty.serveAll requests).registry ∧ r.Coherent
      ∧ ∀ q : Request, q.Allowed r.table →
        (q.Free r ∧ ∃ r', q.submit r = (.ok (q.next r), r') ∧ q.Stored r r' (q.next r))
        ∨ ¬ q.Free r ∧ ∃ issue, q.submit r = (.error issue, r) := by
  intro r
  obtain ⟨hregistry, hg⟩ := submitAll_registry formed_empty h
  have hf : Formed (empty.serveAll requests) := formed_empty.grows hg
  have hp : Placed (empty.serveAll requests) := placed_empty.grows formed_empty hg
  have hr : r = (empty.serveAll requests).registry := hregistry
  rw [hr]
  refine ⟨rfl, hf.registry_coherent hp, fun q ha => ?_⟩
  rw [table_registry] at ha
  by_cases hfree : q.Free (empty.serveAll requests).registry
  · exact Or.inl ⟨hfree, submit_of_free hf ha hfree⟩
  · exact Or.inr ⟨hfree, submit_of_not_free hf ha hfree⟩

/-- A history with two classes, a method that shadows one of its names in a block,
and two requests that are refused. -/
def sampleHistory : List Request :=
  [.cls "Point" [] 0 ⟨1, 7, 5⟩, .field 0 "x" ⟨"int", ⟨2, 5, 3⟩⟩ ⟨2, 9, 1⟩,
    .cls "Pixel" [⟨"Point", ⟨5, 14, 5⟩⟩] 1 ⟨5, 7, 5⟩, .method 0 "shift" none 1 ⟨3, 9, 5⟩,
    .field 0 "shift" ⟨"int", ⟨4, 5, 3⟩⟩ ⟨4, 9, 5⟩, .receiver 0 "self" ⟨3, 15, 4⟩,
    .param 0 "by" ⟨"int", ⟨3, 25, 3⟩⟩ ⟨3, 21, 2⟩, .block 3,
    .localVar 4 "by" ⟨"int", ⟨4, 9, 3⟩⟩ ⟨4, 13, 2⟩, .localVar 3 "by" ⟨"int", ⟨5, 9, 3⟩⟩ ⟨5, 13, 2⟩,
    .method 1 "shift" none 0 ⟨6, 9, 5⟩]

theorem history_coherent_sample :
    Registry.History Registry.empty sampleHistory
      ∧ (Registry.empty.submitAll sampleHistory).Coherent :=
  have h : Registry.History Registry.empty sampleHistory := by decide
  ⟨h, (history_coherent sampleHistory h).2.1⟩

end SymbolTable

end Heritage
