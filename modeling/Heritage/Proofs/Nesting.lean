import Heritage.Proofs.Collection
import Heritage.Proofs.Walk

/-!
# Scopes are nested by kind

Classes stand in the program, methods in classes, and blocks in methods or in
other blocks. Collecting symbols keeps it so. A body is therefore followed
through scopes of methods and blocks only: whatever blocks it enters and leaves,
no environment of it ever holds the scope of a class or of the program
(`Env.Inside`). In particular no field is ever found in one of its scopes.
-/

namespace Heritage

/-- What a scope of one kind can stand in. -/
def ScopeKind.standsIn : ScopeKind → ScopeKind → Bool
  | .cls, .program => true
  | .method, .cls => true
  | .block, .method => true
  | .block, .block => true
  | _, _ => false

namespace SymbolTable

variable {A : ScopeId → Prop} {t t' u : SymbolTable}

/-- **Every scope stands in one that it can stand in.** -/
def Nested (t : SymbolTable) : Prop :=
  ∀ k ∈ t.scopes, ∀ p, k.parent = some p →
    ∃ around, t.scopes[p]? = some around ∧ k.kind.standsIn around.kind = true

theorem nested_empty : Nested empty := by
  intro k hk p hp
  obtain rfl := List.mem_singleton.mp hk
  cases hp

theorem Nested.of_scopes (h : Nested t) (hu : u.scopes = t.scopes) : Nested u := by
  unfold Nested
  rw [hu]
  exact h

/-- A scope that is added where it can stand. -/
theorem Nested.concat (h : Nested t) {k around : Scope} {p : ScopeId}
    (ht' : t'.scopes = t.scopes ++ [k]) (hp : k.parent = some p)
    (haround : t.scopes[p]? = some around) (hk : k.kind.standsIn around.kind = true) :
    Nested t' := by
  intro k' hk' q hq
  rw [ht'] at hk' ⊢
  rcases List.mem_append.mp hk' with hold | hnew
  · obtain ⟨outer, houter, hstands⟩ := h k' hold q hq
    exact ⟨outer, getElem?_append_of_eq_some houter, hstands⟩
  · obtain rfl := List.mem_singleton.mp hnew
    obtain rfl := Option.some.inj (hp.symm.trans hq)
    exact ⟨around, getElem?_append_of_eq_some haround, hk⟩

theorem Nested.step (h : Nested t) (hf : Formed t) (hst : Step A t t') : Nested t' := by
  cases hst with
  | cls name parents declIndex span free attached => exact h.concat rfl rfl hf.root rfl
  | method owner name returnType declIndex span owned freeField freeMethod attached =>
    exact h.concat rfl rfl (hf.classAt_scope owned) rfl
  | var v inside fits free attached typed => exact h.of_scopes rfl
  | block s inside fits attached =>
    refine h.concat rfl rfl (getElem?_eq_getD inside default) ?_
    rcases fits with hkind | hkind
    · show ScopeKind.standsIn .block (t.scopeAt s).kind = true
      rw [hkind]
      rfl
    · show ScopeKind.standsIn .block (t.scopeAt s).kind = true
      rw [hkind]
      rfl

theorem Nested.grows (h : Nested t) (hf : Formed t) (hg : Grows A t t') : Nested t' :=
  (hg.keeps (fun u => Formed u ∧ Nested u) (fun _ _ ih hst => ⟨ih.1.step hst, ih.2.step ih.1 hst⟩)
    ⟨hf, h⟩).2

/-- **The scopes of a program are nested.** -/
theorem collect_nested (p : Program) : Nested (collect p).table :=
  nested_empty.grows formed_empty (collect_grows p)

/-! ## Scopes of bodies -/

theorem BodyScope.getElem? {s : ScopeId} (h : BodyScope t s) :
    t.scopes[s]? = some (t.scopeAt s) :=
  getElem?_eq_getD h.1 default

theorem BodyScope.ne_rootScope {s : ScopeId} (h : BodyScope t s) (hf : Formed t) :
    s ≠ rootScope := by
  refine hf.ne_rootScope h.getElem? fun hkind => ?_
  rcases h.2 with hmethod | hblock
  · exact absurd (hkind.symm.trans hmethod) nofun
  · exact absurd (hkind.symm.trans hblock) nofun

/-- **What stands in a body is a block.** -/
theorem BodyScope.child {s block : ScopeId} (h : BodyScope t s) (hn : Nested t)
    (hblock : block ∈ t.childrenOf s) : BodyScope t block := by
  obtain ⟨k, hk, hparent⟩ := mem_positions.mp hblock
  obtain ⟨around, haround, hstands⟩ := hn k (List.mem_of_getElem? hk) s (beq_iff_eq.mp hparent)
  obtain rfl := Option.some.inj (h.getElem?.symm.trans haround)
  refine ⟨(List.getElem?_eq_some_iff.mp hk).1, Or.inr ?_⟩
  rw [scopeAt, getD_of_eq_some hk]
  rcases h.2 with hkind | hkind
  · rw [hkind] at hstands
    cases hk' : k.kind <;> rw [hk'] at hstands <;> trivial
  · rw [hkind] at hstands
    cases hk' : k.kind <;> rw [hk'] at hstands <;> trivial

/-- No variable of a body is a field. -/
theorem BodyScope.kind_ne_field {s : ScopeId} (h : BodyScope t s) (hf : Formed t) {v : VarId}
    (hv : v < t.vars.length) (hscope : (t.varAt v).scope = s) : (t.varAt v).kind ≠ .field := by
  intro hfield
  obtain ⟨k, hk, hsuits⟩ := hf.var_scope (t.varAt v) (List.mem_of_getElem? (getElem?_eq_getD hv _))
  rw [hscope, h.getElem?] at hk
  obtain rfl := Option.some.inj hk
  rw [hfield] at hsuits
  rcases h.2 with hkind | hkind
  · rw [hkind] at hsuits
    cases hsuits
  · rw [hkind] at hsuits
    cases hsuits

end SymbolTable

open SymbolTable

/-! ## Environments of bodies -/

namespace Env

variable {t : SymbolTable} {e e' : Env}

/-- **An environment inside a body**: every scope around the point is that of a
method or a block. -/
def Inside (t : SymbolTable) (e : Env) : Prop :=
  ∀ f ∈ e.frames, BodyScope t f.scope

theorem inside_ofMethod {m : MethodId} (h : HasMethod t m) : Inside t (ofMethod t m) := by
  intro f hf
  obtain rfl := List.mem_singleton.mp hf
  exact h.bodyScope

theorem Inside.enter (h : Inside t e) (hn : Nested t) {span : Span}
    (he : e.enter t span = .ok e') : Inside t e' := by
  unfold Env.enter at he
  split at he
  · cases he
  · rename_i block hblock
    obtain rfl := Except.ok.inj he
    have htop := h e.top List.mem_cons_self
    intro f hf
    rcases List.mem_cons.mp hf with rfl | hf
    · exact htop.child hn (List.mem_of_getElem? hblock)
    · rcases List.mem_cons.mp hf with rfl | hf
      · exact htop
      · exact h f (List.mem_cons_of_mem _ hf)

theorem Inside.leave (h : Inside t e) : Inside t e.leave := by
  unfold Env.leave
  split
  · exact h
  · rename_i f rest houter
    intro g hg
    refine h g (List.mem_cons_of_mem _ ?_)
    rw [houter]
    exact hg

theorem Inside.declare (h : Inside t e) (name : String) : Inside t (e.declare t name) := by
  unfold Env.declare
  split
  · exact h
  · exact h

/-- **A name that is found in an environment of a body is no field.** -/
theorem Inside.kind_ne_field (h : Inside t e) (hf : Formed t) {name : String} {v : VarId}
    (hv : e.lookup t name = some v) : (t.varAt v).kind ≠ .field := by
  obtain ⟨f, hmem, hframe⟩ := List.exists_of_findSome?_eq_some hv
  obtain ⟨hlook, -⟩ := Option.filter_eq_some_iff.mp hframe
  obtain ⟨hlt, hp, -⟩ := List.findIdx?_eq_some_iff_getElem.mp hlook
  refine (h f hmem).kind_ne_field hf hlt ?_
  rw [varAt, getD_of_eq_some (List.getElem?_eq_getElem hlt)]
  exact beq_iff_eq.mp (Bool.and_eq_true_iff.mp hp).1

end Env

/-! ## Following a body -/

namespace Body

variable {b : Body}

theorem afterBlock_eq_ok {body : List Stmt} {span : Span} {env env' : Env}
    (h : b.afterBlock body span env = .ok env') :
    ∃ first last, env.enter b.table span = .ok first ∧ b.afterAll body first = .ok last
      ∧ env' = last.leave := by
  unfold afterBlock at h
  cases henter : env.enter b.table span with
  | error i =>
    rw [henter] at h
    cases h
  | ok first =>
    rw [henter] at h
    change (b.afterAll body first).bind (fun last => Except.ok last.leave) = .ok env' at h
    cases hall : b.afterAll body first with
    | error i =>
      rw [hall] at h
      cases h
    | ok last =>
      rw [hall] at h
      exact ⟨first, last, rfl, hall, (Except.ok.inj h).symm⟩

theorem after_ifElse_eq_ok {cond : Expr} {body other : List Stmt} {bodySpan otherSpan span : Span}
    {env env'' : Env}
    (h : b.after (.ifElse cond body bodySpan other otherSpan span) env = .ok env'') :
    ∃ env', b.afterBlock body bodySpan env = .ok env'
      ∧ b.afterBlock other otherSpan env' = .ok env'' := by
  rw [after_ifElse] at h
  cases hfirst : b.afterBlock body bodySpan env with
  | error i =>
    rw [hfirst] at h
    cases h
  | ok env' =>
    rw [hfirst] at h
    exact ⟨env', rfl, h⟩

theorem afterAll_cons_eq_ok {s : Stmt} {rest : List Stmt} {env env'' : Env}
    (h : b.afterAll (s :: rest) env = .ok env'') :
    ∃ env', b.after s env = .ok env' ∧ b.afterAll rest env' = .ok env'' := by
  cases hs : b.after s env with
  | error i =>
    change (b.after s env).bind _ = _ at h
    rw [hs] at h
    cases h
  | ok env' => exact ⟨env', rfl, (afterAll_cons hs rest).symm.trans h⟩

theorem afterVars_inside (vars : List Declarator) {env env' : Env} (h : env.Inside b.table)
    (hvars : b.afterVars vars env = .ok env') : env'.Inside b.table := by
  induction vars generalizing env with
  | nil =>
    obtain rfl := Except.ok.inj hvars
    exact h
  | cons v rest ih =>
    unfold afterVars afterVar at hvars
    cases hlook : b.table.lookupIn env.scope v.name.text with
    | none =>
      rw [hlook] at hvars
      cases hvars
    | some id =>
      rw [hlook] at hvars
      exact ih (h.declare _) hvars

/-- A block is followed inside the body, if what stands in it is. -/
theorem afterBlock_inside_of {body : List Stmt} (hn : Nested b.table)
    (hbody : ∀ {env env' : Env}, env.Inside b.table → b.afterAll body env = .ok env' →
      env'.Inside b.table)
    {span : Span} {env env' : Env} (h : env.Inside b.table)
    (hs : b.afterBlock body span env = .ok env') : env'.Inside b.table := by
  obtain ⟨first, last, henter, hall, rfl⟩ := afterBlock_eq_ok hs
  exact (hbody (h.enter hn henter) hall).leave

mutual
theorem after_inside (hn : Nested b.table) : (s : Stmt) → {env env' : Env} →
    env.Inside b.table → b.after s env = .ok env' → env'.Inside b.table
  | .declare _ vars _, _, _, h, hs => by
    unfold after at hs
    exact afterVars_inside vars h hs
  | .ifThen cond body bodySpan span, _, _, h, hs => by
    rw [after_ifThen] at hs
    exact afterBlock_inside_of hn (afterAll_inside hn body) h hs
  | .ifElse cond body bodySpan other otherSpan span, _, _, h, hs => by
    obtain ⟨env', hbody, hother⟩ := after_ifElse_eq_ok hs
    have hinside := afterBlock_inside_of hn (afterAll_inside hn body) h hbody
    exact afterBlock_inside_of hn (afterAll_inside hn other) hinside hother
  | .loop cond body bodySpan span, _, _, h, hs => by
    rw [after_loop] at hs
    exact afterBlock_inside_of hn (afterAll_inside hn body) h hs
  | .ret _ _, _, _, h, hs => by
    unfold after at hs
    exact Except.ok.inj hs ▸ h
  | .assign _ _ _, _, _, h, hs => by
    unfold after at hs
    exact Except.ok.inj hs ▸ h
  | .eval _ _, _, _, h, hs => by
    unfold after at hs
    exact Except.ok.inj hs ▸ h
/-- **A body is followed inside itself.** -/
theorem afterAll_inside (hn : Nested b.table) : (body : List Stmt) → {env env' : Env} →
    env.Inside b.table → b.afterAll body env = .ok env' → env'.Inside b.table
  | [], _, _, h, hs => Except.ok.inj hs ▸ h
  | s :: rest, _, _, h, hs => by
    obtain ⟨env', hs, hrest⟩ := afterAll_cons_eq_ok hs
    exact afterAll_inside hn rest (after_inside hn s h hs) hrest
end

theorem afterBlock_inside (hn : Nested b.table) (body : List Stmt) {span : Span} {env env' : Env}
    (h : env.Inside b.table) (hs : b.afterBlock body span env = .ok env') :
    env'.Inside b.table :=
  afterBlock_inside_of hn (afterAll_inside hn body) h hs

end Body

end Heritage
