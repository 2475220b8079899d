import Heritage.Proofs.Agreement
import Heritage.Proofs.Contents
import Heritage.Proofs.Representation

/-!
# The blocks around a point

An environment holds every variable declared so far, those of blocks that were
left long ago included, and finds a name by going through the scopes around the
point. `Env.blocks` is the same as a stack: one block for each scope around the
point, with the variables declared in it so far. Along a walk the stack is
pushed on when a block is entered, popped when it is left, and grows by one
variable with each declarator; a name denotes the variable that is found first
in it.

This rests on two facts about scopes. Those that a walk enters are all
different, since the collection numbered them one after the other, and they are
different from those around the point it begins at.
-/

namespace Heritage

open SymbolTable

/-! ## Opened scopes are numbered in order -/

namespace SymbolTable

/-- The scopes opened between two tables are numbered in order. -/
def Opens (t t' : SymbolTable) (opened : List BlockScope) : Prop :=
  opened.map Prod.snd = List.range' t.scopes.length opened.length
    ∧ t'.scopes.length = t.scopes.length + opened.length

variable {t t' t'' : SymbolTable}

theorem opens_nil (h : t'.scopes = t.scopes) : Opens t t' [] :=
  ⟨rfl, congrArg List.length h⟩

theorem Opens.append {opened opened' : List BlockScope} (h : Opens t t' opened)
    (h' : Opens t' t'' opened') : Opens t t'' (opened ++ opened') := by
  constructor
  · rw [List.map_append, h.1, h'.1, h.2, List.length_append, ← List.range'_append_1]
  · rw [h'.2, h.2, List.length_append, Nat.add_assoc]

theorem Opens.block {s : ScopeId} {body : List Stmt} {inner : List BlockScope}
    (h : Opens (t.openBlock s).2 t' inner) : Opens t t' ((body, t.scopes.length) :: inner) := by
  unfold Opens at *
  rw [openBlock_scopes_length] at h
  constructor
  · rw [List.map_cons, h.1]
    rfl
  · rw [h.2, List.length_cons, Nat.add_assoc, Nat.add_comm 1]

mutual
theorem openedStmt_opens (s : ScopeId) : (stmt : Stmt) → (t : SymbolTable) →
    Opens t (collectStmt s stmt t).table (openedStmt s stmt t)
  | .declare type vars span, t => opens_nil (declareLocals_scopes s type span vars t)
  | .ifThen _ body _ _, t => by
    unfold collectStmt openedStmt
    exact (openedStmts_opens _ body _).block
  | .ifElse _ body _ other _ _, t => by
    unfold collectStmt openedStmt
    exact (openedStmts_opens _ body _).block.append (openedStmts_opens _ other _).block
  | .loop _ body _ _, t => by
    unfold collectStmt openedStmt
    exact (openedStmts_opens _ body _).block
  | .ret _ _, _ => opens_nil rfl
  | .assign _ _ _, _ => opens_nil rfl
  | .eval _ _, _ => opens_nil rfl
/-- **Collecting a body numbers its blocks in the order of the text.** -/
theorem openedStmts_opens (s : ScopeId) : (body : List Stmt) → (t : SymbolTable) →
    Opens t (collectStmts s body t).table (openedStmts s body t)
  | [], _ => opens_nil rfl
  | stmt :: rest, t => (openedStmt_opens s stmt t).append (openedStmts_opens s rest _)
end

end SymbolTable

/-! ## The stack of blocks -/

namespace Env

/-- **The blocks around a point**, inner ones first, each with the variables
declared in it so far, the last one first. -/
def blocks (t : SymbolTable) (e : Env) : List (List VarId) :=
  e.frames.map fun f => e.visible.filter fun v => (t.varAt v).scope == f.scope

/-- The variable found first in a stack of blocks under a name. -/
def findIn (t : SymbolTable) (blocks : List (List VarId)) (name : String) : Option VarId :=
  blocks.findSome? fun block => block.find? fun v => (t.varAt v).name == name

/-- **An environment at the beginning of a walk** through some scopes: its
variables are in the table, and none of the scopes is around it or holds one of
them. -/
structure Sound (t : SymbolTable) (e : Env) (opened : List ScopeId) : Prop where
  /-- The variables are in the table. -/
  inside : ∀ v ∈ e.visible, v < t.vars.length
  /-- All scopes differ. -/
  apart : (e.frames.map (·.scope) ++ opened).Nodup
  /-- None of the variables is in a scope that is still to be entered. -/
  unseen : ∀ v ∈ e.visible, (t.varAt v).scope ∉ opened

variable {t : SymbolTable} {e : Env} {opened : List ScopeId}

/-- **A name denotes what is found first in the blocks.** -/
theorem lookup_eq_findIn (hf : Formed t) (hs : Sound t e opened) (name : String) :
    e.lookup t name = findIn t (e.blocks t) name := by
  unfold lookup findIn blocks
  rw [List.findSome?_map]
  refine congrArg (List.findSome? · e.frames) (funext fun f => ?_)
  unfold lookupFrame
  dsimp only [Function.comp_apply]
  refine Option.ext fun v => ?_
  rw [Option.filter_eq_some_iff, lookupIn_eq_some_iff hf]
  constructor
  · rintro ⟨⟨hlt, hscope, hname⟩, hv⟩
    have hmem : v ∈ e.visible.filter fun v => (t.varAt v).scope == f.scope :=
      List.mem_filter.mpr ⟨List.contains_iff_mem.mp hv, beq_iff_eq.mpr hscope⟩
    cases hfind : (e.visible.filter fun v => (t.varAt v).scope == f.scope).find?
        fun v => (t.varAt v).name == name with
    | none =>
      exact absurd (beq_iff_eq.mpr hname) (List.find?_eq_none.mp hfind v hmem)
    | some w =>
      have hw := List.mem_filter.mp (List.mem_of_find?_eq_some hfind)
      have hwname := beq_iff_eq.mp (List.find?_some (p := fun v => (t.varAt v).name == name) hfind)
      have hlook := (lookupIn_eq_some_iff hf).mpr
        ⟨hs.inside w hw.1, beq_iff_eq.mp hw.2, hwname⟩
      have hlook' := (lookupIn_eq_some_iff hf).mpr ⟨hlt, hscope, hname⟩
      exact hlook.symm.trans hlook'
  · intro hfind
    have hv := List.mem_filter.mp (List.mem_of_find?_eq_some hfind)
    have hname := beq_iff_eq.mp (List.find?_some (p := fun v => (t.varAt v).name == name) hfind)
    exact ⟨⟨hs.inside v hv.1, beq_iff_eq.mp hv.2, hname⟩, List.contains_iff_mem.mpr hv.1⟩

/-- Entering a block pushes it. -/
theorem blocks_inside {block : ScopeId} (hs : Sound t e (block :: opened)) :
    (e.inside block).blocks t = [] :: e.blocks t := by
  refine congrArg (· :: e.blocks t) (List.filter_eq_nil_iff.mpr fun v hv => ?_)
  rw [beq_iff_eq]
  intro heq
  exact hs.unseen v hv (heq ▸ List.mem_cons_self)

/-- Declaring a variable adds it to the innermost block. -/
theorem blocks_declare (hs : Sound t e opened) {v : VarId} (hv : (t.varAt v).scope = e.scope) :
    ∃ block outer, e.blocks t = block :: outer
      ∧ ({ e with visible := v :: e.visible } : Env).blocks t = (v :: block) :: outer := by
  refine ⟨_, _, rfl, ?_⟩
  have hapart := (List.nodup_cons.mp (List.nodup_append.mp hs.apart).1).1
  show List.filter _ (v :: e.visible) :: List.map _ e.outer = _
  refine congrArg₂ List.cons (List.filter_cons_of_pos (beq_iff_eq.mpr hv))
    (List.map_congr_left fun f hf => List.filter_cons_of_neg ?_)
  rw [beq_iff_eq, hv]
  exact fun heq => hapart (List.mem_map.mpr ⟨f, hf, heq.symm⟩)

/-- Leaving a block pops it, and with it all that was declared inside. -/
theorem blocks_behind {visible news : List VarId} (hvis : visible = news ++ e.visible)
    (hnews : ∀ v ∈ news, (t.varAt v).scope ∉ e.frames.map (·.scope)) :
    (e.behind visible).blocks t = e.blocks t := by
  have hframe : ∀ s ∈ e.frames.map (·.scope),
      visible.filter (fun v => (t.varAt v).scope == s)
        = e.visible.filter fun v => (t.varAt v).scope == s := by
    intro s hs
    rw [hvis, List.filter_append, List.filter_eq_nil_iff.mpr, List.nil_append]
    intro v hv heq
    exact hnews v hv (beq_iff_eq.mp heq ▸ hs)
  unfold blocks
  show (_ :: List.map _ e.outer) = _ :: _
  refine congrArg₂ List.cons (hframe _ List.mem_cons_self) (List.map_congr_left fun f hf => ?_)
  exact hframe _ (List.mem_cons_of_mem _ (List.mem_map.mpr ⟨f, hf, rfl⟩))

/-! ## Steps of a walk -/

theorem Sound.declare (hs : Sound t e opened) {v : VarId} (hv : v < t.vars.length)
    (hscope : (t.varAt v).scope = e.scope) :
    Sound t { e with visible := v :: e.visible } opened where
  inside := List.forall_mem_cons.mpr ⟨hv, hs.inside⟩
  apart := hs.apart
  unseen := by
    refine List.forall_mem_cons.mpr ⟨fun hmem => ?_, hs.unseen⟩
    rw [hscope] at hmem
    exact (List.nodup_cons.mp hs.apart).1 (List.mem_append_right _ hmem)

/-- What a walk declares: variables of the table, each in the scope it began in
or in one that it entered. -/
def Declares (t : SymbolTable) (s : ScopeId) (opened : List ScopeId) (news : List VarId) : Prop :=
  ∀ v ∈ news, v < t.vars.length ∧ ((t.varAt v).scope = s ∨ (t.varAt v).scope ∈ opened)

/-- What declarators declare leaves an environment sound. -/
theorem Sound.declareAll (hs : Sound t e opened) {visible news : List VarId}
    (hvis : visible = news ++ e.visible) (hnews : Declares t e.scope [] news) :
    Sound t { e with visible := visible } opened where
  inside := fun v hv =>
    (List.mem_append.mp (hvis ▸ hv)).elim (fun hv => (hnews v hv).1) (hs.inside v)
  apart := hs.apart
  unseen := by
    intro v hv hmem
    rcases List.mem_append.mp (hvis ▸ hv) with hv | hv
    · rw [(hnews v hv).2.resolve_right List.not_mem_nil] at hmem
      exact (List.nodup_cons.mp hs.apart).1 (List.mem_append_right _ hmem)
    · exact hs.unseen v hv hmem

theorem Sound.inner {block : ScopeId} {inner rest : List ScopeId}
    (hs : Sound t e (block :: (inner ++ rest))) : Sound t (e.inside block) inner where
  inside := hs.inside
  apart := by
    have hapart := List.nodup_middle.mp hs.apart
    rw [← List.append_assoc, ← List.cons_append] at hapart
    exact (List.nodup_append.mp hapart).1
  unseen := fun v hv hmem =>
    hs.unseen v hv (List.mem_cons_of_mem _ (List.mem_append_left _ hmem))

/-- What a block and then the rest of a walk declare. -/
theorem Declares.block {s block : ScopeId} {inner rest : List ScopeId}
    {visible visible' visible'' : List VarId}
    (h : ∃ news, visible' = news ++ visible ∧ Declares t block inner news)
    (h' : ∃ news, visible'' = news ++ visible' ∧ Declares t s rest news) :
    ∃ news, visible'' = news ++ visible ∧ Declares t s (block :: inner ++ rest) news := by
  obtain ⟨news, rfl, hnews⟩ := h
  obtain ⟨more, rfl, hmore⟩ := h'
  refine ⟨more ++ news, (List.append_assoc ..).symm, fun v hv => ?_⟩
  rcases List.mem_append.mp hv with hv | hv
  · exact (hmore v hv).imp id (Or.imp id (List.mem_append_right _))
  · refine (hnews v hv).imp id fun hin => Or.inr (List.mem_append_left _ ?_)
    exact List.mem_cons.mpr hin

/-- **Behind a block the stack is what it was before it**, and the scopes that
are still to be entered are as new. -/
theorem Sound.behind {block : ScopeId} {inner rest : List ScopeId}
    (hs : Sound t e (block :: (inner ++ rest))) {visible news : List VarId}
    (hvis : visible = news ++ e.visible) (hnews : Declares t block inner news) :
    Sound t (e.behind visible) rest ∧ (e.behind visible).blocks t = e.blocks t := by
  have hmem : ∀ v ∈ news, (t.varAt v).scope ∈ block :: inner := by
    intro v hv
    rcases (hnews v hv).2 with heq | hin
    · exact heq ▸ List.mem_cons_self
    · exact List.mem_cons_of_mem _ hin
  have hsplit : (e.frames.map (·.scope) ++ (block :: inner ++ rest)).Nodup := hs.apart
  obtain ⟨-, hright, hframes⟩ := List.nodup_append.mp hsplit
  obtain ⟨-, -, hrest⟩ := List.nodup_append.mp hright
  refine ⟨⟨fun v hv => ?_, ?_, fun v hv hin => ?_⟩, blocks_behind hvis fun v hv hin => ?_⟩
  · rcases List.mem_append.mp (hvis ▸ hv) with hv | hv
    · exact (hnews v hv).1
    · exact hs.inside v hv
  · exact hsplit.sublist ((List.sublist_append_right _ _).append_left _)
  · rcases List.mem_append.mp (hvis ▸ hv) with hv | hv
    · exact hrest _ (hmem v hv) _ hin rfl
    · exact hs.unseen v hv (List.mem_cons_of_mem _ (List.mem_append_right _ hin))
  · exact hframes _ hin _ (List.mem_append_left _ (hmem v hv)) rfl

end Env

/-! ## What a walk declares -/

namespace Body

variable {b : Body} {D : ScopeId → Ident → Declarator → Prop}

/-- Declarators declare variables of the innermost scope. -/
theorem afterVars_visible (hf : Formed b.table) (vars : List Declarator) {env : Env}
    {visible : List VarId} (h : b.afterVars vars env = .ok { env with visible := visible }) :
    ∃ news, visible = news ++ env.visible ∧ Env.Declares b.table env.scope [] news := by
  induction vars generalizing env with
  | nil =>
    have heq := congrArg Env.visible (Except.ok.inj h)
    exact ⟨[], heq.symm, fun v hv => (List.not_mem_nil hv).elim⟩
  | cons v rest ih =>
    unfold afterVars afterVar at h
    cases hid : b.table.lookupIn env.scope v.name.text with
    | none =>
      rw [hid] at h
      cases h
    | some id =>
      rw [hid, Env.declare_eq hid] at h
      obtain ⟨news, hvis, hnews⟩ := ih h
      obtain ⟨hlt, hscope, -⟩ := (lookupIn_eq_some_iff hf).mp hid
      refine ⟨news ++ [id], ?_, fun w hw => ?_⟩
      · rw [hvis, List.append_assoc]
        rfl
      · rcases List.mem_append.mp hw with hw | hw
        · exact hnews w hw
        · rw [List.mem_singleton.mp hw]
          exact ⟨hlt, Or.inl hscope⟩

/-- **What a walk declares** stands in the scope it began in or in one that it
entered. -/
theorem Follows.visible_eq (hf : Formed b.table) {body : List Stmt} {env env' : Env}
    {opened : List BlockScope} (h : Follows b D body env env' opened) :
    ∃ news, env'.visible = news ++ env.visible
      ∧ Env.Declares b.table env.scope (opened.map Prod.snd) news := by
  induction h with
  | nil => exact ⟨[], rfl, fun v hv => (List.not_mem_nil hv).elim⟩
  | declare _ hvars _ ih =>
    obtain ⟨news, hvis, hnews⟩ := afterVars_visible hf _ hvars
    obtain ⟨more, hvis', hmore⟩ := ih
    refine ⟨more ++ news, ?_, fun v hv => ?_⟩
    · rw [hvis', List.append_assoc]
      exact congrArg (more ++ ·) hvis
    · rcases List.mem_append.mp hv with hv | hv
      · exact hmore v hv
      · exact ⟨(hnews v hv).1, Or.inl ((hnews v hv).2.resolve_right List.not_mem_nil)⟩
  | ifThen _ _ _ ihIn ih =>
    rw [List.map_append]
    exact Env.Declares.block ihIn ih
  | ifElse _ _ _ _ ihIn ihIn' ih =>
    rw [List.append_assoc, List.map_append, List.map_append]
    exact Env.Declares.block ihIn (Env.Declares.block ihIn' ih)
  | loop _ _ _ ihIn ih =>
    rw [List.map_append]
    exact Env.Declares.block ihIn ih
  | ret _ ih => exact ih
  | assign _ ih => exact ih
  | eval _ ih => exact ih

/-- **A block of a walk**: inside it the stack is the one before it with an empty
block pushed, and behind it the stack is the one before it. -/
theorem Follows.blocks_block (hf : Formed b.table) {body : List Stmt} {env e : Env}
    {block : ScopeId} {inner opened : List BlockScope}
    (inside : Follows b D body (env.inside block) e inner)
    (hs : env.Sound b.table (((body, block) :: inner ++ opened).map Prod.snd)) :
    (env.inside block).Sound b.table (inner.map Prod.snd)
      ∧ (env.inside block).blocks b.table = [] :: env.blocks b.table
      ∧ (env.behind e.visible).Sound b.table (opened.map Prod.snd)
      ∧ (env.behind e.visible).blocks b.table = env.blocks b.table := by
  rw [List.map_append] at hs
  have hs : env.Sound b.table (block :: (inner.map Prod.snd ++ opened.map Prod.snd)) := hs
  obtain ⟨news, hvis, hnews⟩ := inside.visible_eq hf
  obtain ⟨hbehind, hblocks⟩ := hs.behind hvis hnews
  exact ⟨hs.inner, Env.blocks_inside hs, hbehind, hblocks⟩

theorem afterVars_forall {P : VarId → Prop} (vars : List Declarator) {env env' : Env}
    (held : ∀ v ∈ vars, ∀ id, b.table.lookupIn env.scope v.name.text = some id → P id)
    (hvis : ∀ v ∈ env.visible, P v) (h : b.afterVars vars env = .ok env') :
    ∀ v ∈ env'.visible, P v := by
  induction vars generalizing env with
  | nil =>
    obtain rfl := Except.ok.inj h
    exact hvis
  | cons v rest ih =>
    unfold afterVars afterVar at h
    cases hid : b.table.lookupIn env.scope v.name.text with
    | none =>
      rw [hid] at h
      cases h
    | some id =>
      rw [hid, Env.declare_eq hid] at h
      have hid := held v List.mem_cons_self id hid
      exact @ih { env with visible := id :: env.visible }
        (fun w hw => held w (List.mem_cons_of_mem v hw)) (List.forall_mem_cons.mpr ⟨hid, hvis⟩) h

/-- **What holds of the variables of an environment, and of the locals of a walk,
holds of the variables behind the walk.** -/
theorem Follows.visible_forall {P : VarId → Prop}
    (held : ∀ {s type v id}, D s type v → b.table.lookupIn s v.name.text = some id → P id)
    {body : List Stmt} {env env' : Env} {opened : List BlockScope}
    (h : Follows b D body env env' opened) (hvis : ∀ v ∈ env.visible, P v) :
    ∀ v ∈ env'.visible, P v := by
  induction h with
  | nil => exact hvis
  | declare hvars vars_ok _ ih =>
    exact ih (afterVars_forall _ (fun v hv _ hid => held (hvars v hv) hid) hvis vars_ok)
  | ifThen _ _ _ ihIn ih => exact ih (ihIn hvis)
  | ifElse _ _ _ _ ihIn ihIn' ih => exact ih (ihIn' (ihIn hvis))
  | loop _ _ _ ihIn ih => exact ih (ihIn hvis)
  | ret _ ih => exact ih hvis
  | assign _ ih => exact ih hvis
  | eval _ ih => exact ih hvis

end Body

/-! ## Where a walk begins -/

variable {p : Program} {r : Registered}

/-- **The body of a registered method begins with its parameters**, and none of
its blocks is entered. -/
theorem sound_start (h : r ∈ registered p) {u : SymbolTable}
    (hu : u.declared = (collect p).table.declared) :
    Env.Sound u (Body.start ⟨u, r.method⟩) (r.opened.map Prod.snd) := by
  obtain ⟨t, c, decl, index, v⟩ := visited p h
  obtain ⟨t₁, -, -, hlen, hopened, -, -⟩ := v.body
  have hm := methodAt_of_declared hu r.method
  rw [v.methodAt.2] at hm
  have hscope : (u.methodAt r.method).scope = t.scopes.length := congrArg MethodSymbol.scope hm
  have hrange : ∀ s ∈ r.opened.map Prod.snd, t.scopes.length < s := by
    intro s hs
    rw [hopened, (openedStmts_opens _ _ t₁).1, hlen] at hs
    exact (List.mem_range'_1.mp hs).1
  have hparam : ∀ v ∈ u.paramsOf r.method,
      v < u.vars.length ∧ (u.varAt v).scope = t.scopes.length := by
    intro v hv
    obtain ⟨hlt, hin, -⟩ := mem_paramsOf.mp hv
    exact ⟨hlt, hin.trans hscope⟩
  refine ⟨fun v hv => (hparam v hv).1, ?_, fun v hv hin => ?_⟩
  · show ((u.methodAt r.method).scope :: r.opened.map Prod.snd).Nodup
    rw [hscope]
    refine List.nodup_cons.mpr ⟨fun hin => Nat.lt_irrefl _ (hrange _ hin), ?_⟩
    rw [hopened, (openedStmts_opens _ _ t₁).1]
    exact List.nodup_range'
  · rw [(hparam v hv).2] at hin
    exact Nat.lt_irrefl _ (hrange _ hin)

end Heritage
