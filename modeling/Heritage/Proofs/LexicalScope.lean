import Heritage.Proofs.Binding
import Heritage.Proofs.Conversions

/-!
# Environments are lexical

An environment does not hold what is in scope. It holds every variable that was
declared so far, in which block it may have been, and the scopes around the
point, each with a count of the blocks that were entered from it; a name is
looked for in one scope after the other among the variables declared. Here
blocks are entered and left and variables declared in any order, whether or not
a body does it so: blocks may be left early, entered too often, and locals
declared at any time or never. Whatever is done, a name denotes what it denotes
in a stack of environments, which keeps for each block around the point what was
declared in it since it was entered, and forgets it when the block is left.

The stack forgets and the environment does not. It makes no difference because
no block is ever entered a second time: the scopes below a method are numbered
in the order of the text, and a walk that leaves a block leaves all that is below
it behind. So every scope that can still be entered has a greater number than
all that were (`Walk.Lexical.sorted`).
-/

namespace Heritage

open SymbolTable

/-! ## Walks of any kind -/

/-- **A stack of environments**, inner ones first: for each block what its names
denote, the last declaration first. -/
abbrev Stack := List (List (String × VarId))

namespace Stack

/-- The variable a name denotes, from the innermost environment that has one. -/
def lookup (st : Stack) (name : String) : Option VarId :=
  st.findSome? fun env => env.lookup name

/-- Drop the innermost environment, unless it is the last. -/
def pop : Stack → Stack
  | _ :: env :: rest => env :: rest
  | st => st

/-- Let a name denote a variable in the innermost environment. -/
def bind (name : String) (v : VarId) : Stack → Stack
  | env :: rest => ((name, v) :: env) :: rest
  | [] => []

/-- The stack of blocks of variables. -/
def ofBlocks (t : SymbolTable) (blocks : List (List VarId)) : Stack :=
  blocks.map fun block => block.map fun v => ((t.varAt v).name, v)

theorem lookup_ofBlocks (t : SymbolTable) (blocks : List (List VarId)) (name : String) :
    (ofBlocks t blocks).lookup name = Env.findIn t blocks name := by
  unfold lookup ofBlocks Env.findIn
  rw [List.findSome?_map]
  refine congrArg (List.findSome? · blocks) (funext fun block => ?_)
  show (block.map fun v => ((t.varAt v).name, v)).lookup name = _
  induction block with
  | nil => rfl
  | cons v rest ih =>
    rw [List.map_cons, List.lookup_cons, List.find?_cons, ih, BEq.comm]

end Stack

/-- What can be done with an environment. -/
inductive Action where
  /-- Enter the next block. -/
  | enter (span : Span)
  /-- Leave the innermost block. -/
  | leave
  /-- Declare the variable with a name. -/
  | declare (name : String)

/-- **A walk**: the environment, the scopes that were entered so far, in order,
and the stack of environments that is kept beside it. -/
structure Walk where
  /-- The environment. -/
  env : Env
  /-- The scopes of the blocks that were entered. -/
  entered : List ScopeId
  /-- The stack of environments. -/
  stack : Stack

namespace Walk

/-- The beginning of a method: nothing is entered, and its parameters are
declared. -/
def start (t : SymbolTable) (m : MethodId) : Walk where
  env := Env.ofMethod t m
  entered := []
  stack := [(t.paramsOf m).map fun v => ((t.varAt v).name, v)]

/-- Do one thing. Where there is no block to be entered, nothing is done. -/
def step (t : SymbolTable) (w : Walk) : Action → Walk
  | .enter span =>
    match w.env.enter t span with
    | .error _ => w
    | .ok env => { env, entered := w.entered ++ [env.scope], stack := [] :: w.stack }
  | .leave => { w with env := w.env.leave, stack := w.stack.pop }
  | .declare name =>
    { w with
      env := w.env.declare t name
      stack := ((t.lookupIn w.env.scope name).map fun v => w.stack.bind name v).getD w.stack }

/-- Do one thing after the other from the beginning of a method. -/
def run (t : SymbolTable) (m : MethodId) (actions : List Action) : Walk :=
  actions.foldl (step t) (start t m)

end Walk

/-! ## What can still be entered -/

namespace SymbolTable

variable {t : SymbolTable}

/-- **Scopes and all that is below them**, in the order of the text. -/
inductive Forest (t : SymbolTable) : List ScopeId → List ScopeId → Prop where
  | nil : Forest t [] []
  | cons {b : ScopeId} {rest inner below : List ScopeId} (inside : Forest t (t.childrenOf b) inner)
      (tail : Forest t rest below) : Forest t (b :: rest) (b :: inner ++ below)

theorem Mirrors.forest {D : ScopeId → Ident → Declarator → Prop} {s : ScopeId} {body : List Stmt}
    {blocks : List ScopeId} {opened : List BlockScope} (h : Mirrors t D s body blocks opened) :
    Forest t blocks (opened.map Prod.snd) := by
  induction h with
  | nil => exact .nil
  | declare _ _ ih => exact ih
  | ifThen _ _ ihIn ih => simpa using Forest.cons ihIn ih
  | ifElse _ _ _ ihIn ihIn' ih => simpa using Forest.cons ihIn (Forest.cons ihIn' ih)
  | loop _ _ ihIn ih => simpa using Forest.cons ihIn ih
  | ret _ ih => exact ih
  | assign _ ih => exact ih
  | eval _ ih => exact ih

/-- **What can still be entered** from frames, inner ones first: the blocks that
each has left, and all that is below them. -/
inductive Ahead (t : SymbolTable) : List Frame → List ScopeId → Prop where
  | nil : Ahead t [] []
  | cons {f : Frame} {fs : List Frame} {below pending : List ScopeId}
      (inside : Forest t ((t.childrenOf f.scope).drop f.entered) below)
      (around : Ahead t fs pending) : Ahead t (f :: fs) (below ++ pending)

/-- **Entering a block takes it from what can still be entered**, and nothing
else. -/
theorem Ahead.enter {f : Frame} {fs : List Frame} {pending : List ScopeId} {block : ScopeId}
    (h : Ahead t (f :: fs) pending) (hblock : (t.childrenOf f.scope)[f.entered]? = some block) :
    ∃ rest, pending = block :: rest
      ∧ Ahead t ({ scope := block } :: { f with entered := f.entered + 1 } :: fs) rest := by
  obtain ⟨hlt, hget⟩ := List.getElem?_eq_some_iff.mp hblock
  cases h with
  | cons inside around =>
    rw [List.drop_eq_getElem_cons hlt, hget] at inside
    cases inside with
    | cons inner tail =>
      exact ⟨_, List.append_assoc .., .cons inner (.cons tail around)⟩

end SymbolTable

/-! ## What a walk keeps -/

namespace Walk

variable {t : SymbolTable} {s : ScopeId} {w : Walk} {pending : List ScopeId}

/-- One scope stands directly in another. -/
def StandsIn (t : SymbolTable) (inner outer : ScopeId) : Prop :=
  (t.scopeAt inner).parent = some outer

/-- **A walk through the body of a scope**, with the scopes that it can still
enter. -/
structure Lexical (t : SymbolTable) (s : ScopeId) (w : Walk) (pending : List ScopeId) : Prop where
  /-- These can still be entered. -/
  ahead : Ahead t w.env.frames pending
  /-- What was entered comes before what can be entered, in the order of the
  text. -/
  sorted : (s :: w.entered ++ pending).Pairwise (· < ·)
  /-- The scopes around the point were entered, from outside to inside. -/
  around : (w.env.frames.map (·.scope)).reverse.Sublist (s :: w.entered)
  /-- The scopes around the point stand in each other. -/
  chain : (w.env.frames.map (·.scope)).IsChain (StandsIn t)
  /-- The outermost one is that of the body. -/
  outermost : (w.env.frames.map (·.scope)).getLast? = some s
  /-- The variables are in the table, and their scopes were entered. -/
  visible : ∀ v ∈ w.env.visible, v < t.vars.length ∧ (t.varAt v).scope ∈ s :: w.entered
  /-- The stack holds the blocks around the point. -/
  stack_eq : w.stack = Stack.ofBlocks t (w.env.blocks t)

/-- What was entered is not entered again. -/
theorem Lexical.sound (h : Lexical t s w pending) : w.env.Sound t pending where
  inside := fun v hv => (h.visible v hv).1
  apart := by
    obtain ⟨hentered, hpending, hlt⟩ := List.pairwise_append.mp h.sorted
    have hframes := (List.nodup_reverse (l := w.env.frames.map (·.scope))).mp
      (h.around.nodup (hentered.imp Nat.ne_of_lt))
    refine List.nodup_append.mpr ⟨hframes, hpending.imp Nat.ne_of_lt, fun a ha b hb => ?_⟩
    exact Nat.ne_of_lt (hlt a (h.around.subset (List.mem_reverse.mpr ha)) b hb)
  unseen := fun v hv hin =>
    Nat.lt_irrefl _ ((List.pairwise_append.mp h.sorted).2.2 _ (h.visible v hv).2 _ hin)

/-- **Entering a block.** -/
theorem Lexical.enter (h : Lexical t s w pending) {block : ScopeId}
    (hblock : (t.childrenOf w.env.scope)[w.env.top.entered]? = some block) :
    ∃ rest, Lexical t s ⟨w.env.inside block, w.entered ++ [block], [] :: w.stack⟩ rest := by
  obtain ⟨rest, rfl, hahead⟩ := h.ahead.enter hblock
  obtain ⟨k, hk, hparent⟩ := mem_positions.mp (List.mem_of_getElem? hblock)
  refine ⟨rest, ⟨hahead, ?_, ?_, ?_, ?_, fun v hv => ?_, ?_⟩⟩
  · show (s :: (w.entered ++ [block]) ++ rest).Pairwise (· < ·)
    rw [← List.cons_append, List.append_assoc]
    exact h.sorted
  · show (block :: w.env.frames.map (·.scope)).reverse.Sublist (s :: (w.entered ++ [block]))
    rw [List.reverse_cons, ← List.cons_append]
    exact h.around.append (List.Sublist.refl _)
  · refine List.IsChain.cons_cons ?_ h.chain
    show (t.scopeAt block).parent = some w.env.scope
    rw [scopeAt, getD_of_eq_some hk]
    exact beq_iff_eq.mp hparent
  · show (block :: w.env.frames.map (·.scope)).getLast? = some s
    rw [List.getLast?_cons, h.outermost]
    rfl
  · exact (h.visible v hv).imp id fun hin => by
      rw [← List.cons_append]
      exact List.mem_append_left _ hin
  · show [] :: w.stack = _
    rw [Env.blocks_inside h.sound, h.stack_eq]
    rfl

/-- **Leaving a block.** What is left behind can no longer be entered. -/
theorem Lexical.leave (h : Lexical t s w pending) :
    ∃ rest, Lexical t s ⟨w.env.leave, w.entered, w.stack.pop⟩ rest := by
  obtain ⟨⟨top, outer, visible⟩, entered, stack⟩ := w
  cases outer with
  | nil =>
    -- The scope of the body is never left.
    exact ⟨pending, h.ahead, h.sorted, h.around, h.chain, h.outermost, h.visible,
      congrArg Stack.pop h.stack_eq⟩
  | cons f fs =>
    obtain ⟨ahead, sorted, around, chain, outermost, visible, stack_eq⟩ := h
    cases ahead with
    | @cons _ _ below rest inside after =>
      refine ⟨rest, after, ?_, ?_, List.IsChain.of_cons chain, ?_, visible,
        congrArg Stack.pop stack_eq⟩
      · exact sorted.sublist ((List.sublist_append_right below rest).append_left _)
      · refine List.Sublist.trans ?_ around
        exact (List.sublist_cons_self top.scope _).reverse
      · exact List.getLast?_cons_cons.symm.trans outermost

/-- **Declaring a variable.** -/
theorem Lexical.declare (h : Lexical t s w pending) (hf : Formed t) {name : String} {v : VarId}
    (hv : t.lookupIn w.env.scope name = some v) :
    Lexical t s ⟨{ w.env with visible := v :: w.env.visible }, w.entered, w.stack.bind name v⟩
      pending := by
  obtain ⟨hlt, hscope, hname⟩ := (lookupIn_eq_some_iff hf).mp hv
  refine ⟨h.ahead, h.sorted, h.around, h.chain, h.outermost, ?_, ?_⟩
  · refine List.forall_mem_cons.mpr ⟨⟨hlt, hscope ▸ h.around.subset ?_⟩, h.visible⟩
    exact List.mem_reverse.mpr List.mem_cons_self
  · obtain ⟨block, outer, hblocks, hblocks'⟩ := Env.blocks_declare h.sound hscope
    show w.stack.bind name v = _
    rw [h.stack_eq, hblocks, hblocks', ← hname]
    rfl

/-- **One step.** -/
theorem Lexical.step (h : Lexical t s w pending) (hf : Formed t) (a : Action) :
    ∃ rest, Lexical t s (w.step t a) rest := by
  cases a with
  | enter span =>
    unfold Walk.step Env.enter
    cases hblock : (t.childrenOf w.env.scope)[w.env.top.entered]? with
    | none => exact ⟨pending, h⟩
    | some block => exact h.enter hblock
  | leave => exact h.leave
  | declare name =>
    show ∃ rest, Lexical t s ⟨w.env.declare t name, w.entered, _⟩ rest
    unfold Env.declare
    cases hv : t.lookupIn w.env.scope name with
    | none => exact ⟨pending, h⟩
    | some v => exact ⟨pending, h.declare hf hv⟩

/-- **Any number of steps.** -/
theorem Lexical.steps (hf : Formed t) (actions : List Action) (h : Lexical t s w pending) :
    ∃ rest, Lexical t s (actions.foldl (Walk.step t) w) rest := by
  induction actions generalizing w pending with
  | nil => exact ⟨pending, h⟩
  | cons a rest ih =>
    obtain ⟨pending', h'⟩ := h.step hf a
    exact ih h'

end Walk

/-! ## The beginning of a method -/

variable {p : Program} {u : SymbolTable}

theorem SymbolTable.Forest.of_declared {t : SymbolTable} {blocks below : List ScopeId}
    (h : Forest t blocks below) (hu : u.declared = t.declared) : Forest u blocks below := by
  induction h with
  | nil => exact .nil
  | cons _ _ ihIn ih => exact .cons (childrenOf_of_declared hu _ ▸ ihIn) ih

/-- **The blocks of a method are numbered in the order of the text**, after the
method. -/
theorem forest_of_method (hu : u.declared = (collect p).table.declared) {m : MethodId}
    (hm : m < (collect p).table.methods.length) :
    ∃ pending, Forest u (u.childrenOf (u.methodAt m).scope) pending
      ∧ ((u.methodAt m).scope :: pending).Pairwise (· < ·) := by
  obtain ⟨r, hr, rfl⟩ := List.mem_map.mp (registered_methods p ▸ List.mem_range.mpr hm)
  obtain ⟨t, c, decl, index, v⟩ := visited p hr
  obtain ⟨t₁, -, -, hlen, hopened, -, -⟩ := v.body
  have hscope : (u.methodAt r.method).scope = t.scopes.length := by
    have hm := methodAt_of_declared hu r.method
    rw [v.methodAt.2] at hm
    exact congrArg MethodSymbol.scope hm
  refine ⟨r.opened.map Prod.snd, ?_, ?_⟩
  · rw [hscope, childrenOf_of_declared hu]
    exact v.mirrors.forest.of_declared hu
  · rw [hscope, hopened, (openedStmts_opens _ _ t₁).1, hlen]
    exact List.pairwise_lt_range' (s := t.scopes.length)
      (n := (openedStmts t.scopes.length r.decl.body t₁).length + 1)

theorem lexical_start (hu : u.declared = (collect p).table.declared) {m : MethodId}
    (hm : m < (collect p).table.methods.length) :
    ∃ pending, Walk.Lexical u (u.methodAt m).scope (Walk.start u m) pending := by
  obtain ⟨pending, hforest, hsorted⟩ := forest_of_method hu hm
  have hparam : ∀ v ∈ u.paramsOf m,
      v < u.vars.length ∧ (u.varAt v).scope = (u.methodAt m).scope := by
    intro v hv
    obtain ⟨hlt, hin, -⟩ := mem_paramsOf.mp hv
    exact ⟨hlt, hin⟩
  refine ⟨pending ++ [], .cons hforest .nil, ?_, ?_, .singleton _, rfl, fun v hv => ?_, ?_⟩
  · rw [List.append_nil]
    exact hsorted
  · exact List.Sublist.refl _
  · exact ⟨(hparam v hv).1, List.mem_singleton.mpr (hparam v hv).2⟩
  · have hall : (u.paramsOf m).filter (fun v => (u.varAt v).scope == (u.methodAt m).scope)
        = u.paramsOf m := List.filter_eq_self.mpr fun v hv => beq_iff_eq.mpr (hparam v hv).2
    exact congrArg (fun params => Stack.ofBlocks u [params]) hall.symm

/-- **What a table finds as a field is one.** -/
theorem SymbolTable.Fresh.kind_of_findField {t : SymbolTable} (h : Fresh t) (hf : Formed t)
    {c : ClassId} {name : String} {v : VarId} (hv : t.resolve.table.findField c name = some v) :
    (t.resolve.table.varAt v).kind = .field := by
  obtain ⟨o, ho, -⟩ := h.converts_of_findField hf hv
  unfold fieldOwner at ho
  by_contra hkind
  rw [if_neg hkind] at ho
  cases ho

/-! ## Names denote what they denote in the stack -/

/-- What a name denotes in a stack was bound to it in one of the environments. -/
theorem Stack.mem_of_lookup {st : Stack} {name : String} {v : VarId}
    (h : st.lookup name = some v) : ∃ env ∈ st, (name, v) ∈ env := by
  obtain ⟨env, henv, hlook⟩ := List.exists_of_findSome?_eq_some h
  obtain ⟨l₁, l₂, rfl, -⟩ := List.lookup_eq_some_iff.mp hlook
  exact ⟨_, henv, List.mem_append_right _ List.mem_cons_self⟩

theorem SymbolTable.variableNamed_eq_ok_iff {t : SymbolTable} {env : Env} {cls : ClassId}
    {name : String} {span : Span} {v : VarId} :
    t.variableNamed env cls name span = .ok v
      ↔ (env.lookup t name).or (t.findField cls name) = some v := by
  unfold variableNamed
  cases (env.lookup t name).or (t.findField cls name) with
  | some w => simp
  | none =>
    dsimp only
    split <;> simp

/-- **Environments are lexical.** Whatever is done with the environment of a
method, there are scopes around the point, each stands in the next, and the last
is that of the method; every scope that is entered has a greater number than
those before it, so none is entered twice; and a name is looked up as in the
stack of environments. So a name in a class denotes the innermost variable that
was declared in a block around the point, and if there is none the field of the
class; and a variable that is no field only if the stack holds it, so if it was
declared and its block was not left since. -/
theorem environments_are_lexical (p : Program) {m : MethodId}
    (hm : m < (collect p).table.resolve.table.methods.length) (actions : List Action) :
    let t := (collect p).table.resolve.table
    let w := Walk.run t m actions
    w.env.frames ≠ []
      ∧ (w.env.frames.map (·.scope)).IsChain (Walk.StandsIn t)
      ∧ (w.env.frames.map (·.scope)).getLast? = some (t.methodAt m).scope
      ∧ w.entered.Nodup
      ∧ w.entered.Pairwise (· < ·)
      ∧ (∀ name, w.env.lookup t name = w.stack.lookup name)
      ∧ (∀ cls name span v, t.variableNamed w.env cls name span = .ok v
          ↔ (w.stack.lookup name).or (t.findField cls name) = some v)
      ∧ ∀ cls name span v, t.variableNamed w.env cls name span = .ok v →
          (t.varAt v).kind ≠ .field → ∃ env ∈ w.stack, (name, v) ∈ env := by
  intro t w
  have hu : t.declared = (collect p).table.declared := resolve_declared _
  have hf : Formed t := (collect_formed p).of_declared hu
  obtain ⟨pending, hstart⟩ := lexical_start hu (methods_length_of_declared hu ▸ hm)
  obtain ⟨rest, h⟩ : ∃ rest, w.Lexical t (t.methodAt m).scope rest := hstart.steps hf actions
  have hlook : ∀ name, w.env.lookup t name = w.stack.lookup name := by
    intro name
    rw [Env.lookup_eq_findIn hf h.sound, ← Stack.lookup_ofBlocks, ← h.stack_eq]
  have hsorted := (List.pairwise_cons.mp (List.pairwise_append.mp h.sorted).1).2
  have hnamed : ∀ cls name span v, t.variableNamed w.env cls name span = .ok v
      ↔ (w.stack.lookup name).or (t.findField cls name) = some v := by
    intro cls name span v
    rw [variableNamed_eq_ok_iff, hlook]
  refine ⟨List.cons_ne_nil _ _, h.chain, h.outermost, hsorted.imp Nat.ne_of_lt, hsorted, hlook,
    hnamed, fun cls name span v hv hkind => ?_⟩
  rcases Option.or_eq_some_iff.mp ((hnamed cls name span v).mp hv) with hlocal | ⟨-, hfield⟩
  · exact Stack.mem_of_lookup hlocal
  · exact absurd ((collect_fresh p).kind_of_findField (collect_formed p) hfield) hkind

/-- **A variable hides another one of its name until its block is left**: here a
block declares `x` again, and is left. -/
theorem environments_are_lexical_shadowing :
    let t := (collect shadowing).table.resolve.table
    let inner := [Action.declare "x", .enter {}, .declare "x"]
    0 < t.methods.length
      ∧ (Walk.run t 0 inner).stack = [[("x", 2)], [("x", 1), ("self", 0)]]
      ∧ (Walk.run t 0 inner).env.lookup t "x" = some 2
      ∧ (Walk.run t 0 (inner ++ [.leave])).env.lookup t "x" = some 1 := by
  have hm : 0 < (collect shadowing).table.resolve.table.methods.length := by decide +kernel
  have inner := (environments_are_lexical shadowing hm
    [Action.declare "x", .enter {}, .declare "x"]).2.2.2.2.2.1 "x"
  have outer := (environments_are_lexical shadowing hm
    ([Action.declare "x", .enter {}, .declare "x"] ++ [.leave])).2.2.2.2.2.1 "x"
  exact ⟨hm, by decide +kernel, inner.trans (by decide +kernel), outer.trans (by decide +kernel)⟩

end Heritage
