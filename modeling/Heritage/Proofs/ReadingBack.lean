import Heritage.Proofs.Collisions
import Heritage.Proofs.ExprTrees
import Heritage.Proofs.Unambiguous

/-!
# Reading expressions back

The texts that are written for expressions are read by C, which sees no
expression but only tokens, and has rules of its own about what belongs together.
A text is read as it was meant if the grammar gives it the tree of its expression
and no other (`C.ReadsAs`).

What the grammar cannot know is which words name types. These are the names of the
classes, but inside a function a variable that is spelled like a class hides it,
and the parenthesis before a construction of the class then opens no type. Apart
from that, every text in a body that is accepted is read as it was meant:
conditions, values that are stored, passed and returned, what is assigned to, and
every operand, receiver and argument on its own
(`expressions_read_back_unless_hidden`).
-/

namespace Heritage

open SymbolTable

namespace C

/-! ## Readings -/

/-- **A text reads as a tree**: on its own and in a list of arguments, the grammar gives it this
tree and no other. -/
def ReadsAs (N : TypeNames) (text : String) (tree : Tree) : Prop :=
  ∀ P ∈ [Phrase.expression, .assignment], ∀ tree',
    (∃ ts, lex text.toList = some ts ∧ Derives N P ts tree') ↔ tree' = tree

/-- A text that is written as a tree reads as it exactly where names are used as in it. -/
theorem WrittenAs.readsAs_iff {text : String} {tree : Tree} (h : WrittenAs .assignment text tree)
    {N : TypeNames} : ReadsAs N text tree ↔ tree.Obeys N := by
  obtain ⟨c, ts, -, hts, hd⟩ := h
  constructor
  · intro hreads
    obtain ⟨ts', -, hderives⟩ := (hreads .expression List.mem_cons_self tree).mpr rfl
    exact hderives.obeys
  · intro hN
    have hall : ∀ P ∈ [Phrase.expression, .assignment], Derives N P ts tree :=
      List.forall_mem_cons.mpr ⟨.ofAssignment (hd N hN), List.forall_mem_singleton.mpr (hd N hN)⟩
    intro P hP tree'
    constructor
    · rintro ⟨ts', hlex, h'⟩
      obtain rfl := Option.some.inj (hts.lex_eq.symm.trans hlex)
      exact h'.unique (hall P hP)
    · rintro rfl
      exact ⟨ts, hts.lex_eq, hall P hP⟩

/-- **The types that can be named where variables are in scope**: the words for them are the names
of the classes that no variable hides. -/
def TypeNames.Around (N : TypeNames) (t : SymbolTable) (scope : List VarId) : Prop :=
  ∀ x, N.isType x = true ↔ x ∈ typeNames t ∧ ∀ v ∈ scope, spelling t v ≠ x

/-- Types that are single words. -/
def TypeNames.ofWords (isType : String → Bool) : TypeNames where
  isType := isType
  Types ts := ∃ x, ts = [.word x] ∧ isType x = true
  of_word h := ⟨_, rfl, h⟩
  starts := by
    rintro ts ⟨x, rfl, hx⟩
    exact ⟨_, _, rfl, hx⟩
  closed := by
    rintro ts ⟨x, rfl, -⟩
    rfl

/-- There are such types wherever a text stands. -/
theorem TypeNames.around_ofWords (t : SymbolTable) (scope : List VarId) :
    (TypeNames.ofWords fun x => x ∈ typeNames t ∧ ∀ v ∈ scope, spelling t v ≠ x).Around t scope :=
  fun _ => decide_eq_true_iff

/-- **What a call reaches is not hidden**: no variable is spelled like the class that it
constructs, and the function that it calls is spelled like no class, unless a variable hides that
class in turn. -/
def Unhidden (t : SymbolTable) (scope : List VarId) : Target → Prop
  | .construct c => ∀ v ∈ scope, spelling t v ≠ ident (t.classAt c).name
  | .method _ m =>
    let name := functionName (t.classAt (t.methodAt m).owner).name (t.methodAt m).name
    name ∈ typeNames t → ∃ v ∈ scope, spelling t v = name
  | .nothing _ => True

instance (t : SymbolTable) (scope : List VarId) : DecidablePred (Unhidden t scope)
  | .construct _ => inferInstanceAs (Decidable (∀ _ ∈ scope, _))
  | .method _ _ => inferInstanceAs (Decidable (_ → ∃ _ ∈ scope, _))
  | .nothing _ => inferInstanceAs (Decidable True)

section Around

variable {N : TypeNames} {t : SymbolTable} {scope : List VarId}

theorem mem_typeNames {c : ClassId} (hc : c < t.classes.length) :
    ident (t.classAt c).name ∈ typeNames t :=
  List.mem_map_of_mem (List.mem_map_of_mem (List.mem_of_getElem? (getElem?_eq_getD hc default)))

theorem TypeNames.Around.isType_eq_false_iff (h : N.Around t scope) {x : String} :
    N.isType x = false ↔ (x ∈ typeNames t → ∃ v ∈ scope, spelling t v = x) := by
  rw [← Bool.not_eq_true, h, not_and, not_forall₂]
  simp only [ne_eq, not_not, exists_prop]

theorem TypeNames.Around.recognized_iff (h : N.Around t scope) {target : Target}
    (hlt : ∀ c, target = .construct c → c < t.classes.length) :
    Site.Recognized N t target ↔ Unhidden t scope target := by
  cases target with
  | construct c => exact (h _).trans (and_iff_right (mem_typeNames (hlt c rfl)))
  | method on m => exact h.isType_eq_false_iff
  | nothing why => exact Iff.rfl

/-- No class is spelled like the receiver. -/
theorem TypeNames.Around.receiver (h : N.Around t scope) : N.isType receiver = false := by
  refine h.isType_eq_false_iff.mpr fun hmem => ?_
  obtain ⟨name, -, hname⟩ := List.mem_map.mp hmem
  exact absurd hname (ident_ne_receiver name)

theorem TypeNames.Around.spelling (h : N.Around t scope) {v : VarId} (hv : v ∈ scope) :
    N.isType (spelling t v) = false :=
  h.isType_eq_false_iff.mpr fun _ => ⟨v, hv, rfl⟩

end Around

/-! ## The texts in an expression -/

/-- **A text that is written for an expression**: the tree that is meant, what the calls in it
reach, and the variables that are in scope for C. -/
structure Spot where
  text : String
  tree : Tree
  targets : List Target
  scope : List VarId

/-- **A spot is in order**: its text is written as its tree, and the names in the tree are used as
they should be exactly if no call is hidden. -/
structure Spot.Sound (t : SymbolTable) (spot : Spot) : Prop where
  written : WrittenAs .assignment spot.text spot.tree
  obeys_iff : ∀ {N : TypeNames}, N.Around t spot.scope →
    (spot.tree.Obeys N ↔ ∀ target ∈ spot.targets, Unhidden t spot.scope target)

theorem Spot.Sound.readsAs_iff {t : SymbolTable} {spot : Spot} (h : spot.Sound t) {N : TypeNames}
    (hN : N.Around t spot.scope) :
    ReadsAs N spot.text spot.tree ↔ ∀ target ∈ spot.targets, Unhidden t spot.scope target :=
  h.written.readsAs_iff.trans (h.obeys_iff hN)

end C

open C

namespace Site

/-- An expression as it is written where it is a part of another one. -/
def inferred (s : Site) (scope : List VarId) (e : Expr) : Spot where
  text := s.code e
  tree := s.tree e
  targets := s.targets e
  scope := scope

/-- An expression as it is written where its value is stored. -/
def checked (s : Site) (scope : List VarId) (e : Expr) (target : Option Ty) : Spot where
  text := s.checkCode e target
  tree := s.storeTree e target (s.tree e)
  targets := s.targets e
  scope := scope

mutual
/-- The texts inside that of an expression: operands, receivers and arguments. -/
def inner (s : Site) (scope : List VarId) : Expr → List Spot
  | .int _ _ => []
  | .name _ => []
  | .self _ => []
  | .binary _ left right _ =>
    s.inferred scope left :: s.inner scope left ++ s.inferred scope right :: s.inner scope right
  | .call callee args _ => s.innerArgs scope (s.callTarget callee) 0 args
  | .send receiver callee args _ =>
    s.inferred scope receiver :: s.inner scope receiver
      ++ s.innerArgs scope (s.sendTarget (s.valueType? receiver) callee) 0 args
/-- The texts of arguments from the given one on, as they are passed and on their own, and those
inside them. -/
def innerArgs (s : Site) (scope : List VarId) (target : Target) (i : Nat) : List Expr → List Spot
  | [] => []
  | e :: rest =>
    s.checked scope e (s.paramType? target i) :: s.inferred scope e :: s.inner scope e
      ++ s.innerArgs scope target (i + 1) rest
end

/-- What holds at a point of a body, with the variables that are in scope for C: names can be
spelled, what nothing is wrong with has a type, and what names denote is in scope. -/
structure Place (s : Site) (scope : List VarId) : Prop where
  named : s.table.Named
  typed : ∀ e, s.issues e = [] → ∃ τ, s.type? e = some τ
  inScope : ∀ {x v}, s.var x = .ok v → (s.table.varAt v).kind ≠ .field → v ∈ scope

section Place

variable {s : Site} {scope : List VarId} (h : s.Place scope)
include h

theorem Place.varsPlain {N : TypeNames} (hN : N.Around s.table scope) : s.VarsPlain N where
  receiver := hN.receiver
  var := by
    intro x v hx
    have hscope := h.inScope hx
    unfold varTree
    cases hkind : (s.table.varAt v).kind with
    | receiver => exact obeys_name.mpr hN.receiver
    | field => exact obeys_fieldTree.mpr hN.receiver
    | parameter =>
      have hplain := hN.spelling (hscope (hkind ▸ nofun))
      rw [spelling_of_ne (hkind ▸ nofun)] at hplain
      exact obeys_name.mpr hplain
    | localVar =>
      have hplain := hN.spelling (hscope (hkind ▸ nofun))
      rw [spelling_of_ne (hkind ▸ nofun)] at hplain
      exact obeys_name.mpr hplain

/-- **A text for an expression of which nothing is wrong is in order** if it is written as the
tree of the expression, perhaps converted. -/
theorem Place.sound {e : Expr} (he : s.issues e = []) {text : String} {tree : Tree}
    (hwritten : WrittenAs .assignment text tree)
    (hobeys : ∀ {N : TypeNames}, tree.Obeys N ↔ (s.tree e).Obeys N) :
    Spot.Sound s.table ⟨text, tree, s.targets e, scope⟩ where
  written := hwritten
  obeys_iff := by
    intro N hN
    rw [hobeys, obeys_tree h.typed (h.varsPlain hN) e he]
    refine forall₂_congr fun target htarget => hN.recognized_iff ?_
    rintro c rfl
    exact lt_of_construct e htarget

theorem Place.inferred {e : Expr} (he : s.issues e = []) : (s.inferred scope e).Sound s.table :=
  h.sound he (written h.named h.typed e he).unary.ofUnary Iff.rfl

theorem Place.checked {e : Expr} {target : Option Ty} {use : String} (he : s.issues e = [])
    (huse : s.useIssues e = []) (hstore : s.storeIssues e target use = []) :
    (s.checked scope e target).Sound s.table := by
  have hwritten := (written h.named h.typed e he).store h.named hstore
  rw [← valueText_of_use huse (s.code e)] at hwritten
  exact h.sound he hwritten obeys_storeTree

end Place

section Inner

variable {s : Site} {scope : List VarId}

mutual
/-- **Every text inside that of an expression of which nothing is wrong is in order.** -/
theorem Place.inner (h : s.Place scope) : (e : Expr) → s.issues e = [] →
    ∀ spot ∈ s.inner scope e, spot.Sound s.table
  | .int value span, _ => by
    unfold Site.inner
    exact List.forall_mem_nil _
  | .name x, _ => by
    unfold Site.inner
    exact List.forall_mem_nil _
  | .self span, _ => by
    unfold Site.inner
    exact List.forall_mem_nil _
  | .binary op left right span, he => by
    unfold issues at he
    simp only [List.append_eq_nil_iff] at he
    obtain ⟨⟨⟨hl, -⟩, -⟩, ⟨hr, -⟩, -⟩ := he
    unfold Site.inner
    rw [List.forall_mem_append, List.forall_mem_cons, List.forall_mem_cons]
    exact ⟨⟨h.inferred hl, Place.inner h left hl⟩, h.inferred hr, Place.inner h right hr⟩
  | .call callee args span, he => by
    unfold issues at he
    unfold Site.inner
    exact Place.innerArgs h _ 0 args (List.append_eq_nil_iff.mp he).2
  | .send receiver callee args span, he => by
    unfold issues at he
    dsimp only at he
    rw [List.append_eq_nil_iff, List.append_eq_nil_iff] at he
    obtain ⟨⟨hr, -⟩, hcall⟩ := he
    unfold Site.inner
    rw [List.forall_mem_append, List.forall_mem_cons]
    exact ⟨⟨h.inferred hr, Place.inner h receiver hr⟩,
      Place.innerArgs h _ 0 args (List.append_eq_nil_iff.mp hcall).2⟩
theorem Place.innerArgs (h : s.Place scope) (target : Target) : (i : Nat) → (args : List Expr) →
    s.argIssues target i args = [] →
    ∀ spot ∈ s.innerArgs scope target i args, spot.Sound s.table
  | _, [], _ => by
    unfold Site.innerArgs
    exact List.forall_mem_nil _
  | i, e :: rest, hargs => by
    unfold argIssues at hargs
    simp only [List.append_eq_nil_iff] at hargs
    obtain ⟨⟨⟨he, huse⟩, hstore⟩, hrest⟩ := hargs
    unfold Site.innerArgs
    rw [List.forall_mem_append, List.forall_mem_cons, List.forall_mem_cons]
    exact ⟨⟨h.checked he huse hstore, h.inferred he, Place.inner h e he⟩,
      Place.innerArgs h target (i + 1) rest hrest⟩
end

end Inner

end Site

/-! ## The texts in a body -/

namespace Body

/-- The variables that are in scope for C at a point of a body. One that is being declared is. -/
def scopeAt (b : Body) (env : Env) (declaring : Option VarId) : List VarId :=
  declaring.toList ++ (env.blocks b.table).flatten

/-- The texts for an expression of a statement: as it stands in the statement, on its own, and
those inside it. -/
def placed (b : Body) (env : Env) (declaring : Option VarId) (e : Expr) (text : String)
    (tree : Tree) : List Spot :=
  let s := b.site env
  let scope := b.scopeAt env declaring
  ⟨text, tree, s.targets e, scope⟩ :: s.inferred scope e :: s.inner scope e

/-- The tree of a returned value, which is converted to the type that the method returns. -/
def returnTree (b : Body) (env : Env) (value : Expr) : Tree :=
  let s := b.site env
  match s.type? value, (b.table.methodAt b.method).returnType with
  | some type, some expected => convertTree b.table (s.tree value) (some type) expected
  | _, _ => s.tree value

/-- The texts for a value that is stored where a type is expected. -/
def storedSpots (b : Body) (env : Env) (declaring : Option VarId) (e : Expr) (type : Option Ty) :
    List Spot :=
  let s := b.site env
  b.placed env declaring e (s.checkCode e type) (s.storeTree e type (s.tree e))

/-- The texts for a condition. -/
def condSpots (b : Body) (env : Env) (cond : Expr) : List Spot :=
  b.placed env none cond (b.condCode env cond) ((b.site env).tree cond)

/-- The texts for the initial values of declarators. -/
def varSpots (b : Body) : List Declarator → Env → List Spot
  | [], _ => []
  | v :: rest, env =>
    match b.table.lookupIn env.scope v.name.text with
    | none => []
    | some id =>
      (match v.init with
        | none => []
        | some e => b.storedSpots env (some id) e (b.table.varAt id).type)
        ++ b.varSpots rest (env.declare b.table v.name.text)

mutual
/-- The texts for the expressions of a statement. -/
def spots (b : Body) : Stmt → Env → List Spot
  | .declare _ vars _, env => b.varSpots vars env
  | .ifThen cond body bodySpan _, env =>
    b.condSpots env cond ++ (match env.enter b.table bodySpan with
      | .ok inside => b.spotsAll body inside
      | .error _ => [])
  | .ifElse cond body bodySpan other otherSpan _, env =>
    b.condSpots env cond
      ++ (match env.enter b.table bodySpan with
        | .ok inside => b.spotsAll body inside
        | .error _ => [])
      ++ (match b.afterBlock body bodySpan env with
        | .error _ => []
        | .ok env =>
          match env.enter b.table otherSpan with
          | .ok inside => b.spotsAll other inside
          | .error _ => [])
  | .loop cond body bodySpan _, env =>
    b.condSpots env cond ++ (match env.enter b.table bodySpan with
      | .ok inside => b.spotsAll body inside
      | .error _ => [])
  | .ret none _, _ => []
  | .ret (some e) _, env => b.placed env none e (b.returnCode env e) (b.returnTree env e)
  | .assign target value _, env =>
    b.placed env none (.name target) (b.assignTarget env target).2
        ((b.site env).tree (.name target))
      ++ b.storedSpots env none value (b.assignTarget env target).1
  | .eval e _, env =>
    b.placed env none e (standalone e ((b.site env).code e)) ((b.site env).tree e)
/-- **The texts for the expressions of a list of statements.** -/
def spotsAll (b : Body) : List Stmt → Env → List Spot
  | [], _ => []
  | s :: rest, env =>
    b.spots s env
      ++ (match b.after s env with
        | .ok env => b.spotsAll rest env
        | .error _ => [])
end

section Placed

variable {b : Body} {env : Env} {declaring : Option VarId}
  (h : (b.site env).Place (b.scopeAt env declaring))
include h

theorem placed_sound {e : Expr} (he : (b.site env).issues e = []) {text : String} {tree : Tree}
    (hwritten : WrittenAs .assignment text tree)
    (hobeys : ∀ {N : TypeNames}, tree.Obeys N ↔ ((b.site env).tree e).Obeys N) :
    ∀ spot ∈ b.placed env declaring e text tree, spot.Sound b.table :=
  List.forall_mem_cons.mpr ⟨h.sound he hwritten hobeys,
    List.forall_mem_cons.mpr ⟨h.inferred he, Site.Place.inner h e he⟩⟩

theorem storedSpots_sound {e : Expr} {type : Option Ty} {use : String}
    (hissues : (b.site env).checkIssues e type use = []) :
    ∀ spot ∈ b.storedSpots env declaring e type, spot.Sound b.table := by
  obtain ⟨hvalue, hstore⟩ := List.append_eq_nil_iff.mp hissues
  obtain ⟨he, huse⟩ := List.append_eq_nil_iff.mp hvalue
  exact placed_sound h he (h.checked he huse hstore).written Site.obeys_storeTree

end Placed

/-- What is assigned to is written like a name in an expression. -/
theorem assignTarget_eq {b : Body} {env : Env} {target : Ident}
    (h : b.assignTargetIssues env target = []) :
    (b.assignTarget env target).2 = (b.site env).code (.name target)
      ∧ (b.site env).issues (.name target) = [] := by
  unfold assignTargetIssues at h
  unfold assignTarget Site.code Site.issues
  cases hx : (b.site env).var target with
  | error i =>
    rw [hx] at h
    cases h
  | ok v =>
    rw [hx] at h
    dsimp only at h ⊢
    refine ⟨?_, rfl⟩
    cases hkind : (b.table.varAt v).kind with
    | receiver =>
      rw [hkind] at h
      cases h
    | field => rfl
    | parameter => rfl
    | localVar => rfl

section Placed

variable {b : Body} {env : Env} (h : (b.site env).Place (b.scopeAt env none))
include h

theorem condSpots_sound {cond : Expr} (hissues : b.condIssues env cond = []) :
    ∀ spot ∈ b.condSpots env cond, spot.Sound b.table := by
  obtain ⟨he, huse⟩ := List.append_eq_nil_iff.mp (List.append_eq_nil_iff.mp hissues).1
  have hwritten := (Site.written h.named h.typed cond he).alone
  rw [← Site.valueText_of_use huse ((b.site env).code cond)] at hwritten
  exact placed_sound h he hwritten Iff.rfl

theorem returnSpots_sound {e : Expr} (span : Span)
    (hissues : b.returnIssues env (some e) span = []) :
    ∀ spot ∈ b.placed env none e (b.returnCode env e) (b.returnTree env e),
      spot.Sound b.table := by
  obtain ⟨he, hreturn⟩ := List.append_eq_nil_iff.mp hissues
  have hwritten := Site.written h.named h.typed e he
  obtain ⟨type, htype⟩ := h.typed e he
  rw [htype] at hreturn
  have hnone := Option.toList_eq_nil_iff.mp hreturn
  unfold returnCode returnTree
  dsimp only
  rw [htype]
  cases (b.table.methodAt b.method).returnType with
  | none => exact placed_sound h he hwritten.alone Iff.rfl
  | some expected =>
    dsimp only
    rw [if_pos (Option.isNone_iff_eq_none.mpr hnone)]
    exact placed_sound h he (hwritten.convert h.named htype expected) obeys_convertTree

theorem targetSpots_sound {target : Ident} (hissues : b.assignTargetIssues env target = []) :
    ∀ spot ∈ b.placed env none (.name target) (b.assignTarget env target).2
      ((b.site env).tree (.name target)), spot.Sound b.table := by
  obtain ⟨htext, he⟩ := assignTarget_eq hissues
  rw [htext]
  exact placed_sound h he (Site.written h.named h.typed _ he).unary.ofUnary Iff.rfl

end Placed

/-! ## The texts in a body are in order -/

section Body

variable {p : Program} {t : SymbolTable} {b : Body} {result : Ty} {env : Env}

theorem spotsAll_cons {s : Stmt} {env env' : Env} (h : b.after s env = .ok env')
    (rest : List Stmt) :
    b.spotsAll (s :: rest) env = b.spots s env ++ b.spotsAll rest env' := by
  show b.spots s env ++ _ = _
  rw [h]

theorem Of.place (hb : b.Of p t result) (named : b.table.Named) {opened : List ScopeId}
    (hs : env.Sound b.table opened) (typed : ∀ v ∈ env.visible, b.Typed t v)
    (declaring : Option VarId) : (b.site env).Place (b.scopeAt env declaring) where
  named := named
  typed e := (Site.agrees hb.settled (hb.models hs typed) e).poison
  inScope := by
    intro x v hx hkind
    refine List.mem_append_right _ (hb.denoted_declared hs (e := .name x) ?_)
    unfold Site.denoted Site.unlessField
    rw [hx]
    dsimp only
    rw [if_neg hkind]
    exact List.mem_singleton.mpr rfl

theorem Of.varSpots_sound (hb : b.Of p t result) (named : b.table.Named) {clean : Prop}
    (hclean : clean) {type : Ident} (vars : List Declarator) {env : Env} {opened : List ScopeId}
    (hs : env.Sound b.table opened) (typed : ∀ v ∈ env.visible, b.Typed t v)
    (held : ∀ v ∈ vars, Held t clean env.scope type v) (issues : b.varIssues vars env = []) :
    ∀ spot ∈ b.varSpots vars env, spot.Sound b.table := by
  induction vars generalizing env with
  | nil => exact List.forall_mem_nil _
  | cons v rest ih =>
    obtain ⟨id, τ, hlook, hlt, hscope, -, -, -, htyped, -⟩ :=
      hb.local_declared hclean (held v List.mem_cons_self)
    unfold varIssues at issues
    rw [hlook, Env.declare_eq hlook] at issues
    obtain ⟨hinit, hissues⟩ := List.append_eq_nil_iff.mp issues
    have htail := @ih { env with visible := id :: env.visible } (hs.declare hlt hscope)
      (List.forall_mem_cons.mpr ⟨htyped, typed⟩)
      (fun w hw => held w (List.mem_cons_of_mem v hw)) hissues
    unfold varSpots
    rw [hlook, Env.declare_eq hlook]
    refine List.forall_mem_append.mpr ⟨?_, htail⟩
    cases hv : v.init with
    | none => exact List.forall_mem_nil _
    | some e =>
      rw [hv] at hinit
      exact storedSpots_sound (hb.place named hs typed (some id)) hinit

/-- **Every text for an expression of a body of which nothing is wrong is in order.** -/
theorem Of.spots_sound (hb : b.Of p t result) (named : b.table.Named) {clean : Prop}
    (hclean : clean) {body : List Stmt} {env env' : Env} {opened : List BlockScope}
    (h : Follows b (Held t clean) body env env' opened)
    (hs : env.Sound b.table (opened.map Prod.snd)) (typed : ∀ v ∈ env.visible, b.Typed t v)
    (issues : b.issuesAll body env = []) : ∀ spot ∈ b.spotsAll body env, spot.Sound b.table := by
  -- Along the statements, each in the environment that those before it lead to.
  induction h with
  | nil => exact List.forall_mem_nil _
  | @declare type vars span rest env env' visible opened held hvars _ ih =>
    rw [issuesAll_cons (s := .declare type vars span) hvars, List.append_eq_nil_iff] at issues
    obtain ⟨hs', typed', -⟩ := hb.varIssues_eq_nil_iff hclean vars hs typed held hvars
    rw [spotsAll_cons (s := .declare type vars span) hvars, List.forall_mem_append]
    exact ⟨hb.varSpots_sound named hclean vars hs typed held issues.1, ih hs' typed' issues.2⟩
  | @ifThen cond body bodySpan span rest env e env' block blocks inner opened next inside _ ihIn
      ih =>
    have typedIn := inside.visible_forall (hb.typed_of_held hclean) typed
    obtain ⟨hsIn, -, hsBehind, -⟩ := inside.blocks_block hb.formed hs
    obtain ⟨hcond, hbody, hrest⟩ := (inside.issuesAll_ifThen_eq_nil_iff next ..).mp issues
    rw [spotsAll_cons (inside.after_ifThen_eq next ..), List.forall_mem_append]
    unfold spots
    rw [Env.enter_eq next, List.forall_mem_append]
    exact ⟨⟨condSpots_sound (hb.place named hs typed none) hcond, ihIn hsIn typed hbody⟩,
      ih hsBehind typedIn hrest⟩
  | @ifElse cond body other bodySpan otherSpan span rest env e e' env' block block' blocks inner
      inner' opened next inside inside' _ ihIn ihIn' ih =>
    have typedIn := inside.visible_forall (hb.typed_of_held hclean) typed
    have typedIn' := inside'.visible_forall (hb.typed_of_held hclean) typedIn
    rw [List.append_assoc] at hs
    obtain ⟨hsIn, -, hsBehind, -⟩ := inside.blocks_block hb.formed hs
    obtain ⟨hsIn', -, hsBehind', -⟩ := inside'.blocks_block hb.formed hsBehind
    obtain ⟨hcond, hbody, hother, hrest⟩ :=
      (inside.issuesAll_ifElse_eq_nil_iff inside' next ..).mp issues
    rw [spotsAll_cons (inside.after_ifElse_eq inside' next ..), List.forall_mem_append]
    unfold spots
    rw [Env.enter_eq next, inside.afterBlock next]
    dsimp only
    rw [Env.enter_eq (Env.ahead_behind next _)]
    dsimp only
    rw [List.forall_mem_append, List.forall_mem_append]
    exact ⟨⟨⟨condSpots_sound (hb.place named hs typed none) hcond, ihIn hsIn typed hbody⟩,
      ihIn' hsIn' typedIn hother⟩, ih hsBehind' typedIn' hrest⟩
  | @loop cond body bodySpan span rest env e env' block blocks inner opened next inside _ ihIn ih =>
    have typedIn := inside.visible_forall (hb.typed_of_held hclean) typed
    obtain ⟨hsIn, -, hsBehind, -⟩ := inside.blocks_block hb.formed hs
    obtain ⟨hcond, hbody, hrest⟩ := (inside.issuesAll_loop_eq_nil_iff next ..).mp issues
    rw [spotsAll_cons (inside.after_loop_eq next ..), List.forall_mem_append]
    unfold spots
    rw [Env.enter_eq next, List.forall_mem_append]
    exact ⟨⟨condSpots_sound (hb.place named hs typed none) hcond, ihIn hsIn typed hbody⟩,
      ih hsBehind typedIn hrest⟩
  | @ret value span rest env env' opened _ ih =>
    rw [issuesAll_cons (s := .ret value span) rfl, List.append_eq_nil_iff] at issues
    rw [spotsAll_cons (s := .ret value span) rfl, List.forall_mem_append]
    refine ⟨?_, ih hs typed issues.2⟩
    cases value with
    | none => exact List.forall_mem_nil _
    | some e => exact returnSpots_sound (hb.place named hs typed none) span issues.1
  | @assign target value span rest env env' opened _ ih =>
    rw [issuesAll_cons (s := .assign target value span) rfl, List.append_eq_nil_iff] at issues
    obtain ⟨htarget, hvalue⟩ := List.append_eq_nil_iff.mp issues.1
    have hplace := hb.place named hs typed none
    rw [spotsAll_cons (s := .assign target value span) rfl, List.forall_mem_append]
    exact ⟨List.forall_mem_append.mpr
      ⟨targetSpots_sound hplace htarget, storedSpots_sound hplace hvalue⟩, ih hs typed issues.2⟩
  | @eval expr span rest env env' opened _ ih =>
    rw [issuesAll_cons (s := .eval expr span) rfl, List.append_eq_nil_iff] at issues
    have hplace := hb.place named hs typed none
    have hwritten := Site.written hplace.named hplace.typed expr issues.1
    rw [spotsAll_cons (s := .eval expr span) rfl, List.forall_mem_append]
    exact ⟨placed_sound hplace issues.1 hwritten.alone Iff.rfl, ih hs typed issues.2⟩

end Body

end Body

/-! ## Programs -/

/-- **Every expression of a program that is accepted reads back, unless a call in it is hidden.**
If the names that the program declares are identifiers of C, then each text that is written for an
expression of a body has the tree of that expression and no other, for the types that can be
named where it stands, exactly if what its calls reach is not hidden there. -/
theorem expressions_read_back_unless_hidden {p : Program} (ok : ∃ out, compile p = .ok out)
    (words : ∀ x ∈ p.words, C.IsIdentifier x) {b : Body} {decl : MethodDecl}
    (table : b.table = (Compilation.run {} p).resolved.table)
    (held : (b.method, decl) ∈ C.heldMethods b.table p) :
    ∀ spot ∈ b.spotsAll decl.body b.start, ∀ N : C.TypeNames, N.Around b.table spot.scope →
      (C.ReadsAs N spot.text spot.tree
        ↔ ∀ target ∈ spot.targets, C.Unhidden b.table spot.scope target) := by
  obtain ⟨clean, settled, hfile⟩ := settled_of_issues ((exists_ok_iff {} p).mp ok)
  obtain ⟨u, m⟩ := b
  obtain rfl : u = (collect p).table.resolve.table := table
  have hu := resolve_declared (collect p).table
  rw [heldMethods_registered p hu] at held
  obtain ⟨r, hr, hheld⟩ := List.mem_map.mp held
  obtain ⟨rfl, rfl⟩ := Prod.mk.inj hheld
  obtain ⟨τ, hb, -, hm⟩ := registered_body clean settled hr
  obtain ⟨env, hfollows⟩ := follows_registered hr hu
  rw [file_issues_registered p hu, List.flatMap_eq_nil_iff] at hfile
  have named := (collect_fresh p).named (collect_formed p) (collect_spelled words)
  intro spot hspot N hN
  have hsound := hb.spots_sound named clean hfollows (sound_start hr hu) (hb.start_context hm).1
    (hfile r hr) spot hspot
  exact hsound.readsAs_iff hN

/-- A method with operations inside operations, values that are converted, a construction that is
used as a receiver, and a negative literal. -/
def groupingMethod : MethodDecl where
  name := ⟨"g", {}⟩
  params := [⟨⟨"self", {}⟩, none, {}⟩, ⟨⟨"k", {}⟩, some ⟨"int", {}⟩, {}⟩]
  returnType := some ⟨"int", {}⟩
  body :=
    [.declare ⟨"A", {}⟩ [⟨⟨"a", {}⟩, some (.call ⟨"B", {}⟩ [] {}), {}⟩] {},
      .assign ⟨"n", {}⟩ (.binary .mul (.binary .sub (.name ⟨"k", {}⟩) (.int (-2) {}) {})
        (.name ⟨"n", {}⟩) {}) {},
      .ret (some (.binary .sub
        (.send (.call ⟨"B", {}⟩ [] {}) ⟨"f", {}⟩ [.self {}] {})
        (.binary .sub (.call ⟨"f", {}⟩ [.name ⟨"a", {}⟩] {}) (.int 1 {}) {}) {})) {}]
  bodySpan := {}
  span := {}

/-- A program with this method in a class that inherits a field and a method. -/
def grouping : Program where
  classes :=
    [⟨⟨"A", {}⟩, [],
      [.field ⟨⟨"int", {}⟩, [⟨"n", {}⟩], {}⟩,
        .method
          { name := ⟨"f", {}⟩
            params := [⟨⟨"self", {}⟩, none, {}⟩, ⟨⟨"a", {}⟩, some ⟨"A", {}⟩, {}⟩]
            returnType := some ⟨"int", {}⟩
            body := [.ret (some (.name ⟨"n", {}⟩)) {}]
            bodySpan := {}
            span := {} }], {}⟩,
      ⟨⟨"B", {}⟩, [⟨"A", {}⟩], [.method groupingMethod], {}⟩]
  span := {}

/-- **Every expression of the method reads back**, whichever types of more than one word there
are. -/
theorem grouping_read_back :
    let b : Body := ⟨(Compilation.run {} grouping).resolved.table, 1⟩
    (∃ out, compile grouping = .ok out) ∧ (∀ x ∈ grouping.words, C.IsIdentifier x)
      ∧ (1, groupingMethod) ∈ C.heldMethods b.table grouping
      ∧ ∀ spot ∈ b.spotsAll groupingMethod.body b.start,
        (∃ N : C.TypeNames, N.Around b.table spot.scope)
          ∧ ∀ N : C.TypeNames, N.Around b.table spot.scope → C.ReadsAs N spot.text spot.tree := by
  intro b
  have ok : ∃ out, compile grouping = .ok out :=
    (exists_ok_iff {} grouping).mpr (by decide +kernel)
  have words : ∀ x ∈ grouping.words, C.IsIdentifier x := by decide +kernel
  have held : (1, groupingMethod) ∈ C.heldMethods b.table grouping :=
    List.mem_of_getElem? (i := 1) (by with_unfolding_all rfl)
  have unhidden : ∀ spot ∈ b.spotsAll groupingMethod.body b.start,
      ∀ target ∈ spot.targets, C.Unhidden b.table spot.scope target := by
    decide +kernel
  refine ⟨ok, words, held, fun spot hspot =>
    ⟨⟨_, C.TypeNames.around_ofWords b.table spot.scope⟩, fun N hN => ?_⟩⟩
  exact (expressions_read_back_unless_hidden ok words rfl held spot hspot N hN).mpr
    (unhidden spot hspot)

/-- A method that constructs a class with a parameter of its name. -/
def concealingMethod : MethodDecl where
  name := ⟨"m", {}⟩
  params := [⟨⟨"self", {}⟩, none, {}⟩, ⟨⟨"A", {}⟩, some ⟨"int", {}⟩, {}⟩]
  returnType := none
  body := [.eval (.call ⟨"A", {}⟩ [] {}) {}]
  bodySpan := {}
  span := {}

/-- A program with this method. -/
def concealing : Program where
  classes := [⟨⟨"A", {}⟩, [], [], {}⟩, ⟨⟨"B", {}⟩, [], [.method concealingMethod], {}⟩]
  span := {}

/-- **A construction of a class that a parameter hides does not read back**: the program is
accepted and its names are identifiers, but for C the word in the parenthesis is no type. -/
theorem concealing_not_read_back :
    let b : Body := ⟨(Compilation.run {} concealing).resolved.table, 0⟩
    (∃ out, compile concealing = .ok out) ∧ (∀ x ∈ concealing.words, C.IsIdentifier x)
      ∧ (0, concealingMethod) ∈ C.heldMethods b.table concealing
      ∧ ∃ spot ∈ b.spotsAll concealingMethod.body b.start, spot.text = "&(A)\x7b0\x7d"
        ∧ ∀ N : C.TypeNames, N.Around b.table spot.scope → ¬ C.ReadsAs N spot.text spot.tree := by
  intro b
  have ok : ∃ out, compile concealing = .ok out :=
    (exists_ok_iff {} concealing).mpr (by decide +kernel)
  have held : (0, concealingMethod) ∈ C.heldMethods b.table concealing :=
    List.mem_of_getElem? (i := 0) (by with_unfolding_all rfl)
  have hspots : (b.spotsAll concealingMethod.body b.start).head?.map
      (fun spot => (spot.text, spot.tree.types, spot.scope))
      = some ("&(A)\x7b0\x7d", [[.word "A"]], [0, 1]) := by
    decide +kernel
  obtain ⟨spot, hspot, heq⟩ := Option.map_eq_some_iff.mp hspots
  obtain ⟨htext, heq⟩ := Prod.mk.inj heq
  obtain ⟨htypes, hscope⟩ := Prod.mk.inj heq
  refine ⟨ok, by decide +kernel, held, spot, List.mem_of_mem_head? hspot, htext,
    fun N hN hreads => ?_⟩
  -- A tree that is read names its types, and the parameter keeps this word from being one.
  obtain ⟨ts, -, hderives⟩ := (hreads .expression List.mem_cons_self spot.tree).mpr rfl
  have hword : N.isType "A" = true :=
    N.isType_word.mp (hderives.obeys.types _ (htypes ▸ List.mem_cons_self))
  have hspelling : C.spelling b.table 1 = "A" := by decide +kernel
  exact ((hN "A").mp hword).2 1 (hscope ▸ List.mem_cons_of_mem 0 List.mem_cons_self) hspelling

end Heritage
