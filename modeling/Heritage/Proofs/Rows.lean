import Heritage.C.File
import Heritage.Proofs.Nesting

/-!
# The rows of a body

What is written for a body says of each line only how it changes the depth, and
a `Layout` counts along. A row says at once what a line is for (`Entry`), in how
many blocks it stands, and in which environment its text is made up. The rows of
a body are made by recursion over its statements, where those inside a block are
one deeper than the statement, and nothing is counted.

Begun at any depth, the steps of a body write its rows, moved to that depth
(`Body.lays_stepsAll`). A body that stops before its end ends deeper, by the
number of blocks that stand around the place where it stops
(`Body.leftOpenAll`), since it closes none of them.

Blocks of steps that end at the depth at which they began (`Level`) write the
lines that they would write alone, whatever stands before them.
-/

namespace Heritage

namespace C

/-! ## Steps that lay lines -/

/-- A line moved to the right by a number of levels. -/
def Line.shift (d : Nat) (l : Line) : Line :=
  { l with depth := d + l.depth }

@[simp] theorem Line.shift_zero (l : Line) : l.shift 0 = l := by
  unfold shift
  rw [Nat.zero_add]

@[simp] theorem Line.shift_shift (d e : Nat) (l : Line) :
    (l.shift e).shift d = l.shift (d + e) := by
  unfold shift
  rw [Nat.add_assoc]

theorem Line.render_shift {l : Line} (h : l.text ≠ "") (width d : Nat) :
    (l.shift d).render width
      = String.ofList (List.replicate ((d + l.depth) * width) ' ') ++ l.text := by
  unfold render shift
  rw [if_neg h]

/-- **Steps that lay lines**: begun at any depth they write these lines, moved to that depth, and
end so many levels deeper. -/
def Lays (steps : List Step) (lines : List Line) (left : Nat) : Prop :=
  ∀ l : Layout, steps.foldl Layout.step l
    = { lines := l.lines ++ lines.map (.shift l.depth), depth := l.depth + left }

theorem lays_nil : Lays [] [] 0 := by
  intro l
  simp

theorem lays_line (text : String) : Lays [.line text] [{ depth := 0, text := text }] 0 := by
  intro l
  simp [Layout.step, Layout.write, Line.shift]

section Lays

variable {steps steps' : List Step} {lines lines' : List Line} {left left' : Nat}

/-- Steps behind others lay their lines as much deeper as the others left open. -/
theorem Lays.append (h : Lays steps lines left) (h' : Lays steps' lines' left') :
    Lays (steps ++ steps') (lines ++ lines'.map (.shift left)) (left + left') := by
  intro l
  rw [List.foldl_append, h, h']
  simp [Nat.add_assoc, Function.comp_def]

/-- A block that is opened and stays open. -/
theorem Lays.opening (h : Lays steps lines left) (header : String) :
    Lays (.opening header :: steps)
      ({ depth := 0, text := header ++ " \x7b" } :: lines.map (.shift 1)) (left + 1) := by
  intro l
  rw [List.foldl_cons, h]
  simp [Layout.step, Layout.write, Line.shift, Nat.add_assoc, Nat.add_comm left]

/-- The innermost block is closed. -/
theorem Lays.closing (h : Lays steps lines (left + 1)) (text : String) :
    Lays (steps ++ [.closing text]) (lines ++ [{ depth := left, text := text }]) left := by
  intro l
  rw [List.foldl_append, h]
  simp [Layout.step, Layout.write, Line.shift]

/-- The innermost block is closed and another one opened in its place. -/
theorem Lays.reopening (h : Lays steps lines (left + 1)) (text : String) :
    Lays (steps ++ [.closing text, .indent]) (lines ++ [{ depth := left, text := text }])
      (left + 1) := by
  intro l
  rw [List.foldl_append, h]
  simp [Layout.step, Layout.write, Line.shift, Nat.add_assoc]

/-- The lines that are laid are those that are written from the start. -/
theorem Lays.linesOf_eq (h : Lays steps lines left) : linesOf steps = lines := by
  unfold linesOf Layout.run
  rw [h]
  exact List.map_id'' Line.shift_zero lines

end Lays

/-! ## Steps that end where they began -/

/-- What is written does not depend on what was written before it. -/
theorem Layout.foldl_step (steps : List Step) (l : Layout) :
    steps.foldl step l
      = { lines := l.lines ++ (steps.foldl step { depth := l.depth }).lines
          depth := (steps.foldl step { depth := l.depth }).depth } := by
  induction steps generalizing l with
  | nil =>
    show l = { lines := l.lines ++ [], depth := l.depth }
    rw [List.append_nil]
  | cons s rest ih =>
    have hstep : l.step s
        = { lines := l.lines ++ (step { depth := l.depth } s).lines
            depth := (step { depth := l.depth } s).depth } := by
      cases s with
      | line text => rfl
      | opening header => rfl
      | closing text => rfl
      | indent => exact congrArg (fun ls => Layout.mk ls (l.depth + 1)) (List.append_nil _).symm
    rw [List.foldl_cons, List.foldl_cons, ih, ih (step { depth := l.depth } s), hstep]
    show Layout.mk _ _ = Layout.mk _ _
    rw [List.append_assoc]

/-- **Steps that end at the depth at which they began**, whichever it was. -/
def Level (steps : List Step) : Prop :=
  ∀ l : Layout, (steps.foldl Layout.step l).depth = l.depth

theorem level_nil : Level [] :=
  fun _ => rfl

theorem level_line (text : String) : Level [.line text] :=
  fun _ => rfl

theorem Level.append {xs ys : List Step} (hx : Level xs) (hy : Level ys) : Level (xs ++ ys) := by
  intro l
  rw [List.foldl_append, hy, hx]

/-- Steps that leave nothing open end where they began. -/
theorem Lays.level {steps : List Step} {lines : List Line} (h : Lays steps lines 0) :
    Level steps := by
  intro l
  rw [h]
  rfl

theorem level_map_line {α : Type} (f : α → String) (xs : List α) :
    Level (xs.map fun a => .line (f a)) := by
  induction xs with
  | nil => exact level_nil
  | cons a rest ih => exact (level_line (f a)).append ih

/-- A block that is closed ends where it began. -/
theorem Level.block {body : List Step} (h : Level body) (header close : String) :
    Level (.opening header :: (body ++ [.closing close])) := by
  intro l
  rw [List.foldl_cons, List.foldl_append]
  show (body.foldl Layout.step (l.step (.opening header))).depth - 1 = l.depth
  rw [h]
  rfl

theorem linesOf_append {xs : List Step} (h : Level xs) (ys : List Step) :
    linesOf (xs ++ ys) = linesOf xs ++ linesOf ys := by
  unfold linesOf Layout.run
  rw [List.foldl_append, Layout.foldl_step ys, h]

theorem linesOf_map_line {α : Type} (f : α → String) (xs : List α) :
    linesOf (xs.map fun a => .line (f a)) = xs.map fun a => { depth := 0, text := f a } := by
  induction xs with
  | nil => rfl
  | cons a rest ih =>
    rw [List.map_cons, List.map_cons, ← ih]
    exact linesOf_append (level_line (f a)) _

/-- Blocks of lines with an empty line between them. -/
def spaced (blocks : List (List Line)) : List Line :=
  [{ depth := 0, text := "" }].intercalate blocks

/-- **Blocks that end where they began have the lines that each has alone.** -/
theorem linesOf_separated {blocks : List (List Step)} (h : ∀ b ∈ blocks, Level b) :
    linesOf (separated blocks) = spaced (blocks.map linesOf) := by
  unfold separated spaced
  induction blocks with
  | nil => rfl
  | cons b rest ih =>
    cases rest with
    | nil => rw [List.map_singleton, List.intercalate_singleton, List.intercalate_singleton]
    | cons b' rest =>
      -- The blocks behind start at the depth at which this one ends, which is none.
      have hb := h b (List.mem_cons_self ..)
      rw [List.intercalate_cons_cons, List.map_cons, List.map_cons, List.intercalate_cons_cons,
        ← List.map_cons, ← ih fun x hx => h x (List.mem_cons_of_mem _ hx),
        List.append_assoc, linesOf_append hb, List.append_assoc]
      exact congrArg (linesOf b ++ ·) (linesOf_append (level_line "") _)

theorem level_separated {blocks : List (List Step)} (h : ∀ b ∈ blocks, Level b) :
    Level (separated blocks) := by
  unfold separated
  induction blocks with
  | nil => exact level_nil
  | cons b rest ih =>
    have hb := h b (List.mem_cons_self ..)
    cases rest with
    | nil => rwa [List.intercalate_singleton]
    | cons b' rest =>
      rw [List.intercalate_cons_cons]
      exact (hb.append (level_line "")).append (ih fun x hx => h x (List.mem_cons_of_mem _ hx))

end C

/-! ## Rows -/

/-- **What a line of a body is for.** -/
inductive Entry where
  /-- A local of a declaration. -/
  | declarator (type : Ident) (v : Declarator)
  /-- An assignment. -/
  | assign (target : Ident) (value : Expr)
  /-- A return. -/
  | ret (value : Option Expr)
  /-- An expression that stands alone. -/
  | eval (expr : Expr)
  /-- The beginning of a conditional. -/
  | ifHeader (cond : Expr)
  /-- The beginning of a loop. -/
  | loopHeader (cond : Expr)
  /-- The line between the two blocks of a conditional. -/
  | otherwise
  /-- The end of a conditional or a loop. -/
  | close

/-- **The text of a line**, made up in an environment. A local is one that was collected. -/
def Entry.text (b : Body) (env : Env) : Entry → String
  | .declarator type v =>
    b.varLine env type v ((b.table.lookupIn env.scope v.name.text).getD default)
  | .assign target value =>
    (b.assignTarget env target).2 ++ " = "
      ++ (b.site env).checkCode value (b.assignTarget env target).1 ++ ";"
  | .ret none => "return;"
  | .ret (some value) => "return " ++ b.returnCode env value ++ ";"
  | .eval expr => C.standalone expr ((b.site env).code expr) ++ ";"
  | .ifHeader cond => "if (" ++ b.condCode env cond ++ ")" ++ " \x7b"
  | .loopHeader cond => "while (" ++ b.condCode env cond ++ ")" ++ " \x7b"
  | .otherwise => "\x7d else \x7b"
  | .close => "\x7d"

theorem Entry.text_declarator {b : Body} {env : Env} {v : Declarator} {id : VarId}
    (h : b.table.lookupIn env.scope v.name.text = some id) (type : Ident) :
    (Entry.declarator type v).text b env = b.varLine env type v id := by
  rw [text, h, Option.getD_some]

/-- **A line of a body**: how many blocks of the body it stands in, what it is for, and the
environment in which it is made up. -/
structure Row where
  depth : Nat := 0
  entry : Entry
  env : Env

namespace Row

/-- A row inside one more block. -/
def deeper (r : Row) : Row :=
  { r with depth := r.depth + 1 }

/-- The line of a row. -/
def line (b : Body) (r : Row) : C.Line where
  depth := r.depth
  text := r.entry.text b r.env

theorem line_comp_deeper (b : Body) : line b ∘ deeper = C.Line.shift 1 ∘ line b := by
  funext r
  unfold deeper line C.Line.shift
  dsimp only [Function.comp_apply]
  rw [Nat.add_comm]

end Row

namespace Body

open C

/-- The rows of declarators, up to one that was not collected. -/
def varRows (b : Body) (type : Ident) : List Declarator → Env → List Row
  | [], _ => []
  | v :: rest, env =>
    match b.table.lookupIn env.scope v.name.text with
    | none => []
    | some _ =>
      { entry := .declarator type v, env := env }
        :: b.varRows type rest (env.declare b.table v.name.text)

/-- What a block has, if it is entered. -/
def ifEntered {α : Type} (inside : Except Issue Env) (other : α) (has : Env → α) : α :=
  match inside with
  | .ok env => has env
  | .error _ => other

@[simp] theorem ifEntered_ok {α : Type} (env : Env) (other : α) (has : Env → α) :
    ifEntered (.ok env) other has = has env := rfl

@[simp] theorem ifEntered_error {α : Type} (i : Issue) (other : α) (has : Env → α) :
    ifEntered (.error i) other has = other := rfl

/-- The row that closes a statement, if the body got there. -/
def closeRow (passed : Except Issue Env) : List Row :=
  match passed with
  | .ok env => [{ entry := .close, env := env }]
  | .error _ => []

mutual
/-- **The rows of a statement**, up to the place where the body stops in it. -/
def rows (b : Body) : Stmt → Env → List Row
  | .declare type vars _, env => b.varRows type vars env
  | .ifThen cond body bodySpan _, env =>
    { entry := .ifHeader cond, env := env }
      :: (ifEntered (env.enter b.table bodySpan) [] (b.rowsAll body)).map .deeper
      ++ closeRow (b.afterBlock body bodySpan env)
  | .ifElse cond body bodySpan other otherSpan _, env =>
    { entry := .ifHeader cond, env := env }
      :: (ifEntered (env.enter b.table bodySpan) [] (b.rowsAll body)).map .deeper
      ++ ifEntered (b.afterBlock body bodySpan env) [] fun env =>
        { entry := .otherwise, env := env }
          :: (ifEntered (env.enter b.table otherSpan) [] (b.rowsAll other)).map .deeper
          ++ closeRow (b.afterBlock other otherSpan env)
  | .loop cond body bodySpan _, env =>
    { entry := .loopHeader cond, env := env }
      :: (ifEntered (env.enter b.table bodySpan) [] (b.rowsAll body)).map .deeper
      ++ closeRow (b.afterBlock body bodySpan env)
  | .ret value _, env => [{ entry := .ret value, env := env }]
  | .assign target value _, env => [{ entry := .assign target value, env := env }]
  | .eval expr _, env => [{ entry := .eval expr, env := env }]
/-- The rows of a list of statements, up to the place where the body stops. -/
def rowsAll (b : Body) : List Stmt → Env → List Row
  | [], _ => []
  | s :: rest, env => b.rows s env ++ ifEntered (b.after s env) [] (b.rowsAll rest)
end

/-- How many blocks are left open where one more is opened: none if the body gets past it, and else
itself and those inside it. -/
def stillOpen (passed : Except Issue Env) (inner : Nat) : Nat :=
  match passed with
  | .ok _ => 0
  | .error _ => inner + 1

mutual
/-- **How many blocks a statement leaves open**: those of its own that stand around the place where
the body stops in it, and none if it does not. -/
def leftOpen (b : Body) : Stmt → Env → Nat
  | .declare _ _ _, _ => 0
  | .ifThen _ body bodySpan _, env =>
    stillOpen (b.afterBlock body bodySpan env)
      (ifEntered (env.enter b.table bodySpan) 0 (b.leftOpenAll body))
  | .ifElse _ body bodySpan other otherSpan _, env =>
    match b.afterBlock body bodySpan env with
    | .error _ => ifEntered (env.enter b.table bodySpan) 0 (b.leftOpenAll body) + 1
    | .ok env =>
      stillOpen (b.afterBlock other otherSpan env)
        (ifEntered (env.enter b.table otherSpan) 0 (b.leftOpenAll other))
  | .loop _ body bodySpan _, env =>
    stillOpen (b.afterBlock body bodySpan env)
      (ifEntered (env.enter b.table bodySpan) 0 (b.leftOpenAll body))
  | .ret _ _, _ => 0
  | .assign _ _ _, _ => 0
  | .eval _ _, _ => 0
/-- How many blocks a list of statements leaves open. -/
def leftOpenAll (b : Body) : List Stmt → Env → Nat
  | [], _ => 0
  | s :: rest, env =>
    match b.after s env with
    | .ok env => b.leftOpenAll rest env
    | .error _ => b.leftOpen s env
end

variable {b : Body}

/-! ## A body that gets to its end -/

/-- **A statement that is passed leaves nothing open.** -/
theorem leftOpen_eq_zero (s : Stmt) {env env' : Env} (h : b.after s env = .ok env') :
    b.leftOpen s env = 0 := by
  cases s with
  | declare type vars span => unfold leftOpen; rfl
  | ifThen cond body bodySpan span =>
    rw [after_ifThen] at h
    unfold leftOpen
    rw [h]
    rfl
  | ifElse cond body bodySpan other otherSpan span =>
    obtain ⟨env₁, hbody, hother⟩ := after_ifElse_eq_ok h
    unfold leftOpen
    rw [hbody]
    dsimp only
    rw [hother]
    rfl
  | loop cond body bodySpan span =>
    rw [after_loop] at h
    unfold leftOpen
    rw [h]
    rfl
  | ret value span => unfold leftOpen; rfl
  | assign target value span => unfold leftOpen; rfl
  | eval expr span => unfold leftOpen; rfl

theorem leftOpenAll_eq_zero (body : List Stmt) {env env' : Env}
    (h : b.afterAll body env = .ok env') :
    b.leftOpenAll body env = 0 := by
  induction body generalizing env with
  | nil => unfold leftOpenAll; rfl
  | cons s rest ih =>
    obtain ⟨env₁, hs, hrest⟩ := afterAll_cons_eq_ok h
    unfold leftOpenAll
    rw [hs]
    exact ih hrest

/-- A block that the body gets past leaves nothing open. -/
theorem ifEntered_leftOpenAll_eq_zero {body : List Stmt} {span : Span} {env env' : Env}
    (h : b.afterBlock body span env = .ok env') :
    ifEntered (env.enter b.table span) 0 (b.leftOpenAll body) = 0 := by
  obtain ⟨first, last, henter, hall, -⟩ := afterBlock_eq_ok h
  rw [henter]
  exact leftOpenAll_eq_zero body hall

/-! ## The steps of a body lay its rows -/

theorem lays_varSteps (type : Ident) (vars : List Declarator) (env : Env) :
    Lays (b.varSteps type vars env) ((b.varRows type vars env).map (Row.line b)) 0 := by
  induction vars generalizing env with
  | nil => exact lays_nil
  | cons v rest ih =>
    unfold varSteps varRows
    cases hid : b.table.lookupIn env.scope v.name.text with
    | none => exact lays_nil
    | some id =>
      have hfirst :=
        (lays_line (b.varLine env type v id)).append (ih (env.declare b.table v.name.text))
      rw [List.map_id'' Line.shift_zero] at hfirst
      rw [List.map_cons, Row.line, Entry.text_declarator hid]
      exact hfirst

theorem steps_ifThen (cond : Expr) (body : List Stmt) (bodySpan span : Span) (env : Env) :
    b.steps (.ifThen cond body bodySpan span) env
      = .opening ("if (" ++ b.condCode env cond ++ ")")
          :: ifEntered (env.enter b.table bodySpan) [] (b.stepsAll body)
        ++ closeIfReached (b.afterBlock body bodySpan env) := by
  rw [← after_ifThen cond _ _ span]
  unfold steps
  rfl

theorem steps_loop (cond : Expr) (body : List Stmt) (bodySpan span : Span) (env : Env) :
    b.steps (.loop cond body bodySpan span) env
      = .opening ("while (" ++ b.condCode env cond ++ ")")
          :: ifEntered (env.enter b.table bodySpan) [] (b.stepsAll body)
        ++ closeIfReached (b.afterBlock body bodySpan env) := by
  rw [← after_loop cond _ _ span]
  unfold steps
  rfl

theorem steps_ifElse (cond : Expr) (body : List Stmt) (bodySpan : Span) (other : List Stmt)
    (otherSpan span : Span) (env : Env) :
    b.steps (.ifElse cond body bodySpan other otherSpan span) env
      = .opening ("if (" ++ b.condCode env cond ++ ")")
          :: ifEntered (env.enter b.table bodySpan) [] (b.stepsAll body)
        ++ ifEntered (b.afterBlock body bodySpan env) [] fun env =>
          [.closing "\x7d else \x7b", .indent]
            ++ ifEntered (env.enter b.table otherSpan) [] (b.stepsAll other)
            ++ closeIfReached (b.afterBlock other otherSpan env) := by
  unfold steps
  rw [after_ifElse]
  cases b.afterBlock body bodySpan env with
  | error i =>
    show _ :: (_ ++ [] ++ []) = _ ++ []
    rw [List.append_nil]
    rfl
  | ok env₁ =>
    show _ :: (_ ++ _ ++ _) = _ :: _ ++ _
    rw [List.append_assoc]
    rfl

section Blocks

variable {body : List Stmt}
  (h : ∀ env, Lays (b.stepsAll body env) ((b.rowsAll body env).map (Row.line b))
    (b.leftOpenAll body env))
include h

/-- What is written inside a block. -/
theorem lays_inside (inside : Except Issue Env) :
    Lays (ifEntered inside [] (b.stepsAll body))
      ((ifEntered inside [] (b.rowsAll body)).map (Row.line b))
      (ifEntered inside 0 (b.leftOpenAll body)) := by
  cases inside with
  | error i => exact lays_nil
  | ok env => exact h env

/-- What is written from the header of a block on. -/
theorem lays_opened {header : String} (entry : Entry) (env : Env)
    (htext : entry.text b env = header ++ " \x7b") (inside : Except Issue Env) :
    Lays (.opening header :: ifEntered inside [] (b.stepsAll body))
      (({ entry := entry, env := env : Row }
        :: (ifEntered inside [] (b.rowsAll body)).map Row.deeper).map (Row.line b))
      (ifEntered inside 0 (b.leftOpenAll body) + 1) := by
  have hopened := (lays_inside h inside).opening header
  rw [← htext, List.map_map] at hopened
  rw [List.map_cons, List.map_map, Row.line_comp_deeper]
  exact hopened

end Blocks

/-- A statement is closed if the body got there. -/
theorem lays_closed {steps : List Step} {rows : List Row} {inner : Nat}
    (h : Lays steps (rows.map (Row.line b)) (inner + 1)) {passed : Except Issue Env}
    (hinner : ∀ env, passed = .ok env → inner = 0) :
    Lays (steps ++ closeIfReached passed) ((rows ++ closeRow passed).map (Row.line b))
      (stillOpen passed inner) := by
  rw [List.map_append]
  cases passed with
  | error i =>
    unfold closeIfReached closeRow
    rw [List.append_nil, List.map_nil, List.append_nil]
    exact h
  | ok env =>
    rw [hinner env rfl] at h
    exact h.closing "\x7d"

mutual
/-- **The steps of a statement lay its rows**, and end as many levels deeper as it leaves blocks
open. -/
theorem lays_steps : (s : Stmt) → (env : Env) →
    Lays (b.steps s env) ((b.rows s env).map (Row.line b)) (b.leftOpen s env)
  | .declare type vars _, env => by
    unfold steps rows leftOpen
    exact lays_varSteps type vars env
  | .ifThen cond body bodySpan span, env => by
    rw [steps_ifThen]
    unfold rows leftOpen
    exact lays_closed (lays_opened (lays_stepsAll body) _ env rfl _)
      fun _ => ifEntered_leftOpenAll_eq_zero
  | .ifElse cond body bodySpan other otherSpan span, env => by
    have hopened := lays_opened (lays_stepsAll body) (.ifHeader cond) env rfl
      (env.enter b.table bodySpan)
    rw [steps_ifElse]
    unfold rows leftOpen
    cases hbody : b.afterBlock body bodySpan env with
    | error i =>
      rw [ifEntered_error, ifEntered_error, List.append_nil, List.append_nil]
      exact hopened
    | ok env₁ =>
      -- The line between the blocks stands where the header does, and the second block one deeper.
      rw [ifEntered_leftOpenAll_eq_zero hbody] at hopened
      have hother := (hopened.reopening "\x7d else \x7b").append
        (lays_inside (lays_stepsAll other) (env₁.enter b.table otherSpan))
      rw [List.map_map, ← Row.line_comp_deeper, ← List.map_map, Nat.add_comm (0 + 1)] at hother
      rw [ifEntered_ok, ifEntered_ok, ← List.append_assoc, ← List.append_assoc,
        ← List.append_assoc]
      refine lays_closed ?_ fun _ => ifEntered_leftOpenAll_eq_zero
      rw [List.map_append]
      simpa [Row.line, Entry.text] using hother
  | .loop cond body bodySpan span, env => by
    rw [steps_loop]
    unfold rows leftOpen
    exact lays_closed (lays_opened (lays_stepsAll body) _ env rfl _)
      fun _ => ifEntered_leftOpenAll_eq_zero
  | .ret none _, env => by
    unfold steps rows leftOpen
    exact lays_line _
  | .ret (some value) _, env => by
    unfold steps rows leftOpen
    exact lays_line _
  | .assign target value _, env => by
    unfold steps rows leftOpen
    exact lays_line _
  | .eval expr _, env => by
    unfold steps rows leftOpen
    exact lays_line _
theorem lays_stepsAll : (body : List Stmt) → (env : Env) →
    Lays (b.stepsAll body env) ((b.rowsAll body env).map (Row.line b)) (b.leftOpenAll body env)
  | [], _ => by
    unfold stepsAll rowsAll leftOpenAll
    exact lays_nil
  | s :: rest, env => by
    have hs := lays_steps s env
    unfold stepsAll rowsAll leftOpenAll
    cases hafter : b.after s env with
    | error i =>
      rw [ifEntered_error]
      dsimp only
      rw [List.append_nil, List.append_nil]
      exact hs
    | ok env' =>
      -- What is got past leaves nothing open, so the rest begins at the same depth.
      rw [leftOpen_eq_zero s hafter] at hs
      have hall := hs.append (lays_stepsAll rest env')
      rw [List.map_id'' Line.shift_zero, Nat.zero_add] at hall
      rw [List.map_append]
      exact hall
end

end Body

/-! ## Definitions -/

namespace C

/-- **How many blocks the definition of a method leaves open.** -/
def leftOpenBy (t : SymbolTable) (m : MethodId) (body : List Stmt) : Nat :=
  Body.leftOpenAll ⟨t, m⟩ body (Body.start ⟨t, m⟩)

/-- **The lines of the definition of a method**: its signature, the rows of its body one deeper, and
the brace that closes what is then the innermost block. -/
def definitionLines (t : SymbolTable) (m : MethodId) (body : List Stmt) : List Line :=
  { depth := 0, text := signature t m ++ " \x7b" }
    :: ((Body.rowsAll ⟨t, m⟩ body (Body.start ⟨t, m⟩)).map (Row.line ⟨t, m⟩)).map (.shift 1)
    ++ [{ depth := leftOpenBy t m body, text := "\x7d" }]

/-- **The definition of a method lays its lines**, and leaves open what its body does. -/
theorem lays_definition (t : SymbolTable) (m : MethodId) (body : List Stmt) :
    Lays (definitionSteps t m body) (definitionLines t m body) (leftOpenBy t m body) :=
  ((Body.lays_stepsAll body _).opening (signature t m)).closing "\x7d"

end C

end Heritage
