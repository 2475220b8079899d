import Heritage.Compilation
import Heritage.Proofs.Rows
import Mathlib.Algebra.Ring.Nat

/-!
# Blocks that are left open

A file can be written for a tree that is not the one its symbols were collected
from, and then a body may stop before its end. What is found wrong with a method
is no concern of its neighbours. The lines of its definition are: one `Layout`
writes all definitions, a body that stops closes none of the blocks that it
stopped in, and all that is written behind it stands deeper by their number.

Main statement: each definition has the lines that it would have alone, moved to
the right by the number of blocks left open before it. So it is disturbed by its
neighbours exactly if levels have a width and one of the methods before it
stopped inside a block (`definitions_moved_by_left_open`).
-/

namespace Heritage

namespace C

/-! ## Lines that are moved -/

/-- Lines written out where so many blocks are open. -/
def renderAt (width d : Nat) (lines : List Line) : List String :=
  lines.map fun l => (l.shift d).render width

@[simp] theorem Line.render_blank (width d : Nat) :
    ({ depth := d, text := "" } : Line).render width = "" := rfl

@[simp] theorem renderAt_zero (width : Nat) (lines : List Line) :
    renderAt width 0 lines = lines.map (Line.render width) := by
  unfold renderAt
  simp only [Line.shift_zero]

/-- A line is written alike at two depths only if the spaces before it are as many. -/
theorem Line.render_shift_eq_iff {l : Line} (h : l.text ≠ "") (width d : Nat) :
    (l.shift d).render width = (l.shift 0).render width ↔ width = 0 ∨ d = 0 := by
  rw [render_shift h, render_shift h]
  constructor
  · intro heq
    have hlength := congrArg String.length heq
    simp only [String.length_append, String.length_ofList, List.length_replicate,
      Nat.add_mul] at hlength
    have hzero : d * width = 0 := by omega
    exact (Nat.mul_eq_zero.mp hzero).symm
  · rintro (rfl | rfl)
    · rfl
    · rfl

theorem renderAt_eq_iff {l : Line} (h : l.text ≠ "") (rest : List Line) (width d : Nat) :
    renderAt width d (l :: rest) = renderAt width 0 (l :: rest) ↔ width = 0 ∨ d = 0 := by
  constructor
  · intro heq
    exact (Line.render_shift_eq_iff h width d).mp (List.cons.inj heq).1
  · intro hzero
    refine List.map_congr_left fun l' _ => ?_
    by_cases h' : l'.text = ""
    · unfold Line.render Line.shift
      rw [if_pos h', if_pos h']
    · exact (Line.render_shift_eq_iff h' width d).mpr hzero

/-! ## Blocks of steps that leave blocks open -/

/-- **What leaves blocks open moves what stands behind it.** -/
theorem render_separated {α : Type} {steps : α → List Step} {lines : α → List Line}
    {left : α → Nat} (h : ∀ a, Lays (steps a) (lines a) (left a)) (width : Nat) (xs : List α)
    (l : Layout) :
    ((separated (xs.map steps)).foldl Layout.step l).lines.map (Line.render width)
      = l.lines.map (Line.render width)
        ++ [""].intercalate (xs.mapIdx fun i a =>
          renderAt width (l.depth + ((xs.take i).map left).sum) (lines a)) := by
  unfold separated
  induction xs generalizing l with
  | nil => simp
  | cons a rest ih =>
    cases rest with
    | nil => simp [h a l, renderAt, Function.comp_def]
    | cons a' rest =>
      -- Behind the first block and the empty line the depth is that of the first block.
      have hblank : ([Step.blank] : List Step).foldl Layout.step ((steps a).foldl Layout.step l)
          = { lines := l.lines ++ (lines a).map (.shift l.depth)
                ++ [{ depth := l.depth + left a, text := "" }]
              depth := l.depth + left a } := by
        rw [h a l]
        rfl
      rw [List.map_cons, List.map_cons, List.intercalate_cons_cons, List.foldl_append,
        List.foldl_append, hblank, ← List.map_cons, ih]
      simp [List.mapIdx_cons, List.intercalate_cons_cons, renderAt, Function.comp_def,
        Nat.add_assoc]

/-! ## Definitions -/

/-- How many blocks are open where a definition begins. -/
def openBefore (t : SymbolTable) (methods : List (MethodId × MethodDecl)) (i : Nat) : Nat :=
  ((methods.take i).map fun m => leftOpenBy t m.1 m.2.body).sum

/-- The definitions of a file, each moved by what those before it leave open. -/
theorem File.render_definitions (t : SymbolTable) (tree : Program) (width : Nat) :
    (File.ofTable t tree).definitions.map (Line.render width)
      = [""].intercalate ((heldMethods t tree).mapIdx fun i m =>
        renderAt width (openBefore t (heldMethods t tree) i)
          (linesOf (definitionSteps t m.1 m.2.body))) := by
  have hrender := render_separated (fun m : MethodId × MethodDecl =>
    lays_definition t m.1 m.2.body) width (heldMethods t tree) {}
  rw [List.map_nil, List.nil_append] at hrender
  refine hrender.trans (congrArg _ (List.mapIdx_eq_mapIdx_iff.mpr fun i hi => ?_))
  rw [(lays_definition t _ _).linesOf_eq, Nat.zero_add]
  rfl

theorem renderAt_definition_eq_iff (t : SymbolTable) (m : MethodId × MethodDecl) (width d : Nat) :
    renderAt width d (linesOf (definitionSteps t m.1 m.2.body))
        = renderAt width 0 (linesOf (definitionSteps t m.1 m.2.body))
      ↔ width = 0 ∨ d = 0 := by
  rw [(lays_definition t m.1 m.2.body).linesOf_eq]
  exact renderAt_eq_iff (by simp) _ width d

/-- The body of a method ends as many levels deeper as it leaves blocks open. -/
theorem depth_bodySteps (t : SymbolTable) (m : MethodId) (body : List Stmt) (l : Layout) :
    ((Body.bodySteps ⟨t, m⟩ body).foldl Layout.step l).depth = l.depth + leftOpenBy t m body := by
  rw [show Body.bodySteps ⟨t, m⟩ body = Body.stepsAll ⟨t, m⟩ body (Body.start ⟨t, m⟩) from rfl,
    Body.lays_stepsAll]
  rfl

theorem openBefore_eq_zero_iff (t : SymbolTable) (methods : List (MethodId × MethodDecl))
    (i : Nat) :
    openBefore t methods i = 0
      ↔ ∀ m ∈ methods.take i, leftOpenBy t m.1 m.2.body = 0 := by
  unfold openBefore
  rw [List.sum_eq_zero_iff_forall_eq_nat]
  exact List.forall_mem_map

end C

/-- **A definition is moved by the blocks that are left open before it**, and by nothing else of its
neighbours. For every table and tree, whether or not they belong together, what is found wrong is
found method by method, and the definitions are what each one is alone, moved by as many levels as
the bodies before it left blocks open; which shows exactly if levels have a width and there are
such blocks. A body ends deeper by the blocks that it leaves open, and leaves none open if it gets
to its end. -/
theorem definitions_moved_by_left_open (t : SymbolTable) (tree : Program) (width : Nat) :
    (C.File.ofTable t tree).issues = (C.methodsInTree t tree).flatMap (C.methodIssues t)
      ∧ (C.File.ofTable t tree).definitions.map (C.Line.render width)
        = [""].intercalate ((C.heldMethods t tree).mapIdx fun i m =>
          C.renderAt width (C.openBefore t (C.heldMethods t tree) i)
            (C.linesOf (C.definitionSteps t m.1 m.2.body)))
      ∧ (∀ i m, (C.heldMethods t tree)[i]? = some m →
        (C.renderAt width (C.openBefore t (C.heldMethods t tree) i)
            (C.linesOf (C.definitionSteps t m.1 m.2.body))
          = C.renderAt width 0 (C.linesOf (C.definitionSteps t m.1 m.2.body))
        ↔ width = 0 ∨ ∀ m' ∈ (C.heldMethods t tree).take i, C.leftOpenBy t m'.1 m'.2.body = 0))
      ∧ ∀ m ∈ C.heldMethods t tree,
        (∀ l : C.Layout, ((Body.bodySteps ⟨t, m.1⟩ m.2.body).foldl C.Layout.step l).depth
          = l.depth + C.leftOpenBy t m.1 m.2.body)
        ∧ ∀ env, Body.afterAll ⟨t, m.1⟩ m.2.body (Body.start ⟨t, m.1⟩) = .ok env →
          C.leftOpenBy t m.1 m.2.body = 0 := by
  refine ⟨rfl, C.File.render_definitions t tree width, fun i m _ => ?_, fun m _ => ⟨?_, ?_⟩⟩
  · rw [C.renderAt_definition_eq_iff, C.openBefore_eq_zero_iff]
  · exact C.depth_bodySteps t m.1 m.2.body
  · exact fun env => Body.leftOpenAll_eq_zero m.2.body

/-- A method that does nothing in a block. -/
def pausing : MethodDecl where
  name := ⟨"m", {}⟩
  params := [⟨⟨"self", {}⟩, none, {}⟩]
  returnType := none
  body := [.ifThen (.int 1 {}) [] {} {}]
  bodySpan := {}
  span := {}

/-- The same method with a local in the block. -/
def straying : MethodDecl :=
  { pausing with
    body := [.ifThen (.int 1 {}) [.declare ⟨"int", {}⟩ [⟨⟨"x", {}⟩, none, {}⟩] {}] {} {}] }

/-- A method with nothing in it. -/
def resting : MethodDecl :=
  { pausing with name := ⟨"n", {}⟩, body := [] }

/-- A class with two methods. -/
def neighbours (first second : MethodDecl) : Program where
  classes := [⟨⟨"A", {}⟩, [], [.method first, .method second], {}⟩]
  span := {}

/-- The symbols of the class whose first method has no local. -/
def neighboursTable : SymbolTable :=
  (Compilation.run {} (neighbours pausing resting)).resolved.table

/-- A method that strays from its symbols inside a block moves the one behind it, which itself gets
to its end. -/
theorem straying_moves_next :
    (C.heldMethods neighboursTable (neighbours straying resting))[1]? = some (1, resting)
      ∧ C.leftOpenBy neighboursTable 0 straying.body = 1
      ∧ C.leftOpenBy neighboursTable 1 resting.body = 0
      ∧ C.renderAt 4 (C.openBefore neighboursTable
            (C.heldMethods neighboursTable (neighbours straying resting)) 1)
          (C.linesOf (C.definitionSteps neighboursTable 1 resting.body))
        ≠ C.renderAt 4 0 (C.linesOf (C.definitionSteps neighboursTable 1 resting.body)) := by
  obtain ⟨-, -, moved, bodies⟩ :=
    definitions_moved_by_left_open neighboursTable (neighbours straying resting) 4
  have second : (C.heldMethods neighboursTable (neighbours straying resting))[1]?
      = some (1, resting) := by with_unfolding_all rfl
  have left : C.leftOpenBy neighboursTable 0 straying.body = 1 := by decide +kernel
  refine ⟨second, left, (bodies _ (List.mem_of_getElem? second)).2 _ rfl, fun heq => ?_⟩
  obtain hwidth | hnone := (moved 1 _ second).mp heq
  · exact absurd hwidth (by decide)
  · have first : (0, straying)
        ∈ (C.heldMethods neighboursTable (neighbours straying resting)).take 1 := by
      with_unfolding_all exact List.mem_cons_self
    exact absurd (hnone (0, straying) first) (left ▸ Nat.one_ne_zero)

/-- **A body that stops inside a block disturbs its neighbour**: with the same symbols, method and
body, the definition of the second method is written one level deeper if the first one strays,
whose body takes a layout from depth one to depth two. -/
theorem straying_disturbs :
    (1, resting) ∈ C.heldMethods neighboursTable (neighbours pausing resting)
      ∧ (1, resting) ∈ C.heldMethods neighboursTable (neighbours straying resting)
      ∧ (C.File.ofTable neighboursTable (neighbours pausing resting)).definitions.map (·.render 4)
        = ["void A_m(A *self) \x7b", "    if (1) \x7b", "    \x7d", "\x7d", "",
          "void A_n(A *self) \x7b", "\x7d"]
      ∧ (C.File.ofTable neighboursTable (neighbours straying resting)).definitions.map (·.render 4)
        = ["void A_m(A *self) \x7b", "    if (1) \x7b", "    \x7d", "",
          "    void A_n(A *self) \x7b", "    \x7d"]
      ∧ ((Body.bodySteps ⟨neighboursTable, 0⟩ straying.body).foldl C.Layout.step
          { depth := 1 }).depth = 2 :=
  ⟨List.mem_of_getElem? (i := 1) (by with_unfolding_all rfl),
    List.mem_of_getElem? (i := 1) (by with_unfolding_all rfl), by decide +kernel,
    by decide +kernel, by decide +kernel⟩

end Heritage
