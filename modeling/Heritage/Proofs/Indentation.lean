import Heritage.Compilation
import Heritage.Proofs.Parts
import Mathlib.Data.List.DropRight

/-!
# What the layout of a text can change

The width of a level, the comment at the top and the name in it are choices
about how a text looks. The width is read in one place, where a line is written
out, and there it only pads; so two texts of one file are the same once the
spaces at the beginning of their lines are gone
(`C.File.unindent_plainText`). The comment is a section of its own before
everything else (`C.File.text_eq_withBanner`). What is accepted, what is
reported and what is counted do not read these options at all.

A text can also be put together in another way: every struct and every
definition with an empty line behind it, each section written out, the white
space at its end cut off, and what is then empty left out. This gives the same
text (`C.assembled_eq_text`), whatever the names of the program are, since every
section ends in a `;`, a brace or the end of a comment, and so nothing but
empty lines is ever cut.
-/

namespace Heritage

namespace C

/-! ## Texts without their indentation -/

/-- Characters without the spaces that lines begin with. The flag says whether
a line begins here. -/
def unindentFrom : Bool → List Char → List Char
  | _, [] => []
  | start, c :: rest =>
    if start && c == ' ' then unindentFrom true rest else c :: unindentFrom (c == '\n') rest

/-- **A text without the spaces that its lines begin with.** -/
def unindent (text : String) : String :=
  String.ofList (unindentFrom true text.toList)

example : unindent "if (x) \x7b\n    a b\n\n  \x7d\n" = "if (x) \x7b\na b\n\n\x7d\n" := by decide

/-- After the end of a line nothing of what was before it matters. -/
theorem unindentFrom_append_newline (start : Bool) (xs ys : List Char) :
    unindentFrom start (xs ++ '\n' :: ys)
      = unindentFrom start xs ++ '\n' :: unindentFrom true ys := by
  induction xs generalizing start with
  | nil => simp [unindentFrom]
  | cons c rest ih =>
    rw [List.cons_append, unindentFrom, unindentFrom, ih, ih]
    split <;> rfl

theorem unindentFrom_spaces (n : Nat) (xs : List Char) :
    unindentFrom true (List.replicate n ' ' ++ xs) = unindentFrom true xs := by
  induction n with
  | zero => rfl
  | succ n ih => simpa [List.replicate_succ, unindentFrom] using ih

/-- **Lines lose their indentation one by one.** -/
theorem unindent_append_newline (a b : String) :
    unindent (a ++ "\n" ++ b) = unindent a ++ "\n" ++ unindent b := by
  rw [← String.toList_inj]
  simp [unindent, unindentFrom_append_newline]

theorem unindent_append_blank (a b : String) :
    unindent (a ++ "\n\n" ++ b) = unindent a ++ "\n\n" ++ unindent b := by
  have split (a b : String) : a ++ "\n\n" ++ b = a ++ "\n" ++ "" ++ "\n" ++ b := by
    simp [← String.toList_inj]
  rw [split, unindent_append_newline, unindent_append_newline, split]
  rfl

theorem unindent_intercalate {sep : String}
    (hsep : ∀ a b, unindent (a ++ sep ++ b) = unindent a ++ sep ++ unindent b)
    (texts : List String) :
    unindent (sep.intercalate texts) = sep.intercalate (texts.map unindent) := by
  induction texts with
  | nil => rfl
  | cons a rest ih =>
    cases rest with
    | nil => simp only [List.map_cons, List.map_nil, String.intercalate_singleton]
    | cons b rest =>
      rw [String.intercalate_cons_cons, hsep, ih]
      exact String.intercalate_cons_cons.symm

/-- The width of a level is gone with the indentation. -/
theorem unindent_render (width : Nat) (l : Line) : unindent (l.render width) = unindent l.text := by
  unfold Line.render
  split
  · rw [‹l.text = ""›]
  · simp [unindent, unindentFrom_spaces]

theorem unindent_sectionText (width : Nat) (lines : List Line) :
    unindent (sectionText width lines) = "\n".intercalate (lines.map fun l => unindent l.text) := by
  unfold sectionText
  rw [unindent_intercalate unindent_append_newline, List.map_map]
  exact congrArg _ (List.map_congr_left fun l _ => unindent_render width l)

/-! ## Sections put together -/

/-- Texts with a blank line between them and the end of a line behind the
last. -/
def paragraphs : List String → String
  | [] => ""
  | texts => "\n\n".intercalate texts ++ "\n"

/-- Indentation is taken from each paragraph by itself. -/
theorem unindent_paragraphs (texts : List String) :
    unindent (paragraphs texts) = paragraphs (texts.map unindent) := by
  cases texts with
  | nil => rfl
  | cons a rest =>
    show unindent ("\n\n".intercalate (a :: rest) ++ "\n")
      = "\n\n".intercalate ((a :: rest).map unindent) ++ "\n"
    rw [← unindent_intercalate unindent_append_blank]
    -- The text behind the last end of a line is the empty one.
    rw [← String.append_empty (s := "\n\n".intercalate (a :: rest) ++ "\n"),
      unindent_append_newline]
    exact String.append_empty

/-- The texts of the sections that have something in them. -/
def sectionTexts (width : Nat) (sections : List (List Line)) : List String :=
  (sections.filter fun lines => !lines.isEmpty).map (sectionText width)

/-- **The text of a file is that of its sections**, as paragraphs. -/
theorem File.text_eq_paragraphs (o : Options) (f : File) :
    f.text o = paragraphs (sectionTexts o.indentWidth (bannerSection o :: f.sections)) := by
  unfold File.text fileText sectionTexts
  cases (bannerSection o :: f.sections).filter fun lines => !lines.isEmpty <;> rfl

/-- **The text of a file without its comment.** -/
def File.plainText (width : Nat) (f : File) : String :=
  paragraphs (sectionTexts width f.sections)

/-- **A text with the comment that the options ask for**: one line, and a blank
one behind it if anything follows. -/
def withBanner (o : Options) (text : String) : String :=
  if o.banner then bannerLine o.unitName ++ "\n" ++ (if text = "" then "" else "\n" ++ text)
  else text

theorem paragraphs_cons (a : String) (texts : List String) :
    paragraphs (a :: texts)
      = a ++ "\n" ++ (if paragraphs texts = "" then "" else "\n" ++ paragraphs texts) := by
  cases texts with
  | nil => simp [paragraphs]
  | cons b rest =>
    have hne : paragraphs (b :: rest) ≠ "" := by simp [paragraphs, ← String.toList_inj]
    rw [if_neg hne]
    simp [paragraphs, String.intercalate_cons_cons, ← String.toList_inj]

theorem Line.render_zero (width : Nat) (text : String) :
    Line.render width { depth := 0, text := text } = text := by
  unfold Line.render
  split
  · exact Eq.symm ‹text = ""›
  · simp

/-- The options are read by the comment and by the indentation, and by nothing
else. -/
theorem File.text_eq_withBanner (o : Options) (f : File) :
    f.text o = withBanner o (f.plainText o.indentWidth) := by
  rw [f.text_eq_paragraphs]
  unfold withBanner bannerSection
  split
  · have hbanner : sectionText o.indentWidth [{ depth := 0, text := bannerLine o.unitName }]
        = bannerLine o.unitName := by
      rw [sectionText, List.map_singleton, String.intercalate_singleton, Line.render_zero]
    calc paragraphs (sectionTexts o.indentWidth ([_] :: f.sections))
        = paragraphs (sectionText o.indentWidth [_] :: sectionTexts o.indentWidth f.sections) := rfl
      _ = _ := by rw [paragraphs_cons, hbanner]; rfl
  · rfl

/-- **Two widths give the same text once the indentation is gone.** -/
theorem File.unindent_plainText (width width' : Nat) (f : File) :
    unindent (f.plainText width) = unindent (f.plainText width') := by
  unfold File.plainText sectionTexts
  rw [unindent_paragraphs, unindent_paragraphs, List.map_map, List.map_map]
  exact congrArg paragraphs (List.map_congr_left fun lines _ =>
    (unindent_sectionText width lines).trans (unindent_sectionText width' lines).symm)

/-! ## Sections cut at their ends -/

/-- White space: the blank, the control characters that move on, and the
spaces of other scripts. -/
def isBlank (c : Char) : Bool :=
  (0x09 ≤ c.toNat && c.toNat ≤ 0x0d) || (0x2000 ≤ c.toNat && c.toNat ≤ 0x200a)
    || c.toNat ∈ [0x20, 0x85, 0xa0, 0x1680, 0x2028, 0x2029, 0x202f, 0x205f, 0x3000]

/-- A text without the white space at its end. -/
def trimEnd (text : String) : String :=
  String.ofList (text.toList.rdropWhile isBlank)

/-- The text ends in a character that is no white space. -/
def EndsInk (text : String) : Prop :=
  ∃ c, lastChar? text = some c ∧ isBlank c = false

theorem trimEnd_append_newline (text : String) : trimEnd (text ++ "\n") = trimEnd text := by
  have h : (text ++ "\n").toList = text.toList ++ ['\n'] := by simp
  rw [trimEnd, h, List.rdropWhile_concat_pos _ _ _ (by decide), trimEnd]

theorem EndsInk.trimEnd_eq {text : String} (h : EndsInk text) : trimEnd text = text := by
  obtain ⟨c, hc, hblank⟩ := h
  obtain ⟨front, hfront⟩ := List.getLast?_eq_some_iff.mp hc
  rw [trimEnd, hfront, List.rdropWhile_concat_neg _ _ _ (by simp [hblank]), ← hfront,
    String.ofList_toList]

theorem EndsInk.append {text : String} (h : EndsInk text) (front : String) :
    EndsInk (front ++ text) := by
  obtain ⟨c, hc, hblank⟩ := h
  refine ⟨c, ?_, hblank⟩
  unfold lastChar? at hc ⊢
  rw [String.toList_append, List.getLast?_append, hc, Option.some_or]

theorem EndsInk.ne_empty {text : String} (h : EndsInk text) : text ≠ "" := by
  rintro rfl
  obtain ⟨c, hc, -⟩ := h
  cases hc

/-- The last of the lines, if there is one, ends in a character that is no
white space. -/
def Finished (lines : List Line) : Prop :=
  ∀ l ∈ lines.getLast?, EndsInk l.text

theorem Finished.endsInk_sectionText {lines : List Line} (h : Finished lines) (hne : lines ≠ [])
    (width : Nat) : EndsInk (sectionText width lines) := by
  induction lines with
  | nil => exact absurd rfl hne
  | cons l rest ih =>
    unfold sectionText at ih ⊢
    cases rest with
    | nil =>
      have hl : EndsInk l.text := h l rfl
      rw [List.map_singleton, String.intercalate_singleton, Line.render, if_neg hl.ne_empty]
      exact hl.append _
    | cons l' rest =>
      rw [List.map_cons, List.map_cons, String.intercalate_cons_cons, ← List.map_cons]
      exact (ih h (List.cons_ne_nil _ _)).append _

theorem join_newlines {texts : List String} (hne : texts ≠ []) :
    String.join (texts.map (· ++ "\n")) = "\n".intercalate texts ++ "\n" := by
  induction texts with
  | nil => exact absurd rfl hne
  | cons a rest ih =>
    cases rest with
    | nil => simp
    | cons b rest =>
      rw [List.map_cons, String.join_cons, ih (List.cons_ne_nil _ _),
        String.intercalate_cons_cons, String.append_assoc, String.append_assoc,
        String.append_assoc]

/-- **Steps that write a section**, with nothing but empty lines behind it: cut
at the end, what they write is the text of the section. -/
structure Writes (steps : List Step) (lines : List Line) : Prop where
  /-- The section ends in a character that is no white space. -/
  finished : Finished lines
  /-- The section is what is not cut off. -/
  trimmed (width : Nat) : trimEnd ((Layout.run steps).text width) = sectionText width lines

theorem Finished.writes {steps : List Step} (h : Finished (linesOf steps)) :
    Writes steps (linesOf steps) where
  finished := h
  trimmed width := by
    by_cases hne : linesOf steps = []
    · rw [Layout.text, show (Layout.run steps).lines = [] from hne, hne]
      rfl
    · have hlines : (Layout.run steps).text width = sectionText width (linesOf steps) ++ "\n" := by
        have hmap : (linesOf steps).map (Line.render width) ≠ [] := mt List.map_eq_nil_iff.mp hne
        rw [sectionText, ← join_newlines hmap, List.map_map]
        rfl
      rw [hlines, trimEnd_append_newline, (h.endsInk_sectionText hne width).trimEnd_eq]

theorem writes_nil : Writes [] [] :=
  Finished.writes fun _ hl => nomatch hl

theorem linesOf_concat (steps : List Step) (s : Step) :
    linesOf (steps ++ [s]) = ((Layout.run steps).step s).lines := by
  unfold linesOf Layout.run
  rw [List.foldl_append, List.foldl_cons, List.foldl_nil]

/-- An empty line at the end is cut off. -/
theorem trimEnd_text_blank (width : Nat) (steps : List Step) :
    trimEnd ((Layout.run (steps ++ [.blank])).text width)
      = trimEnd ((Layout.run steps).text width) := by
  have hlines : (Layout.run (steps ++ [.blank])).lines = (Layout.run steps).lines ++ [_] :=
    linesOf_concat steps .blank
  unfold Layout.text
  rw [hlines, List.map_append, String.join_append, List.map_singleton]
  exact trimEnd_append_newline _

/-- Lines that end by closing a block end with ink. -/
theorem finished_closing (steps : List Step) {text : String} (h : EndsInk text) :
    Finished (linesOf (steps ++ [.closing text])) := by
  have hlines : linesOf (steps ++ [.closing text]) = linesOf steps ++ [_] :=
    linesOf_concat steps (.closing text)
  intro l hl
  rw [hlines, List.getLast?_concat] at hl
  cases hl
  exact h

theorem finished_map_line {α : Type} {f : α → String} (h : ∀ a, EndsInk (f a)) (xs : List α) :
    Finished (linesOf (xs.map fun a => .line (f a))) := by
  intro l hl
  rw [linesOf_map_line, List.getLast?_map] at hl
  obtain ⟨a, -, rfl⟩ := Option.map_eq_some_iff.mp hl
  exact h a

/-- The steps end by closing a block, and not with white space. -/
def Closes (steps : List Step) : Prop :=
  ∃ front text, steps = front ++ [.closing text] ∧ EndsInk text

/-- A blank line between the blocks is a blank line behind each but the last. -/
theorem separated_concat (blocks : List (List Step)) (b : List Step) :
    separated (blocks ++ [b]) = blocks.flatMap (· ++ [.blank]) ++ b := by
  induction blocks with
  | nil => exact List.intercalate_singleton
  | cons b' rest ih =>
    have hcons : separated (b' :: (rest ++ [b])) = b' ++ [.blank] ++ separated (rest ++ [b]) := by
      cases rest <;> exact List.intercalate_cons_cons
    rw [List.cons_append, hcons, ih, List.flatMap_cons, List.append_assoc (b' ++ [Step.blank])]

/-- Blocks with a blank line behind each write the blocks with blank lines
between them. -/
theorem writes_blocks {blocks : List (List Step)} (h : ∀ b ∈ blocks, Closes b) :
    Writes (blocks.flatMap (· ++ [.blank])) (linesOf (separated blocks)) := by
  rcases List.eq_nil_or_concat' blocks with rfl | ⟨front, last, rfl⟩
  · exact writes_nil
  · obtain ⟨steps, text, rfl, htext⟩ := h last (by simp)
    -- The blank line behind the last block is the only one to be cut.
    have hwrites := (finished_closing (front.flatMap (· ++ [.blank]) ++ steps) htext).writes
    rw [List.append_assoc, ← separated_concat] at hwrites
    refine ⟨hwrites.finished, fun width => ?_⟩
    rw [← hwrites.trimmed, separated_concat, List.flatMap_append, List.flatMap_singleton,
      ← List.append_assoc, trimEnd_text_blank]

/-! ## A text assembled from cut sections -/

/-- What is written into each section of a text, with a blank line behind each
struct and each definition. -/
def sectionSteps (o : Options) (t : SymbolTable) (p : Program) : List (List Step) :=
  [ if o.banner then [.line (bannerLine o.unitName)] else [],
    t.classes.map typedefStep,
    (t.structOrder.map (structSteps t)).flatMap (· ++ [.blank]),
    (heldMethods t p).map fun m => prototypeStep t m.1,
    ((heldMethods t p).map fun m => definitionSteps t m.1 m.2.body).flatMap (· ++ [.blank]) ]

/-- **A text assembled from its sections**, each of them written out and cut at
its end, and left out if nothing remains. -/
def assembled (o : Options) (t : SymbolTable) (p : Program) : String :=
  paragraphs (((sectionSteps o t p).map fun steps =>
    trimEnd ((Layout.run steps).text o.indentWidth)).filter (· != ""))

theorem endsInk_append_semicolon (text : String) : EndsInk (text ++ ";") :=
  EndsInk.append ⟨';', rfl, rfl⟩ text

theorem bannerLine_endsInk (unitName : String) : EndsInk (bannerLine unitName) :=
  EndsInk.append ⟨'/', rfl, rfl⟩ _

theorem structSteps_closes (t : SymbolTable) (c : ClassId) : Closes (structSteps t c) :=
  ⟨_, "\x7d;", rfl, ';', rfl, rfl⟩

theorem definitionSteps_closes (t : SymbolTable) (m : MethodId) (body : List Stmt) :
    Closes (definitionSteps t m body) :=
  ⟨.opening (signature t m) :: { table := t, method := m : Body }.bodySteps body, "\x7d", rfl,
    '\x7d', rfl, rfl⟩

theorem Finished.sectionText_ne_empty {lines : List Line} (h : Finished lines) (width : Nat) :
    (sectionText width lines != "") = !lines.isEmpty := by
  cases lines with
  | nil => rfl
  | cons l rest =>
    simpa using (h.endsInk_sectionText (List.cons_ne_nil l rest) width).ne_empty

theorem sectionSteps_write (o : Options) (t : SymbolTable) (p : Program) :
    List.Forall₂ Writes (sectionSteps o t p) (bannerSection o :: (File.ofTable t p).sections) := by
  refine .cons ?banner (.cons ?typedefs (.cons ?structs (.cons ?prototypes
    (.cons ?definitions .nil))))
  case banner =>
    unfold bannerSection
    split
    · exact (finished_map_line bannerLine_endsInk [o.unitName]).writes
    · exact writes_nil
  case typedefs => exact (finished_map_line (fun c => endsInk_append_semicolon _) _).writes
  case structs => exact writes_blocks (List.forall_mem_map.mpr fun c _ => structSteps_closes t c)
  case prototypes => exact (finished_map_line (fun m => endsInk_append_semicolon _) _).writes
  case definitions =>
    exact writes_blocks (List.forall_mem_map.mpr fun m _ => definitionSteps_closes t m.1 m.2.body)

/-- **Cutting the sections at their ends cuts nothing but empty lines.** -/
theorem assembled_eq_text (o : Options) (t : SymbolTable) (p : Program) :
    assembled o t p = (File.ofTable t p).text o := by
  -- Section by section: what is cut to nothing is what has no lines.
  have hsections {steps : List (List Step)} {sections : List (List Line)}
      (h : List.Forall₂ Writes steps sections) :
      (steps.map fun s => trimEnd ((Layout.run s).text o.indentWidth)).filter (· != "")
        = sectionTexts o.indentWidth sections := by
    unfold sectionTexts
    induction h with
    | nil => rfl
    | cons hw _ ih =>
      rw [List.map_cons, List.filter_cons, List.filter_cons, ih, hw.trimmed,
        hw.finished.sectionText_ne_empty]
      split <;> rfl
  rw [File.text_eq_paragraphs, ← hsections (sectionSteps_write o t p)]
  rfl

end C

/-! ## Compilations under two layouts -/

/-- An output with the comment that the options ask for. -/
def Output.withBanner (o : Options) (out : Output) : Output :=
  { out with text := C.withBanner o out.text }

/-- An output whose text has lost its indentation. -/
def Output.unindented (out : Output) : Output :=
  { out with text := C.unindent out.text }

namespace Compilation

/-- The compilation under another layout. -/
def relaid (c : Compilation) (width : Nat) (banner : Bool) (unitName : String) : Compilation :=
  { c with
    options := { c.options with indentWidth := width, banner := banner, unitName := unitName } }

/-- The compilation without the comment at the top of its text. -/
def plain (c : Compilation) : Compilation :=
  c.relaid c.options.indentWidth false c.options.unitName

variable (c : Compilation) (width : Nat) (banner : Bool) (unitName : String)

theorem report_relaid : (c.relaid width banner unitName).report = c.report :=
  rfl

theorem stage_eq : c.stage = if c.report.stops then .validated else .generated := by
  unfold stage outcome Outcome.ofReport
  split <;> rfl

theorem stage_relaid : (c.relaid width banner unitName).stage = c.stage := by
  rw [stage_eq, stage_eq, report_relaid]

theorem output?_eq : c.output? = if c.report.stops then none else some c.written := by
  unfold output? outcome Outcome.ofReport
  split <;> rfl

theorem text_plain : c.plain.written.text = c.file.plainText c.options.indentWidth :=
  c.file.text_eq_withBanner c.plain.options

/-- What is written is what is written without the comment, and the comment
that is asked for. -/
theorem written_eq_withBanner : c.written = c.plain.written.withBanner c.options := by
  unfold Output.withBanner
  rw [text_plain, ← c.file.text_eq_withBanner]
  rfl

theorem output?_eq_withBanner : c.output? = c.plain.output?.map (Output.withBanner c.options) := by
  rw [output?_eq, output?_eq, written_eq_withBanner, plain, report_relaid]
  split <;> rfl

/-- Without comment and indentation, what is written is the same at every
width. -/
theorem written_plain_unindented :
    c.plain.written.unindented
      = { text := C.unindent (c.file.plainText width)
          classCount := c.file.structCount
          functionCount := c.file.functionCount } := by
  unfold Output.unindented
  rw [text_plain, c.file.unindent_plainText c.options.indentWidth width]
  rfl

/-- Without comment and indentation, the output is the same under every layout. -/
theorem output?_relaid_unindented :
    (c.relaid width banner unitName).plain.output?.map Output.unindented
      = c.plain.output?.map Output.unindented := by
  have hwritten : (c.relaid width banner unitName).plain.written.unindented
      = c.plain.written.unindented :=
    (written_plain_unindented _ width).trans (c.written_plain_unindented width).symm
  unfold plain at hwritten ⊢
  rw [output?_eq, output?_eq, report_relaid, report_relaid, report_relaid]
  split
  · rfl
  · exact congrArg some hwritten

/-- How many classes and functions an output has. -/
def counts : Option (Nat × Nat) :=
  c.output?.map fun out => (out.classCount, out.functionCount)

theorem counts_relaid : (c.relaid width banner unitName).counts = c.counts := by
  rw [counts, counts, output?_eq, output?_eq, report_relaid]
  split <;> rfl

theorem isSuccess_eq_isSome : c.isSuccess = c.output?.isSome := by
  have hsuccess : c.isSuccess = (c.stage == .generated) := rfl
  rw [hsuccess, stage_eq, output?_eq]
  split <;> rfl

end Compilation

/-- **Choices about the layout change the layout only.** Under two sets of
options that differ in the width, the comment and the name in it, a program
reaches the same stage with the same report, has an output under both or under
neither, and the same numbers of classes and functions in it. Each text is the
one without the comment with the comment line put before it, and without the
comment the two texts are equal but for the spaces at the beginning of their
lines.

Where sections are written with blank lines behind their parts and cut at the
end, the text is still the same: no name can make the cut reach anything but
empty lines. -/
theorem layout_options_shape_text_only (p : Program) (o : Options) (width : Nat) (banner : Bool)
    (unitName : String) :
    let o' := { o with indentWidth := width, banner := banner, unitName := unitName }
    let c := Compilation.run o p
    let c' := Compilation.run o' p
    let plain := Compilation.run { o with banner := false } p
    let plain' := Compilation.run { o' with banner := false } p
    c'.stage = c.stage ∧ c'.report = c.report ∧ c.isSuccess = c.output?.isSome
      ∧ c'.counts = c.counts
      ∧ c.output? = plain.output?.map (Output.withBanner o)
      ∧ c'.output? = plain'.output?.map (Output.withBanner o')
      ∧ plain'.output?.map Output.unindented = plain.output?.map Output.unindented
      ∧ c.file.text o = C.assembled o c.resolved.table p := by
  intro o' c c' plain plain'
  refine ⟨c.stage_relaid width banner unitName, c.report_relaid width banner unitName,
    c.isSuccess_eq_isSome, c.counts_relaid width banner unitName, c.output?_eq_withBanner,
    c'.output?_eq_withBanner, c.output?_relaid_unindented width banner unitName, ?_⟩
  exact (C.assembled_eq_text o _ p).symm

end Heritage
