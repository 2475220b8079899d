/-!
# Lines and their indentation

Emitted text is made of lines, and a line of a depth and a text; only when it
is written out does the depth become spaces. What produces lines does not count
depths itself but says what it does – write a line, open a block, close one –
and `Layout.run` turns these steps into lines.

A block that is opened and never closed leaves what follows one deeper, and
closing at depth zero stays there.
-/

namespace Heritage.C

/-- **A step of writing.** -/
inductive Step where
  /-- Write a line. -/
  | line (text : String)
  /-- Write a line that opens a block, with its brace, and go one deeper. -/
  | opening (header : String)
  /-- Go back one, and write a line. -/
  | closing (text : String)
  /-- Go one deeper. -/
  | indent
deriving DecidableEq, Inhabited

/-- An empty line. -/
def Step.blank : Step := .line ""

/-- **A line of text at a depth.** -/
structure Line where
  /-- How deep the line is indented. -/
  depth : Nat
  /-- The text without its indentation. -/
  text : String
deriving DecidableEq, Inhabited

/-- A line written out, with the given number of spaces for each level. An
empty line has none. -/
def Line.render (width : Nat) (l : Line) : String :=
  if l.text = "" then "" else String.ofList (List.replicate (l.depth * width) ' ') ++ l.text

/-- **Lines in the making**: those written, and the depth reached. -/
structure Layout where
  /-- The lines written so far. -/
  lines : List Line := []
  /-- The current depth. -/
  depth : Nat := 0
deriving DecidableEq, Inhabited

namespace Layout

/-- Write a line at the current depth. -/
def write (l : Layout) (text : String) : Layout :=
  { l with lines := l.lines ++ [{ depth := l.depth, text := text }] }

/-- Take one step. -/
def step (l : Layout) : Step → Layout
  | .line text => l.write text
  | .opening header =>
    let l := l.write (header ++ " \x7b")
    { l with depth := l.depth + 1 }
  | .closing text => { l with depth := l.depth - 1 }.write text
  | .indent => { l with depth := l.depth + 1 }

/-- Take steps in order. -/
def run (steps : List Step) : Layout :=
  steps.foldl step {}

/-- The text written, each line with its end. -/
def text (width : Nat) (l : Layout) : String :=
  String.join (l.lines.map fun line => line.render width ++ "\n")

end Layout

end Heritage.C
