import Heritage.Compilation
import Heritage.Text.Quoted
import Heritage.Tree.Node

/-!
# The log of a compilation

What a compilation tells about itself: the span it runs in, the stages it
passes, and after each part the numbers that sum it up. The log is read off a
compilation that was run. It is complete, and a reader chooses a level, which
leaves out the entries that are less severe.
-/

namespace Heritage

/-- How severe an entry of a log is. -/
inductive Level where
  | warn | info | debug | trace
deriving DecidableEq, Inhabited

namespace Level

/-- The name of a level. -/
def name : Level → String
  | .warn => "WARN"
  | .info => "INFO"
  | .debug => "DEBUG"
  | .trace => "TRACE"

/-- Every level once, the more severe first. -/
def all : List Level :=
  [.warn, .info, .debug, .trace]

/-- The level with a given name. -/
def ofName? (s : String) : Option Level :=
  all.find? fun l => l.name == s

/-- The place of a level, lower for the more severe. -/
def rank : Level → Nat
  | .warn => 0
  | .info => 1
  | .debug => 2
  | .trace => 3

end Level

/-- **An entry of a log**: something that happened, or a span of time that
other entries fall in. -/
structure LogEntry where
  /-- How severe it is. -/
  level : Level
  /-- The name of the span, if it is one. -/
  span? : Option String := none
  /-- What it says, by name. -/
  fields : List (String × String)
deriving DecidableEq, Inhabited

namespace Compilation

/-- An event with a message. -/
def event (level : Level) (message : String) (fields : List (String × String)) : LogEntry where
  level := level
  fields := ("message", message) :: fields

/-- The passage from one stage to another. -/
def stageEvent (source target : Stage) : LogEntry :=
  event .trace "stage" [("from", source.name), ("to", target.name)]

/-- The events of linearizing the classes whose ancestry is known, in the order
of resolution. -/
def linearizedEvents (t : SymbolTable) : List LogEntry :=
  (t.resolutionOrder.filter fun c => !(t.classAt c).state.isBroken).map fun c =>
    event .trace "linearized"
      [("class", (t.classAt c).name),
        ("linearization",
          Text.quoteList ((t.linearization c).map fun a => (t.classAt a).name))]

/-- How the log ends: with an output, or without one. -/
def endEvents (c : Compilation) : List LogEntry :=
  if c.report.stops then
    [event .debug "halting before generation"
      [("errors", toString c.report.length), ("truncated", toString c.report.truncated)]]
  else
    [stageEvent .validated .generated,
      event .debug "compilation finished"
        [("stage", c.stage.name), ("diagnostics", toString c.report.length)]]

/-- **The log of a compilation of a program.** -/
def log (c : Compilation) (p : Program) : List LogEntry :=
  [{ level := .info, span? := some "compile_with",
     fields := [("classes", toString p.classes.length)] },
    stageEvent .unparsed .parsed,
    event .debug "tree received" [("nodes", toString p.nodeCount)],
    event .debug "symbols collected"
      [("classes", toString c.collected.table.classes.length),
        ("methods", toString c.collected.table.methods.length),
        ("scopes", toString c.collected.table.scopes.length)],
    stageEvent .parsed .symbolsBuilt]
  ++ linearizedEvents c.resolved.table
  ++ [event .debug "inheritance resolved"
        [("resolved", toString c.resolved.resolved), ("broken", toString c.resolved.broken),
          ("ambiguous", toString c.resolved.ambiguous)],
      stageEvent .symbolsBuilt .resolved,
      event .debug "translation finished"
        [("structs", toString c.file.structCount), ("functions", toString c.file.functionCount),
          ("diagnostics", toString c.report.length)],
      stageEvent .resolved .validated]
  ++ c.endEvents

/-- The entries of a log that are at least as severe as a level. -/
def logAt (c : Compilation) (p : Program) (level : Level) : List LogEntry :=
  (c.log p).filter fun e => decide (e.level.rank ≤ level.rank)

end Compilation

end Heritage
