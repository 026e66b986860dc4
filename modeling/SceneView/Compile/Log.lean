/-!
# Log entries

What a compilation tells about its course. Entries are kept as data; which of them are shown is a
matter of the chosen level.
-/

namespace SceneView

inductive LogLevel where
  | warn | debug | trace
deriving DecidableEq, Repr

namespace LogLevel

/-- The detail of a level; a chosen level shows all entries of no more detail. -/
def detail : LogLevel → Nat
  | warn => 0
  | debug => 1
  | trace => 2

def label : LogLevel → String
  | warn => "WARN"
  | debug => "DEBUG"
  | trace => "TRACE"

/-- Whether entries of the level `entry` are shown at the level `chosen`. -/
def shows (chosen entry : LogLevel) : Bool :=
  entry.detail ≤ chosen.detail

def ofVerbosity : Nat → LogLevel
  | 0 => warn
  | 1 => debug
  | _ => trace

end LogLevel

structure LogEntry where
  level : LogLevel
  text : String
deriving DecidableEq, Repr

def LogEntry.line (e : LogEntry) : String :=
  e.level.label ++ ": " ++ e.text

end SceneView
