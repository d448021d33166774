import ClassRefactor.Journal.Event

/-!
# Journals

A journal decides which events are written, how, and where to.
-/

namespace ClassRefactor

/-- Where events go. -/
structure Journal where
  filter : LogFilter
  json : Bool
  stderr : Bool
  /-- The file that could be opened for the log. -/
  file : Option String
  /-- What opening the log records. -/
  opening : List Event

namespace Journal

/-- The journal of a configuration, where `canOpen` tells whether its log file can be opened. -/
def start (c : LoggingConfig) (filter : LogFilter) (canOpen : Bool) : Journal :=
  { filter, json := c.json, stderr := c.stderr
    file := if canOpen then c.file else none
    opening := match c.file with
      | some path =>
        if canOpen then []
        else
          [⟨.settings, .warn, "failed to open log file; file logging disabled",
            [("path", .text path)]⟩]
      | none => [] }

/-- The lines that a journal writes about a run. -/
def lines (j : Journal) (events : List Event) : String :=
  Event.lines j.json ((j.opening ++ events).filter (Event.isEnabled j.filter))

end Journal

end ClassRefactor
