import ClassRefactor.Command.Invocation

/-!
# Help

What the program tells about itself and its commands.
-/

namespace ClassRefactor

/-- A page of help: what it is about, how the arguments are arranged, and headed lists of terms with
their meanings. -/
structure HelpPage where
  about : String
  usage : String
  sections : List (String × List (String × String))

namespace HelpPage

/-- A list of terms, with their meanings in one column. -/
def renderTerms (terms : List (String × String)) : String :=
  let width := (terms.map fun t => t.1.length).foldl max 0
  concat (terms.map fun (term, meaning) =>
    "  " ++ term ++ .ofList (List.replicate (width - term.length) ' ') ++ "  " ++ meaning ++ "\n")

def render (p : HelpPage) : String :=
  p.about ++ "\n\nUsage: " ++ p.usage ++ "\n" ++
    concat (p.sections.map fun (heading, terms) => "\n" ++ heading ++ ":\n" ++ renderTerms terms)

def configTerm : String × String :=
  ("    --config <CONFIG>",
    "Config file (defaults to `depcon.toml` or `.depcon.toml` in the current directory)")

def helpTerm : String × String := ("-h, --help", "Print help")

def positionTerms : List (String × String) :=
  [("    --offset <OFFSET>", "Cursor as a byte offset into the file"),
    ("    --line <LINE>", "Cursor line (1-based)"),
    ("    --column <COLUMN>", "Cursor column in characters (1-based)")]

def outputTerms : List (String × String) :=
  [("    --in-place", "Rewrite the file on disk instead of printing it"),
    ("    --diff", "Print a unified diff instead of the rewritten file"),
    ("    --json", "Emit the refactoring preview as JSON")]

def ofTopic : Topic → HelpPage
  | .ctor =>
    { about := "Generate or extend the constructor that injects a class's read-only fields"
      usage := "depcon ctor [OPTIONS] <FILE>"
      sections := [("Arguments", [("<FILE>", "Source file to rewrite")]),
        ("Options", ("    --class <CLASS>",
          "Class to rewrite (defaults to every class in the file that needs it)") ::
          configTerm :: positionTerms ++ outputTerms ++ [helpTerm])] }
  | .convert =>
    { about := "Convert a method between synchronous and asynchronous form"
      usage := "depcon convert [OPTIONS] --to <TO> <FILE>"
      sections := [("Arguments", [("<FILE>", "Source file to rewrite")]),
        ("Options", configTerm :: ("    --to <TO>", "Target mode: `sync` or `async`") ::
          ("    --method <METHOD>", "Method to convert (alternative to a cursor position)") ::
          ("    --class <CLASS>", "Restrict `--method` lookup to this class") ::
          positionTerms ++ outputTerms ++ [helpTerm])] }
  | .actions =>
    { about := "List the refactorings available at a position"
      usage := "depcon actions [OPTIONS] <FILE>"
      sections := [("Arguments", [("<FILE>", "Source file")]),
        ("Options", configTerm :: positionTerms ++
          [("    --json", "Emit JSON suitable for editors and CI"), helpTerm])] }
  | .check =>
    { about := "Report classes whose read-only fields are not injected (exit code 1 if any)"
      usage := "depcon check [OPTIONS] [PATH]"
      sections := [("Arguments", [("[PATH]", "File or directory to check [default: .]")]),
        ("Options", [configTerm, ("    --json", "Emit JSON suitable for CI"), helpTerm])] }

/-- The page on the whole program. -/
def program : HelpPage :=
  { about := "Constructor injection and sync/async refactorings for C# classes"
    usage := "depcon [OPTIONS] <COMMAND>"
    sections := [
      ("Commands", [("ctor", (ofTopic .ctor).about), ("convert", (ofTopic .convert).about),
        ("actions", (ofTopic .actions).about), ("check", (ofTopic .check).about),
        ("help", "Print this message or the help of the given subcommand(s)")]),
      ("Options", [configTerm, helpTerm, ("-V, --version", "Print version")])] }

/-- The page on a topic. -/
def page (topic : Option Topic) : HelpPage := topic.elim program ofTopic

end HelpPage

end ClassRefactor
