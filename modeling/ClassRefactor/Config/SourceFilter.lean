import ClassRefactor.Config.Basic
import ClassRefactor.Glob.Match
import ClassRefactor.Text.Join

/-!
# Source filters

Which files below a directory are sources: those with one of some extensions that are not excluded.
-/

namespace ClassRefactor

/-- Extensions in lower case without leading dots, and which paths are left out. -/
structure SourceFilter where
  extensions : List String
  isExcluded : String → Bool

namespace SourceFilter

/-- The part of a path after its last slash, where empty and `.` parts do not count. -/
def fileName? (path : String) : Option Text :=
  let parts := (Text.splitAtChar '/' path.toList).filter fun p => !p.isEmpty && p != ['.']
  parts.getLast?.filter (· != ['.', '.'])

/-- What follows the last dot of a file name, if something precedes it. -/
def extension? (path : String) : Option String := do
  let name ← fileName? path
  let tail := name.reverse.takeWhile (· != '.')
  let front := name.reverse.drop tail.length
  if front.length ≤ 1 then none else some (.ofList tail.reverse)

def lower (s : String) : String := .ofList (s.toList.map Char.toLower)

def hasExtension (f : SourceFilter) (path : String) : Bool :=
  match extension? path with
  | none => false
  | some e => f.extensions.contains (lower e)

def accepts (f : SourceFilter) (path : String) : Bool :=
  f.hasExtension path && !f.isExcluded path

end SourceFilter

/-- A pattern that cannot be used. -/
structure BadPattern where
  pattern : String
  flaw : Glob.Flaw
deriving DecidableEq, Repr

def BadPattern.message (b : BadPattern) : String :=
  "invalid exclude glob " ++ quoted b.pattern ++ ": error parsing glob '" ++ b.pattern ++ "': " ++
    b.flaw.message

/-- Compiles the settings of a check. The first pattern that is not well formed is reported. -/
def CheckConfig.filter (c : CheckConfig) : Except BadPattern SourceFilter := do
  let globs ← c.exclude.mapM fun pattern => (Glob.parse pattern).mapError (BadPattern.mk pattern)
  let extensions := c.extensions.map fun e =>
    SourceFilter.lower (.ofList (e.toList.dropWhile (· == '.')))
  return { extensions, isExcluded := fun path => globs.any fun glob => Glob.isMatch glob path }

end ClassRefactor
