import ClassRefactor.Diff.Hunk
import ClassRefactor.Text.Join

/-!
# Unified diffs

The difference between two texts, line by line, in the unified format.
-/

namespace ClassRefactor.Diff

/-- Cuts a text after every line feed, carriage return, or pair of both. `line` holds the current
line, last character first. -/
def linesFrom (line : Text) : Text → List Text
  | [] => if line.isEmpty then [] else [line.reverse]
  | '\r' :: '\n' :: t => ('\n' :: '\r' :: line).reverse :: linesFrom [] t
  | c :: t =>
    if c == '\r' || c == '\n' then (c :: line).reverse :: linesFrom [] t
    else linesFrom (c :: line) t

/-- The lines of a text with their ends. -/
def lines (t : Text) : List Text := linesFrom [] t

/-- A range of lines as a hunk's header gives it: the number of the first line and the number of
lines, which is left out if it is one. An empty range gives the line before it. -/
def renderRange (start stop : Nat) : String :=
  let n := stop - start
  if n == 1 then toString (start + 1)
  else if n == 0 then toString start ++ ",0"
  else toString (start + 1) ++ "," ++ toString n

/-- A line with its mark. A line without an end is followed by a remark. -/
def renderLine (mark : Char) (line : Text) : String :=
  let ended := line.getLast? == some '\n' || line.getLast? == some '\r'
  .ofList (mark :: line) ++ (if ended then "" else "\n\\ No newline at end of file\n")

/-- The lines of a range with a mark. -/
def renderLines (mark : Char) (lines : List Text) (r : Range) : String :=
  concat (((lines.drop r.start).take r.length).map (renderLine mark))

def Block.render (old new : List Text) (b : Block) : String :=
  if b.same then renderLines ' ' old b.old
  else renderLines '-' old b.old ++ renderLines '+' new b.new

/-- A hunk without lines is not written at all. -/
def renderHunk (old new : List Text) (hunk : List Block) : String :=
  let body := concat (hunk.map (Block.render old new))
  match hunk.head?, hunk.getLast? with
  | some first, some last =>
    if body.isEmpty then ""
    else
      "@@ -" ++ renderRange first.old.start last.old.stop ++ " +" ++
        renderRange first.new.start last.new.stop ++ " @@\n" ++ body
  | _, _ => ""

/-- The unified diff of two texts, which are named `a/` and `b/` before the given name. -/
def unified (name : String) (radius : Nat) (old new : Text) : String :=
  let old := lines old
  let new := lines new
  let hunks := hunks radius (blocks (compact old new (script old new)))
  if hunks.isEmpty then ""
  else
    "--- a/" ++ name ++ "\n+++ b/" ++ name ++ "\n" ++ concat (hunks.map (renderHunk old new))

end ClassRefactor.Diff
