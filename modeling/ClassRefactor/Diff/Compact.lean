import ClassRefactor.Diff.Script

/-!
# Compact scripts

A change can often slide along the lists without altering the result. Each deletion, and then each
insertion, is slid up as far as it goes and then down as far as it goes, merging with its like and
changing places with its opposite on the way.
-/

namespace ClassRefactor.Diff

variable {α : Type} [BEq α]

/-- The elements of the old list that a run covers. -/
def Run.oldPart (old : List α) (r : Run) : List α :=
  if r.kind = .insert then [] else (old.drop r.old).take r.length

/-- The elements of the new list that a run covers. -/
def Run.newPart (new : List α) (r : Run) : List α :=
  if r.kind = .delete then [] else (new.drop r.new).take r.length

/-- The length of the part of the new list that a run covers. -/
def Run.newLength (r : Run) : Nat := if r.kind = .delete then 0 else r.length

/-- A run among others: those above it, nearest first, and those below. -/
structure Focus where
  above : List Run
  run : Run
  below : List Run

/-- Makes room for a run that slid up by `n`: the kept run below grows, or a new one is put in. -/
def keptBelow (n old new : Nat) : List Run → List Run
  | [] => [⟨.keep, old, new, n⟩]
  | r :: rest =>
    if r.kind = .keep then ⟨.keep, r.old - n, r.new - n, r.length + n⟩ :: rest
    else ⟨.keep, old, new, n⟩ :: r :: rest

/-- Makes room for a run that slid down by `n`: the kept run above grows, or a new one is put
in. -/
def keptAbove (n old new : Nat) : List Run → List Run
  | [] => [⟨.keep, old, new, n⟩]
  | r :: rest =>
    if r.kind = .keep then { r with length := r.length + n } :: rest
    else ⟨.keep, old, new, n⟩ :: r :: rest

/-- Slides a run up. -/
def slideUp (old new : List α) (run : Run) (below : List Run) : (above : List Run) → Focus
  | [] => ⟨[], run, below⟩
  | prev :: above =>
    if prev.kind = .keep then
      let n := min (commonBack (prev.oldPart old) (run.newPart new)) prev.length
      if 0 < n then
        let below := keptBelow n (prev.old + prev.length - n) (run.new + run.newLength - n) below
        let run := { run with old := run.old - n, new := run.new - n }
        if prev.length ≤ n then slideUp old new run below above
        else slideUp old new run below ({ prev with length := prev.length - n } :: above)
      else if prev.length = 0 then slideUp old new run below above
      else ⟨prev :: above, run, below⟩
    else if prev.kind = run.kind then
      slideUp old new { prev with length := prev.length + run.length } below above
    else slideUp old new run (prev :: below) above
termination_by above => (above.length, (above.head?.map Run.length).getD 0)
decreasing_by all_goals (simp_wf; omega)

/-- Slides a run down. -/
def slideDown (old new : List α) (run : Run) (above : List Run) : (below : List Run) → Focus
  | [] => ⟨above, run, []⟩
  | next :: below =>
    if next.kind = .keep then
      let n := min (commonFront (next.oldPart old) (run.newPart new)) next.length
      if 0 < n then
        let above := keptAbove n next.old run.new above
        let run := { run with old := run.old + n, new := run.new + n }
        if next.length ≤ n then slideDown old new run above below
        else
          slideDown old new run above
            (⟨.keep, next.old + n, next.new + n, next.length - n⟩ :: below)
      else if next.length = 0 then slideDown old new run above below
      else ⟨above, run, next :: below⟩
    else if next.kind = run.kind then
      slideDown old new { run with length := run.length + next.length } above below
    else slideDown old new run (next :: above) below
termination_by below => (below.length, (below.head?.map Run.length).getD 0)
decreasing_by all_goals (simp_wf; omega)

/-- Slides every run of a kind, from the top down, in at most `steps` steps. -/
def slideAll (old new : List α) (kind : Kind) : (steps : Nat) → (above below : List Run) → List Run
  | 0, above, below => above.reverse ++ below
  | _ + 1, above, [] => above.reverse
  | steps + 1, above, run :: below =>
    if run.kind = kind then
      let up := slideUp old new run below above
      let down := slideDown old new up.run up.above up.below
      slideAll old new kind steps (down.run :: down.above) down.below
    else slideAll old new kind steps (run :: above) below

/-- Compacts a script. A slide puts at most two runs of kept elements in place, so the number of
steps is bounded by the length of the script. -/
def compact (old new : List α) (runs : List Run) : List Run :=
  let steps := fun (runs : List Run) => (runs.length + 2) * (runs.length + 2)
  let runs := slideAll old new .delete (steps runs) [] runs
  slideAll old new .insert (steps runs) [] runs

end ClassRefactor.Diff
