import ClassRefactor.Text.Basic

/-!
# Edit scripts between two lists

A script says how to turn one list into another by keeping, deleting and inserting runs of elements.
It is found by divide and conquer: common ends are kept, and what remains is cut in two where a
forward and a backward search of least cost meet.
-/

namespace ClassRefactor.Diff

inductive Kind where
  | keep
  | delete
  | insert
deriving DecidableEq, Repr

/-- A run of `length` elements that are kept, deleted or inserted. It stands at index `old` of the
old list and at index `new` of the new one. -/
structure Run where
  kind : Kind
  old : Nat
  new : Nat
  length : Nat
deriving DecidableEq, Repr

variable {α : Type} [BEq α]

/-- The number of equal elements at the front of two lists. -/
def commonFront : List α → List α → Nat
  | a :: as, b :: bs => if a == b then commonFront as bs + 1 else 0
  | _, _ => 0

/-- The number of equal elements at the end of two lists. -/
def commonBack (as bs : List α) : Nat := commonFront as.reverse bs.reverse

/-- A point that a search has reached: on diagonal `diagonal`, having left `start`, it has passed
`reach` elements of the old list. -/
structure Reach where
  diagonal : Int
  start : Nat
  reach : Nat

/-- A round of a search: how far it gets on every second diagonal, from the highest down. -/
abbrev Round := List Reach

/-- Where the paths of the next round start: one element deeper into the old list from the diagonal
below, or at the reach of the diagonal above if that is farther. -/
def nextStarts : List Nat → List Nat
  | [] => []
  | [x] => [x]
  | x :: y :: rest => (if y < x then x else y + 1) :: nextStarts (y :: rest)

/-- The starts of round `d + 1`, given the reaches of round `d`. -/
def starts : List Nat → List Nat
  | [] => [0]
  | x :: rest => (x + 1) :: nextStarts (x :: rest)

/-- Numbers the starts of round `d` by their diagonals and follows equal elements from each. -/
def follow (old new : List α) : Int → List Nat → Round
  | _, [] => []
  | k, x :: rest =>
    let y := ((x : Int) - k).toNat
    ⟨k, x, x + commonFront (old.drop x) (new.drop y)⟩ :: follow old new (k - 2) rest

/-- How far a round gets on a diagonal. -/
def reachOn (round : Round) (diagonal : Int) : Option Nat :=
  (round.find? fun r => r.diagonal == diagonal).map Reach.reach

/-- The first point of a round that meets the other search, whose round is given. -/
def meeting? (size : Nat) (delta : Int) (round other : Round) : Option Reach :=
  round.find? fun r =>
    match reachOn other (delta - r.diagonal) with
    | none => false
    | some reach => size ≤ r.reach + reach

/-- Searches forward and backward in turn, for at most `rounds` rounds from round `d` on. The answer
is a point at which both lists are to be cut. -/
def middleFrom (old new : List α) (d : Nat) (forward backward : Round) :
    (rounds : Nat) → Option (Nat × Nat)
  | 0 => none
  | rounds + 1 =>
    let delta := (old.length : Int) - new.length
    let forward := follow old new d (starts (forward.map Reach.reach))
    let met := if delta % 2 == 1 then meeting? old.length delta forward backward else none
    match met with
    | some r => some (r.start, ((r.start : Int) - r.diagonal).toNat)
    | none =>
      let backward := follow old.reverse new.reverse d (starts (backward.map Reach.reach))
      let met := if delta % 2 == 0 then meeting? old.length delta backward forward else none
      match met with
      | some r =>
        some (old.length - r.reach, new.length - ((r.reach : Int) - r.diagonal).toNat)
      | none => middleFrom old new (d + 1) forward backward rounds

/-- Where to cut two lists so that the parts can be compared on their own. -/
def middle? (old new : List α) : Option (Nat × Nat) :=
  middleFrom old new 0 [] [] ((old.length + new.length + 1) / 2 + 1)

/-- A script without the runs that are empty. -/
def nonempty (script : List Run) : List Run := script.filter fun r => 0 < r.length

/-- The script between two lists that stand at indices `i` and `j`. Each cut makes both parts
shorter, so `depth` bounds the number of cuts above one another. -/
def scriptFrom (depth i j : Nat) (old new : List α) : List Run :=
  let front := commonFront old new
  let oldRest := old.drop front
  let newRest := new.drop front
  let back := commonBack oldRest newRest
  let old' := oldRest.take (oldRest.length - back)
  let new' := newRest.take (newRest.length - back)
  let i' := i + front
  let j' := j + front
  let replace : List Run := [⟨.delete, i', j', old'.length⟩, ⟨.insert, i', j', new'.length⟩]
  let between :=
    if old'.isEmpty || new'.isEmpty then replace
    else match depth with
      | 0 => replace
      | depth + 1 =>
        match middle? old' new' with
        | none => replace
        | some (x, y) =>
          scriptFrom depth i' j' (old'.take x) (new'.take y) ++
            scriptFrom depth (i' + x) (j' + y) (old'.drop x) (new'.drop y)
  nonempty
    (⟨.keep, i, j, front⟩ :: between ++ [⟨.keep, i' + old'.length, j' + new'.length, back⟩])

/-- The script that turns one list into another. -/
def script (old new : List α) : List Run := scriptFrom (old.length + new.length) 0 0 old new

end ClassRefactor.Diff
