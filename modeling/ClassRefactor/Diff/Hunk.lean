import ClassRefactor.Diff.Compact
import ClassRefactor.Text.Range

/-!
# Hunks

A script is read as alternating blocks of equal and of changed elements. Changes that are close to
one another form a hunk, with some equal elements around them for context.
-/

namespace ClassRefactor.Diff

/-- Equal or changed elements: ranges of indices in the old list and in the new one. -/
structure Block where
  same : Bool
  old : Range
  new : Range
deriving DecidableEq, Repr

/-- A run as a block of its own. -/
def Run.block (r : Run) : Block :=
  match r.kind with
  | .keep => ⟨true, ⟨r.old, r.old + r.length⟩, ⟨r.new, r.new + r.length⟩⟩
  | .delete => ⟨false, ⟨r.old, r.old + r.length⟩, ⟨r.new, r.new⟩⟩
  | .insert => ⟨false, ⟨r.old, r.old⟩, ⟨r.new, r.new + r.length⟩⟩

/-- Changes that are being collected: the deletions and the insertions so far. -/
structure Pending where
  deleted : Option Run := none
  inserted : Option Run := none

/-- Adds a run to one of its kind. -/
def joinRun (first : Option Run) (r : Run) : Run :=
  match first with
  | none => r
  | some f => { f with length := f.length + r.length }

/-- The block of the collected changes. -/
def Pending.blocks (p : Pending) : List Block :=
  match p.deleted, p.inserted with
  | some d, some i => [⟨false, d.block.old, i.block.new⟩]
  | some d, none => [d.block]
  | none, some i => [i.block]
  | none, none => []

/-- Collects runs into blocks: kept runs next to one another are joined, and so are all changes
between two kept runs. -/
def blocksFrom (kept : Option Run) (p : Pending) : List Run → List Block
  | [] => (kept.map Run.block).toList ++ p.blocks
  | r :: rest =>
    match r.kind with
    | .keep => p.blocks ++ blocksFrom (some (joinRun kept r)) {} rest
    | .delete =>
      (kept.map Run.block).toList ++ blocksFrom none { p with deleted := joinRun p.deleted r } rest
    | .insert =>
      (kept.map Run.block).toList ++
        blocksFrom none { p with inserted := joinRun p.inserted r } rest

def blocks (runs : List Run) : List Block := blocksFrom none {} runs

/-- The last `n` elements of a block of equal elements. -/
def Block.keepLast (n : Nat) (b : Block) : Block :=
  let skip := b.old.length - n
  ⟨b.same, ⟨b.old.start + skip, b.old.stop⟩, ⟨b.new.start + skip, b.new.stop⟩⟩

/-- The first `n` elements of a block of equal elements. -/
def Block.keepFirst (n : Nat) (b : Block) : Block :=
  let skip := b.old.length - n
  ⟨b.same, ⟨b.old.start, b.old.stop - skip⟩, ⟨b.new.start, b.new.stop - skip⟩⟩

/-- Shortens the first block to the context it gives. -/
def trimFirst (radius : Nat) : List Block → List Block
  | [] => []
  | b :: rest => (if b.same then b.keepLast radius else b) :: rest

/-- Shortens the last block to the context it gives. -/
def trimLast (radius : Nat) : List Block → List Block
  | [] => []
  | [b] => [if b.same then b.keepFirst radius else b]
  | b :: c :: rest => b :: trimLast radius (c :: rest)

/-- Cuts blocks into hunks; `hunk` holds the current one, last block first. Equal elements too many
to be context of both sides end a hunk and begin another. A last hunk without changes is dropped. -/
def hunksFrom (radius : Nat) (hunk : List Block) : List Block → List (List Block)
  | [] =>
    match hunk with
    | [] => []
    | [b] => if b.same then [] else [[b]]
    | _ => [hunk.reverse]
  | b :: rest =>
    if b.same && 2 * radius < b.old.length then
      (b.keepFirst radius :: hunk).reverse :: hunksFrom radius [b.keepLast radius] rest
    else hunksFrom radius (b :: hunk) rest

/-- The hunks of some blocks with the given number of elements for context. -/
def hunks (radius : Nat) (blocks : List Block) : List (List Block) :=
  hunksFrom radius [] (trimLast radius (trimFirst radius blocks))

end ClassRefactor.Diff
