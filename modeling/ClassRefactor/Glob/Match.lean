import ClassRefactor.Glob.Pattern

/-!
# Matching paths

A pattern matches a path as a whole, byte by byte. Matching follows all ways to read the pattern at
once: it carries what can be left of the path after each token.
-/

namespace ClassRefactor.Glob

/-- The bytes of a path. -/
abbrev Bytes := List UInt8

def bytesOf (s : String) : Bytes := s.toUTF8.toList

def slash : UInt8 := 47

/-- What can be left after any number of bytes. -/
def tails : Bytes → List Bytes
  | [] => [[]]
  | b :: rest => (b :: rest) :: tails rest

/-- What can be left after a slash somewhere. -/
def afterSlash : Bytes → List Bytes
  | [] => []
  | b :: rest => if b == slash then rest :: afterSlash rest else afterSlash rest

/-- The byte ranges of a range of characters. The dash stands between the last byte of the one and
the first byte of the other, and the other bytes stand for themselves. -/
def byteRanges (low high : Char) : List (UInt8 × UInt8) :=
  let lows := bytesOf (.ofList [low])
  let highs := bytesOf (.ofList [high])
  if low == high then lows.map fun b => (b, b)
  else match lows.getLast?, highs with
    | some a, b :: rest => (lows.dropLast ++ rest).map (fun x => (x, x)) ++ [(a, b)]
    | _, _ => []

/-- Whether a set holds a byte. -/
def holds (negated : Bool) (ranges : List (Char × Char)) (b : UInt8) : Bool :=
  negated != ranges.any fun (low, high) =>
    (byteRanges low high).any fun (x, y) => x ≤ b && b ≤ y

mutual

/-- What can be left of a path after a token. -/
def Token.rests (path : Bytes) : Token → List Bytes
  | .literal c => ((bytesOf (.ofList [c])).isPrefixOf? path).toList
  | .any => (path.tail?).toList
  | .star => tails path
  | .leading => path :: afterSlash path
  | .trailing =>
    match path with
    | [] => []
    | b :: rest => if b == slash then tails rest else []
  | .between =>
    match path with
    | [] => []
    | b :: rest => if b == slash then rest :: afterSlash rest else []
  | .oneOf negated ranges =>
    match path with
    | [] => []
    | b :: rest => if holds negated ranges b then [rest] else []
  | .alternatives branches =>
    if branchesAreEmpty branches then [path] else branchRests path branches

/-- What can be left after some tokens, starting from any of the given paths. -/
def restsOfAll (paths : List Bytes) : List Token → List Bytes
  | [] => paths
  | t :: ts => restsOfAll (paths.flatMap fun path => t.rests path).eraseDups ts

/-- What can be left after one of several branches. A branch that stands for nothing is dropped. -/
def branchRests (path : Bytes) : List (List Token) → List Bytes
  | [] => []
  | branch :: rest =>
    (if isEmptyBranch branch then [] else restsOfAll [path] branch) ++ branchRests path rest

/-- Whether a token stands for nothing: a group of which no branch is left. -/
def Token.isNothing : Token → Bool
  | .alternatives branches => branchesAreEmpty branches
  | _ => false

def isEmptyBranch : List Token → Bool
  | [] => true
  | t :: ts => t.isNothing && isEmptyBranch ts

def branchesAreEmpty : List (List Token) → Bool
  | [] => true
  | branch :: rest => isEmptyBranch branch && branchesAreEmpty rest

end

/-- Whether a token is the given plain character. -/
def Token.isLiteral (c : Char) : Token → Bool
  | .literal d => c == d
  | _ => false

def Token.isPlain : Token → Bool
  | .literal _ => true
  | _ => false

/-- Whether a pattern is plain text, or plain text after a star. -/
def isPlainSuffix : List Token → Bool
  | .star :: ts => ts.all Token.isPlain
  | .leading :: .star :: ts => ts.all Token.isPlain
  | .leading :: ts => ts.all Token.isPlain && ts.any (Token.isLiteral '/')
  | ts => ts.all Token.isPlain

/-- Whether a pattern asks for the extension `.` of a base name. -/
def wantsBareDot (tokens : List Token) : Bool :=
  tokens.getLast?.any (Token.isLiteral '.') &&
    match tokens with
    | [.star, _] => true
    | [.leading, .star, _] => true
    | tokens => !isPlainSuffix tokens

/-- Whether a path ends in two dots that go up. Such a path has no base name. -/
def endsUpward (path : Bytes) : Bool :=
  let dots := bytesOf ".."
  path == dots || (slash :: dots).isSuffixOf path

/-- Whether a pattern matches a path. Two stars alone match everything. -/
def isMatch (tokens : List Token) (path : String) : Bool :=
  let bytes := bytesOf path
  match tokens with
  | [.leading] => true
  | _ =>
    !(wantsBareDot tokens && endsUpward bytes) && (restsOfAll [bytes] tokens).contains []

end ClassRefactor.Glob
