import ClassRefactor.Code.Segment
import ClassRefactor.Layout.Basic
import ClassRefactor.Layout.Declaration

/-!
# Member layouts

The first parenthesis, brace, `=` or `;` of a member outside type arguments tells its kind: a
parenthesis after a name begins parameters, an `=` or `;` ends the declarator of a field. Whatever
does not read as a field, a constructor or a method is left opaque.
-/

namespace ClassRefactor

namespace Code

/-- The end of a declaration that stops at `stop`, without its `;`. -/
def withoutSemicolon (code : Code) (stop : Nat) : Nat :=
  if code[stop - 1]? == some ';' then stop - 1 else stop

/-- The layout of a further variable of a field declaration. -/
def furtherVariable? (code : Code) (piece : Range) : Option VariableLayout :=
  let assign := code.assignment? piece.start piece.stop
  let name := code.trimmed piece.start (assign.getD piece.stop)
  if name.isEmpty || !(code.window name.start name.stop).all isIdentCell then none
  else some { name, initializer := assign.map fun p => ⟨p + 1, piece.stop⟩ }

/-- The layout of the field declaration between two positions. -/
def field? (code : Code) (start stop : Nat) : Option FieldLayout :=
  let declStop := code.withoutSemicolon stop
  let (modifiers, declStart) := code.modifiers memberModifiers start declStop
  match code.commaRanges declStart declStop with
  | [] => none
  | first :: others => do
    let assign := code.assignment? first.start first.stop
    let (type, name) ← code.typeAndName? first.start (assign.getD first.stop)
    let others ← others.mapM code.furtherVariable?
    let declarators :=
      { name, initializer := assign.map fun p => ⟨p + 1, first.stop⟩ } :: others
    some { modifiers, type, declarators }

/-- The layout of the parameter in a range. -/
def parameter? (code : Code) (range : Range) : Option ParameterLayout := do
  let start := code.skipAttributes range.start range.stop
  let (modifiers, declStart) := code.modifiers parameterModifiers start range.stop
  let assign := code.assignment? declStart range.stop
  let (type, name) ← code.typeAndName? declStart (assign.getD range.stop)
  some { range, modifiers, type, name, default := assign.map fun p => ⟨p + 1, range.stop⟩ }

/-- The layouts of the parameters between two parentheses. -/
def parameters? (code : Code) (opening closing : Nat) : Option (List ParameterLayout) :=
  if code.isWhiteBetween (opening + 1) closing then some []
  else
    (code.commaRanges (opening + 1) closing).mapM fun piece =>
      let start := code.skipBlanks piece.start piece.stop
      code.parameter? ⟨start, code.trimBlanks start piece.stop⟩

/-- The name before the parameters that open at `opening`, and its type parameters. -/
def callableName? (code : Code) (start opening : Nat) : Option (Range × Option Range) := do
  let stop := code.trimBlanks start opening
  let (nameStop, typeParams) ←
    if start < stop && code[stop - 1]? == some '>' then do
      let width ← matchingClose? '>' '<' (code.window start stop).reverse 0
      let less := stop - 1 - width
      some (code.trimBlanks start less, some ⟨less, stop⟩)
    else some (stop, none)
  let width := trailing (fun c => isIdentCell c || c == '.') (code.window start nameStop)
  if width == 0 then none else some (⟨nameStop - width, nameStop⟩, typeParams)

/-- Where the body of a callable begins: at its brace, its arrow or its `;`. Parentheses on the way
are passed over, and one that does not close leaves no answer. The first `skip` cells are passed
over too. -/
def bodyStartFrom (code : Code) (stop skip pos : Nat) : Code → Option Nat
  | [] => some pos
  | c :: rest =>
    match skip with
    | skip + 1 => bodyStartFrom code stop skip (pos + 1) rest
    | 0 =>
      if c == '{' || c == ';' || (c == '=' && code[pos + 1]? == some '>') then some pos
      else if c == '(' then
        match matchingClose? '(' ')' (code.take stop) pos with
        | none => none
        | some close => bodyStartFrom code stop (close - pos) (pos + 1) rest
      else bodyStartFrom code stop 0 (pos + 1) rest

/-- The layout of the block between two braces. -/
def blockLayout (code : Code) (opening closing : Nat) : BlockLayout :=
  { opening, closing, statements := code.statementRanges (opening + 1) closing }

/-- The layout of a body that begins at `pos` in a member that stops at `stop`. -/
def body? (code : Code) (pos stop : Nat) : Option BodyLayout :=
  if stop ≤ pos then some .absent
  else if code[pos]? == some '{' then
    (matchingClose? '{' '}' (code.take stop) pos).map fun close =>
      .block (code.blockLayout pos close)
  else if code[pos]? == some '=' then
    some (.expression ⟨pos + 2, code.withoutSemicolon stop⟩)
  else some .absent

/-- The layout of a constructor or method whose parameters open at `opening`. It is a constructor
when nothing stands between its modifiers and its name, which is then the class's. -/
def callable? (code : Code) (className : Code) (start opening stop : Nat) : Option MemberShape := do
  let (name, typeParams) ← code.callableName? start opening
  if start < name.start && code[name.start - 1]? == some '~' then none
  else
    let (modifiers, resultStart) := code.modifiers memberModifiers start name.start
    let closing ← matchingClose? '(' ')' (code.take stop) opening
    let params ← code.parameters? opening closing
    let bodyStart ← code.bodyStartFrom stop 0 (closing + 1) (code.window (closing + 1) stop)
    let body ← code.body? bodyStart stop
    let layout : CallableLayout :=
      { lead := ⟨code.skipBlanks start name.start, name.start⟩
        modifiers, result := ⟨resultStart, name.start⟩, name, typeParams, opening, closing, params
        tail := ⟨closing + 1, min bodyStart stop⟩
        body }
    if code.isWhiteBetween resultStart name.start then
      if code.window name.start name.stop == className then some (.constructor layout) else none
    else some (.method layout)

/-- Whether a parenthesis opens a tuple type. It does unless a name or a type parameter list stands
right before it, and a modifier is not a name. -/
def opensTuple (code : Code) (start opening : Nat) : Bool :=
  let stop := code.trimBlanks start opening
  if stop == start then true
  else match code[stop - 1]? with
    | none => true
    | some c =>
      if c == '>' then false
      else if isIdentCell c then
        let width := trailing isIdentCell (code.window start stop)
        (known? memberModifiers (code.window (stop - width) stop)).isSome
      else true

/-- What decides the kind of a member. -/
inductive Decider where
  /-- The deciding cell stands at `pos`. -/
  | at (pos : Nat)
  /-- There is none, or a tuple type that does not close hides it. -/
  | missing
deriving DecidableEq, Repr

/-- Looks for the deciding cell. `angles` counts open type argument lists, and the first `skip`
cells are passed over. -/
def deciderFrom (code : Code) (start stop angles skip pos : Nat) : Code → Decider
  | [] => .missing
  | c :: rest =>
    match skip with
    | skip + 1 => deciderFrom code start stop angles skip (pos + 1) rest
    | 0 =>
      if c == '<' then deciderFrom code start stop (angles + 1) 0 (pos + 1) rest
      else if c == '>' then deciderFrom code start stop (angles - 1) 0 (pos + 1) rest
      else if c == '(' && angles == 0 && code.opensTuple start pos then
        match matchingClose? '(' ')' (code.take stop) pos with
        | none => .missing
        | some close => deciderFrom code start stop angles (close - pos) (pos + 1) rest
      else if angles == 0 && (c == '(' || c == '{' || c == ';' || c == '=') then .at pos
      else deciderFrom code start stop angles 0 (pos + 1) rest

/-- The layout of the member in a range of the body of the named class. -/
def memberLayout (code : Code) (className : Code) (range : Range) : MemberLayout :=
  let start := code.skipAttributes range.start range.stop
  let stop := range.stop
  let upTo (signatureStop : Nat) (shape : MemberShape) : MemberLayout :=
    { range, signature := ⟨start, max signatureStop start⟩, shape }
  match code.deciderFrom start stop 0 0 start (code.window start stop) with
  | .missing => upTo stop .other
  | .at pos =>
    if declarationKeywords.any fun k => containsWord k.toList (code.window start pos) then
      upTo pos .other
    else if code[pos]? == some '(' then
      match code.callable? className start pos stop with
      | none => upTo pos .other
      | some shape => upTo (shape.callable?.elim pos fun c => c.closing + 1) shape
    else if code[pos]? == some '{' || (code[pos]? == some '=' && code[pos + 1]? == some '>') then
      upTo pos .other
    else
      match code.field? start stop with
      | none => upTo stop .other
      | some field => upTo stop (.field field)

end Code

end ClassRefactor
