import ClassRefactor.Splice.Append

/-!
# Splicing a changed class into its source

The difference between a class in the source and a new tree for it becomes replacements. Appended
parameters, statements and members are inserted, and a changed return type or modifier of a method
replaces what stands before its name. Any other change writes the member, or the whole class, anew.
-/

namespace ClassRefactor

/-- What `new` has after `old`, if it begins with it. -/
def appendedTail? {α : Type} [BEq α] (old new : List α) : Option (List α) :=
  if old.length ≤ new.length && new.take old.length == old then some (new.drop old.length) else none

/-- Splices a constructor to which only parameters and statements were added. -/
def Constructor.splice? (text : Text) (style : Style) (old new : Constructor)
    (callable : CallableLayout) : Option (List Replacement) := do
  let params ← appendedTail? old.parameters new.parameters
  let statements ← appendedTail? old.body.statements new.body.statements
  if old.name != new.name || old.modifiers != new.modifiers ||
      old.initializer != new.initializer then
    none
  else
    let paramEdits :=
      if params.isEmpty then [] else [callable.appendParameters text style params]
    if statements.isEmpty then some paramEdits
    else match old.body, callable.body.block? with
      | .block _, some block => some (paramEdits ++ [block.appendStatements text style statements])
      | _, _ => none

/-- Splices a method of which only modifiers and return type changed. -/
def Method.splice? (old new : Method) (callable : CallableLayout) : Option (List Replacement) :=
  if old.name == new.name && old.typeParams == new.typeParams && old.parameters == new.parameters &&
      old.constraints == new.constraints && old.body == new.body then
    some [⟨callable.lead, new.renderLead⟩]
  else none

namespace MemberLayout

/-- The style of a member that is there, with its own indentation. -/
def style (m : MemberLayout) (text : Text) (style : Style) : Style :=
  if text.startsLine m.range.start then { style with indent := text.lineIndent m.range.start }
  else style

/-- Writes a member anew. -/
def reprint (m : MemberLayout) (text : Text) (style : Style) (new : Member) : Replacement :=
  ⟨m.range, .ofList (Text.trimStart (new.render (m.style text style)).toList)⟩

/-- Turns a member into another. -/
def splice (m : MemberLayout) (text : Text) (style : Style) (old new : Member) : List Replacement :=
  let spliced := match old, new, m.shape.callable? with
    | .constructor old, .constructor new, some callable => old.splice? text style new callable
    | .method old, .method new, some callable => old.splice? new callable
    | _, _, _ => none
  spliced.getD [m.reprint text style new]

end MemberLayout

namespace ParsedClass

/-- Whether anything but the members differs. -/
def headerDiffers (old new : ClassNode) : Bool :=
  old.name != new.name || old.typeParams != new.typeParams || old.modifiers != new.modifiers ||
    old.bases != new.bases

/-- The replacements for the members that are there. -/
def spliceMembers (text : Text) (style : Style) :
    List Member → List MemberLayout → List Member → List Replacement
  | old :: olds, layout :: layouts, new :: news =>
    (if old == new then [] else layout.splice text style old new) ++
      spliceMembers text style olds layouts news
  | _, _, _ => []

/-- The replacements for members added at the end, given those for the members that are there. -/
def spliceAdded (c : ParsedClass) (text : Text) (style : Style) (edits : List Replacement)
    (added : List Member) : List Replacement :=
  if added.isEmpty then edits
  else if edits.isEmpty && c.isOneLine text then [c.expandOneLine text style added]
  else edits ++ [c.appendMembers text style added]

/-- The replacements that turn the source of a class into source for another tree, in order. -/
def splice (c : ParsedClass) (text : Text) (new : ClassNode) : List Replacement :=
  let style := c.style text
  if headerDiffers c.node new || new.members.length < c.node.members.length then
    [⟨c.layout.range, new.render style (c.indent text)⟩]
  else
    let edits := spliceMembers text style c.node.members c.layout.members new.members
    (c.spliceAdded text style edits (new.members.drop c.node.members.length)).mergeSort
      fun a b => (a.range.order b.range).isLE

end ParsedClass

end ClassRefactor
