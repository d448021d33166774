import ClassRefactor.Proofs.Code.Segment
import ClassRefactor.Tree.Class

/-!
# What a layout promises

Two promises are stated for every kind of layout. A layout is *well laid* over some cells when its
parts stand in the order of the declaration, its delimiters are where it says, and its parts do not
overlap. It is *readable* in some code when each of its ranges can be cut out of the source.
-/

namespace ClassRefactor

/-- The braces of a block between two offsets, and the statements between the braces. -/
structure BlockLayout.WellLaid (cells : List Char) (lo hi : Nat) (b : BlockLayout) : Prop where
  after : lo < b.opening
  ordered : b.opening < b.closing
  before : b.closing < hi
  opens : cells[b.opening]? = some '{'
  closes : cells[b.closing]? = some '}'
  statements : Range.Laid (b.opening + 1) b.closing b.statements

/-- The parts of a constructor or method with the given signature and range. -/
structure CallableLayout.WellLaid (cells : List Char) (signature range : Range)
    (c : CallableLayout) : Prop where
  lead : signature.start ≤ c.lead.start ∧ c.lead.start ≤ c.lead.stop ∧ c.lead.stop ≤ signature.stop
  lead_before : c.lead.stop ≤ c.opening
  ordered : c.opening < c.closing
  signature_stop : signature.stop = c.closing + 1
  opens : cells[c.opening]? = some '('
  closes : cells[c.closing]? = some ')'
  params : Range.Laid (c.opening + 1) c.closing (c.params.map ParameterLayout.range)
  block : ∀ b, c.body.block? = some b → b.WellLaid cells c.closing range.stop

/-- A signature within its member, and what belongs to a constructor or method. -/
structure MemberLayout.WellLaid (cells : List Char) (m : MemberLayout) : Prop where
  signature : m.range.start ≤ m.signature.start ∧ m.signature.start ≤ m.signature.stop ∧
    m.signature.stop ≤ m.range.stop
  callable : ∀ c, m.shape.callable? = some c → c.WellLaid cells m.signature m.range

/-- The header, the braces and the members of a class. -/
structure ClassLayout.WellLaid (cells : List Char) (c : ClassLayout) : Prop where
  header_start : c.header.start = c.range.start
  header_ordered : c.header.start ≤ c.header.stop
  header_stop : c.header.stop = c.opening
  ordered : c.opening < c.closing
  range_stop : c.range.stop = c.closing + 1
  within : c.range.stop ≤ cells.length
  opens : cells[c.opening]? = some '{'
  closes : cells[c.closing]? = some '}'
  members : Range.Laid (c.opening + 1) c.closing (c.members.map MemberLayout.range)
  member : ∀ m ∈ c.members, m.WellLaid cells

section Transfer

/-! The cells that a layout names are delimiters, so what holds over the masked text holds over the
source. -/

variable {cells cells' : List Char}
  (h : ∀ (p : Nat) (c : Char), isSolid c = true → cells[p]? = some c → cells'[p]? = some c)
include h

theorem BlockLayout.WellLaid.transfer {lo hi : Nat} {b : BlockLayout}
    (hb : b.WellLaid cells lo hi) : b.WellLaid cells' lo hi :=
  { hb with
    opens := h _ _ (by decide) hb.opens
    closes := h _ _ (by decide) hb.closes }

theorem CallableLayout.WellLaid.transfer {signature range : Range} {c : CallableLayout}
    (hc : c.WellLaid cells signature range) : c.WellLaid cells' signature range :=
  { hc with
    opens := h _ _ (by decide) hc.opens
    closes := h _ _ (by decide) hc.closes
    block := fun b hb => (hc.block b hb).transfer h }

theorem MemberLayout.WellLaid.transfer {m : MemberLayout} (hm : m.WellLaid cells) :
    m.WellLaid cells' :=
  { hm with callable := fun c hc => (hm.callable c hc).transfer h }

theorem ClassLayout.WellLaid.transfer {c : ClassLayout} (hlen : cells.length ≤ cells'.length)
    (hc : c.WellLaid cells) : c.WellLaid cells' :=
  { hc with
    within := Nat.le_trans hc.within hlen
    opens := h _ _ (by decide) hc.opens
    closes := h _ _ (by decide) hc.closes
    member := fun m hm => (hc.member m hm).transfer h }

end Transfer

/-- An optional range that can be read if it is there. -/
def Code.FitsIfAny (code : Code) (r : Option Range) : Prop := ∀ s, r = some s → code.Fits s

structure VariableLayout.Readable (code : Code) (v : VariableLayout) : Prop where
  name : code.Fits v.name
  initializer : code.FitsIfAny v.initializer

structure FieldLayout.Readable (code : Code) (f : FieldLayout) : Prop where
  type : code.Fits f.type
  declarators : ∀ v ∈ f.declarators, v.Readable code

structure ParameterLayout.Readable (code : Code) (p : ParameterLayout) : Prop where
  range : code.Fits p.range
  type : code.Fits p.type
  name : code.Fits p.name
  default : code.FitsIfAny p.default

def BodyLayout.Readable (code : Code) : BodyLayout → Prop
  | .block b => ∀ r ∈ b.statements, code.Fits r
  | .expression r => code.Fits r
  | .absent => True

structure CallableLayout.Readable (code : Code) (c : CallableLayout) : Prop where
  lead : code.Fits c.lead
  result : code.Fits c.result
  name : code.Fits c.name
  typeParams : code.FitsIfAny c.typeParams
  params : ∀ p ∈ c.params, p.Readable code
  tail : code.Fits c.tail
  body : c.body.Readable code

def MemberShape.Readable (code : Code) : MemberShape → Prop
  | .field f => f.Readable code
  | .constructor c => c.Readable code
  | .method c => c.Readable code
  | .other => True

theorem MemberShape.Readable.callable {code : Code} {shape : MemberShape} {c : CallableLayout}
    (h : shape.Readable code) (hc : shape.callable? = some c) : c.Readable code := by
  cases shape with
  | field f => cases hc
  | constructor k => exact Option.some.inj hc ▸ h
  | method k => exact Option.some.inj hc ▸ h
  | other => cases hc

structure MemberLayout.Readable (code : Code) (m : MemberLayout) : Prop where
  range : code.Fits m.range
  signature : code.Fits m.signature
  shape : m.shape.Readable code

structure ClassLayout.Readable (code : Code) (c : ClassLayout) : Prop where
  range : code.Fits c.range
  header : code.Fits c.header
  name : code.Fits c.name
  typeParams : code.FitsIfAny c.typeParams
  tail : code.Fits c.tail
  members : ∀ m ∈ c.members, m.Readable code

end ClassRefactor
