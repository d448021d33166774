import ClassRefactor.Proofs.Source.File

/-!
# What comments and literals cannot decide

The outline of a tree is what it says by names, modifiers and the kinds of its parts. The rest is
types and text, which are taken from the source and may hold comments and literals. Two texts that
differ in comments and in the contents of literals only are read into trees of one outline.
-/

namespace ClassRefactor

/-- A parameter without its type and its default. -/
structure ParameterOutline where
  modifiers : List String
  name : String
deriving DecidableEq, Repr

/-- The kind of a body; of a block also the number of statements. -/
inductive BodyOutline where
  | block (statements : Nat)
  | expression
  | absent
deriving DecidableEq, Repr

/-- A constructor or method without types and texts. -/
structure CallableOutline where
  name : String
  modifiers : List String
  parameters : List ParameterOutline
  body : BodyOutline
deriving DecidableEq, Repr

inductive MemberOutline where
  | field (modifiers names : List String)
  | constructor (callable : CallableOutline)
  | method (callable : CallableOutline)
  | other
deriving DecidableEq, Repr

/-- A class with all its positions, and with its tree without types and texts. -/
structure ClassOutline where
  layout : ClassLayout
  nesting : Nat
  name : String
  modifiers : List String
  members : List MemberOutline
deriving DecidableEq, Repr

def Parameter.outline (p : Parameter) : ParameterOutline := ⟨p.modifiers, p.name⟩

def Body.outline : Body → BodyOutline
  | .block statements => .block statements.length
  | .expression _ => .expression
  | .absent => .absent

def Field.outline (f : Field) : MemberOutline := .field f.modifiers (f.declarators.map (·.name))

def Constructor.outline (c : Constructor) : CallableOutline :=
  ⟨c.name, c.modifiers, c.parameters.map Parameter.outline, c.body.outline⟩

def Method.outline (m : Method) : CallableOutline :=
  ⟨m.name, m.modifiers, m.parameters.map Parameter.outline, m.body.outline⟩

def Member.outline : Member → MemberOutline
  | .field f => f.outline
  | .constructor c => .constructor c.outline
  | .method m => .method m.outline
  | .other _ => .other

def ParsedClass.outline (c : ParsedClass) : ClassOutline :=
  ⟨c.layout, c.nesting, c.node.name, c.node.modifiers, c.node.members.map Member.outline⟩

/-- The outlines of all classes, in the order of the classes. -/
def SourceFile.outline (file : SourceFile) : List ClassOutline :=
  file.classes.map ParsedClass.outline

/-- Two ways to read the same elements agree in what they agree in at each element. -/
theorem map_eq_map_of_mapM_eq_ok {α β γ ε : Type} {f g : α → Except ε β} {o : β → γ}
    (h : ∀ a b c, f a = .ok b → g a = .ok c → o b = o c) {as : List α} {bs cs : List β}
    (hb : as.mapM f = .ok bs) (hc : as.mapM g = .ok cs) : bs.map o = cs.map o :=
  map_eq_map_of_forall₂ h (mapM_eq_ok_iff.mp hb) (mapM_eq_ok_iff.mp hc)

/-! One layout is read in two sources with the same masked form. -/

section

variable {s s' : Source} (h : s.masked = s'.masked)
include h

theorem Source.name_congr (r : Range) : s.name r = s'.name r := by
  rw [Source.name, Source.name, h]

theorem Source.name_eq_of_masked_eq {r : Range} {x y : String} (hx : s.name r = .ok x)
    (hy : s'.name r = .ok y) : x = y := by
  rw [Source.name_congr h, hy] at hx
  exact (Except.ok.inj hx).symm

theorem VariableLayout.name_eq_of_read {v : VariableLayout} {x y : FieldVariable}
    (hx : v.read s = .ok x) (hy : v.read s' = .ok y) : x.name = y.name := by
  simp only [VariableLayout.read, bind_eq_ok_iff] at hx hy
  obtain ⟨n, hn, _, _, hx⟩ := hx
  obtain ⟨n', hn', _, _, hy⟩ := hy
  rw [← Except.ok.inj hx, ← Except.ok.inj hy]
  exact Source.name_eq_of_masked_eq h hn hn'

theorem FieldLayout.outline_eq_of_read {f : FieldLayout} {x y : Field}
    (hx : f.read s = .ok x) (hy : f.read s' = .ok y) : x.outline = y.outline := by
  simp only [FieldLayout.read, bind_eq_ok_iff] at hx hy
  obtain ⟨_, _, ds, hds, hx⟩ := hx
  obtain ⟨_, _, ds', hds', hy⟩ := hy
  rw [← Except.ok.inj hx, ← Except.ok.inj hy]
  have hnames := map_eq_map_of_mapM_eq_ok
    (fun _ _ _ => VariableLayout.name_eq_of_read h) hds hds'
  rw [Field.outline, Field.outline, hnames]

theorem ParameterLayout.outline_eq_of_read {p : ParameterLayout} {x y : Parameter}
    (hx : p.read s = .ok x) (hy : p.read s' = .ok y) : x.outline = y.outline := by
  simp only [ParameterLayout.read, bind_eq_ok_iff] at hx hy
  obtain ⟨_, _, _, _, n, hn, _, _, hx⟩ := hx
  obtain ⟨_, _, _, _, n', hn', _, _, hy⟩ := hy
  rw [← Except.ok.inj hx, ← Except.ok.inj hy, Parameter.outline, Parameter.outline,
    Source.name_eq_of_masked_eq h hn hn']

omit h in
/-- How many statements a block has, and whether a body is one, is settled by the layout. -/
theorem BodyLayout.outline_eq_of_read {b : BodyLayout} {x y : Body}
    (hx : b.read s = .ok x) (hy : b.read s' = .ok y) : x.outline = y.outline := by
  cases b with
  | block b =>
    obtain ⟨xs, hxs, hx⟩ := bind_eq_ok_iff.mp hx
    obtain ⟨ys, hys, hy⟩ := bind_eq_ok_iff.mp hy
    rw [← Except.ok.inj hx, ← Except.ok.inj hy, Body.outline, Body.outline,
      ← length_of_mapM_eq_ok hxs, ← length_of_mapM_eq_ok hys]
  | expression r =>
    obtain ⟨_, _, hx⟩ := bind_eq_ok_iff.mp hx
    obtain ⟨_, _, hy⟩ := bind_eq_ok_iff.mp hy
    rw [← Except.ok.inj hx, ← Except.ok.inj hy, Body.outline, Body.outline]
  | absent =>
    rw [← Except.ok.inj hx, ← Except.ok.inj hy]

theorem CallableLayout.outline_eq_of_readConstructor {c : CallableLayout} {x y : Constructor}
    (hx : c.readConstructor s = .ok x) (hy : c.readConstructor s' = .ok y) :
    x.outline = y.outline := by
  simp only [CallableLayout.readConstructor, bind_eq_ok_iff] at hx hy
  obtain ⟨_, _, n, hn, ps, hps, _, _, b, hb, hx⟩ := hx
  obtain ⟨_, _, n', hn', ps', hps', _, _, b', hb', hy⟩ := hy
  rw [← Except.ok.inj hx, ← Except.ok.inj hy]
  have hparams := map_eq_map_of_mapM_eq_ok
    (fun _ _ _ => ParameterLayout.outline_eq_of_read h) hps hps'
  rw [Constructor.outline, Constructor.outline, Source.name_eq_of_masked_eq h hn hn', hparams,
    BodyLayout.outline_eq_of_read hb hb']

theorem CallableLayout.outline_eq_of_readMethod {c : CallableLayout} {x y : Method}
    (hx : c.readMethod s = .ok x) (hy : c.readMethod s' = .ok y) : x.outline = y.outline := by
  simp only [CallableLayout.readMethod, bind_eq_ok_iff] at hx hy
  obtain ⟨_, _, n, hn, _, _, _, _, ps, hps, _, _, b, hb, hx⟩ := hx
  obtain ⟨_, _, n', hn', _, _, _, _, ps', hps', _, _, b', hb', hy⟩ := hy
  rw [← Except.ok.inj hx, ← Except.ok.inj hy]
  have hparams := map_eq_map_of_mapM_eq_ok
    (fun _ _ _ => ParameterLayout.outline_eq_of_read h) hps hps'
  rw [Method.outline, Method.outline, Source.name_eq_of_masked_eq h hn hn', hparams,
    BodyLayout.outline_eq_of_read hb hb']

theorem MemberLayout.outline_eq_of_read {m : MemberLayout} {x y : Member}
    (hx : m.read s = .ok x) (hy : m.read s' = .ok y) : x.outline = y.outline := by
  simp only [MemberLayout.read, bind_eq_ok_iff] at hx hy
  obtain ⟨_, _, _, _, hx⟩ := hx
  obtain ⟨_, _, _, _, hy⟩ := hy
  cases hshape : m.shape with
  | field f =>
    rw [hshape] at hx hy
    obtain ⟨u, hu, hx⟩ := bind_eq_ok_iff.mp hx
    obtain ⟨v, hv, hy⟩ := bind_eq_ok_iff.mp hy
    rw [← Except.ok.inj hx, ← Except.ok.inj hy]
    exact FieldLayout.outline_eq_of_read h hu hv
  | constructor c =>
    rw [hshape] at hx hy
    obtain ⟨u, hu, hx⟩ := bind_eq_ok_iff.mp hx
    obtain ⟨v, hv, hy⟩ := bind_eq_ok_iff.mp hy
    rw [← Except.ok.inj hx, ← Except.ok.inj hy]
    exact congrArg MemberOutline.constructor (c.outline_eq_of_readConstructor h hu hv)
  | method c =>
    rw [hshape] at hx hy
    obtain ⟨u, hu, hx⟩ := bind_eq_ok_iff.mp hx
    obtain ⟨v, hv, hy⟩ := bind_eq_ok_iff.mp hy
    rw [← Except.ok.inj hx, ← Except.ok.inj hy]
    exact congrArg MemberOutline.method (c.outline_eq_of_readMethod h hu hv)
  | other =>
    rw [hshape] at hx hy
    obtain ⟨_, _, hx⟩ := bind_eq_ok_iff.mp hx
    obtain ⟨_, _, hy⟩ := bind_eq_ok_iff.mp hy
    rw [← Except.ok.inj hx, ← Except.ok.inj hy]
    rfl

theorem ClassLayout.outline_eq_of_read {c : ClassLayout} {x y : ClassNode}
    (hx : c.read s = .ok x) (hy : c.read s' = .ok y) :
    x.name = y.name ∧ x.modifiers = y.modifiers ∧
      x.members.map Member.outline = y.members.map Member.outline := by
  simp only [ClassLayout.read, bind_eq_ok_iff] at hx hy
  obtain ⟨_, _, _, _, n, hn, _, _, _, _, ms, hms, hx⟩ := hx
  obtain ⟨_, _, _, _, n', hn', _, _, _, _, ms', hms', hy⟩ := hy
  rw [← Except.ok.inj hx, ← Except.ok.inj hy]
  exact ⟨Source.name_eq_of_masked_eq h hn hn', rfl, map_eq_map_of_mapM_eq_ok
    (fun _ _ _ => MemberLayout.outline_eq_of_read h) hms hms'⟩

end

namespace SourceFile

/-- Texts of one masked form, whatever their comments and literals hold, are read into as many
classes, and class by class these have the same layout and nesting, the same name and modifiers, and
the same members up to types and texts. -/
theorem outline_eq_of_mask_eq {a b : Text} (h : a.mask = b.mask) :
    ∃ fa fb, parse a = .ok fa ∧ parse b = .ok fb ∧ fa.outline = fb.outline := by
  obtain ⟨fa, ha⟩ := exists_parse a
  obtain ⟨fb, hb⟩ := exists_parse b
  refine ⟨fa, fb, ha, hb, ?_⟩
  have hra := parse_eq_ok_iff.mp ha
  have hrb := parse_eq_ok_iff.mp hb
  -- The layouts are those of the common masked form; each of them is read once on either side.
  rw [← h] at hrb
  refine map_eq_map_of_forall₂ (fun layout c d hc hd => ?_) hra hrb
  obtain ⟨hreadc, hlayoutc, hnestingc⟩ := hc
  obtain ⟨hreadd, hlayoutd, hnestingd⟩ := hd
  obtain ⟨hname, hmodifiers, hmembers⟩ := layout.outline_eq_of_read h hreadc hreadd
  simp only [ParsedClass.outline, hlayoutc, hlayoutd, hnestingc, hnestingd, hname, hmodifiers,
    hmembers]

/-- Delimiters, keywords and declarations that stand in comments and literals only. -/
def crowdedText : Text :=
  "class C \x7b /*\x7d class X \x7b int y; */ string s = \"\x7d;\"; void F(int a /*, int b*/) \x7b /*;*/ return; \x7d \x7d".toList

/-- The same text with nothing to see in its comments and literals. -/
def clearedText : Text :=
  "class C \x7b /*                   */ string s = \"..\"; void F(int a /*.......*/) \x7b /*.*/ return; \x7d \x7d".toList

theorem outline_eq_of_mask_eq_crowdedText :
    crowdedText.mask = clearedText.mask ∧ ∃ fa fb, parse crowdedText = .ok fa ∧
      parse clearedText = .ok fb ∧ fa.outline = fb.outline :=
  have h : crowdedText.mask = clearedText.mask := by decide +kernel
  ⟨h, outline_eq_of_mask_eq h⟩

end SourceFile

end ClassRefactor
