import ClassRefactor.Proofs.Growth.Constructor
import ClassRefactor.Proofs.Growth.Gap

/-!
# A class with a member more

Where no member is open, blanks in a class body may be exchanged for a member with blanks around it.
The class then has the members that it had, and the new one behind them. So where a class ends,
white space of the source may be exchanged for a constructor with blanks around it, and the file
declares the classes that it declared.
-/

namespace ClassRefactor

namespace Code

theorem unassigned_member {x k y : Code} (hx : ∀ c ∈ x, isLayoutBlank c = true)
    (hhead : ∃ d, k.head? = some d ∧ isIdentCell d = true) : Unassigned (x ++ k ++ y) := by
  obtain ⟨d, hd, hident⟩ := hhead
  obtain ⟨rest, rfl⟩ := List.head?_eq_some_iff.mp hd
  intro e he
  rw [List.append_assoc, List.dropWhile_append_of_pos hx, List.cons_append,
    List.dropWhile_cons_of_neg (by simp [isLayoutBlank_eq_false_of_isIdentCell hident])] at he
  rw [← Option.some.inj he]
  rintro rfl
  exact absurd hident (by decide)

/-- The members of a class body up to a place where none is open, and behind it blanks or a member
more. -/
theorem memberRanges_grown {a b x k y c : Code} {start : Nat}
    (hb : ∀ d ∈ b, isLayoutBlank d = true) (hx : ∀ d ∈ x, isLayoutBlank d = true)
    (hy : ∀ d ∈ y, isLayoutBlank d = true) (hhead : ∃ d, k.head? = some d ∧ isIdentCell d = true)
    (hlen : 1 < k.length) (hcut : ∀ (code : Code) stop, Segment.Cut code code.afterMemberBlock stop k)
    (hc : Unassigned c) (hstart : start ≤ a.length) (hsettled : (a.memberCut start).2 = {}) :
    (a ++ (x ++ k ++ y) ++ c).memberRanges start (a ++ (x ++ k ++ y)).length =
        (a ++ b ++ c).memberRanges start (a ++ b).length ++
          [⟨(a ++ x).length, (a ++ x ++ k).length⟩] ∧
      ∀ r ∈ (a ++ b ++ c).memberRanges start (a ++ b).length, r.stop ≤ a.length := by
  have hranges : ∀ l : Code, Unassigned (l ++ c) →
      Segment.ranges (a ++ l ++ c) (a ++ l ++ c).afterMemberBlock start (a ++ l).length =
        (a.memberCut start).1 ++ Segment.rangesFrom (a ++ l ++ c) (a ++ l ++ c).afterMemberBlock
          (a ++ l).length {} a.length l := by
    intro l hl
    have htake : (l ++ c).take ((a ++ l).length - a.length) = l := by
      rw [List.length_append, Nat.add_sub_cancel_left, List.take_left]
    have hle : a.length ≤ (a ++ l).length := by
      rw [List.length_append]
      omega
    have := ranges_memberCut hl hstart hle
    rwa [htake, hsettled, ← List.append_assoc] at this
  have hold := hranges b ((unassigned_blanks hb).append hc)
  rw [Segment.rangesFrom_of_blanks hb, List.append_nil] at hold
  have hnew := hranges (x ++ k ++ y) (by rw [List.append_assoc]; exact unassigned_member hx hhead)
  have hinside : (a ++ (x ++ k ++ y) ++ c).window a.length (a ++ (x ++ k ++ y)).length =
      x ++ k ++ y := by
    have := (shows_append a (x ++ k ++ y) c).window_self
    rwa [← List.length_append] at this
  rw [(hcut _ _).rangesFrom hx hy hinside, ← hold, ← List.length_append,
    ← List.length_append] at hnew
  have hbounds : ∀ r ∈ Segment.ranges (a ++ b ++ c) (a ++ b ++ c).afterMemberBlock start
      (a ++ b).length, r.start < r.stop ∧ r.stop ≤ a.length := by
    intro r hr
    rw [hold] at hr
    obtain ⟨hlt, hle, -⟩ := within_memberCut hstart r hr
    exact ⟨hlt, hle⟩
  refine ⟨?_, fun r hr => (hbounds r (List.mem_filter.mp hr).1).2⟩
  rw [memberRanges, hnew, List.filter_append, memberRanges]
  congr 1
  · refine List.filter_congr fun r hr => ?_
    obtain ⟨hlt, hle⟩ := hbounds r hr
    have hget : ∀ l : Code, (a ++ l ++ c)[r.start]? = a[r.start]? := fun l => by
      rw [List.append_assoc, List.getElem?_append_left (by omega)]
    rw [hget, hget]
  · have hlong : (Range.length ⟨(a ++ x).length, (a ++ x ++ k).length⟩ == 1) = false := by
      rw [beq_eq_false_iff_ne, Range.length]
      simp only [List.length_append]
      omega
    rw [List.filter_singleton, hlong]
    rfl

end Code

namespace Source

/-- Blanks in front of a closing brace, and a constructor with blanks around it to put in their
place. -/
structure Growth (a : Source) (b : Text) (c : Source) (x y : Text) (style : Style)
    (m : Constructor) : Prop extends GapSwap a b (x ++ m.text style ++ y) c where
  before : ∀ d ∈ x, isLayoutBlank d = true
  behind : ∀ d ∈ y, isLayoutBlank d = true
  style : style.BlanksOnly
  legible : m.Legible

namespace Growth

variable {a c : Source} {b x y : Text} {style : Style} {m : Constructor}
  (h : Growth a b c x y style m)
include h

theorem cells_new : Text.cells (x ++ m.text style ++ y) = x ++ Text.cells (m.text style) ++ y := by
  rw [Text.cells_append, Text.cells_append, (printed_blanks h.before).cells,
    (printed_blanks h.behind).cells]

/-- Blanks and the constructor may stand for one another. -/
theorem exists_swappable : ∃ n, Code.Swappable a.masked.cells (plain b).masked.cells
    (plain (x ++ m.text style ++ y)).masked.cells c.masked.cells n := by
  have hlast := h.legible.last h.style
  refine h.toGapSwap.exists_swappable ?_ ?_
  · rw [h.cells_new]
    exact ((Code.Transparent.of_blanks h.before).append (h.legible.transparent h.style)).append
      (.of_blanks h.behind)
  · rw [h.cells_new]
    refine ((Code.Mute.of_blanks h.before).append (.inl fun d hd => ?_)
      (h.legible.mute h.style)).append (Code.apart_of_last (c := '}') ?_ (by decide))
      (.of_blanks h.behind)
    · exact Segment.isIdentCell_of_isLayoutBlank (h.before d (List.mem_of_getLast? hd))
    · rw [List.getLast?_append, hlast]
      rfl

/-- The members before the constructor are read as before, and the constructor behind them. -/
theorem members_append {l : ClassLayout} {members : List Member}
    (hbody : (a ++ plain b ++ c).Body l members)
    (hopening : l.opening < a.masked.size) (hclosing : l.closing = (a ++ plain b).masked.size)
    (hsettled : (Code.memberCut a.masked.cells (l.opening + 1)).2 = {})
    (hname : Text.cells m.name.toList =
      Code.window (a ++ plain b ++ c).masked.cells l.name.start l.name.stop)
    (hsealed : ∀ r ∈ Code.memberRanges (a ++ plain (x ++ m.text style ++ y) ++ c).masked.cells
        (l.opening + 1) (a ++ plain (x ++ m.text style ++ y)).masked.size,
      Code.Sealed (a ++ plain (x ++ m.text style ++ y) ++ c).masked.cells r.stop) :
    List.Forall₂ (fun r v => (a ++ plain (x ++ m.text style ++ y) ++ c).memberAt
        (Code.window (a ++ plain b ++ c).masked.cells l.name.start l.name.stop) r = .ok v)
      (Code.memberRanges (a ++ plain (x ++ m.text style ++ y) ++ c).masked.cells (l.opening + 1)
        (a ++ plain (x ++ m.text style ++ y)).masked.size)
      (members ++ [.constructor m]) := by
  obtain ⟨hlaid, hfits, hsealedOld, hread⟩ := hbody
  rw [hclosing] at hlaid hfits hsealedOld hread
  have hends : ∀ s t : Source, (s ++ t).masked.size = (s.masked.cells ++ t.masked.cells).length :=
    fun s t => by simp
  obtain ⟨hgrown, hbefore⟩ := Code.memberRanges_grown (b := (plain b).masked.cells)
    (c := c.masked.cells) h.blanks h.before h.behind (h.legible.head h.style)
    (h.legible.length_lt h.style) (fun _ _ => h.legible.cut h.style) (.of_brace h.brace)
    (by rw [Text.length_cells]; exact hopening) hsettled
  rw [← h.cells_new] at hgrown
  change Code.memberRanges (_ ++ (plain (x ++ m.text style ++ y)).masked.cells ++ _) _
    (_ ++ (plain (x ++ m.text style ++ y)).masked.cells).length = _ at hgrown
  simp only [← hends, ← cells_masked] at hgrown hbefore
  rw [hgrown] at hsealed ⊢
  generalize Code.window (a ++ plain b ++ c).masked.cells l.name.start l.name.stop = className at *
  refine List.rel_append (forall₂_imp_of_mem hread.flip fun v r hr hv => ?_).flip (.cons ?_ .nil)
  · have hlt := (hlaid.within r hr).2.1
    have hle := hbefore r hr
    have hfit := hfits r hr
    have hseal := hsealedOld r hr
    have hseal' := hsealed r (List.mem_append_left _ hr)
    have hwhole := h.sound
    rw [Text.length_cells] at hle
    rw [append_assoc] at hwhole hfit hseal hv
    rw [append_assoc] at hseal' ⊢
    obtain ⟨w, hw, hw'⟩ := exists_member_before h.even.1 hwhole hlt hle hfit hseal hseal' className
    rw [hv] at hw
    obtain rfl := Except.ok.inj hw
    exact hw'
  · have hparts : a ++ plain (x ++ m.text style ++ y) ++ c =
        a ++ plain x ++ plain (m.text style) ++ (plain y ++ c) := by
      simp only [plain_append, append_assoc]
    have hx : (a.masked.cells ++ x).length = (a ++ plain x).masked.size := by
      rw [masked_append, Text.size_append, List.length_append, Text.length_cells]
      exact congrArg _ (printed_blanks h.before).size.symm
    have hrange : Range.mk (a.masked.cells ++ x).length
        (a.masked.cells ++ x ++ Text.cells (m.text style)).length =
        ⟨(a ++ plain x).masked.size,
          (a ++ plain x).masked.size + (plain (m.text style)).masked.size⟩ := by
      rw [@List.length_append _ (a.masked.cells ++ x), Text.length_cells, hx]
      rfl
    have hseal' := hsealed _ (List.mem_append_right _ List.mem_cons_self)
    rw [hrange, hparts] at hseal' ⊢
    exact member_middle hseal' (h.even.1.append (even_plain x)) (h.legible.read h.style _ hname)

end Growth

end Source

/-- No member of a class is open at its closing brace. -/
def ClassLayout.Settled (layout : ClassLayout) (text : Text) : Prop :=
  Code.Settled text.mask.cells (Code.afterMemberBlock text.mask.cells) (layout.opening + 1)
    layout.closing

instance (layout : ClassLayout) (text : Text) : Decidable (layout.Settled text) :=
  inferInstanceAs (Decidable (Code.Settled ..))

/-- A constructor with blanks around it is quiet. -/
theorem Constructor.Legible.quiet_between {m : Constructor} (hm : m.Legible) {style : Style}
    (hstyle : style.BlanksOnly) {x y : Text} (hx : ∀ e ∈ x, isLayoutBlank e = true)
    (hy : ∀ e ∈ y, isLayoutBlank e = true) :
    (∀ e ∈ x ++ m.text style ++ y, isQuiet e = true) ∧
      (x ++ m.text style ++ y).head? ≠ some '*' := by
  have hblank : ∀ {l : Text}, (∀ e ∈ l, isLayoutBlank e = true) → ∀ e ∈ l, isQuiet e = true :=
    fun hl e he => isQuiet_of_isWhite (isWhite_of_isLayoutBlank (hl e he))
  refine ⟨fun e he => ?_, ?_⟩
  · simp only [List.mem_append] at he
    rcases he with (he | he) | he
    · exact hblank hx e he
    · exact hm.quiet hstyle e he
    · exact hblank hy e he
  · obtain ⟨d, hd, hident⟩ := hm.head hstyle
    rw [Text.head?_cells] at hd
    cases x with
    | nil =>
      rw [List.nil_append, List.head?_append, hd]
      intro heq
      obtain rfl := Option.some.inj heq
      exact absurd hident (by decide)
    | cons e x =>
      intro heq
      obtain rfl := Option.some.inj heq
      exact absurd (hx '*' List.mem_cons_self) (by decide)

namespace SourceFile

/-- With a constructor put in the gap before the closing brace of a class, the file declares the
classes that it declared, and the class has the constructor behind its members. -/
theorem exists_grown {text : Text} {file : SourceFile} (hfile : parse text = .ok file) {i : Nat}
    {d : ParsedClass} (hd : file.classes[i]? = some d) {a b c : Text}
    (hgap : ClosingGap text a b c (Code.afterMemberBlock text.mask.cells) d.layout.opening
      d.layout.closing)
    {x y : Text} (hx : ∀ e ∈ x, isLayoutBlank e = true) (hy : ∀ e ∈ y, isLayoutBlank e = true)
    {style : Style} (hstyle : style.BlanksOnly) {m : Constructor} (hm : m.Legible)
    (hname : m.name = d.node.name) :
    ∃ (p q : Source) (file' : SourceFile) (d' : ParsedClass), p.text = a ∧ p.Even ∧ q.Even ∧
      Source.ofText text = p ++ .plain b ++ q ∧
      Source.ofText (a ++ (x ++ m.text style ++ y) ++ c) =
        p ++ .plain (x ++ m.text style ++ y) ++ q ∧
      parse (a ++ (x ++ m.text style ++ y) ++ c) = .ok file' ∧
      file'.classes.length = file.classes.length ∧ file'.classes[i]? = some d' ∧
      d'.layout.opening = d.layout.opening ∧
      d'.layout.closing = (p ++ .plain (x ++ m.text style ++ y)).masked.size ∧
      d'.node = { d.node with members := d.node.members ++ [.constructor m] } := by
  obtain ⟨hquiet, hstar⟩ := hm.quiet_between hstyle hx hy
  obtain ⟨p, q, hp, hsize, hsource, hsource', hswap, hopen⟩ := hgap.exists_swap hquiet hstar
  have hgrowth : Source.Growth p b q x y style m := ⟨hswap, hx, hy, hstyle, hm⟩
  obtain ⟨n, hswappable⟩ := hgrowth.exists_swappable
  obtain ⟨hlayout, hnode⟩ := layout_of_mem_classes hfile (List.mem_of_getElem? hd)
  have hbody : (Source.ofText text).Body d.layout d.node.members :=
    ClassLayout.body_of_read (s := Source.ofText text) hlayout hnode
  have hnameCells := ClassLayout.cells_name hlayout hnode
  have hopening := hgap.before
  have hclosing : d.layout.closing = (p ++ Source.plain b).masked.size := by
    rw [hgap.behind, Text.size_append, Source.masked_append, Text.size_append, hsize]
    rfl
  change Text.cells _ = Code.window (Source.ofText text).masked.cells _ _ at hnameCells
  change (Segment.endedFrom (Source.ofText text).masked.cells
    (Code.afterMemberBlock (Source.ofText text).masked.cells) _ _ _ _).2 = _ at hopen
  rw [← hname] at hnameCells
  rw [hsource] at hbody hnameCells hopen
  have hblanks : ∀ e ∈ (Source.plain b).masked.cells, isLayoutBlank e = true := hswap.blanks
  have hsettled : (Code.memberCut p.masked.cells (d.layout.opening + 1)).2 = {} := by
    rw [Source.cells_masked, List.append_assoc, Code.endedFrom_memberCut
      ((Code.unassigned_blanks hblanks).append (.of_brace hswap.brace))
      (by rw [Text.length_cells]; omega)
      (by rw [hclosing, Text.length_cells, Source.masked_append, Text.size_append]; omega)] at hopen
    exact hopen
  obtain ⟨file', d', hread⟩ := exists_swapped hsource hsource' hswap.toSwap hswappable hfile hd
    (by omega) (q := 0) hclosing
    fun hsealed => hgrowth.members_append hbody (by omega) hclosing hsettled hnameCells hsealed
  exact ⟨p, q, file', d', hp, hswap.even.1, hswap.even.2.2.2, hsource, hsource', hread⟩

end SourceFile

end ClassRefactor
