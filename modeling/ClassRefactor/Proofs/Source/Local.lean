import ClassRefactor.Proofs.Layout.Local
import ClassRefactor.Proofs.Layout.Member
import ClassRefactor.Proofs.Source.File

/-!
# Reading is local

What is read at a layout in a part of the source is read in the whole source at the layout moved to
where the part stands. A source falls into parts at the seams of its masked text. What is read in a
part does not depend on the parts around it, so a member is read alike wherever its text stands.
-/

namespace ClassRefactor

/-- Where the first computation gives a result, the second gives the same. -/
def Refines {α ε : Type} (x y : Except ε α) : Prop := ∀ a, x = .ok a → y = .ok a

namespace Refines

variable {α β ε : Type}

theorem refl (x : Except ε α) : Refines x x := fun _ h => h

theorem bind {x y : Except ε α} {f g : α → Except ε β} (hxy : Refines x y)
    (hfg : ∀ a, Refines (f a) (g a)) : Refines (x >>= f) (y >>= g) := by
  intro b hb
  obtain ⟨a, ha, hfa⟩ := bind_eq_ok_iff.mp hb
  exact bind_eq_ok_iff.mpr ⟨a, hxy a ha, hfg a b hfa⟩

theorem mapM {γ : Type} {f : α → Except ε β} {g : γ → Except ε β} {m : α → γ}
    (h : ∀ a, Refines (f a) (g (m a))) (as : List α) :
    Refines (as.mapM f) ((as.map m).mapM g) := by
  intro bs hbs
  rw [mapM_eq_ok_iff] at hbs ⊢
  induction hbs with
  | nil => exact .nil
  | cons hab _ ih => exact .cons (h _ _ hab) ih

end Refines

theorem Text.read_append {a m b : Text} {r : Range} {t : Text} (h : m.read r = .ok t) :
    (a ++ m ++ b).read (r.shift a.size) = .ok t := by
  unfold Text.read at h
  split at h
  · cases h
  · rename_i hle
    split at h
    · rename_i hbounds
      simp only [Bool.and_eq_true] at hbounds
      obtain rfl := Except.ok.inj h
      obtain ⟨x, y, z, rfl, hx, hy⟩ :=
        split_at_boundaries hbounds.1 hbounds.2 (Nat.le_of_not_lt hle)
      obtain ⟨start, stop⟩ := r
      subst hx hy
      have hwhole : a ++ (x ++ y ++ z) ++ b = a ++ x ++ y ++ (z ++ b) := by simp
      have hstart : a.size + x.size = (a ++ x).size := by simp
      have hstop : a.size + (x.size + y.size) = (a ++ x).size + y.size := by
        simp [Nat.add_assoc]
      have hstart' : isBoundary (a ++ x ++ y ++ (z ++ b)) (a ++ x).size = true :=
        isBoundary_iff.mpr ⟨a ++ x, y ++ (z ++ b), by simp, rfl⟩
      have hstop' : isBoundary (a ++ x ++ y ++ (z ++ b)) ((a ++ x).size + y.size) = true :=
        isBoundary_iff.mpr ⟨a ++ x ++ y, z ++ b, rfl, by simp [Nat.add_assoc]⟩
      rw [hwhole, Text.read, Range.shift, hstart, hstop, if_neg (by simp), hstart', hstop',
        slice_append, slice_append]
      rfl
    · cases h

/-- A part of a source that begins `n` bytes into it. -/
structure Source.Within (part whole : Source) (n : Nat) : Prop where
  text : ∀ r, Refines (part.text.read r) (whole.text.read (r.shift n))
  masked : ∀ r, Refines (part.masked.read r) (whole.masked.read (r.shift n))

theorem Source.within_append {a m b a' m' b' : Text} (h : a.size = a'.size) :
    Source.Within ⟨m, m'⟩ ⟨a ++ m ++ b, a' ++ m' ++ b'⟩ a.size :=
  ⟨fun _ _ hr => Text.read_append hr, fun _ _ hr => by rw [h]; exact Text.read_append hr⟩

theorem Refines.optional {α : Type} {n : Nat} {f g : Range → Except Fault α}
    (hfg : ∀ r, Refines (f r) (g (r.shift n))) (r : Option Range) :
    Refines (Source.optional f r) (Source.optional g (r.map (Range.shift n))) := by
  cases r with
  | none => exact .refl _
  | some r =>
    intro a ha
    cases hr : f r with
    | error e => simp [Source.optional, hr, Except.map] at ha
    | ok b =>
      simp only [Source.optional, hr, Except.map, Option.map_some, hfg r b hr] at ha ⊢
      exact ha

theorem Refines.checked (n : Nat) (r : Range) {α : Type} {x y : Except Fault α}
    (hxy : Refines x y) :
    Refines (do let _ ← r.checked; x) (do let _ ← (r.shift n).checked; y) := by
  intro a ha
  obtain ⟨r', hr, hx⟩ := bind_eq_ok_iff.mp ha
  refine bind_eq_ok_iff.mpr ⟨r.shift n, ?_, hxy a hx⟩
  unfold Range.checked at hr ⊢
  split at hr
  · rename_i hle
    exact if_pos (Nat.add_le_add_left hle n)
  · cases hr

namespace Source.Within

variable {part whole : Source} {n : Nat} (h : part.Within whole n)
include h

theorem opaqueText (r : Range) :
    Refines (part.opaqueText r) (whole.opaqueText (r.shift n)) :=
  (h.text r).bind fun _ => .refl _

theorem name (r : Range) : Refines (part.name r) (whole.name (r.shift n)) :=
  (h.masked r).bind fun _ => .refl _

theorem type (r : Range) : Refines (part.type r) (whole.type (r.shift n)) :=
  (h.text r).bind fun _ => .refl _

theorem variable_ (v : VariableLayout) : Refines (v.read part) ((v.shift n).read whole) :=
  (h.name v.name).bind fun _ => (Refines.optional h.opaqueText v.initializer).bind fun _ => .refl _

theorem field (f : FieldLayout) : Refines (f.read part) ((f.shift n).read whole) :=
  (h.type f.type).bind fun _ => (Refines.mapM h.variable_ f.declarators).bind fun _ => .refl _

theorem parameter (p : ParameterLayout) : Refines (p.read part) ((p.shift n).read whole) :=
  Refines.checked n p.range <| (h.type p.type).bind fun _ => (h.name p.name).bind fun _ =>
    (Refines.optional h.opaqueText p.default).bind fun _ => .refl _

theorem statement (r : Range) :
    Refines (Statement.read part r) (Statement.read whole (r.shift n)) :=
  (h.text r).bind fun _ => (h.masked r).bind fun _ => .refl _

theorem body (b : BodyLayout) : Refines (b.read part) ((b.shift n).read whole) := by
  cases b with
  | block b => exact (Refines.mapM h.statement b.statements).bind fun _ => .refl _
  | expression r => exact (h.opaqueText r).bind fun _ => .refl _
  | absent => exact .refl _

theorem constructor_ (c : CallableLayout) :
    Refines (c.readConstructor part) ((c.shift n).readConstructor whole) :=
  Refines.checked n c.lead <| (h.name c.name).bind fun _ =>
    (Refines.mapM h.parameter c.params).bind fun _ => (h.text c.tail).bind fun _ =>
    (h.body c.body).bind fun _ => .refl _

theorem method (c : CallableLayout) :
    Refines (c.readMethod part) ((c.shift n).readMethod whole) :=
  Refines.checked n c.lead <| (h.name c.name).bind fun _ =>
    (Refines.optional (fun r => (h.text r).bind fun _ => .refl _) c.typeParams).bind fun _ =>
    (h.type c.result).bind fun _ => (Refines.mapM h.parameter c.params).bind fun _ =>
    ((h.text c.tail).bind fun _ => .refl _).bind fun _ => (h.body c.body).bind fun _ => .refl _

/-- A member is read from its own text. -/
theorem member (m : MemberLayout) : Refines (m.read part) ((m.shift n).read whole) := by
  refine Refines.checked n m.range (Refines.checked n m.signature ?_)
  obtain ⟨range, signature, shape⟩ := m
  cases shape with
  | field f => exact (h.field f).bind fun _ => .refl _
  | constructor c => exact (h.constructor_ c).bind fun _ => .refl _
  | method c => exact (h.method c).bind fun _ => .refl _
  | other => exact (h.opaqueText range).bind fun _ => .refl _

end Source.Within

/-- The seams of a part are where the whole has seams. -/
theorem Code.Seam.middle {a m b : Code} {p : Nat} (h : Seam (a ++ m ++ b) (a.length + p))
    (hp : p ≤ m.length) : Seam m p := by
  refine ⟨hp, fun hpos c hbefore hafter => ?_⟩
  have hshows := shows_append a m b
  have hlt : p < m.length := (List.getElem?_eq_some_iff.mp hafter).1
  have hprevious : a.length + p - 1 = a.length + (p - 1) := by omega
  refine h.2 (by omega) c ?_ ?_
  · rw [hprevious, hshows.getElem? (by omega), hbefore]
  · rw [hshows.getElem? hlt, hafter]

theorem Code.Fits.middle {a m b : Code} {r : Range} (h : Fits (a ++ m ++ b) (r.shift a.length))
    (hr : r.stop ≤ m.length) : Fits m r := by
  have hle : r.start ≤ r.stop := Nat.le_of_add_le_add_left h.1
  exact ⟨hle, h.2.1.middle (Nat.le_trans hle hr), h.2.2.middle hr⟩

theorem Code.Fits.left {l r : Code} {s : Range} (h : Fits (l ++ r) s) (hs : s.stop ≤ l.length) :
    Fits l s := by
  refine Fits.middle (a := []) (b := r) ?_ hs
  rwa [List.nil_append, List.length_nil, Range.shift_zero]

/-- A boundary within a front part is one of the front part. -/
theorem Text.isBoundary_of_append {s t : Text} {n : Nat} (h : isBoundary (s ++ t) n = true)
    (hn : n ≤ size s) : isBoundary s n = true := by
  obtain ⟨a, b, hab, rfl⟩ := isBoundary_iff.mp h
  rcases List.append_eq_append_iff.mp hab with ⟨c, rfl, rfl⟩ | ⟨c, rfl, rfl⟩
  · rw [size_append] at hn ⊢
    have hc : size c = 0 := by omega
    rw [hc, Nat.add_zero]
    exact isBoundary_size s
  · exact isBoundary_iff.mpr ⟨a, c, rfl, rfl⟩

namespace Source

instance : Append Source where
  append s t := ⟨s.text ++ t.text, s.masked ++ t.masked⟩

@[simp] theorem text_append (s t : Source) : (s ++ t).text = s.text ++ t.text := rfl

@[simp] theorem masked_append (s t : Source) : (s ++ t).masked = s.masked ++ t.masked := rfl

theorem append_assoc (s t u : Source) : s ++ t ++ u = s ++ (t ++ u) := by
  show Source.mk _ _ = Source.mk _ _
  simp only [text_append, masked_append, List.append_assoc]

/-- The text and the masked text have the same number of bytes. -/
def Even (s : Source) : Prop := s.text.size = s.masked.size

theorem even_ofText (text : Text) : (ofText text).Even := (Text.size_mask text).symm

theorem Even.append {s t : Source} (hs : s.Even) (ht : t.Even) : (s ++ t).Even := by
  unfold Even at *
  simp [hs, ht]

/-- A source in three parts, of which the middle is read on its own. -/
theorem within_middle {a : Source} (ha : a.Even) (m b : Source) :
    m.Within (a ++ m ++ b) a.masked.size := by
  rw [← ha]
  exact within_append ha

theorem cells_masked (a m b : Source) :
    (a ++ m ++ b).masked.cells = a.masked.cells ++ m.masked.cells ++ b.masked.cells := by
  simp [Text.cells_append]

theorem Sound.middle {a m b : Source} (h : (a ++ m ++ b).Sound) (ha : a.Even) (hm : m.Even) :
    m.Sound := by
  intro p hp
  rcases Nat.eq_zero_or_pos p with rfl | hpos
  · simp
  · have hle : p ≤ m.masked.size := by simpa using hp.le
    rcases Nat.lt_or_ge p m.masked.size with hlt | hge
    · have hshows := Code.shows_append a.masked.cells m.masked.cells b.masked.cells
      have hwhole : Code.Seam (a ++ m ++ b).masked.cells (a.masked.size + p) := by
        rw [cells_masked, ← Text.length_cells]
        refine ⟨by simp; omega, fun _ c hbefore hafter => ?_⟩
        rw [hshows.getElem? (by simpa using hlt)] at hafter
        rw [Nat.add_sub_assoc hpos, hshows.getElem? (by simp; omega)] at hbefore
        exact hp.2 hpos c hbefore hafter
      obtain ⟨htext, hmasked⟩ := h _ hwhole
      rw [text_append, text_append, List.append_assoc, ← ha, Text.isBoundary_append_right] at htext
      rw [masked_append, masked_append, List.append_assoc, Text.isBoundary_append_right] at hmasked
      exact ⟨Text.isBoundary_of_append htext (by rw [hm]; exact hle),
        Text.isBoundary_of_append hmasked hle⟩
    · obtain rfl := Nat.le_antisymm hle hge
      exact ⟨by rw [← hm]; simp, by simp⟩

/-- The empty source. -/
def empty : Source := ⟨[], []⟩

theorem even_empty : empty.Even := rfl

@[simp] theorem empty_append (s : Source) : empty ++ s = s := rfl

@[simp] theorem append_empty (s : Source) : s ++ empty = s := by
  show Source.mk _ _ = s
  simp [empty]

/-- A text that is its own mask. -/
def plain (t : Text) : Source := ⟨t, t⟩

theorem even_plain (t : Text) : (plain t).Even := rfl

theorem plain_append (t u : Text) : plain (t ++ u) = plain t ++ plain u := rfl

theorem Sound.left {a b : Source} (h : (a ++ b).Sound) (ha : a.Even) : a.Sound :=
  Sound.middle (b := b) h even_empty ha

theorem Sound.right {a b : Source} (h : (a ++ b).Sound) (ha : a.Even) (hb : b.Even) : b.Sound :=
  Sound.middle (b := empty) (by rwa [append_empty]) ha hb

/-- A source is cut at a seam. -/
theorem Sound.exists_cut {s : Source} (hs : s.Sound) (heven : s.Even) {p : Nat}
    (h : Code.Seam s.masked.cells p) :
    ∃ a b : Source, s = a ++ b ∧ a.Even ∧ b.Even ∧ a.masked.size = p := by
  obtain ⟨htext, hmasked⟩ := hs p h
  obtain ⟨a, b, ha, hsize⟩ := Text.isBoundary_iff.mp htext
  obtain ⟨a', b', ha', hsize'⟩ := Text.isBoundary_iff.mp hmasked
  refine ⟨⟨a, a'⟩, ⟨b, b'⟩, ?_, hsize.trans hsize'.symm, ?_, hsize'⟩
  · cases s
    subst ha ha'
    rfl
  · have htotal : (a ++ b).size = (a' ++ b').size := by rw [← ha, ← ha', heven]
    rw [Text.size_append, Text.size_append, hsize, hsize'] at htotal
    exact Nat.add_left_cancel htotal

/-- A source is cut at the two ends of a range. -/
theorem Sound.exists_parts {s : Source} (hs : s.Sound) (heven : s.Even) {r : Range}
    (h : Code.Fits s.masked.cells r) :
    ∃ a m b : Source, s = a ++ m ++ b ∧ a.Even ∧ m.Even ∧ b.Even ∧ a.masked.size = r.start ∧
      a.masked.size + m.masked.size = r.stop := by
  obtain ⟨a, u, rfl, ha, hu, hstart⟩ := hs.exists_cut heven h.2.1
  have hstop : Code.Seam u.masked.cells (r.stop - r.start) := by
    have hseam := h.2.2
    have hle := hseam.le
    have hsplit : r.stop = a.masked.cells.length + (r.stop - r.start) := by
      rw [Text.length_cells, hstart, Nat.add_sub_cancel' h.1]
    rw [masked_append, Text.cells_append, ← List.append_nil (_ ++ _), hsplit] at hseam
    rw [masked_append, Text.length_cells, Text.size_append] at hle
    exact hseam.middle (by rw [Text.length_cells]; omega)
  obtain ⟨m, b, rfl, hm, hb, hsize⟩ := (hs.right ha hu).exists_cut hu hstop
  exact ⟨a, m, b, (append_assoc a m b).symm, ha, hm, hb, hstart, by
    rw [hstart, hsize, Nat.add_sub_cancel' h.1]⟩

/-- The type that a part spells. -/
theorem type_middle {a m : Source} (ha : a.Even) (hm : m.Even) (b : Source) :
    (a ++ m ++ b).type ⟨a.masked.size, (a ++ m).masked.size⟩ = .ok (TypeRef.parse m.text) := by
  have hread : m.type ⟨0, m.masked.size⟩ = .ok (TypeRef.parse m.text) := by
    have hslice := Text.slice_append [] m.text []
    simp only [Text.size_nil, Nat.zero_add, List.nil_append, List.append_nil] at hslice
    have hsize : m.masked.size = m.text.size := Eq.symm hm
    simp [type, Text.read, hsize, hslice, bind, Except.bind, pure, Except.pure]
  have hwhole := (within_middle ha m b).type _ _ hread
  rw [masked_append, Text.size_append]
  exact hwhole

/-! Members. -/

/-- The member in a range of a source. -/
def memberAt (s : Source) (className : Code) (r : Range) : Except Fault Member :=
  (Code.memberLayout s.masked.cells className r).read s

/-- The member that a whole source holds. -/
def member (s : Source) (className : Code) : Except Fault Member :=
  s.memberAt className ⟨0, s.masked.cells.length⟩

theorem Sound.exists_member {s : Source} (hs : s.Sound) (hne : 0 < s.masked.size)
    (className : Code) : ∃ v, s.member className = .ok v := by
  obtain ⟨-, -, hread⟩ := @Code.memberLayout_spec s.masked.cells className
    ⟨0, s.masked.cells.length⟩ _ (by simpa using hne) (Code.seam_zero _) (Code.seam_length _)
    (fun _ h => by simp at h) rfl
  obtain ⟨v, hv, -⟩ := hread.exists_read hs
  exact ⟨v, hv⟩

section

variable {a m b : Source} {className : Code}
  (hsealed : Code.Sealed (a ++ m ++ b).masked.cells (a.masked.size + m.masked.size))
include hsealed

/-- A member has the layout in a source that it has on its own. -/
theorem memberLayout_middle :
    Code.memberLayout (a ++ m ++ b).masked.cells className
        ⟨a.masked.size, a.masked.size + m.masked.size⟩ =
      (Code.memberLayout m.masked.cells className ⟨0, m.masked.cells.length⟩).shift
        a.masked.size := by
  have hshows := Code.shows_append a.masked.cells m.masked.cells b.masked.cells
  rw [cells_masked] at hsealed ⊢
  rw [← Text.length_cells, ← Text.length_cells] at hsealed ⊢
  rw [hshows.memberLayout hsealed]

/-- A member is read in a source as it is read on its own. -/
theorem member_middle (ha : a.Even) {v : Member} (h : m.member className = .ok v) :
    (a ++ m ++ b).memberAt className ⟨a.masked.size, a.masked.size + m.masked.size⟩ = .ok v := by
  rw [memberAt, memberLayout_middle hsealed]
  exact (within_middle ha m b).member _ v h

end

end Source

end ClassRefactor
