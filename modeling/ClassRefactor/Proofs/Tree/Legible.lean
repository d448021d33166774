import Mathlib.Data.List.TakeWhile
import ClassRefactor.Proofs.Code.Nest

/-!
# Types that are read back

A type is read back from the text that it is written as if the delimiters of its parts close, its
names and suffixes hold no white space, and its argument lists follow an identifier. What its names
are made of does not matter otherwise.
-/

namespace ClassRefactor

open Code (stackAfter tight Whole)

namespace Text

theorem not_mem_white_of_strip {t : Text} (h : t.strip = t) {c : Char} (hc : c ∈ t) :
    isWhite c = false := by
  rw [← h, strip, List.mem_filter] at hc
  simpa using hc.2

/-- A text without white space ends with no white space. -/
theorem last_of_strip {t : Text} (h : t.strip = t) (hne : t ≠ []) :
    ∃ c, t.getLast? = some c ∧ isWhite c = false :=
  ⟨_, List.getLast?_eq_some_getLast hne, not_mem_white_of_strip h (List.getLast_mem hne)⟩

theorem last_append_of_strip (front : Text) {c : Char} {suffix : Text} (hc : isWhite c = false)
    (h : suffix.strip = suffix) :
    ∃ d, (front ++ c :: suffix).getLast? = some d ∧ isWhite d = false := by
  have hsolid : Text.strip (c :: suffix) = c :: suffix := by
    rw [← List.singleton_append, strip_append, h]
    simp [strip, hc]
  obtain ⟨d, hd, hw⟩ := last_of_strip hsolid (by simp)
  exact ⟨d, by rw [List.getLast?_append, hd]; rfl, hw⟩

theorem trim_append {before t after : Text} (hbefore : ∀ c ∈ before, isWhite c = true)
    (hafter : ∀ c ∈ after, isWhite c = true) (hhead : ∃ c, t.head? = some c ∧ isWhite c = false)
    (hlast : ∃ c, t.getLast? = some c ∧ isWhite c = false) : trim (before ++ t ++ after) = t := by
  obtain ⟨c, hc, hcw⟩ := hhead
  obtain ⟨d, hd, hdw⟩ := hlast
  have hstart : trimStart (before ++ t ++ after) = t ++ after := by
    obtain ⟨rest, rfl⟩ := List.head?_eq_some_iff.mp hc
    rw [trimStart, List.append_assoc, List.dropWhile_append_of_pos hbefore, List.cons_append,
      List.dropWhile_cons_of_neg (by simp [hcw])]
  have hstop : trimEnd (t ++ after) = t := by
    obtain ⟨init, rfl⟩ := List.getLast?_eq_some_iff.mp hd
    rw [trimEnd, List.reverse_append, List.dropWhile_append_of_pos (by simpa using hafter),
      List.reverse_append, List.reverse_singleton, List.singleton_append,
      List.dropWhile_cons_of_neg (by simp [hdw])]
    simp
  rw [trim, hstart, hstop]

end Text

/-- A name with an argument list and what follows the list is cut at no comma. -/
theorem Code.Whole.generic {name arg suffix : Code} {args : List Code} (hname : Whole name)
    (hlast : ∃ c, name.getLast? = some c ∧ isIdentCell c = true) (harg : Whole arg)
    (hargs : ∀ l ∈ args, Whole l) (hsuffix : Whole suffix) :
    Whole (name ++ '<' :: (arg ++ args.flatMap (',' :: ·) ++ '>' :: suffix)) := by
  obtain ⟨last, hlast, hident⟩ := hlast
  refine ⟨?_, ?_⟩
  · rw [stackAfter_append, hname.closed, Option.bind_some, stackAfter_cons rfl, stackAfter_append,
      stackAfter_append, harg.stackAfter, Option.bind_some, stackAfter_commas hargs,
      Option.bind_some, stackAfter_cons rfl]
    exact hsuffix.closed
  · have hinner : Code.stackAfter ['>'] (arg ++ args.flatMap (',' :: ·)) = some ['>'] := by
      rw [stackAfter_append, harg.stackAfter, Option.bind_some, stackAfter_commas hargs]
    have htail : ∀ previous, Code.tight ['>'] previous ('>' :: suffix) = true := by
      intro previous
      have : Code.tight [] (some '>') suffix = true := hsuffix.tight_within (by decide) []
      simpa [Code.tight, push] using this
    rw [tight_append hname.closed, hname.tight, hlast, Bool.true_and, Code.tight]
    simp only [Option.some_or, Option.any_some, hident, Bool.or_true, Bool.and_true,
      show push [] '<' = some ['>'] from rfl]
    rw [tight_append hinner, htail, tight_append (harg.stackAfter _),
      harg.tight_within (by decide), tight_commas hargs (by simp)]
    rfl

/-- A name in a type: neither type arguments nor a tuple begin in it. -/
structure SolidName (t : Text) : Prop where
  whole : Whole t
  solid : t.strip = t
  head : ∃ c, t.head? = some c ∧ c ≠ '('
  simple : '<' ∉ t

/-- Types whose text can be told apart again. -/
inductive TypeRef.Legible : TypeRef → Prop
  | named {name : String} (hname : SolidName name.toList) : Legible ⟨name, [], ""⟩
  | tuple {name : String} (hwhole : Whole name.toList) (hhead : name.toList.head? = some '(')
    (hlast : ∃ c, name.toList.getLast? = some c ∧ isWhite c = false)
    (hcompact : Text.compact name.toList = name.toList) : Legible ⟨name, [], ""⟩
  | generic {name suffix : String} {args : List TypeRef} (hname : SolidName name.toList)
    (hlast : ∃ c, name.toList.getLast? = some c ∧ isIdentCell c = true) (hargs : args ≠ [])
    (hall : ∀ a ∈ args, Legible a) (hwhole : Whole suffix.toList)
    (hsolid : Text.strip suffix.toList = suffix.toList) : Legible ⟨name, args, suffix⟩

namespace TypeRef

theorem renderArgs_toList (a : TypeRef) (as : List TypeRef) :
    (renderArgs (a :: as)).toList =
      a.render.toList ++ (as.map fun b => ' ' :: b.render.toList).flatMap (',' :: ·) := by
  induction as generalizing a with
  | nil => simp [renderArgs]
  | cons b as ih => simp [renderArgs, ih, String.toList_append]

theorem render_generic (name suffix : String) (a : TypeRef) (as : List TypeRef) :
    (render ⟨name, a :: as, suffix⟩).toList =
      name.toList ++ '<' :: (a.render.toList ++
        (as.map fun b => ' ' :: b.render.toList).flatMap (',' :: ·) ++ '>' :: suffix.toList) := by
  simp [render, String.toList_append, renderArgs_toList]

theorem render_bare (name : String) : (render ⟨name, [], ""⟩) = name := by
  simp [render]

theorem splitArguments?_of_not_mem {t : Text} (h : '<' ∉ t) : splitArguments? t = none := by
  have hdrop : t.dropWhile (· != '<') = [] := by
    rw [List.dropWhile_eq_nil_iff]
    intro c hc
    simp only [bne_iff_ne]
    rintro rfl
    exact h hc
  simp [splitArguments?, hdrop]

theorem splitArguments?_generic {name inner : Text} (suffix : Text) (hname : '<' ∉ name)
    (hinner : stackAfter [] inner = some []) :
    splitArguments? (name ++ '<' :: (inner ++ '>' :: suffix)) = some (name, inner, suffix) := by
  have hpass : ∀ c ∈ name, (c != '<') = true := by
    intro c hc
    simp only [bne_iff_ne]
    rintro rfl
    exact hname hc
  have hclose : Code.closeFrom '<' '>' 0 (inner ++ '>' :: suffix) = some inner.length := by
    have := Code.closeFrom_nested hinner (.inr (.inr ⟨rfl, rfl⟩)) 0 ('>' :: suffix)
    simpa [Code.closeFrom] using this
  simp [splitArguments?, List.dropWhile_append_of_pos hpass, List.takeWhile_append_of_pos hpass,
    hclose]

namespace Legible

variable {t : TypeRef} (h : t.Legible)
include h

theorem whole : Whole t.render.toList := by
  induction h with
  | named hname => rw [render_bare]; exact hname.whole
  | tuple hwhole => rw [render_bare]; exact hwhole
  | @generic name suffix args hname hlast hargs hall hwhole hsolid ih =>
    cases args with
    | nil => exact absurd rfl hargs
    | cons a as =>
      rw [render_generic]
      refine hname.whole.generic hlast (ih a List.mem_cons_self) (fun l hl => ?_) hwhole
      obtain ⟨b, hb, rfl⟩ := List.mem_map.mp hl
      exact (ih b (List.mem_cons_of_mem _ hb)).space

/-- A written type begins with no white space. -/
theorem head : ∃ c, t.render.toList.head? = some c ∧ isWhite c = false := by
  have hname : ∀ {name : Text}, SolidName name → ∃ c, name.head? = some c ∧ isWhite c = false := by
    intro name hname
    obtain ⟨c, hc, -⟩ := hname.head
    exact ⟨c, hc, Text.not_mem_white_of_strip hname.solid (List.mem_of_mem_head? hc)⟩
  cases h with
  | named h => rw [render_bare]; exact hname h
  | tuple hwhole hhead => rw [render_bare]; exact ⟨'(', hhead, by decide⟩
  | @generic name suffix args h hlast hargs hall hwhole hsolid =>
    cases args with
    | nil => exact absurd rfl hargs
    | cons a as =>
      obtain ⟨c, hc, hw⟩ := hname h
      rw [render_generic, List.head?_append, hc]
      exact ⟨c, rfl, hw⟩

/-- A written type ends with no white space. -/
theorem last : ∃ c, t.render.toList.getLast? = some c ∧ isWhite c = false := by
  cases h with
  | named h =>
    obtain ⟨c, hc, -⟩ := h.head
    rw [render_bare]
    exact Text.last_of_strip h.solid (by rintro hnil; rw [hnil] at hc; cases hc)
  | tuple hwhole hhead hlast => rw [render_bare]; exact hlast
  | @generic name suffix args h hlast hargs hall hwhole hsolid =>
    cases args with
    | nil => exact absurd rfl hargs
    | cons a as =>
      rw [render_generic, ← List.cons_append, ← List.append_assoc]
      exact Text.last_append_of_strip _ (by decide) hsolid

theorem trim {before after : Text} (hbefore : ∀ c ∈ before, isWhite c = true)
    (hafter : ∀ c ∈ after, isWhite c = true) :
    Text.trim (before ++ t.render.toList ++ after) = t.render.toList :=
  Text.trim_append hbefore hafter h.head h.last

/-- A legible type is read back from its text, also with white space around it. -/
theorem parse_around {before after : Text} (hbefore : ∀ c ∈ before, isWhite c = true)
    (hafter : ∀ c ∈ after, isWhite c = true) :
    parse (before ++ t.render.toList ++ after) = t := by
  have htrim := h.trim hbefore hafter
  have hnot : ∀ {name : Text}, SolidName name → ∀ rest : Text,
      ((name ++ rest).head? == some '(') = false := by
    intro name hname rest
    obtain ⟨c, hc, hne⟩ := hname.head
    simp [List.head?_append, hc, hne]
  induction h generalizing before after with
  | @named name h =>
    rw [render_bare] at htrim ⊢
    have hhead : (name.toList.head? == some '(') = false := by simpa using hnot h []
    rw [parse, htrim, hhead]
    simp only [Bool.false_eq_true, ↓reduceIte]
    split
    · rw [h.solid, String.ofList_toList]
    · rename_i hsplit
      rw [splitArguments?_of_not_mem h.simple] at hsplit
      cases hsplit
  | @tuple name hwhole hhead hlast hcompact =>
    rw [render_bare] at htrim ⊢
    rw [parse, htrim, hhead, if_pos (by rfl), hcompact, String.ofList_toList]
  | @generic name suffix args h hlast hargs hall hwhole hsolid ih =>
    cases args with
    | nil => exact absurd rfl hargs
    | cons a as =>
      have htexts : ∀ l ∈ as.map fun b => ' ' :: b.render.toList, Whole l := by
        intro l hl
        obtain ⟨b, hb, rfl⟩ := List.mem_map.mp hl
        exact (hall b (List.mem_cons_of_mem _ hb)).whole.space
      have hfirst := (hall a List.mem_cons_self).whole
      have hpieces := Code.commaPieces_whole hfirst htexts
      have hinner : stackAfter [] (a.render.toList ++
          (as.map fun b => ' ' :: b.render.toList).flatMap (',' :: ·)) = some [] := by
        rw [Code.stackAfter_append, hfirst.closed, Option.bind_some, Code.stackAfter_commas htexts]
      have hsplit := splitArguments?_generic suffix.toList h.simple hinner
      have hno : ∀ c ∈ ([] : Text), isWhite c = true := by simp
      have hspace : ∀ c ∈ [' '], isWhite c = true := by decide
      have hread : parse a.render.toList = a := by
        simpa using ih a List.mem_cons_self hno hno ((hall a List.mem_cons_self).trim hno hno)
      have hrest : ∀ b ∈ as, parse (' ' :: b.render.toList) = b := by
        intro b hb
        have hb' := List.mem_cons_of_mem a hb
        simpa using ih b hb' hspace hno ((hall b hb').trim hspace hno)
      rw [render_generic] at htrim ⊢
      rw [parse, htrim, hnot h]
      simp only [Bool.false_eq_true, ↓reduceIte]
      split
      · rename_i hnone
        rw [hsplit] at hnone
        cases hnone
      · rename_i name' inner' suffix' hsome
        rw [hsplit] at hsome
        simp only [Option.some.injEq, Prod.mk.injEq] at hsome
        obtain ⟨rfl, rfl, rfl⟩ := hsome
        rw [h.solid, hsolid, String.ofList_toList, String.ofList_toList]
        congr 1
        rw [hpieces, List.attach_map_val (f := parse), List.map_cons, hread, List.map_map]
        exact congrArg (a :: ·) ((List.map_congr_left hrest).trans (List.map_id' as))

theorem parse_render : parse t.render.toList = t := by
  have hno : ∀ c ∈ ([] : Text), isWhite c = true := by simp
  simpa using h.parse_around hno hno

end Legible

end TypeRef

end ClassRefactor
