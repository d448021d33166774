import ClassRefactor.Tree.Render
import ClassRefactor.Proofs.Text.Cut

/-!
# Text up to white space

Removing all white space keeps what a text says. Trimming, indentation and line ends do not show in
it, so two printed forms that differ only in these have the same content.
-/

namespace ClassRefactor

namespace Text

@[simp] theorem strip_nil : strip [] = [] := rfl

@[simp] theorem strip_append (s t : Text) : strip (s ++ t) = strip s ++ strip t := by
  simp [strip]

theorem strip_cons_of_white {c : Char} (hc : isWhite c = true) (t : Text) :
    strip (c :: t) = strip t := by
  simp [strip, hc]

theorem strip_cons_of_solid {c : Char} (hc : isWhite c = false) (t : Text) :
    strip (c :: t) = c :: strip t := by
  simp [strip, hc]

theorem mem_strip {t : Text} {c : Char} (hc : isWhite c = false) : c ∈ t.strip ↔ c ∈ t := by
  simp [strip, List.mem_filter, hc]

theorem mem_iff_of_strip_eq {s t : Text} {c : Char} (hc : isWhite c = false)
    (h : s.strip = t.strip) : c ∈ s ↔ c ∈ t := by
  rw [← mem_strip hc, h, mem_strip hc]

/-- A text with the content of another can be cut at the same solid character. -/
theorem exists_of_strip_eq {s t u : Text} {c : Char} (hc : isWhite c = false)
    (h : s.strip = Text.strip (t ++ c :: u)) :
    ∃ t' u' : Text, s = t' ++ c :: u' ∧ t'.strip = t.strip ∧ u'.strip = u.strip := by
  rw [strip_append, strip_cons_of_solid hc] at h
  obtain ⟨t', r, rfl, ht, hr⟩ := List.filter_eq_append_iff.mp h
  obtain ⟨white, u', rfl, hwhite, -, hu⟩ := List.filter_eq_cons_iff.mp hr
  refine ⟨t' ++ white, u', by simp, ?_, hu⟩
  have hnil : Text.strip white = [] := List.filter_eq_nil_iff.mpr hwhite
  rw [strip_append, hnil, List.append_nil]
  exact ht

theorem strip_eq_nil_iff {t : Text} : strip t = [] ↔ ∀ c ∈ t, isWhite c = true := by
  simp [strip, List.filter_eq_nil_iff]

theorem strip_dropWhile (t : Text) : strip (t.dropWhile isWhite) = strip t := by
  induction t with
  | nil => rfl
  | cons c t ih =>
    by_cases hc : isWhite c = true
    · rw [List.dropWhile_cons_of_pos hc, ih]
      simp [strip, hc]
    · rw [List.dropWhile_cons_of_neg hc]

theorem strip_reverse (t : Text) : strip t.reverse = (strip t).reverse := by
  simp [strip]

@[simp] theorem strip_trimStart (t : Text) : strip t.trimStart = strip t := strip_dropWhile t

@[simp] theorem strip_trimEnd (t : Text) : strip t.trimEnd = strip t := by
  rw [trimEnd, strip_reverse, strip_dropWhile, strip_reverse, List.reverse_reverse]

@[simp] theorem strip_trim (t : Text) : strip t.trim = strip t := by
  simp [trim]

theorem trimStart_append_cons {c : Char} (hc : isWhite c = false) (t u : Text) :
    trimStart (t ++ c :: u) = t.trimStart ++ c :: u := by
  induction t with
  | nil => exact List.dropWhile_cons_of_neg (by simp [hc])
  | cons d t ih =>
    by_cases hd : isWhite d = true
    · rw [trimStart, trimStart, List.cons_append, List.dropWhile_cons_of_pos hd,
        List.dropWhile_cons_of_pos hd]
      exact ih
    · rw [trimStart, trimStart, List.cons_append, List.dropWhile_cons_of_neg hd,
        List.dropWhile_cons_of_neg hd, List.cons_append]

theorem trimEnd_append_cons {c : Char} (hc : isWhite c = false) (t u : Text) :
    trimEnd (t ++ c :: u) = t ++ c :: u.trimEnd := by
  have h := trimStart_append_cons hc u.reverse t.reverse
  rw [trimStart, trimStart] at h
  rw [trimEnd, trimEnd, List.reverse_append, List.reverse_cons, List.append_assoc,
    List.singleton_append, h]
  simp

/-- What trimming at the end takes away is white. -/
theorem exists_trimEnd_append (t : Text) : ∃ w, t = t.trimEnd ++ w ∧ strip w = [] := by
  refine ⟨(t.reverse.takeWhile isWhite).reverse, ?_, ?_⟩
  · rw [trimEnd, ← List.reverse_append, List.takeWhile_append_dropWhile, List.reverse_reverse]
  · rw [strip_eq_nil_iff]
    intro c hc
    exact List.all_eq_true.mp List.all_takeWhile c (List.mem_reverse.mp hc)

end Text

/-- The content of a printed text. -/
def content (s : String) : Text := Text.strip s.toList

@[simp] theorem content_append (s t : String) : content (s ++ t) = content s ++ content t := by
  simp [content]

@[simp] theorem content_ofList (t : Text) : content (.ofList t) = t.strip := by
  simp [content]

@[simp] theorem content_empty : content "" = [] := rfl

theorem content_concat_congr {α : Type} {f g : α → String} {as : List α}
    (h : ∀ a ∈ as, content (f a) = content (g a)) :
    content (concat (as.map f)) = content (concat (as.map g)) := by
  induction as with
  | nil => rfl
  | cons a as ih =>
    simp only [List.map_cons, concat, content_append, h a List.mem_cons_self,
      ih fun b hb => h b (List.mem_cons_of_mem _ hb)]

/-- A separator before each text is one in front of all and one between each two. -/
theorem content_concat_separated {separator mark : String} {s : String} (rest : List String)
    (h : content separator = content mark) :
    content (concat ((s :: rest).map (separator ++ ·))) =
      content separator ++ content (joinWith mark (s :: rest)) := by
  induction rest generalizing s with
  | nil => simp [concat, joinWith]
  | cons t rest ih =>
    have hstep : concat ((s :: t :: rest).map (separator ++ ·)) =
        separator ++ s ++ concat ((t :: rest).map (separator ++ ·)) := rfl
    rw [hstep, content_append, content_append, ih]
    simp [joinWith, h]

/-- A style whose indentation and line ends are white. -/
structure Style.Blank (style : Style) : Prop where
  indent : content style.indent = []
  indentUnit : content style.indentUnit = []
  newline : content style.newline = []

theorem content_spaces (n : Nat) : content (.ofList (List.replicate n ' ')) = [] := by
  rw [content_ofList, Text.strip_eq_nil_iff]
  intro c hc
  rw [List.eq_of_mem_replicate hc]
  decide

theorem Style.Blank.infer (t : Text) {classIndent : String} (h : content classIndent = [])
    (braceOnNewLine : Bool) : (Style.infer t classIndent braceOnNewLine).Blank := by
  have hunit : content (Style.infer t classIndent braceOnNewLine).indentUnit = [] := by
    simp only [Style.infer]
    split
    · rfl
    · exact content_spaces _
  refine ⟨?_, hunit, ?_⟩
  · have hindent : (Style.infer t classIndent braceOnNewLine).indent =
        classIndent ++ (Style.infer t classIndent braceOnNewLine).indentUnit := rfl
    rw [hindent, content_append, h, hunit]
    rfl
  · simp only [Style.infer]
    split <;> rfl

end ClassRefactor
