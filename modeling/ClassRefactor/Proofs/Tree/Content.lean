import ClassRefactor.Proofs.Code.Quiet
import ClassRefactor.Proofs.Text.Cells
import ClassRefactor.Proofs.Tree.WellFormed

/-!
# A type keeps its text

Reading a type drops white space and nothing else, so the text that a type is written as is the text
that it was read from, up to white space. A text that is read as a well-formed type therefore has the
cells of such a type, and its delimiters close.
-/

namespace ClassRefactor

namespace Text

theorem strip_wordsFrom {word t : Text} (hword : ∀ c ∈ word, isWhite c = false) :
    strip (List.intercalate [' '] (wordsFrom word t)) = word.reverse ++ strip t := by
  have hsolid : strip word.reverse = word.reverse := by
    rw [strip, List.filter_eq_self]
    intro c hc
    simp [hword c (List.mem_reverse.mp hc)]
  induction t generalizing word with
  | nil =>
    unfold wordsFrom
    split
    · rename_i hempty
      simp [List.isEmpty_iff.mp hempty]
    · simp [hsolid]
  | cons c t ih =>
    have hrest := @ih [] (by simp) rfl
    unfold wordsFrom
    split
    · rename_i hc
      have hskip : strip (c :: t) = strip t := by simp [strip, hc]
      split
      · rename_i hempty
        rw [hrest, hskip, List.isEmpty_iff.mp hempty]
      · rw [hskip]
        cases hwords : wordsFrom [] t with
        | nil =>
          rw [hwords] at hrest
          have hnil : strip t = [] := hrest.symm
          simp [hsolid, hnil]
        | cons w ws =>
          rw [hwords] at hrest
          rw [List.intercalate_cons_cons, strip_append, strip_append, hrest, hsolid]
          simp [strip, show isWhite ' ' = true by decide]
    · rename_i hc
      have hc : isWhite c = false := by simpa using hc
      have hkeep : strip (c :: t) = c :: strip t := by simp [strip, hc]
      have hword' : ∀ d ∈ c :: word, isWhite d = false := by
        intro d hd
        rcases List.mem_cons.mp hd with rfl | hd
        · exact hc
        · exact hword d hd
      rw [ih hword' (by rw [List.reverse_cons, strip_append, hsolid]; simp [strip, hc]), hkeep]
      simp

theorem strip_compact (t : Text) : strip t.compact = strip t := by
  simpa [compact, words] using @strip_wordsFrom [] t (by simp)

end Text

theorem isQuiet_of_isTypeCell {c : Char} (h : isTypeCell c = true) : isQuiet c = true := by
  simp only [isQuiet, Bool.and_eq_true, bne_iff_ne]
  refine ⟨⟨⟨⟨?_, ?_⟩, ?_⟩, ?_⟩, ?_⟩ <;> rintro rfl <;> exact absurd h (by decide)

namespace TypeRef

/-- The parts of a type that has an argument list. -/
theorem eq_of_splitArguments? {t name inner suffix : Text}
    (h : splitArguments? t = some (name, inner, suffix)) :
    t = name ++ '<' :: (inner ++ '>' :: suffix) ∧ name = t.takeWhile (· != '<') := by
  have hsplit := List.takeWhile_append_dropWhile (p := (· != '<')) (l := t)
  have hhead := List.head?_dropWhile_not (· != '<') t
  unfold splitArguments? at h
  split at h
  · cases h
  · rename_i c rest hdrop
    obtain ⟨n, hn, hparts⟩ := Option.map_eq_some_iff.mp h
    simp only [Prod.mk.injEq] at hparts
    obtain ⟨rfl, rfl, rfl⟩ := hparts
    obtain ⟨hlt, hget⟩ := List.getElem?_eq_some_iff.mp (Code.closeFrom_spec hn)
    rw [hdrop] at hsplit hhead
    obtain rfl : c = '<' := by simpa using hhead
    rw [← hget, ← List.drop_eq_getElem_cons hlt, List.take_append_drop]
    exact ⟨hsplit.symm, rfl⟩

theorem parse_eq (t : Text) :
    parse t =
      if t.trim.head? == some '(' then ⟨.ofList t.trim.compact, [], ""⟩
      else match splitArguments? t.trim with
        | none => ⟨.ofList t.trim.strip, [], ""⟩
        | some (name, inner, suffix) =>
          ⟨.ofList name.strip, (Code.commaPieces inner).map parse, .ofList suffix.strip⟩ := by
  rw [parse]
  split
  · rfl
  · split <;> simp [*]

/-- Type arguments are written with commas where their pieces had them. -/
theorem content_renderArgs {q : Text} {qs : List Text}
    (h : ∀ r ∈ q :: qs, content (parse r).render = Text.strip r) :
    content (renderArgs ((q :: qs).map parse)) = Text.strip (q ++ qs.flatMap (',' :: ·)) := by
  induction qs generalizing q with
  | nil => simpa [renderArgs] using h q List.mem_cons_self
  | cons r qs ih =>
    have hcomma : content ", " = [','] := by decide
    have hstep : renderArgs ((q :: r :: qs).map parse) =
        (parse q).render ++ ", " ++ renderArgs ((r :: qs).map parse) := rfl
    have hjoin : q ++ (r :: qs).flatMap (',' :: ·) =
        q ++ ([','] ++ (r ++ qs.flatMap (',' :: ·))) := rfl
    rw [hstep, hjoin, content_append, content_append, hcomma, h q List.mem_cons_self,
      ih fun s hs => h s (List.mem_cons_of_mem _ hs), Text.strip_append q, Text.strip_append [','],
      List.append_assoc]
    rfl

/-- What a type is written as is what it was read from, up to white space. -/
theorem content_render_parse (t : Text) : content (parse t).render = t.strip := by
  induction hn : t.length using Nat.strongRecOn generalizing t with
  | ind n ih =>
    have hstrip : ∀ u : Text, Text.strip u.strip = u.strip := by simp [Text.strip]
    rw [parse_eq]
    split
    · rw [render_bare, content_ofList, Text.strip_compact, Text.strip_trim]
    · split
      · rw [render_bare, content_ofList, hstrip, Text.strip_trim]
      · rename_i name inner suffix hsplit
        obtain ⟨hparts, -⟩ := eq_of_splitArguments? hsplit
        obtain ⟨p, ps, hpieces, hjoin⟩ := Code.exists_commaPiecesFrom [] inner 0 0
        have hinner := length_lt_of_splitArguments? hsplit
        have htrim := length_trim_le t
        have hargs : content (renderArgs ((p :: ps).map parse)) =
            Text.strip (p ++ ps.flatMap (',' :: ·)) := by
          refine content_renderArgs fun q hq => ?_
          have hle := length_le_of_mem_commaPiecesFrom (hpieces ▸ hq)
          simp only [List.length_nil] at hle
          exact ih q.length (by omega) q rfl
        have hrender : (render ⟨.ofList name.strip, (p :: ps).map parse, .ofList suffix.strip⟩) =
            .ofList name.strip ++ ("<" ++ renderArgs ((p :: ps).map parse) ++ ">") ++
              .ofList suffix.strip := rfl
        have htext : t.trim = name ++ ((['<'] ++ inner ++ ['>']) ++ suffix) := by simp [hparts]
        rw [List.reverse_nil, List.nil_append] at hjoin
        rw [← Text.strip_trim t, htext, Code.commaPieces, hpieces, hrender]
        simp only [content_append, content_ofList, hargs, hjoin, hstrip, Text.strip_append,
          List.append_assoc]
        rfl

/-! Texts that are read as a well-formed type. -/

section

variable {t : Text} (h : (parse t).WellFormed)
include h

theorem WellFormed.cells_of_parse : ∀ c ∈ t, isTypeCell c = true ∨ isWhite c = true := by
  intro c hc
  by_cases hwhite : isWhite c = true
  · exact .inr hwhite
  · left
    have hmem : c ∈ t.strip := by simpa [Text.strip, hwhite] using hc
    rw [← content_render_parse] at hmem
    exact h.typeText.cells c (List.mem_filter.mp hmem).1

/-- No comment and no literal stands in such a text. -/
theorem WellFormed.quiet_of_parse : ∀ c ∈ t, isQuiet c = true := by
  intro c hc
  rcases h.cells_of_parse c hc with htype | hwhite
  · exact isQuiet_of_isTypeCell htype
  · simp only [isQuiet, Bool.and_eq_true, bne_iff_ne]
    refine ⟨⟨⟨⟨?_, ?_⟩, ?_⟩, ?_⟩, ?_⟩ <;> rintro rfl <;> exact absurd hwhite (by decide)

theorem WellFormed.closed_of_parse : Code.stackAfter [] t.cells = some [] := by
  rw [Code.stackAfter_cells, ← Code.stackAfter_strip, ← content_render_parse, content,
    Code.stackAfter_strip]
  exact h.typeText.whole.closed

/-- Such a text begins with white space, an identifier or a parenthesis. -/
theorem WellFormed.head_of_parse {c : Char} {rest : Text} (ht : t = c :: rest) :
    isWhite c = true ∨ isIdentCell c = true ∨ c = '(' := by
  by_cases hwhite : isWhite c = true
  · exact .inl hwhite
  · right
    obtain ⟨d, tail, hrender, hd, hhead⟩ := h.head
    have hcontent := content_render_parse t
    rw [content, hrender, ht] at hcontent
    simp only [Text.strip, List.filter_cons, hd, hwhite, Bool.not_false, if_true] at hcontent
    rwa [← (List.cons.inj hcontent).1]

end

end TypeRef

end ClassRefactor
